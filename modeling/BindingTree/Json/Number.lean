import BindingTree.Json.Basic

/-! Numbers in JSON texts. A whole number of 64 bits is kept; of any other number only its range
matters: whether it rounds to a finite number of double precision, when its digits beyond 64 bits
are cut off and the power of ten is applied in one rounded multiplication. -/

namespace BindingTree.Json

def wordLimit : Nat := Nat.pow 2 64

/-- `n` rounded to 53 binary digits, a tie to the even neighbour. -/
def roundToDouble (n : Nat) : Nat :=
  if n < Nat.pow 2 53 then n
  else
    let unit := Nat.pow 2 (n.log2 - 52)
    let low := n / unit
    let rest := n % unit
    (if 2 * rest < unit || (2 * rest = unit && low % 2 = 0) then low else low + 1) * unit

/-- The smallest product that is rounded to infinity. -/
def overflowBound : Nat := Nat.pow 2 1024 - Nat.pow 2 970

/-- Whether `mantissa · 10 ^ exponent` is finite. -/
def isFinite (mantissa : Nat) (exponent : Int) : Bool :=
  mantissa = 0 || exponent < 0 ||
    (exponent ≤ 308 &&
      roundToDouble mantissa * roundToDouble (Nat.pow 10 exponent.toNat) < overflowBound)

/-- A mantissa of 64 bits and a power of ten. -/
structure Scaled where
  mantissa : Nat
  exponent : Int

/-- Takes up the digits before the point: from the first that does not fit, each counts as a
power of ten. -/
def Scaled.whole (s : Scaled) : List Char → Scaled
  | [] => s
  | d :: ds =>
    let m := s.mantissa * 10 + (d.toNat - 48)
    if m < wordLimit then whole ⟨m, s.exponent⟩ ds
    else ⟨s.mantissa, s.exponent + ds.length + 1⟩

/-- Takes up the digits after the point up to the first that does not fit. -/
def Scaled.fraction (s : Scaled) : List Char → Scaled
  | [] => s
  | d :: ds =>
    let m := s.mantissa * 10 + (d.toNat - 48)
    if m < wordLimit then fraction ⟨m, s.exponent - 1⟩ ds else s

/-- The value of a run of digits. -/
def digitsValue (ds : List Char) : Nat := ds.foldl (fun n d => n * 10 + (d.toNat - 48)) 0

/-- The largest power of ten that is counted. -/
def exponentLimit : Nat := Nat.pow 2 31 - 1

/-- The range of a number with the given digits and signed power of ten. -/
def inRange (whole fraction : List Char) (negative : Bool) (power : List Char) : Bool :=
  let s := (Scaled.mk 0 0 |>.whole whole).fraction fraction
  let p := digitsValue power
  if exponentLimit < p then negative || s.mantissa = 0
  else isFinite s.mantissa (if negative then s.exponent - p else s.exponent + p)

/-- A number without fraction and power. -/
def wholeNumber (negative : Bool) (digits : List Char) : Json :=
  let n := digitsValue digits
  if negative then
    if n = 0 then .real true
    else if n ≤ Nat.pow 2 63 then .neg n
    else .real (inRange digits [] false [])
  else if n < wordLimit then .nat n
  else .real (inRange digits [] false [])

/-- Reading stops at a digit that is missing; passing over finds no digit there either way. -/
def missingDigit (rest : List Char) : Json × List Char :=
  (.brokenValue (if rest = [] then .ended else .malformed) .malformed, [])

/-- The power of ten after its letter. -/
def readPower (whole fraction : List Char) (cs : List Char) : Json × List Char :=
  let (negative, cs) := match cs with
    | '+' :: cs => (false, cs)
    | '-' :: cs => (true, cs)
    | cs => (false, cs)
  match cs.takeWhile Char.isDigit with
  | [] => missingDigit cs
  | power => (.real (inRange whole fraction negative power), cs.dropWhile Char.isDigit)

/-- What follows the digits before the point. -/
def readTail (negative : Bool) (whole : List Char) : List Char → Json × List Char
  | '.' :: cs =>
    match cs.takeWhile Char.isDigit, cs.dropWhile Char.isDigit with
    | [], rest => missingDigit rest
    | fraction, 'e' :: rest | fraction, 'E' :: rest => readPower whole fraction rest
    | fraction, rest => (.real (inRange whole fraction false []), rest)
  | 'e' :: cs | 'E' :: cs => readPower whole [] cs
  | cs => (wholeNumber negative whole, cs)

/-- A number from its sign or first digit on. No digit follows a leading zero. -/
def readNumber (cs : List Char) : Json × List Char :=
  let (negative, cs) := match cs with
    | '-' :: cs => (true, cs)
    | cs => (false, cs)
  match cs.takeWhile Char.isDigit with
  | [] => missingDigit cs
  | '0' :: _ :: _ => (.brokenValue .malformed .malformed, [])
  | whole => readTail negative whole (cs.dropWhile Char.isDigit)

end BindingTree.Json
