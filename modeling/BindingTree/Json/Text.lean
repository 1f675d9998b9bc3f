import BindingTree.Json.Basic

/-! Strings in JSON texts. A string is first taken apart into code units up to its closing quote,
then surrogates are paired. -/

namespace BindingTree.Json

/-- The value of a hexadecimal digit. -/
def hexDigit? (c : Char) : Option Nat :=
  if c.isDigit then some (c.toNat - 48)
  else if 'a' ≤ c && c ≤ 'f' then some (c.toNat - 87)
  else if 'A' ≤ c && c ≤ 'F' then some (c.toNat - 55)
  else none

def hexValue? : List Char → Option Nat :=
  List.foldl (fun acc c => do return (← acc) * 16 + (← hexDigit? c)) (some 0)

/-- The character that an escape letter stands for. -/
def escaped? : Char → Option Char
  | '"' => some '"'
  | '\\' => some '\\'
  | '/' => some '/'
  | 'b' => some '\x08'
  | 'f' => some '\x0c'
  | 'n' => some '\n'
  | 'r' => some '\r'
  | 't' => some '\t'
  | _ => none

/-- The bytes that a text takes. -/
def byteLength (cs : List Char) : Nat := cs.foldl (fun n c => n + c.utf8Size) 0

/-- Code units up to the closing quote, and the text after it or the fault that comes first. An
escape by number needs four bytes of text before its digits are looked at. -/
def readUnits : List Char → List Nat × Except Fault (List Char)
  | [] => ([], .error .ended)
  | '"' :: cs => ([], .ok cs)
  | '\\' :: 'u' :: a :: b :: c :: d :: cs =>
    match hexValue? [a, b, c, d] with
    | some n => let (us, r) := readUnits cs; (n :: us, r)
    | none => ([], .error .malformed)
  | '\\' :: 'u' :: cs => ([], .error (if byteLength cs < 4 then .ended else .malformed))
  | ['\\'] => ([], .error .ended)
  | '\\' :: c :: cs =>
    match escaped? c with
    | some d => let (us, r) := readUnits cs; (d.toNat :: us, r)
    | none => ([], .error .malformed)
  | c :: cs =>
    if c.toNat < 0x20 then ([], .error .malformed)
    else let (us, r) := readUnits cs; (c.toNat :: us, r)

def isLeading (u : Nat) : Bool := 0xD800 ≤ u && u ≤ 0xDBFF

def isTrailing (u : Nat) : Bool := 0xDC00 ≤ u && u ≤ 0xDFFF

/-- The characters up to the first unpaired surrogate, and the units from there on. -/
def pairUnits : List Nat → List Char × List Nat
  | [] => ([], [])
  | [u] => if isLeading u || isTrailing u then ([], [u]) else ([Char.ofNat u], [])
  | u :: v :: us =>
    if isLeading u && isTrailing v then
      let (cs, rest) := pairUnits us
      (Char.ofNat (0x10000 + (u - 0xD800) * 0x400 + (v - 0xDC00)) :: cs, rest)
    else if isLeading u || isTrailing u then ([], u :: v :: us)
    else
      let (cs, rest) := pairUnits (v :: us)
      (Char.ofNat u :: cs, rest)

/-- Whether units left unpaired could still be paired by what follows. -/
def mayPair : List Nat → Bool
  | [] => true
  | [u] => isLeading u
  | _ => false

/-- A string from after its opening quote on. -/
def readText (cs : List Char) : Key × List Char :=
  let (units, outcome) := readUnits cs
  let (chars, unpaired) := pairUnits units
  match outcome with
  | .ok rest => (if unpaired = [] then .text (String.ofList chars) else .garbled, rest)
  | .error fault => (.broken (if mayPair unpaired then fault else .malformed) fault, [])

end BindingTree.Json
