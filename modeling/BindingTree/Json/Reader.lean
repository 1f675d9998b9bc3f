import BindingTree.Json.Number
import BindingTree.Json.Text

/-! From texts to trees. A tree always comes out; where the text breaks it has a leaf for the
break, and nothing after the break is looked at. -/

namespace BindingTree.Json

def isSpace (c : Char) : Bool := c = ' ' || c = '\t' || c = '\n' || c = '\r'

def skipSpace (cs : List Char) : List Char := cs.dropWhile isSpace

/-- Follows the letters of a literal after its first. -/
def readLiteral (v : Json) : List Char → List Char → Json × List Char
  | [], cs => (v, cs)
  | _ :: _, [] => (.brokenValue .ended .ended, [])
  | c :: letters, d :: cs =>
    if c = d then readLiteral v letters cs else (.brokenValue .malformed .malformed, [])

/-- A value that begins with `c` and is neither string nor list nor object. -/
def readScalar (c : Char) (cs : List Char) : Json × List Char :=
  if c = 'n' then readLiteral .null "ull".toList cs
  else if c = 't' then readLiteral (.bool true) "rue".toList cs
  else if c = 'f' then readLiteral (.bool false) "alse".toList cs
  else if c = '-' || c.isDigit then readNumber (c :: cs)
  else (.brokenValue .malformed .malformed, [])

def Key.value : Key → Json
  | .text s => .str s
  | .garbled => .garbled
  | .broken reading passing => .brokenText reading passing
  | .foreign fault => .brokenValue fault fault

mutual

/-- The value at the front of a text, within `fuel` nested steps. -/
def readValue : Nat → List Char → Json × List Char
  | 0, _ => (.absent, [])
  | fuel + 1, cs =>
    match skipSpace cs with
    | [] => (.absent, [])
    | '"' :: cs => let (key, rest) := readText cs; (key.value, rest)
    | '[' :: cs =>
      match skipSpace cs with
      | [] => (.arr [] (some .ended), [])
      | ']' :: cs => (.arr [] none, cs)
      | cs => let (items, broken, rest) := readItems fuel cs; (.arr items broken, rest)
    | '{' :: cs =>
      match skipSpace cs with
      | [] => (.obj [] (some .ended), [])
      | '}' :: cs => (.obj [] none, cs)
      | cs => let (members, broken, rest) := readMembers fuel cs; (.obj members broken, rest)
    | c :: cs => readScalar c cs

/-- The items of a list from one of them on. -/
def readItems : Nat → List Char → List Json × Option Fault × List Char
  | 0, _ => ([.absent], none, [])
  | fuel + 1, cs =>
    let (v, cs) := readValue fuel cs
    match skipSpace cs with
    | [] => ([v], some .ended, [])
    | ']' :: cs => ([v], none, cs)
    | ',' :: cs => let (vs, broken, rest) := readItems fuel cs; (v :: vs, broken, rest)
    | _ => ([v], some .malformed, [])

/-- The members of an object from a key on. -/
def readMembers : Nat → List Char → List (Key × Json) × Option Fault × List Char
  | 0, _ => ([(.broken .ended .ended, .absent)], none, [])
  | fuel + 1, cs =>
    match skipSpace cs with
    | [] => ([(.broken .ended .ended, .absent)], none, [])
    | '"' :: cs =>
      let (key, cs) := readText cs
      match skipSpace cs with
      | [] => ([(key, .absent)], none, [])
      | ':' :: cs =>
        let (v, cs) := readValue fuel cs
        match skipSpace cs with
        | [] => ([(key, v)], some .ended, [])
        | '}' :: cs => ([(key, v)], none, cs)
        | ',' :: cs => let (ms, broken, rest) := readMembers fuel cs; ((key, v) :: ms, broken, rest)
        | _ => ([(key, v)], some .malformed, [])
      | _ => ([(key, .brokenValue .malformed .malformed)], none, [])
    | cs => ([(.foreign (readValue fuel cs).1.refusal, .absent)], none, [])

end

/-- The value at the front of a text and the text after it. Each nested step takes up a character
or is followed by one that does. -/
def read (text : List Char) : Json × List Char := readValue (2 * text.length + 2) text

/-- Reads a whole text with a reader of trees. Nothing but space may follow the value. -/
def decode {α : Type} (reader : Json → Except Fault α) (text : String) : Except Fault α := do
  let (v, rest) := read text.toList
  let a ← reader (v.limit nestingLimit)
  if skipSpace rest = [] then return a else .error .malformed

end BindingTree.Json
