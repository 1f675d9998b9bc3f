import BindingTree.Json.Basic

/-! JSON texts from trees, laid out with two blanks for each level. Only the parts of a tree that
stand for values are written. -/

namespace BindingTree.Json

def hexDigits : List Char := "0123456789abcdef".toList

/-- A character as it stands in a string: quotes, backslashes and control characters are
escaped. -/
def escape (c : Char) : List Char :=
  if c = '"' then ['\\', '"']
  else if c = '\\' then ['\\', '\\']
  else if c = '\n' then ['\\', 'n']
  else if c = '\r' then ['\\', 'r']
  else if c = '\t' then ['\\', 't']
  else if c = '\x08' then ['\\', 'b']
  else if c = '\x0c' then ['\\', 'f']
  else if c.toNat < 0x20 then
    ['\\', 'u', '0', '0'] ++ [hexDigits.getD (c.toNat / 16) '0', hexDigits.getD (c.toNat % 16) '0']
  else [c]

def quoted (s : String) : String := "\"" ++ String.ofList (s.toList.flatMap escape) ++ "\""

/-- A line break and the blanks of a level. -/
def breakTo (level : Nat) : String := "\n" ++ String.ofList (List.replicate (2 * level) ' ')

/-- Items between brackets, each on a line of its own. -/
def enclose (opening closing : String) (level : Nat) (items : List String) : String :=
  if items = [] then opening ++ closing
  else opening ++ breakTo (level + 1) ++ ("," ++ breakTo (level + 1)).intercalate items
    ++ breakTo level ++ closing

mutual

def prettyAt (level : Nat) : Json → String
  | .null => "null"
  | .bool b => if b then "true" else "false"
  | .nat n => toString n
  | .neg n => "-" ++ toString n
  | .str s => quoted s
  | .arr items _ => enclose "[" "]" level (prettyItems (level + 1) items)
  | .obj members _ => enclose "\x7b" "\x7d" level (prettyMembers (level + 1) members)
  | .deep v => prettyAt level v
  | _ => ""

def prettyItems (level : Nat) : List Json → List String
  | [] => []
  | v :: vs => prettyAt level v :: prettyItems level vs

def prettyMembers (level : Nat) : List (Key × Json) → List String
  | [] => []
  | (.text k, v) :: ms => (quoted k ++ ": " ++ prettyAt level v) :: prettyMembers level ms
  | _ :: ms => prettyMembers level ms

end

def pretty (v : Json) : String := prettyAt 0 v

end BindingTree.Json
