import BindingTree.Text.CaseMaps

/-! Upper and lower case by the full Unicode mappings: one character may become several, and a
capital sigma is lowered by its place in the word. -/

namespace BindingTree.Text

/-- The image of `c` under a table of expansions and, failing that, a table of runs. -/
def mapCase (expansions : List (Nat × List Nat)) (runs : List Run) (c : Char) : List Char :=
  match expansions.lookup c.toNat with
  | some ns => ns.map Char.ofNat
  | none => match Run.image? runs c.toNat with
    | some n => [Char.ofNat n]
    | none => [c]

def upper (c : Char) : List Char := mapCase upperExpansions upperRuns c

/-- The lower-case form of a character on its own. -/
def lower (c : Char) : List Char := mapCase lowerExpansions lowerRuns c

def isUppercase (c : Char) : Bool := uppercaseRanges.has c.toNat

def isCased (c : Char) : Bool := casedRanges.has c.toNat

def isCaseIgnorable (c : Char) : Bool := caseIgnorableRanges.has c.toNat

/-- Whether the next character that counts is a letter with a case. -/
def meetsLetter (cs : List Char) : Bool :=
  match cs.dropWhile isCaseIgnorable with
  | [] => false
  | c :: _ => isCased c

def upperAll (cs : List Char) : List Char := cs.flatMap upper

/-- Lowers `cs`, with the text before it given backwards: a sigma that closes a word takes the
final form. -/
def lowerAfter (before : List Char) : List Char → List Char
  | [] => []
  | c :: cs =>
    (if c = 'Σ' then [if meetsLetter before && !meetsLetter cs then 'ς' else 'σ'] else lower c)
      ++ lowerAfter (c :: before) cs

def lowerAll (cs : List Char) : List Char := lowerAfter [] cs

/-- Raises the first character and nothing else. -/
def capitalize : List Char → List Char
  | [] => []
  | c :: cs => upper c ++ cs

end BindingTree.Text
