import BindingTree.Failure
import BindingTree.Text.Casing

/-! How native names become managed identifiers. A translator answers for whole names and for names of
fields, and its answers are taken as they are. Unless it has its own way to answer, it says what
becomes of a single segment: dotted names and names of fields are put together from that, and are
checked. -/

namespace BindingTree.Naming

open Text

/-- Refuses a name as an identifier. -/
def refuse {α : Type} (name : String) (fault : IdentifierFault) : Except Failure α :=
  .error (.invalidIdentifier ⟨name, fault⟩)

/-- What becomes of the segments of a name, and of the dots between them. -/
structure SegmentRule where
  /-- Whether the dots of a name stand between its translated segments. -/
  keepDots : Bool
  segment : String → Except Failure String

structure Translator extends SegmentRule where
  translate : String → Except Failure String
  translateField : String → Except Failure String

/-- The non-empty words between underscores, lowered. -/
def fieldWords (name : String) : List (List Char) :=
  ((pieces (· = '_') name.toList).filter (· ≠ [])).map lowerAll

variable [Alphabet]

namespace SegmentRule

/-- Translates and checks one segment of `name`. -/
def part (r : SegmentRule) (name segment : String) : Except Failure String :=
  if segment = "" then refuse name .emptyBetweenDots
  else do (checkIdentifier (← r.segment segment)).mapError .invalidIdentifier

def separator (r : SegmentRule) : String := if r.keepDots then "." else ""

/-- Translates a name segment by segment. -/
def translateSegments (r : SegmentRule) (name : String) : Except Failure String :=
  if name = "" then refuse name .emptyName
  else do return r.separator.intercalate (← (segments name).mapM (r.part name))

end SegmentRule

/-- Translates the name of a field: underscores separate words, which are lowered and capitalized. A
name without underscores is translated like any other. -/
def translateWords (translate : String → Except Failure String) (name : String) :
    Except Failure String :=
  if '_' ∈ name.toList then
    let managed := String.ofList ((fieldWords name).flatMap capitalize)
    if (identifierFault? managed).isSome then refuse name .noWords else .ok managed
  else translate name

/-- The translator that goes by a rule for segments. -/
def SegmentRule.translator (r : SegmentRule) : Translator :=
  { r with
    translate := r.translateSegments
    translateField := translateWords r.translateSegments }

namespace Translator

/-- Capitalizes every segment. -/
def plain (keepDots : Bool) : Translator :=
  SegmentRule.translator
    { keepDots
      segment s :=
        if s = "" then refuse s .emptySegment else .ok (String.ofList (capitalize s.toList)) }

/-- Capitalizes every segment and, with `raisePairs`, raises segments of two characters whole. -/
def platform (raisePairs keepDots : Bool) : Translator :=
  SegmentRule.translator
    { keepDots
      segment s :=
        if raisePairs && s.toList.length = 2 then .ok (String.ofList (upperAll s.toList))
        else (plain keepDots).segment s }

end Translator

end BindingTree.Naming
