/-! What can be wrong with a JSON text: it ends early, it is not JSON, or it is JSON of the wrong
shape. Readers report the first fault in the order of the text. -/

namespace BindingTree

/-- The three classes of faults. -/
inductive FaultClass where
  | ended
  | malformed
  | shape
  deriving DecidableEq, Repr

namespace Json

inductive Fault where
  | ended
  | malformed
  | mistyped
  | missing (key : String)
  | repeated (key : String)
  | badVisibility (text : String)
  | badChoice (text first second : String)
  deriving DecidableEq, Repr

def Fault.category : Fault → FaultClass
  | .ended => .ended
  | .malformed => .malformed
  | _ => .shape

/-- The words for a fault of shape that names a key or a text. -/
def Fault.message? : Fault → Option String
  | .ended | .malformed | .mistyped => none
  | .missing key => some ("missing field `" ++ key ++ "`")
  | .repeated key => some ("duplicate field `" ++ key ++ "`")
  | .badVisibility text => some ("Unsupported visibility value: " ++ text)
  | .badChoice text first second =>
    some ("unknown variant `" ++ text ++ "`, expected `" ++ first ++ "` or `" ++ second ++ "`")

end Json

end BindingTree
