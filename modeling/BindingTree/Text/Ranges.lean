/-! Sets and maps of code points given by ascending tables. Both searches stop at the first entry
that starts above the code point, so a table is cheap to consult near its start. -/

namespace BindingTree.Text

/-- Ascending ranges of code points, both ends included. -/
abbrev Ranges := List (Nat × Nat)

def Ranges.has : Ranges → Nat → Bool
  | [], _ => false
  | (lo, hi) :: rest, n => if n < lo then false else if n ≤ hi then true else Ranges.has rest n

/-- Every `step`-th code point from `first` to `last`, moved by the distance that takes `first`
to `image`. -/
structure Run where
  first : Nat
  last : Nat
  step : Nat
  image : Nat

/-- The image of a code point under the ascending runs, if one of them moves it. -/
def Run.image? : List Run → Nat → Option Nat
  | [], _ => none
  | r :: rest, n =>
    if n < r.first then none
    else if n ≤ r.last then
      if (n - r.first) % r.step = 0 then some (r.image + (n - r.first)) else none
    else Run.image? rest n

end BindingTree.Text
