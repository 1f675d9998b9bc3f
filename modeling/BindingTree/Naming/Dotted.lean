import BindingTree.Text.Pieces

/-! Dotted names: their segments, and the cut at the last dot. -/

namespace BindingTree.Naming

open Text

def segments (name : String) : List String :=
  (pieces (· = '.') name.toList).map String.ofList

/-- What stands before the last dot and after it. -/
def lastDot : List Char → Option (List Char × List Char)
  | [] => none
  | c :: cs => match lastDot cs with
    | some (before, after) => some (c :: before, after)
    | none => if c = '.' then some ([], cs) else none

theorem lastDot_of_forall {cs : List Char} (h : ∀ c ∈ cs, c ≠ '.') : lastDot cs = none := by
  induction cs with
  | nil => rfl
  | cons c cs ih =>
    rw [lastDot, ih fun x hx => h x (List.mem_cons_of_mem _ hx)]
    simp [h c List.mem_cons_self]

/-- The part after the last dot has no dot of its own, and the two parts make up the text. -/
theorem eq_append_of_lastDot {cs before after : List Char} (h : lastDot cs = some (before, after)) :
    cs = before ++ '.' :: after ∧ lastDot after = none := by
  induction cs generalizing before with
  | nil => simp [lastDot] at h
  | cons c cs ih =>
    rw [lastDot] at h
    cases hc : lastDot cs with
    | some p =>
      obtain ⟨p, q⟩ := p
      rw [hc] at h
      simp only [Option.some.injEq, Prod.mk.injEq] at h
      obtain ⟨rfl, rfl⟩ := h
      exact ⟨by simp [(ih hc).1], (ih hc).2⟩
    | none =>
      rw [hc] at h
      dsimp only at h
      split at h
      next hd =>
        simp only [Option.some.injEq, Prod.mk.injEq] at h
        obtain ⟨rfl, rfl⟩ := h
        exact ⟨by simp [hd], hc⟩
      next => simp at h

/-- Splits `a.b.C` into `a.b` and `C`. A name whose last dot is missing, or stands first, has no
qualifier. -/
def splitLast (name : String) : Option String × String :=
  match lastDot name.toList with
  | some (c :: before, after) => (some (String.ofList (c :: before)), String.ofList after)
  | _ => (none, name)

/-- Changes the last segment and keeps what stands before it. -/
def withLast (f : List Char → List Char) (cs : List Char) : List Char :=
  match lastDot cs with
  | some (before, after) => before ++ '.' :: f after
  | none => f cs

/-- `name` with `qualifier` and a dot taken off its front, if it begins with them. -/
def stripQualifier? (qualifier name : String) : Option String :=
  let front := qualifier.toList ++ ['.']
  if front.isPrefixOf name.toList then some (String.ofList (name.toList.drop front.length))
  else none

end BindingTree.Naming
