import BindingTree.Naming.Affix
import Mathlib.Tactic.Common

/-! Qualifiers: what the cut at the last dot and the removal of a qualifier say about a name. Both
take `q.n` apart into `q` and `n`. -/

namespace BindingTree.Naming

variable {name qualifier rest : String}

theorem eq_append_of_splitLast (hs : (splitLast name).1 = some qualifier) :
    name = qualifier ++ "." ++ (splitLast name).2 := by
  unfold splitLast at hs ⊢
  split at hs
  next c before after hl =>
    cases hs
    apply String.toList_injective
    simp [(eq_append_of_lastDot hl).1]
  next => cases hs

theorem toList_dotted (a b : String) : (a ++ "." ++ b).toList = a.toList ++ '.' :: b.toList := by
  simp

theorem dotted_ne_empty (a b : String) : a ++ "." ++ b ≠ "" :=
  fun h => absurd (congrArg String.toList h) (by simp)

theorem dotted_ne_qualifier (a b : String) : a ++ "." ++ b ≠ a :=
  fun h => absurd (congrArg String.toList h) (by simp)

theorem stripQualifier?_eq_some :
    stripQualifier? qualifier name = some rest ↔ name = qualifier ++ "." ++ rest := by
  unfold stripQualifier?
  dsimp only
  constructor
  · intro hs
    split at hs
    next hp =>
      obtain ⟨t, ht⟩ := List.isPrefixOf_iff_prefix.1 hp
      cases hs
      apply String.toList_injective
      rw [← ht]
      simp
    next => cases hs
  · rintro rfl
    rw [if_pos (by simp)]
    simp

theorem stripQualifier?_append : stripQualifier? qualifier (qualifier ++ "." ++ rest) = some rest :=
  stripQualifier?_eq_some.2 rfl

/-- Whether `qualifier` is what a name has before its last dot. -/
def Qualifies (qualifier name : String) : Prop :=
  qualifier ≠ "" ∧ ∃ rest, '.' ∉ rest.toList ∧ name = qualifier ++ "." ++ rest

theorem dotless_of_lastDot {cs : List Char} (h : lastDot cs = none) : '.' ∉ cs := by
  induction cs with
  | nil => exact List.not_mem_nil
  | cons c cs ih =>
    rw [lastDot] at h
    cases hcs : lastDot cs with
    | some parts =>
      rw [hcs] at h
      cases h
    | none =>
      rw [hcs] at h
      dsimp only at h
      split at h
      next => cases h
      next hc => exact List.not_mem_cons_of_ne_of_not_mem (Ne.symm hc) (ih hcs)

theorem lastDot_eq_none_iff {cs : List Char} : lastDot cs = none ↔ '.' ∉ cs :=
  ⟨dotless_of_lastDot, fun h => lastDot_of_forall fun _ hc hdot => h (hdot ▸ hc)⟩

theorem lastDot_append {before after : List Char} (ha : '.' ∉ after) :
    lastDot (before ++ '.' :: after) = some (before, after) := by
  induction before with
  | nil =>
    rw [List.nil_append, lastDot, lastDot_eq_none_iff.2 ha]
    rfl
  | cons c before ih => rw [List.cons_append, lastDot, ih]

/-- A name has no dot, or a dot with a part behind it that has none. -/
theorem dotless_or_dotted (name : String) :
    '.' ∉ name.toList ∨ ∃ p n, '.' ∉ n.toList ∧ name = p ++ "." ++ n := by
  cases hl : lastDot name.toList with
  | none => exact .inl (dotless_of_lastDot hl)
  | some cut =>
    obtain ⟨before, after⟩ := cut
    obtain ⟨hname, hafter⟩ := eq_append_of_lastDot hl
    refine .inr ⟨String.ofList before, String.ofList after, ?_, ?_⟩
    · rw [String.toList_ofList]
      exact dotless_of_lastDot hafter
    · apply String.toList_injective
      simp [hname]

theorem splitLast_append (hq : qualifier ≠ "") (hr : '.' ∉ rest.toList) :
    splitLast (qualifier ++ "." ++ rest) = (some qualifier, rest) := by
  have hne : qualifier.toList ≠ [] := fun h => hq (String.toList_eq_nil_iff.1 h)
  obtain ⟨c, cs, hcs⟩ := List.exists_cons_of_ne_nil hne
  rw [splitLast, toList_dotted, lastDot_append hr, hcs]
  dsimp only
  rw [← hcs, String.ofList_toList, String.ofList_toList]

theorem splitLast_of_dotless (hn : '.' ∉ name.toList) : splitLast name = (none, name) := by
  rw [splitLast, lastDot_eq_none_iff.2 hn]

/-- The cut at the last dot gives what a name has before it. -/
theorem splitLast_eq_some : (splitLast name).1 = some qualifier ↔ Qualifies qualifier name := by
  constructor
  · intro hs
    unfold splitLast at hs
    split at hs
    next c before after hl =>
      cases hs
      obtain ⟨hname, hafter⟩ := eq_append_of_lastDot hl
      refine ⟨fun h => absurd (congrArg String.toList h) (by simp), String.ofList after, ?_, ?_⟩
      · rw [String.toList_ofList]
        exact dotless_of_lastDot hafter
      · apply String.toList_injective
        simp [hname]
    next => cases hs
  · rintro ⟨hq, rest, hr, rfl⟩
    rw [splitLast_append hq hr]

/-! ### Names without colons -/

/-- A colon ends the kind in front of a key, so names are expected to have none. -/
def Colonless (name : String) : Prop := ':' ∉ name.toList

theorem colonless_append {a b : String} : Colonless (a ++ b) ↔ Colonless a ∧ Colonless b := by
  simp [Colonless]

theorem colonless_dot : Colonless "." := by
  unfold Colonless
  decide

theorem colonless_compose {a b : String} : Colonless (a ++ "." ++ b) ↔ Colonless a ∧ Colonless b := by
  simp only [colonless_append, colonless_dot, and_true]

theorem colonless_of_splitLast (hc : Colonless name) (hs : (splitLast name).1 = some qualifier) :
    Colonless qualifier := by
  rw [eq_append_of_splitLast hs] at hc
  exact (colonless_compose.1 hc).1

theorem colonless_last (hc : Colonless name) : Colonless (splitLast name).2 := by
  cases hq : (splitLast name).1 with
  | some qualifier =>
    rw [eq_append_of_splitLast hq] at hc
    exact (colonless_compose.1 hc).2
  | none =>
    unfold splitLast at hq ⊢
    split at hq
    · cases hq
    · exact hc

/-- The suffix of an invoker has no colon. -/
theorem colonless_invokerName (hc : Colonless name) : Colonless (invokerName name) := by
  have hmark : ∀ {cs : List Char}, ':' ∉ cs → ':' ∉ markInvoker cs := by
    intro cs hcs
    unfold markInvoker
    split
    · exact hcs
    · rw [List.mem_append, not_or]
      exact ⟨hcs, by decide⟩
  unfold invokerName
  split
  · simp [Colonless]
  · unfold Colonless at hc ⊢
    rw [String.toList_ofList, withLast]
    split
    next before after hl =>
      rw [(eq_append_of_lastDot hl).1] at hc
      simp only [List.mem_append, List.mem_cons, not_or] at hc ⊢
      exact ⟨hc.1, hc.2.1, hmark hc.2.2⟩
    next => exact hmark hc

end BindingTree.Naming
