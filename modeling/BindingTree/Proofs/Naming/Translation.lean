import BindingTree.Build.ManagedNames
import BindingTree.Proofs.Outcomes

/-! Translations, taken apart. A translation is to be an identifier, and a name that has none is to be
refused as an invalid identifier; but nothing checks a translator that has its own way to answer. So
what matters of this is asked for by name: that no answer is empty, and that what is refused is refused
as an invalid identifier. A translator that goes by a rule for segments gives the checked translations
of the segments of a name, so none of its answers is empty; and it refuses names as its rule does. -/

namespace BindingTree.Naming

open Text

namespace Translator

/-- No name that is translated has an empty translation. -/
structure NeverEmpty (t : Translator) : Prop where
  translate : ∀ {name managed : String}, t.translate name = .ok managed → managed ≠ ""
  translateField : ∀ {name managed : String}, t.translateField name = .ok managed → managed ≠ ""

/-- A failure is the answer to some name. -/
def Fails (t : Translator) (failure : Failure) : Prop :=
  ∃ name, t.translate name = .error failure ∨ t.translateField name = .error failure

/-- Names are refused as invalid identifiers, and for nothing else. -/
def OnlyInvalid (t : Translator) : Prop :=
  ∀ ⦃failure⦄, t.Fails failure → ∃ e, failure = .invalidIdentifier e

/-- Some name is refused because a type is not found. -/
def Misses (t : Translator) : Prop := ∃ name onBehalfOf, t.Fails (.typeNotFound name onBehalfOf)

theorem OnlyInvalid.not_misses {t : Translator} (ht : t.OnlyInvalid) : ¬ t.Misses := by
  rintro ⟨name, onBehalfOf, hf⟩
  obtain ⟨e, he⟩ := ht hf
  cases he

/-- Names are translated segment by segment. -/
def Segmentwise [Alphabet] (t : Translator) : Prop := t.translate = t.translateSegments

/-- Names of fields are translated by their words. -/
def Wordwise [Alphabet] (t : Translator) : Prop := t.translateField = translateWords t.translate

/-- The translators that capitalize segments, with or without the rule for two characters. -/
def IsBuiltIn [Alphabet] (t : Translator) : Prop :=
  ∃ keepDots, t = .plain keepDots ∨ ∃ raisePairs, t = .platform raisePairs keepDots

end Translator

/-- What becomes of a segment, with or without the rule for two characters. -/
def render (raisePairs : Bool) (cs : List Char) : List Char :=
  if raisePairs && cs.length = 2 then upperAll cs else capitalize cs

variable {t : Translator} {r : SegmentRule} {name managed part segment : String} {cs : List Char}
  {failure : Failure}

/-! ### Affixes -/

theorem withLast_ne_nil {f : List Char → List Char} (hf : cs ≠ [] → f cs ≠ []) (hcs : cs ≠ []) :
    withLast f cs ≠ [] := by
  unfold withLast
  split
  · simp
  · exact hf hcs

theorem interfaceName_ne_empty (hm : managed ≠ "") : interfaceName managed ≠ "" := by
  have hmark : ∀ {cs : List Char}, cs ≠ [] → markInterface cs ≠ [] := by
    intro cs hcs
    unfold markInterface
    split
    · exact hcs
    · simp
  have hne : withLast markInterface managed.toList ≠ [] :=
    withLast_ne_nil hmark (by simpa using hm)
  simpa [interfaceName] using hne

theorem invokerName_ne_empty (hm : managed ≠ "") : invokerName managed ≠ "" := by
  have hmark : ∀ {cs : List Char}, cs ≠ [] → markInvoker cs ≠ [] := by
    intro cs hcs
    unfold markInvoker
    split
    · exact hcs
    · simp [hcs]
  have hne : withLast markInvoker managed.toList ≠ [] :=
    withLast_ne_nil hmark (by simpa using hm)
  simpa [invokerName, hm] using hne

/-! ### Translations by segments -/

theorem segments_ne_nil (name : String) : segments name ≠ [] := by
  simp [segments, pieces_ne_nil]

theorem intercalate_cons_ne_empty {sep : String} {parts : List String} (hp : part ≠ "") :
    sep.intercalate (part :: parts) ≠ "" := by
  cases parts with
  | nil => rwa [String.intercalate_singleton]
  | cons q qs =>
    rw [String.intercalate_cons_cons]
    simp [hp]

section Alphabet

variable [Alphabet]

theorem identifier_ne_empty (hn : identifierFault? name = none) : name ≠ "" := by
  rintro rfl
  simp [identifierFault?] at hn

theorem checkIdentifier_ok (hc : checkIdentifier name = .ok managed) :
    managed = name ∧ identifierFault? name = none := by
  unfold checkIdentifier at hc
  split at hc
  next => cases hc
  next hn =>
    cases hc
    exact ⟨rfl, hn⟩

theorem part_ok (hp : r.part name segment = .ok part) :
    segment ≠ "" ∧ r.segment segment = .ok part ∧ identifierFault? part = none := by
  unfold SegmentRule.part at hp
  split at hp
  · cases hp
  next hne =>
    obtain ⟨m, hm, hcheck⟩ := Except.bind_eq_ok.1 hp
    obtain ⟨rfl, hfault⟩ := checkIdentifier_ok (Except.mapError_eq_ok.1 hcheck)
    exact ⟨hne, hm, hfault⟩

/-- A part is refused as an invalid identifier, or as the rule refuses it. -/
theorem part_error (hp : r.part name segment = .error failure) :
    (∃ e, failure = .invalidIdentifier e) ∨ r.segment segment = .error failure := by
  unfold SegmentRule.part at hp
  split at hp
  · cases hp
    exact .inl ⟨_, rfl⟩
  · rcases Except.bind_eq_error.1 hp with hs | ⟨m, -, hcheck⟩
    · exact .inr hs
    · obtain ⟨e, -, rfl⟩ := Except.mapError_eq_error.1 hcheck
      exact .inl ⟨e, rfl⟩

theorem translateSegments_ok (ht : r.translateSegments name = .ok managed) :
    ∃ parts, List.Forall₂ (fun s p => r.part name s = .ok p) (segments name) parts ∧
      managed = r.separator.intercalate parts := by
  unfold SegmentRule.translateSegments at ht
  split at ht
  · cases ht
  · obtain ⟨parts, hparts, hpure⟩ := Except.bind_eq_ok.1 ht
    exact ⟨parts, Except.mapM_eq_ok.1 hparts, (Except.pure_eq_ok.1 hpure).symm⟩

theorem translateSegments_error (ht : r.translateSegments name = .error failure) :
    (∃ e, failure = .invalidIdentifier e) ∨ ∃ s, r.segment s = .error failure := by
  unfold SegmentRule.translateSegments at ht
  split at ht
  · cases ht
    exact .inl ⟨_, rfl⟩
  · rcases Except.bind_eq_error.1 ht with hparts | ⟨_, -, hpure⟩
    · obtain ⟨s, -, hs⟩ := Except.exists_of_mapM_eq_error hparts
      exact (part_error hs).imp_right fun h => ⟨s, h⟩
    · cases hpure

theorem translateSegments_ne_empty (ht : r.translateSegments name = .ok managed) : managed ≠ "" := by
  obtain ⟨parts, hparts, rfl⟩ := translateSegments_ok ht
  obtain ⟨s, rest, hs⟩ := List.exists_cons_of_ne_nil (segments_ne_nil name)
  rw [hs] at hparts
  cases hparts with
  | cons hp _ => exact intercalate_cons_ne_empty (identifier_ne_empty (part_ok hp).2.2)

/-! ### Translations by words -/

/-- A name of a field is translated to an identifier, or like any other name. -/
theorem translateWords_ok {translate : String → Except Failure String}
    (ht : translateWords translate name = .ok managed) :
    identifierFault? managed = none ∨ translate name = .ok managed := by
  unfold translateWords at ht
  split at ht
  · dsimp only at ht
    split at ht
    · cases ht
    next hf =>
      cases ht
      exact .inl (by simpa using hf)
  · exact .inr ht

theorem translateWords_error {translate : String → Except Failure String}
    (ht : translateWords translate name = .error failure) :
    (∃ e, failure = .invalidIdentifier e) ∨ translate name = .error failure := by
  unfold translateWords at ht
  split at ht
  · dsimp only at ht
    split at ht
    · cases ht
      exact .inl ⟨_, rfl⟩
    · cases ht
  · exact .inr ht

/-! ### What is asked of translators -/

theorem Translator.Segmentwise.neverEmpty (hs : t.Segmentwise) (hw : t.Wordwise) : t.NeverEmpty where
  translate ht := translateSegments_ne_empty (hs ▸ ht)
  translateField ht := by
    rcases translateWords_ok (hw ▸ ht) with hf | ht
    · exact identifier_ne_empty hf
    · exact translateSegments_ne_empty (hs ▸ ht)

/-- A translator that goes by a rule for segments refuses nothing but invalid identifiers if its rule
does. -/
theorem Translator.Segmentwise.onlyInvalid (hs : t.Segmentwise) (hw : t.Wordwise)
    (hr : ∀ s failure, t.segment s = .error failure → ∃ e, failure = .invalidIdentifier e) :
    t.OnlyInvalid := by
  have htranslate : ∀ {name failure}, t.translate name = .error failure →
      ∃ e, failure = .invalidIdentifier e := by
    intro name failure ht
    rcases translateSegments_error (hs ▸ ht) with h | ⟨s, h⟩
    · exact h
    · exact hr s failure h
  rintro failure ⟨name, ht | ht⟩
  · exact htranslate ht
  · exact (translateWords_error (hw ▸ ht)).elim id htranslate

/-! ### Translators at hand -/

theorem SegmentRule.segmentwise (r : SegmentRule) : r.translator.Segmentwise := rfl

theorem SegmentRule.wordwise (r : SegmentRule) : r.translator.Wordwise := rfl

namespace Translator.IsBuiltIn

variable (hb : t.IsBuiltIn)
include hb

theorem segmentwise : t.Segmentwise := by
  obtain ⟨keepDots, rfl | ⟨raisePairs, rfl⟩⟩ := hb <;> exact SegmentRule.segmentwise _

theorem wordwise : t.Wordwise := by
  obtain ⟨keepDots, rfl | ⟨raisePairs, rfl⟩⟩ := hb <;> exact SegmentRule.wordwise _

theorem neverEmpty : t.NeverEmpty := hb.segmentwise.neverEmpty hb.wordwise

theorem exists_render : ∃ raisePairs, ∀ s, t.segment s =
    if s = "" then refuse s .emptySegment else .ok (String.ofList (render raisePairs s.toList)) := by
  obtain ⟨keepDots, rfl | ⟨raisePairs, rfl⟩⟩ := hb
  · exact ⟨false, fun s => rfl⟩
  · refine ⟨raisePairs, fun s => ?_⟩
    change (if raisePairs && s.toList.length = 2 then _ else if s = "" then _ else _) = _
    unfold render
    split
    next hpair =>
      have hne : s ≠ "" := by
        rintro rfl
        simp at hpair
      rw [if_neg hne]
    next => rfl

theorem onlyInvalid : t.OnlyInvalid := by
  obtain ⟨raisePairs, hrender⟩ := hb.exists_render
  refine hb.segmentwise.onlyInvalid hb.wordwise fun s failure hs => ?_
  rw [hrender] at hs
  split at hs <;> cases hs
  exact ⟨_, rfl⟩

end Translator.IsBuiltIn

end Alphabet

end BindingTree.Naming

namespace BindingTree.Build

open Naming

variable {t : Translator} {kind : Kind} {name managed : String} {e : Element} {failure : Failure}

theorem translateAs_ne_empty (hn : t.NeverEmpty) (ht : translateAs t kind name = .ok managed) :
    managed ≠ "" := by
  have hmap : ∀ {f : String → String}, (∀ {m}, m ≠ "" → f m ≠ "") →
      f <$> t.translate name = .ok managed → managed ≠ "" := by
    intro f hf hmapped
    obtain ⟨m, hm, rfl⟩ := Except.map_eq_ok.1 hmapped
    exact hf (hn.translate hm)
  unfold translateAs at ht
  split at ht
  · exact hmap interfaceName_ne_empty ht
  · exact hmap invokerName_ne_empty ht
  · exact hn.translateField ht
  all_goals exact hn.translate ht

theorem managedNameOf_ne_empty (hn : t.NeverEmpty) (hg : e.givenName ≠ some "")
    (ht : managedNameOf t e = .ok managed) : managed ≠ "" := by
  unfold managedNameOf at ht
  split at ht
  next name hname =>
    cases ht
    rintro rfl
    exact hg hname
  next => exact translateAs_ne_empty hn ht

/-- An element cannot be named only if the translator has no answer. -/
theorem fails_of_managedNameOf (ht : managedNameOf t e = .error failure) : t.Fails failure := by
  unfold managedNameOf translateAs at ht
  split at ht
  · cases ht
  · split at ht
    · exact ⟨_, .inl (Except.map_eq_error.1 ht)⟩
    · exact ⟨_, .inl (Except.map_eq_error.1 ht)⟩
    · exact ⟨_, .inr ht⟩
    all_goals exact ⟨_, .inl ht⟩

end BindingTree.Build
