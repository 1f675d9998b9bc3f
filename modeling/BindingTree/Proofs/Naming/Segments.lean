import BindingTree.Proofs.Naming.Validity
import BindingTree.Proofs.Text.Casing
import BindingTree.Proofs.Text.Words

/-! Translation, segment by segment. The translators at hand raise or capitalize each segment, which
brings no dot into it. So two names joined by a dot are translated one by one, and the result has
the segments of the name, or a single one where the dots are dropped. What is raised or capitalized
stays as it is when that is done again, also in a row with others; so a managed name is translated to
itself. -/

namespace BindingTree.Naming

open Text

/-- The checked translation of a segment. -/
structure SegmentRule.Renders [Alphabet] (r : SegmentRule) (s p : String) : Prop where
  ne_empty : s ≠ ""
  segment : r.segment s = .ok p
  isIdentifier : IsIdentifier p

/-- A text that a translator leaves alone, by itself and in a row with others. -/
structure Settled (raisePairs : Bool) (cs : List Char) : Prop where
  ne_nil : cs ≠ []
  capitalized : capitalize cs = cs
  raised : raisePairs = true → cs.length ≤ 2 → upperAll cs = cs

variable {t : Translator} {r : SegmentRule} {name managed a b s p : String} {cs ds : List Char}
  {c : Char} {parts : List String} {raisePairs : Bool}

/-! ### Segments of a name -/

theorem segments_dotted (a b : String) : segments (a ++ "." ++ b) = segments a ++ segments b := by
  have hlist : (a ++ "." ++ b).toList = a.toList ++ '.' :: b.toList := by simp
  rw [segments, hlist, pieces_append_cons _ _ (by simp), List.map_append]
  rfl

theorem segments_of_dotless (hs : '.' ∉ s.toList) : segments s = [s] := by
  have hone : pieces (· = '.') s.toList = [s.toList] :=
    pieces_of_forall _ _ fun c hc => decide_eq_false fun hdot => hs (hdot ▸ hc)
  rw [segments, hone, List.map_singleton, String.ofList_toList]

theorem dot_not_mem_segment (hs : s ∈ segments name) : '.' ∉ s.toList := by
  obtain ⟨w, hw, rfl⟩ := List.mem_map.1 hs
  rw [String.toList_ofList]
  intro hdot
  simpa using not_sep_of_mem_pieces hw hdot

/-- Texts without dots are the segments of the name they are joined to. -/
theorem segments_intercalate (hne : parts ≠ []) (hp : ∀ p ∈ parts, '.' ∉ p.toList) :
    segments (".".intercalate parts) = parts := by
  induction parts with
  | nil => exact absurd rfl hne
  | cons p ps ih =>
    rw [List.forall_mem_cons] at hp
    cases ps with
    | nil => rw [String.intercalate_singleton, segments_of_dotless hp.1]
    | cons q qs =>
      rw [String.intercalate_cons_cons, segments_dotted, segments_of_dotless hp.1,
        ih (List.cons_ne_nil q qs) hp.2]
      rfl

/-- Joined by nothing, texts are put in a row. -/
theorem toList_intercalate_empty (parts : List String) :
    ("".intercalate parts).toList = parts.flatMap String.toList := by
  induction parts with
  | nil => rfl
  | cons p ps ih =>
    rw [List.flatMap_cons, ← ih]
    cases ps with
    | nil => simp
    | cons q qs => rw [String.intercalate_cons_cons, String.toList_append, String.append_empty]

/-! ### Translations of segments -/

section Alphabet

variable [Alphabet]

theorem part_eq_ok : r.part name s = .ok p ↔ r.Renders s p := by
  constructor
  · intro hp
    obtain ⟨hne, hsegment, hcheck⟩ := part_ok hp
    exact ⟨hne, hsegment, isIdentifier_iff_fault.2 hcheck⟩
  · rintro ⟨hne, hsegment, hcheck⟩
    rw [SegmentRule.part, if_neg hne, hsegment]
    exact Except.mapError_eq_ok.2 hcheck

theorem translate_eq_ok (hs : t.Segmentwise) : t.translate name = .ok managed ↔
    ∃ parts, List.Forall₂ t.Renders (segments name) parts ∧
      managed = t.separator.intercalate parts := by
  rw [hs]
  constructor
  · intro ht
    obtain ⟨parts, hparts, rfl⟩ := translateSegments_ok ht
    exact ⟨parts, hparts.imp fun _ _ => part_eq_ok.1, rfl⟩
  · rintro ⟨parts, hparts, rfl⟩
    have hne : name ≠ "" := by
      rintro rfl
      have hempty : segments "" = [""] := rfl
      rw [hempty, List.forall₂_cons_left_iff] at hparts
      obtain ⟨_, _, hfirst, -⟩ := hparts
      exact hfirst.ne_empty rfl
    have hmap : (segments name).mapM (t.part name) = .ok parts :=
      Except.mapM_eq_ok.2 (hparts.imp fun _ _ => part_eq_ok.2)
    rw [SegmentRule.translateSegments, if_neg hne, hmap]
    rfl

theorem dot_not_mem_of_renders (hb : t.IsBuiltIn) (hp : t.Renders s p) (hs : '.' ∉ s.toList) :
    '.' ∉ p.toList := by
  obtain ⟨raisePairs, hrender⟩ := hb.exists_render
  have hsegment := hp.segment
  rw [hrender, if_neg hp.ne_empty] at hsegment
  cases hsegment
  rw [String.toList_ofList, render]
  split
  · exact not_mem_upperAll eq_of_dot_mem_upper hs
  · exact not_mem_capitalize eq_of_dot_mem_upper hs

/-- The translations of the segments of a name: none has a dot. -/
theorem dot_not_mem_part (hb : t.IsBuiltIn)
    (hparts : List.Forall₂ t.Renders (segments name) parts) : ∀ p ∈ parts, '.' ∉ p.toList := by
  intro p hp
  obtain ⟨s, hs, hrenders⟩ := hparts.exists_left hp
  exact dot_not_mem_of_renders hb hrenders (dot_not_mem_segment hs)

theorem parts_ne_nil (hparts : List.Forall₂ r.Renders (segments name) parts) : parts ≠ [] := by
  rintro rfl
  exact segments_ne_nil name (List.forall₂_nil_right_iff.1 hparts)

/-! ### Names joined by a dot -/

theorem translate_dot (hs : t.Segmentwise) : t.translate (a ++ "." ++ b) = .ok managed ↔
    ∃ ma mb, t.translate a = .ok ma ∧ t.translate b = .ok mb ∧
      managed = ma ++ t.separator ++ mb := by
  simp only [translate_eq_ok hs, segments_dotted, List.forall₂_append_left_iff]
  constructor
  · rintro ⟨_, ⟨pa, pb, ha, hb, rfl⟩, rfl⟩
    exact ⟨_, _, ⟨pa, ha, rfl⟩, ⟨pb, hb, rfl⟩,
      String.intercalate_append_of_ne_nil (parts_ne_nil ha) (parts_ne_nil hb)⟩
  · rintro ⟨_, _, ⟨pa, ha, rfl⟩, ⟨pb, hb, rfl⟩, rfl⟩
    exact ⟨pa ++ pb, ⟨pa, pb, ha, hb, rfl⟩,
      (String.intercalate_append_of_ne_nil (parts_ne_nil ha) (parts_ne_nil hb)).symm⟩

/-- The segments of a managed name: the translated ones, or one in all where the dots are dropped. -/
theorem segments_translate (hb : t.IsBuiltIn)
    (hparts : List.Forall₂ t.Renders (segments name) parts) :
    segments (t.separator.intercalate parts) =
      if t.keepDots then parts else [t.separator.intercalate parts] := by
  have hdots := dot_not_mem_part hb hparts
  unfold SegmentRule.separator
  split
  next => exact segments_intercalate (parts_ne_nil hparts) hdots
  next =>
    refine segments_of_dotless ?_
    rw [toList_intercalate_empty, List.mem_flatMap]
    rintro ⟨p, hp, hdot⟩
    exact hdots p hp hdot

/-- Translation goes through the dots of a name: of two names joined by a dot both are translated, or
the whole is not, and their translations are joined by a dot or, where dots are dropped, put in a
row. What comes out is an identifier, with a segment for each of the name's or without a dot. -/
theorem translate_dotted (hb : t.IsBuiltIn) :
    (∀ a b managed, t.translate (a ++ "." ++ b) = .ok managed ↔
      ∃ ma mb, t.translate a = .ok ma ∧ t.translate b = .ok mb ∧
        managed = ma ++ (if t.keepDots then "." else "") ++ mb) ∧
    ∀ name managed, t.translate name = .ok managed → IsIdentifier managed ∧
      if t.keepDots then (segments managed).length = (segments name).length
      else '.' ∉ managed.toList := by
  have hs := hb.segmentwise
  refine ⟨fun a b managed => translate_dot hs, fun name managed ht => ⟨hs.isIdentifier ht, ?_⟩⟩
  obtain ⟨parts, hparts, rfl⟩ := (translate_eq_ok hs).1 ht
  have hsegments := segments_translate hb hparts
  split
  next hdots => rw [hsegments, if_pos hdots, hparts.length_eq]
  next hdots =>
    rw [if_neg hdots] at hsegments
    have hself : t.separator.intercalate parts ∈ segments (t.separator.intercalate parts) := by
      rw [hsegments]
      exact List.mem_singleton_self _
    exact dot_not_mem_segment hself

end Alphabet

/-- Without dots a package and a class become one identifier, and a name that ends in a dot none. -/
theorem translate_dotted_process : (Translator.platform true false).IsBuiltIn ∧
    (Translator.platform true false).translate "android.os" = .ok "AndroidOS" ∧
    (Translator.platform true false).translate ("android.os" ++ "." ++ "Process") =
      .ok "AndroidOSProcess" ∧ IsIdentifier "AndroidOSProcess" ∧
    ∀ managed, (Translator.platform true false).translate ("android.os" ++ "." ++ "") ≠ .ok managed := by
  have hb : (Translator.platform true false).IsBuiltIn := ⟨false, .inr ⟨true, rfl⟩⟩
  have hpackage : (Translator.platform true false).translate "android.os" = .ok "AndroidOS" := by
    decide +kernel
  have hclass : (Translator.platform true false).translate "Process" = .ok "Process" := by
    decide +kernel
  obtain ⟨hdot, hsound⟩ := translate_dotted hb
  have hwhole := (hdot "android.os" "Process" "AndroidOSProcess").2 ⟨_, _, hpackage, hclass, rfl⟩
  refine ⟨hb, hpackage, hwhole, (hsound _ _ hwhole).1, fun managed hm => ?_⟩
  obtain ⟨_, _, -, hempty, -⟩ := (hdot _ _ _).1 hm
  cases hempty

/-! ### Translating again -/

namespace Settled

theorem append (hc : Settled raisePairs cs) (hd : Settled raisePairs ds) :
    Settled raisePairs (cs ++ ds) where
  ne_nil := List.append_ne_nil_of_left_ne_nil hc.ne_nil ds
  capitalized := capitalize_append hc.ne_nil hc.capitalized
  raised hr hl := by
    rw [List.length_append] at hl
    rw [upperAll_append, hc.raised hr (by omega), hd.raised hr (by omega)]

theorem flatMap {texts : List String} (hne : texts ≠ [])
    (ht : ∀ s ∈ texts, Settled raisePairs s.toList) :
    Settled raisePairs (texts.flatMap String.toList) := by
  induction texts with
  | nil => exact absurd rfl hne
  | cons s texts ih =>
    rw [List.forall_mem_cons] at ht
    rw [List.flatMap_cons]
    by_cases hnil : texts = []
    · subst hnil
      simpa using ht.1
    · exact ht.1.append (ih hnil ht.2)

/-- What is settled is rendered as it is. -/
theorem render_eq (hs : Settled raisePairs cs) : render raisePairs cs = cs := by
  unfold render
  split
  next hpair =>
    rw [Bool.and_eq_true, decide_eq_true_eq] at hpair
    exact hs.raised hpair.1 (Nat.le_of_eq hpair.2)
  next => exact hs.capitalized

end Settled

/-- A rendered segment is settled. The rule for two characters finds nothing to raise in it: either it
was raised whole, or it comes from a single character, or it is longer. -/
theorem settled_render (raisePairs : Bool) (hcs : cs ≠ []) :
    Settled raisePairs (render raisePairs cs) := by
  obtain ⟨c, cs, rfl⟩ := List.exists_cons_of_ne_nil hcs
  unfold render
  split
  next =>
    have hraised := upperAll_upperAll (c :: cs)
    have hne : upperAll (c :: cs) ≠ [] := List.append_ne_nil_of_left_ne_nil (upper_ne_nil c) _
    exact ⟨hne, capitalize_of_upperAll hraised, fun _ _ => hraised⟩
  next hpair =>
    have hne : capitalize (c :: cs) ≠ [] := List.append_ne_nil_of_left_ne_nil (upper_ne_nil c) _
    refine ⟨hne, capitalize_capitalize _, fun hr hl => ?_⟩
    have htwo : (c :: cs).length ≠ 2 := fun h => hpair (by simp [hr, h])
    have hone : cs = [] := by
      have hupper := (length_upper c).1
      rw [capitalize, List.length_append] at hl
      rw [List.length_cons] at htwo
      exact List.eq_nil_of_length_eq_zero (by omega)
    subst hone
    rw [capitalize, List.append_nil, upperAll_upper]

section Alphabet

variable [Alphabet]

theorem renders_self (hr : ∀ s, t.segment s =
      if s = "" then refuse s .emptySegment else .ok (String.ofList (render raisePairs s.toList)))
    (hs : Settled raisePairs s.toList) (hi : IsIdentifier s) : t.Renders s s := by
  have hne : s ≠ "" := fun he => hs.ne_nil (by rw [he]; rfl)
  exact ⟨hne, by rw [hr, if_neg hne, hs.render_eq, String.ofList_toList], hi⟩

/-- A managed name is translated to itself. -/
theorem translate_translate (hb : t.IsBuiltIn) (ht : t.translate name = .ok managed) :
    t.translate managed = .ok managed := by
  have hwise := hb.segmentwise
  have hmanaged := hwise.isIdentifier ht
  obtain ⟨raisePairs, hrender⟩ := hb.exists_render
  obtain ⟨parts, hparts, rfl⟩ := (translate_eq_ok hwise).1 ht
  have hsettled : ∀ p ∈ parts, Settled raisePairs p.toList ∧ IsIdentifier p := by
    intro p hp
    obtain ⟨s, -, hne, hsegment, hi⟩ := hparts.exists_left hp
    rw [hrender, if_neg hne] at hsegment
    cases hsegment
    refine ⟨?_, hi⟩
    rw [String.toList_ofList]
    exact settled_render raisePairs fun h => hne (String.toList_eq_nil_iff.1 h)
  rw [translate_eq_ok hwise, segments_translate hb hparts]
  split
  next =>
    have hself : List.Forall₂ t.Renders parts parts :=
      List.forall₂_same.2 fun p hp => renders_self hrender (hsettled p hp).1 (hsettled p hp).2
    exact ⟨parts, hself, rfl⟩
  next hdots =>
    have hempty : t.separator = "" := if_neg hdots
    have hrow : Settled raisePairs (t.separator.intercalate parts).toList := by
      rw [hempty, toList_intercalate_empty]
      exact Settled.flatMap (parts_ne_nil hparts) fun p hp => (hsettled p hp).1
    exact ⟨_, .cons (renders_self hrender hrow hmanaged) .nil, by rw [String.intercalate_singleton]⟩

end Alphabet

/-- A letter that becomes two when it is raised, dropped dots, and a pair of letters. -/
theorem translate_translate_sharp :
    (Translator.platform true false).IsBuiltIn ∧
      (Translator.platform true false).translate "ß.ab.x" = .ok "SSABX" ∧
        (Translator.platform true false).translate "SSABX" = .ok "SSABX" := by
  have hb : (Translator.platform true false).IsBuiltIn := ⟨false, .inr ⟨true, rfl⟩⟩
  have ht : (Translator.platform true false).translate "ß.ab.x" = .ok "SSABX" := by decide +kernel
  exact ⟨hb, ht, translate_translate hb ht⟩

end BindingTree.Naming
