import BindingTree.Proofs.Naming.Qualifiers
import BindingTree.Proofs.Naming.Segments

/-! The marks of interfaces and invokers. An invoker's suffix goes to the end of a name that lacks it,
an interface's mark adds at most one character, and raising a character adds at most two. So the
managed names of an interface and of its invoker, both translated from the interface's native name,
differ in length unless that name has the suffix already; and then they differ by the mark, unless
that is there already, too. -/

namespace BindingTree.Naming

open Text

variable {t : Translator} {name managed invoker a b : String} {cs before after : List Char}

/-! ### The suffix -/

theorem dot_not_mem_invokerSuffix : '.' ∉ invokerSuffix := by decide

/-- The suffix stands behind the last dot. -/
theorem invokerSuffix_suffix_iff :
    invokerSuffix <:+ before ++ '.' :: after ↔ invokerSuffix <:+ after := by
  have hafter : '.' :: after <:+ before ++ '.' :: after := List.suffix_append _ _
  constructor
  · intro hs
    rcases List.suffix_or_suffix_of_suffix hs hafter with h | h
    · rcases List.suffix_cons_iff.1 h with h | h
      · exact absurd (h ▸ List.mem_cons_self) dot_not_mem_invokerSuffix
      · exact h
    · exact absurd (h.subset List.mem_cons_self) dot_not_mem_invokerSuffix
  · intro hs
    exact (hs.trans (List.suffix_cons _ _)).trans hafter

theorem withLast_markInvoker :
    withLast markInvoker cs = if invokerSuffix <:+ cs then cs else cs ++ invokerSuffix := by
  unfold withLast markInvoker
  simp only [List.isSuffixOf_iff_suffix]
  split
  next before after hl =>
    obtain rfl := (eq_append_of_lastDot hl).1
    simp only [invokerSuffix_suffix_iff]
    split <;> simp
  next => rfl

/-- The name of an invoker is the interface's with the suffix, unless it is there. -/
theorem invokerName_of_suffix (hs : invokerSuffix <:+ name.toList) : invokerName name = name := by
  unfold invokerName
  rw [withLast_markInvoker, if_pos hs, String.ofList_toList]
  split
  next h => exact h.symm
  next => rfl

theorem invokerName_of_not_suffix (hne : name ≠ "") (hs : ¬ invokerSuffix <:+ name.toList) :
    invokerName name = name ++ String.ofList invokerSuffix := by
  unfold invokerName
  rw [if_neg hne, withLast_markInvoker, if_neg hs]
  apply String.toList_injective
  simp

/-! ### The mark -/

theorem length_interfaceName_le (managed : String) :
    (interfaceName managed).length ≤ managed.length + 1 := by
  have hmark : ∀ cs, (markInterface cs).length ≤ cs.length + 1 := by
    intro cs
    unfold markInterface
    split <;> simp
  rw [← String.length_toList, ← String.length_toList, interfaceName, String.toList_ofList, withLast]
  split
  next before after hl =>
    have hafter := hmark after
    rw [(eq_append_of_lastDot hl).1]
    simp only [List.length_append, List.length_cons]
    omega
  next => exact hmark _

/-! ### Segments -/

theorem suffix_capitalize (hs : invokerSuffix <:+ cs) : invokerSuffix <:+ capitalize cs := by
  cases cs with
  | nil => exact absurd (List.suffix_nil.1 hs) (by decide)
  | cons c cs =>
    rcases List.suffix_cons_iff.1 hs with h | h
    · obtain ⟨rfl, rfl⟩ := List.cons.inj h
      decide +kernel
    · exact List.suffix_append_of_suffix h

/-- The last segment of a name, with what comes before it: text without a dot goes to the end of the
last segment, and so does the suffix. -/
theorem exists_lastSegment (name : String) : ∃ (init : List String) (last : List Char),
    (∀ text : List Char, '.' ∉ text → segments (name ++ String.ofList text) =
      init ++ [String.ofList (last ++ text)]) ∧
      (invokerSuffix <:+ name.toList → invokerSuffix <:+ last) := by
  have hone : ∀ {n : String} {text : List Char}, '.' ∉ n.toList → '.' ∉ text →
      segments (n ++ String.ofList text) = [String.ofList (n.toList ++ text)] := by
    intro n text hn htext
    rw [String.ofList_append, String.ofList_toList]
    exact segments_of_dotless (by simp [hn, htext])
  rcases dotless_or_dotted name with hn | ⟨p, n, hn, rfl⟩
  · exact ⟨[], name.toList, fun text htext => hone hn htext, id⟩
  · refine ⟨segments p, n.toList, fun text htext => ?_, fun hs => ?_⟩
    · rw [String.append_assoc, segments_dotted, hone hn htext]
    · rw [toList_dotted] at hs
      exact invokerSuffix_suffix_iff.1 hs

theorem exists_intercalate_append (sep : String) (parts : List String) :
    ∃ front, ∀ part, sep.intercalate (parts ++ [part]) = front ++ part := by
  induction parts with
  | nil => exact ⟨"", fun part => by simp⟩
  | cons p ps ih =>
    obtain ⟨front, hfront⟩ := ih
    refine ⟨p ++ sep ++ front, fun part => ?_⟩
    obtain ⟨q, qs, hq⟩ := List.exists_cons_of_ne_nil (List.append_ne_nil_of_right_ne_nil ps
      (List.cons_ne_nil part []))
    rw [List.cons_append, hq, String.intercalate_cons_cons, ← hq, hfront]
    simp only [String.append_assoc]

/-! ### Translating with and without the suffix -/

section Alphabet

variable [Alphabet]

/-- A translated name ends in the translation of its last segment; what stands before that does not
depend on the last segment. -/
theorem translate_append {f g : List Char} {init : List String} (hb : t.Segmentwise)
    (hs : segments a = init ++ [String.ofList f]) (hs' : segments b = init ++ [String.ofList g])
    (ht : t.translate a = .ok managed) (ht' : t.translate b = .ok invoker) :
    ∃ front part part', managed = front ++ part ∧ invoker = front ++ part' ∧ f ≠ [] ∧
      t.segment (String.ofList f) = .ok part ∧ t.segment (String.ofList g) = .ok part' := by
  obtain ⟨parts, hparts, rfl⟩ := (translate_eq_ok hb).1 ht
  obtain ⟨parts', hparts', rfl⟩ := (translate_eq_ok hb).1 ht'
  rw [hs, List.forall₂_concat_left_iff] at hparts
  rw [hs', List.forall₂_concat_left_iff] at hparts'
  obtain ⟨is, part, his, hpart, rfl⟩ := hparts
  obtain ⟨is', part', his', hpart', rfl⟩ := hparts'
  have hunique : Relator.RightUnique t.Renders := fun _ _ _ hp hq =>
    Except.ok.inj (hp.segment.symm.trans hq.segment)
  obtain rfl : is = is' := hunique.forall₂ his his'
  obtain ⟨front, hfront⟩ := exists_intercalate_append t.separator is
  exact ⟨front, part, part', hfront part, hfront part', by simpa using hpart.ne_empty,
    hpart.segment, hpart'.segment⟩

theorem segment_ok (hb : t.IsBuiltIn) (hs : t.segment a = .ok b) :
    b.toList = capitalize a.toList ∨ a.toList.length = 2 ∧ b.toList = upperAll a.toList := by
  obtain ⟨raisePairs, hrender⟩ := hb.exists_render
  rw [hrender] at hs
  split at hs
  next => cases hs
  next =>
    cases hs
    rw [String.toList_ofList, render]
    split
    next hpair => exact .inr ⟨by simpa using (Bool.and_eq_true_iff.1 hpair).2, rfl⟩
    next => exact .inl rfl

/-- A segment with the suffix is longer than two characters, and keeps the suffix. -/
theorem segment_of_suffix (hb : t.IsBuiltIn) (hs : t.segment a = .ok b)
    (hsuffix : invokerSuffix <:+ a.toList) :
    b.toList = capitalize a.toList ∧ invokerSuffix <:+ b.toList := by
  have hlen : invokerSuffix.length ≤ a.toList.length := hsuffix.length_le
  rcases segment_ok hb hs with h | ⟨hpair, -⟩
  · exact ⟨h, h ▸ suffix_capitalize hsuffix⟩
  · rw [hpair] at hlen
    exact absurd hlen (by decide)

/-- The suffix of a native name survives its translation. -/
theorem suffix_of_translate (hb : t.IsBuiltIn) (ht : t.translate name = .ok managed)
    (hs : invokerSuffix <:+ name.toList) : invokerSuffix <:+ managed.toList := by
  obtain ⟨init, last, hsegments, hlast⟩ := exists_lastSegment name
  have hself : segments name = init ++ [String.ofList last] := by
    simpa using hsegments [] List.not_mem_nil
  obtain ⟨front, part, -, rfl, -, -, hpart, -⟩ := translate_append hb.segmentwise hself hself ht ht
  rw [String.toList_append]
  refine List.suffix_append_of_suffix (segment_of_suffix hb hpart ?_).2
  rw [String.toList_ofList]
  exact hlast hs

/-- With the suffix, a name is translated to one that has the suffix, too, and is longer by more than
one character. -/
theorem translate_suffixed (hb : t.IsBuiltIn) (ht : t.translate name = .ok managed)
    (hi : t.translate (name ++ String.ofList invokerSuffix) = .ok invoker) :
    invokerSuffix <:+ invoker.toList ∧ managed.length + 1 < invoker.length := by
  have hsuffixed : invokerSuffix <:+ (name ++ String.ofList invokerSuffix).toList := by simp
  refine ⟨suffix_of_translate hb hi hsuffixed, ?_⟩
  obtain ⟨init, last, hsegments, -⟩ := exists_lastSegment name
  have hself : segments name = init ++ [String.ofList last] := by
    simpa using hsegments [] List.not_mem_nil
  obtain ⟨front, part, part', rfl, rfl, hne, hpart, hpart'⟩ :=
    translate_append hb.segmentwise hself (hsegments _ dot_not_mem_invokerSuffix) ht hi
  obtain ⟨hlong, -⟩ := segment_of_suffix hb hpart' (by simp)
  rw [String.length_append, String.length_append, ← String.length_toList (s := part),
    ← String.length_toList (s := part'), hlong]
  obtain ⟨c, cs, rfl⟩ := List.exists_cons_of_ne_nil hne
  rw [String.toList_ofList, List.cons_append, capitalize, List.length_append, List.length_append]
  have hseven : invokerSuffix.length = 7 := rfl
  rcases segment_ok hb hpart with h | ⟨hpair, h⟩
  · rw [h, String.toList_ofList, capitalize, List.length_append]
    omega
  · rw [String.toList_ofList] at hpair h
    obtain ⟨e, rfl⟩ := List.length_eq_one_iff.1 (Nat.succ.inj hpair)
    have he := (length_upper e).2
    rw [h, upperAll, List.flatMap_cons, List.flatMap_singleton, List.length_append]
    omega

/-- The managed names of an interface and its invoker, translated from the interface's native name,
are the same just when that name has the suffix already and its translation has the mark. -/
theorem invokerName_eq_interfaceName_iff (hb : t.IsBuiltIn) (ht : t.translate name = .ok managed)
    (hi : t.translate (invokerName name) = .ok invoker) :
    invokerName invoker = interfaceName managed ↔
      invokerSuffix <:+ name.toList ∧ interfaceName managed = managed := by
  by_cases hs : invokerSuffix <:+ name.toList
  · rw [invokerName_of_suffix hs, ht] at hi
    cases hi
    rw [invokerName_of_suffix (suffix_of_translate hb ht hs), eq_comm]
    exact ⟨fun h => ⟨hs, h⟩, And.right⟩
  · have hne : name ≠ "" := by
      rintro rfl
      rw [hb.segmentwise] at ht
      cases ht
    rw [invokerName_of_not_suffix hne hs] at hi
    obtain ⟨hsuffix, hlonger⟩ := translate_suffixed hb ht hi
    rw [invokerName_of_suffix hsuffix]
    refine ⟨fun he => ?_, fun h => absurd h.1 hs⟩
    have hle := length_interfaceName_le managed
    rw [← he] at hle
    exact absurd hlonger (Nat.not_lt.2 hle)

end Alphabet

end BindingTree.Naming
