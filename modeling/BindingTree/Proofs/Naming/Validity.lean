import BindingTree.Proofs.Naming.Translation

/-! Names that are identifiers. A dotted name is scanned from the left: a segment begins with a start
character and goes on with continuing ones. Since every start character is a continuing one, two
names that pass the scan pass it in a row, with a dot between them or without; and so the results of
translating, marking and joining names are identifiers. -/

namespace BindingTree.Naming

open Text

variable [Alphabet]

/-- A name that passes the check of managed identifiers. -/
def IsIdentifier (name : String) : Prop := checkIdentifier name = .ok name

/-- Scans a dotted name; `inside` tells whether its current segment has begun. -/
def scan (inside : Bool) : List Char → Bool
  | [] => inside
  | c :: cs =>
    if c = '.' then inside && scan false cs
    else (if inside then isIdentifierContinue c else isIdentifierStart c) && scan true cs

variable {t : Translator} {r : SegmentRule} {name managed a b : String} {cs ds : List Char}
  {inside : Bool} {parts : List String}

/-! ### The scan and the check -/

theorem segmentFault?_cons_eq_none {c : Char} : segmentFault? (c :: cs) = none ↔
    isIdentifierStart c = true ∧ ∀ d ∈ cs, isIdentifierContinue d = true := by
  rw [segmentFault?]
  split <;> simp_all

/-- The scan passes what is made of faultless segments; from inside a segment, the first one only has
to go on. -/
theorem scan_iff (cs : List Char) :
    (scan false cs = true ↔ ∀ w ∈ pieces (· = '.') cs, segmentFault? w = none) ∧
      ∀ w ws, pieces (· = '.') cs = w :: ws → (scan true cs = true ↔
        (∀ c ∈ w, isIdentifierContinue c = true) ∧ ∀ w ∈ ws, segmentFault? w = none) := by
  induction cs with
  | nil => simp +contextual [scan, pieces, segmentFault?]
  | cons c cs ih =>
    obtain ⟨hbegin, hinside⟩ := ih
    by_cases hc : c = '.'
    · subst hc
      have hpieces : pieces (· = '.') ('.' :: cs) = [] :: pieces (· = '.') cs := by simp [pieces]
      refine ⟨by simp [scan, hpieces, segmentFault?], fun w ws hw => ?_⟩
      obtain ⟨rfl, rfl⟩ := List.cons.inj (hpieces.symm.trans hw)
      simp [scan, hbegin]
    · obtain ⟨w, ws, hw⟩ := List.exists_cons_of_ne_nil (pieces_ne_nil (· = '.') cs)
      have hpieces : pieces (· = '.') (c :: cs) = (c :: w) :: ws := by simp [pieces, hc, hw]
      refine ⟨?_, fun w' ws' hw' => ?_⟩
      · simp [scan, hc, hinside w ws hw, hpieces, segmentFault?_cons_eq_none, and_assoc]
      · obtain ⟨rfl, rfl⟩ := List.cons.inj (hpieces.symm.trans hw')
        simp [scan, hc, hinside w ws hw, and_assoc]

theorem isIdentifier_iff_fault : IsIdentifier name ↔ identifierFault? name = none := by
  unfold IsIdentifier checkIdentifier
  split <;> simp_all

theorem isIdentifier_iff_scan : IsIdentifier name ↔ scan false name.toList = true := by
  rw [isIdentifier_iff_fault, (scan_iff _).1, identifierFault?]
  split
  next he => simp [he, pieces, segmentFault?]
  next => exact List.findSome?_eq_none_iff

/-! ### Names in a row -/

theorem scan_append_dot : scan inside (cs ++ '.' :: ds) = (scan inside cs && scan false ds) := by
  induction cs generalizing inside with
  | nil => simp [scan]
  | cons c cs ih =>
    rw [List.cons_append, scan, scan, ih, ih]
    split <;> rw [Bool.and_assoc]

/-- What begins a segment also goes on with one. -/
theorem scan_true_of_false (hs : scan false cs = true) : scan true cs = true := by
  cases cs with
  | nil => rfl
  | cons c cs =>
    unfold scan at hs ⊢
    split
    next hc => simp [hc] at hs
    next hc =>
      simp only [hc, if_false, Bool.false_eq_true, Bool.and_eq_true] at hs
      simp [isIdentifierContinue_of_start hs.1, hs.2]

theorem scan_append (hc : scan inside cs = true) (hd : scan false ds = true) :
    scan inside (cs ++ ds) = true := by
  induction cs generalizing inside with
  | nil =>
    obtain rfl : inside = true := hc
    exact scan_true_of_false hd
  | cons c cs ih =>
    unfold scan at hc
    rw [List.cons_append, scan]
    split
    next he =>
      simp only [he, if_true, Bool.and_eq_true] at hc
      simp [hc.1, ih hc.2]
    next he =>
      simp only [he, if_false, Bool.and_eq_true] at hc
      simp [hc.1, ih hc.2]

theorem isIdentifier_dot : IsIdentifier (a ++ "." ++ b) ↔ IsIdentifier a ∧ IsIdentifier b := by
  simp [isIdentifier_iff_scan, scan_append_dot]

theorem IsIdentifier.append (ha : IsIdentifier a) (hb : IsIdentifier b) : IsIdentifier (a ++ b) := by
  rw [isIdentifier_iff_scan] at ha hb ⊢
  rw [String.toList_append]
  exact scan_append ha hb

/-- Identifiers joined by dots, or by nothing, are identifiers. -/
theorem isIdentifier_intercalate {sep : String} (hsep : sep = "." ∨ sep = "") (hne : parts ≠ [])
    (hp : ∀ p ∈ parts, IsIdentifier p) : IsIdentifier (sep.intercalate parts) := by
  induction parts with
  | nil => exact absurd rfl hne
  | cons p ps ih =>
    rw [List.forall_mem_cons] at hp
    cases ps with
    | nil => simpa using hp.1
    | cons q qs =>
      have hrest := ih (List.cons_ne_nil q qs) hp.2
      rw [String.intercalate_cons_cons]
      rcases hsep with rfl | rfl
      · exact isIdentifier_dot.2 ⟨hp.1, hrest⟩
      · rw [String.append_empty]
        exact hp.1.append hrest

/-! ### Marks and translations -/

/-- A change of the last segment that makes identifiers of identifiers makes one of the whole name. -/
theorem scan_withLast {f : List Char → List Char}
    (hf : ∀ {cs}, scan false cs = true → scan false (f cs) = true) (hs : scan false cs = true) :
    scan false (withLast f cs) = true := by
  unfold withLast
  split
  next before after hl =>
    rw [(eq_append_of_lastDot hl).1, scan_append_dot, Bool.and_eq_true] at hs
    rw [scan_append_dot, hs.1, hf hs.2]
    rfl
  next => exact hf hs

/-- Letters in a row are an identifier. -/
theorem scan_of_letters (hne : cs ≠ []) (hc : cs.all Char.isAlpha = true) : scan false cs = true := by
  induction cs with
  | nil => exact absurd rfl hne
  | cons c cs ih =>
    rw [List.all_cons, Bool.and_eq_true] at hc
    have hdot : c ≠ '.' := by
      rintro rfl
      exact absurd hc.1 (by decide)
    have hrest : scan true cs = true := by
      by_cases hnil : cs = []
      · rw [hnil]
        rfl
      · exact scan_true_of_false (ih hnil hc.2)
    simp [scan, hdot, isIdentifierStart_of_letter hc.1, hrest]

theorem IsIdentifier.interfaceName (hm : IsIdentifier managed) :
    IsIdentifier (interfaceName managed) := by
  rw [isIdentifier_iff_scan] at hm ⊢
  rw [Naming.interfaceName, String.toList_ofList]
  refine scan_withLast (fun {cs} hs => ?_) hm
  unfold markInterface
  split
  · exact hs
  · have hmark : scan false ['I'] = true := scan_of_letters (by decide) (by decide)
    exact scan_append hmark hs

theorem IsIdentifier.invokerName (hm : IsIdentifier managed) :
    IsIdentifier (invokerName managed) := by
  unfold Naming.invokerName
  split
  next he => exact he ▸ hm
  next =>
    rw [isIdentifier_iff_scan] at hm ⊢
    rw [String.toList_ofList]
    refine scan_withLast (fun {cs} hs => ?_) hm
    unfold markInvoker
    split
    · exact hs
    · exact scan_append hs (scan_of_letters (by decide) (by decide))

theorem isIdentifier_translateSegments (ht : r.translateSegments name = .ok managed) :
    IsIdentifier managed := by
  obtain ⟨parts, hparts, rfl⟩ := translateSegments_ok ht
  refine isIdentifier_intercalate ?_ ?_ fun p hp => ?_
  · unfold SegmentRule.separator
    cases r.keepDots
    · exact .inr rfl
    · exact .inl rfl
  · rintro rfl
    exact segments_ne_nil name (List.forall₂_nil_right_iff.1 hparts)
  · obtain ⟨s, -, hs⟩ := hparts.exists_left hp
    exact isIdentifier_iff_fault.2 (part_ok hs).2.2

theorem Translator.Segmentwise.isIdentifier (hs : t.Segmentwise)
    (ht : t.translate name = .ok managed) : IsIdentifier managed :=
  isIdentifier_translateSegments (hs ▸ ht)

theorem Translator.Wordwise.isIdentifier (hw : t.Wordwise) (hs : t.Segmentwise)
    (ht : t.translateField name = .ok managed) : IsIdentifier managed := by
  rcases translateWords_ok (hw ▸ ht) with hf | ht
  · exact isIdentifier_iff_fault.2 hf
  · exact hs.isIdentifier ht

end BindingTree.Naming
