import BindingTree.Proofs.Naming.Segments

/-! Names of fields with underscores. Such a name is translated from its words alone, which are lowered,
capitalized and put in a row. So it does not matter where and how often underscores stand around the
words, nor in which case the letters are; and it does not matter how a translator translates other
names. No word has an underscore, and no change of case brings one in. -/

namespace BindingTree.Naming

open Text

/-- How a text falls into words: a word goes on up to an underscore or to the end, and any number of
underscores may stand before it and after it. -/
inductive Worded : List Char → List (List Char) → Prop
  | nil : Worded [] []
  | underscore {cs : List Char} {ws : List (List Char)} : Worded cs ws → Worded ('_' :: cs) ws
  | last {w : List Char} : w ≠ [] → '_' ∉ w → Worded w [w]
  | word {w cs : List Char} {ws : List (List Char)} :
      w ≠ [] → '_' ∉ w → Worded cs ws → Worded (w ++ '_' :: cs) (w :: ws)

/-- Words in a row, each lowered and capitalized. -/
def joined (ws : List (List Char)) : String := String.ofList ((ws.map lowerAll).flatMap capitalize)

variable {t : Translator} {name : String} {cs w : List Char} {v ws : List (List Char)}

/-! ### Words -/

/-- The underscore is a separator of words. -/
theorem worded_iff_separated : Worded cs ws ↔ Separated (· = '_') cs ws := by
  have hword : ∀ {w : List Char}, '_' ∉ w ↔ ∀ d ∈ w, decide (d = '_') = false := by
    intro w
    simp only [decide_eq_false_iff_not]
    exact ⟨fun hw d hd he => hw (he ▸ hd), fun hw hd => hw _ hd rfl⟩
  constructor
  · intro h
    induction h with
    | nil => exact .nil
    | underscore _ ih => exact .separator (decide_eq_true rfl) ih
    | last hne hw => exact .last hne (hword.1 hw)
    | word hne hw _ ih => exact .word hne (hword.1 hw) (decide_eq_true rfl) ih
  · intro h
    induction h with
    | nil => exact .nil
    | separator hc _ ih =>
      obtain rfl := of_decide_eq_true hc
      exact .underscore ih
    | last hne hw => exact .last hne (hword.2 hw)
    | word hne hw hc _ ih =>
      obtain rfl := of_decide_eq_true hc
      exact .word hne (hword.2 hw) ih

/-- A text has one list of words: what stands between its underscores and is not empty. -/
theorem worded_iff : Worded cs ws ↔ ws = (pieces (· = '_') cs).filter (· ≠ []) :=
  worded_iff_separated.trans separated_iff

theorem Worded.underscore_not_mem (h : Worded cs ws) (hw : w ∈ ws) : '_' ∉ w := by
  rw [worded_iff.1 h] at hw
  intro hmem
  simpa using not_sep_of_mem_pieces (List.mem_of_mem_filter hw) hmem

theorem underscore_not_mem_joined (h : Worded cs ws) : '_' ∉ (joined ws).toList := by
  rw [joined, String.toList_ofList, List.mem_flatMap]
  rintro ⟨u, hu, hmem⟩
  obtain ⟨w, hw, rfl⟩ := List.mem_map.1 hu
  have hword := underscore_not_mem_lowerAll (h.underscore_not_mem hw)
  exact not_mem_capitalize eq_of_underscore_mem_upper hword hmem

/-! ### Translations -/

section Alphabet

variable [Alphabet]

/-- A name with underscores is translated to its words in a row if they make an identifier, and not at
all otherwise. -/
theorem translateField_worded (ht : t.Wordwise) (hn : '_' ∈ name.toList) (h : Worded name.toList ws) :
    t.translateField name = .ok (joined ws) ∧ IsIdentifier (joined ws) ∨
      t.translateField name = refuse name .noWords ∧ ¬ IsIdentifier (joined ws) := by
  have hwords : fieldWords name = ws.map lowerAll := by rw [fieldWords, ← worded_iff.1 h]
  have hjoined : t.translateField name = if (identifierFault? (joined ws)).isSome then
      refuse name .noWords else .ok (joined ws) := by
    rw [ht, translateWords, if_pos hn, hwords]
    rfl
  rw [hjoined, isIdentifier_iff_fault]
  cases identifierFault? (joined ws) with
  | none => exact .inl ⟨rfl, rfl⟩
  | some fault => exact .inr ⟨rfl, nofun⟩

/-- Two names with underscores and the same words up to case are translated to the same identifier,
by whatever translators that translate names of fields by their words, or both are refused; no
underscore is left. A name without underscores is translated like any other. -/
theorem translateField_of_words (t t' : Translator) (ht : t.Wordwise) (ht' : t'.Wordwise) :
    (∀ x y v w, '_' ∈ x.toList → '_' ∈ y.toList → Worded x.toList v → Worded y.toList w →
      v.map lowerAll = w.map lowerAll →
        (∃ managed, t.translateField x = .ok managed ∧ t'.translateField y = .ok managed ∧
          IsIdentifier managed ∧ '_' ∉ managed.toList) ∨
        (t.translateField x = .error (.invalidIdentifier ⟨x, .noWords⟩) ∧
          t'.translateField y = .error (.invalidIdentifier ⟨y, .noWords⟩))) ∧
    ∀ x, '_' ∉ x.toList → t.translateField x = t.translate x := by
  refine ⟨fun x y v w hx hy hv hw hvw => ?_, fun x hx => ?_⟩
  · have hjoined : joined w = joined v := by rw [joined, joined, hvw]
    have hy' := translateField_worded ht' hy hw
    rw [hjoined] at hy'
    rcases translateField_worded ht hx hv with ⟨hok, hi⟩ | ⟨herror, hi⟩
    · obtain ⟨hok', -⟩ := hy'.resolve_right fun h => h.2 hi
      exact .inl ⟨joined v, hok, hok', hi, underscore_not_mem_joined hv⟩
    · obtain ⟨herror', -⟩ := hy'.resolve_left fun h => hi h.2
      exact .inr ⟨herror, herror'⟩
  · rw [ht, translateWords, if_neg hx]

end Alphabet

/-- Capitals under one translator, and small letters among underscores under another. -/
theorem translateField_myField :
    (Translator.platform true true).Wordwise ∧ (Translator.plain false).Wordwise ∧ ∃ managed,
      (Translator.platform true true).translateField "MY_FIELD" = .ok managed ∧
        (Translator.plain false).translateField "__my___Field_" = .ok managed ∧
          IsIdentifier managed ∧ '_' ∉ managed.toList := by
  have ht : (Translator.platform true true).Wordwise := rfl
  have ht' : (Translator.plain false).Wordwise := rfl
  have hcapitals : Worded "MY_FIELD".toList ["MY".toList, "FIELD".toList] :=
    worded_iff.2 (by decide +kernel)
  have hsmall : Worded "__my___Field_".toList ["my".toList, "Field".toList] :=
    worded_iff.2 (by decide +kernel)
  have hok : (Translator.platform true true).translateField "MY_FIELD" = .ok "MyField" := by
    decide +kernel
  obtain ⟨hwords, -⟩ := translateField_of_words _ _ ht ht'
  rcases hwords "MY_FIELD" "__my___Field_" _ _ (by decide) (by decide) hcapitals hsmall
    (by decide +kernel) with h | ⟨herror, -⟩
  · exact ⟨ht, ht', h⟩
  · cases hok.symm.trans herror

end BindingTree.Naming
