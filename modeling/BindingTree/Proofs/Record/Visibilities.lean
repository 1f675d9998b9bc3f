import BindingTree.Proofs.Text.Words
import BindingTree.Record.Visibility

/-! What is read as a visibility: the texts whose words, in small letters, spell one. A text is read as
a whole before it is cut into words. It makes no difference: as a whole it is one of the names of a
single word just if it has that word and no other, and nothing is left of it just if it has no words. -/

namespace BindingTree.Visibility

open Text

/-- The lists of words that spell a visibility. Two words may come in either order. -/
inductive Spells : List String → Visibility → Prop
  | unknown : Spells [] .unknown
  | pub : Spells ["public"] .pub
  | prot : Spells ["protected"] .prot
  | priv : Spells ["private"] .priv
  | internal : Spells ["internal"] .internal
  | protInternal : Spells ["protected", "internal"] .protInternal
  | internalProt : Spells ["internal", "protected"] .protInternal
  | privProt : Spells ["private", "protected"] .privProt
  | protPriv : Spells ["protected", "private"] .privProt

/-- A word with its ASCII letters in lower case. -/
def lowered (w : List Char) : String := String.ofList (w.map Char.toLower)

variable {text word a b : String} {rest : List String} {cs w : List Char} {ws : List (List Char)}
  {v : Visibility}

/-! ### Words that spell a visibility -/

theorem ofWord?_eq_some_iff (hne : word ≠ "") : ofWord? word = some v ↔ Spells [word] v := by
  constructor
  · intro h
    unfold ofWord? at h
    split at h <;> cases h
    · exact absurd rfl hne
    · exact .pub
    · exact .prot
    · exact .priv
    · exact .internal
  · intro h
    cases h <;> rfl

theorem spells_of_ofPair? {several : List String} (h : ofPair? several = some v) :
    Spells several v := by
  unfold ofPair? at h
  split at h <;> cases h
  · exact .protInternal
  · exact .internalProt
  · exact .privProt
  · exact .protPriv

theorem ofPair?_eq_some_iff : ofPair? (a :: b :: rest) = some v ↔ Spells (a :: b :: rest) v := by
  refine ⟨spells_of_ofPair?, fun h => ?_⟩
  cases h <;> rfl

/-- A text of several words is no single word. -/
theorem ofWord?_of_words (hw : 1 < (words cs).length) : ofWord? (String.ofList cs) = none := by
  cases hv : ofWord? (String.ofList cs) with
  | none => rfl
  | some v =>
    have hsingle : ∀ s ∈ ["", "public", "protected", "private", "internal"],
        (words s.toList).length ≤ 1 := by decide
    have hmem : String.ofList cs ∈ ["", "public", "protected", "private", "internal"] := by
      unfold ofWord? at hv
      split at hv <;> simp_all
    have hle := hsingle _ hmem
    rw [String.toList_ofList] at hle
    omega

/-! ### Reading -/

theorem words_written (cs : List Char) :
    (words ((trim cs).map Char.toLower)).map String.ofList = (words cs).map lowered := by
  rw [words_map isBlank_toLower, words_trim, List.map_map]
  rfl

/-- A text is read by its words, as it is cut into them only where it has several. -/
theorem ofText?_eq (hw : words text.toList = ws) : ofText? text = match ws.map lowered with
    | [] => some .unknown
    | [word] => ofWord? word
    | several => ofPair? several := by
  have hwritten := words_written text.toList
  unfold ofText?
  dsimp only
  rw [hwritten, hw]
  match ws with
  | [] =>
    rw [trim_eq_nil_iff.2 hw]
    rfl
  | [w] =>
    have hpair : ofPair? ([w].map lowered) = none := by simp [ofPair?]
    rw [trim_of_words hw, hpair, Option.orElse_eq_orElse, Option.orElse_eq_or, Option.or_none]
    rfl
  | w :: w' :: ws =>
    rw [ofWord?_of_words]
    · rfl
    · rw [words_map isBlank_toLower, words_trim, hw]
      simp

theorem ofText?_eq_some_iff (hw : Separated isBlank text.toList ws) :
    ofText? text = some v ↔ Spells (ws.map lowered) v := by
  have hwords : words text.toList = ws := (separated_iff.1 hw).symm
  rw [ofText?_eq hwords]
  match ws with
  | [] =>
    constructor
    · rintro ⟨⟩
      exact .unknown
    · rintro ⟨⟩
      rfl
  | [w] =>
    have hne : w ≠ [] := by
      have hmem : w ∈ words text.toList := hwords ▸ List.mem_singleton_self w
      simpa using List.of_mem_filter hmem
    refine ofWord?_eq_some_iff fun h => hne ?_
    simpa [lowered] using h
  | w :: w' :: ws => exact ofPair?_eq_some_iff

theorem ofText_eq_ok_iff (hw : Separated isBlank text.toList ws) :
    ofText text = .ok v ↔ Spells (ws.map lowered) v := by
  rw [← ofText?_eq_some_iff hw, ofText]
  cases ofText? text <;> simp

/-- A text that is not read is refused as it stands. -/
theorem ofText_eq_error_iff :
    ofText text = .error (.badVisibility text) ↔ ∀ v, ofText text ≠ .ok v := by
  unfold ofText
  cases ofText? text with
  | none => exact iff_of_true rfl nofun
  | some v => exact iff_of_false nofun fun h => h v rfl

/-- Every text has one list of words, and is read as the visibility that they spell in small letters.
If they spell none, it is refused as it stands. So texts with the same words are read alike, and what is
written for a visibility is read back. -/
theorem ofText_of_words :
    (∀ text : String, ∃! ws, Separated isBlank text.toList ws) ∧
    (∀ text ws, Separated isBlank text.toList ws →
      (∀ v, ofText text = .ok v ↔ Spells (ws.map lowered) v) ∧
      (ofText text = .error (.badVisibility text) ↔ ∀ v, ¬ Spells (ws.map lowered) v)) ∧
    (∀ a b us ws, Separated isBlank a.toList us → Separated isBlank b.toList ws →
      us.map lowered = ws.map lowered →
        (∃ v, ofText a = .ok v ∧ ofText b = .ok v) ∨
        (ofText a = .error (.badVisibility a) ∧ ofText b = .error (.badVisibility b))) ∧
    ∀ v : Visibility, ofText v.text = .ok v := by
  refine ⟨fun text => ⟨_, separated_iff.2 rfl, fun _ => separated_iff.1⟩,
    fun text ws hw => ⟨fun v => ofText_eq_ok_iff hw, ?_⟩, fun a b us ws ha hb hwords => ?_,
    ofText_text⟩
  · rw [ofText_eq_error_iff]
    exact forall_congr' fun v => not_congr (ofText_eq_ok_iff hw)
  · by_cases hspelled : ∃ v, Spells (us.map lowered) v
    · obtain ⟨v, hv⟩ := hspelled
      exact .inl ⟨v, (ofText_eq_ok_iff ha).2 hv, (ofText_eq_ok_iff hb).2 (hwords ▸ hv)⟩
    · have hnone := not_exists.1 hspelled
      refine .inr ⟨ofText_eq_error_iff.2 fun v h => hnone v ((ofText_eq_ok_iff ha).1 h),
        ofText_eq_error_iff.2 fun v h => hnone v ?_⟩
      rw [hwords]
      exact (ofText_eq_ok_iff hb).1 h

/-- Mixed case among blanks of several kinds, and a capital that is not an ASCII letter. -/
theorem ofText_of_words_mixed :
    Separated isBlank "\u00a0INTERNAL\tProtected ".toList ["INTERNAL".toList, "Protected".toList] ∧
    Separated isBlank "internal protected".toList ["internal".toList, "protected".toList] ∧
    (∃ v, ofText "\u00a0INTERNAL\tProtected " = .ok v ∧ ofText "internal protected" = .ok v) ∧
    ofText "internal protected" = .ok .protInternal ∧
    Separated isBlank "İnternal".toList ["İnternal".toList] ∧
    ofText "İnternal" = .error (.badVisibility "İnternal") := by
  have hmixed : Separated isBlank "\u00a0INTERNAL\tProtected ".toList
      ["INTERNAL".toList, "Protected".toList] := separated_iff.2 (by decide +kernel)
  have hplain : Separated isBlank "internal protected".toList
      ["internal".toList, "protected".toList] := separated_iff.2 (by decide +kernel)
  have hforeign : Separated isBlank "İnternal".toList ["İnternal".toList] :=
    separated_iff.2 (by decide +kernel)
  obtain ⟨-, hread, halike, -⟩ := ofText_of_words
  have hok : ofText "internal protected" = .ok .protInternal :=
    ((hread _ _ hplain).1 _).2 .internalProt
  have hsame := (halike _ _ _ _ hmixed hplain (by decide +kernel)).resolve_right fun h => by
    cases hok.symm.trans h.2
  refine ⟨hmixed, hplain, hsame, hok, hforeign, (hread _ _ hforeign).2.2 fun v hv => ?_⟩
  have hword : ["İnternal".toList].map lowered = ["İnternal"] := by decide +kernel
  rw [hword, ← ofWord?_eq_some_iff (by decide)] at hv
  cases hv

end BindingTree.Visibility
