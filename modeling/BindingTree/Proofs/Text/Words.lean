import BindingTree.Text.Blank
import Mathlib.Data.List.DropRight
import Mathlib.Tactic.Common

/-! Words. Every text falls into words in one way: they are the non-empty pieces between its separators.
Blanks at the ends of a text are no part of its words, so trimming keeps the words. A trimmed text has
a word on both sides of every blank, so a text with a single word is trimmed to it. -/

namespace BindingTree.Text

/-- How a text falls into words: a word goes on up to a separator or to the end, and any number of
separators may stand before it and after it. -/
inductive Separated (sep : Char → Bool) : List Char → List (List Char) → Prop
  | nil : Separated sep [] []
  | separator {c : Char} {cs : List Char} {ws : List (List Char)} :
      sep c = true → Separated sep cs ws → Separated sep (c :: cs) ws
  | last {w : List Char} : w ≠ [] → (∀ d ∈ w, sep d = false) → Separated sep w [w]
  | word {w : List Char} {c : Char} {cs : List Char} {ws : List (List Char)} :
      w ≠ [] → (∀ d ∈ w, sep d = false) → sep c = true → Separated sep cs ws →
        Separated sep (w ++ c :: cs) (w :: ws)

variable {sep : Char → Bool} {f : Char → Char} {c : Char} {cs w : List Char} {ws : List (List Char)}

/-! ### Separators -/

theorem Separated.eq_filter (h : Separated sep cs ws) : ws = (pieces sep cs).filter (· ≠ []) := by
  induction h with
  | nil => rfl
  | separator hc _ ih =>
    rw [pieces, if_pos hc]
    simpa using ih
  | last hne hw => simp [pieces_of_forall _ _ hw, hne]
  | word hne hw hc _ ih =>
    rw [pieces_append_cons _ _ hc, pieces_of_forall _ _ hw]
    simpa [hne] using ih

/-- Every text falls into words. -/
theorem exists_separated (sep : Char → Bool) (cs : List Char) : ∃ ws, Separated sep cs ws := by
  induction cs with
  | nil => exact ⟨[], .nil⟩
  | cons c cs ih =>
    obtain ⟨ws, hws⟩ := ih
    cases hc : sep c with
    | true => exact ⟨ws, .separator hc hws⟩
    | false =>
      -- The character begins a word of its own, or is put before the first one.
      have hfront : ∀ {w : List Char}, (∀ d ∈ w, sep d = false) → ∀ d ∈ c :: w, sep d = false :=
        fun hw => List.forall_mem_cons.2 ⟨hc, hw⟩
      have hself : ∀ d ∈ [c], sep d = false := hfront (List.forall_mem_nil _)
      cases hws with
      | nil => exact ⟨[[c]], .last (List.cons_ne_nil c []) hself⟩
      | separator hd h => exact ⟨[c] :: ws, .word (List.cons_ne_nil c []) hself hd h⟩
      | last _ hw => exact ⟨[c :: cs], .last (List.cons_ne_nil c cs) (hfront hw)⟩
      | @word w _ _ us _ hw hd h =>
        exact ⟨(c :: w) :: us, .word (List.cons_ne_nil c w) (hfront hw) hd h⟩

/-- A text has one list of words: what stands between its separators and is not empty. -/
theorem separated_iff : Separated sep cs ws ↔ ws = (pieces sep cs).filter (· ≠ []) := by
  refine ⟨Separated.eq_filter, fun h => ?_⟩
  obtain ⟨us, hus⟩ := exists_separated sep cs
  rwa [h, ← hus.eq_filter]

/-- No separator is left in the pieces. -/
theorem not_sep_of_mem_pieces (hw : w ∈ pieces sep cs) (hc : c ∈ w) : sep c = false := by
  induction cs generalizing w with
  | nil =>
    obtain rfl := List.mem_singleton.1 hw
    cases hc
  | cons d cs ih =>
    rw [pieces] at hw
    split at hw
    next =>
      rcases List.mem_cons.1 hw with rfl | hw
      · cases hc
      · exact ih hw hc
    next hd =>
      obtain ⟨v, vs, hv⟩ := List.exists_cons_of_ne_nil (pieces_ne_nil sep cs)
      rw [hv] at hw ih
      dsimp only at hw
      rcases List.mem_cons.1 hw with rfl | hw
      · rcases List.mem_cons.1 hc with rfl | hc
        · simpa using hd
        · exact ih List.mem_cons_self hc
      · exact ih (List.mem_cons_of_mem _ hw) hc

/-- A change of characters that keeps the separators apart from the rest changes the pieces one by
one. -/
theorem pieces_map (hf : ∀ c, sep (f c) = sep c) (cs : List Char) :
    pieces sep (cs.map f) = (pieces sep cs).map (List.map f) := by
  induction cs with
  | nil => rfl
  | cons c cs ih =>
    rw [List.map_cons, pieces, pieces, ih, hf]
    split
    next => rfl
    next =>
      obtain ⟨w, ws, hw⟩ := List.exists_cons_of_ne_nil (pieces_ne_nil sep cs)
      rw [hw]
      rfl

/-! ### Blanks -/

theorem words_append_cons (hc : isBlank c = true) (before after : List Char) :
    words (before ++ c :: after) = words before ++ words after := by
  rw [words, pieces_append_cons _ _ hc, List.filter_append]
  rfl

theorem words_of_forall (hne : w ≠ []) (hw : ∀ c ∈ w, isBlank c = false) : words w = [w] := by
  rw [words, pieces_of_forall _ _ hw]
  simp [hne]

theorem words_eq_nil_iff : words cs = [] ↔ ∀ c ∈ cs, isBlank c = true := by
  induction cs with
  | nil => exact iff_of_true rfl (List.forall_mem_nil _)
  | cons c cs ih =>
    rw [List.forall_mem_cons]
    by_cases hc : isBlank c = true
    · have hcons : words (c :: cs) = words cs := words_append_cons hc [] cs
      rw [hcons, ih, and_iff_right hc]
    · obtain ⟨w, ws, hw⟩ := List.exists_cons_of_ne_nil (pieces_ne_nil isBlank cs)
      simp [words, pieces, hc, hw]

theorem words_map (hf : ∀ c, isBlank (f c) = isBlank c) (cs : List Char) :
    words (cs.map f) = (words cs).map (List.map f) := by
  rw [words, pieces_map hf, List.filter_map, words]
  congr 2
  funext w
  simp

/-- No character from `A` to `z` is blank. -/
theorem not_blank_of_letter : ∀ n < 123, 65 ≤ n → blankRanges.has n = false := by decide

theorem isBlank_toLower (c : Char) : isBlank c.toLower = isBlank c := by
  unfold Char.toLower
  split
  next h =>
    have hlow : 65 ≤ c.val.toNat := UInt32.le_iff_toNat_le.1 h.1
    have hhigh : c.val.toNat ≤ 90 := UInt32.le_iff_toNat_le.1 h.2
    have hsum : (c.val + ('a'.val - 'A'.val)).toNat = c.val.toNat + 32 := by
      rw [UInt32.toNat_add]
      exact Nat.mod_eq_of_lt (Nat.lt_of_le_of_lt (Nat.add_le_add_right hhigh _) (by decide))
    change blankRanges.has (c.val + ('a'.val - 'A'.val)).toNat = blankRanges.has c.val.toNat
    rw [hsum, not_blank_of_letter _ (by omega) (by omega), not_blank_of_letter _ (by omega) hlow]
  next => rfl

/-! ### Trimmed texts -/

theorem trim_eq (cs : List Char) : trim cs = (cs.dropWhile isBlank).rdropWhile isBlank := rfl

theorem words_dropWhile (cs : List Char) : words (cs.dropWhile isBlank) = words cs := by
  induction cs with
  | nil => rfl
  | cons c cs ih =>
    rw [List.dropWhile_cons]
    split
    next hc => exact ih.trans (words_append_cons hc [] cs).symm
    next => rfl

theorem words_rdropWhile (cs : List Char) : words (cs.rdropWhile isBlank) = words cs := by
  induction cs using List.reverseRecOn with
  | nil => rfl
  | append_singleton cs c ih =>
    rw [List.rdropWhile_concat]
    split
    next hc =>
      rw [ih, words_append_cons hc]
      exact (List.append_nil _).symm
    next => rfl

/-- Blanks at the ends of a text are no part of its words. -/
theorem words_trim (cs : List Char) : words (trim cs) = words cs := by
  rw [trim_eq, words_rdropWhile, words_dropWhile]

theorem head_trim (hne : trim cs ≠ []) : isBlank ((trim cs).head hne) = false := by
  have hfront : trim cs <+: cs.dropWhile isBlank := List.rdropWhile_prefix _ _
  rw [hfront.head hne]
  exact List.head_dropWhile_not _ _

theorem getLast_trim (hne : trim cs ≠ []) : isBlank ((trim cs).getLast hne) = false :=
  Bool.eq_false_iff.2 (List.rdropWhile_last_not isBlank (cs.dropWhile isBlank) hne)

theorem trim_eq_nil_iff : trim cs = [] ↔ words cs = [] := by
  rw [← words_trim]
  refine ⟨fun h => by rw [h]; rfl, fun h => ?_⟩
  by_contra hne
  have hblank := words_eq_nil_iff.1 h _ (List.getLast_mem hne)
  rw [getLast_trim hne] at hblank
  cases hblank

/-- In a trimmed text there is a word before every blank and a word behind it. -/
theorem words_ne_nil_of_trim {before after : List Char} (hc : isBlank c = true)
    (ht : trim cs = before ++ c :: after) : words before ≠ [] ∧ words after ≠ [] := by
  have hne : trim cs ≠ [] := ht ▸ List.append_ne_nil_of_right_ne_nil _ (List.cons_ne_nil c after)
  refine ⟨fun hbefore => ?_, fun hafter => ?_⟩
  · have hblank : ∀ d ∈ before ++ [c], isBlank d = true :=
      List.forall_mem_append.2 ⟨words_eq_nil_iff.1 hbefore, by simpa using hc⟩
    have hmem : (trim cs).head hne ∈ before ++ [c] := by
      simp only [ht]
      cases before <;> simp
    exact absurd (hblank _ hmem) (by rw [head_trim hne]; decide)
  · have hblank : ∀ d ∈ c :: after, isBlank d = true :=
      List.forall_mem_cons.2 ⟨hc, words_eq_nil_iff.1 hafter⟩
    have hmem : (trim cs).getLast hne ∈ c :: after := by
      simp only [ht, List.getLast_append_of_right_ne_nil _ _ (List.cons_ne_nil c after)]
      exact List.getLast_mem _
    exact absurd (hblank _ hmem) (by rw [getLast_trim hne]; decide)

/-- A text with a single word is trimmed to it. -/
theorem trim_of_words (hw : words cs = [w]) : trim cs = w := by
  rw [← words_trim] at hw
  by_cases hall : ∀ c ∈ trim cs, isBlank c = false
  · have hne : trim cs ≠ [] := fun h => by
      rw [h] at hw
      cases hw
    exact (List.cons.inj ((words_of_forall hne hall).symm.trans hw)).1
  · -- A blank inside would have words on both sides.
    simp only [not_forall, Bool.not_eq_false] at hall
    obtain ⟨c, hmem, hc⟩ := hall
    obtain ⟨before, after, ht⟩ := List.append_of_mem hmem
    obtain ⟨hbefore, hafter⟩ := words_ne_nil_of_trim hc ht
    rw [ht, words_append_cons hc] at hw
    rcases List.append_eq_singleton_iff.1 hw with ⟨h, -⟩ | ⟨-, h⟩
    · exact absurd h hbefore
    · exact absurd h hafter

end BindingTree.Text
