import BindingTree.Text.IdentifierRanges

/-! Which characters may start and continue an identifier. An alphabet says so by the standard; the
underscore, which continues one, starts one by convention. -/

namespace BindingTree.Text

/-- The characters that start identifiers and those that continue them. Whatever starts one, and the
underscore, continues one; the dot does neither. -/
class Alphabet where
  starts : Char → Bool
  continues : Char → Bool
  continues_of_starts {c : Char} : starts c = true → continues c = true
  underscore_continues : continues '_' = true
  dot_not_continues : continues '.' = false
  letter_starts {c : Char} : c.isAlpha = true → starts c = true

theorem has_startRanges_of_isAlpha {c : Char} (hc : c.isAlpha = true) :
    startRanges.has c.toNat = true := by
  have hfirst : startRanges = (0x41, 0x5A) :: (0x61, 0x7A) :: startRanges.drop 2 := rfl
  have hletter : 0x41 ≤ c.toNat ∧ c.toNat ≤ 0x5A ∨ 0x61 ≤ c.toNat ∧ c.toNat ≤ 0x7A := by
    rcases Bool.or_eq_true_iff.1 hc with hupper | hlower
    · exact .inl (of_decide_eq_true hupper)
    · obtain ⟨hlow, hhigh⟩ := Bool.and_eq_true_iff.1 hlower
      exact .inr ⟨of_decide_eq_true hlow, of_decide_eq_true hhigh⟩
  rw [hfirst, Ranges.has, Ranges.has]
  grind

/-- The alphabet of the Unicode standard. -/
instance unicode : Alphabet where
  starts c := startRanges.has c.toNat
  continues c := startRanges.has c.toNat || continueOnlyRanges.has c.toNat
  continues_of_starts hc := by rw [hc, Bool.true_or]
  underscore_continues := by decide
  dot_not_continues := by decide
  letter_starts := has_startRanges_of_isAlpha

section Alphabet

variable [Alphabet] {c : Char}

def isIdentifierStart (c : Char) : Bool := c = '_' || Alphabet.starts c

def isIdentifierContinue (c : Char) : Bool := Alphabet.continues c

theorem isIdentifierContinue_of_start (hc : isIdentifierStart c = true) :
    isIdentifierContinue c = true := by
  simp only [isIdentifierStart, Bool.or_eq_true, decide_eq_true_eq] at hc
  rcases hc with rfl | hc
  · exact Alphabet.underscore_continues
  · exact Alphabet.continues_of_starts hc

theorem isIdentifierStart_of_letter (hc : c.isAlpha = true) : isIdentifierStart c = true := by
  rw [isIdentifierStart, Alphabet.letter_starts hc, Bool.or_true]

end Alphabet

end BindingTree.Text
