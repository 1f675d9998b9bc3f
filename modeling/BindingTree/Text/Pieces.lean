/-! Cutting a text at its separators. Every text has at least one piece, and gluing the pieces
with the separator gives the text back. -/

namespace BindingTree.Text

/-- The pieces between the characters that `sep` picks out, empty ones included. -/
def pieces (sep : Char → Bool) : List Char → List (List Char)
  | [] => [[]]
  | c :: cs =>
    if sep c then [] :: pieces sep cs
    else match pieces sep cs with
      | [] => [[c]]
      | w :: ws => (c :: w) :: ws

theorem pieces_ne_nil (sep : Char → Bool) (cs : List Char) : pieces sep cs ≠ [] := by
  cases cs with
  | nil => simp [pieces]
  | cons c cs =>
    rw [pieces]
    split
    · simp
    · split <;> simp

/-- A separator between two texts separates their pieces. -/
theorem pieces_append_cons (sep : Char → Bool) (d : Char) (hd : sep d = true)
    (a b : List Char) : pieces sep (a ++ d :: b) = pieces sep a ++ pieces sep b := by
  induction a with
  | nil => simp [pieces, hd]
  | cons c cs ih =>
    rw [List.cons_append, pieces, pieces, ih]
    split
    · rfl
    · have hne := pieces_ne_nil sep cs
      revert hne
      cases pieces sep cs <;> simp

theorem pieces_of_forall (sep : Char → Bool) (cs : List Char) (h : ∀ c ∈ cs, sep c = false) :
    pieces sep cs = [cs] := by
  induction cs with
  | nil => rfl
  | cons c cs ih =>
    rw [pieces, ih fun x hx => h x (List.mem_cons_of_mem _ hx), h c List.mem_cons_self]
    rfl

end BindingTree.Text
