import BindingTree.Text.Casing
import Mathlib.Tactic.Common

/-! What the case mappings give. A character is mapped to itself or to images that the tables list. No
image is a dot or an underscore, so neither comes into a text by a change of case; and no image of
the upper-case mapping is moved by it, so raising a text again changes nothing. -/

namespace BindingTree.Text

/-- Whether a run moves a code point. -/
def Run.Moves (r : Run) (n : Nat) : Prop :=
  r.first ≤ n ∧ n ≤ r.last ∧ (n - r.first) % r.step = 0

/-- Whether the tables map nothing to a code point, by the bounds of their runs. -/
def spares (expansions : List (Nat × List Nat)) (runs : List Run) (n : Nat) : Bool :=
  expansions.all (fun e => !e.2.contains n) &&
    runs.all fun r => n < r.image || r.image + (r.last - r.first) < n

variable {expansions : List (Nat × List Nat)} {runs : List Run} {r s : Run} {n m : Nat} {c d x : Char}
  {cs before : List Char}

/-! ### One character -/

theorem Run.image?_eq_some (h : Run.image? runs n = some m) :
    ∃ r ∈ runs, r.Moves n ∧ m = r.image + (n - r.first) := by
  induction runs with
  | nil => cases h
  | cons r runs ih =>
    unfold Run.image? at h
    split at h
    next => cases h
    next hfirst =>
      split at h
      next hlast =>
        split at h
        next hstep =>
          cases h
          exact ⟨r, List.mem_cons_self, ⟨Nat.le_of_not_lt hfirst, hlast, hstep⟩, rfl⟩
        next => cases h
      next =>
        obtain ⟨r', hr', hmoves⟩ := ih h
        exact ⟨r', List.mem_cons_of_mem _ hr', hmoves⟩

theorem mapCase_of_unmoved (he : ∀ e ∈ expansions, c.toNat ≠ e.1)
    (hr : ∀ r ∈ runs, ¬ r.Moves c.toNat) : mapCase expansions runs c = [c] := by
  have hlookup : expansions.lookup c.toNat = none := List.lookup_eq_none_iff.2 fun e hmem => by
    simpa using he e hmem
  have himage : Run.image? runs c.toNat = none := by
    cases h : Run.image? runs c.toNat with
    | none => rfl
    | some m =>
      obtain ⟨r, hmem, hmoves, -⟩ := Run.image?_eq_some h
      exact absurd hmoves (hr r hmem)
  unfold mapCase
  rw [hlookup, himage]

/-- A character stays as it is, or has an expansion, or is moved by a run. -/
theorem mapCase_cases (expansions : List (Nat × List Nat)) (runs : List Run) (c : Char) :
    mapCase expansions runs c = [c] ∨
      (∃ e ∈ expansions, mapCase expansions runs c = e.2.map Char.ofNat) ∨
        ∃ r ∈ runs, r.Moves c.toNat ∧
          mapCase expansions runs c = [Char.ofNat (r.image + (c.toNat - r.first))] := by
  unfold mapCase
  split
  next ns hns =>
    obtain ⟨front, rest, htable, -⟩ := List.lookup_eq_some_iff.1 hns
    exact .inr (.inl ⟨(c.toNat, ns), htable ▸ by simp, rfl⟩)
  next =>
    split
    next m hm =>
      obtain ⟨r, hr, hmoves, rfl⟩ := Run.image?_eq_some hm
      exact .inr (.inr ⟨r, hr, hmoves, rfl⟩)
    next => exact .inl rfl

theorem toNat_ofNat_cases (n : Nat) : (Char.ofNat n).toNat = n ∨ Char.ofNat n = '\x00' := by
  by_cases hn : n.isValidChar
  · exact .inl (by rw [Char.ofNat, dif_pos hn]; rfl)
  · exact .inr (by rw [Char.ofNat, dif_neg hn]; rfl)

/-! ### Characters that no change of case brings in -/

theorem eq_of_mem_mapCase (hx : x ≠ '\x00') (hs : spares expansions runs x.toNat = true)
    (hmem : x ∈ mapCase expansions runs c) : x = c := by
  rw [spares, Bool.and_eq_true, List.all_eq_true, List.all_eq_true] at hs
  obtain ⟨hexpansions, hruns⟩ := hs
  have hcode : ∀ {n}, x = Char.ofNat n → x.toNat = n := by
    rintro n rfl
    exact (toNat_ofNat_cases n).resolve_right hx
  rcases mapCase_cases expansions runs c with h | ⟨e, he, h⟩ | ⟨r, hr, ⟨hfirst, hlast, -⟩, h⟩
  · rw [h] at hmem
    exact List.mem_singleton.1 hmem
  · rw [h] at hmem
    obtain ⟨n, hn, hchar⟩ := List.mem_map.1 hmem
    simpa [hcode hchar.symm, hn] using hexpansions e he
  · rw [h] at hmem
    have himage := hcode (List.mem_singleton.1 hmem)
    have hbounds := hruns r hr
    simp only [Bool.or_eq_true, decide_eq_true_eq] at hbounds
    omega

theorem eq_of_dot_mem_upper (h : '.' ∈ upper c) : '.' = c :=
  eq_of_mem_mapCase (by decide) (by decide +kernel) h

theorem eq_of_underscore_mem_upper (h : '_' ∈ upper c) : '_' = c :=
  eq_of_mem_mapCase (by decide) (by decide +kernel) h

theorem eq_of_underscore_mem_lower (h : '_' ∈ lower c) : '_' = c :=
  eq_of_mem_mapCase (by decide) (by decide +kernel) h

/-! ### Upper case of upper case -/

/-- Whether no image under `r` is moved by `s`: they are apart or, where the steps of `r` are steps of
`s`, out of step. -/
def Run.clears (r s : Run) : Bool :=
  s.last.blt r.image || (r.image + (r.last - r.first)).blt s.first ||
    ((r.first == r.last || r.step % s.step == 0) && r.image % s.step != s.first % s.step)

theorem Run.not_moves_of_clears (hc : r.clears s = true) (hn : r.Moves n) :
    ¬ s.Moves (r.image + (n - r.first)) := by
  rintro ⟨hfirst, hlast, hstep⟩
  obtain ⟨hfirst', hlast', hstep'⟩ := hn
  simp only [clears, Bool.or_eq_true, Bool.and_eq_true, Nat.blt_eq, beq_iff_eq, bne_iff_ne] at hc
  rcases hc with (hbelow | habove) | ⟨hsteps, hne⟩
  · omega
  · omega
  · have hdvd : s.step ∣ n - r.first := by
      rcases hsteps with hone | hsteps
      · rw [Nat.sub_eq_zero_of_le (hone ▸ hlast')]
        exact Nat.dvd_zero _
      · exact Nat.dvd_trans (Nat.dvd_of_mod_eq_zero hsteps) (Nat.dvd_of_mod_eq_zero hstep')
    obtain ⟨k, hk⟩ := hdvd
    obtain ⟨l, hl⟩ := Nat.dvd_of_mod_eq_zero hstep
    have himage : (r.image + (n - r.first)) % s.step = r.image % s.step := by
      rw [hk, Nat.add_mul_mod_self_left]
    have hstart : (r.image + (n - r.first)) % s.step = s.first % s.step := by
      rw [← Nat.sub_add_cancel hfirst, hl, Nat.mul_add_mod]
    exact hne (himage.symm.trans hstart)

/-- No image of a run is moved by another run or listed with an expansion. -/
theorem upperRuns_clear :
    (upperRuns.all fun r => upperRuns.all r.clears && upperExpansions.all fun e =>
      e.1.blt r.image || (r.image + (r.last - r.first)).blt e.1) = true := by
  decide +kernel

theorem upperExpansions_clear :
    ∀ e ∈ upperExpansions, ∀ n ∈ e.2, upper (Char.ofNat n) = [Char.ofNat n] := by
  decide +kernel

/-- An upper-case form has no upper case but itself. -/
theorem upper_of_mem_upper (hd : d ∈ upper c) : upper d = [d] := by
  unfold upper at hd
  rcases mapCase_cases upperExpansions upperRuns c with h | ⟨e, he, h⟩ | ⟨r, hr, hn, h⟩
  · rw [h] at hd
    obtain rfl := List.mem_singleton.1 hd
    exact h
  · rw [h] at hd
    obtain ⟨n, hn, rfl⟩ := List.mem_map.1 hd
    exact upperExpansions_clear e he n hn
  · rw [h] at hd
    obtain rfl := List.mem_singleton.1 hd
    have hclear := List.all_eq_true.1 upperRuns_clear r hr
    rw [Bool.and_eq_true, List.all_eq_true, List.all_eq_true] at hclear
    obtain ⟨hruns, hexpansions⟩ := hclear
    rcases toNat_ofNat_cases (r.image + (c.toNat - r.first)) with hcode | hnull
    · refine mapCase_of_unmoved (fun e he => ?_) fun s hs => ?_
      · have hapart := hexpansions e he
        obtain ⟨hfirst, hlast, -⟩ := hn
        simp only [Bool.or_eq_true, Nat.blt_eq] at hapart
        rw [hcode]
        omega
      · rw [hcode]
        exact Run.not_moves_of_clears (hruns s hs) hn
    · rw [hnull]
      decide +kernel

theorem length_upper (c : Char) : 1 ≤ (upper c).length ∧ (upper c).length ≤ 3 := by
  have hall : ∀ e ∈ upperExpansions, 1 ≤ e.2.length ∧ e.2.length ≤ 3 := by decide +kernel
  unfold upper
  rcases mapCase_cases upperExpansions upperRuns c with h | ⟨e, he, h⟩ | ⟨_, _, _, h⟩
  · simp [h]
  · rw [h, List.length_map]
    exact hall e he
  · simp [h]

theorem upper_ne_nil (c : Char) : upper c ≠ [] :=
  List.ne_nil_of_length_pos (length_upper c).1

/-! ### Texts -/

theorem upperAll_append (cs ds : List Char) : upperAll (cs ++ ds) = upperAll cs ++ upperAll ds :=
  List.flatMap_append

theorem upperAll_eq_self (h : ∀ c ∈ cs, upper c = [c]) : upperAll cs = cs := by
  induction cs with
  | nil => rfl
  | cons c cs ih =>
    rw [List.forall_mem_cons] at h
    rw [upperAll, List.flatMap_cons, h.1, ← upperAll, ih h.2]
    rfl

theorem upperAll_upperAll (cs : List Char) : upperAll (upperAll cs) = upperAll cs :=
  upperAll_eq_self fun _ hc =>
    let ⟨_, _, hd⟩ := List.mem_flatMap.1 hc
    upper_of_mem_upper hd

theorem upperAll_upper (c : Char) : upperAll (upper c) = upper c :=
  upperAll_eq_self fun _ => upper_of_mem_upper

/-- A text that is raised already is capitalized, too: its first character is the first of an
upper-case form. -/
theorem capitalize_of_upperAll (h : upperAll cs = cs) : capitalize cs = cs := by
  cases cs with
  | nil => rfl
  | cons c cs =>
    obtain ⟨d, ds, hd⟩ := List.exists_cons_of_ne_nil (upper_ne_nil c)
    have hhead : upper c ++ upperAll cs = c :: cs := h
    rw [hd, List.cons_append] at hhead
    obtain rfl : d = c := (List.cons.inj hhead).1
    rw [capitalize, upper_of_mem_upper (hd ▸ List.mem_cons_self)]
    rfl

theorem capitalize_append {ds : List Char} (hcs : cs ≠ []) (h : capitalize cs = cs) :
    capitalize (cs ++ ds) = cs ++ ds := by
  obtain ⟨c, cs, rfl⟩ := List.exists_cons_of_ne_nil hcs
  rw [List.cons_append, capitalize, ← List.append_assoc]
  exact congrArg (· ++ ds) h

theorem capitalize_capitalize (cs : List Char) : capitalize (capitalize cs) = capitalize cs := by
  cases cs with
  | nil => rfl
  | cons c cs =>
    exact capitalize_append (upper_ne_nil c) (capitalize_of_upperAll (upperAll_upper c))

theorem not_mem_capitalize (hx : ∀ {c}, x ∈ upper c → x = c) (hcs : x ∉ cs) : x ∉ capitalize cs := by
  cases cs with
  | nil => exact hcs
  | cons c cs =>
    rw [List.mem_cons, not_or] at hcs
    rw [capitalize, List.mem_append, not_or]
    exact ⟨fun h => hcs.1 (hx h), hcs.2⟩

theorem not_mem_upperAll (hx : ∀ {c}, x ∈ upper c → x = c) (hcs : x ∉ cs) : x ∉ upperAll cs := by
  intro h
  obtain ⟨c, hc, hmem⟩ := List.mem_flatMap.1 h
  exact hcs (hx hmem ▸ hc)

theorem underscore_not_mem_lowerAll (hcs : '_' ∉ cs) : '_' ∉ lowerAll cs := by
  suffices h : ∀ before, '_' ∉ lowerAfter before cs from h []
  induction cs with
  | nil => exact fun _ => List.not_mem_nil
  | cons c cs ih =>
    rw [List.mem_cons, not_or] at hcs
    intro before
    rw [lowerAfter, List.mem_append, not_or]
    refine ⟨?_, ih hcs.2 _⟩
    split
    next => split <;> decide
    next => exact fun h => hcs.1 (eq_of_underscore_mem_lower h)

end BindingTree.Text
