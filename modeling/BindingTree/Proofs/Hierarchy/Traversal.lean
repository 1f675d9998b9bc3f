import BindingTree.Proofs.Hierarchy.WellFormed

/-! Walks of well-formed hierarchies. The bound on the descent is never reached, so a walk is the
element followed by the walks of its members; it lists exactly what the element covers, and nothing
in it is covered by what comes later. A loop over an explicit stack gives the same list. -/

namespace BindingTree.Hierarchy

/-- `j` is `a` or stands below it. -/
def Covers (h : Hierarchy) (a j : ElementId) : Prop := j = a ∨ h.Above a j

variable {h h' : Hierarchy} {a b i j p c : ElementId}

theorem Covers.refl (h : Hierarchy) (a : ElementId) : h.Covers a a := .inl rfl

theorem Covers.trans (hab : h.Covers a b) (hbj : h.Covers b j) : h.Covers a j := by
  rcases hbj with rfl | hbj
  · exact hab
  rcases hab with rfl | hab
  · exact .inr hbj
  · exact .inr (hab.trans hbj)

theorem Covers.of_owner (ho : h.owner i = .element a) : h.Covers a i := .inr (Above.of_owner ho)

namespace WellFormed

variable (hw : h.WellFormed)
include hw

/-- Of two elements that cover a third, one covers the other. -/
theorem covers_comparable (ha : h.Covers a j) (hb : h.Covers b j) :
    h.Covers a b ∨ h.Covers b a := by
  induction j using hw.owner_induction with
  | step j ih =>
    rcases ha with rfl | ha
    · exact .inr hb
    rcases hb with rfl | hb
    · exact .inl (.inr ha)
    obtain ⟨p, ho⟩ := ha.exists_owner
    refine ih p ho ?_ ?_
    · exact ((above_iff_of_owner ho).1 ha).imp_left Eq.symm
    · exact ((above_iff_of_owner ho).1 hb).imp_left Eq.symm

/-- What an element covers below one member, it does not cover below another. -/
theorem eq_of_covers_of_members (hb : h.owner b = .element p) (hc : h.owner c = .element p)
    (hbj : h.Covers b j) (hcj : h.Covers c j) : b = c := by
  have hside : ∀ {x y : ElementId}, h.owner x = .element p → h.owner y = .element p →
      h.Covers x y → y = x := by
    intro x y hx hy hxy
    refine hxy.resolve_right fun ha => ?_
    rcases (above_iff_of_owner hy).1 ha with rfl | ha
    · exact hw.acyclic _ (Above.of_owner hx)
    · exact hw.acyclic _ ((Above.of_owner hx).trans ha)
  rcases hw.covers_comparable hbj hcj with hbc | hcb
  · exact (hside hb hc hbc).symm
  · exact hside hc hb hcb

theorem covers_top (j : ElementId) : h.Covers (h.top j) j := by
  induction j using hw.owner_induction with
  | step j ih =>
    by_cases ho : ∃ p, h.owner j = .element p
    · obtain ⟨p, ho⟩ := ho
      rw [hw.top_of_owner ho]
      exact (ih p ho).trans (Covers.of_owner ho)
    · rw [top_eq_self fun p hp => ho ⟨p, hp⟩]
      exact Covers.refl h j

theorem top_eq_of_covers (ha : ∀ p, h.owner a ≠ .element p) (haj : h.Covers a j) :
    h.top j = a := by
  induction j using hw.owner_induction with
  | step j ih =>
    rcases haj with rfl | haj
    · exact top_eq_self ha
    obtain ⟨p, ho⟩ := haj.exists_owner
    rw [hw.top_of_owner ho]
    exact ih p ho (((above_iff_of_owner ho).1 haj).imp_left Eq.symm)

/-! ### Walks of single elements -/

omit hw in
theorem covers_of_mem_walkTo (hm : ∀ {p c : ElementId}, c ∈ h.members p → h.owner c = .element p)
    {n : Nat} (hj : j ∈ h.walkTo n i) : h.Covers i j := by
  induction n generalizing i with
  | zero => simp [walkTo] at hj
  | succ n ih =>
    rw [walkTo, List.mem_cons, List.mem_flatMap] at hj
    rcases hj with rfl | ⟨c, hc, hj⟩
    · exact Covers.refl h j
    · exact (Covers.of_owner (hm hc)).trans (ih hj)

/-- A descent goes no deeper once it has as many levels as the chains of owners leave. -/
theorem walkTo_succ {n : Nat} (hi : i < h.size) (hn : h.size ≤ n + (h.ancestors i).length) :
    h.walkTo (n + 1) i = h.walkTo n i := by
  induction n generalizing i with
  | zero =>
    have := hw.length_ancestors_lt hi
    omega
  | succ n ih =>
    rw [walkTo, walkTo]
    congr 1
    refine List.flatMap_congr fun c hc => ih (hw.lt_size_of_mem_members hc) ?_
    rw [hw.ancestors_of_owner (hw.mem_members.1 hc), List.length_cons]
    omega

theorem walk_eq (hi : i < h.size) : h.walk i = i :: (h.members i).flatMap h.walk := by
  rw [walk, ← hw.walkTo_succ hi (Nat.le_add_right _ _), walkTo]
  rfl

theorem mem_walk (hi : i < h.size) : j ∈ h.walk i ↔ h.Covers i j := by
  refine ⟨covers_of_mem_walkTo hw.mem_members.1, ?_⟩
  have hself : ∀ {k : ElementId}, k < h.size → k ∈ h.walk k := fun hk => by
    rw [hw.walk_eq hk]
    exact List.mem_cons_self
  have hstep : ∀ {k c : ElementId}, h.owner c = .element k → j ∈ h.walk c → j ∈ h.walk k := by
    intro k c ho hj
    rw [hw.walk_eq (hw.owner_lt ho)]
    exact List.mem_cons_of_mem _ (List.mem_flatMap.2 ⟨c, hw.mem_members.2 ho, hj⟩)
  rintro (rfl | ha)
  · exact hself hi
  · induction ha using Relation.TransGen.head_induction_on with
    | single hs => exact hstep hs (hself (lt_size_of_owner_ne (by rw [hs]; simp)))
    | head hs _ ih => exact hstep hs (ih (lt_size_of_owner_ne (by rw [hs]; simp)))

theorem lt_size_of_mem_walk (hi : i < h.size) (hj : j ∈ h.walk i) : j < h.size := by
  rcases (hw.mem_walk hi).1 hj with rfl | ha
  · exact hi
  · obtain ⟨p, ho⟩ := ha.exists_owner
    exact lt_size_of_owner_ne (by rw [ho]; simp)

/-- Nothing in a walk is covered by what comes later: owners come first, and nothing comes twice. -/
theorem pairwise_walkTo (n : Nat) (i : ElementId) :
    (h.walkTo n i).Pairwise fun a b => ¬ h.Covers b a := by
  induction n generalizing i with
  | zero => exact .nil
  | succ n ih =>
    rw [walkTo, List.pairwise_cons, List.pairwise_flatMap]
    refine ⟨?_, fun c _ => ih c, ?_⟩
    · intro b hb hbi
      obtain ⟨c, hc, hb⟩ := List.mem_flatMap.1 hb
      have ho := hw.mem_members.1 hc
      have hci : h.Covers c i := (covers_of_mem_walkTo hw.mem_members.1 hb).trans hbi
      rcases hci with rfl | hci
      · exact hw.acyclic _ (Above.of_owner ho)
      · exact hw.acyclic _ ((Above.of_owner ho).trans hci)
    · refine (hw.nodup_members i).imp_of_mem fun {c d} hc hd hcd a ha b hb hba => hcd ?_
      refine hw.eq_of_covers_of_members (hw.mem_members.1 hc) (hw.mem_members.1 hd)
        (covers_of_mem_walkTo hw.mem_members.1 ha) ?_
      exact (covers_of_mem_walkTo hw.mem_members.1 hb).trans hba

theorem pairwise_walk (i : ElementId) : (h.walk i).Pairwise fun a b => ¬ h.Covers b a :=
  hw.pairwise_walkTo _ i

omit hw in
theorem nodup_of_pairwise {l : List ElementId} (hl : l.Pairwise fun a b => ¬ h.Covers b a) :
    l.Nodup :=
  hl.imp fun hab e => hab (.inl e)

/-! ### The walk of everything -/

theorem owner_of_mem_tops (hi : i ∈ h.namespaces ++ h.rootEnums) : h.owner i = .root := by
  rcases List.mem_append.1 hi with hi | hi
  · exact (hw.mem_namespaces.1 hi).2
  · exact (hw.mem_rootEnums.1 hi).2

theorem mem_tops (ho : h.owner i = .root) : i ∈ h.namespaces ++ h.rootEnums := by
  rcases hw.listed ho with hi | hi
  · exact List.mem_append_left _ hi
  · exact List.mem_append_right _ (hw.mem_rootEnums.2 ⟨(hw.of_mem_enums hi).2, ho⟩)

theorem nodup_tops : (h.namespaces ++ h.rootEnums).Nodup := by
  refine hw.nodup_namespaces.append (hw.nodup_enums.filter _) fun i hn he => ?_
  have hk := (hw.mem_rootEnums.1 he).1
  rw [(hw.mem_namespaces.1 hn).1] at hk
  cases hk

/-- The walk of everything lists what has its topmost owner at the top of the hierarchy. -/
theorem mem_walkAll : j ∈ h.walkAll ↔ h.owner (h.top j) = .root := by
  rw [walkAll, List.mem_flatMap]
  constructor
  · rintro ⟨r, hr, hj⟩
    have ho := hw.owner_of_mem_tops hr
    rw [hw.top_eq_of_covers (by simp [ho]) (covers_of_mem_walkTo hw.mem_members.1 hj), ho]
  · intro ho
    have hlt : h.top j < h.size := lt_size_of_owner_ne (by rw [ho]; simp)
    exact ⟨h.top j, hw.mem_tops ho, (hw.mem_walk hlt).2 (hw.covers_top j)⟩

theorem pairwise_walkAll : h.walkAll.Pairwise fun a b => ¬ h.Covers b a := by
  rw [walkAll, List.pairwise_flatMap]
  refine ⟨fun r _ => hw.pairwise_walk r, ?_⟩
  refine hw.nodup_tops.imp_of_mem fun {r s} hr hs hrs a ha b hb hba => hrs ?_
  have htop : ∀ {t : ElementId}, t ∈ h.namespaces ++ h.rootEnums → h.Covers t a → h.top a = t :=
    fun ht => hw.top_eq_of_covers (by simp [hw.owner_of_mem_tops ht])
  rw [← htop hr (covers_of_mem_walkTo hw.mem_members.1 ha),
    htop hs ((covers_of_mem_walkTo hw.mem_members.1 hb).trans hba)]

theorem nodup_walkAll : h.walkAll.Nodup := nodup_of_pairwise hw.pairwise_walkAll

end WellFormed

/-! ### Walking with a stack -/

/-- Takes one element after another off a stack and puts its members there instead. Gives nothing
if the stack is not empty after `n` steps. -/
def unstack (h : Hierarchy) : Nat → List ElementId → Option (List ElementId)
  | _, [] => some []
  | 0, _ :: _ => none
  | n + 1, i :: stack => (h.unstack n (h.members i ++ stack)).map (i :: ·)

theorem WellFormed.unstack_eq (hw : h.WellFormed) {n : Nat} {stack : List ElementId}
    (hs : ∀ i ∈ stack, i < h.size) (hn : (stack.flatMap h.walk).length ≤ n) :
    h.unstack n stack = some (stack.flatMap h.walk) := by
  induction n generalizing stack with
  | zero =>
    cases stack with
    | nil => rfl
    | cons i stack => simp [hw.walk_eq (hs i List.mem_cons_self)] at hn
  | succ n ih =>
    cases stack with
    | nil => rfl
    | cons i stack =>
      have hsplit : (i :: stack).flatMap h.walk = i :: (h.members i ++ stack).flatMap h.walk := by
        rw [List.flatMap_cons, hw.walk_eq (hs i List.mem_cons_self), List.flatMap_append]
        rfl
      have hmem : ∀ c ∈ h.members i ++ stack, c < h.size := by
        intro c hc
        rcases List.mem_append.1 hc with hc | hc
        · exact hw.lt_size_of_mem_members hc
        · exact hs c (List.mem_cons_of_mem _ hc)
      rw [hsplit, List.length_cons] at hn
      rw [unstack, ih hmem (by omega), hsplit]
      rfl

/-- No list without repetition is longer than there are elements. -/
theorem length_le_size {l : List ElementId} (hn : l.Nodup) (hl : ∀ i ∈ l, i < h.size) :
    l.length ≤ h.size := by
  have hle := (hn.subperm fun i hi => List.mem_range.2 (hl i hi)).length_le
  rwa [List.length_range] at hle

/-- The loop over a stack ends within as many steps as there are elements. -/
theorem WellFormed.unstack_walk (hw : h.WellFormed) (hi : i < h.size) :
    h.unstack h.size [i] = some (h.walk i) := by
  have hlen : (h.walk i).length ≤ h.size :=
    length_le_size (nodup_of_pairwise (hw.pairwise_walk i)) fun j hj => hw.lt_size_of_mem_walk hi hj
  have hone : [i].flatMap h.walk = h.walk i := by simp
  rw [← hone] at hlen ⊢
  exact hw.unstack_eq (by simpa using hi) hlen

/-- So does a loop that begins with all that stands at the top, the namespaces first. -/
theorem WellFormed.unstack_walkAll (hw : h.WellFormed) :
    h.unstack h.size (h.namespaces ++ h.rootEnums) = some h.walkAll := by
  have htops : ∀ i ∈ h.namespaces ++ h.rootEnums, i < h.size := fun i hi =>
    lt_size_of_owner_ne (by simp [hw.owner_of_mem_tops hi])
  refine hw.unstack_eq htops (length_le_size hw.nodup_walkAll fun j hj => ?_)
  obtain ⟨i, hi, hj⟩ := List.mem_flatMap.1 hj
  exact hw.lt_size_of_mem_walk (htops i hi) hj

end BindingTree.Hierarchy
