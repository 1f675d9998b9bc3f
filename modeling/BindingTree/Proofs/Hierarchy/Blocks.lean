import BindingTree.Proofs.Hierarchy.Plans
import BindingTree.Proofs.Hierarchy.Traversal

/-! Walks after a move. What the moved element covers makes a block: it is walked as before, and all
other walks lose it. The walks of the new owner and of what stands above it get the block back,
directly after what they have of the new owner's walk. So the walk of everything changes by one
block that is taken out and put in, whatever the positions of the element and its new owner. -/

namespace BindingTree.Hierarchy

/-- A list is another one with a block put in directly after a part. -/
def PutAfter (part block l l' : List ElementId) : Prop :=
  ∃ before after, l = before ++ part ++ after ∧ l' = before ++ part ++ block ++ after

/-- What a list has outside the walk of an element. -/
def outside (h : Hierarchy) (c : ElementId) (l : List ElementId) : List ElementId :=
  l.filter (· ∉ h.walk c)

variable {h h' : Hierarchy} {c i j m p : ElementId} {part block l l' : List ElementId}
  {f g : ElementId → List ElementId}

/-! ### Lists with a block -/

theorem mem_filter_ne : i ∈ l.filter (· ≠ c) ↔ i ∈ l ∧ i ≠ c := by simp

theorem PutAfter.cons (hl : PutAfter part block l l') : PutAfter part block (i :: l) (i :: l') := by
  obtain ⟨before, after, rfl, rfl⟩ := hl
  exact ⟨i :: before, after, by simp, by simp⟩

/-- Where one of the lists that are put together has a block more and the others are the same, the
whole has the block more. -/
theorem PutAfter.flatMap (hm : m ∈ l) (hn : l.Nodup) (hfg : PutAfter part block (f m) (g m))
    (hsame : ∀ i ∈ l, i ≠ m → g i = f i) : PutAfter part block (l.flatMap f) (l.flatMap g) := by
  obtain ⟨l₁, l₂, rfl⟩ := List.append_of_mem hm
  obtain ⟨before, after, hf, hg⟩ := hfg
  rw [List.nodup_middle, List.nodup_cons, List.mem_append, not_or] at hn
  have hleft : l₁.flatMap g = l₁.flatMap f := List.flatMap_congr fun i hi =>
    hsame i (List.mem_append_left _ hi) fun him => hn.1.1 (him ▸ hi)
  have hright : l₂.flatMap g = l₂.flatMap f := List.flatMap_congr fun i hi =>
    hsame i (List.mem_append_right _ (List.mem_cons_of_mem _ hi)) fun him => hn.1.2 (him ▸ hi)
  refine ⟨l₁.flatMap f ++ before, after ++ l₂.flatMap f, ?_, ?_⟩
  · simp [hf]
  · simp [hg, hleft, hright]

theorem outside_append : h.outside c (l ++ l') = h.outside c l ++ h.outside c l' :=
  List.filter_append _ _

theorem outside_outside : h.outside c (h.outside c l) = h.outside c l := by
  simp [outside, List.filter_filter]

theorem outside_walk : h.outside c (h.walk c) = [] := by
  simp [outside, List.filter_eq_nil_iff]

/-- Outside the block, a block that was put in makes no difference. -/
theorem PutAfter.outside (hl : PutAfter part (h.walk c) (h.outside c l) l') :
    h.outside c l' = h.outside c l := by
  obtain ⟨before, after, hsplit, rfl⟩ := hl
  rw [← outside_outside (l := l), hsplit]
  simp only [outside_append, outside_walk, List.append_nil]

/-! ### Walks of single elements -/

/-- Walks see the members of what is covered, and no more. -/
theorem walkTo_congr (hw : h.WellFormed) {n : Nat}
    (hm : ∀ j, h.Covers i j → h'.members j = h.members j) : h'.walkTo n i = h.walkTo n i := by
  induction n generalizing i with
  | zero => rfl
  | succ n ih =>
    rw [walkTo, walkTo, hm i (Covers.refl h i)]
    congr 1
    apply List.flatMap_congr
    intro k hk
    exact ih fun j hj => hm j ((Covers.of_owner (hw.mem_members.1 hk)).trans hj)

namespace WellFormed

variable (hw : h.WellFormed)
include hw

theorem covers_of_member (hm : m ∈ h.members i) (hmc : m ≠ c) (hc : h.Covers c m) :
    h.Covers c i := by
  have ha := (above_iff_of_owner (hw.mem_members.1 hm)).1 (hc.resolve_left hmc)
  exact ha.imp_left Eq.symm

/-- An element does not cover its owner. -/
theorem not_covers_owner (ho : h.owner m = .element i) : ¬ h.Covers m i := by
  rintro (rfl | ha)
  · exact hw.acyclic _ (Above.of_owner ho)
  · exact hw.acyclic _ (ha.trans (Above.of_owner ho))

theorem outside_cons (hc : c < h.size) (hci : ¬ h.Covers c i) :
    h.outside c (i :: l) = i :: h.outside c l := by
  rw [outside, List.filter_cons_of_pos (by simpa [hw.mem_walk hc] using hci)]
  rfl

theorem outside_flatMap_walkTo (hc : c < h.size) (n : Nat) (l : List ElementId) :
    h.outside c (l.flatMap (h.walkTo n)) =
      (l.filter (· ≠ c)).flatMap fun i => h.outside c (h.walkTo n i) := by
  have hblock : h.outside c (h.walkTo n c) = [] := by
    simp only [outside, List.filter_eq_nil_iff, decide_eq_true_eq, not_not]
    intro j hj
    exact (hw.mem_walk hc).2 (covers_of_mem_walkTo hw.mem_members.1 hj)
  induction l with
  | nil => rfl
  | cons i l ih =>
    rw [List.flatMap_cons, outside_append, ih]
    by_cases hi : i = c
    · simp [hi, hblock]
    · simp [hi]

/-- A walk from outside the block, less the block, goes on from its element with the other
members. -/
theorem outside_walk_eq (hc : c < h.size) (hi : i < h.size) (hci : ¬ h.Covers c i) :
    h.outside c (h.walk i) =
      i :: ((h.members i).filter (· ≠ c)).flatMap fun m => h.outside c (h.walk m) := by
  rw [hw.walk_eq hi, hw.outside_cons hc hci]
  exact congrArg _ (hw.outside_flatMap_walkTo hc _ _)

variable (hp : p < h.size) (hc : c < h.size) (hcp : ¬ h.Covers c p)

section Below
include hp hcp

/-- What is below the moved element keeps its members. -/
theorem members_move_of_covers (hj : h.Covers c j) : (h.move p c).members j = h.members j := by
  have hjp : j ≠ p := fun h => hcp (h ▸ hj)
  have hcj : c ∉ h.members j := fun hmem => hw.not_covers_owner (hw.mem_members.1 hmem) hj
  rw [hw.linked.members_move hp, if_neg hjp, List.append_nil, List.filter_eq_self]
  intro k hk
  simpa using fun hkc : k = c => hcj (hkc ▸ hk)

theorem walk_move_self : (h.move p c).walk c = h.walk c := by
  rw [walk, size_move]
  exact walkTo_congr hw fun j hj => hw.members_move_of_covers hp hcp hj

end Below

section Move
include hp hc

/-- What is outside the block and does not cover the new owner loses the block and nothing else. -/
theorem walkTo_move_of_not_covers (n : Nat) (hci : ¬ h.Covers c i) (hip : ¬ h.Covers i p) :
    (h.move p c).walkTo n i = h.outside c (h.walkTo n i) := by
  induction n generalizing i with
  | zero => rfl
  | succ n ih =>
    have hne : i ≠ p := fun h => hip (.inl h.symm)
    have hmembers : (h.move p c).members i = (h.members i).filter (· ≠ c) := by
      rw [hw.linked.members_move hp, if_neg hne, List.append_nil]
    rw [walkTo, walkTo, hmembers, hw.outside_cons hc hci, hw.outside_flatMap_walkTo hc]
    congr 1
    apply List.flatMap_congr
    intro m hm
    obtain ⟨hmi, hmc⟩ := mem_filter_ne.1 hm
    apply ih
    · exact fun h => hci (hw.covers_of_member hmi hmc h)
    · exact fun h => hip ((Covers.of_owner (hw.mem_members.1 hmi)).trans h)

theorem walk_move_of_not_covers (hci : ¬ h.Covers c i) (hip : ¬ h.Covers i p) :
    (h.move p c).walk i = h.outside c (h.walk i) := by
  rw [walk, size_move]
  exact hw.walkTo_move_of_not_covers hp hc _ hci hip

include hcp

theorem move_of_not_covers : (h.move p c).WellFormed :=
  hw.move hp hc (fun h => hcp (.inl h)) fun ha => hcp (.inr ha)

/-- The new owner has the block last. -/
theorem walk_move_owner : (h.move p c).walk p = h.outside c (h.walk p) ++ h.walk c := by
  have hmoved := hw.move_of_not_covers hp hc hcp
  have hmembers : ((h.members p).filter (· ≠ c)).flatMap (h.move p c).walk =
      ((h.members p).filter (· ≠ c)).flatMap fun m => h.outside c (h.walk m) := by
    apply List.flatMap_congr
    intro m hm
    obtain ⟨hmp, hmc⟩ := mem_filter_ne.1 hm
    apply hw.walk_move_of_not_covers hp hc
    · exact fun h => hcp (hw.covers_of_member hmp hmc h)
    · exact hw.not_covers_owner (hw.mem_members.1 hmp)
  rw [hmoved.walk_eq (by simpa using hp), hw.linked.members_move hp, if_pos rfl,
    List.flatMap_append, hmembers, hw.outside_walk_eq hc hp hcp, List.flatMap_singleton,
    hw.walk_move_self hp hcp]
  rfl

/-- If a member that covers the new owner has the block directly after the rest of the new owner's
walk, so has what owns the member: the walks of the other members lie outside. -/
theorem putAfter_walk_of_member (ho : h.owner m = .element i) (hmp : h.Covers m p)
    (hput : PutAfter (h.outside c (h.walk p)) (h.walk c) (h.outside c (h.walk m))
      ((h.move p c).walk m)) :
    PutAfter (h.outside c (h.walk p)) (h.walk c) (h.outside c (h.walk i))
      ((h.move p c).walk i) := by
  have hmoved := hw.move_of_not_covers hp hc hcp
  have hi : i < h.size := hw.owner_lt ho
  have hip : h.Above i p := by
    rcases hmp with rfl | hmp
    · exact Above.of_owner ho
    · exact (Above.of_owner ho).trans hmp
  have hne : i ≠ p := fun h => hw.acyclic p (h ▸ hip)
  have hci : ¬ h.Covers c i := fun h => hcp (h.trans (.inr hip))
  have hmc : m ≠ c := fun h => hcp (h ▸ hmp)
  rw [hmoved.walk_eq (by simpa using hi), hw.linked.members_move hp, if_neg hne, List.append_nil,
    hw.outside_walk_eq hc hi hci]
  apply PutAfter.cons
  apply PutAfter.flatMap (mem_filter_ne.2 ⟨hw.mem_members.2 ho, hmc⟩)
    ((hw.nodup_members i).filter _) hput
  intro k hk hkm
  obtain ⟨hki, hkc⟩ := mem_filter_ne.1 hk
  apply hw.walk_move_of_not_covers hp hc
  · exact fun h => hci (hw.covers_of_member hki hkc h)
  · exact fun h => hkm (hw.eq_of_covers_of_members (hw.mem_members.1 hki) ho h hmp)

/-- What covers the new owner has the block directly after the rest of the new owner's walk. -/
theorem putAfter_walk (hip : h.Covers i p) :
    PutAfter (h.outside c (h.walk p)) (h.walk c) (h.outside c (h.walk i))
      ((h.move p c).walk i) := by
  have hself : PutAfter (h.outside c (h.walk p)) (h.walk c) (h.outside c (h.walk p))
      ((h.move p c).walk p) := ⟨[], [], by simp, by simp [hw.walk_move_owner hp hc hcp]⟩
  rcases hip with rfl | ha
  · exact hself
  · induction ha using Relation.TransGen.head_induction_on with
    | single ho => exact hw.putAfter_walk_of_member hp hc hcp ho (Covers.refl h p) hself
    | head ho ha ih => exact hw.putAfter_walk_of_member hp hc hcp ho (.inr ha) ih

end Move

/-! ### The walk of everything -/

/-- The moved element is no longer at the top, and all else stays there. -/
theorem tops_move (hc : c < h.size) : (h.move p c).namespaces ++ (h.move p c).rootEnums =
    (h.namespaces ++ h.rootEnums).filter (· ≠ c) := by
  have hnamespaces : (h.move p c).namespaces = h.namespaces.filter (· ≠ c) := by
    rw [namespaces_move]
    split
    · rfl
    next ho =>
      symm
      rw [List.filter_eq_self]
      intro i hi
      have hne : i ≠ c := fun hic => ho (hic ▸ (hw.mem_namespaces.1 hi).2)
      simpa using hne
  have henums : (h.move p c).rootEnums = h.rootEnums.filter (· ≠ c) := by
    rw [rootEnums, enums_move, rootEnums, List.filter_filter]
    apply List.filter_congr
    intro i _
    by_cases hi : i = c <;> simp [owner_move hc, hi]
  rw [hnamespaces, henums, List.filter_append]

theorem walkAll_move (hc : c < h.size) : (h.move p c).walkAll =
    ((h.namespaces ++ h.rootEnums).filter (· ≠ c)).flatMap (h.move p c).walk := by
  rw [walkAll, hw.tops_move hc]

theorem outside_walkAll (hc : c < h.size) : h.outside c h.walkAll =
    ((h.namespaces ++ h.rootEnums).filter (· ≠ c)).flatMap fun i => h.outside c (h.walk i) :=
  hw.outside_flatMap_walkTo hc _ _

section Move
include hp hc

/-- What else is at the top and does not cover the new owner loses the block and nothing else. -/
theorem walk_move_of_top (hi : i ∈ (h.namespaces ++ h.rootEnums).filter (· ≠ c))
    (hip : ¬ h.Covers i p) : (h.move p c).walk i = h.outside c (h.walk i) := by
  obtain ⟨htop, hic⟩ := mem_filter_ne.1 hi
  refine hw.walk_move_of_not_covers hp hc ?_ hip
  rintro (rfl | ha)
  · exact hic rfl
  · obtain ⟨q, ho⟩ := ha.exists_owner
    simp [hw.owner_of_mem_tops htop] at ho

/-- If the new owner is not below the top, the block is taken out. -/
theorem walkAll_move_of_not_mem (hp' : p ∉ h.walkAll) :
    (h.move p c).walkAll = h.outside c h.walkAll := by
  rw [hw.walkAll_move hc, hw.outside_walkAll hc]
  apply List.flatMap_congr
  intro i hi
  apply hw.walk_move_of_top hp hc hi
  intro hip
  have hroot := hw.owner_of_mem_tops (mem_filter_ne.1 hi).1
  rw [hw.mem_walkAll, hw.top_eq_of_covers (by simp [hroot]) hip] at hp'
  exact hp' hroot

include hcp

/-- If it is, the block stands directly after the rest of its walk. -/
theorem putAfter_walkAll (hp' : p ∈ h.walkAll) :
    PutAfter (h.outside c (h.walk p)) (h.walk c) (h.outside c h.walkAll) (h.move p c).walkAll := by
  have hroot := hw.mem_walkAll.1 hp'
  have hcovers := hw.covers_top p
  have htop : h.top p ∈ (h.namespaces ++ h.rootEnums).filter (· ≠ c) :=
    mem_filter_ne.2 ⟨hw.mem_tops hroot, fun htc => hcp (htc ▸ hcovers)⟩
  rw [hw.walkAll_move hc, hw.outside_walkAll hc]
  apply PutAfter.flatMap htop (hw.nodup_tops.filter _) (hw.putAfter_walk hp hc hcp hcovers)
  intro i hi hne
  apply hw.walk_move_of_top hp hc hi
  intro hip
  have hi' := hw.owner_of_mem_tops (mem_filter_ne.1 hi).1
  exact hne (hw.top_eq_of_covers (by simp [hi']) hip).symm

end Move

end WellFormed

/-- What a move of `c` below `p` makes of the walks. -/
structure BlockMoved (h h' : Hierarchy) (p c : ElementId) : Prop where
  /-- The block of the moved element is walked as before. -/
  block : h'.walk c = h.walk c
  /-- Everything else comes in the same order. -/
  others : h'.walkAll.filter (· ∉ h.walk c) = h.walkAll.filter (· ∉ h.walk c)
  /-- If the new owner is below the top, the block stands in one piece directly after the last
  element outside it that is below the new owner, or the new owner itself. -/
  placed : p ∈ h.walkAll → ∃ before last after,
    ((h.walk p).filter (· ∉ h.walk c)).getLast? = some last ∧
      h'.walkAll = before ++ last :: (h.walk c ++ after)
  /-- If it is not, nothing of the block is. -/
  unplaced : p ∉ h.walkAll → ∀ i ∈ h.walk c, i ∉ h'.walkAll

theorem WellFormed.blockMoved (hw : h.WellFormed) (hp : p < h.size) (hc : c < h.size)
    (hcp : ¬ h.Covers c p) : BlockMoved h (h.move p c) p c where
  block := hw.walk_move_self hp hcp
  others := by
    by_cases hp' : p ∈ h.walkAll
    · exact (hw.putAfter_walkAll hp hc hcp hp').outside
    · rw [hw.walkAll_move_of_not_mem hp hc hp']
      exact outside_outside
  placed hp' := by
    obtain ⟨before, after, -, hwalk⟩ := hw.putAfter_walkAll hp hc hcp hp'
    -- The new owner itself is outside the block, so there is a last element.
    have hmem : p ∈ h.outside c (h.walk p) := by
      rw [hw.outside_walk_eq hc hp hcp]
      exact List.mem_cons_self
    have hne := List.ne_nil_of_mem hmem
    refine ⟨before ++ (h.outside c (h.walk p)).dropLast, (h.outside c (h.walk p)).getLast hne,
      after, List.getLast?_eq_some_getLast hne, ?_⟩
    rw [hwalk]
    nth_rewrite 1 [← List.dropLast_append_getLast hne]
    simp
  unplaced hp' i hi hmem := by
    rw [hw.walkAll_move_of_not_mem hp hc hp', outside, List.mem_filter] at hmem
    simp [hi] at hmem

end BindingTree.Hierarchy
