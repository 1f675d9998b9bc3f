import BindingTree.Build.Invokers
import BindingTree.Proofs.Build.ManagedNames

/-! Making invokers. Each comes to stand beside its interface, composed and managed like any other
element there; what was there before keeps its place and its names. -/

namespace BindingTree.Build

open Naming

/-- What making invokers does to a hierarchy. -/
structure InvokersMade (h h' : Hierarchy) : Prop where
  size : h.size ≤ h'.size
  enums : h'.enums = h.enums
  owner : ∀ {j : ElementId}, j < h.size → h'.owner j = h.owner j
  native : ∀ {j : ElementId}, j < h.size → (h'.element j).native = (h.element j).native
  managed : ∀ {j : ElementId}, j < h.size → (h'.element j).managed = (h.element j).managed
  made : ∀ {j : ElementId}, h.size ≤ j → j < h'.size → h'.kind j = .invoker ∧ h'.Composed j ∧
    ∃ p i, h'.owner j = .element p ∧ h.owner i = .element p ∧ h.kind i = .iface

variable {pl : Plan} {d d' : Draft} {h h' h'' : Hierarchy} {i j p : ElementId}
  {is : List ElementId}

namespace InvokersMade

theorem kind (hm : InvokersMade h h') (hj : j < h.size) : h'.kind j = h.kind j :=
  congrArg Prod.fst (hm.native hj)

theorem refl (h : Hierarchy) : InvokersMade h h where
  size := Nat.le_refl _
  enums := rfl
  owner _ := rfl
  native _ := rfl
  managed _ := rfl
  made hle hlt := absurd hlt (Nat.not_lt.2 hle)

theorem trans (h₁ : InvokersMade h h') (h₂ : InvokersMade h' h'') (ho : h'.Orderly) :
    InvokersMade h h'' where
  size := Nat.le_trans h₁.size h₂.size
  enums := h₂.enums.trans h₁.enums
  owner hj := (h₂.owner (Nat.lt_of_lt_of_le hj h₁.size)).trans (h₁.owner hj)
  native hj := (h₂.native (Nat.lt_of_lt_of_le hj h₁.size)).trans (h₁.native hj)
  managed hj := (h₂.managed (Nat.lt_of_lt_of_le hj h₁.size)).trans (h₁.managed hj)
  made {j} hle hlt := by
    by_cases hj : j < h'.size
    · obtain ⟨hk, hc, p, i, hp, hi⟩ := h₁.made hle hj
      refine ⟨(h₂.kind hj).trans hk, ?_, p, i, (h₂.owner hj).trans hp, hi⟩
      refine hc.of_native (h₂.owner hj) (h₂.native hj) fun q hq => h₂.native ?_
      exact ho.owner_lt hq
    · obtain ⟨hk, hc, p, i, hp, hi, hki⟩ := h₂.made (Nat.not_lt.1 hj) hlt
      have hip : i < h'.size := Hierarchy.lt_size_of_owner_ne (by simp [hi])
      have hold : i < h.size := by
        by_contra hnew
        have hmade := h₁.made (Nat.not_lt.1 hnew) hip
        rw [hmade.1] at hki
        exact absurd hki (by decide)
      exact ⟨hk, hc, p, i, hp, (h₁.owner hold).symm.trans hi, (h₁.kind hold).symm.trans hki⟩

theorem managed_of_lt (hm : InvokersMade h h') (ho : h.Orderly) (hj : j < h.size)
    (hmj : h.Managed j) : h'.Managed j :=
  hmj.congr (hm.owner hj) (hm.managed hj) fun _ hp => hm.managed (ho.owner_lt hp)

end InvokersMade

/-! ### One invoker -/

/-- The hierarchy with the invoker of an interface below an owner. -/
def besideInterface (pl : Plan) (h : Hierarchy) (p i : ElementId) : Hierarchy :=
  h.putBelow p (invokerOf pl.settings h p i)

theorem makeInvoker_ok (hd : makeInvoker pl i d = .ok () d') :
    ∃ p d₁ r, d.hierarchy.owner i = .element p ∧
      assignManagedName pl.translator d.hierarchy.size
        { d with hierarchy := besideInterface pl d.hierarchy p i } = .ok () d₁ ∧
      Registry.addNative d.hierarchy.size (d₁.hierarchy.element d.hierarchy.size) d₁.registry
        = .ok () r ∧
      d' = ⟨d₁.hierarchy.modify i
        (Element.withFacts fun f => { f with invoker := some d.hierarchy.size }), r⟩ := by
  obtain ⟨_, _, hh, hd₁⟩ := bind_ok.1 hd
  obtain ⟨rfl, rfl⟩ := hierarchy_ok.1 hh
  cases hp : d.hierarchy.owner i with
  | element p =>
    simp only [hp] at hd₁
    obtain ⟨_, _, hmake, hd₂⟩ := bind_ok.1 hd₁
    obtain ⟨rfl, rfl⟩ := make_ok.1 hmake
    obtain ⟨_, _, hadd, hd₃⟩ := bind_ok.1 hd₂
    obtain ⟨-, -, rfl⟩ := addMember_ok.1 hadd
    obtain ⟨_, d₁, hassign, hd₄⟩ := bind_ok.1 hd₃
    obtain ⟨_, _, henter, hd₅⟩ := bind_ok.1 hd₄
    obtain ⟨r, hr, rfl⟩ := addNative_ok.1 henter
    obtain rfl := editElement_ok.1 hd₅
    exact ⟨p, d₁, r, rfl, hassign, hr, rfl⟩
  | root =>
    simp only [hp] at hd₁
    exact (fail_ok.1 hd₁).elim
  | detached =>
    simp only [hp] at hd₁
    exact (fail_ok.1 hd₁).elim

theorem invokersMade_besideInterface (pl : Plan) (ho : h.Orderly) (hi : h.owner i = .element p)
    (hk : h.kind i = .iface) : InvokersMade h (besideInterface pl h p i) := by
  have hf : h.Fresh (besideInterface pl h p i) (.element p) (invokerOf pl.settings h p i) :=
    .putBelow
  refine ⟨Nat.le_of_lt hf.size_lt, by simp [besideInterface], hf.owner_of_lt, ?_, ?_, ?_⟩
  · intro j hj
    rw [hf.element_of_lt hj]
  · intro j hj
    rw [hf.element_of_lt hj]
  · intro j hle hlt
    obtain rfl := (hf.lt_or_eq hlt).resolve_left (Nat.not_lt.2 hle)
    refine ⟨hf.kind_new, ?_, p, i, hf.owner_new, hi, hk⟩
    rw [Hierarchy.composed_iff_of_owner hf.owner_new, hf.fullName_of_lt (ho.owner_lt hi),
      Hierarchy.fullName, hf.element_new]
    rfl

theorem orderly_besideInterface (pl : Plan) (ho : h.Orderly) (hi : h.owner i = .element p)
    (hk : h.kind i = .iface) : (besideInterface pl h p i).Orderly := by
  refine ho.putBelow (ho.owner_lt hi) ?_
  have hface := ho.fits hi
  rw [hk] at hface
  change (h.kind p).mayOwn .invoker = true
  revert hface
  cases h.kind p <;> decide

theorem sound_besideInterface (pl : Plan) (hs : d.Sound) (hi : d.hierarchy.owner i = .element p)
    (hk : d.hierarchy.kind i = .iface) :
    ({ d with hierarchy := besideInterface pl d.hierarchy p i } : Draft).Sound := by
  have hmade := invokersMade_besideInterface pl hs.orderly hi hk
  exact hs.extend (orderly_besideInterface pl hs.orderly hi hk) hmade.size fun _ => hmade.kind

/-- A change of what is below neither size nor native names keeps made invokers. -/
theorem InvokersMade.sameNative (hm : InvokersMade h h') (hs : h'.SameNative h'')
    (hmanaged : ∀ {j : ElementId}, j < h.size → (h''.element j).managed = (h'.element j).managed) :
    InvokersMade h h'' where
  size := hs.size ▸ hm.size
  enums := hs.enums.trans hm.enums
  owner hj := by rw [hs.owner, hm.owner hj]
  native hj := (hs.native _).trans (hm.native hj)
  managed hj := (hmanaged hj).trans (hm.managed hj)
  made hle hlt := by
    obtain ⟨hk, hc, p, i, hp, hi⟩ := hm.made hle (hs.size ▸ hlt)
    exact ⟨by rw [hs.kind, hk], hs.composed hc, p, i, by rw [hs.owner, hp], hi⟩

section One
variable (hs : d.Sound) (hk : d.hierarchy.kind i = .iface)
  (hd : makeInvoker pl i d = .ok () d')
include hs hk hd

theorem invokersMade_of_make : d'.Sound ∧ InvokersMade d.hierarchy d'.hierarchy := by
  obtain ⟨p, d₁, r, hp, hassign, hr, rfl⟩ := makeInvoker_ok hd
  have hmade := invokersMade_besideInterface pl hs.orderly hp hk
  have hs₁ : d₁.Sound :=
    sound_of_assign (sound_besideInterface pl hs hp hk) (by simp [besideInterface]) hassign
  have hnamed := namedOver_of_assign hassign
  have hsize : d.hierarchy.size < d₁.hierarchy.size := by
    rw [hnamed.size]
    simp [besideInterface]
  have hkind : d₁.hierarchy.kind d.hierarchy.size = .invoker := by
    rw [hnamed.kind]
    exact (hmade.made (Nat.le_refl _) (by simp [besideInterface])).1
  have hsame : d₁.hierarchy.SameNative (d₁.hierarchy.modify i
      (Element.withFacts fun f => { f with invoker := some d.hierarchy.size })) :=
    .modify (Element.native_withFacts _)
  constructor
  · refine ⟨hsame.orderly hs₁.orderly, ?_⟩
    refine (hs₁.same hsame.toSamePlaces).points.addNative (hsame.size ▸ hsize)
      (congrFun hsame.kind _) (.inl ?_) hr
    rw [Element.isType, ← Hierarchy.kind, hkind]
    rfl
  · refine (hmade.sameNative hnamed.toSameNative ?_).sameNative hsame ?_
    · intro j hj
      rw [hnamed.others (by simpa using Nat.ne_of_lt hj)]
    · intro j _
      exact Hierarchy.congr_element_modify Element.managed (Element.managed_withFacts _)

theorem managed_of_makeInvoker (hm : ∀ j, d.hierarchy.owner j ≠ .detached → d.hierarchy.Managed j) :
    ∀ j, d'.hierarchy.owner j ≠ .detached → d'.hierarchy.Managed j := by
  have hmade' := (invokersMade_of_make hs hk hd).2
  obtain ⟨p, d₁, r, hp, hassign, hr, rfl⟩ := makeInvoker_ok hd
  have hsize : d.hierarchy.size < (besideInterface pl d.hierarchy p i).size := by
    rw [besideInterface, Hierarchy.size_putBelow]
    exact Nat.lt_succ_self _
  have hsame : d₁.hierarchy.SameManaged (d₁.hierarchy.modify i
      (Element.withFacts fun f => { f with invoker := some d.hierarchy.size })) :=
    .modify (Element.kind_withFacts _) (Element.managed_withFacts _)
  have hnamed := namedOver_of_assign hassign
  have hmanaged : d₁.hierarchy.Managed d.hierarchy.size :=
    managed_of_assign (d := ⟨besideInterface pl d.hierarchy p i, d.registry⟩)
      (orderly_besideInterface pl hs.orderly hp hk) hsize hassign
  intro j hj
  by_cases hlt : j < d.hierarchy.size
  · rw [hmade'.owner hlt] at hj
    exact hmade'.managed_of_lt hs.orderly hlt (hm j hj)
  · have hj' := Hierarchy.lt_size_of_owner_ne hj
    rw [hsame.size, hnamed.size, besideInterface, Hierarchy.size_putBelow] at hj'
    obtain rfl : j = d.hierarchy.size := Nat.le_antisymm (Nat.le_of_lt_succ hj') (Nat.not_lt.1 hlt)
    exact hmanaged.congr (by rw [hsame.owner]) (hsame.managed _) fun q _ => hsame.managed q

end One

/-! ### The pass -/

/-- The elements of a list are interfaces. -/
def Callable (is : List ElementId) (h : Hierarchy) : Prop :=
  ∀ i ∈ is, i < h.size ∧ h.kind i = .iface

theorem Callable.tail (hc : Callable (i :: is) h) (hm : InvokersMade h h') : Callable is h' := by
  intro j hj
  obtain ⟨hlt, hk⟩ := hc j (List.mem_cons_of_mem _ hj)
  exact ⟨Nat.lt_of_lt_of_le hlt hm.size, (hm.kind hlt).trans hk⟩

theorem callable_of_lacking (ho : h.Orderly) :
    Callable (h.walkAll.filter fun i => lacksInvoker (h.element i)) h := by
  intro i hi
  obtain ⟨hwalk, hlacks⟩ := List.mem_filter.1 hi
  refine ⟨ho.lt_size_of_mem_walkAll hwalk, ?_⟩
  simp only [lacksInvoker, Bool.and_eq_true, decide_eq_true_eq] at hlacks
  exact hlacks.1

theorem invokersMade_of_forM (hs : d.Sound) (hc : Callable is d.hierarchy)
    (hd : is.forM (makeInvoker pl) d = .ok () d') :
    d'.Sound ∧ InvokersMade d.hierarchy d'.hierarchy ∧
      ((∀ j, d.hierarchy.owner j ≠ .detached → d.hierarchy.Managed j) →
        ∀ j, d'.hierarchy.owner j ≠ .detached → d'.hierarchy.Managed j) := by
  induction is generalizing d with
  | nil =>
    obtain ⟨-, rfl⟩ := pure_ok.1 hd
    exact ⟨hs, .refl _, id⟩
  | cons i is ih =>
    obtain ⟨_, d₁, hi, hrest⟩ := bind_ok.1 hd
    have hk := (hc i List.mem_cons_self).2
    obtain ⟨hs₁, hmade⟩ := invokersMade_of_make hs hk hi
    obtain ⟨hs', hmade', hmanaged⟩ := ih hs₁ (hc.tail hmade) hrest
    exact ⟨hs', hmade.trans hmade' hs₁.orderly, fun hm =>
      hmanaged (managed_of_makeInvoker hs hk hi hm)⟩

theorem makeInvokers_ok (hs : d.Sound) (hd : makeInvokers pl d = .ok () d') :
    d'.Sound ∧ InvokersMade d.hierarchy d'.hierarchy ∧
      ((∀ j, d.hierarchy.owner j ≠ .detached → d.hierarchy.Managed j) →
        ∀ j, d'.hierarchy.owner j ≠ .detached → d'.hierarchy.Managed j) := by
  obtain ⟨_, _, hh, hmake⟩ := bind_ok.1 hd
  obtain ⟨rfl, rfl⟩ := hierarchy_ok.1 hh
  exact invokersMade_of_forM hs (callable_of_lacking hs.orderly) hmake

end BindingTree.Build
