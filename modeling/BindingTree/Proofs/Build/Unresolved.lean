import BindingTree.Proofs.Build.Listings
import BindingTree.Proofs.Build.Passes

/-! Nesting types fails only at a qualifier that leads nowhere. A type goes to one with a shorter
full name, whatever was moved before, so no move closes a cycle; and what is planned can be made. -/

namespace BindingTree

open Build Naming
open Relation (ReflTransGen)

variable {h h' : Hierarchy} {d d' : Draft} {heads : List Record.Head} {s : Settings}
  {i j p c : ElementId} {is : List ElementId} {accept : Kind → Bool} {failure : Failure}

/-! ### Full names get shorter upwards -/

namespace Hierarchy

/-- Types stand below namespaces or below what has a shorter full name. -/
def Shrinking (h : Hierarchy) : Prop :=
  ∀ ⦃c p : ElementId⦄, h.owner c = .element p → (h.kind c).isType = true →
    h.kind p = .ns ∨ (h.fullName p).length < (h.fullName c).length

theorem Orderly.isType_of_owner (ho : h.Orderly) (hc : h.owner c = .element p)
    (hk : (h.kind c).isType = true) : h.kind p = .ns ∨ (h.kind p).isType = true := by
  have hfits := ho.fits hc
  revert hfits hk
  cases h.kind p <;> cases h.kind c <;> decide

theorem Orderly.owner_of_ns (ho : h.Orderly) (hk : h.kind c = .ns) : h.owner c ≠ .element p := by
  intro hc
  have hfits := ho.fits hc
  rw [hk] at hfits
  revert hfits
  cases h.kind p <;> decide

theorem Shrinking.length_lt_of_above (hs : h.Shrinking) (ho : h.Orderly) (ha : h.Above c p)
    (hc : (h.kind c).isType = true) (hp : (h.kind p).isType = true) :
    (h.fullName c).length < (h.fullName p).length := by
  have hnot : ∀ {k : Kind}, k.isType = true → k ≠ .ns := by
    rintro k hk rfl
    cases hk
  induction ha with
  | single hcp => exact (hs hcp hp).resolve_left (hnot hc)
  | @tail b p hcb hbp ih =>
    have hb : h.kind b ≠ .ns := by
      intro hb
      obtain ⟨q, hq⟩ := Above.exists_owner hcb
      exact ho.owner_of_ns hb hq
    have htype := (ho.isType_of_owner hbp hp).resolve_left hb
    exact Nat.lt_trans (ih htype) ((hs hbp hp).resolve_left hb)

theorem Shrinking.move (hs : h.Shrinking) (hc : c < h.size)
    (hlt : (h.fullName p).length < (h.fullName c).length) : (h.move p c).Shrinking := by
  intro j q hj hk
  have hname : ∀ i, (h.move p c).fullName i = h.fullName i := fun i => by
    rw [fullName, element_move, fullName]
  rw [owner_move hc] at hj
  rw [kind_move] at hk ⊢
  rw [hname, hname]
  split at hj
  next hjc =>
    cases hj
    exact .inr (hjc ▸ hlt)
  next => exact hs hj hk

end Hierarchy

/-! ### Before types are nested -/

/-- Types stand below namespaces only. -/
def Hierarchy.Flat (h : Hierarchy) : Prop :=
  ∀ ⦃c p : ElementId⦄, h.owner c = .element p → (h.kind c).isType = true → h.kind p = .ns

theorem Hierarchy.Flat.shrinking (hf : h.Flat) : h.Shrinking := fun _ _ hc hk => .inl (hf hc hk)

theorem Hierarchy.Flat.fresh {o : Owner} {e : Element} (hf : h.Flat) (ho : h.Orderly)
    (hfresh : h.Fresh h' o e) (ho' : h'.Orderly)
    (he : ∀ p, o = .element p → e.kind.isType = true → h.kind p = .ns) : h'.Flat := by
  intro c p hc hk
  have hcs : c < h'.size := Hierarchy.lt_size_of_owner_ne (by simp [hc])
  rcases hfresh.lt_or_eq hcs with hlt | rfl
  · rw [hfresh.owner_of_lt hlt] at hc
    rw [hfresh.kind_of_lt hlt] at hk
    rw [hfresh.kind_of_lt (ho.owner_lt hc)]
    exact hf hc hk
  · have hp : p ≠ h.size := fun heq => ho'.acyclic h.size (.of_owner (heq ▸ hc))
    have hlt := (hfresh.lt_or_eq (ho'.owner_lt hc)).resolve_right hp
    rw [hfresh.kind_new] at hk
    rw [hfresh.kind_of_lt hlt]
    exact he p (hfresh.owner_new.symm.trans hc) hk

theorem Hierarchy.Flat.same (hf : h.Flat) (hs : h.SamePlaces h') : h'.Flat := by
  unfold Hierarchy.Flat
  rw [hs.owner, hs.kind]
  exact hf

theorem flat_of_intake (hst : Intake heads d d') (hs : d.Sound) (hf : d.hierarchy.Flat) :
    d'.hierarchy.Flat := by
  have hs' := hst.sound hs
  cases hst with
  | ns hm hc =>
    exact hf.fresh hs.orderly .putNamespace hs'.orderly fun p hp => by cases hp
  | enum hm hc hdot => exact hf.fresh hs.orderly .putEnum hs'.orderly fun p hp => by cases hp
  | below hst =>
    cases hst with
    | @below head p payload hm hp ha hc =>
      refine hf.fresh hs.orderly .putBelow hs'.orderly ?_
      rintro q hq hk
      cases hq
      by_contra hns
      exact isType_of_isIndexed (isIndexed_of_accepts ha hns hc) hk
    | inherit hm hc hn => exact hf.same (.modify (Element.kind_withFacts _))
    | enter hi ht hr => exact hf
    | notice => exact hf

theorem flat_of_support (hst : Support s d d') (hs : d.Sound) (hf : d.hierarchy.Flat) :
    d'.hierarchy.Flat := by
  have hs' := hst.sound hs
  cases hst with
  | ns hn hr => exact hf.fresh hs.orderly .putNamespace hs'.orderly fun p hp => by cases hp
  | give hne => exact hf.same (.modify fun _ => rfl)
  | type hns hk hr =>
    refine hf.fresh hs.orderly .putBelow hs'.orderly ?_
    rintro q hq -
    cases hq
    exact (hs.orderly.mem_namespaces.1 hns).1

theorem keyed_of_support (hst : Support s d d') (hs : d.Sound)
    (hk : d.registry.index.Keyed d.hierarchy) : d'.registry.index.Keyed d'.hierarchy := by
  cases hst with
  | @ns name r hn hr =>
    have hf := Hierarchy.Fresh.putNamespace (h := d.hierarchy) (e := supportNamespace name)
    refine (hk.mono hs.points hf.fullName_of_lt).addNative ?_ hr
    rw [Hierarchy.fullName, hf.element_new]
  | give hne =>
    exact hk.mono hs.points fun _ => Hierarchy.congr_element_modify Element.fullName fun _ => rfl
  | @type ns kind fullName useGlobal r hns hkind hr =>
    have hf := Hierarchy.Fresh.putBelow (h := d.hierarchy) (p := ns)
      (e := supportType kind fullName useGlobal)
    refine (hk.mono hs.points hf.fullName_of_lt).addNative ?_ hr
    rw [Hierarchy.fullName, hf.element_new]

/-! ### Plans -/

theorem length_lt_of_nest? (hk : d.registry.index.Keyed d.hierarchy)
    (hp : nest? accept d i = some p) :
    (d.hierarchy.fullName p).length < (d.hierarchy.fullName i).length := by
  obtain ⟨q, e, hq, he, rfl, -, -⟩ := nest?_eq_some.1 hp
  have hqualifier : q.length < (d.hierarchy.fullName i).length := by
    rw [eq_append_of_splitLast hq, String.length_append, String.length_append]
    have hdot : ".".length = 1 := rfl
    omega
  have hplain : d.registry.index.native.get? q = some e := by
    rw [Index.lookup?, Option.or_eq_some_iff] at he
    rcases he with he | ⟨-, he⟩
    · exact he
    · rw [Index.lookupIn, hk.managed] at he
      cases he
  rcases hk.native hplain with hname | ⟨hname, -⟩
  · rwa [← hname]
  · rw [hname, Kind.keyed, String.length_append, String.length_append] at hqualifier
    omega

/-- The failure of an element whose qualifier leads nowhere. -/
def unresolved (d : Draft) (i : ElementId) (qualifier : String) : Failure :=
  .typeNotFound qualifier (some (d.hierarchy.element i).describe)

/-- Finding a new owner fails only where the qualifier leads nowhere. -/
theorem newOwner?_run (accept : Kind → Bool) (i : ElementId) (d : Draft) :
    newOwner? accept i d = match (splitLast (d.hierarchy.fullName i)).1 with
      | none => .ok none d
      | some q => match d.registry.index.lookup? q none with
        | none => .error (unresolved d i q) d
        | some _ => .ok (nest? accept d i) d := by
  unfold newOwner?
  rw [bind_run]
  change (match (splitLast (d.hierarchy.fullName i)).1 with
    | none => pure none
    | some qualifier => _ : Build (Option ElementId)) d = _
  cases hq : (splitLast (d.hierarchy.fullName i)).1 with
  | none => rfl
  | some q =>
    dsimp only
    cases hl : d.registry.index.lookup? q none with
    | none =>
      have hrun : lookup q none (d.hierarchy.element i) d = .error (unresolved d i q) d := by
        rw [lookup_run, hl]
        rfl
      rw [bind_run, hrun]
    | some e =>
      have hrun : lookup q none (d.hierarchy.element i) d = .ok e.id d := by rw [lookup_run, hl]
      rw [nest?, qualifierTarget?, hq, Option.bind_some, hl, Option.bind_some, bind_run, hrun]
      change (if (decide (e.id ≠ i) && accept (d.hierarchy.kind e.id)) then pure (some e.id)
        else pure none : Build (Option ElementId)) d = _
      split <;> rfl

/-- A plan fails at the first qualifier that leads nowhere. -/
theorem planMoves_error {m : Moves} (hn : is.Nodup) (hnew : ∀ i ∈ is, m.get? i = none)
    (hd : planMoves accept m is d = .error failure d') :
    ∃ i ∈ is, ∃ q, (splitLast (d.hierarchy.fullName i)).1 = some q ∧
      d.registry.index.lookup? q none = none ∧ failure = unresolved d i q := by
  induction is generalizing m with
  | nil => cases hd
  | cons i is ih =>
    rw [List.nodup_cons] at hn
    have hrest : ∀ j ∈ is, m.get? j = none := fun j hj => hnew j (List.mem_cons_of_mem _ hj)
    rw [planMoves, bind_run, newOwner?_run] at hd
    have hlater : ∀ m' : Moves, (∀ j ∈ is, m'.get? j = none) →
        planMoves accept m' is d = .error failure d' → ∃ j ∈ i :: is, ∃ q,
          (splitLast (d.hierarchy.fullName j)).1 = some q ∧
            d.registry.index.lookup? q none = none ∧ failure = unresolved d j q := by
      intro m' hnew' hd'
      obtain ⟨j, hj, hq⟩ := ih hn.2 hnew' hd'
      exact ⟨j, List.mem_cons_of_mem _ hj, hq⟩
    have hmoved : ∀ p, (planMove m i p >>= fun m' => planMoves accept m' is) d = .error failure d' →
        ∃ j ∈ i :: is, ∃ q, (splitLast (d.hierarchy.fullName j)).1 = some q ∧
          d.registry.index.lookup? q none = none ∧ failure = unresolved d j q := by
      intro p hd
      have hnone : m.target? i = none := hnew i List.mem_cons_self
      simp only [planMove, hnone] at hd
      refine hlater (m.plan i p) (fun j hj => ?_) hd
      rw [Moves.plan, KeyedList.get?_put, if_neg fun h : j = i => hn.1 (h ▸ hj)]
      exact hrest j hj
    cases hq : (splitLast (d.hierarchy.fullName i)).1 with
    | none =>
      rw [hq] at hd
      exact hlater m hrest hd
    | some q =>
      rw [hq] at hd
      dsimp only at hd
      cases hl : d.registry.index.lookup? q none with
      | none =>
        rw [hl] at hd
        cases hd
        exact ⟨i, List.mem_cons_self, q, hq, hl, rfl⟩
      | some e =>
        rw [hl] at hd
        dsimp only at hd
        cases hnest : nest? accept d i with
        | none =>
          rw [hnest] at hd
          exact hlater m hrest hd
        | some p =>
          rw [hnest] at hd
          exact hmoved p hd

/-! ### The pass -/

theorem isType_of_mem_listedTypes (hs : d.Sound) (hi : i ∈ listedTypes d.hierarchy) :
    (d.hierarchy.kind i).isType = true := by
  obtain ⟨ns, hns, howner⟩ := (mem_listedTypes hs.orderly.toWellFormed).1 hi
  have hfits := hs.orderly.fits howner
  rw [(hs.orderly.mem_namespaces.1 hns).1] at hfits
  revert hfits
  cases d.hierarchy.kind i <;> decide

/-- What holds before types are nested: they stand below namespaces, there are no invokers, and the
index leads to elements by their full names. -/
structure Nestable (d : Draft) : Prop where
  sound : d.Sound
  flat : d.hierarchy.Flat
  keyed : d.registry.index.Keyed d.hierarchy
  noInvoker : NoInvoker d.hierarchy

namespace Nestable

variable (hn : Nestable d)
include hn

/-- The moves that are planned can be made. -/
theorem exists_makeAll : ∃ h', Moves.makeAll (nestMoves Kind.isClass d (listedTypes d.hierarchy))
    d.hierarchy = .ok () h' := by
  have hw := hn.sound.orderly.toWellFormed
  refine Moves.exists_makeAll
    (I := fun g => g.Orderly ∧ d.hierarchy.SameElements g ∧ g.Shrinking) ?_
    ⟨hn.sound.orderly, .refl _, hn.flat.shrinking⟩
  rintro g i p hmem ⟨ho, hsame, hshrink⟩
  obtain ⟨hi, hp⟩ := mem_nestMoves.1 hmem
  have hlt := length_lt_of_nest? hn.keyed hp
  have hplt := lt_size_of_nest? hn.sound hp
  have hilt := lt_size_of_mem_listedTypes hw hi
  obtain ⟨q, e, -, he, rfl, hne, hclass⟩ := nest?_eq_some.1 hp
  have hfit := mayOwn_of_mem_listedTypes hn.sound.orderly hi hclass (hn.noInvoker _)
  have htype : ∀ {c : ElementId}, (d.hierarchy.kind c).isClass = true →
      (g.kind c).isType = true := by
    intro c hc
    rw [hsame.kind]
    revert hc
    cases d.hierarchy.kind c <;> decide
  rw [← hsame.fullName] at hlt
  have habove : ¬ g.Above i e.id := by
    intro ha
    have hitype : (g.kind i).isType = true := hsame.kind ▸ isType_of_mem_listedTypes hn.sound hi
    exact absurd (hshrink.length_lt_of_above ho ha hitype (htype hclass)) (Nat.lt_asymm hlt)
  refine ⟨hne, fun hia => habove (ho.mem_ancestors.1 hia), ?_, hsame.trans .move,
    hshrink.move (hsame.size ▸ hilt) hlt⟩
  refine ho.move (hsame.size ▸ hplt) (hsame.size ▸ hilt) hne habove ?_
  rw [hsame.kind]
  exact hfit

theorem nestTypes_error (hd : nestTypes d = .error failure d') :
    ∃ i ∈ listedTypes d.hierarchy, ∃ q, (splitLast (d.hierarchy.fullName i)).1 = some q ∧
      d.registry.index.lookup? q none = none ∧ failure = unresolved d i q := by
  have hnodup := nodup_listedTypes hn.sound.orderly.toWellFormed
  obtain hh | ⟨_, _, hh, hplans⟩ := bind_error.1 hd
  · cases hh
  obtain ⟨rfl, rfl⟩ := hierarchy_ok.1 hh
  obtain hplan | ⟨m, d₁, hplan, hmoves⟩ := bind_error.1 hplans
  · exact planMoves_error hnodup (fun _ _ => rfl) hplan
  -- What is planned is made, and naming anew cannot fail.
  obtain ⟨rfl, -, hentries⟩ := planMoves_ok hnodup (fun _ _ => rfl) hplan
  obtain ⟨h', hmade⟩ := hn.exists_makeAll
  have happly : onHierarchy m.apply d₁ = .ok m.keys { d₁ with hierarchy := h' } :=
    onHierarchy_ok.2 ⟨h', Moves.apply_ok.2 ⟨hentries ▸ hmade, rfl⟩, rfl⟩
  obtain hwork | ⟨keys, d₂, -, hrebase⟩ := bind_error.1 hmoves
  · cases happly.symm.trans hwork
  · have hrun : (keys.forM fun i => edit (rebase · i)) d₂ =
        .ok () { d₂ with hierarchy := keys.foldl rebase d₂.hierarchy } := forM_edit_ok.2 rfl
    cases hrun.symm.trans hrebase

/-- Nesting types succeeds just when every qualifier leads somewhere. -/
theorem exists_nestTypes_iff :
    (∃ d', nestTypes d = .ok () d') ↔ ∀ i ∈ listedTypes d.hierarchy, Resolves d i := by
  constructor
  · rintro ⟨d', hd⟩
    exact (nestTypes_ok hn.sound hn.noInvoker hd).1
  · intro hres
    cases hd : nestTypes d with
    | ok u d' => exact ⟨d', rfl⟩
    | error failure d' =>
      obtain ⟨i, hi, q, hq, hl, -⟩ := hn.nestTypes_error hd
      refine absurd ?_ (hres i hi (by simp [hq]))
      rw [qualifierTarget?, hq]
      exact hl

end Nestable

theorem nestable_of_support (hs : ReflTransGen (Support s) d d') (hn : Nestable d) :
    Nestable d' := by
  induction hs with
  | refl => exact hn
  | tail _ hs ih =>
    exact ⟨hs.sound ih.sound, flat_of_support hs ih.sound ih.flat,
      keyed_of_support hs ih.sound ih.keyed, noInvoker_of_support hs ih.noInvoker⟩

end BindingTree
