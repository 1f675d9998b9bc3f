import BindingTree.Build.Nesting
import BindingTree.Proofs.Build.Run
import BindingTree.Proofs.Build.Sound
import BindingTree.Proofs.Hierarchy.Moves
import BindingTree.Proofs.Naming.Qualifiers

/-! Nesting by name. The moves are planned against one draft, so where an element goes is a
function of that draft and the element alone, and no element is planned for twice. Making the moves
keeps the hierarchy orderly, and a type that was moved is named by what its full name adds to that
of its new owner. -/

namespace BindingTree.Build

open Naming

/-- What the qualifier of an element's full name leads to. -/
def qualifierTarget? (d : Draft) (i : ElementId) : Option Entry :=
  (splitLast (d.hierarchy.fullName i)).1.bind (d.registry.index.lookup? · none)

/-- Where an element is to be nested. -/
def nest? (accept : Kind → Bool) (d : Draft) (i : ElementId) : Option ElementId :=
  (qualifierTarget? d i).bind fun e =>
    if e.id ≠ i && accept (d.hierarchy.kind e.id) then some e.id else none

/-- Whether the qualifier of an element's full name, if there is one, leads somewhere. -/
def Resolves (d : Draft) (i : ElementId) : Prop :=
  (splitLast (d.hierarchy.fullName i)).1 ≠ none → qualifierTarget? d i ≠ none

/-- The moves of some elements to where they are to be nested. -/
def nestMoves (accept : Kind → Bool) (d : Draft) (is : List ElementId) :
    List (ElementId × ElementId) :=
  is.filterMap fun i => (nest? accept d i).map (i, ·)

variable {accept : Kind → Bool} {d d' : Draft} {h h' : Hierarchy} {i j p : ElementId}
  {is : List ElementId}

/-! ### Plans -/

theorem nest?_eq_some :
    nest? accept d i = some p ↔ ∃ q e, (splitLast (d.hierarchy.fullName i)).1 = some q ∧
      d.registry.index.lookup? q none = some e ∧ e.id = p ∧ p ≠ i ∧
        accept (d.hierarchy.kind p) = true := by
  simp only [nest?, qualifierTarget?, Option.bind_eq_some_iff, Option.ite_none_right_eq_some,
    Bool.and_eq_true, decide_eq_true_eq, Option.some.injEq]
  constructor
  · rintro ⟨e, ⟨q, hq, he⟩, ⟨hi, ha⟩, rfl⟩
    exact ⟨q, e, hq, he, rfl, hi, ha⟩
  · rintro ⟨q, e, hq, he, rfl, hi, ha⟩
    exact ⟨e, ⟨q, hq, he⟩, ⟨hi, ha⟩, rfl⟩

theorem newOwner?_ok {o : Option ElementId} (hd : newOwner? accept i d = .ok o d') :
    Resolves d i ∧ o = nest? accept d i ∧ d' = d := by
  obtain ⟨_, _, helement, hd⟩ := bind_ok.1 hd
  obtain ⟨rfl, rfl⟩ := element_ok.1 helement
  cases hq : (splitLast (d.hierarchy.element i).fullName).1 with
  | none =>
    simp only [hq] at hd
    obtain ⟨rfl, rfl⟩ := pure_ok.1 hd
    exact ⟨fun h => absurd hq h, by simp [nest?, qualifierTarget?, Hierarchy.fullName, hq], rfl⟩
  | some q =>
    simp only [hq] at hd
    obtain ⟨_, _, hlookup, hd⟩ := bind_ok.1 hd
    obtain ⟨⟨e, he, rfl⟩, rfl⟩ := lookup_ok.1 hlookup
    obtain ⟨_, _, howner, hd⟩ := bind_ok.1 hd
    obtain ⟨rfl, rfl⟩ := element_ok.1 howner
    have hentry : qualifierTarget? d i = some e := by
      rw [qualifierTarget?, Hierarchy.fullName, hq]
      exact he
    refine ⟨fun _ => by simp [hentry], ?_⟩
    rw [nest?, hentry, Option.bind_some]
    split at hd
    next hc =>
      obtain ⟨rfl, rfl⟩ := pure_ok.1 hd
      exact ⟨(if_pos hc).symm, rfl⟩
    next hc =>
      obtain ⟨rfl, rfl⟩ := pure_ok.1 hd
      exact ⟨(if_neg hc).symm, rfl⟩

theorem nestMoves_cons_none (hp : nest? accept d i = none) :
    nestMoves accept d (i :: is) = nestMoves accept d is := by
  simp [nestMoves, hp]

theorem nestMoves_cons_some (hp : nest? accept d i = some p) :
    nestMoves accept d (i :: is) = (i, p) :: nestMoves accept d is := by
  simp [nestMoves, hp]

theorem planMoves_ok {m m' : Moves} (hn : is.Nodup) (hnew : ∀ i ∈ is, m.get? i = none)
    (hd : planMoves accept m is d = .ok m' d') :
    d' = d ∧ (∀ i ∈ is, Resolves d i) ∧ m'.entries = m.entries ++ nestMoves accept d is := by
  induction is generalizing m with
  | nil =>
    obtain ⟨rfl, rfl⟩ := pure_ok.1 hd
    simp [nestMoves]
  | cons i is ih =>
    rw [List.nodup_cons] at hn
    obtain ⟨o, d₁, ho, hd⟩ := bind_ok.1 hd
    obtain ⟨hr, rfl, rfl⟩ := newOwner?_ok ho
    have hrest : ∀ j ∈ is, m.get? j = none := fun j hj => hnew j (List.mem_cons_of_mem _ hj)
    cases hp : nest? accept d₁ i with
    | none =>
      simp only [hp] at hd
      obtain ⟨rfl, hres, he⟩ := ih hn.2 hrest hd
      refine ⟨rfl, by simpa using ⟨hr, hres⟩, ?_⟩
      rw [he, nestMoves_cons_none hp]
    | some p =>
      simp only [hp] at hd
      obtain ⟨m₁, d₂, hplan, hd⟩ := bind_ok.1 hd
      have hnone : m.target? i = none := hnew i List.mem_cons_self
      simp only [planMove, hnone] at hplan
      obtain ⟨rfl, rfl⟩ := pure_ok.1 hplan
      have hfresh : ∀ j ∈ is, (m.plan i p).get? j = none := by
        intro j hj
        have hji : j ≠ i := fun h => hn.1 (h ▸ hj)
        rw [Moves.plan, KeyedList.get?_put, if_neg hji]
        exact hrest j hj
      obtain ⟨rfl, hres, he⟩ := ih hn.2 hfresh hd
      refine ⟨rfl, by simpa using ⟨hr, hres⟩, ?_⟩
      rw [he, Moves.plan, KeyedList.entries_put hnone, nestMoves_cons_some hp, List.append_assoc,
        List.singleton_append]

/-! ### Making the moves -/

theorem map_fst_nestMoves :
    (nestMoves accept d is).map Prod.fst = is.filter fun i => (nest? accept d i).isSome := by
  induction is with
  | nil => rfl
  | cons i is ih =>
    cases hp : nest? accept d i with
    | none => simp [nestMoves_cons_none hp, ih, hp]
    | some p => simp [nestMoves_cons_some hp, ih, hp]

theorem nodup_keys_nestMoves (hn : is.Nodup) : ((nestMoves accept d is).map Prod.fst).Nodup := by
  rw [map_fst_nestMoves]
  exact hn.filter _

theorem mem_keys_nestMoves :
    i ∈ (nestMoves accept d is).map Prod.fst ↔ i ∈ is ∧ (nest? accept d i).isSome = true := by
  rw [map_fst_nestMoves, List.mem_filter]

theorem mem_keys_of_nest? (hi : i ∈ is) (hp : nest? accept d i = some p) :
    i ∈ (nestMoves accept d is).map Prod.fst :=
  mem_keys_nestMoves.2 ⟨hi, by simp [hp]⟩

theorem not_mem_keys_nestMoves (hi : i ∈ is → nest? accept d i = none) :
    i ∉ (nestMoves accept d is).map Prod.fst := by
  rw [mem_keys_nestMoves]
  rintro ⟨hmem, hsome⟩
  simp [hi hmem] at hsome

theorem find?_nestMoves :
    ((nestMoves accept d is).find? (·.1 = j)).map Prod.snd =
      if j ∈ is then nest? accept d j else none := by
  induction is with
  | nil => rfl
  | cons i is ih =>
    by_cases hij : i = j
    · subst hij
      cases hp : nest? accept d i with
      | none => rw [nestMoves_cons_none hp, ih, hp, ite_self, ite_self]
      | some p => simp [nestMoves_cons_some hp]
    · have hmem : j ∈ i :: is ↔ j ∈ is := by simp [Ne.symm hij]
      simp only [hmem]
      cases hp : nest? accept d i with
      | none => rw [nestMoves_cons_none hp, ih]
      | some p => rw [nestMoves_cons_some hp, List.find?_cons_of_neg (by simpa using hij), ih]

theorem mem_nestMoves : (i, p) ∈ nestMoves accept d is ↔ i ∈ is ∧ nest? accept d i = some p := by
  simp only [nestMoves, List.mem_filterMap, Option.map_eq_some_iff, Prod.mk.injEq]
  constructor
  · rintro ⟨j, hj, q, hq, rfl, rfl⟩
    exact ⟨hj, hq⟩
  · rintro ⟨hi, hp⟩
    exact ⟨i, hi, p, hp, rfl, rfl⟩

theorem lt_size_of_nest? (hs : d.Sound) (hp : nest? accept d i = some p) :
    p < d.hierarchy.size := by
  obtain ⟨q, e, -, he, rfl, -, -⟩ := nest?_eq_some.1 hp
  exact (hs.lookup he).1

section Made
variable (his : ∀ i ∈ is, i < d.hierarchy.size)
  (hm : Moves.makeAll (nestMoves accept d is) d.hierarchy = .ok () h')
include his hm

theorem orderly_of_nestMoves (hs : d.Sound)
    (hfit : ∀ i ∈ is, ∀ p, accept (d.hierarchy.kind p) = true →
      (d.hierarchy.kind p).isType = true ∨ d.hierarchy.kind p = .ns →
        (d.hierarchy.kind p).mayOwn (d.hierarchy.kind i) = true) : h'.Orderly := by
  have hkept : h'.Orderly ∧ d.hierarchy.SameElements h' := by
    refine Moves.makeAll_induction (I := fun g => g.Orderly ∧ d.hierarchy.SameElements g) ?_
      ⟨hs.orderly, .refl _⟩ hm
    rintro g i p hmem hpi hia ⟨ho, hsame⟩
    obtain ⟨hi, hp⟩ := mem_nestMoves.1 hmem
    have hlt := lt_size_of_nest? hs hp
    obtain ⟨q, e, -, he, rfl, -, ha⟩ := nest?_eq_some.1 hp
    refine ⟨ho.move (hsame.size ▸ hlt) (hsame.size ▸ his i hi) hpi
      (fun h => hia (ho.mem_ancestors.2 h)) ?_, hsame.trans .move⟩
    rw [hsame.kind]
    have hentry := hs.lookup he
    rw [← hentry.2.1] at hentry
    exact hfit i hi e.id ha hentry.2.2
  exact hkept.1

theorem owner_of_nestMoves (hn : is.Nodup) :
    h'.owner j =
      ((if j ∈ is then nest? accept d j else none).map Owner.element).getD (d.hierarchy.owner j) := by
  have hlt : ∀ e ∈ nestMoves accept d is, e.1 < d.hierarchy.size :=
    fun e he => his e.1 (mem_nestMoves.1 he).1
  rw [Moves.owner_makeAll (nodup_keys_nestMoves hn) hlt hm, find?_nestMoves]

theorem owner_of_moved (hn : is.Nodup) (hj : j ∈ is) (hp : nest? accept d j = some p) :
    h'.owner j = .element p := by
  rw [owner_of_nestMoves his hm hn, if_pos hj, hp]
  rfl

theorem owner_of_stayed (hn : is.Nodup) (hj : j ∈ is → nest? accept d j = none) :
    h'.owner j = d.hierarchy.owner j := by
  rw [owner_of_nestMoves his hm hn]
  split
  next hmem =>
    rw [hj hmem]
    rfl
  next => rfl

end Made

/-! ### Names of types that were moved -/

/-- An element named by what its full name adds to that of an owner. -/
def under (owner : String) (e : Element) : Element :=
  match stripQualifier? owner e.fullName with
  | some name => { e with name }
  | none => e

/-- An element named by its owner, if it has one. -/
def rebased (h : Hierarchy) (i : ElementId) : Element :=
  match h.owner i with
  | .element p => under (h.fullName p) (h.element i)
  | _ => h.element i

theorem exists_under (owner : String) (e : Element) : ∃ name, under owner e = { e with name } := by
  unfold under
  split
  next name _ => exact ⟨name, rfl⟩
  next => exact ⟨e.name, rfl⟩

theorem under_of_append {owner rest : String} {e : Element}
    (he : e.fullName = owner ++ "." ++ rest) : under owner e = { e with name := rest } := by
  rw [under, he, stripQualifier?_append]

theorem exists_rebased (h : Hierarchy) (i : ElementId) :
    ∃ name, rebased h i = { h.element i with name } := by
  unfold rebased
  split
  · exact exists_under _ _
  · exact ⟨(h.element i).name, rfl⟩

theorem rebase_cases : rebase h i = h ∧ rebased h i = h.element i ∨
    ∃ name, rebase h i = h.modify i (fun e => { e with name }) ∧
      rebased h i = { h.element i with name } ∧ i < h.size := by
  unfold rebase rebased under Hierarchy.fullName
  cases ho : h.owner i with
  | element p =>
    dsimp only
    cases stripQualifier? (h.element p).fullName (h.element i).fullName with
    | some name => exact .inr ⟨name, rfl, rfl, Hierarchy.lt_size_of_owner_ne (by simp [ho])⟩
    | none => exact .inl ⟨rfl, rfl⟩
  | root => exact .inl ⟨rfl, rfl⟩
  | detached => exact .inl ⟨rfl, rfl⟩

theorem samePlaces_rebase : h.SamePlaces (rebase h i) := by
  rcases rebase_cases (h := h) (i := i) with ⟨he, -⟩ | ⟨name, he, -, -⟩
  · rw [he]
    exact .refl h
  · rw [he]
    exact .modify fun _ => rfl

theorem element_rebase :
    (rebase h i).element j = if j = i then rebased h i else h.element j := by
  rcases rebase_cases (h := h) (i := i) with ⟨he, hr⟩ | ⟨name, he, hr, hi⟩
  · rw [he, hr]
    split
    next hj => rw [hj]
    next => rfl
  · rw [he, hr]
    split
    next hj => rw [hj, Hierarchy.element_modify_self hi]
    next hj => rw [Hierarchy.element_modify_of_ne hj]

theorem fullName_rebase : (rebase h i).fullName = h.fullName := by
  funext j
  rw [Hierarchy.fullName, element_rebase]
  split
  next hj =>
    obtain ⟨name, hname⟩ := exists_rebased h i
    rw [hname, hj]
    rfl
  next => rfl

theorem samePlaces_foldl_rebase {l : List ElementId} : h.SamePlaces (l.foldl rebase h) := by
  induction l generalizing h with
  | nil => exact .refl h
  | cons i l ih => exact samePlaces_rebase.trans ih

theorem element_foldl_rebase (hn : is.Nodup) :
    (is.foldl rebase h).element j = if j ∈ is then rebased h j else h.element j := by
  induction is generalizing h with
  | nil => rfl
  | cons i is ih =>
    rw [List.nodup_cons] at hn
    rw [List.foldl_cons, ih hn.2]
    by_cases hj : j = i
    · subst hj
      rw [if_neg hn.1, if_pos List.mem_cons_self, element_rebase, if_pos rfl]
    · have hother : rebased (rebase h i) j = rebased h j := by
        unfold rebased
        rw [samePlaces_rebase.owner, fullName_rebase, element_rebase, if_neg hj]
      rw [hother, element_rebase, if_neg hj]
      simp only [List.mem_cons, hj, false_or]

/-- The members of the namespaces at the top. -/
def listedTypes (h : Hierarchy) : List ElementId := h.namespaces.flatMap h.members

theorem mem_listedTypes (hw : h.WellFormed) :
    i ∈ listedTypes h ↔ ∃ ns ∈ h.namespaces, h.owner i = .element ns := by
  simp only [listedTypes, List.mem_flatMap, hw.mem_members]

theorem nodup_listedTypes (hw : h.WellFormed) : (listedTypes h).Nodup := by
  refine List.nodup_flatMap.2 ⟨fun ns _ => hw.nodup_members ns, ?_⟩
  refine List.Pairwise.imp_of_mem ?_ hw.nodup_namespaces
  intro a b _ _ hab i hia hib
  have ha := hw.mem_members.1 hia
  have hb := hw.mem_members.1 hib
  exact hab (Owner.element.inj (ha.symm.trans hb))

theorem lt_size_of_mem_listedTypes (hw : h.WellFormed) (hi : i ∈ listedTypes h) : i < h.size := by
  obtain ⟨ns, -, ho⟩ := (mem_listedTypes hw).1 hi
  exact Hierarchy.lt_size_of_owner_ne (by simp [ho])

/-- What a namespace has below it may stand below a class, unless that is an invoker. -/
theorem mayOwn_of_mem_listedTypes (ho : h.Orderly) (hi : i ∈ listedTypes h)
    (hclass : (h.kind p).isClass = true) (hp : h.kind p ≠ .invoker) :
    (h.kind p).mayOwn (h.kind i) = true := by
  obtain ⟨ns, hns, howner⟩ := (mem_listedTypes ho.toWellFormed).1 hi
  have hfits := ho.fits howner
  rw [(ho.mem_namespaces.1 hns).1] at hfits
  revert hfits hclass hp
  cases h.kind p <;> cases h.kind i <;> decide

/-- What nesting types does to the hierarchy of a draft. -/
structure TypesNested (d : Draft) (h' : Hierarchy) : Prop where
  orderly : h'.Orderly
  size : h'.size = d.hierarchy.size
  enums : h'.enums = d.hierarchy.enums
  /-- At most the name of an element changes. -/
  named : ∀ i, ∃ name, h'.element i = { d.hierarchy.element i with name }
  moved : ∀ {i p : ElementId}, i ∈ listedTypes d.hierarchy → nest? Kind.isClass d i = some p →
    h'.owner i = .element p ∧
      h'.element i = under (d.hierarchy.fullName p) (d.hierarchy.element i)
  stayed : ∀ {i : ElementId}, (i ∈ listedTypes d.hierarchy → nest? Kind.isClass d i = none) →
    h'.owner i = d.hierarchy.owner i ∧ h'.element i = d.hierarchy.element i

namespace TypesNested

variable (ht : TypesNested d h')
include ht

theorem stayed_or_moved (i : ElementId) :
    (h'.owner i = d.hierarchy.owner i ∧ h'.element i = d.hierarchy.element i) ∨
      ∃ p, i ∈ listedTypes d.hierarchy ∧ nest? Kind.isClass d i = some p := by
  by_cases hstay : i ∈ listedTypes d.hierarchy → nest? Kind.isClass d i = none
  · exact .inl (ht.stayed hstay)
  · rw [Classical.not_imp] at hstay
    obtain ⟨p, hp⟩ := Option.ne_none_iff_exists'.1 hstay.2
    exact .inr ⟨p, hstay.1, hp⟩

theorem kind : h'.kind i = d.hierarchy.kind i := by
  obtain ⟨name, hname⟩ := ht.named i
  rw [Hierarchy.kind, hname]
  rfl

theorem fullName : h'.fullName i = d.hierarchy.fullName i := by
  obtain ⟨name, hname⟩ := ht.named i
  rw [Hierarchy.fullName, hname]
  rfl

theorem isBound : (h'.element i).isBound = (d.hierarchy.element i).isBound := by
  obtain ⟨name, hname⟩ := ht.named i
  rw [hname]

end TypesNested

/-- Moving the listed types and naming the moved ones anew. -/
theorem typesNested_of_makeAll (hs : d.Sound) (hi : ∀ i, d.hierarchy.kind i ≠ .invoker)
    (hm : Moves.makeAll (nestMoves Kind.isClass d (listedTypes d.hierarchy)) d.hierarchy
      = .ok () h') :
    TypesNested d (((nestMoves Kind.isClass d (listedTypes d.hierarchy)).map Prod.fst).foldl
      rebase h') := by
  have hw := hs.orderly.toWellFormed
  have hn := nodup_listedTypes hw
  have hlt : ∀ i ∈ listedTypes d.hierarchy, i < d.hierarchy.size :=
    fun _ hmem => lt_size_of_mem_listedTypes hw hmem
  have hfit : ∀ i ∈ listedTypes d.hierarchy, ∀ p, (d.hierarchy.kind p).isClass = true →
      (d.hierarchy.kind p).isType = true ∨ d.hierarchy.kind p = .ns →
        (d.hierarchy.kind p).mayOwn (d.hierarchy.kind i) = true :=
    fun _ hmem p hclass _ => mayOwn_of_mem_listedTypes hs.orderly hmem hclass (hi p)
  have hsame := Moves.sameElements_makeAll hm
  have hplaces := samePlaces_foldl_rebase
    (h := h') (l := (nestMoves Kind.isClass d (listedTypes d.hierarchy)).map Prod.fst)
  have hkeys : ((nestMoves Kind.isClass d (listedTypes d.hierarchy)).map Prod.fst).Nodup :=
    nodup_keys_nestMoves hn
  refine ⟨hplaces.orderly (orderly_of_nestMoves hlt hm hs hfit), hplaces.size.trans hsame.size,
    hplaces.enums.trans hsame.enums, ?_, ?_, ?_⟩
  · intro i
    rw [element_foldl_rebase hkeys, ← hsame.element]
    split
    · exact exists_rebased h' i
    · exact ⟨(h'.element i).name, rfl⟩
  · intro i p hi hp
    have howner := owner_of_moved hlt hm hn hi hp
    rw [hplaces.owner, element_foldl_rebase hkeys, if_pos (mem_keys_of_nest? hi hp), rebased,
      howner, hsame.fullName, hsame.element]
    exact ⟨rfl, rfl⟩
  · intro i hi
    rw [hplaces.owner, element_foldl_rebase hkeys, if_neg (not_mem_keys_nestMoves hi),
      hsame.element]
    exact ⟨owner_of_stayed hlt hm hn hi, rfl⟩

/-- The pass over types nests each listed type by its qualifier. -/
theorem nestTypes_ok (hs : d.Sound) (hi : ∀ i, d.hierarchy.kind i ≠ .invoker)
    (hd : nestTypes d = .ok () d') :
    (∀ i ∈ listedTypes d.hierarchy, Resolves d i) ∧
      ∃ h', d' = { d with hierarchy := h' } ∧ TypesNested d h' := by
  have hw := hs.orderly.toWellFormed
  obtain ⟨_, _, hh, hplans⟩ := bind_ok.1 hd
  obtain ⟨rfl, rfl⟩ := hierarchy_ok.1 hh
  obtain ⟨m, d₁, hplan, hmoves⟩ := bind_ok.1 hplans
  obtain ⟨rfl, hres, hentries⟩ := planMoves_ok (nodup_listedTypes hw) (fun _ _ => rfl) hplan
  obtain ⟨keys, d₂, hwork, hrebase⟩ := bind_ok.1 hmoves
  obtain ⟨h₁, happly, rfl⟩ := onHierarchy_ok.1 hwork
  obtain ⟨hmade, rfl⟩ := Moves.apply_ok.1 happly
  obtain rfl := forM_edit_ok.1 hrebase
  change m.entries = nestMoves Kind.isClass d₁ (listedTypes d₁.hierarchy) at hentries
  rw [hentries] at hmade
  refine ⟨hres, _, rfl, ?_⟩
  rw [KeyedList.keys, hentries]
  exact typesNested_of_makeAll hs hi hmade

end BindingTree.Build
