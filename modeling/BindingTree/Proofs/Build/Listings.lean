import BindingTree.Proofs.Build.Intake
import BindingTree.Proofs.Index.Clashes

/-! Types and namespaces as the records list them. Below a namespace only classes and interfaces are
taken in, and below those nothing that stands in the index, so the elements that the index leads to
can be read off the records, in the order in which they are made and with the names they get. Taking
records in makes these elements and enters each of them; it fails only at an enum whose name starts
with a dot, or where an element cannot be entered. -/

namespace BindingTree

open Naming (stripQualifier? splitLast Colonless)

/-- Types and namespaces: the kinds of elements that stand in the index. -/
def Kind.isIndexed (k : Kind) : Bool := k.isType || k = .ns

/-- What a type or a namespace is called, and the full name of what it stands below. -/
structure Listing where
  kind : Kind
  name : String
  fullName : String
  site : Option String
  deriving DecidableEq, Repr

/-- The class or interface that a record stands for below a namespace with a full name. -/
def Record.Head.listingBelow? (ns : String) (head : Record.Head) : Option Listing :=
  let name := (stripQualifier? ns head.name).getD head.name
  match head.content.tag with
  | .cls => some ⟨.cls, name, ns ++ "." ++ name, some ns⟩
  | .iface => some ⟨.iface, name, ns ++ "." ++ name, some ns⟩
  | _ => none

/-- The types and namespaces that a record at the top stands for, with what is below it. -/
def Record.listings (r : Record) : List Listing :=
  match r.tag with
  | .ns => ⟨.ns, r.name, r.name, none⟩ :: r.children.filterMap (·.head.listingBelow? r.name)
  | .enum => [⟨.enum, (splitLast r.name).2, r.name, none⟩]
  | _ => []

namespace Hierarchy

/-- The types and namespaces of a hierarchy, in the order in which they were made. -/
def indexed (h : Hierarchy) : List ElementId := h.ids.filter fun i => (h.kind i).isIndexed

def listing (h : Hierarchy) (i : ElementId) : Listing :=
  ⟨h.kind i, (h.element i).name, h.fullName i, (h.owner i).element?.map h.fullName⟩

def listings (h : Hierarchy) : List Listing := h.indexed.map h.listing

variable {h h' : Hierarchy} {i p : ElementId} {o : Owner} {e : Element}

theorem mem_indexed : i ∈ h.indexed ↔ i < h.size ∧ (h.kind i).isIndexed = true := by
  rw [indexed, List.mem_filter, ids, List.mem_range]

theorem Fresh.filter_ids (f : Kind → Bool) (hf : Fresh h h' o e) :
    h'.ids.filter (fun i => f (h'.kind i)) =
      h.ids.filter (fun i => f (h.kind i)) ++ if f e.kind then [h.size] else [] := by
  unfold ids
  rw [hf.size, List.range_succ, List.filter_append, List.filter_singleton, hf.kind_new]
  congr 1
  · refine List.filter_congr fun i hi => ?_
    rw [hf.kind_of_lt (List.mem_range.1 hi)]
  · cases f e.kind <;> rfl

theorem Fresh.indexed (hf : Fresh h h' o e) :
    h'.indexed = h.indexed ++ if e.kind.isIndexed then [h.size] else [] := hf.filter_ids _

end Hierarchy

/-! ### Names taken -/

namespace Index

/-- An element of a kind is entered under a name: its plain key is taken, and what is of the kind is
found, if nothing but a kind is set off by a colon. -/
structure Entered (ix : Index) (k : Kind) (name : String) : Prop where
  taken : ix.Taken name
  holds : Colonless name → ix.Holds k name

section Insert
variable {r r' : Registry} {entry : Entry} {t : Table} {k : Kind} {name key : String}
/- Entries of one element agree on its kind. -/
variable (hk : ∀ ⦃key : String⦄ ⦃e : Entry⦄, r.index.native.get? key = some e → e.id = entry.id →
  e.kind = entry.kind)
include hk

theorem entered_of_insert (hr : Registry.insert .native key entry r = .ok () r') :
    r'.index.Entered entry.kind key :=
  ⟨taken_of_insert hr, fun _ => holds_of_insert hk hr⟩

theorem Entered.insert (he : r.index.Entered k name)
    (hr : Registry.insert t key entry r = .ok () r') : r'.index.Entered k name :=
  ⟨he.taken.insert hr, fun hc => (he.holds hc).insert hk hc hr⟩

end Insert

/-- Every entry stands under the full name of its element, or under its kind and that name with the
plain key taken; managed names are yet to come. -/
structure Keyed (ix : Index) (h : Hierarchy) : Prop where
  native : ∀ {k : String} {e : Entry}, ix.native.get? k = some e →
    k = h.fullName e.id ∨ k = e.kind.keyed (h.fullName e.id) ∧ ix.Taken (h.fullName e.id)
  managed : ∀ k, ix.managed.get? k = none

variable {ix : Index} {h h' : Hierarchy} {i : ElementId} {r r' : Registry} {x : Element}

theorem Keyed.empty {policy : ClashPolicy} : ({ policy } : Index).Keyed h :=
  ⟨fun he => (by cases he), fun _ => rfl⟩

/-- Names of elements that are there stay. -/
theorem Keyed.mono (hk : ix.Keyed h) (hp : ix.PointsInto h)
    (hn : ∀ {i : ElementId}, i < h.size → h'.fullName i = h.fullName i) : ix.Keyed h' where
  native he := by
    rw [hn (hp (t := .native) he).1]
    exact hk.native he
  managed := hk.managed

theorem Keyed.addNative (hk : r.index.Keyed h) (hx : x.fullName = h.fullName i)
    (hr : Registry.addNative i x r = .ok () r') : r'.index.Keyed h where
  native {k e} he := by
    rcases Registry.get?_of_insert (u := .native) hr he with hold | ⟨-, rfl, ⟨rfl, -⟩ | rfl⟩
    · exact (hk.native hold).imp_right fun hk => ⟨hk.1, hk.2.insert hr⟩
    · exact .inl hx
    · exact .inr ⟨by rw [hx], hx ▸ Index.taken_of_insert hr⟩
  managed k := by
    cases he : r'.index.managed.get? k with
    | none => rfl
    | some e =>
      rcases Registry.get?_of_insert (u := .managed) hr he with hold | ⟨hu, -⟩
      · exact absurd hold (by simp [Index.table, hk.managed k])
      · cases hu

end Index

namespace Build

open Relation (ReflTransGen)

variable {d d' d'' d₁ : Draft} {i q : ElementId} {ids ids' pending : List ElementId}
  {head : Record.Head} {payload : Payload} {c : Content} {k : Kind} {all ahead : List Listing}
  {l : Listing} {failure : Failure}

/-! ### Growth -/

/-- A draft that has grown by elements, of which those in a list stand in the index. -/
structure Grown (ids : List ElementId) (d d' : Draft) : Prop where
  size : d.hierarchy.size ≤ d'.hierarchy.size
  owner : ∀ {i : ElementId}, i < d.hierarchy.size → d'.hierarchy.owner i = d.hierarchy.owner i
  native : ∀ {i : ElementId}, i < d.hierarchy.size →
    (d'.hierarchy.element i).native = (d.hierarchy.element i).native
  indexed : d'.hierarchy.indexed = d.hierarchy.indexed ++ ids
  log : d.registry.log ⊆ d'.registry.log

namespace Grown

theorem of_same {h : Hierarchy} {r : Registry} (hs : d.hierarchy.SameNative h)
    (hl : d.registry.log ⊆ r.log) : Grown [] d ⟨h, r⟩ where
  size := Nat.le_of_eq hs.size.symm
  owner _ := by rw [hs.owner]
  native _ := hs.native _
  indexed := by
    unfold Hierarchy.indexed Hierarchy.ids
    rw [hs.size, hs.kind, List.append_nil]
  log := hl

theorem refl (d : Draft) : Grown [] d d := of_same (.refl _) (List.Subset.refl _)

theorem trans (h₁ : Grown ids d d') (h₂ : Grown ids' d' d'') : Grown (ids ++ ids') d d'' where
  size := Nat.le_trans h₁.size h₂.size
  owner hi := (h₂.owner (Nat.lt_of_lt_of_le hi h₁.size)).trans (h₁.owner hi)
  native hi := (h₂.native (Nat.lt_of_lt_of_le hi h₁.size)).trans (h₁.native hi)
  indexed := by rw [h₂.indexed, h₁.indexed, List.append_assoc]
  log := List.Subset.trans h₁.log h₂.log

theorem of_fresh {h' : Hierarchy} {o : Owner} {e : Element} (hf : d.hierarchy.Fresh h' o e) :
    Grown (if e.kind.isIndexed then [d.hierarchy.size] else []) d { d with hierarchy := h' } where
  size := Nat.le_of_lt hf.size_lt
  owner := hf.owner_of_lt
  native hi := by rw [hf.element_of_lt hi]
  indexed := hf.indexed
  log := List.Subset.refl _

variable (hg : Grown ids d d')
include hg

theorem kind (hi : i < d.hierarchy.size) : d'.hierarchy.kind i = d.hierarchy.kind i :=
  congrArg Prod.fst (hg.native hi)

theorem fullName (hi : i < d.hierarchy.size) : d'.hierarchy.fullName i = d.hierarchy.fullName i :=
  Hierarchy.fullName_of_native (hg.native hi)

theorem listing (ho : d.hierarchy.Grounded) (hi : i < d.hierarchy.size) :
    d'.hierarchy.listing i = d.hierarchy.listing i := by
  have hsite : (d'.hierarchy.owner i).element?.map d'.hierarchy.fullName =
      (d.hierarchy.owner i).element?.map d.hierarchy.fullName := by
    rw [hg.owner hi]
    cases hp : d.hierarchy.owner i with
    | element p => exact congrArg some (hg.fullName (ho.owner_lt hp))
    | root => rfl
    | detached => rfl
  unfold Hierarchy.listing
  rw [hg.kind hi, hg.fullName hi, hsite, Hierarchy.name_of_native (hg.native hi)]

theorem listings (ho : d.hierarchy.Grounded) :
    d'.hierarchy.listings = d.hierarchy.listings ++ ids.map d'.hierarchy.listing := by
  unfold Hierarchy.listings
  rw [hg.indexed, List.map_append]
  congr 1
  exact List.map_congr_left fun i hi => hg.listing ho (Hierarchy.mem_indexed.1 hi).1

end Grown

/-! ### Below types -/

theorem exists_payload (ha : accepts k c.tag = true) : ∃ payload, payload? c = some payload := by
  cases c with
  | unsupported => cases k <;> exact absurd ha (by decide)
  | _ => exact ⟨_, rfl⟩

/-- Only below namespaces are elements accepted that stand in the index. -/
theorem isIndexed_of_accepts (ha : accepts k c.tag = true) (hk : k ≠ .ns)
    (hp : payload? c = some payload) : payload.kind.isIndexed = false := by
  have htag : c.tag ∉ [Tag.ns, .cls, .iface, .enum] := by
    revert ha hk
    generalize c.tag = t
    cases k <;> cases t <;> decide
  cases c <;> cases hp <;> first | rfl | exact absurd (by simp [Content.tag]) htag

/-- Nothing stands below an element that was just made. -/
theorem size_not_mem_ancestors {e : Element} (hs : d.Sound) :
    d.hierarchy.size ∉ (d.hierarchy.push e).ancestors q := by
  intro hm
  have ha := Hierarchy.above_of_mem_ownersUpTo hm
  obtain ⟨c, hc⟩ : ∃ c, (d.hierarchy.push e).owner c = .element d.hierarchy.size := by
    cases Relation.TransGen.head'_iff.1 ha with
    | intro c hc => exact ⟨c, hc.1⟩
  rw [Hierarchy.owner_push] at hc
  split at hc
  · cases hc
  · exact absurd (hs.orderly.owner_lt hc) (Nat.lt_irrefl _)

theorem create_below_run (hs : d.Sound) (hq : q < d.hierarchy.size)
    (hp : payload? head.content = some payload) :
    create head (.element q) d = .ok d.hierarchy.size { d with
      hierarchy := d.hierarchy.putBelow q (elementBelow d.hierarchy q head payload) } := by
  unfold create
  simp only [hp, bind_ok, hierarchy_ok, make_ok, addMember_ok, pure_ok]
  exact ⟨_, _, ⟨rfl, rfl⟩, _, _, ⟨rfl, rfl⟩, (), _, ⟨Nat.ne_of_lt hq, size_not_mem_ancestors hs, rfl⟩,
    rfl, rfl⟩

theorem inherit_run (q : ElementId) (head : Record.Head) (d : Draft) :
    ∃ h, inherit q head d = .ok () { d with hierarchy := h } ∧ d.hierarchy.SameNative h := by
  rcases inherit_cases q head with he | ⟨name, -, -, he⟩
  · exact ⟨d.hierarchy, by rw [he]; rfl, .refl _⟩
  · exact ⟨_, by rw [he]; rfl, .modify (Element.native_withFacts (addBaseName name))⟩

/-- An accepted record makes its element; what is below it and its entry follow. -/
theorem ingestChild_run (hs : d.Sound) (hq : q < d.hierarchy.size)
    (ha : accepts (d.hierarchy.kind q) head.content.tag = true)
    (hp : payload? head.content = some payload) (children : List Record) :
    ∃ h, (d.hierarchy.putBelow q (elementBelow d.hierarchy q head payload)).SameNative h ∧
      ingestChild q ⟨head, children⟩ d = (do
        ingestChildren d.hierarchy.size children
        if (← element d.hierarchy.size).isType then addNative d.hierarchy.size)
          ⟨h, d.registry⟩ := by
  obtain ⟨h, hrun, hsame⟩ := inherit_run q head
    ⟨d.hierarchy.putBelow q (elementBelow d.hierarchy q head payload), d.registry⟩
  refine ⟨h, hsame, ?_⟩
  rw [ingestChild, bind_run]
  change (if accepts (d.hierarchy.kind q) head.content.tag then _ else _ : Build Unit) d = _
  rw [if_pos ha, bind_run, create_below_run hs hq hp]
  dsimp only
  rw [bind_run, hrun]

/-- The element of an accepted record is all that the draft has grown by so far. -/
theorem grown_of_below {h : Hierarchy} (hs : d.Sound) (hq : q < d.hierarchy.size)
    (ha : accepts (d.hierarchy.kind q) head.content.tag = true)
    (hp : payload? head.content = some payload)
    (hsame : (d.hierarchy.putBelow q (elementBelow d.hierarchy q head payload)).SameNative h) :
    Grown (if payload.kind.isIndexed then [d.hierarchy.size] else []) d ⟨h, d.registry⟩ ∧
      (⟨h, d.registry⟩ : Draft).Sound ∧ d.hierarchy.size < h.size ∧
        h.kind d.hierarchy.size = payload.kind := by
  have hf : d.hierarchy.Fresh _ (.element q) (elementBelow d.hierarchy q head payload) := .putBelow
  have hsound := hs.extend (hs.orderly.putBelow hq (mayOwn_of_accepts ha hp))
    (Nat.le_of_lt hf.size_lt) fun _ hi => hf.kind_of_lt hi
  refine ⟨?_, hsound.same hsame.toSamePlaces, ?_, ?_⟩
  · have hfresh : Grown (if payload.kind.isIndexed then [d.hierarchy.size] else []) d _ :=
      Grown.of_fresh hf
    simpa using hfresh.trans (.of_same hsame (List.Subset.refl _))
  · rw [hsame.size]
    exact hf.size_lt
  · rw [hsame.kind, hf.kind_new]
    rfl

theorem isType_of_isIndexed (hk : k.isIndexed = false) : ¬ k.isType = true := by
  intro ht
  rw [Kind.isIndexed, ht] at hk
  cases hk

mutual

/-- Below a type anything can be taken in, and nothing of it stands in the index. -/
theorem ingestChild_below {q : ElementId} : ∀ (r : Record) {d : Draft}, q < d.hierarchy.size →
    d.hierarchy.kind q ≠ .ns → d.Sound → ∃ d', ingestChild q r d = .ok () d' ∧ Grown [] d d' ∧
      d'.registry.index = d.registry.index
  | ⟨head, children⟩, d, hq, hk, hs => by
    by_cases ha : accepts (d.hierarchy.kind q) head.content.tag = true
    · obtain ⟨payload, hp⟩ := exists_payload ha
      have hnot := isIndexed_of_accepts ha hk hp
      obtain ⟨h, hsame, hrun⟩ := ingestChild_run hs hq ha hp children
      obtain ⟨hg, hs₁, hlt, hkind⟩ := grown_of_below hs hq ha hp hsame
      rw [hnot, if_neg Bool.false_ne_true] at hg
      have hns : h.kind d.hierarchy.size ≠ .ns := by
        rw [hkind]
        rintro heq
        rw [heq] at hnot
        cases hnot
      obtain ⟨d₂, hchildren, hg₂, hindex⟩ := ingestChildren_below children hlt hns hs₁
      refine ⟨d₂, ?_, hg.trans hg₂, hindex⟩
      rw [hrun, bind_run, hchildren]
      change (if (d₂.hierarchy.kind d.hierarchy.size).isType then _ else _ : Build Unit) d₂ = _
      rw [hg₂.kind hlt, hkind, if_neg (isType_of_isIndexed hnot)]
      rfl
    · rw [ingestChild, bind_run]
      change ∃ d', (if accepts (d.hierarchy.kind q) head.content.tag then _ else _ : Build Unit) d
        = .ok () d' ∧ _
      rw [if_neg ha]
      exact ⟨_, rfl, .of_same (.refl _) (List.subset_append_left _ _), rfl⟩

theorem ingestChildren_below {q : ElementId} : ∀ (rs : List Record) {d : Draft},
    q < d.hierarchy.size → d.hierarchy.kind q ≠ .ns → d.Sound →
      ∃ d', ingestChildren q rs d = .ok () d' ∧ Grown [] d d' ∧
        d'.registry.index = d.registry.index
  | [], d, _, _, _ => ⟨d, by rw [ingestChildren]; rfl, .refl d, rfl⟩
  | r :: rs, d, hq, hk, hs => by
    obtain ⟨d₁, hr, hg₁, hindex₁⟩ := ingestChild_below r hq hk hs
    have hs₁ : d₁.Sound := by
      have hsteps : ReflTransGen (IntakeBelow r.heads) d d₁ := ingestChild_ok r (fun _ h => h) hq hr
      exact sound_of_intake (intake_of_below hsteps) hs
    have hq₁ := Nat.lt_of_lt_of_le hq hg₁.size
    obtain ⟨d₂, hrs, hg₂, hindex₂⟩ := ingestChildren_below rs hq₁ (hg₁.kind hq ▸ hk) hs₁
    refine ⟨d₂, ?_, hg₁.trans hg₂, hindex₂.trans hindex₁⟩
    rw [ingestChildren, bind_run, hr]
    exact hrs

end

theorem sound_of_ingestChildren {rs : List Record} (hs : d.Sound) (hq : q < d.hierarchy.size)
    (hd : ingestChildren q rs d = .ok () d') : d'.Sound := by
  have hsteps : ReflTransGen (IntakeBelow (Record.headsOf rs)) d d' :=
    ingestChildren_ok rs (fun _ h => h) hq hd
  exact sound_of_intake (intake_of_below hsteps) hs

/-! ### What is made, what is entered, and what is ahead -/

/-- In the midst of taking in listed elements: some are made, of these some are yet to be entered,
and the others are ahead. -/
structure Taking (all : List Listing) (pending : List ElementId) (ahead : List Listing)
    (d : Draft) : Prop where
  sound : d.Sound
  listings : d.hierarchy.listings ++ ahead = all
  nodup : pending.Nodup
  indexed : ∀ i ∈ pending, i ∈ d.hierarchy.indexed
  entered : ∀ {i : ElementId}, i ∈ d.hierarchy.indexed → i ∉ pending →
    d.registry.index.Entered (d.hierarchy.kind i) (d.hierarchy.fullName i)
  keyed : d.registry.index.Keyed d.hierarchy
  traced : d.registry.Traced fun _ => d.hierarchy.fullName
  shown : ∀ {i : ElementId}, i ∈ d.hierarchy.indexed → i ∉ pending →
    d.registry.Shows [] .native (d.hierarchy.kind i) (d.hierarchy.fullName i)
  /-- Where no two names are the same, each entry stands under its plain key. -/
  plain : (all.map Listing.fullName).Nodup → ∀ {k : String} {e : Entry},
    d.registry.index.native.get? k = some e → k = d.hierarchy.fullName e.id ∧ e.id ∉ pending
  nonempty : ¬ d.registry.index.Taken ""
  undotted : ∀ i ∈ d.hierarchy.indexed, d.hierarchy.kind i = .enum →
    (d.hierarchy.fullName i).toList.head? ≠ some '.'

theorem nodup_indexed (h : Hierarchy) : h.indexed.Nodup := List.nodup_range.filter _

theorem eq_of_fullName {h : Hierarchy} {j : ElementId}
    (hn : (h.listings.map Listing.fullName).Nodup) (hi : i ∈ h.indexed) (hj : j ∈ h.indexed)
    (he : h.fullName i = h.fullName j) : i = j := by
  rw [Hierarchy.listings, List.map_map] at hn
  exact List.inj_on_of_nodup_map hn hi hj he

/-- What stands in the index is a type or a namespace. -/
theorem mem_indexed_of_points {h : Hierarchy} {ix : Index} {t : Table} {key : String} {e : Entry}
    (hp : ix.PointsInto h) (he : (ix.table t).get? key = some e) : e.id ∈ h.indexed := by
  obtain ⟨hlt, hkind, ht⟩ := hp he
  rw [Hierarchy.mem_indexed, hkind, Kind.isIndexed, Bool.or_eq_true, decide_eq_true_eq]
  exact ⟨hlt, ht⟩

namespace Taking

variable {ls : List Listing}

theorem nodup_listings (ht : Taking all pending ahead d) (hn : (all.map Listing.fullName).Nodup) :
    (d.hierarchy.listings.map Listing.fullName).Nodup := by
  rw [← ht.listings, List.map_append] at hn
  exact hn.of_append_left

/-- Fresh elements are yet to be entered. -/
theorem grow (ht : Taking all pending (ls ++ ahead) d) (hg : Grown ids d d')
    (hindex : d'.registry.index = d.registry.index) (hs : d'.Sound)
    (hls : ids.map d'.hierarchy.listing = ls)
    (hdot : ∀ l ∈ ls, l.kind = .enum → l.fullName.toList.head? ≠ some '.') :
    Taking all (ids ++ pending) ahead d' := by
  have hnodup := nodup_indexed d'.hierarchy
  rw [hg.indexed, List.nodup_append] at hnodup
  obtain ⟨-, hids, hnew⟩ := hnodup
  have hlt : ∀ {t : Table} {k : String} {e : Entry}, (d.registry.index.table t).get? k = some e →
      e.id < d.hierarchy.size := fun he => (ht.sound.points he).1
  have hold : ∀ {i : ElementId}, i ∈ d'.hierarchy.indexed → i ∉ ids ++ pending →
      i ∈ d.hierarchy.indexed ∧ i ∉ pending := by
    intro i hi hnot
    rw [List.mem_append, not_or] at hnot
    rw [hg.indexed] at hi
    exact ⟨(List.mem_append.1 hi).resolve_right hnot.1, hnot.2⟩
  refine ⟨hs, ?_, ?_, ?_, ?_, ?_, ?_, ?_, ?_, ?_, ?_⟩
  · rw [hg.listings ht.sound.orderly.toGrounded, hls, List.append_assoc, ht.listings]
  · refine List.nodup_append.2 ⟨hids, ht.nodup, fun i hi j hj => ?_⟩
    exact (hnew j (ht.indexed j hj) i hi).symm
  · intro i hi
    rw [hg.indexed]
    rcases List.mem_append.1 hi with hi | hi
    · exact List.mem_append_right _ hi
    · exact List.mem_append_left _ (ht.indexed i hi)
  · intro i hi hnot
    obtain ⟨hi, hnot⟩ := hold hi hnot
    have hsize := (Hierarchy.mem_indexed.1 hi).1
    rw [hindex, hg.kind hsize, hg.fullName hsize]
    exact ht.entered hi hnot
  · rw [hindex]
    exact ht.keyed.mono ht.sound.points hg.fullName
  · refine (ht.traced.within (fun u k e he => hindex ▸ he) hg.log).congr fun u k e he => ?_
    rw [hindex] at he
    exact hg.fullName (hlt he)
  · intro i hi hnot
    obtain ⟨hi, hnot⟩ := hold hi hnot
    have hsize := (Hierarchy.mem_indexed.1 hi).1
    rw [hg.kind hsize, hg.fullName hsize]
    exact (ht.shown hi hnot).of_get? (fun e he _ => hindex ▸ he) hg.log
  · intro hn k e he
    rw [hindex] at he
    have hsize := hlt (t := .native) he
    obtain ⟨hkey, hpending⟩ := ht.plain hn he
    rw [hg.fullName hsize]
    refine ⟨hkey, fun hmem => (List.mem_append.1 hmem).elim (fun hid => ?_) hpending⟩
    exact hnew e.id (mem_indexed_of_points (t := .native) ht.sound.points he) e.id hid rfl
  · rw [hindex]
    exact ht.nonempty
  · intro i hi hk
    rw [hg.indexed] at hi
    rcases List.mem_append.1 hi with hi | hi
    · have hsize := (Hierarchy.mem_indexed.1 hi).1
      rw [hg.kind hsize] at hk
      rw [hg.fullName hsize]
      exact ht.undotted i hi hk
    · have hmem : d'.hierarchy.listing i ∈ ls := by
        rw [← hls]
        exact List.mem_map_of_mem hi
      exact hdot (d'.hierarchy.listing i) hmem hk

/-- Growth by nothing that stands in the index. -/
theorem still (ht : Taking all pending ahead d) (hg : Grown [] d d')
    (hindex : d'.registry.index = d.registry.index) (hs : d'.Sound) :
    Taking all pending ahead d' := by
  have ht' : Taking all pending ([] ++ ahead) d := ht
  exact ht'.grow hg hindex hs rfl (by simp)

/-- An element is entered. -/
theorem enter (ht : Taking all (i :: pending) ahead d) (hd : addNative i d = .ok () d') :
    Taking all pending ahead d' := by
  obtain ⟨r, hr, rfl⟩ := addNative_ok.1 hd
  obtain ⟨hi, hnodup⟩ := List.nodup_cons.1 ht.nodup
  have hmem := ht.indexed i List.mem_cons_self
  obtain ⟨hlt, hkind⟩ := Hierarchy.mem_indexed.1 hmem
  rw [Kind.isIndexed, Bool.or_eq_true, decide_eq_true_eq] at hkind
  have hsame : ∀ ⦃k : String⦄ ⦃e : Entry⦄, d.registry.index.native.get? k = some e → e.id = i →
      e.kind = d.hierarchy.kind i := by
    rintro k e he rfl
    exact (ht.sound.points (t := .native) he).2.1.symm
  refine ⟨⟨ht.sound.orderly, ht.sound.points.addNative hlt rfl hkind hr⟩, ht.listings, hnodup, ?_,
    ?_, ht.keyed.addNative rfl hr, ht.traced.insert (by rfl) hr, ?_, ?_, ?_, ht.undotted⟩
  · exact fun j hj => ht.indexed j (List.mem_cons_of_mem _ hj)
  · intro j hj hnot
    by_cases hji : j = i
    · subst hji
      exact Index.entered_of_insert hsame hr
    · exact (ht.entered hj (by simp [hji, hnot])).insert hsame hr
  · intro j hj hnot
    by_cases hji : j = i
    · subst hji
      exact Registry.shows_of_insert ht.traced (by rfl) List.not_mem_nil hr
    · refine (ht.shown hj (by simp [hji, hnot])).insert (v := .native) ?_ List.not_mem_nil hr
      exact hsame
  · intro hn k e he
    obtain ⟨-, ⟨-, rfl⟩ | ⟨existing, hway, -⟩⟩ := Registry.insert_cases hr
    · change (d.registry.index.native.put _ _).get? k = some e at he
      rw [KeyedList.get?_put] at he
      split at he
      next hk =>
        cases he
        exact ⟨hk, hi⟩
      next =>
        obtain ⟨hk, hnot⟩ := ht.plain hn he
        exact ⟨hk, fun hmem => hnot (List.mem_cons_of_mem _ hmem)⟩
    · -- What is in the way has the same name, so it is the element itself.
      rw [Index.inTheWay?, Option.filter_eq_some_iff] at hway
      obtain ⟨hget, hne⟩ := hway
      have hid := eq_of_fullName (ht.nodup_listings hn)
        (mem_indexed_of_points (t := .native) ht.sound.points hget) hmem (ht.plain hn hget).1.symm
      simp [hid] at hne
  · rintro ⟨e, he⟩
    rcases Registry.get?_of_insert (u := .native) hr he with hold | ⟨-, -, ⟨hk, -⟩ | hk⟩
    · exact ht.nonempty ⟨e, hold⟩
    · exact (Registry.insert_cases hr).1 hk.symm
    · exact absurd hk.symm (by simp [Kind.keyed])

end Taking

/-! ### How taking in ends -/

/-- Everything is taken in, or it stops at an enum whose name starts with a dot or at an element that
cannot be entered. -/
inductive Outcome (all : List Listing) (pending : List ElementId) (ahead : List Listing)
    (d : Draft) : EStateM.Result Failure Draft Unit → Prop where
  | done {d' : Draft} {ids : List ElementId} (ht : Taking all pending ahead d')
      (hg : Grown ids d d') : Outcome all pending ahead d (.ok () d')
  | dotted {d' : Draft} {l : Listing} (hl : l ∈ all) (hk : l.kind = .enum)
      (hdot : l.fullName.toList.head? = some '.') :
      Outcome all pending ahead d (.error (.invalidElement (.leadingDot l.fullName)) d')
  | refused {d' d₁ : Draft} {i : ElementId} {later : List ElementId} {rest : List Listing}
      {failure : Failure} (ht : Taking all (i :: later) rest d₁)
      (he : addNative i d₁ = .error failure d') : Outcome all pending ahead d (.error failure d')

namespace Outcome

variable {pending' : List ElementId} {ahead' : List Listing} {m : Build Unit} {f : Unit → Build Unit}

theorem bind (hm : Outcome all pending ahead d (m d))
    (hf : ∀ d₁ ids, m d = .ok () d₁ → Taking all pending ahead d₁ → Grown ids d d₁ →
      Outcome all pending' ahead' d₁ (f () d₁)) :
    Outcome all pending' ahead' d ((m >>= f) d) := by
  rw [bind_run]
  generalize hr : m d = r at hm ⊢
  cases hm with
  | done ht hg =>
    have hrest := hf _ _ hr ht hg
    dsimp only
    generalize f () _ = r' at hrest ⊢
    cases hrest with
    | done ht' hg' => exact .done ht' (hg.trans hg')
    | dotted hl hk hdot => exact .dotted hl hk hdot
    | refused ht' he => exact .refused ht' he
  | dotted hl hk hdot => exact .dotted hl hk hdot
  | refused ht he => exact .refused ht he

theorem enter (ht : Taking all (i :: pending) ahead d) :
    Outcome all pending ahead d (addNative i d) := by
  cases h : addNative i d with
  | ok u d' =>
    have ht' := ht.enter h
    obtain ⟨r, hr, rfl⟩ := addNative_ok.1 h
    exact .done ht' (.of_same (.refl _) (Registry.log_subset_of_insert hr))
  | error failure d' => exact .refused ht h

theorem notice {n : Notice} (ht : Taking all pending ahead d) :
    Outcome all pending ahead d (Build.notice n d) :=
  have hg : Grown [] d { d with registry := d.registry.notice n } :=
    .of_same (.refl _) (List.subset_append_left _ _)
  .done (ht.still hg rfl ⟨ht.sound.orderly, ht.sound.points⟩) hg

/-- From a draft that has grown since. -/
theorem of_grown (hg : Grown ids d d₁) {r : EStateM.Result Failure Draft Unit}
    (ho : Outcome all pending ahead d₁ r) : Outcome all pending ahead d r := by
  cases ho with
  | done ht hg' => exact .done ht (hg.trans hg')
  | dotted hl hk hdot => exact .dotted hl hk hdot
  | refused ht he => exact .refused ht he

end Outcome

/-- An accepted record below a namespace is listed as its element is named. -/
theorem listingBelow?_of_payload (ns : String) (ha : accepts .ns head.content.tag = true)
    (hp : payload? head.content = some payload) : head.listingBelow? ns =
      some ⟨payload.kind, (stripQualifier? ns head.name).getD head.name,
        ns ++ "." ++ (stripQualifier? ns head.name).getD head.name, some ns⟩ := by
  unfold Record.Head.listingBelow?
  cases hc : head.content <;> rw [hc] at ha hp <;> cases hp <;>
    first | rfl | exact absurd ha (by simp [accepts, Content.tag])

theorem listingBelow?_of_rejected {ns : String} (ha : ¬ accepts .ns head.content.tag = true) :
    head.listingBelow? ns = none := by
  unfold Record.Head.listingBelow?
  cases hc : head.content <;> first | rfl | exact absurd (by rw [hc]; rfl) ha

theorem kind_of_accepts_ns (ha : accepts .ns head.content.tag = true)
    (hp : payload? head.content = some payload) : payload.kind = .cls ∨ payload.kind = .iface := by
  cases hc : head.content <;> rw [hc] at ha hp <;> cases hp <;>
    first | exact .inl rfl | exact .inr rfl | exact absurd ha (by simp [accepts, Content.tag])

theorem listing_of_below {h : Hierarchy} {ns : String} (hq : q < d.hierarchy.size)
    (hk : d.hierarchy.kind q = .ns) (hns : d.hierarchy.fullName q = ns)
    (hsame : (d.hierarchy.putBelow q (elementBelow d.hierarchy q head payload)).SameNative h) :
    h.listing d.hierarchy.size = ⟨payload.kind, (stripQualifier? ns head.name).getD head.name,
      ns ++ "." ++ (stripQualifier? ns head.name).getD head.name, some ns⟩ := by
  have hf : d.hierarchy.Fresh _ (.element q) (elementBelow d.hierarchy q head payload) := .putBelow
  have hname : nameBelow d.hierarchy (.element q) head.name =
      (stripQualifier? ns head.name).getD head.name := by
    simp only [nameBelow, hk, hns, if_true]
  have hfull : h.fullName q = ns := by rw [hsame.fullName, hf.fullName_of_lt hq, hns]
  unfold Hierarchy.listing
  rw [hsame.kind, hf.kind_new, hsame.fullName, Hierarchy.fullName, hsame.name, hsame.owner,
    hf.owner_new, hf.element_new]
  simp only [Owner.element?, Option.map_some, hfull, elementBelow, hns, hname]
  rfl

theorem outcome_ingestChild (r : Record) {ns : String} (hq : q < d.hierarchy.size)
    (hk : d.hierarchy.kind q = .ns) (hns : d.hierarchy.fullName q = ns)
    (ht : Taking all pending ((r.head.listingBelow? ns).toList ++ ahead) d) :
    Outcome all pending ahead d (ingestChild q r d) := by
  obtain ⟨head, children⟩ := r
  by_cases ha : accepts .ns head.content.tag = true
  · obtain ⟨payload, hp⟩ := exists_payload ha
    have hcls := kind_of_accepts_ns ha hp
    have htype : payload.kind.isType = true := by
      rcases hcls with hcls | hcls <;> rw [hcls] <;> rfl
    have hindexed : payload.kind.isIndexed = true := by rw [Kind.isIndexed, htype, Bool.true_or]
    obtain ⟨h, hsame, hrun⟩ := ingestChild_run ht.sound hq (hk ▸ ha) hp children
    obtain ⟨hg, hs₁, hlt, hkind⟩ := grown_of_below ht.sound hq (hk ▸ ha) hp hsame
    rw [hindexed, if_pos rfl] at hg
    rw [listingBelow?_of_payload ns ha hp] at ht
    have ht₁ : Taking all (d.hierarchy.size :: pending) ahead ⟨h, d.registry⟩ := by
      refine ht.grow hg rfl hs₁ ?_ ?_
      · rw [List.map_singleton, listing_of_below hq hk hns hsame]
        rfl
      · rintro l hl hk'
        rw [Option.toList_some, List.mem_singleton] at hl
        subst hl
        rcases hcls with hcls | hcls <;> exact absurd (hcls.symm.trans hk') (by decide)
    have hnot : h.kind d.hierarchy.size ≠ .ns := by
      rw [hkind]
      rcases hcls with hcls | hcls <;> rw [hcls] <;> decide
    obtain ⟨d₂, hchildren, hg₂, hindex₂⟩ := ingestChildren_below children hlt hnot hs₁
    have ht₂ : Taking all (d.hierarchy.size :: pending) ahead d₂ :=
      ht₁.still hg₂ hindex₂ (sound_of_ingestChildren hs₁ hlt hchildren)
    rw [hrun, bind_run, hchildren]
    change Outcome all pending ahead d
      ((if (d₂.hierarchy.kind d.hierarchy.size).isType then _ else _ : Build Unit) d₂)
    rw [hg₂.kind hlt, hkind, if_pos htype]
    exact (Outcome.enter ht₂).of_grown (hg.trans hg₂)
  · rw [ingestChild, bind_run]
    change Outcome all pending ahead d
      ((if accepts (d.hierarchy.kind q) head.content.tag then _ else _ : Build Unit) d)
    rw [hk, if_neg ha]
    rw [listingBelow?_of_rejected ha] at ht
    exact .notice ht

theorem outcome_ingestChildren {ns : String} (rs : List Record) (hq : q < d.hierarchy.size)
    (hk : d.hierarchy.kind q = .ns) (hns : d.hierarchy.fullName q = ns)
    (ht : Taking all pending (rs.filterMap (·.head.listingBelow? ns) ++ ahead) d) :
    Outcome all pending ahead d (ingestChildren q rs d) := by
  induction rs generalizing d with
  | nil =>
    rw [ingestChildren]
    exact .done ht (.refl d)
  | cons r rs ih =>
    rw [ingestChildren]
    have hahead : (r :: rs).filterMap (·.head.listingBelow? ns) ++ ahead =
        (r.head.listingBelow? ns).toList ++ (rs.filterMap (·.head.listingBelow? ns) ++ ahead) := by
      cases hl : r.head.listingBelow? ns <;> simp [hl]
    rw [hahead] at ht
    refine (outcome_ingestChild r hq hk hns ht).bind fun d₁ ids _ ht₁ hg => ?_
    exact ih (Nat.lt_of_lt_of_le hq hg.size) ((hg.kind hq).trans hk) ((hg.fullName hq).trans hns) ht₁

theorem outcome_ingestNamespace {r : Record} (hr : r.tag = .ns)
    (ht : Taking all pending (r.listings ++ ahead) d) :
    Outcome all pending ahead d (ingestNamespace r d) := by
  obtain ⟨info, hc⟩ := content_of_tag_ns hr
  have hf : d.hierarchy.Fresh _ .root (ofHead r.head (.ns info) r.name r.name) := .putNamespace
  have hg := Grown.of_fresh hf
  have hsound := ht.sound.extend (ht.sound.orderly.putNamespace rfl) (Nat.le_of_lt hf.size_lt)
    fun _ hi => hf.kind_of_lt hi
  have hlistings : r.listings = [⟨.ns, r.name, r.name, none⟩] ++
      r.children.filterMap (·.head.listingBelow? r.name) := by
    rw [Record.listings, hr]
    rfl
  rw [hlistings, List.append_assoc] at ht
  have hname : (d.hierarchy.putNamespace (ofHead r.head (.ns info) r.name r.name)).fullName
      d.hierarchy.size = r.name := by
    rw [Hierarchy.fullName, hf.element_new]
    rfl
  have ht₁ := ht.grow hg rfl hsound (by
    change [Hierarchy.listing _ _] = _
    unfold Hierarchy.listing
    rw [hname, hf.kind_new, hf.element_new, hf.owner_new]
    rfl) (by rintro l hl hk; rw [List.mem_singleton.1 hl] at hk; cases hk)
  have hchildren := outcome_ingestChildren (q := d.hierarchy.size) (d := { d with
    hierarchy := d.hierarchy.putNamespace (ofHead r.head (.ns info) r.name r.name) })
    r.children hf.size_lt hf.kind_new hname ht₁
  rw [ingestNamespace_run hc]
  exact (hchildren.bind fun _ _ _ ht₂ _ => .enter ht₂).of_grown hg

theorem outcome_ingestEnum {r : Record} (hr : r.tag = .enum)
    (ht : Taking all pending (r.listings ++ ahead) d) :
    Outcome all pending ahead d (ingestEnum r d) := by
  obtain ⟨info, hc⟩ := content_of_tag_enum hr
  have hlistings : r.listings = [⟨.enum, (splitLast r.name).2, r.name, none⟩] := by
    rw [Record.listings, hr]
  rw [hlistings] at ht
  by_cases hdot : r.name.toList.head? = some '.'
  · rw [ingestEnum_leadingDot hdot]
    have hmem : (⟨.enum, (splitLast r.name).2, r.name, none⟩ : Listing) ∈ all := by
      rw [← ht.listings]
      simp
    exact .dotted hmem rfl hdot
  have hf : d.hierarchy.Fresh _ .root (enumOf r.head info) := .putEnum
  have hg := Grown.of_fresh hf
  have hsound := ht.sound.extend (ht.sound.orderly.putEnum rfl) (Nat.le_of_lt hf.size_lt)
    fun _ hi => hf.kind_of_lt hi
  have ht₁ : Taking all (d.hierarchy.size :: pending) ahead _ := ht.grow hg rfl hsound (by
    change [Hierarchy.listing _ _] = _
    unfold Hierarchy.listing
    rw [Hierarchy.fullName, hf.kind_new, hf.element_new, hf.owner_new]
    rfl) (by rintro l hl -; rw [List.mem_singleton.1 hl]; exact hdot)
  have hkind : (d.hierarchy.putEnum (enumOf r.head info)).kind d.hierarchy.size ≠ .ns := by
    rw [hf.kind_new]
    intro hns
    cases hns
  obtain ⟨d₂, hchildren, hg₂, hindex₂⟩ := ingestChildren_below (q := d.hierarchy.size)
    (d := { d with hierarchy := d.hierarchy.putEnum (enumOf r.head info) })
    r.children hf.size_lt hkind hsound
  have ht₂ : Taking all (d.hierarchy.size :: pending) ahead d₂ :=
    ht₁.still hg₂ hindex₂ (sound_of_ingestChildren hsound hf.size_lt hchildren)
  rw [ingestEnum_run hc hdot, bind_run, hchildren]
  exact (Outcome.enter ht₂).of_grown (hg.trans hg₂)

/-- Taking a forest in ends with all it lists entered, or stops for one of two reasons. -/
theorem outcome_ingest {rs : List Record}
    (ht : Taking all pending (rs.flatMap Record.listings ++ ahead) d) :
    Outcome all pending ahead d (ingest rs d) := by
  induction rs generalizing d with
  | nil => exact .done ht (.refl d)
  | cons r rs ih =>
    rw [List.flatMap_cons, List.append_assoc] at ht
    change Outcome all pending ahead d ((_ >>= fun _ => ingest rs) d)
    have hfirst : Outcome all pending (rs.flatMap Record.listings ++ ahead) d
        ((match r.tag with
          | .ns => ingestNamespace r
          | .enum => ingestEnum r
          | tag => notice (.unsupported r.name tag .top)) d) := by
      cases hr : r.tag with
      | ns => exact outcome_ingestNamespace hr ht
      | enum => exact outcome_ingestEnum hr ht
      | _ =>
        have hnone : r.listings = [] := by
          unfold Record.listings
          rw [hr]
        rw [hnone] at ht
        exact .notice ht
    exact hfirst.bind fun d₁ ids _ ht₁ _ => ih ht₁

theorem Taking.blank (rs : List Record) (policy : ClashPolicy) :
    Taking (rs.flatMap Record.listings) [] (rs.flatMap Record.listings)
      { registry := .empty policy } where
  sound := ⟨.nil, .empty⟩
  listings := rfl
  nodup := .nil
  indexed _ hi := absurd hi List.not_mem_nil
  entered hi _ := absurd (Hierarchy.mem_indexed.1 hi).1 (Nat.not_lt_zero _)
  keyed := .empty
  traced u _ _ he := by cases u <;> cases he
  shown hi _ := absurd (Hierarchy.mem_indexed.1 hi).1 (Nat.not_lt_zero _)
  plain _ _ _ he := by cases he
  nonempty := fun ⟨_, he⟩ => by cases he
  undotted _ hi := absurd (Hierarchy.mem_indexed.1 hi).1 (Nat.not_lt_zero _)

theorem outcome_blank (rs : List Record) (policy : ClashPolicy) :
    Outcome (rs.flatMap Record.listings) [] [] { registry := .empty policy }
      (ingest rs { registry := .empty policy }) := by
  refine outcome_ingest ?_
  rw [List.append_nil]
  exact .blank rs policy

/-- Where no two names are the same, taking in succeeds just when no name is empty and no enum's
starts with a dot. -/
theorem exists_ingest_iff {rs : List Record} {policy : ClashPolicy}
    (hn : ((rs.flatMap Record.listings).map Listing.fullName).Nodup) :
    (∃ d, ingest rs { registry := .empty policy } = .ok () d) ↔
      ∀ l ∈ rs.flatMap Record.listings,
        l.fullName ≠ "" ∧ (l.kind = .enum → l.fullName.toList.head? ≠ some '.') := by
  have ho := outcome_blank rs policy
  constructor
  · rintro ⟨d, hd⟩ l hl
    rw [hd] at ho
    cases ho with
    | done ht hg =>
      rw [← ht.listings, List.append_nil, Hierarchy.listings, List.mem_map] at hl
      obtain ⟨i, hi, rfl⟩ := hl
      have htaken := (ht.entered hi List.not_mem_nil).taken
      exact ⟨fun hempty => ht.nonempty (hempty ▸ htaken), ht.undotted i hi⟩
  · intro hall
    generalize hd : ingest rs { registry := .empty policy } = r at ho
    cases ho with
    | done ht hg => exact ⟨_, rfl⟩
    | dotted hl hk hdot => exact absurd hdot ((hall _ hl).2 hk)
    | @refused d' d₁ i later rest failure ht he =>
      have hi := ht.indexed i List.mem_cons_self
      have hlisted : d₁.hierarchy.listing i ∈ rs.flatMap Record.listings := by
        rw [← ht.listings]
        exact List.mem_append_left _ (List.mem_map_of_mem hi)
      obtain ⟨r, hr⟩ := addNative_error he
      obtain ⟨hempty, -⟩ | ⟨existing, hway, -⟩ := Registry.insert_error hr
      · exact absurd hempty (hall _ hlisted).1
      · -- What is in the way has been entered under the same name.
        rw [Index.inTheWay?, Option.filter_eq_some_iff] at hway
        obtain ⟨hkey, hnot⟩ := ht.plain hn hway.1
        have hid := eq_of_fullName (ht.nodup_listings hn)
          (mem_indexed_of_points (t := .native) ht.sound.points hway.1) hi hkey.symm
        exact absurd (hid ▸ List.mem_cons_self) hnot

theorem taking_of_ingest {rs : List Record} {policy : ClashPolicy}
    (hd : ingest rs { registry := .empty policy } = .ok () d) :
    Taking (rs.flatMap Record.listings) [] [] d := by
  have ho := outcome_blank rs policy
  rw [hd] at ho
  cases ho with
  | done ht => exact ht

end Build

end BindingTree
