import BindingTree.Proofs.Build.ManagedLookups

/-! Markers at the end of a build. No pass but the last sets any, and the last one comes to each element
that is reached once, so each has at most the one marker of its kind. The name under which a type is
registered is put together anew from its owners' names. Types of records compose, and so do the
types above them, so this name is the type's full name, whatever the type was listed as. -/

namespace BindingTree

open Build Naming

/-- The name under which a type is registered whose full name adds a rest to that of its namespace. -/
def registeredName (ns rest : String) : String := withoutDots '/' ns ++ "/" ++ withoutDots '$' rest

/-- An element has the one marker that its kind asks for if it stands for a record, and none
otherwise. -/
structure Hierarchy.Marked (h : Hierarchy) (i : ElementId) : Prop where
  type : (h.element i).isBound = true → h.kind i = .cls ∨ h.kind i = .iface → ∃ ns rest,
    (∀ a, a ∈ h.ancestors i ∧ h.kind a = .ns ↔ a = ns) ∧
      h.fullName i = h.fullName ns ++ "." ++ rest ∧
        (h.element i).markers = [.register {
          name := registeredName (h.fullName ns) rest
          skipWrapper := true
          apiSince := apiLevel (h.element i) }]
  member : (h.element i).isBound = true → h.kind i = .method ∨ h.kind i = .field →
    (h.element i).markers = [.register {
      name := (h.element i).name
      signature := (h.element i).jniSignature
      apiSince := apiLevel (h.element i) }]
  ctor : (h.element i).isBound = true → h.kind i = .ctor → (h.element i).markers = [.register {
    name := "<init>"
    signature := (h.element i).jniSignature
    apiSince := apiLevel (h.element i) }]
  ns : (h.element i).isBound = true → h.kind i = .ns → ∃ managed,
    (h.element i).fullManagedName = some managed ∧
      (h.element i).markers = [.mapping (h.fullName i) managed]
  other : (h.element i).isBound = false ∨
    h.kind i ∉ [Kind.ns, .cls, .iface, .method, .field, .ctor] → (h.element i).markers = []

variable {p : Plan} {rs : List Record} {s : Settings} {t : Translator}
  {d d' d₁ d₂ d₃ d₄ d₅ d₆ : Draft} {h h' h'' : Hierarchy} {i j n : ElementId} {l : List ElementId}

namespace Build

/-! ### Before the last pass -/

/-- No element has a marker. -/
def Unmarked (h : Hierarchy) : Prop := ∀ i, (h.element i).markers = []

theorem markers_withFacts (f : TypeFacts → TypeFacts) (e : Element) :
    (e.withFacts f).markers = e.markers := by
  unfold Element.withFacts
  split <;> rfl

theorem Unmarked.modify {f : Element → Element} (hu : Unmarked h)
    (hf : ∀ e, (f e).markers = e.markers) : Unmarked (h.modify i f) := fun _ =>
  (Hierarchy.congr_element_modify Element.markers hf).trans (hu _)

theorem Unmarked.congr (hu : Unmarked h) (he : h'.element = h.element) : Unmarked h' := by
  intro i
  rw [he]
  exact hu i

theorem unmarked_blank : Unmarked p.blank.hierarchy := by
  intro i
  rw [Hierarchy.element, Hierarchy.node_of_size_le (Nat.zero_le i)]
  rfl

theorem TypesNested.unmarked (ht : TypesNested d h') (hu : Unmarked d.hierarchy) : Unmarked h' := by
  intro i
  obtain ⟨name, hname⟩ := ht.named i
  rw [hname]
  exact hu i

theorem unmarked_of_forM {f : ElementId → Build Unit}
    (hf : ∀ {i : ElementId} {d d' : Draft}, f i d = .ok () d' → Unmarked d.hierarchy →
      Unmarked d'.hierarchy) (hd : l.forM f d = .ok () d') (hu : Unmarked d.hierarchy) :
    Unmarked d'.hierarchy :=
  forM_ok (I := fun _ d => Unmarked d.hierarchy) (fun _ _ _ _ hu hi => hf hi hu) hu hd

theorem unmarked_of_assign (hd : assignManagedName t i d = .ok () d') (hu : Unmarked d.hierarchy) :
    Unmarked d'.hierarchy := by
  obtain ⟨managed, r, -, rfl, -⟩ := assignManagedName_ok hd
  exact hu.modify fun _ => rfl

theorem unmarked_of_rename (hd : renameEnum t i d = .ok () d') (hu : Unmarked d.hierarchy) :
    Unmarked d'.hierarchy := by
  obtain ⟨r, -, hnames⟩ := renameEnum_ok hd
  have hfull : Unmarked (fullyNamed d.hierarchy i) := hu.modify fun _ => rfl
  exact unmarked_of_forM unmarked_of_assign hnames hfull

theorem unmarked_of_nestEnums (hs : d.Sound) (hd : nestEnums t d = .ok () d')
    (hu : Unmarked d.hierarchy) : Unmarked d'.hierarchy := by
  obtain ⟨-, h₁, hmade, hrename⟩ := nestEnums_moves hs hd
  refine unmarked_of_forM unmarked_of_rename hrename (hu.congr ?_)
  exact (Moves.sameElements_makeAll hmade).element

theorem unmarked_of_makeInvoker (hd : makeInvoker p i d = .ok () d') (hu : Unmarked d.hierarchy) :
    Unmarked d'.hierarchy := by
  obtain ⟨q, d₁, r, hq, hassign, -, rfl⟩ := makeInvoker_ok hd
  have hbeside : Unmarked (besideInterface p d.hierarchy q i) :=
    Hierarchy.Fresh.putBelow.forall_element (P := fun e => e.markers = []) rfl hu
  exact (unmarked_of_assign hassign hbeside).modify (markers_withFacts _)

theorem unmarked_of_resolveBases (hd : resolveBases s i d = .ok () d') (hu : Unmarked d.hierarchy) :
    Unmarked d'.hierarchy := by
  rcases resolveBases_ok hd with rfl | ⟨bases, rfl⟩
  · exact hu
  · exact hu.modify (markers_withFacts _)

theorem unmarked_of_resolveBaseTypes (hd : resolveBaseTypes s d = .ok () d')
    (hu : Unmarked d.hierarchy) : Unmarked d'.hierarchy := by
  obtain ⟨_, _, hh, hrest⟩ := bind_ok.1 hd
  obtain ⟨rfl, rfl⟩ := hierarchy_ok.1 hh
  obtain ⟨_, d₁, hbases, hremove⟩ := bind_ok.1 hrest
  have hu₁ := unmarked_of_forM unmarked_of_resolveBases hbases hu
  obtain ⟨_, _, hh₁, hedit⟩ := bind_ok.1 hremove
  obtain ⟨rfl, rfl⟩ := hierarchy_ok.1 hh₁
  obtain rfl := edit_ok.1 hedit
  refine List.foldlRecOn _ _ hu₁ fun h hu i _ => ?_
  unfold removeFromOwner
  split
  · exact hu.congr (funext fun _ => Hierarchy.element_detach)
  · exact hu

end Build

/-- When the last pass begins, nothing is marked. -/
theorem Stages.exists_unmarked (hst : Stages p rs d₁ d₂ d₃ d₄ d₅ d₆ d') :
    ∃ base, base.Sound ∧ Unmarked base.hierarchy ∧ mark base = .ok () d' := by
  have h₂ : Unmarked d₂.hierarchy :=
    supported_induction (I := fun d => Unmarked d.hierarchy) (intake_of_ingest hst.ingest) hst.support
      unmarked_blank
      (fun hs _ => hs.forall_element (P := fun e => e.markers = []) (fun _ _ _ _ _ _ => rfl)
        (fun _ _ he => he) fun f e he => (markers_withFacts f e).trans he)
      fun hs _ => hs.forall_element (P := fun e => e.markers = []) (fun _ => rfl)
        (fun _ _ _ _ => rfl) fun _ _ he => he
  have h₄ := unmarked_of_forM unmarked_of_assign hst.names (hst.types.unmarked h₂)
  have h₅ := unmarked_of_nestEnums hst.sound_named hst.nesting h₄
  obtain ⟨_, _, hh, hmake⟩ := bind_ok.1 hst.calling
  obtain ⟨rfl, rfl⟩ := hierarchy_ok.1 hh
  have h₆ := unmarked_of_forM unmarked_of_makeInvoker hmake h₅
  obtain ⟨base, hbases, hmark⟩ := hst.ending
  exact ⟨base, (resolveBaseTypes_ok hst.sound_called hbases).1,
    unmarked_of_resolveBaseTypes hbases h₆, hmark⟩

/-! ### The last pass -/

namespace Build

section Kinds
/- What is marked, kind by kind. -/

theorem marker?_of_type (hk : h.kind i = .cls ∨ h.kind i = .iface) :
    marker? h i = some (.register {
      name := nativeTypeName h i
      skipWrapper := true
      apiSince := apiLevel (h.element i) }) := by
  unfold Hierarchy.kind at hk
  rcases hk with hk | hk <;> simp only [marker?, hk]

theorem marker?_of_member (hk : h.kind i = .method ∨ h.kind i = .field) :
    marker? h i = some (.register {
      name := (h.element i).name
      signature := (h.element i).jniSignature
      apiSince := apiLevel (h.element i) }) := by
  unfold Hierarchy.kind at hk
  rcases hk with hk | hk <;> simp only [marker?, hk]

theorem marker?_of_ctor (hk : h.kind i = .ctor) : marker? h i = some (.register {
    name := "<init>"
    signature := (h.element i).jniSignature
    apiSince := apiLevel (h.element i) }) := by
  unfold Hierarchy.kind at hk
  simp only [marker?, hk]

theorem marker?_of_ns (hk : h.kind i = .ns) :
    marker? h i = some (.mapping (h.fullName i) (h.element i).fullManagedText) := by
  unfold Hierarchy.kind at hk
  simp only [marker?, hk, Hierarchy.fullName]

theorem marker?_of_other (hk : h.kind i ∉ [Kind.ns, .cls, .iface, .method, .field, .ctor]) :
    marker? h i = none := by
  unfold Hierarchy.kind at hk
  unfold marker?
  cases hkind : (h.element i).kind <;> simp [hkind] at hk ⊢

end Kinds

/-- Two hierarchies that differ in markers alone. -/
structure Remarked (h h' : Hierarchy) : Prop extends h.SameNative h' where
  element : ∀ i, ∃ markers, h'.element i = { h.element i with markers }

/-- The markers of an element that stands for a record, and none otherwise. -/
def markersOf (h : Hierarchy) (i : ElementId) : List Marker :=
  if (h.element i).isBound then (marker? h i).toList else []

namespace Remarked

theorem refl (h : Hierarchy) : Remarked h h := ⟨.refl h, fun _ => ⟨_, rfl⟩⟩

theorem trans (h₁ : Remarked h h') (h₂ : Remarked h' h'') : Remarked h h'' := by
  refine ⟨h₁.toSameNative.trans h₂.toSameNative, fun i => ?_⟩
  obtain ⟨_, he₁⟩ := h₁.element i
  obtain ⟨markers, he₂⟩ := h₂.element i
  exact ⟨markers, by rw [he₂, he₁]⟩

variable (hr : Remarked h h')
include hr

theorem nativeTypeName : nativeTypeName h' i = Build.nativeTypeName h i := by
  have hname : ∀ j, (h'.element j).name = (h.element j).name := fun _ => hr.toSameNative.name
  have hfull : ∀ j, h'.fullName j = h.fullName j := fun _ => hr.toSameNative.fullName
  simp only [Build.nativeTypeName, hr.ancestors, hr.kind, hname, hfull]

theorem marker? : marker? h' i = Build.marker? h i := by
  obtain ⟨markers, he⟩ := hr.element i
  unfold Build.marker?
  rw [hr.nativeTypeName, he]
  rfl

theorem markersOf : markersOf h' i = Build.markersOf h i := by
  rw [Build.markersOf, hr.toSameNative.isBound, hr.marker?, Build.markersOf]

end Remarked

theorem remarked_markElement : Remarked h (markElement h i) := by
  obtain ⟨hsame, hfinished⟩ := finished_markElement (h := h) (i := i)
  refine ⟨⟨hsame, hfinished.native⟩, fun j => ?_⟩
  have hmark : ∀ (a : Marker) (e : Element), ∃ markers, e.mark a = { e with markers } := by
    intro a e
    unfold Element.mark
    split
    · exact ⟨e.markers, rfl⟩
    · exact ⟨_, rfl⟩
  unfold markElement
  split
  · split
    next a _ =>
      rw [Hierarchy.element_modify]
      split
      · exact hmark a _
      · exact ⟨_, rfl⟩
    next => exact ⟨_, rfl⟩
  · exact ⟨_, rfl⟩

theorem remarked_foldl_mark : Remarked h (l.foldl markElement h) := by
  refine List.foldlRecOn _ _ (.refl h) fun h' hr i _ => ?_
  exact hr.trans remarked_markElement

theorem element_markElement_of_ne (hj : j ≠ i) : (markElement h i).element j = h.element j := by
  unfold markElement
  split
  · split
    · exact Hierarchy.element_modify_of_ne hj
    · rfl
  · rfl

theorem markers_markElement (hi : i < h.size) (hu : (h.element i).markers = []) :
    ((markElement h i).element i).markers = markersOf h i := by
  unfold markElement markersOf
  split
  · cases marker? h i with
    | some a => simp [Hierarchy.element_modify_self hi, Element.mark, hu]
    | none => exact hu
  · exact hu

theorem element_foldl_mark (hi : i ∉ l) : (l.foldl markElement h).element i = h.element i := by
  induction l generalizing h with
  | nil => rfl
  | cons j l ih =>
    rw [List.mem_cons, not_or] at hi
    rw [List.foldl_cons, ih hi.2, element_markElement_of_ne hi.1]

/-- An element without markers gets those of its own when the pass comes to it, and comes to it
once. -/
theorem markers_foldl_mark (hn : l.Nodup) (hl : ∀ j ∈ l, j < h.size)
    (hu : ∀ j ∈ l, (h.element j).markers = []) (hi : i ∈ l) :
    ((l.foldl markElement h).element i).markers = markersOf h i := by
  induction l generalizing h with
  | nil => cases hi
  | cons j l ih =>
    obtain ⟨hnot, hn⟩ := List.nodup_cons.1 hn
    have hmarked := remarked_markElement (h := h) (i := j)
    rw [List.foldl_cons]
    rcases List.mem_cons.1 hi with rfl | hi
    · rw [element_foldl_mark hnot]
      exact markers_markElement (hl i List.mem_cons_self) (hu i List.mem_cons_self)
    · refine (ih hn (fun k hk => ?_) (fun k hk => ?_) hi).trans hmarked.markersOf
      · rw [hmarked.size]
        exact hl k (List.mem_cons_of_mem j hk)
      · rw [element_markElement_of_ne fun hkj : k = j => hnot (hkj ▸ hk)]
        exact hu k (List.mem_cons_of_mem j hk)

end Build

/-- In the end what is reached has its own markers. -/
theorem Stages.markers_finished (hst : Stages p rs d₁ d₂ d₃ d₄ d₅ d₆ d')
    (hi : i ∈ d'.hierarchy.walkAll) :
    (d'.hierarchy.element i).markers = markersOf d'.hierarchy i := by
  obtain ⟨base, hs, hu, hmark⟩ := hst.exists_unmarked
  obtain rfl := edit_ok.1 hmark
  have hr := remarked_foldl_mark (h := base.hierarchy) (l := base.hierarchy.walkAll)
  have ho := hs.orderly
  have hmem : i ∈ base.hierarchy.walkAll := by
    rw [ho.mem_walkAll_iff, ← hr.owner, ← hst.sound_finished.orderly.mem_walkAll_iff]
    exact hi
  refine (markers_foldl_mark ho.nodup_walkAll (fun _ => ho.lt_size_of_mem_walkAll) (fun j _ => hu j)
    hmem).trans ?_
  exact hr.markersOf.symm

/-! ### Names of types -/

theorem withoutDots_append (c : Char) (a b : String) :
    withoutDots c (a ++ b) = withoutDots c a ++ withoutDots c b := by
  simp [withoutDots]

/-- The names of a type and of the types above it, up to the namespace, from the top down. -/
def Hierarchy.nestedName (h : Hierarchy) (i : ElementId) : String :=
  "$".intercalate ((i :: (h.ancestors i).takeWhile fun j => h.kind j ≠ .ns).reverse.map
    fun j => withoutDots '$' (h.element j).name)

/-- A type's full name adds a rest to that of the one namespace above it, as the names of the types
on the way do. -/
structure Hierarchy.NamedWithin (h : Hierarchy) (n i : ElementId) (rest : String) : Prop where
  found : (h.ancestors i).find? (fun j => h.kind j = .ns) = some n
  sole : ∀ a, a ∈ h.ancestors i ∧ h.kind a = .ns ↔ a = n
  fullName : h.fullName i = h.fullName n ++ "." ++ rest
  nested : h.nestedName i = withoutDots '$' rest

namespace Hierarchy.NamedWithin

variable {q : ElementId} {rest : String}

theorem of_ns (ho : h.Orderly) (hi : h.owner i = .element n) (hk : h.kind n = .ns)
    (hc : h.Composed i) : h.NamedWithin n i (h.element i).name := by
  have hancestors : h.ancestors i = [n] := by
    rw [ho.ancestors_of_owner hi, Grounded.ancestors_eq_nil fun _ => ho.owner_of_ns hk]
  refine ⟨?_, fun a => ?_, (composed_iff_of_owner hi).1 hc, ?_⟩
  · simp [hancestors, hk]
  · rw [hancestors, List.mem_singleton]
    exact ⟨And.left, fun ha => ⟨ha, ha ▸ hk⟩⟩
  · simp [nestedName, hancestors, hk]

theorem below (hq : h.NamedWithin n q rest) (hg : h.Grounded) (hi : h.owner i = .element q)
    (hk : h.kind q ≠ .ns) (hc : h.Composed i) :
    h.NamedWithin n i (rest ++ "." ++ (h.element i).name) := by
  have hancestors := hg.ancestors_of_owner hi
  refine ⟨?_, fun a => ?_, ?_, ?_⟩
  · rw [hancestors, List.find?_cons_of_neg (by simpa using hk)]
    exact hq.found
  · rw [hancestors, List.mem_cons, ← hq.sole]
    constructor
    · rintro ⟨rfl | ha, hka⟩
      · exact absurd hka hk
      · exact ⟨ha, hka⟩
    · exact fun ⟨ha, hka⟩ => ⟨.inr ha, hka⟩
  · rw [(composed_iff_of_owner hi).1 hc, hq.fullName]
    simp only [String.append_assoc]
  · have hnested := hq.nested
    unfold nestedName at hnested ⊢
    rw [hancestors, List.takeWhile_cons_of_pos (by simpa using hk), List.reverse_cons,
      List.map_append, String.intercalate_append_of_ne_nil (by simp) (by simp), hnested,
      withoutDots_append, withoutDots_append]
    rfl

theorem nativeTypeName (hi : h.NamedWithin n i rest) (hn : h.fullName n ≠ "") :
    nativeTypeName h i = registeredName (h.fullName n) rest := by
  have hnested := hi.nested
  unfold nestedName at hnested
  unfold Build.nativeTypeName
  simp only [hi.found, hn, if_false]
  rw [hnested, registeredName]

end Hierarchy.NamedWithin

section Types
variable (ho : h.Orderly) (hk : h.kind i = .cls ∨ h.kind i = .iface)
include ho hk

theorem Hierarchy.Orderly.kind_of_owns_type {q : ElementId} (hq : h.owner i = .element q) :
    h.kind q = .ns ∨ h.kind q = .cls := by
  have hfits := ho.fits hq
  rcases hk with hk | hk <;> rw [hk] at hfits <;> revert hfits <;> cases h.kind q <;> decide

theorem Hierarchy.Orderly.outsideEnums : h.OutsideEnums i := by
  refine ⟨by rcases hk with hk | hk <;> simp [hk], fun q hq => ?_⟩
  rcases ho.kind_of_owns_type hk hq with hkq | hkq <;> simp [hkq]

end Types

/-- Classes and interfaces have a namespace above them, and composed names up to there. -/
theorem Hierarchy.AllSettled.exists_namedWithin (hall : h.AllSettled) (ho : h.Orderly)
    (i : ElementId) : h.owner i ≠ .detached → h.kind i = .cls ∨ h.kind i = .iface → h.Composed i →
      ∃ n rest, h.NamedWithin n i rest := by
  induction i using ho.owner_induction with
  | step i ih =>
    intro hi hk hc
    have henum := (ho.outsideEnums hk).1
    have hns : h.kind i ≠ .ns := by rcases hk with hk | hk <;> simp [hk]
    obtain ⟨q, hq⟩ := ho.exists_owner hi hns henum
    rcases ho.kind_of_owns_type hk hq with hkq | hkq
    · exact ⟨q, _, .of_ns ho hq hkq hc⟩
    · have hcomposed := hall.composed_of_owns ho (ho.outsideEnums (.inl hkq)) hq henum
      obtain ⟨n, rest, hn⟩ := ih q hq (ho.owner_ne_detached_of_owns hq) (.inl hkq) hcomposed
      exact ⟨n, _, hn.below ho.toGrounded hq (by simp [hkq]) hc⟩

/-! ### The whole build -/

namespace Stages

variable (hst : Stages p rs d₁ d₂ d₃ d₄ d₅ d₆ d') (hi : i ∈ d'.hierarchy.walkAll)
include hst hi

theorem fullName_ne_empty_of_ns (hk : d'.hierarchy.kind i = .ns) : d'.hierarchy.fullName i ≠ "" := by
  obtain ⟨hmem, hkind⟩ := hst.named_of_mem_walkAll hi (by rw [hk]; rfl) (by simp [hk])
  have hkept := (hst.kept_of_named hmem (by simp [hkind, hk])).2 .native
  exact fun hempty => hst.enclosed.fullName_ne_empty hmem (hkept.symm.trans hempty)

/-- A type of a record is registered under its full name. -/
theorem nativeTypeName_finished (hc : Colonfree p rs)
    (hbound : (d'.hierarchy.element i).isBound = true)
    (hk : d'.hierarchy.kind i = .cls ∨ d'.hierarchy.kind i = .iface) :
    ∃ n rest, d'.hierarchy.NamedWithin n i rest ∧
      nativeTypeName d'.hierarchy i = registeredName (d'.hierarchy.fullName n) rest := by
  have ho := hst.sound_finished.orderly
  have hatt := ho.mem_walkAll_iff.1 hi
  have hall := hst.allSettled_finished hc
  have hcomposed := (hall i hatt (ho.outsideEnums hk)).composed
    (Hierarchy.not_supports_of_isBound hbound)
  obtain ⟨n, rest, hn⟩ := hall.exists_namedWithin ho i hatt hk hcomposed
  obtain ⟨hmem, hns⟩ := (hn.sole n).2 rfl
  have hreached : n ∈ d'.hierarchy.walkAll :=
    ho.mem_walkAll_iff.2 (ho.attached_of_covers (.inr (ho.mem_ancestors.1 hmem)) hatt)
  exact ⟨n, rest, hn, hn.nativeTypeName (hst.fullName_ne_empty_of_ns hreached hns)⟩

end Stages

/-- At the end of a build every element that is reached has the marker that its kind and its names ask
for if it stands for a record, and has no other. -/
theorem marked_of_build (hc : Colonfree p rs) (hb : (p.build rs).result = .ok h)
    (hi : i ∈ h.walkAll) : h.Marked i := by
  obtain ⟨d, hd, rfl⟩ := build_ok hb
  obtain ⟨d₁, d₂, d₃, d₄, d₅, d₆, hst⟩ := stages_of_passes hd
  have hmarkers := hst.markers_finished hi
  have hbounds : (d.hierarchy.element i).isBound = true →
      (d.hierarchy.element i).markers = (marker? d.hierarchy i).toList := fun hbound => by
    rw [hmarkers, markersOf, if_pos hbound]
  constructor
  case type =>
    intro hbound hk
    obtain ⟨n, rest, hn, hname⟩ := hst.nativeTypeName_finished hi hc hbound hk
    refine ⟨n, rest, hn.sole, hn.fullName, ?_⟩
    rw [hbounds hbound, marker?_of_type hk, hname]
    rfl
  case member =>
    intro hbound hk
    rw [hbounds hbound, marker?_of_member hk]
    rfl
  case ctor =>
    intro hbound hk
    rw [hbounds hbound, marker?_of_ctor hk]
    rfl
  case ns =>
    intro hbound hk
    have hatt := hst.sound_finished.orderly.mem_walkAll_iff.1 hi
    obtain ⟨managed, -, hmanaged⟩ := hst.managed_finished hatt
    refine ⟨_, hmanaged, ?_⟩
    rw [hbounds hbound, marker?_of_ns hk, Element.fullManagedText, hmanaged]
    rfl
  case other =>
    rintro (hbound | hk)
    · rw [hmarkers, markersOf, hbound]
      rfl
    · rw [hmarkers, markersOf, marker?_of_other hk]
      exact ite_self _

/-- A class that was listed under a dotted name and is nested. -/
theorem marked_of_sample : ∃ h, (samplePlan.build sampleRecords).result = .ok h ∧ 4 ∈ h.walkAll ∧
    h.Marked 4 ∧ (h.element 4).markers =
      [.register { name := registeredName "a.b" "Outer.Inner", skipWrapper := true }] ∧
        registeredName "a.b" "Outer.Inner" = "a/b/Outer$Inner" := by
  obtain ⟨h, hb, hq⟩ := exists_built samplePlan sampleRecords
    (fun h => decide (4 ∈ h.walkAll) && decide ((h.element 4).markers =
      [.register { name := registeredName "a.b" "Outer.Inner", skipWrapper := true }]))
    (by decide +kernel)
  rw [Bool.and_eq_true, decide_eq_true_eq, decide_eq_true_eq] at hq
  obtain ⟨hmem, hmarkers⟩ := hq
  exact ⟨h, hb, hmem, marked_of_build colonfree_sample hb hmem, hmarkers, by decide +kernel⟩

end BindingTree
