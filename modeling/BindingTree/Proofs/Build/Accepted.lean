import BindingTree.Proofs.Build.Passes
import BindingTree.Proofs.Build.Steps

/-! No record is lost and none is taken in twice. The records that are met in a forest are those at
the top and those below an accepted one. Taking a forest in makes one element for each accepted
record, in preorder, and reports each rejected one; what comes later keeps these elements, with all
they have from their records, and takes nothing out but the records of implemented interfaces. -/

namespace BindingTree

open Build

/-! ### Which records are accepted -/

/-- The kind of element that a record with a tag asks for. -/
def Tag.kind? : Tag → Option Kind
  | .ns => some .ns
  | .cls => some .cls
  | .iface => some .iface
  | .enum => some .enum
  | .field => some .field
  | .ctor => some .ctor
  | .method => some .method
  | .implements => some .implements
  | .typeParam => some .typeParam
  | .constraint => some .constraint
  | .param => some .param
  | .exception => some .exception
  | .unsupported => none

/-- Whether a record with a tag is accepted at the top, or below an element of a kind. -/
def Tag.acceptedAt : Option Kind → Tag → Bool
  | none, t => t = .ns || t = .enum
  | some k, t => accepts k t

namespace Record

mutual

/-- The records met from a record on, in preorder, each with whether it is accepted. Below a
rejected record none is met. -/
def met (site : Option Kind) : Record → List (Head × Bool)
  | ⟨head, children⟩ =>
    if head.content.tag.acceptedAt site then (head, true) :: metIn head.content.tag.kind? children
    else [(head, false)]

def metIn (site : Option Kind) : List Record → List (Head × Bool)
  | [] => []
  | r :: rs => r.met site ++ metIn site rs

end

def acceptedOf (seen : List (Head × Bool)) : List Head := (seen.filter (·.2)).map Prod.fst

def rejectedOf (seen : List (Head × Bool)) : List Head := (seen.filter (!·.2)).map Prod.fst

/-- The accepted records of a forest, in preorder. -/
def accepted (rs : List Record) : List Head := acceptedOf (metIn none rs)

/-- The rejected records of a forest that stand at the top or below an accepted one. -/
def rejected (rs : List Record) : List Head := rejectedOf (metIn none rs)

end Record

/-! ### Elements that stand for records -/

/-- Whether a payload holds what the content of a record says: all of it, and for a type its flags
and visibility. -/
def Payload.Holds : Payload → Content → Prop
  | .ns i, .ns j => i = j
  | .type .cls facts, .cls i => facts.info = i.type
  | .type .iface facts, .iface i => facts.info = i
  | .type .enum facts, .enum i => facts.info = i
  | .field i, .field j => i = j
  | .method i, .method j => i = j
  | .ctor i, .ctor j => i = j
  | .implements i, .implements j => i = j
  | .typeParam i, .typeParam j => i = j
  | .constraint i, .constraint j => i = j
  | .param i, .param j => i = j
  | .exception i, .exception j => i = j
  | _, _ => False

/-- Whether an element with some origin stands for a record. -/
structure Origin.StandsFor (o : Origin) (head : Record.Head) : Prop where
  kind : head.content.tag.kind? = some o.payload.kind
  isBound : o.isBound = true
  genericName : o.genericName = head.genericName
  jniSignature : o.jniSignature = head.jniSignature
  location : o.location = head.location
  deprecation : o.deprecation = head.deprecation
  apiSince : o.apiSince = head.apiSince
  apiUntil : o.apiUntil = head.apiUntil
  payload : o.payload.Holds head.content
  attributes : o.attributes = match head.mergeSource with
    | some source => head.attributes.insert mergeSourceKey source
    | none => head.attributes

variable {p : Plan} {rs : List Record} {s : Settings} {heads : List Record.Head}
  {d d' d₁ d₂ d₃ d₄ d₅ d₆ : Draft} {h h' : Hierarchy} {i j q : ElementId} {head : Record.Head}
  {payload : Payload} {seen seen' : List (Record.Head × Bool)}

theorem Payload.kind_bare (payload : Payload) : payload.bare.kind = payload.kind := by
  cases payload <;> rfl

theorem Element.kind_of_origin {e e' : Element} (he : e.origin = e'.origin) : e.kind = e'.kind := by
  have hbare := congrArg (fun o => o.payload.kind) he
  exact (Payload.kind_bare _).symm.trans (hbare.trans (Payload.kind_bare _))

theorem kind?_of_payload? (hp : payload? head.content = some payload) :
    head.content.tag.kind? = some payload.kind := by
  cases hc : head.content <;> rw [hc] at hp <;> cases hp <;> rfl

/-- The element of a record stands for it, whatever its names. -/
theorem standsFor_ofHead (hp : payload? head.content = some payload) (name fullName : String) :
    (ofHead head payload name fullName).origin.StandsFor head := by
  refine ⟨?_, rfl, rfl, rfl, rfl, rfl, rfl, rfl, ?_, rfl⟩
  · rw [kind?_of_payload? hp]
    exact congrArg some (Payload.kind_bare payload).symm
  · change payload.bare.Holds head.content
    cases hc : head.content <;> rw [hc] at hp <;> cases hp <;> rfl

/-! ### Origins in the order of elements -/

namespace Hierarchy

/-- What the elements have from their records, in the order in which they were made. -/
def origins (h : Hierarchy) : List Origin := h.ids.map fun i => (h.element i).origin

theorem length_origins : h.origins.length = h.size := by simp [origins, ids]

theorem getElem_origins (hi : i < h.origins.length) : h.origins[i] = (h.element i).origin := by
  simp [origins, ids]

theorem Fresh.origins {o : Owner} {e : Element} (hf : Fresh h h' o e) :
    h'.origins = h.origins ++ [e.origin] := by
  unfold Hierarchy.origins ids
  rw [hf.size, List.range_succ, List.map_append, List.map_singleton, hf.element_new]
  congr 1
  refine List.map_congr_left fun i hi => ?_
  rw [hf.element_of_lt (List.mem_range.1 hi)]

end Hierarchy

theorem Build.Kept.origins (hk : Kept d d') (hs : d'.hierarchy.size = d.hierarchy.size) :
    d'.hierarchy.origins = d.hierarchy.origins := by
  unfold Hierarchy.origins Hierarchy.ids
  rw [hs]
  exact List.map_congr_left fun i hi => hk.origin (List.mem_range.1 hi)

/-! ### Taking records in -/

namespace Build

/-- What comes of records that were met: one element for each accepted one, in order, and one report
for each rejected one. -/
structure TakenIn (seen : List (Record.Head × Bool)) (d d' : Draft) : Prop where
  origins : ∃ fresh, d'.hierarchy.origins = d.hierarchy.origins ++ fresh ∧
    List.Forall₂ Origin.StandsFor fresh (Record.acceptedOf seen)
  unsupported : unsupported d' = unsupported d + (Record.rejectedOf seen).length

namespace TakenIn

theorem of_kept (hk : Kept d d') (hs : d'.hierarchy.size = d.hierarchy.size) :
    TakenIn [] d d' where
  origins := ⟨[], by rw [hk.origins hs, List.append_nil], .nil⟩
  unsupported := hk.unsupported

theorem of_fresh {h' : Hierarchy} {o : Owner} {e : Element} (hf : d.hierarchy.Fresh h' o e)
    (he : e.origin.StandsFor head) : TakenIn [(head, true)] d { d with hierarchy := h' } where
  origins := ⟨[e.origin], hf.origins, .cons he .nil⟩
  unsupported := rfl

theorem trans {d'' : Draft} (h₁ : TakenIn seen d d') (h₂ : TakenIn seen' d' d'') :
    TakenIn (seen ++ seen') d d'' where
  origins := by
    obtain ⟨fresh₁, he₁, hf₁⟩ := h₁.origins
    obtain ⟨fresh₂, he₂, hf₂⟩ := h₂.origins
    refine ⟨fresh₁ ++ fresh₂, by rw [he₂, he₁, List.append_assoc], ?_⟩
    simp only [Record.acceptedOf, List.filter_append, List.map_append]
    exact List.rel_append hf₁ hf₂
  unsupported := by
    rw [h₂.unsupported, h₁.unsupported]
    simp [Record.rejectedOf, Nat.add_assoc]

theorem size_le (ht : TakenIn seen d d') : d.hierarchy.size ≤ d'.hierarchy.size := by
  obtain ⟨fresh, he, -⟩ := ht.origins
  rw [← Hierarchy.length_origins, ← Hierarchy.length_origins, he, List.length_append]
  exact Nat.le_add_right _ _

theorem kind (ht : TakenIn seen d d') (hi : i < d.hierarchy.size) :
    d'.hierarchy.kind i = d.hierarchy.kind i := by
  obtain ⟨fresh, he, -⟩ := ht.origins
  have hlt : i < d.hierarchy.origins.length := by rwa [Hierarchy.length_origins]
  have horigin : d'.hierarchy.origins[i]? = d.hierarchy.origins[i]? := by
    rw [he, List.getElem?_append_left hlt]
  rw [List.getElem?_eq_getElem hlt, List.getElem?_eq_some_iff] at horigin
  obtain ⟨hlt', heq⟩ := horigin
  rw [Hierarchy.getElem_origins, Hierarchy.getElem_origins] at heq
  exact Element.kind_of_origin heq

end TakenIn

theorem takenIn_addNative {u : Unit} (hd : addNative i d = .ok u d') : TakenIn [] d d' := by
  have hleads : Leads True (addNative i) := leads_addNative
  refine .of_kept (kept_of_steps (hleads.of_ok hd)) ?_
  obtain ⟨r, -, rfl⟩ := addNative_ok.1 hd
  rfl

theorem takenIn_inherit {u : Unit} (hd : inherit q head d = .ok u d') : TakenIn [] d d' := by
  rcases inherit_cases q head with he | ⟨name, -, -, he⟩
  · rw [he] at hd
    obtain ⟨-, rfl⟩ := pure_ok.1 hd
    exact .of_kept (.refl d) rfl
  · rw [he] at hd
    have hinfo : ∀ facts, (addBaseName name facts).info = facts.info := by
      intro facts
      unfold addBaseName
      split <;> rfl
    have hleads : Leads True (editElement q (Element.withFacts (addBaseName name))) :=
      leads_editElement (Element.origin_withFacts hinfo)
    refine .of_kept (kept_of_steps (hleads.of_ok hd)) ?_
    obtain rfl := editElement_ok.1 hd
    exact Hierarchy.size_modify

theorem takenIn_rejected {name : String} {tag : Tag} {place : Place} :
    TakenIn [(head, false)] d
      { d with registry := d.registry.notice (.unsupported name tag place) } where
  origins := ⟨[], (List.append_nil _).symm, .nil⟩
  unsupported := by simp [unsupported, Registry.notice, Notice.kind, Record.rejectedOf]

mutual

theorem takenIn_ingestChild {k : Kind} {q : ElementId} : ∀ (r : Record) {d d' : Draft},
    q < d.hierarchy.size → d.hierarchy.kind q = k → ingestChild q r d = .ok () d' →
      TakenIn (r.met (some k)) d d'
  | ⟨head, children⟩, d, d', hq, hk, hd => by
    simp only [ingestChild, bind_ok, element_ok] at hd
    obtain ⟨_, _, ⟨rfl, rfl⟩, hd⟩ := hd
    rw [← Hierarchy.kind, hk] at hd
    rw [Record.met, Tag.acceptedAt]
    split at hd
    next ha =>
      rw [if_pos ha]
      obtain ⟨id, d₁, hcreate, hd⟩ := bind_ok.1 hd
      obtain ⟨payload, hp, rfl, rfl⟩ := create_below_ok hcreate
      obtain ⟨_, d₂, hinherit, hd⟩ := bind_ok.1 hd
      obtain ⟨_, d₃, hchildren, hd⟩ := bind_ok.1 hd
      obtain ⟨_, _, he, hd⟩ := bind_ok.1 hd
      obtain ⟨rfl, rfl⟩ := element_ok.1 he
      have hfresh : d.hierarchy.Fresh _ (.element q) (elementBelow d.hierarchy q head payload) :=
        .putBelow
      have ht₁ := TakenIn.of_fresh hfresh (standsFor_ofHead hp _ _)
      have ht₂ := takenIn_inherit hinherit
      have hlt := Nat.lt_of_lt_of_le hfresh.size_lt ht₂.size_le
      have hkind : d₂.hierarchy.kind d.hierarchy.size = payload.kind := by
        rw [ht₂.kind hfresh.size_lt, hfresh.kind_new]
        rfl
      have ht₃ := takenIn_ingestChildren children hlt hkind hchildren
      have ht₄ : TakenIn [] d₃ d' := by
        split at hd
        · exact takenIn_addNative hd
        · obtain ⟨-, rfl⟩ := pure_ok.1 hd
          exact .of_kept (.refl _) rfl
      rw [kind?_of_payload? hp]
      simpa using ht₁.trans (ht₂.trans (ht₃.trans ht₄))
    next ha =>
      rw [if_neg ha]
      obtain rfl := notice_ok.1 hd
      exact takenIn_rejected

theorem takenIn_ingestChildren {k : Kind} {q : ElementId} : ∀ (rs : List Record) {d d' : Draft},
    q < d.hierarchy.size → d.hierarchy.kind q = k → ingestChildren q rs d = .ok () d' →
      TakenIn (Record.metIn (some k) rs) d d'
  | [], d, d', _, _, hd => by
    rw [ingestChildren] at hd
    obtain ⟨-, rfl⟩ := pure_ok.1 hd
    exact .of_kept (.refl d) rfl
  | r :: rs, d, d', hq, hk, hd => by
    rw [ingestChildren] at hd
    obtain ⟨_, d₁, hr, hd⟩ := bind_ok.1 hd
    have ht := takenIn_ingestChild r hq hk hr
    exact ht.trans (takenIn_ingestChildren rs (Nat.lt_of_lt_of_le hq ht.size_le)
      ((ht.kind hq).trans hk) hd)

end

/-- A record at the top whose element has been made. -/
theorem takenIn_top {r : Record} {h' : Hierarchy} {o : Owner} {e : Element}
    (hf : d.hierarchy.Fresh h' o e) (he : e.origin.StandsFor r.head)
    (hsite : r.tag.acceptedAt none = true)
    (hd : (do
      ingestChildren d.hierarchy.size r.children
      addNative d.hierarchy.size) { d with hierarchy := h' } = .ok () d') :
    TakenIn (r.met none) d d' := by
  obtain ⟨head, children⟩ := r
  obtain ⟨_, d₁, hchildren, hadd⟩ := bind_ok.1 hd
  have hkind : h'.kind d.hierarchy.size = e.kind := hf.kind_new
  have ht₁ := TakenIn.of_fresh hf he
  have ht₂ := takenIn_ingestChildren children (d := { d with hierarchy := h' }) hf.size_lt hkind
    hchildren
  have hk : head.content.tag.kind? = some e.kind := by
    rw [he.kind]
    exact congrArg some (Payload.kind_bare e.payload)
  have hsite' : head.content.tag.acceptedAt none = true := hsite
  rw [Record.met, if_pos hsite', hk]
  simpa using ht₁.trans (ht₂.trans (takenIn_addNative hadd))

theorem takenIn_ingest (hd : ingest rs d = .ok () d') : TakenIn (Record.metIn none rs) d d' := by
  induction rs generalizing d with
  | nil =>
    obtain ⟨-, rfl⟩ := pure_ok.1 hd
    exact .of_kept (.refl d) rfl
  | cons r rs ih =>
    obtain ⟨d₁, hr, hrest⟩ := ingest_cons hd
    refine TakenIn.trans ?_ (ih hrest)
    rcases hr with ⟨ht, hr⟩ | ⟨ht, hr⟩ | ⟨hns, henum, rfl⟩
    · obtain ⟨info, hc⟩ := content_of_tag_ns ht
      rw [ingestNamespace_run hc] at hr
      refine takenIn_top .putNamespace (standsFor_ofHead ?_ _ _) (by rw [ht]; rfl) hr
      rw [← Record.content, hc]
      rfl
    · obtain ⟨info, hc⟩ := content_of_tag_enum ht
      by_cases hdot : r.name.toList.head? = some '.'
      · rw [ingestEnum_leadingDot hdot] at hr
        cases hr
      rw [ingestEnum_run hc hdot] at hr
      have hp : payload? r.head.content = some (.type .enum { info, basesFixed := true }) := by
        rw [← Record.content, hc]
        rfl
      have he : (enumOf r.head info).origin.StandsFor r.head :=
        standsFor_ofHead hp r.head.name r.head.name
      exact takenIn_top .putEnum he (by rw [ht]; rfl) hr
    · obtain ⟨head, children⟩ := r
      have hsite : ¬ head.content.tag.acceptedAt none = true := by
        have hns' : head.content.tag ≠ .ns := hns
        have henum' : head.content.tag ≠ .enum := henum
        simp [Tag.acceptedAt, hns', henum']
      rw [Record.met, if_neg hsite]
      exact takenIn_rejected

/-- After the records are taken in, elements keep what they have from them. -/
theorem kept_of_passes (hd : p.passes rs p.blank = .ok () d') :
    ∃ d₁, ingest rs p.blank = .ok () d₁ ∧ Kept d₁ d' := by
  obtain ⟨_, d₁, hingest, hrest⟩ := bind_ok.1 hd
  have hleads : Leads True (do
      bootstrap p.settings
      nestTypes
      assignManagedNames p.translator
      nestEnums p.translator
      makeInvokers p
      resolveBaseTypes p.settings
      mark) :=
    leads_bind leads_bootstrap fun _ => leads_bind leads_nestTypes fun _ =>
      leads_bind (leads_assignManagedNames fun _ => trivial) fun _ =>
        leads_bind leads_nestEnums fun _ => leads_bind (leads_makeInvokers fun _ => trivial) fun _ =>
          leads_bind leads_resolveBaseTypes fun _ => leads_mark
  exact ⟨d₁, hingest, kept_of_steps (hleads.of_ok hrest)⟩

end Build

/-! ### What is taken out -/

/-- Nothing has been taken out of a hierarchy. -/
def Hierarchy.Whole (h : Hierarchy) : Prop := ∀ i < h.size, h.owner i ≠ .detached

namespace Hierarchy

theorem Fresh.whole {o : Owner} {e : Element} (hf : Fresh h h' o e) (ho : o ≠ .detached)
    (hw : h.Whole) : h'.Whole := by
  intro i hi
  rcases hf.lt_or_eq hi with hlt | rfl
  · rw [hf.owner_of_lt hlt]
    exact hw i hlt
  · rw [hf.owner_new]
    exact ho

theorem SamePlaces.whole (hs : h.SamePlaces h') (hw : h.Whole) : h'.Whole := by
  intro i hi
  rw [hs.owner]
  exact hw i (hs.size ▸ hi)

end Hierarchy

theorem whole_of_intake (hst : Intake heads d d') (hw : d.hierarchy.Whole) : d'.hierarchy.Whole := by
  cases hst with
  | ns hm hc => exact Hierarchy.Fresh.putNamespace.whole (by simp) hw
  | enum hm hc hdot => exact Hierarchy.Fresh.putEnum.whole (by simp) hw
  | below hst =>
    cases hst with
    | below hm hp ha hc => exact Hierarchy.Fresh.putBelow.whole (by simp) hw
    | inherit hm hc hn =>
      exact (Hierarchy.SamePlaces.modify (Element.kind_withFacts _)).whole hw
    | enter hi ht hr => exact hw
    | notice => exact hw

theorem whole_of_support (hst : Support s d d') (hw : d.hierarchy.Whole) : d'.hierarchy.Whole := by
  cases hst with
  | ns hn hr => exact Hierarchy.Fresh.putNamespace.whole (by simp) hw
  | give hne =>
    exact (Hierarchy.SamePlaces.modify (f := givenAs s.runtimeNamespace) fun _ => rfl).whole hw
  | type hns hk hr => exact Hierarchy.Fresh.putBelow.whole (by simp) hw

namespace Stages

variable (hst : Stages p rs d₁ d₂ d₃ d₄ d₅ d₆ d')
include hst

/-- Up to the last two passes nothing is taken out. -/
theorem whole_called : d₆.hierarchy.Whole := by
  have hblank : p.blank.hierarchy.Whole := fun i hi => absurd hi (Nat.not_lt_zero i)
  have h₂ : d₂.hierarchy.Whole :=
    supported_induction (I := fun d => d.hierarchy.Whole) (intake_of_ingest hst.ingest) hst.support
      hblank (fun hs _ => whole_of_intake hs) fun hs _ => whole_of_support hs
  have h₃ : d₃.hierarchy.Whole := by
    intro i hi
    rcases hst.types.stayed_or_moved i with ⟨howner, -⟩ | ⟨o, hmem, ho⟩
    · rw [howner]
      exact h₂ i (hst.types.size ▸ hi)
    · rw [(hst.types.moved hmem ho).1]
      simp
  have h₄ : d₄.hierarchy.Whole := hst.namedOver.toSamePlaces.whole h₃
  have h₅ : d₅.hierarchy.Whole := by
    intro i hi
    rcases hst.enums.stayed_or_moved i with ⟨howner, -⟩ | ⟨o, hmem, ho⟩
    · rw [howner]
      exact h₄ i (hst.enums.size ▸ hi)
    · rw [(hst.enums.moved hmem ho).1]
      simp
  intro i hi
  by_cases hlt : i < d₅.hierarchy.size
  · rw [hst.invokers.owner hlt]
    exact h₅ i hlt
  · obtain ⟨-, -, o, -, ho, -⟩ := hst.invokers.made (Nat.not_lt.1 hlt) hi
    simp [ho]

end Stages

namespace Build

theorem owner_removeFromOwner :
    (removeFromOwner h i).owner j =
      if j = i ∧ h.owner j ≠ .root then .detached else h.owner j := by
  unfold removeFromOwner
  by_cases hj : j = i
  · subst hj
    cases ho : h.owner j with
    | element q => simp [Hierarchy.owner_detach]
    | root => simp [ho]
    | detached => simp [ho]
  · simp only [hj, false_and, if_false]
    split
    · rw [Hierarchy.owner_detach, if_neg hj]
    · rfl

theorem owner_foldl_removeFromOwner {l : List ElementId} :
    (l.foldl removeFromOwner h).owner j =
      if j ∈ l ∧ h.owner j ≠ .root then .detached else h.owner j := by
  induction l generalizing h with
  | nil => simp
  | cons i l ih =>
    rw [List.foldl_cons, ih, owner_removeFromOwner]
    simp only [List.mem_cons]
    by_cases hroot : h.owner j = .root
    · simp [hroot]
    · by_cases hj : j = i
      · subst hj
        simp [hroot]
      · simp [hj, hroot]

theorem samePlaces_of_forM_resolveBases {l : List ElementId}
    (hd : l.forM (resolveBases s) d = .ok () d') : d.hierarchy.SamePlaces d'.hierarchy := by
  refine forM_ok (I := fun _ d₁ => d.hierarchy.SamePlaces d₁.hierarchy) ?_ (.refl _) hd
  intro i _ d₁ d₂ hsame hi
  rcases resolveBases_ok hi with rfl | ⟨bases, rfl⟩
  · exact hsame
  · exact hsame.trans (.modify (Element.kind_withFacts _))

/-- The records of implemented interfaces are all taken out. -/
theorem detached_of_resolveBaseTypes (hs : d.Sound) (hw : d.hierarchy.Whole)
    (hd : resolveBaseTypes s d = .ok () d') (hi : i < d.hierarchy.size)
    (hk : d.hierarchy.kind i = .implements) : d'.hierarchy.owner i = .detached := by
  obtain ⟨_, _, hh, hrest⟩ := bind_ok.1 hd
  obtain ⟨rfl, rfl⟩ := hierarchy_ok.1 hh
  obtain ⟨_, d₁, hbases, hremove⟩ := bind_ok.1 hrest
  have hsame := samePlaces_of_forM_resolveBases hbases
  have ho₁ : d₁.hierarchy.Orderly := hsame.orderly hs.orderly
  obtain ⟨_, _, hh₁, hedit⟩ := bind_ok.1 hremove
  obtain ⟨rfl, rfl⟩ := hierarchy_ok.1 hh₁
  obtain rfl := edit_ok.1 hedit
  have hk₁ : d₁.hierarchy.kind i = .implements := by rw [hsame.kind, hk]
  have hwalk : i ∈ d₁.hierarchy.walkAll :=
    ho₁.mem_walkAll_iff.2 (hsame.whole hw i (hsame.size ▸ hi))
  -- Only namespaces and enums stand at the top.
  have hroot : d₁.hierarchy.owner i ≠ .root := by
    intro hroot
    rcases ho₁.listed hroot with hn | he
    · exact absurd ((ho₁.mem_namespaces.1 hn).1.symm.trans hk₁) (by decide)
    · exact absurd ((ho₁.of_mem_enums he).2.symm.trans hk₁) (by decide)
  change (List.foldl removeFromOwner _ _).owner i = _
  rw [owner_foldl_removeFromOwner, if_pos ⟨List.mem_filter.2 ⟨hwalk, by simpa using hk₁⟩, hroot⟩]

end Build

namespace Stages

variable (hst : Stages p rs d₁ d₂ d₃ d₄ d₅ d₆ d')
include hst

theorem detached_implements (hi : i < d'.hierarchy.size) (hk : d'.hierarchy.kind i = .implements) :
    d'.hierarchy.owner i = .detached := by
  obtain ⟨based, hbases, hmark⟩ := hst.ending
  have hk₆ : d₆.hierarchy.kind i = .implements := by rw [← hst.finish.kind, hk]
  have hbased := detached_of_resolveBaseTypes hst.sound_called hst.whole_called hbases
    (hst.finish.size ▸ hi) hk₆
  obtain rfl := edit_ok.1 hmark
  change (based.hierarchy.walkAll.foldl markElement based.hierarchy).owner i = _
  rw [finished_of_foldl_mark.1.owner, hbased]

end Stages

/-! ### The whole build -/

/-- The first elements of a build stand for the accepted records, one for each and in the order of
the forest. All elements are reached from the top but those of implemented interfaces, which are
taken out; later elements stand for no record; and each rejected record is reported. -/
theorem accounted_of_build (hb : (p.build rs).result = .ok h) :
    (Record.accepted rs).length ≤ h.size ∧
      (∀ (j : ElementId) (hj : j < (Record.accepted rs).length),
        (h.element j).origin.StandsFor (Record.accepted rs)[j]) ∧
      (∀ j < h.size, (h.kind j = .implements → h.owner j = .detached) ∧
        (h.kind j ≠ .implements → j ∈ h.walkAll)) ∧
      (∀ j < h.size, (Record.accepted rs).length ≤ j → (h.element j).isBound = false) ∧
      Diagnostic.count .unsupportedKind (p.build rs).diagnostics = (Record.rejected rs).length := by
  obtain ⟨d, hd, rfl⟩ := build_ok hb
  obtain ⟨d₁, hingest, hkept⟩ := kept_of_passes hd
  obtain ⟨e₁, e₂, e₃, e₄, e₅, e₆, hst⟩ := stages_of_passes hd
  have htaken := takenIn_ingest hingest
  obtain ⟨fresh, horigins, hstand⟩ := htaken.origins
  have hnone : p.blank.hierarchy.origins = [] := rfl
  rw [hnone, List.nil_append] at horigins
  have hsize : (Record.accepted rs).length = d₁.hierarchy.size := by
    rw [← Hierarchy.length_origins, horigins, hstand.length_eq]
    rfl
  refine ⟨hsize ▸ hkept.size, ?_, ?_, ?_, ?_⟩
  · intro j hj
    have hj₁ : j < d₁.hierarchy.origins.length := by rwa [Hierarchy.length_origins, ← hsize]
    have hstands := List.Forall₂.get hstand (horigins ▸ hj₁) hj
    rw [hkept.origin (hsize ▸ hj), ← Hierarchy.getElem_origins hj₁]
    simp only [horigins]
    exact hstands
  · intro j hj
    refine ⟨hst.detached_implements hj, fun hk => ?_⟩
    exact hst.sound_finished.orderly.mem_walkAll_iff.2 fun ho =>
      hk (hst.sound_finished.orderly.attached hj ho)
  · intro j _ hj
    exact hkept.unbound (hsize ▸ hj)
  · have hlog : (p.build rs).notices = d.registry.log := by
      have hne : rs.isEmpty = false := by
        cases rs with
        | nil => cases hb
        | cons r rs => rfl
      simp [Plan.build, hne, hd]
    have hcount : Diagnostic.count .unsupportedKind (p.build rs).diagnostics = unsupported d := by
      rw [Report.diagnostics, hlog, Diagnostic.count, unsupported, List.filter_map, List.length_map]
      rfl
    rw [hcount, hkept.unsupported, htaken.unsupported]
    exact Nat.zero_add _

/-- A forest with an enum where none is accepted, and a class at the top. -/
def partlyAccepted : List Record :=
  [.plain (.ns {}) "a"
    [.plain (.cls {}) "C" [.plain (.implements {}) "a.F" [],
        .plain (.enum {}) "E" [.plain (.field {}) "ON" []]],
      .plain (.iface {}) "F" []],
    .plain (.cls {}) "Lost" []]

theorem accounted_of_partlyAccepted : ∃ h, (samplePlan.build partlyAccepted).result = .ok h ∧
    (Record.accepted partlyAccepted).map (·.name) = ["a", "C", "a.F", "F"] ∧
      h.owner 2 = .detached ∧ 3 ∈ h.walkAll ∧ (h.element 4).isBound = false ∧
        Diagnostic.count .unsupportedKind (samplePlan.build partlyAccepted).diagnostics = 2 := by
  obtain ⟨h, hb, hq⟩ := exists_built samplePlan partlyAccepted
    (fun h => decide (4 < h.size) && decide (h.kind 2 = .implements) &&
      decide (h.kind 3 ≠ .implements)) (by decide +kernel)
  simp only [Bool.and_eq_true, decide_eq_true_eq] at hq
  obtain ⟨⟨hsize, hk₂⟩, hk₃⟩ := hq
  obtain ⟨-, -, hplaces, hlater, hcount⟩ := accounted_of_build hb
  exact ⟨h, hb, by decide +kernel, (hplaces 2 (by omega)).1 hk₂, (hplaces 3 (by omega)).2 hk₃,
    hlater 4 hsize (by decide +kernel), hcount.trans (by decide +kernel)⟩

end BindingTree
