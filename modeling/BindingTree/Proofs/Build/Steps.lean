import BindingTree.Build.Basic
import BindingTree.Proofs.Build.Bootstrap
import BindingTree.Proofs.Build.Nesting
import BindingTree.Proofs.Naming.Translation

/-! The steps that a build takes once its records are taken in. Every run of a later pass, also one
that fails, is a sequence of a few kinds of steps: an entry or a removal in the index, a notice of a
move, a fresh element that stands for no record, a change of place, and a change of an element that
keeps what it has from its record. So whatever each such step keeps, all these passes keep. A name
can lead nowhere only in the passes that look names up, which are those that nest and that for base
types, or where the translator says so. -/

namespace BindingTree

/-! ### What an element has from its record -/

/-- A payload without what is found out about types later. -/
def Payload.bare : Payload → Payload
  | .type k facts => .type k { info := facts.info }
  | p => p

structure Origin where
  payload : Payload
  genericName : Option String
  jniSignature : Option String
  location : Location
  deprecation : Deprecation
  apiSince : Option String
  apiUntil : Option String
  attributes : Attributes
  isBound : Bool

/-- What an element has from its record and keeps. -/
def Element.origin (e : Element) : Origin where
  payload := e.payload.bare
  genericName := e.genericName
  jniSignature := e.jniSignature
  location := e.location
  deprecation := e.deprecation
  apiSince := e.apiSince
  apiUntil := e.apiUntil
  attributes := e.attributes
  isBound := e.isBound

theorem Element.origin_withFacts {f : TypeFacts → TypeFacts} (hf : ∀ facts, (f facts).info = facts.info)
    (e : Element) : (e.withFacts f).origin = e.origin := by
  unfold withFacts
  split
  next k facts hp =>
    unfold origin
    rw [hp]
    simp only [Payload.bare, hf]
  next => rfl

theorem Element.origin_mark (a : Marker) (e : Element) : (e.mark a).origin = e.origin := by
  unfold mark
  split <;> rfl

/-! ### Runs -/

/-- The registry in which a run ends, whether it succeeds or fails. -/
def Registry.ending {α : Type} : EStateM.Result Failure Registry α → Registry
  | .ok _ r => r
  | .error _ r => r

namespace Build

open Naming (Translator)
open Relation (ReflTransGen)

/-- One step of a later pass. -/
inductive Step : Draft → Draft → Prop where
  | insert {d : Draft} (t : Table) (key : String) (entry : Entry) : Step d
      { d with registry := Registry.ending (Registry.insert t key entry d.registry) }
  | remove {d : Draft} (t : Table) (key : String) (i : ElementId) (e : Element) : Step d
      { d with registry := (Registry.remove t key i e d.registry).1 }
  | alreadyMoved {d : Draft} (element previous : String) : Step d
      { d with registry := d.registry.notice (.alreadyMoved element previous) }
  | make {d : Draft} {e : Element} (he : e.isBound = false) : Step d
      { d with hierarchy := d.hierarchy.push e }
  | listNamespace {d : Draft} (i : ElementId) : Step d
      { d with hierarchy := d.hierarchy.listNamespace i }
  | move {d : Draft} (p c : ElementId) : Step d { d with hierarchy := d.hierarchy.move p c }
  | detach {d : Draft} (i : ElementId) : Step d { d with hierarchy := d.hierarchy.detach i }
  | modify {d : Draft} (i : ElementId) {f : Element → Element}
      (hf : ∀ e, (f e).origin = e.origin) : Step d
      { d with hierarchy := d.hierarchy.modify i f }

/-- Every run of an operation is a sequence of steps; if a name leads nowhere in it, then it is one
where names may be looked up. -/
structure Leads {α : Type} (looks : Prop) (m : Build α) : Prop where
  steps : ∀ d, ReflTransGen Step d (ending (m d))
  finds : ∀ {d d' : Draft} {name : String} {onBehalfOf : Option String},
    m d = .error (.typeNotFound name onBehalfOf) d' → looks

variable {α β ι : Type} {looks : Prop} {d d' : Draft} {m : Build α} {f : α → Build β}

/-! ### Parts and the whole -/

theorem Leads.of_ok {a : α} (hm : Leads looks m) (hd : m d = .ok a d') :
    ReflTransGen Step d d' := by
  have hsteps := hm.steps d
  rwa [hd] at hsteps

/-- An operation that succeeds with one step. -/
theorem leads_of_step (hm : ∀ d, ∃ a d', m d = .ok a d' ∧ Step d d') : Leads looks m where
  steps d := by
    obtain ⟨a, d', hd, hstep⟩ := hm d
    rw [hd]
    exact .single hstep
  finds {d _ _ _} he := by
    obtain ⟨a, d', hd, -⟩ := hm d
    cases he.symm.trans hd

/-- An operation that succeeds and leaves the draft alone. -/
theorem leads_of_same (hm : ∀ d, ∃ a, m d = .ok a d) : Leads looks m where
  steps d := by
    obtain ⟨a, hd⟩ := hm d
    rw [hd]
    exact .refl
  finds {d _ _ _} he := by
    obtain ⟨a, hd⟩ := hm d
    cases he.symm.trans hd

theorem leads_bind (hm : Leads looks m) (hf : ∀ a, Leads looks (f a)) : Leads looks (m >>= f) where
  steps d := by
    have hd := hm.steps d
    rw [bind_run]
    cases h : m d with
    | ok a d₁ =>
      rw [h] at hd
      exact hd.trans ((hf a).steps d₁)
    | error failure d₁ =>
      rw [h] at hd
      exact hd
  finds he := by
    obtain hm' | ⟨a, d₁, -, hf'⟩ := bind_error.1 he
    · exact hm.finds hm'
    · exact (hf a).finds hf'

theorem leads_pure {a : α} : Leads looks (pure a : Build α) := leads_of_same fun _ => ⟨a, rfl⟩

theorem leads_fail {failure : Failure}
    (hf : ∀ name onBehalfOf, failure = .typeNotFound name onBehalfOf → looks) :
    Leads looks (fail failure : Build α) where
  steps _ := .refl
  finds he := by
    cases he
    exact hf _ _ rfl

theorem leads_hierarchy : Leads looks hierarchy := leads_of_same fun _ => ⟨_, rfl⟩

theorem leads_index : Leads looks index := leads_of_same fun _ => ⟨_, rfl⟩

theorem leads_element {i : ElementId} : Leads looks (element i) := leads_of_same fun _ => ⟨_, rfl⟩

theorem leads_ofExcept {x : Except Failure α}
    (hx : ∀ name onBehalfOf, x = .error (.typeNotFound name onBehalfOf) → looks) :
    Leads looks (ofExcept x) := by
  cases x with
  | ok a => exact leads_pure
  | error failure => exact leads_fail fun name onBehalfOf he => hx name onBehalfOf (he ▸ rfl)

theorem leads_lookup {name : String} {hint : Option Kind} {e : Element} :
    Leads True (lookup name hint e) where
  steps d := by
    rw [lookup_run]
    cases d.registry.index.lookup? name hint <;> exact .refl
  finds _ := trivial

theorem leads_forM {g : ι → Build Unit} {l : List ι} (hg : ∀ i, Leads looks (g i)) :
    Leads looks (l.forM g) := by
  induction l with
  | nil => exact leads_pure
  | cons i is ih => exact leads_bind (hg i) fun _ => ih

theorem leads_alreadyMoved {element previous : String} :
    Leads looks (notice (.alreadyMoved element previous)) :=
  leads_of_step fun _ => ⟨_, _, rfl, .alreadyMoved element previous⟩

theorem leads_make {e : Element} (he : e.isBound = false) : Leads looks (make e) :=
  leads_of_step fun _ => ⟨_, _, rfl, .make he⟩

theorem leads_listNamespace {i : ElementId} : Leads looks (edit (·.listNamespace i)) :=
  leads_of_step fun _ => ⟨_, _, rfl, .listNamespace i⟩

theorem leads_editElement {i : ElementId} {g : Element → Element}
    (hg : ∀ e, (g e).origin = e.origin) : Leads looks (editElement i g) :=
  leads_of_step fun _ => ⟨_, _, rfl, .modify i hg⟩

theorem leads_addMember {p c : ElementId} : Leads looks (addMember p c) := by
  have hrun : ∀ d, addMember p c d =
      (ofExcept (d.hierarchy.addMember p c) >>= fun h => edit fun _ => h : Build Unit) d := by
    intro d
    unfold addMember
    rw [bind_run]
    rfl
  constructor
  · intro d
    rw [hrun]
    cases hadd : d.hierarchy.addMember p c with
    | ok h =>
      obtain ⟨-, -, rfl⟩ := Hierarchy.addMember_eq_ok.1 hadd
      exact .single (.move p c)
    | error failure => exact .refl
  · intro d _ _ _ he
    rw [hrun] at he
    unfold Hierarchy.addMember at he
    split at he <;> cases he

theorem leads_insert {t : Table} {key : String} {entry : Entry} :
    Leads looks (onRegistry (Registry.insert t key entry)) := by
  constructor
  · intro d
    have hstep : Step d
      { d with registry := Registry.ending (Registry.insert t key entry d.registry) } :=
      .insert t key entry
    unfold onRegistry
    cases h : Registry.insert t key entry d.registry <;> rw [h] at hstep <;> exact .single hstep
  · intro d _ _ _ he
    unfold onRegistry at he
    cases h : Registry.insert t key entry d.registry with
    | ok u r =>
      rw [h] at he
      cases he
    | error failure r =>
      rw [h] at he
      obtain ⟨-, rfl⟩ | ⟨_, -, rfl⟩ := Registry.insert_error h <;> cases he

theorem leads_addManaged_of {i : ElementId} {e : Element} :
    Leads looks (onRegistry (Registry.addManaged i e)) := by
  unfold Registry.addManaged
  split
  · exact leads_of_same fun _ => ⟨(), rfl⟩
  · exact leads_insert

theorem leads_addNative {i : ElementId} : Leads looks (addNative i) :=
  leads_bind leads_element fun _ => leads_insert

theorem leads_addManaged {i : ElementId} : Leads looks (addManaged i) :=
  leads_bind leads_element fun _ => leads_addManaged_of

theorem leads_enter {i : ElementId} : Leads looks (enter i) := by
  refine leads_bind leads_element fun e => ?_
  unfold Registry.add
  rw [onRegistry_bind]
  exact leads_bind leads_insert fun _ => leads_addManaged_of

theorem leads_remove {t : Table} {key : String} {i : ElementId} : Leads looks (remove t key i) :=
  leads_bind leads_element fun e => leads_of_step fun _ => ⟨_, _, rfl, .remove t key i e⟩

/-! ### The later passes -/

section Passes
variable {s : Settings} {t : Translator} {p : Plan} {i ns : ElementId} {e : Element}
  {accept : Kind → Bool} {plan : Moves} {kind : TypeKind} {name : String}

theorem leads_makeNamespace : Leads looks (makeNamespace name) :=
  leads_bind (leads_make rfl) fun _ => leads_bind leads_listNamespace fun _ =>
    leads_bind leads_enter fun _ => leads_pure

theorem leads_makeType {fullName : String} {useGlobal : Bool} :
    Leads looks (makeType ns kind fullName useGlobal) :=
  leads_bind (leads_make rfl) fun _ => leads_bind leads_addMember fun _ => leads_enter

theorem leads_runtimeNamespace : Leads looks (runtimeNamespace name) := by
  refine leads_bind leads_hierarchy fun h => ?_
  split
  · exact leads_pure
  · exact leads_bind leads_makeNamespace fun _ =>
      leads_bind (leads_editElement fun _ => rfl) fun _ => leads_pure

theorem leads_rootNamespace : Leads looks (rootNamespace name) := by
  unfold rootNamespace
  split
  · refine leads_bind leads_hierarchy fun h => ?_
    split
    · exact leads_pure
    · exact leads_makeNamespace
  · exact leads_makeNamespace

theorem leads_ensureRootType : Leads looks (ensureRootType name) := by
  refine leads_bind leads_index fun ix => ?_
  dsimp only
  split
  · exact leads_pure
  · exact leads_bind leads_rootNamespace fun _ => leads_makeType

theorem leads_bootstrap : Leads looks (bootstrap s) := by
  refine leads_bind leads_runtimeNamespace fun runtime => leads_bind leads_hierarchy fun h => ?_
  have hroot : Leads looks (if s.makeRootType then ensureRootType s.rootType else pure ()) := by
    split
    · exact leads_ensureRootType
    · exact leads_pure
  by_cases hface : hasInterface h runtime s.baseInterface = true
  · simp only [if_pos hface]
    exact hroot
  · simp only [if_neg hface]
    exact leads_bind leads_makeType fun _ => hroot

theorem leads_newOwner? : Leads True (newOwner? accept i) := by
  refine leads_bind leads_element fun e => ?_
  split
  · exact leads_pure
  · refine leads_bind leads_lookup fun owner => leads_bind leads_element fun e => ?_
    split
    · exact leads_pure
    · exact leads_pure

theorem leads_planMove {owner : ElementId} : Leads looks (planMove plan i owner) := by
  unfold planMove
  split
  · exact leads_bind leads_hierarchy fun _ => leads_bind leads_alreadyMoved fun _ => leads_pure
  · exact leads_pure

theorem leads_planMoves {is : List ElementId} : Leads True (planMoves accept plan is) := by
  induction is generalizing plan with
  | nil => exact leads_pure
  | cons i is ih =>
    refine leads_bind leads_newOwner? fun o => ?_
    split
    · exact leads_bind leads_planMove fun _ => ih
    · exact ih

theorem leads_makeAll {moves : List (ElementId × ElementId)} :
    Leads looks (onHierarchy (Moves.makeAll moves)) := by
  induction moves with
  | nil => exact leads_of_same fun _ => ⟨(), rfl⟩
  | cons move moves ih =>
    have hmade : ∀ {d : Draft} {h : Hierarchy}, d.hierarchy.addMember move.2 move.1 = .ok h →
        onHierarchy (Moves.makeAll (move :: moves)) d =
          onHierarchy (Moves.makeAll moves) { d with hierarchy := h } := by
      intro d h hadd
      unfold onHierarchy
      rw [Moves.makeAll]
      dsimp only
      rw [hadd]
    have hfailed : ∀ {d : Draft} {failure : Failure},
        d.hierarchy.addMember move.2 move.1 = .error failure →
          onHierarchy (Moves.makeAll (move :: moves)) d = .error failure d := by
      intro d failure hadd
      unfold onHierarchy
      rw [Moves.makeAll]
      dsimp only
      rw [hadd]
    constructor
    · intro d
      cases hadd : d.hierarchy.addMember move.2 move.1 with
      | ok h =>
        rw [hmade hadd]
        obtain ⟨-, -, rfl⟩ := Hierarchy.addMember_eq_ok.1 hadd
        exact .head (.move move.2 move.1)
          (ih.steps { d with hierarchy := d.hierarchy.move move.2 move.1 })
      | error failure =>
        rw [hfailed hadd]
        exact .refl
    · intro d _ _ _ he
      cases hadd : d.hierarchy.addMember move.2 move.1 with
      | ok h =>
        rw [hmade hadd] at he
        exact ih.finds he
      | error failure =>
        rw [hfailed hadd] at he
        unfold Hierarchy.addMember at hadd
        split at hadd <;> cases hadd
        cases he

theorem leads_apply : Leads looks (onHierarchy plan.apply) := by
  unfold Moves.apply
  rw [onHierarchy_bind]
  exact leads_bind leads_makeAll fun _ => leads_of_same fun _ => ⟨_, rfl⟩

theorem leads_edit {g : Hierarchy → Hierarchy}
    (hg : ∀ d : Draft, ReflTransGen Step d { d with hierarchy := g d.hierarchy }) :
    Leads looks (edit g) :=
  ⟨hg, fun he => by cases he⟩

theorem leads_rebase : Leads looks (edit (rebase · i)) := by
  refine leads_edit fun d => ?_
  rcases rebase_cases (h := d.hierarchy) (i := i) with ⟨he, -⟩ | ⟨name, he, -, -⟩
  · rw [he]
  · rw [he]
    exact .single (.modify i fun _ => rfl)

theorem leads_nestTypes : Leads True nestTypes :=
  leads_bind leads_hierarchy fun _ => leads_bind leads_planMoves fun _ =>
    leads_bind leads_apply fun _ => leads_forM fun _ => leads_rebase

theorem leads_assignManagedName (ht : t.Misses → looks) : Leads looks (assignManagedName t i) := by
  refine leads_bind leads_hierarchy fun h => leads_bind (leads_ofExcept fun _ _ he =>
    ht ⟨_, _, fails_of_managedNameOf he⟩) fun managed =>
      leads_bind (leads_editElement fun _ => rfl) fun _ => ?_
  split
  · exact leads_addManaged
  · exact leads_pure

theorem leads_assignManagedNamesFrom (ht : t.Misses → looks) :
    Leads looks (assignManagedNamesFrom t i) :=
  leads_bind leads_hierarchy fun _ => leads_forM fun _ => leads_assignManagedName ht

theorem leads_assignManagedNames (ht : t.Misses → looks) : Leads looks (assignManagedNames t) :=
  leads_bind leads_hierarchy fun _ => leads_forM fun _ => leads_assignManagedName ht

theorem leads_renameEnum (ht : t.Misses → looks) : Leads looks (renameEnum t i) := by
  refine leads_bind leads_element fun e => leads_bind leads_remove fun _ => ?_
  have hnamed : Leads looks (do
      let h ← hierarchy
      editElement i fun e => { e with fullName := h.composeFullName (h.owner i) e.name }
      addNative i
      assignManagedNamesFrom t i) :=
    leads_bind leads_hierarchy fun _ => leads_bind (leads_editElement fun _ => rfl) fun _ =>
      leads_bind leads_addNative fun _ => leads_assignManagedNamesFrom ht
  split
  · exact leads_bind leads_remove fun _ => hnamed
  · exact hnamed

theorem leads_nestEnums : Leads True (nestEnums t) :=
  leads_bind leads_hierarchy fun _ => leads_bind leads_planMoves fun _ =>
    leads_bind leads_apply fun _ => leads_forM fun _ => leads_renameEnum fun _ => trivial

theorem leads_makeInvoker (ht : p.translator.Misses → looks) : Leads looks (makeInvoker p i) := by
  refine leads_bind leads_hierarchy fun h => ?_
  split
  · exact leads_bind (leads_make rfl) fun _ => leads_bind leads_addMember fun _ =>
      leads_bind (leads_assignManagedName ht) fun _ => leads_bind leads_addNative fun _ =>
        leads_editElement (Element.origin_withFacts fun _ => rfl)
  · exact leads_fail fun _ _ he => by cases he

theorem leads_makeInvokers (ht : p.translator.Misses → looks) : Leads looks (makeInvokers p) :=
  leads_bind leads_hierarchy fun _ => leads_forM fun _ => leads_makeInvoker ht

theorem leads_findBases {found : List ElementId} {names : List String} :
    Leads True (findBases i e found names) := by
  induction names generalizing found with
  | nil => exact leads_pure
  | cons name names ih => exact leads_bind leads_lookup fun _ => ih

theorem leads_defaultBase : Leads True (defaultBase s i e) := by
  unfold defaultBase
  split
  · exact leads_bind leads_lookup fun _ => leads_pure
  · exact leads_bind leads_lookup fun _ => leads_pure

theorem leads_resolveBases : Leads True (resolveBases s i) := by
  refine leads_bind leads_element fun e => ?_
  split
  · exact leads_pure
  · split
    · exact leads_pure
    · refine leads_bind leads_findBases fun found => ?_
      have hedit : ∀ bases : List ElementId, Leads True
          (editElement i (Element.withFacts fun f => { f with bases := some bases })) :=
        fun _ => leads_editElement (Element.origin_withFacts fun _ => rfl)
      split
      · exact leads_bind leads_defaultBase fun bases => hedit bases
      · exact leads_bind leads_pure fun bases => hedit bases

/-- Edits made one after the other. -/
theorem leads_foldl {g : Hierarchy → ElementId → Hierarchy} {l : Hierarchy → List ElementId}
    (hg : ∀ (d : Draft) i, ReflTransGen Step d { d with hierarchy := g d.hierarchy i }) :
    Leads looks (edit fun h => (l h).foldl g h) := by
  have hfold : ∀ (is : List ElementId) (d : Draft), ReflTransGen Step d
      { d with hierarchy := is.foldl g d.hierarchy } := by
    intro is
    induction is with
    | nil => exact fun d => .refl
    | cons i is ih => exact fun d => (hg d i).trans (ih { d with hierarchy := g d.hierarchy i })
  exact leads_edit fun d => hfold (l d.hierarchy) d

theorem leads_resolveBaseTypes : Leads True (resolveBaseTypes s) := by
  refine leads_bind leads_hierarchy fun _ =>
    leads_bind (leads_forM fun _ => leads_resolveBases) fun _ => ?_
  have hremove : ∀ (d : Draft) i, ReflTransGen Step d
      { d with hierarchy := removeFromOwner d.hierarchy i } := by
    intro d i
    unfold removeFromOwner
    split
    · exact .single (.detach i)
    · exact .refl
  have hfold : Leads True (edit fun h => (h.walkAll.filter fun i => h.kind i = .implements).foldl
      removeFromOwner h) := leads_foldl hremove
  exact ⟨hfold.steps, fun _ => trivial⟩

theorem leads_mark : Leads looks mark := by
  refine leads_foldl fun d i => ?_
  unfold markElement
  split
  · split
    · exact .single (.modify i (Element.origin_mark _))
    · exact .refl
  · exact .refl

end Passes

/-! ### What all steps keep -/

/-- How many records have been reported as left out. -/
def unsupported (d : Draft) : Nat :=
  (d.registry.log.filter fun n => n.kind = .unsupportedKind).length

/-- Elements keep what they have from their records, fresh ones stand for no record, and no further
record is reported. -/
structure Kept (d d' : Draft) : Prop where
  size : d.hierarchy.size ≤ d'.hierarchy.size
  origin : ∀ {i : ElementId}, i < d.hierarchy.size →
    (d'.hierarchy.element i).origin = (d.hierarchy.element i).origin
  unbound : ∀ {i : ElementId}, d.hierarchy.size ≤ i → (d'.hierarchy.element i).isBound = false
  unsupported : unsupported d' = unsupported d

namespace Kept

theorem of_elements {h : Hierarchy} {r : Registry} (hs : h.size = d.hierarchy.size)
    (he : ∀ i, (h.element i).origin = (d.hierarchy.element i).origin)
    (hr : Build.unsupported ⟨h, r⟩ = Build.unsupported d) : Kept d ⟨h, r⟩ where
  size := Nat.le_of_eq hs.symm
  origin _ := he _
  unbound {i} hi := by
    have hnone : (d.hierarchy.element i).isBound = false := by
      rw [Hierarchy.element, Hierarchy.node_of_size_le hi]
      rfl
    exact (congrArg Origin.isBound (he i)).trans hnone
  unsupported := hr

theorem refl (d : Draft) : Kept d d := of_elements rfl (fun _ => rfl) rfl

theorem trans {d'' : Draft} (h₁ : Kept d d') (h₂ : Kept d' d'') : Kept d d'' where
  size := Nat.le_trans h₁.size h₂.size
  origin hi := (h₂.origin (Nat.lt_of_lt_of_le hi h₁.size)).trans (h₁.origin hi)
  unbound {i} hi := by
    by_cases hlt : i < d'.hierarchy.size
    · exact (congrArg Origin.isBound (h₂.origin hlt)).trans (h₁.unbound hi)
    · exact h₂.unbound (Nat.not_lt.1 hlt)
  unsupported := h₂.unsupported.trans h₁.unsupported

end Kept

theorem Step.kept (hs : Step d d') : Kept d d' := by
  cases hs with
  | insert t key entry =>
    refine .of_elements rfl (fun _ => rfl) ?_
    unfold unsupported Registry.ending Registry.insert
    split
    next hr =>
      split at hr
      · cases hr
      · cases hr
        rfl
      · cases hr
        simp [Registry.notice, Notice.kind]
    next hr =>
      split at hr
      · cases hr
        rfl
      · cases hr
      · cases hr
  | remove t key i e => exact .of_elements rfl (fun _ => rfl) rfl
  | alreadyMoved element previous =>
    refine .of_elements rfl (fun _ => rfl) ?_
    simp [unsupported, Registry.notice, Notice.kind]
  | @make e he =>
    refine ⟨by simp, fun hi => ?_, fun hi => ?_, rfl⟩
    · rw [Hierarchy.element_push, if_neg (Nat.ne_of_lt hi)]
    · rw [Hierarchy.element_push]
      split
      · exact he
      · exact (Kept.refl d).unbound hi
  | listNamespace i =>
    have hset : ∀ j, (d.hierarchy.listNamespace i).element j = d.hierarchy.element j := by
      intro j
      unfold Hierarchy.listNamespace
      dsimp only
      split
      · exact Hierarchy.element_setOwner
      · exact Hierarchy.element_setOwner (h := d.hierarchy)
    refine .of_elements ?_ (fun j => by rw [hset]) rfl
    unfold Hierarchy.listNamespace
    dsimp only
    split
    · exact Hierarchy.size_setOwner
    · exact Hierarchy.size_setOwner (h := d.hierarchy)
  | move p c =>
    exact .of_elements Hierarchy.size_move (fun _ => by rw [Hierarchy.element_move]) rfl
  | detach i =>
    exact .of_elements Hierarchy.size_detach (fun _ => by rw [Hierarchy.element_detach]) rfl
  | modify i hf =>
    exact .of_elements Hierarchy.size_modify
      (fun _ => Hierarchy.congr_element_modify Element.origin hf) rfl

theorem kept_of_steps (hs : ReflTransGen Step d d') : Kept d d' := by
  induction hs with
  | refl => exact .refl d
  | tail _ hs ih => exact ih.trans hs.kept

theorem Step.policy (hs : Step d d') :
    d'.registry.index.policy = d.registry.index.policy := by
  cases hs with
  | insert t key entry =>
    dsimp only
    cases hr : Registry.insert t key entry d.registry with
    | ok u r => exact Registry.policy_of_insert hr
    | error failure r =>
      unfold Registry.insert at hr
      split at hr <;> cases hr
      rfl
  | remove t key i e => exact Index.policy_setTable
  | _ => rfl

theorem policy_of_steps (hs : ReflTransGen Step d d') :
    d'.registry.index.policy = d.registry.index.policy := by
  induction hs with
  | refl => rfl
  | tail _ hs ih => exact hs.policy.trans ih

end Build

end BindingTree
