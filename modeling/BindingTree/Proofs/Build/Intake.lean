import BindingTree.Build.Ingest
import BindingTree.Proofs.Build.Run
import BindingTree.Proofs.Build.Sound
import BindingTree.Proofs.Hierarchy.Names

/-! Taking records in, as a sequence of small steps: a namespace or an enum at the top, an element
below an owner that accepts it, a base name handed on, an entry of the index, a notice. Whatever
each step keeps, the whole pass keeps. -/

namespace BindingTree

open Naming

mutual

/-- The head of a record and those of all records below it. -/
def Record.heads : Record → List Record.Head
  | ⟨head, children⟩ => head :: Record.headsOf children

def Record.headsOf : List Record → List Record.Head
  | [] => []
  | r :: rs => r.heads ++ Record.headsOf rs

end

namespace Build

/-- The element of an enum of the top level: its record names it in full. -/
def enumOf (head : Record.Head) (info : TypeInfo) : Element :=
  { ofHead head (.type .enum { info, basesFixed := true }) head.name head.name with
    name := (splitLast head.name).2 }

/-- The element of a record below `p`. -/
def elementBelow (h : Hierarchy) (p : ElementId) (head : Record.Head) (payload : Payload) :
    Element :=
  ofHead head payload (nameBelow h (.element p) head.name)
    (h.fullName p ++ "." ++ nameBelow h (.element p) head.name)

/-- One step below the top in taking in records with the given heads. -/
inductive IntakeBelow (heads : List Record.Head) : Draft → Draft → Prop where
  | below {d : Draft} {head : Record.Head} {p : ElementId} {payload : Payload} (hm : head ∈ heads)
      (hp : p < d.hierarchy.size) (ha : accepts (d.hierarchy.kind p) head.content.tag = true)
      (hc : payload? head.content = some payload) :
      IntakeBelow heads d
        { d with hierarchy := d.hierarchy.putBelow p (elementBelow d.hierarchy p head payload) }
  | inherit {d : Draft} {head : Record.Head} {p : ElementId} {name : String} (hm : head ∈ heads)
      (hc : head.content.tag = .implements) (hn : baseName? head.name = some name) :
      IntakeBelow heads d
        { d with hierarchy := d.hierarchy.modify p (Element.withFacts (addBaseName name)) }
  | enter {d : Draft} {i : ElementId} {r : Registry} (hi : i < d.hierarchy.size)
      (ht : (d.hierarchy.kind i).isType = true ∨ d.hierarchy.kind i = .ns)
      (hr : Registry.addNative i (d.hierarchy.element i) d.registry = .ok () r) :
      IntakeBelow heads d { d with registry := r }
  | notice {d : Draft} (name : String) (tag : Tag) (place : Place) :
      IntakeBelow heads d { d with registry := d.registry.notice (.unsupported name tag place) }

/-- One step of taking in records with the given heads. -/
inductive Intake (heads : List Record.Head) : Draft → Draft → Prop where
  | ns {d : Draft} {head : Record.Head} {info : NamespaceInfo} (hm : head ∈ heads)
      (hc : head.content = .ns info) :
      Intake heads d
        { d with hierarchy := d.hierarchy.putNamespace (ofHead head (.ns info) head.name head.name) }
  | enum {d : Draft} {head : Record.Head} {info : TypeInfo} (hm : head ∈ heads)
      (hc : head.content = .enum info) (hdot : head.name.toList.head? ≠ some '.') :
      Intake heads d { d with hierarchy := d.hierarchy.putEnum (enumOf head info) }
  | below {d d' : Draft} (hs : IntakeBelow heads d d') : Intake heads d d'

open Relation (ReflTransGen)

variable {heads : List Record.Head} {d d' : Draft}

/-! ### What a step keeps -/

theorem mayOwn_of_accepts {k : Kind} {c : Content} {payload : Payload}
    (ha : accepts k c.tag = true) (hc : payload? c = some payload) : k.mayOwn payload.kind = true := by
  cases c <;> simp only [payload?, Option.some.injEq, reduceCtorEq] at hc <;> subst hc <;>
    cases k <;> first | rfl | exact absurd ha (by simp [accepts, Content.tag])

/-- The draft has the elements it had, of the kinds they had. -/
def Grows (d d' : Draft) : Prop :=
  d.hierarchy.size ≤ d'.hierarchy.size ∧
    ∀ i < d.hierarchy.size, d'.hierarchy.kind i = d.hierarchy.kind i

theorem Grows.refl (d : Draft) : Grows d d := ⟨Nat.le_refl _, fun _ _ => rfl⟩

theorem Grows.trans {d'' : Draft} (h₁ : Grows d d') (h₂ : Grows d' d'') : Grows d d'' :=
  ⟨Nat.le_trans h₁.1 h₂.1, fun i hi =>
    (h₂.2 i (Nat.lt_of_lt_of_le hi h₁.1)).trans (h₁.2 i hi)⟩

theorem Grows.of_fresh {h' : Hierarchy} {o : Owner} {e : Element}
    (hf : d.hierarchy.Fresh h' o e) : Grows d { d with hierarchy := h' } :=
  ⟨Nat.le_of_lt hf.size_lt, fun _ hi => hf.kind_of_lt hi⟩

theorem IntakeBelow.grows (hs : IntakeBelow heads d d') : Grows d d' := by
  cases hs with
  | below hm hp ha hc => exact .of_fresh .putBelow
  | inherit hm hc hn =>
    exact ⟨by simp, fun i _ => Hierarchy.congr_element_modify Element.kind (Element.kind_withFacts _)⟩
  | enter hi ht hr => exact Grows.refl d
  | notice => exact Grows.refl d

theorem Intake.grows (hs : Intake heads d d') : Grows d d' := by
  cases hs with
  | ns hm hc => exact .of_fresh .putNamespace
  | enum hm hc hdot => exact .of_fresh .putEnum
  | below hs => exact hs.grows

theorem grows_of_below (hs : ReflTransGen (IntakeBelow heads) d d') : Grows d d' := by
  induction hs with
  | refl => exact Grows.refl d
  | tail _ hs ih => exact ih.trans hs.grows

theorem Intake.sound (hs : Intake heads d d') (hd : d.Sound) : d'.Sound := by
  have hextend : ∀ {h : Hierarchy}, h.Orderly → Intake heads d { d with hierarchy := h } →
      ({ d with hierarchy := h } : Draft).Sound :=
    fun ho hs => hd.extend ho hs.grows.1 hs.grows.2
  cases hs with
  | ns hm hc => exact hextend (hd.orderly.putNamespace rfl) (.ns hm hc)
  | enum hm hc hdot => exact hextend (hd.orderly.putEnum rfl) (.enum hm hc hdot)
  | below hs =>
    cases hs with
    | below hm hp ha hc =>
      exact hextend (hd.orderly.putBelow hp (mayOwn_of_accepts ha hc)) (.below (.below hm hp ha hc))
    | inherit hm hc hn =>
      exact hextend (hd.orderly.modify (Element.kind_withFacts _)) (.below (.inherit hm hc hn))
    | enter hi ht hr => exact ⟨hd.orderly, hd.points.addNative hi rfl ht hr⟩
    | notice => exact ⟨hd.orderly, hd.points⟩

/-- What holds of the elements of records, whatever their names and facts, holds of all elements
while records are taken in. -/
theorem Intake.forall_element {P : Element → Prop} (hs : Intake heads d d')
    (hnew : ∀ head ∈ heads, ∀ payload name fullName, payload? head.content = some payload →
      P (ofHead head payload name fullName))
    (hname : ∀ e name, P e → P { e with name }) (hfacts : ∀ f e, P e → P (e.withFacts f))
    (hP : ∀ i, P (d.hierarchy.element i)) : ∀ i, P (d'.hierarchy.element i) := by
  cases hs with
  | @ns head info hm hc =>
    exact Hierarchy.Fresh.putNamespace.forall_element (hnew _ hm _ _ _ (by rw [hc]; rfl)) hP
  | @enum head info hm hc hdot =>
    have henum : P (ofHead head (.type .enum { info, basesFixed := true }) head.name head.name) :=
      hnew _ hm _ _ _ (by rw [hc]; rfl)
    exact Hierarchy.Fresh.putEnum.forall_element (hname _ _ henum) hP
  | below hs =>
    cases hs with
    | below hm hp ha hc =>
      exact Hierarchy.Fresh.putBelow.forall_element (hnew _ hm _ _ _ hc) hP
    | inherit hm hc hn => exact Hierarchy.forall_element_modify (hfacts _) hP
    | enter hi ht hr => exact hP
    | notice => exact hP

theorem sound_of_intake (hs : ReflTransGen (Intake heads) d d') (hd : d.Sound) : d'.Sound :=
  hd.of_steps Intake.sound hs

/-! ### The pass takes such steps -/

theorem push_modify_self {h : Hierarchy} {e : Element} {f : Element → Element} :
    (h.push e).modify h.size f = h.push (f e) := by
  unfold Hierarchy.modify Hierarchy.modifyNode Hierarchy.push Hierarchy.size
  simp only [Hierarchy.mk.injEq, and_true]
  apply Array.ext
  · simp
  · intro i h₁ h₂
    rw [Array.getElem_modify]
    split
    next he =>
      subst he
      simp
    next he =>
      rw [Array.size_push] at h₂
      simp [Array.getElem_push_lt (show i < h.nodes.size by omega)]

theorem create_root_run {head : Record.Head} {payload : Payload}
    (hp : payload? head.content = some payload) :
    create head .root d = .ok d.hierarchy.size
      { d with hierarchy := d.hierarchy.push (ofHead head payload head.name head.name) } := by
  unfold create
  rw [hp]
  rfl

theorem create_below_ok {head : Record.Head} {p id : ElementId}
    (hd : create head (.element p) d = .ok id d') :
    ∃ payload, payload? head.content = some payload ∧ id = d.hierarchy.size ∧
      d' = { d with
        hierarchy := d.hierarchy.putBelow p (elementBelow d.hierarchy p head payload) } := by
  unfold create at hd
  cases hp : payload? head.content with
  | none =>
    rw [hp] at hd
    exact (fail_ok.1 hd).elim
  | some payload =>
    simp only [hp, bind_ok, hierarchy_ok, make_ok, addMember_ok, pure_ok] at hd
    obtain ⟨_, _, ⟨rfl, rfl⟩, _, _, ⟨rfl, rfl⟩, _, _, ⟨-, -, rfl⟩, rfl, rfl⟩ := hd
    exact ⟨payload, rfl, rfl, rfl⟩

theorem inherit_cases (p : ElementId) (head : Record.Head) :
    inherit p head = pure () ∨ ∃ name, head.content.tag = .implements ∧
      baseName? head.name = some name ∧
        inherit p head = editElement p (Element.withFacts (addBaseName name)) := by
  unfold inherit
  split
  next name hc hn => exact .inr ⟨name, hc, hn, rfl⟩
  next => exact .inl rfl

theorem inherit_ok {p : ElementId} {head : Record.Head} (hm : head ∈ heads)
    (hd : inherit p head d = .ok () d') : ReflTransGen (IntakeBelow heads) d d' := by
  rcases inherit_cases p head with he | ⟨name, hc, hn, he⟩
  · rw [he] at hd
    obtain ⟨-, rfl⟩ := pure_ok.1 hd
    exact .refl
  · rw [he] at hd
    obtain rfl := editElement_ok.1 hd
    exact .single (.inherit hm hc hn)

mutual

theorem ingestChild_ok {p : ElementId} : ∀ (r : Record) {d d' : Draft}, (∀ x ∈ r.heads, x ∈ heads) →
    p < d.hierarchy.size → ingestChild p r d = .ok () d' → ReflTransGen (IntakeBelow heads) d d'
  | ⟨head, children⟩, d, d', hm, hp, hd => by
    have hhead : head ∈ heads := hm head (by simp [Record.heads])
    simp only [ingestChild, bind_ok, element_ok] at hd
    obtain ⟨_, _, ⟨rfl, rfl⟩, hd⟩ := hd
    split at hd
    next ha =>
      obtain ⟨id, d₁, hcreate, hd⟩ := bind_ok.1 hd
      obtain ⟨payload, hc, rfl, rfl⟩ := create_below_ok hcreate
      obtain ⟨_, d₂, hinherit, hd⟩ := bind_ok.1 hd
      obtain ⟨_, d₃, hchildren, hd⟩ := bind_ok.1 hd
      obtain ⟨_, _, he, hd⟩ := bind_ok.1 hd
      obtain ⟨rfl, rfl⟩ := element_ok.1 he
      have hs₁ := IntakeBelow.below (d := d) hhead hp ha hc
      have hs₂ := inherit_ok hhead hinherit
      have hlt : d.hierarchy.size < d₂.hierarchy.size :=
        Nat.lt_of_lt_of_le (by simp) (grows_of_below hs₂).1
      have hs₃ := ingestChildren_ok children
        (fun x hx => hm x (by simp [Record.heads, hx])) hlt hchildren
      refine (hs₂.head hs₁).trans (hs₃.trans ?_)
      split at hd
      next ht =>
        obtain ⟨r, hr, rfl⟩ := addNative_ok.1 hd
        exact .single (.enter (Nat.lt_of_lt_of_le hlt (grows_of_below hs₃).1) (.inl ht) hr)
      next =>
        obtain ⟨-, rfl⟩ := pure_ok.1 hd
        exact .refl
    next =>
      obtain rfl := notice_ok.1 hd
      exact .single (.notice _ _ _)

theorem ingestChildren_ok {p : ElementId} : ∀ (rs : List Record) {d d' : Draft},
    (∀ x ∈ Record.headsOf rs, x ∈ heads) → p < d.hierarchy.size →
      ingestChildren p rs d = .ok () d' → ReflTransGen (IntakeBelow heads) d d'
  | [], d, d', _, _, hd => by
    rw [ingestChildren] at hd
    obtain ⟨-, rfl⟩ := pure_ok.1 hd
    exact .refl
  | r :: rs, d, d', hm, hp, hd => by
    rw [ingestChildren] at hd
    obtain ⟨_, d₁, hr, hd⟩ := bind_ok.1 hd
    have hs₁ := ingestChild_ok r (fun x hx => hm x (by simp [Record.headsOf, hx])) hp hr
    exact hs₁.trans (ingestChildren_ok rs (fun x hx => hm x (by simp [Record.headsOf, hx]))
      (Nat.lt_of_lt_of_le hp (grows_of_below hs₁).1) hd)

end

/-- What follows an element at the top: what is below it, and its own entry. -/
theorem ingestBelow_ok {p : ElementId} {children : List Record}
    (hm : ∀ x ∈ Record.headsOf children, x ∈ heads) (hp : p < d.hierarchy.size)
    (ht : (d.hierarchy.kind p).isType = true ∨ d.hierarchy.kind p = .ns)
    (hd : (do ingestChildren p children; addNative p) d = .ok () d') :
    ReflTransGen (IntakeBelow heads) d d' := by
  obtain ⟨_, d₁, hchildren, hd⟩ := bind_ok.1 hd
  have hs := ingestChildren_ok children hm hp hchildren
  have hg := grows_of_below hs
  obtain ⟨r, hr, rfl⟩ := addNative_ok.1 hd
  refine hs.tail (.enter (Nat.lt_of_lt_of_le hp hg.1) ?_ hr)
  rwa [hg.2 p hp]

theorem content_of_tag_ns {r : Record} (hr : r.tag = .ns) : ∃ info, r.content = .ns info := by
  unfold Record.tag at hr
  cases hc : r.content <;> rw [hc] at hr <;> first | exact ⟨_, rfl⟩ | cases hr

theorem content_of_tag_enum {r : Record} (hr : r.tag = .enum) : ∃ info, r.content = .enum info := by
  unfold Record.tag at hr
  cases hc : r.content <;> rw [hc] at hr <;> first | exact ⟨_, rfl⟩ | cases hr

/-- A namespace of the top level: its element, then what is below it. -/
theorem ingestNamespace_run {r : Record} {info : NamespaceInfo} (hc : r.content = .ns info) :
    ingestNamespace r d = (do
      ingestChildren d.hierarchy.size r.children
      addNative d.hierarchy.size)
        { d with hierarchy := d.hierarchy.putNamespace (ofHead r.head (.ns info) r.name r.name) } := by
  have hp : payload? r.head.content = some (.ns info) := by
    rw [← Record.content, hc]
    rfl
  unfold ingestNamespace
  rw [bind_run, create_root_run hp]
  rfl

/-- An enum of the top level whose name does not start with a dot. -/
theorem ingestEnum_run {r : Record} {info : TypeInfo} (hc : r.content = .enum info)
    (hdot : r.name.toList.head? ≠ some '.') :
    ingestEnum r d = (do
      ingestChildren d.hierarchy.size r.children
      addNative d.hierarchy.size)
        { d with hierarchy := d.hierarchy.putEnum (enumOf r.head info) } := by
  have hp : payload? r.head.content = some (.type .enum { info, basesFixed := true }) := by
    rw [← Record.content, hc]
    rfl
  have hname : (d.hierarchy.push _).modify d.hierarchy.size _ =
      d.hierarchy.push (enumOf r.head info) :=
    push_modify_self (f := fun e => { e with name := (splitLast r.name).2 })
  unfold ingestEnum Hierarchy.putEnum
  rw [if_neg hdot]
  change (create r.head .root >>= _) d = _
  rw [bind_run, create_root_run hp, ← hname]
  rfl

theorem ingestEnum_leadingDot {r : Record} (hdot : r.name.toList.head? = some '.') :
    ingestEnum r d = .error (.invalidElement (.leadingDot r.name)) d := by
  unfold ingestEnum
  rw [if_pos hdot]
  rfl

theorem ingestNamespace_ok {r : Record} (hr : r.tag = .ns) (hm : ∀ x ∈ r.heads, x ∈ heads)
    (hd : ingestNamespace r d = .ok () d') :
    ∃ d₁, Intake heads d d₁ ∧ d₁.hierarchy.enums = d.hierarchy.enums ∧
      ReflTransGen (IntakeBelow heads) d₁ d' := by
  obtain ⟨info, hc⟩ := content_of_tag_ns hr
  rw [ingestNamespace_run hc] at hd
  obtain ⟨head, children⟩ := r
  refine ⟨_, .ns (hm head (by simp [Record.heads])) hc, by simp, ingestBelow_ok
    (fun x hx => hm x (by simp [Record.heads, hx])) ?_ (.inr ?_) hd⟩
  · simp
  · rw [Hierarchy.Fresh.putNamespace.kind_new]
    rfl

theorem ingestEnum_ok {r : Record} (hr : r.tag = .enum) (hm : ∀ x ∈ r.heads, x ∈ heads)
    (hd : ingestEnum r d = .ok () d') :
    ∃ info, Intake heads d { d with hierarchy := d.hierarchy.putEnum (enumOf r.head info) } ∧
      ReflTransGen (IntakeBelow heads)
        { d with hierarchy := d.hierarchy.putEnum (enumOf r.head info) } d' := by
  obtain ⟨info, hc⟩ := content_of_tag_enum hr
  by_cases hdot : r.name.toList.head? = some '.'
  · rw [ingestEnum_leadingDot hdot] at hd
    cases hd
  rw [ingestEnum_run hc hdot] at hd
  obtain ⟨head, children⟩ := r
  refine ⟨info, .enum (hm head (by simp [Record.heads])) hc hdot, ingestBelow_ok
    (fun x hx => hm x (by simp [Record.heads, hx])) ?_ (.inl ?_) hd⟩
  · simp
  · rw [Hierarchy.Fresh.putEnum.kind_new]
    rfl

theorem intake_of_below (hs : ReflTransGen (IntakeBelow heads) d d') :
    ReflTransGen (Intake heads) d d' :=
  hs.lift id fun _ _ => .below

theorem ingest_cons {r : Record} {rs : List Record} (hd : ingest (r :: rs) d = .ok () d') :
    ∃ d₁, (r.tag = .ns ∧ ingestNamespace r d = .ok () d₁ ∨
        r.tag = .enum ∧ ingestEnum r d = .ok () d₁ ∨
        r.tag ≠ .ns ∧ r.tag ≠ .enum ∧
          d₁ = { d with registry := d.registry.notice (.unsupported r.name r.tag .top) }) ∧
      ingest rs d₁ = .ok () d' := by
  obtain ⟨_, d₁, hr, hd⟩ := bind_ok.1 hd
  refine ⟨d₁, ?_, hd⟩
  dsimp only at hr
  cases ht : r.tag with
  | ns => exact .inl ⟨rfl, by rwa [ht] at hr⟩
  | enum => exact .inr (.inl ⟨rfl, by rwa [ht] at hr⟩)
  | _ =>
    rw [ht] at hr
    exact .inr (.inr ⟨by simp, by simp, (notice_ok.1 hr).symm⟩)

/-- The pass over the forest is a sequence of steps. -/
theorem ingest_ok {rs : List Record} (hm : ∀ x ∈ Record.headsOf rs, x ∈ heads)
    (hd : ingest rs d = .ok () d') : ReflTransGen (Intake heads) d d' := by
  induction rs generalizing d with
  | nil =>
    obtain ⟨-, rfl⟩ := pure_ok.1 hd
    exact .refl
  | cons r rs ih =>
    have hhead : ∀ x ∈ r.heads, x ∈ heads := fun x hx => hm x (by simp [Record.headsOf, hx])
    have hrest : ∀ x ∈ Record.headsOf rs, x ∈ heads := fun x hx =>
      hm x (by simp [Record.headsOf, hx])
    obtain ⟨d₁, hr, hd⟩ := ingest_cons hd
    refine .trans ?_ (ih hrest hd)
    rcases hr with ⟨ht, hr⟩ | ⟨ht, hr⟩ | ⟨-, -, rfl⟩
    · obtain ⟨d₂, hs, -, hbelow⟩ := ingestNamespace_ok ht hhead hr
      exact (intake_of_below hbelow).head hs
    · obtain ⟨info, hs, hbelow⟩ := ingestEnum_ok ht hhead hr
      exact (intake_of_below hbelow).head hs
    · exact .single (.below (.notice _ _ _))

end Build

end BindingTree
