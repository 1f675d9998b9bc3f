import BindingTree.Proofs.Build.Accepted

/-! What elements hold. Taking a forest in makes one element for each accepted record, in preorder,
and a type ends up with the names of base types that its record gives: what it extends, then what it
implements, repetitions left out. Up to the making of invokers no payload changes any more, and the
types that the build adds on its own have fixed base types and need no invokers. -/

namespace BindingTree

open Build Naming
open Relation (ReflTransGen)

/-! ### Lists without repetitions -/

section Repetitions
variable {α : Type} [BEq α] [LawfulBEq α] {l : List α} {a : α}

theorem eraseDups_concat [DecidableEq α] :
    (l ++ [a]).eraseDups = if a ∈ l then l.eraseDups else l.eraseDups ++ [a] := by
  rw [List.eraseDups_append]
  split
  next ha => simp [List.removeAll, ha]
  next ha => simp [List.removeAll, ha, List.eraseDups_cons]

theorem nodup_eraseDups [DecidableEq α] (l : List α) : l.eraseDups.Nodup := by
  induction l using List.reverseRecOn with
  | nil => simp
  | append_singleton l a ih =>
    rw [eraseDups_concat]
    split
    next => exact ih
    next ha =>
      rw [← List.concat_eq_append]
      exact ih.concat (mt List.mem_eraseDups.1 ha)

theorem eraseDups_of_nodup [DecidableEq α] (hn : l.Nodup) : l.eraseDups = l := by
  induction l using List.reverseRecOn with
  | nil => simp
  | append_singleton l a ih =>
    rw [← List.concat_eq_append, List.nodup_concat] at hn
    rw [eraseDups_concat, if_neg hn.1, ih hn.2]

end Repetitions

/-! ### What a record gives its element -/

namespace Record

/-- The names of base types among the children of a record: those of implemented interfaces. -/
def implemented (children : List Record) : List String :=
  children.filterMap fun c => if c.tag = .implements then baseName? c.name else none

/-- The names of base types that a record gives, with repetitions: what it extends, then what it
implements. -/
def baseNames (r : Record) : List String :=
  match r.content with
  | .cls i => (i.base.bind baseName?).toList ++ implemented r.children
  | .iface _ => implemented r.children
  | _ => []

mutual

/-- The accepted records from a record on, each with all that is below it, in preorder. -/
def takenFrom (site : Option Kind) : Record → List Record
  | ⟨head, children⟩ =>
    if head.content.tag.acceptedAt site then
      ⟨head, children⟩ :: takenBelow head.content.tag.kind? children
    else []

def takenBelow (site : Option Kind) : List Record → List Record
  | [] => []
  | r :: rs => r.takenFrom site ++ takenBelow site rs

end

/-- The accepted records of a forest, each with all that is below it, in preorder. -/
def taken (rs : List Record) : List Record := takenBelow none rs

/-- The name that a record below an element of a kind hands on to it as that of a base type. -/
def handedOn (k : Kind) (r : Record) : Option String :=
  if accepts k r.tag && r.tag = .implements then baseName? r.name else none

end Record

/-- A payload with other facts, if it is that of a type. -/
def Payload.mapFacts (f : TypeFacts → TypeFacts) : Payload → Payload
  | .type k facts => .type k (f facts)
  | payload => payload

/-- A payload with names of base types. -/
def Payload.based (names : List String) : Payload → Payload :=
  Payload.mapFacts fun facts => { facts with baseNames := names }

/-- What the element of a record holds in the end. -/
def Record.payload? (r : Record) : Option Payload :=
  (Build.payload? r.content).map (Payload.based r.baseNames.eraseDups)

def Hierarchy.payload (h : Hierarchy) (i : ElementId) : Payload := (h.element i).payload

variable {p : Plan} {rs : List Record} {s : Settings} {d d' d₁ d₂ d₃ d₄ d₅ d₆ : Draft}
  {h h' h'' h₁ h₂ : Hierarchy} {i j q : ElementId} {head : Record.Head} {r : Record}
  {payload : Payload} {k : Kind} {tk : TypeKind} {facts : TypeFacts} {e : Element}
  {names names' : List String} {records records' : List Record}

theorem Element.payload_withFacts (f : TypeFacts → TypeFacts) (e : Element) :
    (e.withFacts f).payload = e.payload.mapFacts f := by
  unfold withFacts
  cases hp : e.payload with
  | type k facts => rfl
  | _ => exact hp

namespace Record

mutual

theorem map_head_takenFrom (site : Option Kind) : ∀ r : Record,
    (r.takenFrom site).map Record.head = acceptedOf (r.met site)
  | ⟨head, children⟩ => by
    unfold takenFrom met
    split
    · rw [List.map_cons, map_head_takenBelow]
      rfl
    · rfl

theorem map_head_takenBelow (site : Option Kind) : ∀ rs : List Record,
    (takenBelow site rs).map Record.head = acceptedOf (metIn site rs)
  | [] => by
    unfold takenBelow metIn
    rfl
  | r :: rs => by
    unfold takenBelow metIn
    rw [List.map_append, map_head_takenFrom, map_head_takenBelow]
    simp [acceptedOf]

end

theorem map_head_taken (rs : List Record) : (taken rs).map Record.head = accepted rs :=
  map_head_takenBelow none rs

end Record

/-- The name that a record gives for itself, before its children are looked at. -/
def Content.baseNames : Content → List String
  | .cls i => (i.base.bind baseName?).toList
  | _ => []

theorem based_of_payload? {c : Content} (hp : Build.payload? c = some payload) :
    payload = payload.based c.baseNames.eraseDups := by
  cases c <;> cases hp <;> try rfl
  next i => cases h : i.base.bind baseName? <;> simp [Payload.based, Payload.mapFacts,
    Content.baseNames, h, List.eraseDups_cons]

/-- What a record's own name of a base type and its children's come to. -/
theorem payload?_eq_based {children : List Record}
    (hp : Build.payload? head.content = some payload) :
    Record.payload? ⟨head, children⟩ = some (payload.based
      (head.content.baseNames ++ children.filterMap (Record.handedOn payload.kind)).eraseDups) := by
  have hunder : ∀ k : Kind, accepts k .implements = true →
      children.filterMap (Record.handedOn k) = Record.implemented children := by
    intro k ha
    refine List.filterMap_congr fun c _ => ?_
    by_cases hc : c.tag = .implements <;> simp [Record.handedOn, hc, ha]
  have hapart : ∀ k : Kind, accepts k .implements = false →
      children.filterMap (Record.handedOn k) = [] := by
    intro k ha
    refine List.filterMap_eq_nil_iff.2 fun c _ => ?_
    by_cases hc : c.tag = .implements <;> simp [Record.handedOn, hc, ha]
  rw [Record.payload?, Record.content, hp, Option.map_some]
  cases hc : head.content <;> rw [hc] at hp <;> cases hp <;> try rfl
  · rw [hunder _ rfl]
    simp [Record.baseNames, Record.content, hc, Content.baseNames]
  · rw [hunder _ rfl]
    simp [Record.baseNames, Record.content, hc, Content.baseNames]
  · rw [hapart _ rfl]
    simp [Record.baseNames, Record.content, hc, Content.baseNames]

/-! ### Taking records in -/

namespace Build

/-- Elements were made for records, one for each in order, and none of those before was changed but
possibly one. -/
structure Added (changed : Option ElementId) (records : List Record) (h h' : Hierarchy) : Prop where
  size : h'.size = h.size + records.length
  kept : ∀ i < h.size, changed ≠ some i → h'.payload i = h.payload i
  fresh : ∀ {n : Nat} {r : Record}, records[n]? = some r →
    r.payload? = some (h'.payload (h.size + n))

/-- Names of base types were added to those of an element. -/
def Handed (q : ElementId) (names : List String) (h h' : Hierarchy) : Prop :=
  ∀ (payload : Payload) (seen : List String), h.payload q = payload.based seen.eraseDups →
    h'.payload q = payload.based (seen ++ names).eraseDups

theorem Added.trans {changed : Option ElementId} (ha : Added changed records h h')
    (ha' : Added changed records' h' h'') (hq : ∀ q, changed = some q → q < h.size) :
    Added changed (records ++ records') h h'' where
  size := by rw [ha'.size, ha.size, List.length_append, Nat.add_assoc]
  kept i hi hne := by
    have hlt : i < h'.size := ha.size ▸ Nat.lt_add_right _ hi
    rw [ha'.kept i hlt hne, ha.kept i hi hne]
  fresh {n r} hr := by
    rcases Nat.lt_or_ge n records.length with hn | hn
    · rw [List.getElem?_append_left hn] at hr
      have hlt : h.size + n < h'.size := ha.size ▸ Nat.add_lt_add_left hn _
      have hne : changed ≠ some (h.size + n) := fun heq =>
        absurd (hq _ heq) (Nat.not_lt.2 (Nat.le_add_right _ _))
      rw [ha'.kept _ hlt hne, ha.fresh hr]
    · rw [List.getElem?_append_right hn] at hr
      have hid : h'.size + (n - records.length) = h.size + n := by
        rw [ha.size, Nat.add_assoc, Nat.add_sub_cancel' hn]
      rw [ha'.fresh hr, hid]

theorem Handed.trans (hh : Handed q names h h') (hh' : Handed q names' h' h'') :
    Handed q (names ++ names') h h'' := by
  intro payload seen hq
  rw [← List.append_assoc]
  exact hh' payload _ (hh payload seen hq)

theorem Added.refl (changed : Option ElementId) (h : Hierarchy) : Added changed [] h h where
  size := rfl
  kept _ _ _ := rfl
  fresh hr := by cases hr

theorem Handed.refl (q : ElementId) (h : Hierarchy) : Handed q [] h h := by
  intro payload seen hq
  rwa [List.append_nil]

/-- The element of a record and those of the records below it. -/
theorem Added.record {changed : Option ElementId} {children : List Record}
    (hp : Build.payload? head.content = some payload) (hsize : h₁.size = h.size + 1)
    (hnew : h₁.payload h.size = payload)
    (hkept : ∀ i < h.size, changed ≠ some i → h₁.payload i = h.payload i)
    (ha : Added (some h.size) records h₁ h₂)
    (hh : Handed h.size (children.filterMap (Record.handedOn payload.kind)) h₁ h₂) :
    Added changed (⟨head, children⟩ :: records) h h₂ where
  size := by rw [ha.size, hsize, List.length_cons, Nat.add_right_comm, Nat.add_assoc]
  kept i hi hne := by
    have hlt : i < h₁.size := hsize ▸ Nat.lt_succ_of_lt hi
    have hi' : some h.size ≠ some i := fun heq => absurd (Option.some.inj heq) (Nat.ne_of_gt hi)
    rw [ha.kept i hlt hi', hkept i hi hne]
  fresh {n r} hr := by
    cases n with
    | zero =>
      cases hr
      rw [payload?_eq_based hp, Nat.add_zero,
        hh payload _ (hnew.trans (based_of_payload? hp))]
    | succ n => rw [ha.fresh hr, hsize, Nat.add_assoc, Nat.add_comm 1 n]

theorem payload_fresh {o : Owner} {e : Element} (hf : h.Fresh h₁ o e) (hi : i < h.size) :
    h₁.payload i = h.payload i := by
  rw [Hierarchy.payload, hf.element_of_lt hi, Hierarchy.payload]

/-- A record below an element, with a name handed on before the records below it are looked at. -/
theorem added_child {children : List Record} {e : Element}
    (hp : Build.payload? head.content = some payload) (hf : h.Fresh h₁ (.element q) e)
    (hnew : h₂.payload h.size = payload) (hsize : h₂.size = h₁.size)
    (hkept : ∀ i, i ≠ q → h₂.payload i = h₁.payload i) (hhand : Handed q names h₁ h₂)
    (hq : q < h.size) (ha : Added (some h.size) records h₂ h')
    (hh : Handed h.size (children.filterMap (Record.handedOn payload.kind)) h₂ h') :
    Added (some q) (⟨head, children⟩ :: records) h h' ∧ Handed q names h h' := by
  have hsize' : h₂.size = h.size + 1 := hsize.trans hf.size
  have hold : ∀ i < h.size, some q ≠ some i → h₂.payload i = h.payload i := by
    intro i hi hne
    rw [hkept i fun he => hne (congrArg some he.symm), payload_fresh hf hi]
  refine ⟨.record hp hsize' hnew hold ha hh, fun payload' seen hpay => ?_⟩
  have hlt : q < h₂.size := hsize' ▸ Nat.lt_succ_of_lt hq
  have hne : some h.size ≠ some q := fun he => absurd (Option.some.inj he) (Nat.ne_of_gt hq)
  rw [ha.kept q hlt hne]
  exact hhand payload' seen ((payload_fresh hf hq).trans hpay)

theorem payload_withFacts_addBaseName {name : String} {e : Element} {seen : List String}
    (he : e.payload = payload.based seen.eraseDups) :
    (e.withFacts (addBaseName name)).payload = payload.based (seen ++ [name]).eraseDups := by
  rw [Element.payload_withFacts, he, eraseDups_concat]
  cases payload with
  | type k facts =>
    by_cases hmem : name ∈ seen <;>
      simp [Payload.based, Payload.mapFacts, addBaseName, List.mem_eraseDups, hmem]
  | _ => rfl

/-- Handing a name on changes the owner alone. -/
theorem handed_of_inherit (children : List Record) {u : Unit}
    (ha : accepts k head.content.tag = true) (hd : inherit q head d = .ok u d')
    (hq : q < d.hierarchy.size) :
    d'.hierarchy.size = d.hierarchy.size ∧
      (∀ i, i ≠ q → d'.hierarchy.payload i = d.hierarchy.payload i) ∧
        Handed q (Record.handedOn k ⟨head, children⟩).toList d.hierarchy d'.hierarchy := by
  have htag : (⟨head, children⟩ : Record).tag = head.content.tag := rfl
  have hname : (⟨head, children⟩ : Record).name = head.name := rfl
  unfold Record.handedOn
  rw [htag, hname, ha, Bool.true_and]
  by_cases hc : head.content.tag = .implements
  · cases hn : baseName? head.name with
    | none =>
      unfold inherit at hd
      simp only [hc, hn] at hd
      obtain ⟨-, rfl⟩ := pure_ok.1 hd
      exact ⟨rfl, fun _ _ => rfl, by simpa [hc] using Handed.refl q d.hierarchy⟩
    | some name =>
      unfold inherit at hd
      simp only [hc, hn] at hd
      obtain rfl := editElement_ok.1 hd
      refine ⟨Hierarchy.size_modify, fun i hi => ?_, fun payload seen hpay => ?_⟩
      · rw [Hierarchy.payload, Hierarchy.element_modify_of_ne hi, Hierarchy.payload]
      · simp only [hc, decide_true, if_true, Option.toList_some]
        rw [Hierarchy.payload, Hierarchy.element_modify_self hq]
        exact payload_withFacts_addBaseName hpay
  · have hpure : inherit q head = pure () := by
      unfold inherit
      split
      next h _ => exact absurd h hc
      next => rfl
    rw [hpure] at hd
    obtain ⟨-, rfl⟩ := pure_ok.1 hd
    exact ⟨rfl, fun _ _ => rfl, by simpa [hc] using Handed.refl q d.hierarchy⟩

mutual

theorem added_ingestChild {k : Kind} {q : ElementId} : ∀ (r : Record) {d d' : Draft},
    q < d.hierarchy.size → d.hierarchy.kind q = k → ingestChild q r d = .ok () d' →
      Added (some q) (r.takenFrom (some k)) d.hierarchy d'.hierarchy ∧
        Handed q (r.handedOn k).toList d.hierarchy d'.hierarchy
  | ⟨head, children⟩, d, d', hq, hk, hd => by
    simp only [ingestChild, bind_ok, element_ok] at hd
    obtain ⟨_, _, ⟨rfl, rfl⟩, hd⟩ := hd
    rw [← Hierarchy.kind, hk] at hd
    rw [Record.takenFrom, Tag.acceptedAt]
    split at hd
    next ha =>
      rw [if_pos ha]
      obtain ⟨id, d₁, hcreate, hd⟩ := bind_ok.1 hd
      obtain ⟨payload, hp, rfl, rfl⟩ := create_below_ok hcreate
      obtain ⟨_, d₂, hinherit, hd⟩ := bind_ok.1 hd
      obtain ⟨_, d₃, hchildren, hd⟩ := bind_ok.1 hd
      have hd₃ : d'.hierarchy = d₃.hierarchy := by
        obtain ⟨_, _, he, hd⟩ := bind_ok.1 hd
        obtain ⟨-, rfl⟩ := element_ok.1 he
        split at hd
        · obtain ⟨r, -, rfl⟩ := addNative_ok.1 hd
          rfl
        · obtain ⟨-, rfl⟩ := pure_ok.1 hd
          rfl
      rw [hd₃, kind?_of_payload? hp]
      have hf : d.hierarchy.Fresh (d.hierarchy.putBelow q (elementBelow d.hierarchy q head payload))
        (.element q) (elementBelow d.hierarchy q head payload) := .putBelow
      have hq₁ : q < (d.hierarchy.putBelow q (elementBelow d.hierarchy q head payload)).size :=
        Nat.lt_trans hq hf.size_lt
      obtain ⟨hsize₂, hkept₂, hhand₂⟩ := handed_of_inherit children ha hinherit hq₁
      have hnew : d₂.hierarchy.payload d.hierarchy.size = payload := by
        rw [hkept₂ _ (Nat.ne_of_gt hq), Hierarchy.payload, hf.element_new]
        rfl
      have hlt : d.hierarchy.size < d₂.hierarchy.size :=
        Nat.lt_of_lt_of_eq hf.size_lt hsize₂.symm
      obtain ⟨ha₃, hh₃⟩ := added_ingestChildren children hlt (congrArg Payload.kind hnew) hchildren
      exact added_child hp hf hnew hsize₂ hkept₂ hhand₂ hq ha₃ hh₃
    next ha =>
      rw [if_neg ha]
      obtain rfl := notice_ok.1 hd
      have hnone : Record.handedOn k ⟨head, children⟩ = none := by
        have hrejected : accepts k (⟨head, children⟩ : Record).tag = false :=
          Bool.eq_false_iff.2 ha
        simp [Record.handedOn, hrejected]
      rw [hnone]
      exact ⟨.refl _ _, .refl _ _⟩

theorem added_ingestChildren {k : Kind} {q : ElementId} : ∀ (rs : List Record) {d d' : Draft},
    q < d.hierarchy.size → d.hierarchy.kind q = k → ingestChildren q rs d = .ok () d' →
      Added (some q) (Record.takenBelow (some k) rs) d.hierarchy d'.hierarchy ∧
        Handed q (rs.filterMap (Record.handedOn k)) d.hierarchy d'.hierarchy
  | [], d, d', _, _, hd => by
    rw [ingestChildren] at hd
    obtain ⟨-, rfl⟩ := pure_ok.1 hd
    exact ⟨.refl _ _, .refl _ _⟩
  | r :: rs, d, d', hq, hk, hd => by
    rw [ingestChildren] at hd
    obtain ⟨_, d₁, hr, hd⟩ := bind_ok.1 hd
    have ht := takenIn_ingestChild r hq hk hr
    obtain ⟨ha, hh⟩ := added_ingestChild r hq hk hr
    obtain ⟨ha', hh'⟩ := added_ingestChildren rs (Nat.lt_of_lt_of_le hq ht.size_le)
      ((ht.kind hq).trans hk) hd
    refine ⟨ha.trans ha' fun q' he => Option.some.inj he ▸ hq, ?_⟩
    have hnames : (r :: rs).filterMap (Record.handedOn k) =
        (r.handedOn k).toList ++ rs.filterMap (Record.handedOn k) := by
      cases hr : r.handedOn k <;> simp [hr]
    rw [hnames]
    exact hh.trans hh'

end

/-- A record at the top whose element has been made. -/
theorem added_top {o : Owner} {e : Element} (hf : d.hierarchy.Fresh h' o e)
    (hp : payload? r.content = some e.payload) (hsite : r.tag.acceptedAt none = true)
    (hd : (do
      ingestChildren d.hierarchy.size r.children
      addNative d.hierarchy.size) { d with hierarchy := h' } = .ok () d') :
    Added none (r.takenFrom none) d.hierarchy d'.hierarchy := by
  obtain ⟨head, children⟩ := r
  obtain ⟨_, d₁, hchildren, hadd⟩ := bind_ok.1 hd
  obtain ⟨r, -, rfl⟩ := addNative_ok.1 hadd
  obtain ⟨ha, hh⟩ := added_ingestChildren children (d := { d with hierarchy := h' }) hf.size_lt
    hf.kind_new hchildren
  have hsite' : head.content.tag.acceptedAt none = true := hsite
  have hp' : payload? head.content = some e.payload := hp
  rw [Record.takenFrom, if_pos hsite', kind?_of_payload? hp']
  refine .record hp' hf.size ?_ (fun i hi _ => payload_fresh hf hi) ha hh
  rw [Hierarchy.payload, hf.element_new]

theorem added_ingest (hd : ingest rs d = .ok () d') :
    Added none (Record.taken rs) d.hierarchy d'.hierarchy := by
  unfold Record.taken
  induction rs generalizing d with
  | nil =>
    obtain ⟨-, rfl⟩ := pure_ok.1 hd
    exact .refl _ _
  | cons r rs ih =>
    obtain ⟨d₁, hr, hrest⟩ := ingest_cons hd
    rw [Record.takenBelow]
    refine Added.trans ?_ (ih hrest) fun q hq => by cases hq
    rcases hr with ⟨ht, hr⟩ | ⟨ht, hr⟩ | ⟨hns, henum, rfl⟩
    · obtain ⟨info, hc⟩ := content_of_tag_ns ht
      rw [ingestNamespace_run hc] at hr
      exact added_top .putNamespace (by rw [hc]; rfl) (by rw [ht]; rfl) hr
    · obtain ⟨info, hc⟩ := content_of_tag_enum ht
      by_cases hdot : r.name.toList.head? = some '.'
      · rw [ingestEnum_leadingDot hdot] at hr
        cases hr
      rw [ingestEnum_run hc hdot] at hr
      exact added_top .putEnum (by rw [hc]; rfl) (by rw [ht]; rfl) hr
    · obtain ⟨head, children⟩ := r
      have hsite : ¬ head.content.tag.acceptedAt none = true := by
        have hns' : head.content.tag ≠ .ns := hns
        have henum' : head.content.tag ≠ .enum := henum
        simp [Tag.acceptedAt, hns', henum']
      rw [Record.takenFrom, if_neg hsite]
      exact .refl _ _

end Build

/-! ### Later passes -/

/-- What an element may hold that the build makes on its own, invokers apart. -/
inductive Payload.Supporting : Payload → Prop where
  | ns : Supporting (.ns {})
  | type (k : TypeKind) (hk : k = .iface ∨ k = .cls) :
    Supporting (.type k { basesFixed := true, needsNoInvoker := true })

namespace Build

/-- Payloads stay, and what is made supports generated code. -/
structure PayloadsKept (h h' : Hierarchy) : Prop where
  size : h.size ≤ h'.size
  kept : ∀ i < h.size, h'.payload i = h.payload i
  made : ∀ i, h.size ≤ i → (h'.payload i).Supporting

theorem supporting_of_size_le (hi : h.size ≤ i) : (h.payload i).Supporting := by
  rw [Hierarchy.payload, Hierarchy.element, Hierarchy.node_of_size_le hi]
  exact .ns

namespace PayloadsKept

theorem of_same (hs : h'.size = h.size) (hp : ∀ i, h'.payload i = h.payload i) :
    PayloadsKept h h' where
  size := Nat.le_of_eq hs.symm
  kept i _ := hp i
  made i hi := hp i ▸ supporting_of_size_le hi

theorem refl (h : Hierarchy) : PayloadsKept h h := of_same rfl fun _ => rfl

theorem trans (h₁ : PayloadsKept h h') (h₂ : PayloadsKept h' h'') : PayloadsKept h h'' where
  size := Nat.le_trans h₁.size h₂.size
  kept i hi := (h₂.kept i (Nat.lt_of_lt_of_le hi h₁.size)).trans (h₁.kept i hi)
  made i hi := by
    by_cases hlt : i < h'.size
    · rw [h₂.kept i hlt]
      exact h₁.made i hi
    · exact h₂.made i (Nat.not_lt.1 hlt)

theorem of_fresh {o : Owner} {e : Element} (hf : h.Fresh h' o e) (he : e.payload.Supporting) :
    PayloadsKept h h' where
  size := Nat.le_of_lt hf.size_lt
  kept i hi := payload_fresh hf hi
  made i hi := by
    rw [Hierarchy.payload, hf.element]
    split
    · exact he
    · exact supporting_of_size_le hi

theorem modify {f : Element → Element} (hf : ∀ e, (f e).payload = e.payload) :
    PayloadsKept h (h.modify i f) :=
  of_same Hierarchy.size_modify fun _ => Hierarchy.congr_element_modify Element.payload hf

end PayloadsKept

theorem payloadsKept_of_support (hs : Support s d d') :
    PayloadsKept d.hierarchy d'.hierarchy := by
  cases hs with
  | ns hn hr => exact .of_fresh .putNamespace .ns
  | give hne => exact .modify (f := givenAs s.runtimeNamespace) fun _ => rfl
  | type hns hk hr => exact .of_fresh .putBelow (.type _ (hk.imp And.left And.left))

theorem payloadsKept_of_supports (hs : ReflTransGen (Support s) d d') :
    PayloadsKept d.hierarchy d'.hierarchy := by
  induction hs with
  | refl => exact .refl _
  | tail _ hs ih => exact ih.trans (payloadsKept_of_support hs)

theorem TypesNested.payloads (ht : TypesNested d h') : PayloadsKept d.hierarchy h' := by
  refine .of_same ht.size fun i => ?_
  obtain ⟨name, hname⟩ := ht.named i
  rw [Hierarchy.payload, hname, Hierarchy.payload]

theorem payloadsKept_of_assign {t : Translator} (hd : assignManagedName t i d = .ok () d') :
    PayloadsKept d.hierarchy d'.hierarchy := by
  obtain ⟨managed, r, -, rfl, -⟩ := assignManagedName_ok hd
  exact .modify (f := managedAs managed _) fun _ => rfl

theorem payloadsKept_of_forM {f : ElementId → Build Unit} {is : List ElementId}
    (hf : ∀ {i : ElementId} {d d' : Draft}, f i d = .ok () d' →
      PayloadsKept d.hierarchy d'.hierarchy) (hd : is.forM f d = .ok () d') :
    PayloadsKept d.hierarchy d'.hierarchy :=
  forM_ok (I := fun _ d₁ => PayloadsKept d.hierarchy d₁.hierarchy)
    (fun _ _ _ _ hkept hi => hkept.trans (hf hi)) (.refl _) hd

theorem payloadsKept_of_rename {t : Translator} (hd : renameEnum t i d = .ok () d') :
    PayloadsKept d.hierarchy d'.hierarchy := by
  obtain ⟨r, -, hnames⟩ := renameEnum_ok hd
  have hfull : PayloadsKept d.hierarchy (fullyNamed d.hierarchy i) := .modify fun _ => rfl
  exact hfull.trans (payloadsKept_of_forM payloadsKept_of_assign hnames)

theorem payloadsKept_of_nestEnums {t : Translator} (hs : d.Sound)
    (hd : nestEnums t d = .ok () d') : PayloadsKept d.hierarchy d'.hierarchy := by
  obtain ⟨-, h₁, hmade, hrename⟩ := nestEnums_moves hs hd
  have hsame := Moves.sameElements_makeAll hmade
  have hmoved : PayloadsKept d.hierarchy h₁ :=
    .of_same hsame.size fun i => by rw [Hierarchy.payload, hsame.element, Hierarchy.payload]
  exact hmoved.trans (payloadsKept_of_forM payloadsKept_of_rename hrename)

end Build

namespace Stages

variable (hst : Stages p rs d₁ d₂ d₃ d₄ d₅ d₆ d')
include hst

theorem payloadsKept : PayloadsKept d₁.hierarchy d₅.hierarchy :=
  (((payloadsKept_of_supports hst.support).trans hst.types.payloads).trans
    (payloadsKept_of_forM payloadsKept_of_assign hst.names)).trans
      (payloadsKept_of_nestEnums hst.sound_named hst.nesting)

/-- Before invokers are made, each element holds what its record says, or supports generated
code. -/
theorem payload_enclosed (i : ElementId) :
    (∃ r, (Record.taken rs)[i]? = some r ∧ r.payload? = some (d₅.hierarchy.payload i)) ∨
      (d₅.hierarchy.payload i).Supporting := by
  have hadded := added_ingest hst.ingest
  have hsize : d₁.hierarchy.size = (Record.taken rs).length := by
    rw [hadded.size]
    exact Nat.zero_add _
  by_cases hi : i < d₁.hierarchy.size
  · obtain ⟨r, hr⟩ : ∃ r, (Record.taken rs)[i]? = some r :=
      ⟨_, List.getElem?_eq_getElem (hsize ▸ hi)⟩
    refine .inl ⟨r, hr, ?_⟩
    rw [hst.payloadsKept.kept i hi, hadded.fresh hr]
    exact congrArg (fun j => some (d₁.hierarchy.payload j)) (Nat.zero_add i)
  · exact .inr (hst.payloadsKept.made i (Nat.not_lt.1 hi))

end Stages

/-- Facts of a type for which nothing has been found yet. -/
structure TypeFacts.Unlinked (facts : TypeFacts) : Prop where
  bases : facts.bases = none
  invoker : facts.invoker = none
  invoked : facts.invoked = none

theorem Record.baseNames_of_payload? (hr : r.payload? = some (.type tk facts)) :
    facts.baseNames = r.baseNames.eraseDups := by
  unfold Record.payload? at hr
  cases hc : r.content <;> rw [hc] at hr <;> cases hr <;> rfl

/-- Before invokers are made there are none, and no type is linked to another. -/
theorem Stages.facts_enclosed (hst : Stages p rs d₁ d₂ d₃ d₄ d₅ d₆ d')
    (hp : d₅.hierarchy.payload i = .type tk facts) : tk ≠ .invoker ∧ facts.Unlinked := by
  rcases hst.payload_enclosed i with ⟨r, -, hr⟩ | hsupport
  · rw [hp] at hr
    unfold Record.payload? at hr
    cases hc : r.content <;> rw [hc] at hr <;> cases hr <;> exact ⟨by simp, rfl, rfl, rfl⟩
  · rw [hp] at hsupport
    cases hsupport with
    | type _ hk =>
      refine ⟨?_, rfl, rfl, rfl⟩
      rintro rfl
      rcases hk with hk | hk <;> cases hk

theorem payload_of_facts? (he : e.facts? = some facts) : ∃ tk, e.payload = .type tk facts := by
  unfold Element.facts? at he
  split at he
  next tk facts' hp =>
    cases he
    exact ⟨tk, hp⟩
  next => cases he

/-- The element of a record stands for it to the end of a build. -/
theorem standsFor_of_taken (hd : p.passes rs p.blank = .ok () d)
    (hr : (Record.taken rs)[i]? = some r) : (d.hierarchy.element i).origin.StandsFor r.head := by
  obtain ⟨d₁, hingest, hkept⟩ := kept_of_passes hd
  obtain ⟨fresh, horigins, hstand⟩ := (takenIn_ingest hingest).origins
  have hnone : p.blank.hierarchy.origins = [] := rfl
  rw [hnone, List.nil_append] at horigins
  have hhead : (Record.accepted rs)[i]? = some r.head := by
    rw [← Record.map_head_taken, List.getElem?_map, hr, Option.map_some]
  obtain ⟨hlt, hget⟩ := List.getElem?_eq_some_iff.1 hhead
  have hlt₁ : i < d₁.hierarchy.origins.length := by
    rw [horigins, hstand.length_eq]
    exact hlt
  have hstands := List.Forall₂.get hstand (horigins ▸ hlt₁) hlt
  rw [hkept.origin (Hierarchy.length_origins ▸ hlt₁), ← Hierarchy.getElem_origins hlt₁]
  simp only [horigins]
  rw [← hget]
  exact hstands

end BindingTree
