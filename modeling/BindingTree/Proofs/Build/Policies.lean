import BindingTree.Proofs.Build.Run
import BindingTree.Proofs.Index.Entries

/-! Runs of one operation under the two policies for clashes, side by side. As long as no clash is
noticed the two go the same way. At the first clash that the one policy reports the other fails, with
the clash for its failure and with what was noticed up to then. -/

namespace BindingTree

/-- Whether no clash is among some notices. -/
def Quiet (log : List Notice) : Prop := ∀ n ∈ log, n.kind ≠ .duplicateEntry

namespace Registry

/-- The registry under the strict policy. -/
def strict (r : Registry) : Registry := { r with index := { r.index with policy := .strict } }

/-- Whether a registry is under the policy of new keys and no clash has been noticed. -/
structure Clean (r : Registry) : Prop where
  policy : r.index.policy = .rekey
  quiet : Quiet r.log

end Registry

/-- The draft under the strict policy. -/
def Draft.strict (d : Draft) : Draft := { d with registry := d.registry.strict }

namespace Build

variable {α β ι : Type} {d d' : Draft} {m : Build α} {f : α → Build β}

/-- A result with its draft under the strict policy. -/
def strictly : EStateM.Result Failure Draft α → EStateM.Result Failure Draft α
  | .ok a d => .ok a d.strict
  | .error failure d => .error failure d.strict

/-- What a run under the policy of new keys comes to, beside the same run under the strict one. -/
inductive Beside : EStateM.Result Failure Draft α → EStateM.Result Failure Draft α → Prop where
  | same {r : EStateM.Result Failure Draft α} (hc : (ending r).registry.Clean) : Beside r (strictly r)
  | clash {r : EStateM.Result Failure Draft α} {c : Clash} {d : Draft} {after : List Notice}
      (hq : Quiet d.registry.log)
      (hlog : (ending r).registry.log = d.registry.log ++ .clash c :: after) :
      Beside r (.error (.duplicate c) d)

/-- The two policies agree on an operation at a draft, and the log goes on from what it was. -/
structure Agrees (m : Build α) (d : Draft) : Prop where
  grows : d.registry.log <+: (ending (m d)).registry.log
  beside : d.registry.Clean → Beside (m d) (m d.strict)

/-! ### Operations in a row -/

/-- An operation that leaves the registry alone and does not depend on the policy. -/
theorem agrees_of_apart (hr : (ending (m d)).registry = d.registry)
    (hs : m d.strict = strictly (m d)) : Agrees m d where
  grows := ⟨[], by rw [hr, List.append_nil]⟩
  beside hc := by
    rw [hs]
    refine .same ?_
    rw [hr]
    exact hc

/-- An operation that runs as another does at a draft with the same log. -/
theorem Agrees.congr {n : Build α} {e : Draft} (hn : Agrees n e)
    (hlog : e.registry.log = d.registry.log)
    (hpolicy : e.registry.index.policy = d.registry.index.policy)
    (hd : m d = n e) (hs : m d.strict = n e.strict) : Agrees m d where
  grows := by
    rw [hd, ← hlog]
    exact hn.grows
  beside hc := by
    rw [hd, hs]
    exact hn.beside ⟨hpolicy.trans hc.policy, hlog ▸ hc.quiet⟩

theorem Agrees.bind (hm : Agrees m d) (hf : ∀ a d₁, m d = .ok a d₁ → Agrees (f a) d₁) :
    Agrees (m >>= f) d where
  grows := by
    rw [bind_run]
    have hlog := hm.grows
    cases hrun : m d with
    | ok a d₁ =>
      rw [hrun] at hlog
      exact hlog.trans (hf a d₁ hrun).grows
    | error failure d₁ =>
      rw [hrun] at hlog
      exact hlog
  beside hc := by
    have hb := hm.beside hc
    rw [bind_run, bind_run]
    cases hrun : m d with
    | ok a d₁ =>
      rw [hrun] at hb
      generalize m d.strict = r at hb ⊢
      cases hb with
      | same hc₁ => exact (hf a d₁ hrun).beside hc₁
      | @clash c e after hq hlog =>
        -- The strict run is over; the other only adds to what it has noticed.
        obtain ⟨more, hmore⟩ := (hf a d₁ hrun).grows
        change d₁.registry.log = _ at hlog
        have hlog₁ : (ending (f a d₁)).registry.log = e.registry.log ++ .clash c :: (after ++ more) := by
          rw [← hmore, hlog, List.append_assoc, List.cons_append]
        exact .clash hq hlog₁
    | error failure d₁ =>
      rw [hrun] at hb
      generalize m d.strict = r at hb ⊢
      cases hb with
      | same hc₁ => exact .same (r := .error failure d₁) hc₁
      | clash hq hlog => exact .clash hq hlog

/-- Only the policy of the index may not be read. -/
theorem agrees_index_bind {g : Index → Build α}
    (hg : ∀ (ix : Index) (policy : ClashPolicy), g { ix with policy } = g ix)
    (h : Agrees (g d.registry.index) d) : Agrees (index >>= g) d :=
  h.congr rfl rfl rfl (congrFun (hg d.registry.index .strict) d.strict)

/-- A loop, with what holds while some of the list is ahead. -/
theorem agrees_forM {I : List ι → Draft → Prop} {g : ι → Build Unit}
    (hg : ∀ i is d, I (i :: is) d → Agrees (g i) d)
    (hI : ∀ i is d d', I (i :: is) d → g i d = .ok () d' → I is d') {l : List ι} (hl : I l d) :
    Agrees (l.forM g) d := by
  induction l generalizing d with
  | nil => exact agrees_of_apart rfl rfl
  | cons i is ih =>
    exact (hg i is d hl).bind fun _ d₁ hrun => ih (hI i is d d₁ hl hrun)

/-- A loop of rounds that agree everywhere. -/
theorem agrees_forM_of_forall {g : ι → Build Unit} (hg : ∀ i d, Agrees (g i) d) {l : List ι} :
    Agrees (l.forM g) d :=
  agrees_forM (I := fun _ _ => True) (fun i _ d _ => hg i d) (fun _ _ _ _ _ _ => trivial) trivial

/-! ### Single operations -/

theorem agrees_pure {a : α} : Agrees (pure a : Build α) d := agrees_of_apart rfl rfl

theorem agrees_fail {failure : Failure} : Agrees (fail failure : Build α) d :=
  agrees_of_apart rfl rfl

theorem agrees_hierarchy : Agrees hierarchy d := agrees_of_apart rfl rfl

theorem agrees_element {i : ElementId} : Agrees (element i) d := agrees_of_apart rfl rfl

theorem agrees_edit {g : Hierarchy → Hierarchy} : Agrees (edit g) d := agrees_of_apart rfl rfl

theorem agrees_editElement {i : ElementId} {g : Element → Element} : Agrees (editElement i g) d :=
  agrees_edit

theorem agrees_make {e : Element} : Agrees (make e) d := agrees_of_apart rfl rfl

theorem agrees_ofExcept {x : Except Failure α} : Agrees (ofExcept x) d := by
  cases x with
  | ok a => exact agrees_pure
  | error failure => exact agrees_fail

theorem agrees_addMember {p c : ElementId} : Agrees (addMember p c) d :=
  agrees_hierarchy.bind fun _ _ _ => agrees_ofExcept.bind fun _ _ _ => agrees_edit

theorem agrees_onHierarchy {g : EStateM Failure Hierarchy α} : Agrees (onHierarchy g) d := by
  apply agrees_of_apart
  · unfold onHierarchy
    cases g d.hierarchy <;> rfl
  · have hsame : d.strict.hierarchy = d.hierarchy := rfl
    unfold onHierarchy
    rw [hsame]
    cases g d.hierarchy <;> rfl

theorem agrees_lookup {name : String} {hint : Option Kind} {e : Element} :
    Agrees (lookup name hint e) d := by
  have hlookup : ∀ d : Draft, lookup name hint e d =
      ofExcept (d.registry.index.lookup name hint (some e)) d := fun _ => rfl
  apply agrees_of_apart
  · rw [hlookup]
    cases d.registry.index.lookup name hint (some e) <;> rfl
  · rw [hlookup, hlookup]
    change ofExcept (d.registry.index.lookup name hint (some e)) d.strict = _
    cases d.registry.index.lookup name hint (some e) <;> rfl

/-- A notice of anything but a clash. -/
theorem agrees_notice {n : Notice} (hn : n.kind ≠ .duplicateEntry) : Agrees (notice n) d where
  grows := List.prefix_append _ _
  beside hc := by
    refine .same (r := .ok () _) ⟨hc.policy, fun k hk => ?_⟩
    rcases List.mem_append.1 hk with hk | hk
    · exact hc.quiet k hk
    · rw [List.mem_singleton.1 hk]
      exact hn

theorem table_strict {r : Registry} {t : Table} :
    r.strict.index.table t = r.index.table t := by
  cases t <;> rfl

theorem setTable_strict {r : Registry} {t : Table} {es : Entries} :
    r.strict.index.setTable t es = { r.index.setTable t es with policy := .strict } := by
  cases t <;> rfl

theorem remove_strict {r : Registry} {t : Table} {key : String} {i : ElementId} {e : Element} :
    (r.strict.remove t key i e).1 = (r.remove t key i e).1.strict := by
  simp only [Registry.remove, Index.remove, table_strict, setTable_strict]
  rfl

theorem policy_remove {r : Registry} {t : Table} {key : String} {i : ElementId} {e : Element} :
    (r.remove t key i e).1.index.policy = r.index.policy := Index.policy_setTable

/-- Entering an element that has not been entered under the key with its kind before. -/
theorem agrees_insert {t : Table} {key : String} {entry : Entry}
    (hfree : d.registry.Clean →
      Index.leadsTo (d.registry.index.table t) (entry.kind.keyed key) entry.id = false) :
    Agrees (onRegistry (Registry.insert t key entry)) d where
  grows := by
    unfold onRegistry Registry.insert
    cases d.registry.index.insert t key entry with
    | error failure => exact List.prefix_rfl
    | ok result =>
      obtain ⟨index, noticed⟩ := result
      cases noticed with
      | none => exact List.prefix_rfl
      | some c => exact List.prefix_append _ _
  beside hc := by
    unfold onRegistry Registry.insert Index.insert
    simp only [Draft.strict, table_strict, setTable_strict]
    by_cases hkey : key = ""
    · simp only [hkey, if_true]
      exact .same (r := .error _ d) hc
    · simp only [hkey, if_false]
      cases hway : Index.inTheWay? (d.registry.index.table t) key entry with
      | none =>
        exact .same (r := .ok () _) ⟨Index.policy_setTable.trans hc.policy, hc.quiet⟩
      | some existing =>
        simp only [hc.policy, hfree hc]
        exact @Beside.clash _ _ _ _ [] hc.quiet rfl

end Build

end BindingTree
