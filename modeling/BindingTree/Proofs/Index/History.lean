import BindingTree.Proofs.Index.Lookups
import BindingTree.Proofs.Outcomes

/-! The index as a history. Where nothing is removed and names have no colons, the index under the
policy of keys with kinds says no more than the list of what was entered: a look-up gives the last
element of the hinted kind that was entered under the name or, failing that, the last of the kind that
came first, and a clash is noticed where an element of another kind than the first is not the last of
its own kind already. -/

namespace BindingTree

open Naming (Colonless)

/-- An element entered under a name of a table. -/
structure Insertion where
  table : Table
  name : String
  entry : Entry
  deriving DecidableEq, Repr

abbrev History := List Insertion

namespace History

/-- The elements entered under a name of a table, in their order. -/
def under (H : History) (t : Table) (name : String) : List Entry :=
  (H.filter fun i => i.table = t ∧ i.name = name).map Insertion.entry

def latest? (es : List Entry) (k : Kind) : Option Entry := (es.filter (·.kind = k)).getLast?

/-- The last element of the hinted kind, if there is one, and otherwise the last of the kind of the
first element. -/
def answer? (es : List Entry) (hint : Option Kind) : Option Entry :=
  es.head?.bind fun first => (hint.bind (latest? es)).or (latest? es first.kind)

/-- What a name leads to: in the native table if anything was entered under it there, and otherwise in
the managed one. -/
def lookup? (H : History) (name : String) (hint : Option Kind) : Option Entry :=
  if H.under .native name = [] then answer? (H.under .managed name) hint
  else answer? (H.under .native name) hint

/-- The clash in an insertion that follows a history: its kind is not that of the first element under
the name, and its element is not the latest of its kind there. -/
def clash? (H : History) (i : Insertion) : Option Clash :=
  (H.under i.table i.name).head?.bind fun first =>
    if i.entry.kind ≠ first.kind ∧ latest? (H.under i.table i.name) i.entry.kind ≠ some i.entry then
      some ⟨i.name, i.table, first.kind, i.entry.kind⟩
    else none

/-- The clashes in the insertions of `rest`, each looked at after all that came before it. -/
def clashes (past : History) : (rest : History) → List Clash
  | [] => []
  | i :: rest => (clash? past i).toList ++ clashes (past ++ [i]) rest

/-- Whether the first element is of another kind. -/
def startsApart (es : List Entry) (k : Kind) : Bool := es.head?.any (·.kind ≠ k)

/-- The last element of a kind, if the first is of another. -/
def rekeyed? (es : List Entry) (k : Kind) : Option Entry :=
  if startsApart es k then latest? es k else none

end History

namespace Registry

/-- The calls that enter an element. -/
inductive Call where
  | add (id : ElementId) (e : Element)
  | addNative (id : ElementId) (e : Element)
  | addManaged (id : ElementId) (e : Element)

namespace Call

def run : Call → EStateM Failure Registry Unit
  | .add i e => Registry.add i e
  | .addNative i e => Registry.addNative i e
  | .addManaged i e => Registry.addManaged i e

def native (i : ElementId) (e : Element) : History := [⟨.native, e.fullName, ⟨i, e.kind⟩⟩]

/-- An element without a full managed name has no key in the managed table. -/
def managed (i : ElementId) (e : Element) : History :=
  if e.fullManagedText = "" then [] else [⟨.managed, e.fullManagedText, ⟨i, e.kind⟩⟩]

/-- What a call enters. -/
def insertions : Call → History
  | .add i e => native i e ++ managed i e
  | .addNative i e => native i e
  | .addManaged i e => managed i e

end Call

/-- Enters a list of insertions one after the other. -/
def enter (H : History) : EStateM Failure Registry Unit :=
  H.forM fun i => insert i.table i.name i.entry

/-- What calls enter, in their order. -/
def history (calls : List Call) : History := calls.flatMap Call.insertions

/-- An index whose entries and keys are those that a history leaves behind: the plain key of a name
leads to the last element of the first kind, and the key of any other kind to the last of that kind. -/
structure Records (r : Registry) (H : History) : Prop where
  policy : r.index.policy = .rekey
  plain : ∀ t name, Colonless name →
    (r.index.table t).get? name = History.answer? (H.under t name) none
  keyed : ∀ t name (k : Kind),
    (r.index.table t).get? (k.keyed name) = History.rekeyed? (H.under t name) k

end Registry

/-! ### What one more insertion does to a history -/

namespace History

variable {H : History} {i : Insertion} {t : Table} {name : String} {k : Kind} {e first : Entry}
  {es : List Entry}

theorem under_concat : (H ++ [i]).under t name =
    if i.table = t ∧ i.name = name then H.under t name ++ [i.entry] else H.under t name := by
  unfold under
  rw [List.filter_append, List.map_append]
  by_cases h : i.table = t ∧ i.name = name <;> simp [h]

theorem latest?_concat : latest? (es ++ [e]) k = if e.kind = k then some e else latest? es k := by
  unfold latest?
  rw [List.filter_append]
  by_cases h : e.kind = k <;> simp [h]

theorem latest?_eq_some (hl : latest? es k = some e) : e ∈ es ∧ e.kind = k := by
  have hmem := List.mem_of_getLast? hl
  simpa using hmem

/-- The kind of an element that was entered has a latest element. -/
theorem exists_latest? (hf : first ∈ es) : ∃ e, latest? es first.kind = some e := by
  have hne : es.filter (·.kind = first.kind) ≠ [] :=
    List.ne_nil_of_mem (List.mem_filter.2 ⟨hf, by simp⟩)
  exact ⟨_, List.getLast?_eq_some_getLast hne⟩

theorem mem_of_mem_under (he : e ∈ H.under t name) : ∃ i ∈ H, i.entry = e := by
  obtain ⟨i, hi, rfl⟩ := List.mem_map.1 he
  exact ⟨i, List.mem_of_mem_filter hi, rfl⟩

/-- Nothing was entered, or what was entered first is of a kind with a latest element, which is the
answer where no kind is asked for. -/
theorem nil_or_first (es : List Entry) :
    es = [] ∨ ∃ first last, es.head? = some first ∧ latest? es first.kind = some last ∧
      answer? es none = some last := by
  cases es with
  | nil => exact .inl rfl
  | cons first rest =>
    have hfirst : first ∈ first :: rest := List.mem_cons_self
    obtain ⟨last, hlast⟩ := exists_latest? hfirst
    exact .inr ⟨first, last, rfl, hlast, by simpa [answer?] using hlast⟩

theorem exists_answer? (hne : es ≠ []) (hint : Option Kind) : ∃ e, answer? es hint = some e := by
  rcases nil_or_first es with hnil | ⟨first, last, hf, hl, -⟩
  · exact absurd hnil hne
  · rw [answer?, hf, Option.bind_some, hl]
    cases hint.bind (latest? es) with
    | none => exact ⟨last, rfl⟩
    | some e => exact ⟨e, rfl⟩

/-- The native table answers whenever anything was entered under the name there. -/
theorem lookup?_eq_or (H : History) (name : String) (hint : Option Kind) : H.lookup? name hint =
    (answer? (H.under .native name) hint).or (answer? (H.under .managed name) hint) := by
  unfold lookup?
  split
  next hnil => simp [hnil, answer?]
  next hne =>
    obtain ⟨e, he⟩ := exists_answer? hne hint
    rw [he, Option.some_or]

/-- A name leads somewhere unless nothing was entered under it in either table. -/
theorem lookup?_cases (H : History) (name : String) (hint : Option Kind) :
    (∃ e, H.lookup? name hint = some e) ∨
      H.under .native name = [] ∧ H.under .managed name = [] ∧ H.lookup? name hint = none := by
  unfold lookup?
  split
  next hnative =>
    by_cases hmanaged : H.under .managed name = []
    · exact .inr ⟨hnative, hmanaged, by rw [hmanaged]; rfl⟩
    · exact .inl (exists_answer? hmanaged hint)
  next hnative => exact .inl (exists_answer? hnative hint)

theorem startsApart_cons {rest : List Entry} :
    startsApart (first :: rest) k = decide (first.kind ≠ k) := rfl

/-- An element of the first kind takes the plain key, and one of another kind leaves it alone. -/
theorem answer?_concat :
    answer? (es ++ [e]) none = if startsApart es e.kind then answer? es none else some e := by
  cases es with
  | nil => simp [startsApart, answer?, latest?]
  | cons first rest =>
    have hplain : ∀ rest, answer? (first :: rest) none = latest? (first :: rest) first.kind :=
      fun _ => rfl
    rw [List.cons_append, hplain, hplain, ← List.cons_append, latest?_concat, startsApart_cons]
    by_cases hk : e.kind = first.kind
    · simp [hk]
    · simp [hk, Ne.symm hk]

/-- An element of another kind than the first takes the key of its kind. -/
theorem rekeyed?_concat : rekeyed? (es ++ [e]) k =
    if e.kind = k ∧ startsApart es e.kind then some e else rekeyed? es k := by
  cases es with
  | nil => by_cases hk : e.kind = k <;> simp [rekeyed?, startsApart, latest?, hk]
  | cons first rest =>
    unfold rekeyed?
    rw [List.cons_append, startsApart_cons, startsApart_cons, startsApart_cons, ← List.cons_append,
      latest?_concat]
    by_cases hk : e.kind = k
    · subst hk
      by_cases hf : first.kind = e.kind <;> simp [hf]
    · simp [hk]

/-- No clash where the first element is of the same kind. -/
theorem clash?_of_together (hs : startsApart (H.under i.table i.name) i.entry.kind = false) :
    H.clash? i = none := by
  unfold clash?
  cases hf : (H.under i.table i.name).head? with
  | none => rfl
  | some first =>
    have hkind : first.kind = i.entry.kind := by simpa [startsApart, hf] using hs
    simp [hkind]

/-- No clash where the element is the latest of its kind. -/
theorem clash?_of_latest
    (hl : latest? (H.under i.table i.name) i.entry.kind = some i.entry) : H.clash? i = none := by
  unfold clash?
  cases (H.under i.table i.name).head? <;> simp [hl]

theorem clash?_of_apart (ha : answer? (H.under i.table i.name) none = some e)
    (hs : startsApart (H.under i.table i.name) i.entry.kind = true)
    (hl : latest? (H.under i.table i.name) i.entry.kind ≠ some i.entry) :
    H.clash? i = some ⟨i.name, i.table, e.kind, i.entry.kind⟩ := by
  obtain ⟨first, hf, hlast⟩ := Option.bind_eq_some_iff.1 ha
  have hkind : e.kind = first.kind := (latest?_eq_some hlast).2
  have hne : first.kind ≠ i.entry.kind := by simpa [startsApart, hf] using hs
  rw [clash?, hf, Option.bind_some, if_pos ⟨hne.symm, hl⟩, hkind]

end History

namespace Registry

open History

variable {r r' : Registry} {H : History} {i : Insertion} {t : Table} {key : String} {entry : Entry}

/-- Under the policy of keys with kinds every element with a name is entered. -/
theorem exists_insert (hp : r.index.policy = .rekey) (hne : key ≠ "") :
    ∃ r', insert t key entry r = .ok () r' := by
  unfold insert Index.insert
  dsimp only
  rw [if_neg hne, hp]
  cases Index.inTheWay? (r.index.table t) key entry with
  | none => exact ⟨_, rfl⟩
  | some existing =>
    cases Index.leadsTo (r.index.table t) (entry.kind.keyed key) entry.id with
    | true => exact ⟨_, rfl⟩
    | false => exact ⟨_, rfl⟩

namespace Records

theorem empty : (Registry.empty .rekey).Records [] where
  policy := rfl
  plain := by intro t; cases t <;> exact fun _ _ => rfl
  keyed := by intro t; cases t <;> exact fun _ _ => rfl

/-- What is in the way of an element is the last one of the first kind, if that is another kind. -/
theorem inTheWay?_eq (hr : r.Records H) (hc : Colonless i.name)
    (hk : ∀ j ∈ H, j.entry.id = i.entry.id → j.entry.kind = i.entry.kind) :
    Index.inTheWay? (r.index.table i.table) i.name i.entry =
      if startsApart (H.under i.table i.name) i.entry.kind then
        answer? (H.under i.table i.name) none
      else none := by
  rw [Index.inTheWay?, hr.plain _ _ hc]
  rcases nil_or_first (H.under i.table i.name) with hnil | ⟨first, last, hf, hl, ha⟩
  · rw [hnil]
    rfl
  · obtain ⟨hmem, hkind⟩ := latest?_eq_some hl
    obtain ⟨j, hj, rfl⟩ := mem_of_mem_under hmem
    -- An element has one kind, so one of another kind is another element.
    have hid : j.entry.kind ≠ i.entry.kind → j.entry.id ≠ i.entry.id := fun hne he => hne (hk j hj he)
    rw [ha, startsApart, hf]
    by_cases hsame : j.entry.kind = i.entry.kind
    · simp [← hkind, hsame, Option.filter]
    · simp [← hkind, hsame, hid hsame, Option.filter]

/-- An insertion is recorded if its element takes the key of its kind where the first element is of
another, takes the plain key otherwise, and nothing else changes. -/
theorem concat (hr : r.Records H) (hp : r'.index.policy = .rekey)
    (hplain : ∀ t name, Colonless name → (r'.index.table t).get? name =
      if (i.table = t ∧ i.name = name) ∧
        startsApart (H.under i.table i.name) i.entry.kind = false then some i.entry
      else (r.index.table t).get? name)
    (hkeyed : ∀ t name (k : Kind), (r'.index.table t).get? (k.keyed name) =
      if (i.table = t ∧ i.name = name) ∧ i.entry.kind = k ∧
        startsApart (H.under i.table i.name) i.entry.kind = true then some i.entry
      else (r.index.table t).get? (k.keyed name)) : r'.Records (H ++ [i]) := by
  refine ⟨hp, fun t name hc => ?_, fun t name k => ?_⟩
  · rw [hplain t name hc, hr.plain t name hc, under_concat]
    by_cases hi : i.table = t ∧ i.name = name
    · obtain ⟨rfl, rfl⟩ := hi
      cases h : startsApart (H.under i.table i.name) i.entry.kind <;> simp [answer?_concat, h]
    · simp [hi]
  · rw [hkeyed t name k, hr.keyed t name k, under_concat]
    by_cases hi : i.table = t ∧ i.name = name
    · obtain ⟨rfl, rfl⟩ := hi
      simp [rekeyed?_concat]
    · simp [hi]

/-- The key of an element's kind leads to the element if that is the latest of the kind. -/
theorem leadsTo_iff {entries : Entries} {es : List Entry}
    (hown : entries.get? key = latest? es entry.kind) :
    Index.leadsTo entries key entry.id = true ↔ latest? es entry.kind = some entry := by
  rw [Index.leadsTo, hown]
  cases hl : latest? es entry.kind with
  | none => simp
  | some e =>
    obtain ⟨id, kind⟩ := e
    obtain rfl : kind = entry.kind := (latest?_eq_some hl).2
    simp only [Option.any_some, decide_eq_true_eq, Option.some.injEq]
    exact ⟨fun h => by rw [h], fun h => congrArg Entry.id h⟩

theorem get?_setTable_put (key name : String) :
    ((r.index.setTable i.table ((r.index.table i.table).put key i.entry)).table t).get? name =
      if i.table = t ∧ key = name then some i.entry else (r.index.table t).get? name := by
  rw [Index.table_setTable]
  by_cases ht : i.table = t
  · subst ht
    rw [if_pos rfl, KeyedList.get?_put]
    simp only [true_and, eq_comm]
  · rw [if_neg (Ne.symm ht), if_neg fun h => ht h.1]

/-- One insertion more is recorded, and what it clashes with is noticed. -/
theorem insert (hr : r.Records H) (hc : Colonless i.name)
    (hk : ∀ j ∈ H, j.entry.id = i.entry.id → j.entry.kind = i.entry.kind)
    (hi : Registry.insert i.table i.name i.entry r = .ok () r') :
    r'.Records (H ++ [i]) ∧ r'.log = r.log ++ (H.clash? i).toList.map .clash := by
  have hpolicy : r'.index.policy = .rekey := (policy_of_insert hi).trans hr.policy
  have hway := hr.inTheWay?_eq hc hk
  have hapart : ∀ {k : Kind} {name name' : String}, Colonless name → k.keyed name' ≠ name :=
    fun hc he => Index.not_colonless_keyed _ _ (he ▸ hc)
  obtain ⟨-, ⟨hfree, rfl⟩ | ⟨existing, hfound, -, hthere⟩⟩ := insert_cases hi
  · -- Nothing is in the way, so the element takes the plain key.
    have hs : startsApart (H.under i.table i.name) i.entry.kind = false := by
      rw [hfree] at hway
      rcases nil_or_first (H.under i.table i.name) with hnil | ⟨first, last, -, -, ha⟩
      · rw [hnil]
        rfl
      · rw [ha] at hway
        by_contra hs
        simp [hs] at hway
    refine ⟨hr.concat hpolicy (fun t name _ => ?_) fun t name k => ?_, ?_⟩
    · rw [get?_setTable_put, hs]
      simp
    · rw [get?_setTable_put, hs, if_neg fun h => hapart hc h.2.symm]
      simp
    · rw [clash?_of_together hs]
      simp
  · -- The first element is of another kind, so the element takes the key of its own.
    have hs : startsApart (H.under i.table i.name) i.entry.kind = true := by
      by_contra hs
      simp [hfound, hs] at hway
    rw [hfound, hs, if_pos rfl] at hway
    have hown : (r.index.table i.table).get? (i.entry.kind.keyed i.name) =
        latest? (H.under i.table i.name) i.entry.kind := by
      rw [hr.keyed, rekeyed?, hs, if_pos rfl]
    rcases hthere with ⟨hl, rfl⟩ | ⟨hl, rfl⟩
    · have hlast : latest? (H.under i.table i.name) i.entry.kind = some i.entry :=
        (leadsTo_iff hown).1 hl
      refine ⟨hr.concat hpolicy (fun t name _ => ?_) fun t name k => ?_, ?_⟩
      · simp [hs]
      · split
        next h =>
          obtain ⟨⟨rfl, rfl⟩, rfl, -⟩ := h
          exact hown.trans hlast
        next => rfl
      · rw [clash?_of_latest hlast]
        simp
    · have hlast : latest? (H.under i.table i.name) i.entry.kind ≠ some i.entry := fun h => by
        rw [(leadsTo_iff hown).2 h] at hl
        cases hl
      refine ⟨hr.concat hpolicy (fun t name hname => ?_) fun t name k => ?_, ?_⟩
      · rw [get?_setTable_put, if_neg fun h => hapart hname h.2, hs]
        simp
      · rw [get?_setTable_put, hs]
        refine if_congr ?_ rfl rfl
        rw [Index.keyed_inj]
        tauto
      · rw [clash?_of_apart hway.symm hs hlast]
        rfl

/-- The answers of an index that records a history are the history's. -/
theorem lookupIn_eq (hr : r.Records H) {name : String} (hc : Colonless name) (t : Table)
    (hint : Option Kind) :
    Index.lookupIn (r.index.table t) name hint = answer? (H.under t name) hint := by
  have hplain := hr.plain t name hc
  cases hint with
  | none => exact hplain
  | some k =>
    unfold Index.lookupIn
    dsimp only
    rw [hplain, hr.keyed t name k]
    rcases nil_or_first (H.under t name) with hnil | ⟨first, last, hf, hl, ha⟩
    · simp [hnil, rekeyed?, answer?, startsApart]
    · have hkind := (latest?_eq_some hl).2
      have hanswer : answer? (H.under t name) (some k) =
          (latest? (H.under t name) k).or (some last) := by
        rw [answer?, hf, Option.bind_some, hl]
        rfl
      rw [ha, hanswer, rekeyed?, startsApart, hf]
      by_cases hk : first.kind = k
      · subst hk
        simp [hkind, hl]
      · simp [hkind, hk]

end Records

/-! ### A run of calls -/

variable {past : History} {calls : List Call}

theorem enter_append (H H' : History) : enter (H ++ H') = (enter H >>= fun _ => enter H') :=
  List.forM_append

theorem Call.run_eq (c : Call) : c.run = enter c.insertions := by
  have hnative : ∀ i e, Registry.addNative i e = enter (native i e) := fun i e =>
    (bind_pure (Registry.addNative i e)).symm
  have hmanaged : ∀ i e, Registry.addManaged i e = enter (managed i e) := by
    intro i e
    unfold Registry.addManaged managed
    split
    · rfl
    · exact (bind_pure (Registry.insert .managed e.fullManagedText ⟨i, e.kind⟩)).symm
  cases c with
  | add i e =>
    change Registry.add i e = enter (native i e ++ managed i e)
    rw [enter_append, ← hnative, ← hmanaged]
    rfl
  | addNative i e => exact hnative i e
  | addManaged i e => exact hmanaged i e

/-- Calls enter what their history says. -/
theorem forM_run_eq (calls : List Call) : calls.forM Call.run = enter (history calls) := by
  induction calls with
  | nil => rfl
  | cons c calls ih =>
    have hcons : history (c :: calls) = c.insertions ++ history calls := List.flatMap_cons
    rw [hcons, enter_append, ← c.run_eq, ← ih]
    rfl

/-- A history of elements that have one kind each, under names without colons, is entered in full,
recorded, and noticed where it clashes. -/
theorem Records.enter (hr : r.Records past) (hkeys : ∀ i ∈ H, i.name ≠ "" ∧ Colonless i.name)
    (hkinds : ∀ i ∈ past ++ H, ∀ j ∈ past ++ H, i.entry.id = j.entry.id →
      i.entry.kind = j.entry.kind) :
    ∃ r', Registry.enter H r = .ok () r' ∧ r'.Records (past ++ H) ∧
      r'.log = r.log ++ (History.clashes past H).map .clash := by
  induction H generalizing r past with
  | nil => exact ⟨r, rfl, by simpa using hr, by simp [clashes]⟩
  | cons i H ih =>
    obtain ⟨hne, hc⟩ := hkeys i List.mem_cons_self
    obtain ⟨r₁, hi⟩ : ∃ r₁, Registry.insert i.table i.name i.entry r = .ok () r₁ :=
      exists_insert hr.policy hne
    have hkind : ∀ j ∈ past, j.entry.id = i.entry.id → j.entry.kind = i.entry.kind := fun j hj =>
      hkinds j (List.mem_append_left _ hj) i (List.mem_append_right _ List.mem_cons_self)
    obtain ⟨hr₁, hlog₁⟩ := hr.insert hc hkind hi
    rw [List.append_cons] at hkinds ⊢
    obtain ⟨r', hrest, hr', hlog⟩ :=
      ih hr₁ (fun j hj => hkeys j (List.mem_cons_of_mem _ hj)) hkinds
    refine ⟨r', EStateM.bind_eq_ok.2 ⟨(), r₁, hi, hrest⟩, hr', ?_⟩
    rw [hlog, hlog₁, clashes, List.map_append, List.append_assoc]

/-- A fresh index after any calls that enter elements under names without colons: every call succeeds,
a name leads to what the history of the calls says, and what is noticed are the history's clashes. -/
theorem lookup_of_calls (hkeys : ∀ i ∈ history calls, i.name ≠ "" ∧ Colonless i.name)
    (hkinds : ∀ i ∈ history calls, ∀ j ∈ history calls, i.entry.id = j.entry.id →
      i.entry.kind = j.entry.kind) :
    ∃ r, calls.forM Call.run (.empty .rekey) = .ok () r ∧
      (∀ name, Colonless name → ∀ hint onBehalfOf,
        (∃ e, (history calls).lookup? name hint = some e ∧
          r.index.lookup name hint onBehalfOf = .ok e.id) ∨
        ((history calls).under .native name = [] ∧ (history calls).under .managed name = [] ∧
          r.index.lookup name hint onBehalfOf =
            .error (.typeNotFound name (onBehalfOf.map Element.describe)))) ∧
      r.log = (History.clashes [] (history calls)).map .clash := by
  obtain ⟨r, hrun, hr, hlog⟩ := Records.empty.enter hkeys hkinds
  rw [List.nil_append] at hr
  refine ⟨r, by rw [forM_run_eq, hrun], fun name hc hint onBehalfOf => ?_, hlog⟩
  have hlookup : r.index.lookup? name hint = (history calls).lookup? name hint := by
    rw [History.lookup?_eq_or, ← hr.lookupIn_eq hc .native, ← hr.lookupIn_eq hc .managed]
    rfl
  unfold Index.lookup
  rw [hlookup]
  rcases (history calls).lookup?_cases name hint with ⟨e, he⟩ | ⟨hnative, hmanaged, he⟩
  · exact .inl ⟨e, he, by rw [he]⟩
  · exact .inr ⟨hnative, hmanaged, by rw [he]⟩

/-- A class and an interface of one name, the interface again, another class of the name, and a method
whose managed name it is. -/
def sampleCalls : List Call :=
  let type (kind : TypeKind) : Element := .fresh (.type kind {}) "a.B"
  [.add 0 (type .cls), .addNative 1 (type .iface), .addNative 1 (type .iface), .add 2 (type .cls),
    .add 3 { Element.fresh (.method {}) "a.c" with fullManagedName := some "A.C" }]

/-- The later class is found, the interface with its kind, and the method by its managed name; the
interface was noticed once. -/
theorem lookup_of_sampleCalls : ∃ r, sampleCalls.forM Call.run (.empty .rekey) = .ok () r ∧
    r.index.lookup "a.B" none none = .ok 2 ∧ r.index.lookup "a.B" (some .iface) none = .ok 1 ∧
      r.index.lookup "A.C" (some .enum) none = .ok 3 ∧
        r.index.lookup "A.B" none none = .error (.typeNotFound "A.B" none) ∧
          r.log = [.clash ⟨"a.B", .native, .cls, .iface⟩] := by
  have hkeys : ∀ i ∈ history sampleCalls, i.name ≠ "" ∧ ':' ∉ i.name.toList := by decide +kernel
  obtain ⟨r, hrun, hlookup, hlog⟩ := lookup_of_calls hkeys (by decide +kernel)
  have hfound : ∀ {name hint e}, (history sampleCalls).lookup? name hint = some e →
      ':' ∉ name.toList → r.index.lookup name hint none = .ok e.id := by
    intro name hint e he hc
    rcases hlookup name hc hint none with ⟨e', he', hl⟩ | ⟨hnative, hmanaged, -⟩
    · rw [hl, Option.some.inj (he.symm.trans he')]
    · rw [History.lookup?, if_pos hnative, hmanaged] at he
      cases he
  have hmissing : (history sampleCalls).lookup? "A.B" none = none := by decide +kernel
  refine ⟨r, hrun, hfound (e := ⟨2, .cls⟩) (by decide +kernel) (by decide),
    hfound (e := ⟨1, .iface⟩) (by decide +kernel) (by decide),
    hfound (e := ⟨3, .method⟩) (by decide +kernel) (by decide), ?_, ?_⟩
  · rcases hlookup "A.B" (by unfold Colonless; decide) none none with ⟨e, he, -⟩ | ⟨-, -, hl⟩
    · rw [hmissing] at he
      cases he
    · exact hl
  · rw [hlog]
    decide +kernel

end Registry

end BindingTree
