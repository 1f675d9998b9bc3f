import BindingTree.Proofs.Json.Limits
import BindingTree.Record.Codec
import Mathlib.Data.List.Nodup
import Mathlib.Data.List.Perm.Basic

/-! How the members of an object are read. Slots, common keys and tags are all read by one loop,
which owns some keys, reads what stands under them, each key at most once, and only looks through
the values of other keys. The loop's outcome does not rest on the order of the members. -/

namespace BindingTree

open Json (Fault Key)

variable {α σ : Type} {key k : String} {v w : Json} {a : α} {s : σ}

/-! ### Lists of pairs as tables -/

theorem lookup_eq_some_iff_mem {l : List (String × α)} (hn : (l.map Prod.fst).Nodup) :
    l.lookup key = some a ↔ (key, a) ∈ l := by
  induction l with
  | nil => simp
  | cons e l ih =>
    obtain ⟨k, b⟩ := e
    obtain ⟨hk, hl⟩ := List.nodup_cons.1 hn
    rw [List.lookup_cons, List.mem_cons]
    cases he : key == k with
    | true =>
      obtain rfl := eq_of_beq he
      have hout : (key, a) ∉ l := fun hm => hk (List.mem_map.2 ⟨_, hm, rfl⟩)
      simp [hout, eq_comm]
    | false =>
      have hne : key ≠ k := ne_of_beq_false he
      simp [hne, ih hl]

theorem lookup_eq_none_iff_not_mem {l : List (String × α)} :
    l.lookup key = none ↔ key ∉ l.map Prod.fst := by
  rw [List.lookup_eq_none_iff]
  simp only [bne_iff_ne, List.mem_map, not_exists, not_and]
  exact ⟨fun h p hp hk => h p hp hk.symm, fun h p hp hk => h p hp hk.symm⟩

theorem lookup_perm {l l' : List (String × α)} (hp : l.Perm l') (hn : (l.map Prod.fst).Nodup) :
    l'.lookup key = l.lookup key := by
  have hn' : (l'.map Prod.fst).Nodup := (hp.map Prod.fst).nodup_iff.1 hn
  refine Option.ext fun a => ?_
  rw [lookup_eq_some_iff_mem hn, lookup_eq_some_iff_mem hn', hp.mem_iff]

theorem lookup_map {β : Type} {l : List (String × α)} {g : String → α → β} :
    (l.map fun e => (e.1, g e.1 e.2)).lookup key = (l.lookup key).map (g key) := by
  induction l with
  | nil => rfl
  | cons e l ih =>
    rw [List.map_cons, List.lookup_cons, List.lookup_cons]
    cases he : key == e.1 with
    | true => rw [eq_of_beq he]; rfl
    | false => exact ih

/-! ### One member -/

/-- What is read under a key, for the keys that a reader owns. -/
abbrev Owned (σ : Type) := String → Option (Json → Except Fault σ)

/-- What one member gives by itself: an entry under an owned key, and nothing under any other, whose
value is left to `foreign`. -/
def entry (owned : Owned σ) (foreign : Json → Except Fault Unit) (m : Key × Json) :
    Except Fault (List (String × σ)) := do
  let key ← m.1.read
  match owned key with
  | some read => return [(key, ← read m.2)]
  | none => do foreign m.2; return []

/-- Takes up one member, unless its key is owned and was met before. -/
def take (owned : Owned σ) (foreign : Json → Except Fault Unit) (seen : List (String × σ))
    (m : Key × Json) : Except Fault (List (String × σ)) := do
  let key ← m.1.read
  match owned key with
  | some read => Slots.fill seen key (read m.2)
  | none => do foreign m.2; return seen

variable {owned : Owned σ} {foreign : Json → Except Fault Unit} {seen f : List (String × σ)}
  {news : List (List (String × σ))} {m : Key × Json} {ms ms' : List (Key × Json)}
  {read : Json → Except Fault σ} {new : List (String × σ)}

theorem Slots.fill_eq_ok {read : Except Fault σ} : Slots.fill seen key read = .ok f ↔
    seen.lookup key = none ∧ ∃ s, read = .ok s ∧ f = seen ++ [(key, s)] := by
  unfold Slots.fill
  split
  next h => simp [Option.isSome_iff_ne_none.1 h]
  next h =>
    simp only [Except.bind_eq_ok, Except.pure_eq_ok]
    simp only [Bool.not_eq_true, Option.isSome_eq_false_iff, Option.isNone_iff_eq_none] at h
    simp [h, eq_comm]

theorem entry_foreign (ho : owned key = none) :
    entry owned foreign (.text key, v) = (do foreign v; return []) := by
  unfold entry
  change (match owned key with | some read => _ | none => _) = _
  rw [ho]

theorem entry_owned (ho : owned key = some read) :
    entry owned foreign (.text key, v) = (do return [(key, ← read v)]) := by
  unfold entry
  change (match owned key with | some read => _ | none => _) = _
  rw [ho]

theorem take_foreign (ho : owned key = none) :
    take owned foreign seen (.text key, v) = (do foreign v; return seen) := by
  unfold take
  change (match owned key with | some read => _ | none => _) = _
  rw [ho]

theorem entry_foreign_eq_ok (ho : owned key = none) :
    entry owned foreign (.text key, v) = .ok new ↔ foreign v = .ok () ∧ new = [] := by
  rw [entry_foreign ho, Except.bind_eq_ok]
  simp only [Except.pure_eq_ok]
  exact ⟨fun ⟨_, hv, hf⟩ => ⟨hv, hf.symm⟩, fun ⟨hv, hf⟩ => ⟨(), hv, hf.symm⟩⟩

theorem entry_owned_eq_ok (ho : owned key = some read) :
    entry owned foreign (.text key, v) = .ok new ↔ ∃ s, read v = .ok s ∧ new = [(key, s)] := by
  rw [entry_owned ho, Except.bind_eq_ok]
  simp only [Except.pure_eq_ok]
  exact exists_congr fun s => and_congr_right fun _ => eq_comm

theorem exists_key_of_entry (he : entry owned foreign m = .ok new) : ∃ key, m.1 = .text key := by
  obtain ⟨key, hk, -⟩ := Except.bind_eq_ok.1 he
  exact ⟨key, Json.Key.read_eq_ok.1 hk⟩

/-- Taking up a member adds what it gives by itself, and no key twice. -/
theorem take_eq_ok (hn : (seen.map Prod.fst).Nodup) : take owned foreign seen m = .ok f ↔
    ∃ new, entry owned foreign m = .ok new ∧ f = seen ++ new ∧ (f.map Prod.fst).Nodup := by
  obtain ⟨k, v⟩ := m
  unfold take
  by_cases hk : ∃ key, k = .text key
  · obtain ⟨key, rfl⟩ := hk
    change (match owned key with | some read => _ | none => _) = _ ↔ _
    cases ho : owned key with
    | none =>
      simp only [entry_foreign_eq_ok ho, Except.bind_eq_ok, Except.pure_eq_ok]
      constructor
      · rintro ⟨_, hv, rfl⟩
        exact ⟨[], ⟨hv, rfl⟩, (List.append_nil _).symm, hn⟩
      · rintro ⟨_, ⟨hv, rfl⟩, rfl, -⟩
        exact ⟨(), hv, (List.append_nil _).symm⟩
    | some read =>
      have hnew : ∀ {s : σ}, ((seen ++ [(key, s)]).map Prod.fst).Nodup ↔ seen.lookup key = none := by
        intro s
        rw [lookup_eq_none_iff_not_mem, List.map_append, List.nodup_append_comm]
        simp [hn]
      simp only [entry_owned_eq_ok ho, Slots.fill_eq_ok]
      constructor
      · rintro ⟨hs, s, hv, rfl⟩
        exact ⟨_, ⟨s, hv, rfl⟩, rfl, hnew.2 hs⟩
      · rintro ⟨_, ⟨s, hv, rfl⟩, rfl, hs⟩
        exact ⟨hnew.1 hs, s, hv, rfl⟩
  · constructor
    · intro ht
      obtain ⟨key, hkey, -⟩ := Except.bind_eq_ok.1 ht
      exact absurd ⟨key, Json.Key.read_eq_ok.1 hkey⟩ hk
    · rintro ⟨new, he, -⟩
      exact absurd (exists_key_of_entry he) hk

/-! ### The loop -/

/-- Takes up members in their order. -/
def gather (owned : Owned σ) (foreign : Json → Except Fault Unit) (seen : List (String × σ))
    (ms : List (Key × Json)) : Except Fault (List (String × σ)) :=
  ms.foldlM (take owned foreign) seen

theorem gather_append {ms₁ ms₂ : List (Key × Json)} : gather owned foreign seen (ms₁ ++ ms₂) =
    gather owned foreign seen ms₁ >>= fun seen => gather owned foreign seen ms₂ :=
  List.foldlM_append

theorem gather_cons : gather owned foreign seen (m :: ms) =
    take owned foreign seen m >>= fun seen => gather owned foreign seen ms := List.foldlM_cons

/-- The loop goes through just when every member gives something and no owned key is repeated; then
it ends with what the members give. -/
theorem gather_eq_ok (hn : (seen.map Prod.fst).Nodup) : gather owned foreign seen ms = .ok f ↔
    ∃ news, List.Forall₂ (fun m new => entry owned foreign m = .ok new) ms news ∧
      f = seen ++ news.flatten ∧ (f.map Prod.fst).Nodup := by
  induction ms generalizing seen with
  | nil =>
    rw [gather, List.foldlM_nil, Except.pure_eq_ok]
    constructor
    · rintro rfl
      exact ⟨[], .nil, (List.append_nil _).symm, hn⟩
    · rintro ⟨news, hnews, rfl, -⟩
      rw [List.forall₂_nil_left_iff] at hnews
      simp [hnews]
  | cons m ms ih =>
    rw [gather_cons, Except.bind_eq_ok]
    constructor
    · rintro ⟨seen', ht, hg⟩
      obtain ⟨new, he, rfl, hn'⟩ := (take_eq_ok hn).1 ht
      obtain ⟨news, hnews, rfl, hf⟩ := (ih hn').1 hg
      exact ⟨new :: news, .cons he hnews, by simp, hf⟩
    · rintro ⟨news, hnews, rfl, hf⟩
      obtain ⟨new, rest, he, hrest, rfl⟩ := List.forall₂_cons_left_iff.1 hnews
      have happend : seen ++ (new :: rest).flatten = seen ++ new ++ rest.flatten := by simp
      have hn' : ((seen ++ new).map Prod.fst).Nodup := by
        rw [happend, List.map_append] at hf
        exact hf.of_append_left
      exact ⟨_, (take_eq_ok hn).2 ⟨new, he, rfl, hn'⟩, (ih hn').2 ⟨rest, hrest, happend, hf⟩⟩

theorem gather_nil_eq_ok : gather owned foreign [] ms = .ok f ↔
    ∃ news, List.Forall₂ (fun m new => entry owned foreign m = .ok new) ms news ∧
      f = news.flatten ∧ (f.map Prod.fst).Nodup := gather_eq_ok List.nodup_nil

/-- What is read does not rest on the order of the members. -/
theorem gather_perm (hp : ms.Perm ms') (hg : gather owned foreign [] ms = .ok f) :
    ∃ f', gather owned foreign [] ms' = .ok f' ∧ ∀ key, f'.lookup key = f.lookup key := by
  obtain ⟨news, hnews, rfl, hn⟩ := gather_nil_eq_ok.1 hg
  obtain ⟨news', hnews', hperm⟩ := List.perm_comp_forall₂ hp.symm hnews
  have hflat : (news.flatten).Perm news'.flatten := hperm.symm.flatten
  exact ⟨news'.flatten, gather_nil_eq_ok.2
    ⟨news', hnews', rfl, (hflat.map Prod.fst).nodup_iff.1 hn⟩, fun key => lookup_perm hflat hn⟩

/-! ### Objects that are written -/

/-- Members whose keys are texts. -/
def textual (ms : List (String × Json)) : List (Key × Json) := ms.map fun m => (.text m.1, m.2)

/-- What is there, of what may be left out. -/
def present (l : List (String × Option α)) : List (String × α) :=
  l.filterMap fun e => e.2.map (e.1, ·)

section Present

variable {l l' : List (String × Option α)} {o : Option α}

theorem present_append : present (l ++ l') = present l ++ present l' := List.filterMap_append

theorem present_cons_none : present ((key, none) :: l) = present l := rfl

theorem present_cons_some : present ((key, some a) :: l) = (key, a) :: present l := rfl

theorem map_fst_present : ((present l).map Prod.fst).Sublist (l.map Prod.fst) := by
  induction l with
  | nil => exact .refl _
  | cons e l ih =>
    obtain ⟨k, o⟩ := e
    cases o with
    | none => exact ih.cons _
    | some b => exact ih.cons_cons _

theorem lookup_present (hn : (l.map Prod.fst).Nodup) :
    (present l).lookup key = (l.lookup key).join := by
  induction l with
  | nil => rfl
  | cons e l ih =>
    obtain ⟨k, o⟩ := e
    obtain ⟨hk, hl⟩ := List.nodup_cons.1 hn
    rw [List.lookup_cons]
    cases hkey : key == k with
    | true =>
      obtain rfl := eq_of_beq hkey
      have hout : l.lookup key = none := lookup_eq_none_iff_not_mem.2 hk
      cases o with
      | none => simp [present_cons_none, ih hl, hout]
      | some b => simp [present_cons_some]
    | false =>
      cases o with
      | none => exact ih hl
      | some b => simpa [present_cons_some, List.lookup_cons, hkey] using ih hl

end Present

/-- What is written at a place of an object gives what is told there: nothing under a foreign key or
where nothing is written. -/
def Gives (owned : Owned σ) (foreign : Json → Except Fault Unit) (e : String × Option Json)
    (t : String × Option σ) : Prop :=
  e.1 = t.1 ∧ (e.2 = none → t.2 = none) ∧
    ∀ v, e.2 = some v → entry owned foreign (.text e.1, v) = .ok (present [t])

/-- An object gives what is told at each of its places. -/
theorem gather_present {table : List (String × Option Json)} {told : List (String × Option σ)}
    (hn : (told.map Prod.fst).Nodup) (h : List.Forall₂ (Gives owned foreign) table told) :
    gather owned foreign [] (textual (present table)) = .ok (present told) := by
  refine gather_nil_eq_ok.2 ?_
  have hnews : ∃ news, List.Forall₂ (fun m new => entry owned foreign m = .ok new)
      (textual (present table)) news ∧ present told = news.flatten := by
    clear hn
    induction h with
    | nil => exact ⟨[], .nil, rfl⟩
    | @cons e t table told he _ ih =>
      obtain ⟨news, hnews, htold⟩ := ih
      obtain ⟨key, o⟩ := e
      obtain ⟨l, x⟩ := t
      obtain ⟨rfl, hnone, hsome⟩ := he
      cases o with
      | none =>
        obtain rfl : x = none := hnone rfl
        exact ⟨news, hnews, htold⟩
      | some v =>
        refine ⟨present [(key, x)] :: news, .cons (hsome v rfl) hnews, ?_⟩
        rw [List.flatten_cons, ← htold, ← present_append]
        rfl
  obtain ⟨news, hnews, htold⟩ := hnews
  exact ⟨news, hnews, htold, hn.sublist map_fst_present⟩

/-! ### Readers as loops -/

/-- The readers of the keys of a table. -/
abbrev slotReader? (shapes : Shapes) : Owned Slot := fun key => (shapes.lookup key).map Shape.read

theorem Slots.collect_eq_gather {shapes : Shapes} {seen : Slots} :
    Slots.collect shapes foreign seen ms = gather (slotReader? shapes) foreign seen ms := by
  induction ms generalizing seen with
  | nil => rfl
  | cons m ms ih =>
    obtain ⟨k, v⟩ := m
    rw [Slots.collect, gather_cons, take, bind_assoc]
    congr 1
    funext key
    cases hs : shapes.lookup key with
    | none => simp [slotReader?, hs, ih]
    | some shape => simp [slotReader?, hs, ih]

namespace Record

/-- The keys that are read for all records. -/
def commonKeys : List String :=
  ["name", "managed_name", "name_generic_aware", "jni_signature", "location", "deprecation",
    "api_since", "api_until", "merge_source_file", "other_attributes", "children"]

/-- The readers of all common keys. -/
def commonReader? : Owned CommonSlot := fun key =>
  if key = "children" then some fun v => .children <$> listOfJson v else CommonSlot.reader? key

/-- The reader of a record's kind. -/
def kindReader? : Owned Tag := fun key => if key = "kind" then some Tag.ofJson else none

theorem readCommon_eq_gather {seen : CommonSlot.Filled} :
    readCommon seen ms = gather commonReader? Json.check seen ms := by
  induction ms generalizing seen with
  | nil => rfl
  | cons m ms ih =>
    obtain ⟨k, v⟩ := m
    rw [readCommon, gather_cons, take, bind_assoc]
    congr 1
    funext key
    by_cases hc : key = "children"
    · have hr : commonReader? key = some fun v => .children <$> listOfJson v := if_pos hc
      rw [if_pos hc, hr]
      simp [ih]
    · have hr : commonReader? key = CommonSlot.reader? key := if_neg hc
      rw [hr]
      cases CommonSlot.reader? key with
      | none => simp [hc, ih]
      | some reader => simp [hc, ih]

theorem readTag_eq_gather {seen : Option Tag} : readTag seen ms =
    gather kindReader? (fun _ => .ok ()) (seen.toList.map (Prod.mk "kind")) ms >>= fun f =>
      match f.lookup "kind" with
      | some tag => .ok tag
      | none => .error (.missing "kind") := by
  induction ms generalizing seen with
  | nil => cases seen <;> rfl
  | cons m ms ih =>
    obtain ⟨k, v⟩ := m
    rw [readTag, gather_cons, take, bind_assoc, bind_assoc]
    congr 1
    funext key
    by_cases hk : key = "kind"
    · have hr : kindReader? key = some Tag.ofJson := if_pos hk
      subst hk
      cases seen with
      | none => simp [hr, Slots.fill, ih]
      | some tag =>
        simp only [hr, Slots.fill]
        rfl
    · have hr : kindReader? key = none := if_neg hk
      simp only [hk, if_false, hr, ih]
      rfl

theorem readTag_eq_ok {tag : Tag} : readTag none ms = .ok tag ↔
    ∃ f, gather kindReader? (fun _ => .ok ()) [] ms = .ok f ∧ f.lookup "kind" = some tag := by
  rw [readTag_eq_gather, Except.bind_eq_ok]
  refine exists_congr fun f => and_congr_right fun _ => ?_
  cases f.lookup "kind" with
  | none => simp
  | some t => simp

theorem assemble_eq_ok {common : CommonSlot.Filled} {r : Record} : assemble common ms = .ok r ↔
    ∃ name tag content, common.lookup "name" = some (.text name) ∧ readTag none ms = .ok tag ∧
      Content.ofMembers tag ms = .ok content ∧ r = ⟨common.head content name, common.children⟩ := by
  unfold assemble
  constructor
  · intro h
    split at h
    next name hname =>
      obtain ⟨tag, htag, h⟩ := Except.bind_eq_ok.1 h
      obtain ⟨content, hcontent, h⟩ := Except.bind_eq_ok.1 h
      exact ⟨name, tag, content, hname, htag, hcontent, (Except.pure_eq_ok.1 h).symm⟩
    next => cases h
  · rintro ⟨name, tag, content, hname, htag, hcontent, rfl⟩
    rw [hname]
    exact Except.bind_eq_ok.2 ⟨tag, htag, Except.bind_eq_ok.2 ⟨content, hcontent, rfl⟩⟩

theorem ofJson_eq_ok {broken : Option Fault} {r : Record} : ofJson (.obj ms broken) = .ok r ↔
    ∃ common, gather commonReader? Json.check [] ms = .ok common ∧ Json.closed broken = .ok () ∧
      assemble common ms = .ok r := by
  rw [ofJson, readCommon_eq_gather, Except.bind_eq_ok]
  refine exists_congr fun common => and_congr_right fun _ => ?_
  rw [Except.bind_eq_ok]
  exact ⟨fun ⟨_, h⟩ => h, fun h => ⟨(), h⟩⟩

end Record

/-! ### What is made of slots -/

/-- Slots that tell the same, whichever key is asked for. -/
structure Slots.Agree (s' s : Slots) : Prop where
  flag : ∀ key, s'.flag key = s.flag key
  text : ∀ key, s'.text key = s.text key
  optionalText : ∀ key, s'.optionalText key = s.optionalText key
  number : ∀ key, s'.number key = s.number key
  visibility : ∀ key, s'.visibility key = s.visibility key

section Agree

variable {slots slots' : Slots} (ha : slots'.Agree slots)
include ha

theorem Location.ofSlots_congr : Location.ofSlots slots' = Location.ofSlots slots := by
  unfold Location.ofSlots
  rw [ha.optionalText, ha.number, ha.number]

theorem Deprecation.ofSlots_congr : Deprecation.ofSlots slots' = Deprecation.ofSlots slots := by
  unfold Deprecation.ofSlots
  rw [ha.flag, ha.optionalText, ha.optionalText]

theorem Content.ofSlots_congr (tag : Tag) :
    Content.ofSlots slots' tag = Content.ofSlots slots tag := by
  have htype : TypeInfo.ofSlots slots' = TypeInfo.ofSlots slots := by
    simp only [TypeInfo.ofSlots, ha.flag, ha.visibility]
  cases tag <;> simp only [Content.ofSlots, ClassInfo.ofSlots, FieldInfo.ofSlots, MethodInfo.ofSlots,
    TypeParameterInfo.ofSlots, htype, ha.flag, ha.text, ha.optionalText, ha.visibility]

end Agree

end BindingTree
