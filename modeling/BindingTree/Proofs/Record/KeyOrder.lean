import BindingTree.Proofs.Json.Equality
import BindingTree.Proofs.Record.Attributes
import BindingTree.Proofs.Record.Carries
import BindingTree.Proofs.Record.Edits

/-! Neither the order of keys nor foreign keys matter when a forest is read. Edits touch lists and
objects, where most keys want something else, and a key under which an object or a list is read leads
to a place where edits do not matter. So the loops over the members of an edited object end as before,
one edit leaves what is read as it was wherever it is made, and by induction so do all edits. -/

namespace BindingTree

open Json (Fault Key)
open Relation (ReflTransGen)

variable {α σ : Type} {owned : Owned σ} {foreign : Json → Except Fault Unit}
  {ms ms' : List (Key × Json)} {key : String} {v w : Json} {n : Nat} {broken : Option Fault}
  {shapes : Shapes}

/-! ### Edited objects -/

namespace Record

variable {p : Place}

/-- A way through foreign values that takes whatever can be read, and whatever that is edited to. -/
structure Tolerant (foreign : Json → Except Fault Unit) : Prop where
  value : ∀ {w : Json}, w.check = .ok () → foreign w = .ok ()
  edit : ∀ {q : Place} {n : Nat} {v w : Json}, Edit q n v w → Keeps foreign (v.limit n) (w.limit n)

theorem tolerant_check : Tolerant Json.check := ⟨id, fun he _ => he.check⟩

theorem tolerant_pass : Tolerant Json.pass where
  value := Json.pass_of_check _
  edit he a hv := by
    rw [Json.pass_limit] at hv ⊢
    exact he.pass hv

theorem tolerant_ok : Tolerant fun _ => .ok () := ⟨fun _ => rfl, fun _ _ _ => rfl⟩

/-- An object is edited to an object. -/
theorem Edit.exists_obj (he : Edit p n (.obj ms broken) w) : ∃ ms', w = .obj ms' broken := by
  cases he <;> exact ⟨_, rfl⟩

/-- One edit of an object leaves a loop over its members what it was, if the loop does not own what
is foreign and if what it owns is read alike in edited values. -/
theorem Edit.carries (he : Edit p (n + 1) (.obj ms broken) (.obj ms' broken)) (ht : Tolerant foreign)
    (howned : ∀ key, p.Foreign ms key → owned key = none)
    (hread : ∀ key read v w, (.text key, v) ∈ ms → owned key = some read →
      Edit (p.below (.text key)) n v w → Keeps read (v.limit n) (w.limit n)) :
    Carries owned foreign (Json.limitMembers n ms) (Json.limitMembers n ms') := by
  simp only [Json.limitMembers_eq_map]
  cases he with
  | permute hp => exact carries_perm (hp.map _)
  | @insert _ _ _ _ _ _ u hk hu hd =>
    have hlimit : u.limit n = u := Json.limit_of_depth_le u (by omega)
    rw [List.map_append, List.map_append, List.map_cons, hlimit]
    exact carries_insert (howned _ hk) (ht.value hu.check)
  | delete hk =>
    rw [List.map_append, List.map_append, List.map_cons]
    exact carries_delete (howned _ hk)
  | member he =>
    rw [List.map_append, List.map_append, List.map_cons, List.map_cons]
    refine carries_member (fun key read hk ho => ?_) (ht.edit he)
    subst hk
    exact hread key read _ _ (by simp) ho he

end Record

/-! ### Objects of slots -/

theorem Slots.not_bracket_of_ofItems {vs : List Json} {s : Slots}
    (hplain : ∀ e ∈ shapes, e.2.isPlain) (hs : Slots.ofItems shapes vs broken = .ok s) :
    ∀ v ∈ vs, ¬ v.IsBracket := by
  induction vs generalizing shapes s with
  | nil => simp
  | cons v vs ih =>
    cases shapes with
    | nil => cases hs
    | cons e shapes =>
      obtain ⟨hshape, hshapes⟩ := List.forall_mem_cons.1 hplain
      obtain ⟨slot, hv, hs⟩ := Except.bind_eq_ok.1 hs
      obtain ⟨rest, hrest, -⟩ := Except.bind_eq_ok.1 hs
      exact List.forall_mem_cons.2
        ⟨fun hb => Record.not_read_of_bracket hshape hb hv, ih hshapes hrest⟩

theorem keeps_slot_of_bracket (hplain : ∀ e ∈ shapes, e.2.isPlain) {read : Json → Except Fault Slot}
    (hr : slotReader? shapes key = some read) (hv : v.IsBracket) : Keeps read v w := by
  obtain ⟨shape, hshape, rfl⟩ := Option.map_eq_some_iff.1 hr
  obtain ⟨l₁, l₂, rfl, -⟩ := List.lookup_eq_some_iff.1 hshape
  exact fun x hx => absurd hx (Record.not_read_of_bracket (hplain (key, shape) (by simp)) hv)

/-- What slots tell of an object is told of it when it is edited. -/
theorem Record.Edit.keeps_slots {p : Record.Place} {tell : Slots → α}
    (htell : ∀ {s s' : Slots}, s'.Agree s → tell s' = tell s) (hplain : ∀ e ∈ shapes, e.2.isPlain)
    (hp : ∀ ms key, p.Foreign ms key → key ∉ shapes.map Prod.fst) (he : Record.Edit p n v w) :
    Keeps (fun v => tell <$> Slots.ofJson shapes v) (v.limit n) (w.limit n) := by
  intro a hv
  obtain ⟨s, hs, rfl⟩ := Except.map_eq_ok.1 hv
  cases n with
  | zero =>
    obtain ⟨u, hu⟩ := he.limit_zero
    rw [hu] at hs
    cases hs
  | succ n =>
    cases v with
    | obj ms broken =>
      obtain ⟨ms', rfl⟩ := he.exists_obj
      have hcarries := he.carries Record.tolerant_pass
        (fun key hk => slotReader?_of_not_mem (hp ms key hk))
        fun key read v w _ hr he => keeps_slot_of_bracket hplain hr he.isBracket
      obtain ⟨s', hs', hagree⟩ := Slots.ofJson_of_carries hcarries hs
      exact Except.map_eq_ok.2 ⟨s', hs', htell hagree⟩
    | arr vs broken =>
      cases he with
      | item he =>
        refine absurd he.isBracket (Slots.not_bracket_of_ofItems hplain hs _ ?_)
        rw [Json.limitItems_eq_map]
        exact List.mem_map_of_mem (by simp)
    | _ => cases he

/-! ### Attributes -/

theorem Attributes.not_bracket_of_ofMembers {a b : Attributes} (h : a.ofMembers ms = .ok b) :
    ∀ m ∈ ms, ¬ m.2.IsBracket := by
  obtain ⟨l, rfl, -⟩ := ofMembers_eq_ok.1 h
  exact List.forall_mem_map.2 fun _ _ => id

/-! ### Places -/

namespace Record

/-- What is read of one value at a place is read of another. Elsewhere nothing is read. -/
def Place.Kept : Place → Json → Json → Prop
  | .forest => Keeps listOfJson
  | .record => Keeps ofJson
  | .location => Keeps Location.ofJson
  | .deprecation => Keeps Deprecation.ofJson
  | .attributes => Keeps Attributes.ofJson
  | .other => fun _ _ => True

variable {p : Place}

/-- Nothing is read of a bracket below the limit. -/
theorem Place.kept_deep : p.Kept (.deep v) w := by
  cases p with
  | other => trivial
  | _ =>
    intro a h
    cases v <;> cases h

theorem Edit.keeps_location (he : Edit .location n v w) :
    Place.Kept .location (v.limit n) (w.limit n) := by
  have hplain : ∀ e ∈ Location.shapes, e.2.isPlain := by decide
  exact he.keeps_slots Location.ofSlots_congr hplain fun _ _ => id

theorem Edit.keeps_deprecation (he : Edit .deprecation n v w) :
    Place.Kept .deprecation (v.limit n) (w.limit n) := by
  have hplain : ∀ e ∈ Deprecation.shapes, e.2.isPlain := by decide
  exact he.keeps_slots Deprecation.ofSlots_congr hplain fun _ _ => id

theorem Edit.keeps_attributes (he : Edit .attributes (n + 1) v w) (hs : Settled .attributes v) :
    Place.Kept .attributes (v.limit (n + 1)) (w.limit (n + 1)) := by
  intro a hv
  cases he with
  | @permute _ _ ms ms' broken hp =>
    obtain ⟨b, hb, hclosed⟩ := Except.bind_eq_ok.1 hv
    refine Except.bind_eq_ok.2 ⟨b, ?_, hclosed⟩
    rw [Json.limitMembers_eq_map] at hb ⊢
    refine Attributes.ofMembers_perm (hp.map _) ?_ hb
    rw [List.map_map]
    exact (settled_obj.1 hs).1 rfl
  | insert hk | delete hk => exact hk.elim
  | item he => cases hv
  | @member _ _ ms₁ ms₂ _ k v _ he =>
    obtain ⟨b, hb, -⟩ := Except.bind_eq_ok.1 hv
    refine absurd he.isBracket (Attributes.not_bracket_of_ofMembers hb (k, v.limit n) ?_)
    rw [Json.limitMembers_eq_map]
    exact List.mem_map.2 ⟨(k, v), by simp, rfl⟩

/-! ### Edited records -/

theorem HasTag.limit {tag : Tag} (ht : HasTag ms tag) : HasTag (Json.limitMembers n ms) tag := by
  obtain ⟨v, hv, htag⟩ := ht
  refine ⟨v.limit n, ?_, ?_⟩
  · rw [Json.limitMembers_eq_map]
    exact List.mem_map_of_mem hv
  · cases v with
    | str | nat => exact htag
    | _ => cases htag

theorem HasTag.eq_of_readTag {tag tag' : Tag} (ht : HasTag ms tag) (hr : readTag none ms = .ok tag') :
    tag' = tag := by
  obtain ⟨v, hv, htag⟩ := ht
  obtain ⟨f, hf, hfound⟩ := readTag_eq_ok.1 hr
  exact Option.some.inj (hfound.symm.trans (lookup_of_mem hf hv rfl htag))

theorem mem_commonKeys {read : Json → Except Fault CommonSlot} (hr : commonReader? key = some read) :
    key ∈ commonKeys := by
  unfold commonReader? at hr
  split at hr
  next h => simp [commonKeys, h]
  next =>
    unfold CommonSlot.reader? at hr
    split at hr
    case h_11 => cases hr
    all_goals simp [commonKeys]

theorem Edit.keeps_common {read : Json → Except Fault CommonSlot}
    (he : Edit (Place.below .record (.text key)) n v w)
    (hk : (Place.below .record (.text key)).Kept (v.limit n) (w.limit n))
    (hr : commonReader? key = some read) : Keeps read (v.limit n) (w.limit n) := by
  unfold commonReader? at hr
  split at hr
  next h =>
    subst h
    cases hr
    exact hk.map
  next =>
    unfold CommonSlot.reader? at hr
    split at hr
    case h_11 => cases hr
    case h_8 | h_9 | h_10 =>
      cases hr
      exact hk.map
    -- Elsewhere texts are read, and an edited value is none.
    all_goals
      cases hr
      intro a ha
      simp [readString_of_bracket he.isBracket, readOptionalString_of_bracket he.isBracket] at ha

theorem keeps_kind_of_bracket {read : Json → Except Fault Tag} (hr : kindReader? key = some read)
    (hv : v.IsBracket) : Keeps read v w := by
  unfold kindReader? at hr
  split at hr
  · cases hr
    intro tag htag
    cases v <;> first | exact hv.elim | cases htag
  · cases hr

theorem plain_shapes (t : Tag) : ∀ group ∈ t.shapes, ∀ e ∈ group, e.2.isPlain := by
  cases t <;> decide

/-- A foreign key of a record is owned by none of the loops over its members. -/
theorem Place.Foreign.not_owned {tag : Tag} (hk : Place.Foreign ms key .record)
    (ht : readTag none (Json.limitMembers n ms) = .ok tag) : commonReader? key = none ∧
      kindReader? key = none ∧ ∀ group ∈ tag.shapes, slotReader? group key = none := by
  obtain ⟨hcommon, tag', htag', hshapes⟩ := hk
  rw [List.mem_cons, not_or] at hcommon
  obtain rfl := htag'.limit.eq_of_readTag ht
  refine ⟨?_, if_neg hcommon.1, fun group hgroup => slotReader?_of_not_mem fun hkey => hshapes ?_⟩
  · cases hr : commonReader? key with
    | none => rfl
    | some read => exact absurd (mem_commonKeys hr) hcommon.2
  · rw [List.map_flatten]
    exact List.mem_flatten.2 ⟨_, List.mem_map_of_mem hgroup, hkey⟩

/-- One edit of a record leaves it what it was, if edits of its members do. -/
theorem Edit.keeps_record (he : Edit .record (n + 1) (.obj ms broken) w)
    (ih : ∀ k v w, (k, v) ∈ ms → Edit (Place.below .record k) n v w →
      (Place.below .record k).Kept (v.limit n) (w.limit n)) :
    Place.Kept .record ((Json.obj ms broken).limit (n + 1)) (w.limit (n + 1)) := by
  intro r hr
  obtain ⟨ms', rfl⟩ := he.exists_obj
  obtain ⟨common, -, -, hassemble⟩ := ofJson_eq_ok.1 hr
  obtain ⟨name, tag, content, -, htag, -, -⟩ := assemble_eq_ok.1 hassemble
  have hcommon := he.carries tolerant_check (fun key hk => (hk.not_owned htag).1)
    fun key read v w hm ho he => he.keeps_common (ih _ v w hm he) ho
  have hkind := he.carries tolerant_ok (fun key hk => (hk.not_owned htag).2.1)
    fun key read v w _ ho he => keeps_kind_of_bracket ho he.isBracket
  refine ofJson_of_carries hcommon hkind (fun tag' htag' group hgroup => ?_) hr
  obtain rfl : tag' = tag := Except.ok.inj (htag'.symm.trans htag)
  exact he.carries tolerant_ok (fun key hk => (hk.not_owned htag).2.2 group hgroup)
    fun key read v w _ ho he => keeps_slot_of_bracket (plain_shapes tag' group hgroup) ho he.isBracket

/-! ### Edited forests -/

theorem keeps_items {vs₁ vs₂ : List Json} (h : Keeps ofJson v w) :
    ∀ rs, ofItems (vs₁ ++ v :: vs₂) = .ok rs → ofItems (vs₁ ++ w :: vs₂) = .ok rs := by
  induction vs₁ with
  | nil =>
    intro rs hrs
    obtain ⟨r, hr, hrest⟩ := Except.bind_eq_ok.1 hrs
    exact Except.bind_eq_ok.2 ⟨r, h r hr, hrest⟩
  | cons u vs₁ ih =>
    intro rs hrs
    obtain ⟨r, hr, hrest⟩ := Except.bind_eq_ok.1 hrs
    obtain ⟨rs', hrs', hpure⟩ := Except.bind_eq_ok.1 hrest
    exact Except.bind_eq_ok.2 ⟨r, hr, Except.bind_eq_ok.2 ⟨rs', ih rs' hrs', hpure⟩⟩

theorem keeps_list {vs₁ vs₂ : List Json} (h : Keeps ofJson (v.limit n) (w.limit n)) :
    Place.Kept .forest ((Json.arr (vs₁ ++ v :: vs₂) broken).limit (n + 1))
      ((Json.arr (vs₁ ++ w :: vs₂) broken).limit (n + 1)) := by
  intro rs hrs
  simp only [Json.limit, Json.limitItems_eq_map, List.map_append, List.map_cons] at hrs ⊢
  obtain ⟨rs', hitems, hclosed⟩ := Except.bind_eq_ok.1 hrs
  exact Except.bind_eq_ok.2 ⟨rs', keeps_items h rs' hitems, hclosed⟩

/-- One edit, wherever it is made, leaves what is read of a value as it was. The induction is on how
many brackets may be opened, since an edit within a value is made one bracket deeper. -/
theorem Edit.keeps (he : Edit p n v w) (hs : Settled p v) : p.Kept (v.limit n) (w.limit n) := by
  induction n generalizing p v w with
  | zero =>
    obtain ⟨u, hu⟩ := he.limit_zero
    rw [hu]
    exact Place.kept_deep
  | succ n ih =>
    cases p with
    | forest =>
      cases he with
      | item he => exact keeps_list (ih he ((settled_arr.1 hs) _ (by simp)))
      | insert hk | delete hk => exact hk.elim
      | permute | member =>
        intro rs hrs
        cases hrs
    | record =>
      cases v with
      | obj ms broken =>
        exact he.keeps_record fun k v w hm he => ih he ((settled_obj.1 hs).2 _ hm)
      | arr =>
        intro r hr
        cases hr
      | _ => cases he
    | location => exact he.keeps_location
    | deprecation => exact he.keeps_deprecation
    | attributes => exact he.keeps_attributes hs
    | other => trivial

/-- Edits one after another leave what is read of a forest as it was. -/
theorem keeps_of_edits (he : ReflTransGen (Edit .forest n) v w) (hs : Settled .forest v) :
    Settled .forest w ∧ Place.Kept .forest (v.limit n) (w.limit n) := by
  induction he with
  | refl => exact ⟨hs, fun _ => id⟩
  | tail _ he ih =>
    obtain ⟨hsettled, hkeeps⟩ := ih
    exact ⟨he.settled hsettled, fun rs hrs => he.keeps hsettled rs (hkeeps rs hrs)⟩

/-- Neither the order of keys nor foreign keys matter: when a text of a forest without repeated keys
is read, so is any text of what the forest is edited to, as the same records. -/
theorem readForest_of_edits {text text' : String} {rest rest' : List Char} {rs : List Record}
    (hread : Json.read text.toList = (v, rest)) (hread' : Json.read text'.toList = (w, rest'))
    (hend : Json.skipSpace rest' = []) (hv : Distinct v)
    (he : ReflTransGen (Edit .forest Json.nestingLimit) v w) (hrs : readForest text = .ok rs) :
    readForest text' = .ok rs := by
  have hlist : listOfJson (v.limit Json.nestingLimit) = .ok rs := by
    rw [readForest, Json.decode, hread] at hrs
    obtain ⟨rs', hrs', hpure⟩ := Except.bind_eq_ok.1 hrs
    split at hpure
    · obtain rfl := Except.pure_eq_ok.1 hpure
      exact hrs'
    · cases hpure
  have hkept : listOfJson (w.limit Json.nestingLimit) = .ok rs :=
    (keeps_of_edits he hv.settled).2 rs hlist
  rw [readForest, Json.decode, hread']
  refine Except.bind_eq_ok.2 ⟨rs, hkept, ?_⟩
  rw [if_pos hend]
  rfl

/-- The members of an exception. -/
def plainMembers : List (Key × Json) :=
  [(.text "kind", .str "exception"), (.text "name", .str "b"), (.text "type", .str "T")]

/-- With a note behind them. -/
def notedMembers : List (Key × Json) := plainMembers ++ [(.text "note", .list [.real true])]

/-- In another order, with a key that only parameters own. -/
def shuffledMembers : List (Key × Json) :=
  [(.text "name", .str "b"), (.text "jni_type", .list [.null]), (.text "type", .str "T"),
    (.text "kind", .str "exception")]

def notedText : String :=
  "[\x7b\"kind\":\"exception\",\"name\":\"b\",\"type\":\"T\",\"note\":[0.5]\x7d]"

def shuffledText : String :=
  "[\x7b\"name\":\"b\",\"jni_type\":[null],\"type\":\"T\",\"kind\":\"exception\"\x7d]"

theorem read_notedText :
    Json.read notedText.toList = (.list [.obj notedMembers none], []) := by
  unfold notedText
  rw [String.toList_ofList]
  decide +kernel

theorem read_shuffledText :
    Json.read shuffledText.toList = (.list [.obj shuffledMembers none], []) := by
  unfold shuffledText
  rw [String.toList_ofList]
  decide +kernel

/-- What both texts are read as. -/
def notedForest : List Record := [⟨{ content := .exception { type := "T" }, name := "b" }, []⟩]

theorem readForest_notedText : readForest notedText = .ok notedForest := by
  rw [readForest, Json.decode, read_notedText]
  rfl

theorem distinct_noted : Distinct (.list [.obj notedMembers none]) := by
  intro q ms broken hw
  cases hw with
  | item hv hw =>
    obtain rfl := List.mem_singleton.1 hv
    cases hw with
    | self => decide
    | member hm hw =>
      simp only [notedMembers, plainMembers, List.cons_append, List.nil_append, List.mem_cons,
        List.not_mem_nil, or_false, Prod.mk.injEq] at hm
      obtain ⟨-, rfl⟩ | ⟨-, rfl⟩ | ⟨-, rfl⟩ | ⟨-, rfl⟩ := hm
      case inr.inr.inr =>
        cases hw with
        | item hv hw =>
          obtain rfl := List.mem_singleton.1 hv
          cases hw
      all_goals cases hw

/-- The note goes, another foreign key comes, and the members change places. -/
theorem edits_noted : ReflTransGen (Edit .forest Json.nestingLimit)
    (.list [.obj notedMembers none]) (.list [.obj shuffledMembers none]) := by
  have htag : Tag.ofJson (.str "exception") = .ok .exception := rfl
  have hitem {v w : Json} (he : Edit .record 126 v w) :
      Edit .forest Json.nestingLimit (.list [v]) (.list [w]) :=
    @Edit.item _ _ [] [] none v w he
  have hdelete : Edit .record 126 (.obj notedMembers none) (.obj (plainMembers ++ []) none) :=
    .delete ⟨by decide, .exception, ⟨_, List.mem_cons_self, htag⟩, by decide⟩
  have hinsert : Edit .record 126 (.obj ([] ++ plainMembers) none)
      (.obj ((.text "jni_type", .list [.null]) :: plainMembers) none) :=
    .insert ⟨by decide, .exception, ⟨_, List.mem_cons_self, htag⟩, by decide⟩
      (.list (by simp [Json.IsValue.null])) (by decide)
  have hpermute : Edit .record 126 (.obj ((.text "jni_type", .list [.null]) :: plainMembers) none)
      (.obj shuffledMembers none) := .permute (by decide +kernel)
  exact .tail (.tail (.tail .refl (hitem hdelete)) (hitem hinsert)) (hitem hpermute)

theorem readForest_shuffledText :
    readForest notedText = .ok notedForest ∧ Distinct (.list [.obj notedMembers none]) ∧
      ReflTransGen (Edit .forest Json.nestingLimit) (.list [.obj notedMembers none])
        (.list [.obj shuffledMembers none]) ∧
      readForest shuffledText = .ok notedForest :=
  ⟨readForest_notedText, distinct_noted, edits_noted, readForest_of_edits read_notedText
    read_shuffledText rfl distinct_noted edits_noted readForest_notedText⟩

end Record

end BindingTree
