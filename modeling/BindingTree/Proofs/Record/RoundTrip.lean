import BindingTree.Proofs.Json.Equality
import BindingTree.Proofs.Record.Attributes

/-! Reading undoes writing. Each slot is read back under the shape that goes with it, and a slot that
is not written stands for what is read where nothing stands. The keys that a kind owns are distinct
and apart from the common ones, so the slots of a content are found again among the members of its
record; by induction on the tree, so are the records of a forest. -/

namespace BindingTree

open Json (Fault Key)

variable {σ : Type} {key : String} {v : Json} {x : Slot} {s f : Slots} {shs : Shapes}
  {ms : List (Key × Json)} {l : List (String × Option Json)} {foreign : Json → Except Fault Unit}
  {c : Content}

/-! ### Slots -/

/-- The shape under which a slot is read. -/
def Slot.shape : Slot → Shape
  | .flag _ => .flag
  | .text _ => .text
  | .optionalText _ => .optionalText
  | .number _ => .number
  | .visibility _ => .visibility

theorem Shape.read_toJson (hv : x.toJson? = some v) : x.shape.read v = .ok x := by
  cases x with
  | flag b =>
    cases hv
    rfl
  | text s =>
    cases hv
    rfl
  | optionalText s =>
    obtain ⟨t, rfl, rfl⟩ := Option.map_eq_some_iff.1 hv
    rfl
  | number n =>
    obtain ⟨m, rfl, rfl⟩ := Option.map_eq_some_iff.1 hv
    have hm : m.toNat < Nat.pow 2 32 := m.toNat_lt
    simp [Slot.shape, Shape.read, Json.readOptionalNumber32, Json.readNumber32, hm]
  | visibility w =>
    cases hv
    refine Except.bind_eq_ok.2 ⟨w.text, rfl, ?_⟩
    rw [Visibility.ofText_text]
    rfl

theorem Json.check_toJson (hv : x.toJson? = some v) : v.check = .ok () := by
  cases x with
  | flag | text | visibility =>
    cases hv
    rfl
  | optionalText | number =>
    obtain ⟨_, -, rfl⟩ := Option.map_eq_some_iff.1 hv
    rfl

/-- Whether anything is written of a slot. -/
def Slot.isWritten (x : Slot) : Bool := x.toJson?.isSome

/-- What is not written of a slot is a missing text or number. -/
theorem Slot.filter_written (o : Option Slot) : o.filter isWritten = o ∨
    o.filter isWritten = none ∧ (o = some (.optionalText none) ∨ o = some (.number none)) := by
  cases o with
  | none => exact .inl rfl
  | some x =>
    cases x with
    | flag | text | visibility => exact .inl rfl
    | optionalText t =>
      cases t with
      | none => exact .inr ⟨rfl, .inl rfl⟩
      | some t => exact .inl rfl
    | number n =>
      cases n with
      | none => exact .inr ⟨rfl, .inr rfl⟩
      | some n => exact .inl rfl

namespace Slots

/-- The shapes under which slots are read. -/
def shapes (s : Slots) : Shapes := s.map fun e => (e.1, e.2.shape)

/-- Slots that are not written tell what is told where there is none. -/
theorem agree_of_written (h : ∀ key, f.lookup key = (s.lookup key).filter Slot.isWritten) :
    f.Agree s := by
  constructor <;> intro key <;> have hf := h key
  all_goals
    rcases Slot.filter_written (s.lookup key) with hw | ⟨hw, hs | hs⟩
    all_goals rw [hw] at hf
    all_goals simp only [flag, flagOr, text, textOr, optionalText, number, visibility, hf]
  all_goals rw [hs]

/-- What slots are written as. -/
def table (s : Slots) : List (String × Option Json) := s.map fun e => (e.1, e.2.toJson?)

theorem members_eq_present : s.members = present s.table := by
  rw [present, table, List.filterMap_map]
  rfl

theorem keys_table : s.table.map Prod.fst = s.map Prod.fst := by
  rw [table, List.map_map]
  rfl

/-- Slots are found again in an object that holds what was written of them. -/
theorem collect_written (hn : (l.map Prod.fst).Nodup)
    (hf : ∀ e ∈ l, ∀ v, e.2 = some v → foreign v = .ok ())
    (hs : ∀ key shape, shs.lookup key = some shape →
      ∃ x, s.lookup key = some x ∧ x.shape = shape ∧ (key, x.toJson?) ∈ l) :
    ∃ f, collect shs foreign [] (textual (present l)) = .ok f ∧ ∀ key, f.lookup key =
      if (shs.lookup key).isSome then (s.lookup key).filter Slot.isWritten else none := by
  let told (key : String) : Option Slot :=
    if (shs.lookup key).isSome then (s.lookup key).filter Slot.isWritten else none
  have hkeys : (l.map fun e => (e.1, told e.1)).map Prod.fst = l.map Prod.fst := by simp
  have hgives : List.Forall₂ (Gives (slotReader? shs) foreign) l
      (l.map fun e => (e.1, told e.1)) := by
    refine List.forall₂_map_right_iff.2 (List.forall₂_same.2 fun e he => ⟨rfl, ?_⟩)
    obtain ⟨key, o⟩ := e
    cases hshape : shs.lookup key with
    | none =>
      have htold : told key = none := by simp [told, hshape]
      refine ⟨fun _ => htold, fun v hv => ?_⟩
      dsimp only
      rw [htold]
      exact (entry_foreign_eq_ok (by rw [slotReader?, hshape]; rfl)).2 ⟨hf _ he v hv, rfl⟩
    | some shape =>
      obtain ⟨x, hx, rfl, hmem⟩ := hs key shape hshape
      obtain rfl : o = x.toJson? := Option.some.inj
        (((lookup_eq_some_iff_mem hn).2 he).symm.trans ((lookup_eq_some_iff_mem hn).2 hmem))
      have htold : told key = Option.filter Slot.isWritten (some x) := by simp [told, hshape, hx]
      dsimp only
      rw [htold]
      refine ⟨fun hv => by simp [Option.filter, Slot.isWritten, hv], fun v hv => ?_⟩
      refine (entry_owned_eq_ok (by rw [slotReader?, hshape]; rfl)).2 ⟨x, Shape.read_toJson hv, ?_⟩
      simp [Option.filter, Slot.isWritten, hv, present]
  refine ⟨_, collect_eq_gather.trans (gather_present (hkeys ▸ hn) hgives), fun key => ?_⟩
  rw [lookup_present (hkeys ▸ hn), lookup_map (g := fun key _ => told key)]
  cases hl : l.lookup key with
  | some o => rfl
  | none =>
    -- An owned key has its place in the object.
    cases hshape : shs.lookup key with
    | none => simp
    | some shape =>
      obtain ⟨x, -, -, hmem⟩ := hs key shape hshape
      cases hl.symm.trans ((lookup_eq_some_iff_mem hn).2 hmem)

theorem lookup_shapes : s.shapes.lookup key = (s.lookup key).map Slot.shape :=
  lookup_map (g := fun _ => Slot.shape)

/-- An object that slots are written as gives them back. -/
theorem ofJson_written (hn : (s.map Prod.fst).Nodup) :
    ∃ f, ofJson s.shapes (Json.object s.members) = .ok f ∧ f.Agree s := by
  have hpass : ∀ e ∈ s.table, ∀ v, e.2 = some v → v.pass = .ok () := by
    intro e he v hv
    obtain ⟨x, -, rfl⟩ := List.mem_map.1 he
    exact Json.pass_of_check v (Json.check_toJson hv)
  have hkeys : (s.table.map Prod.fst).Nodup := keys_table ▸ hn
  obtain ⟨f, hf, hlookup⟩ := collect_written (s := s) hkeys hpass
    fun key shape (hshape : s.shapes.lookup key = some shape) => by
      rw [lookup_shapes, Option.map_eq_some_iff] at hshape
      obtain ⟨x, hx, hshape⟩ := hshape
      exact ⟨x, hx, hshape, List.mem_map.2 ⟨_, (lookup_eq_some_iff_mem hn).1 hx, rfl⟩⟩
  refine ⟨f, ?_, agree_of_written fun key => ?_⟩
  · rw [members_eq_present]
    change (do let slots ← collect s.shapes Json.pass [] (textual (present s.table)); _) = _
    rw [hf]
    rfl
  · rw [hlookup, lookup_shapes]
    cases s.lookup key <;> rfl

end Slots

/-! ### Locations and deprecations -/

theorem Location.ofJson_toJson (l : Location) : ofJson l.toJson = .ok l := by
  have hkeys : (l.slots.map Prod.fst).Nodup := by simp [slots]
  obtain ⟨f, hf, ha⟩ := Slots.ofJson_written hkeys
  exact Except.map_eq_ok.2 ⟨f, hf, ofSlots_congr ha⟩

theorem Deprecation.ofJson_toJson (d : Deprecation) : ofJson d.toJson = .ok d := by
  have hkeys : (d.slots.map Prod.fst).Nodup := by simp [slots]
  obtain ⟨f, hf, ha⟩ := Slots.ofJson_written hkeys
  exact Except.map_eq_ok.2 ⟨f, hf, ofSlots_congr ha⟩

/-! ### Contents -/

namespace Content

/-- A kind writes the keys that it owns. A class writes those of its type first, which it reads
last. -/
theorem shapes_slots (c : Content) : c.slots.shapes.Perm c.tag.shapes.flatten := by
  cases c with
  | cls info => exact @List.perm_append_comm _ Tag.typeShapes _
  | _ => exact .rfl

theorem ofSlots_slots (c : Content) : ofSlots c.slots c.tag = c := by
  cases c <;> rfl

theorem nodup_shapes (t : Tag) : (t.shapes.flatten.map Prod.fst).Nodup := by
  cases t <;> decide

theorem keys_slots (c : Content) :
    (c.slots.map Prod.fst).Perm (c.tag.shapes.flatten.map Prod.fst) := by
  have hkeys : c.slots.shapes.map Prod.fst = c.slots.map Prod.fst := by
    rw [Slots.shapes, List.map_map]
    rfl
  exact hkeys ▸ (shapes_slots c).map Prod.fst

theorem nodup_slots (c : Content) : (c.slots.map Prod.fst).Nodup :=
  (keys_slots c).nodup_iff.2 (nodup_shapes c.tag)

/-- Groups of keys that each tell what there is to tell do so together. -/
theorem collect_groups {groups : List Shapes} {told : String → Option Slot}
    (h : ∀ group ∈ groups, ∃ f, Slots.collect group foreign [] ms = .ok f ∧
      ∀ key, f.lookup key = if (group.lookup key).isSome then told key else none) :
    ∃ fs, groups.mapM (fun group => Slots.collect group foreign [] ms) = .ok fs ∧
      ∀ key, fs.flatten.lookup key =
        if (groups.flatten.lookup key).isSome then told key else none := by
  induction groups with
  | nil => exact ⟨[], rfl, fun _ => rfl⟩
  | cons group groups ih =>
    obtain ⟨⟨f, hf, hlookup⟩, hgroups⟩ := List.forall_mem_cons.1 h
    obtain ⟨fs, hfs, hrest⟩ := ih hgroups
    refine ⟨f :: fs, ?_, fun key => ?_⟩
    · rw [List.mapM_cons, hf, hfs]
      rfl
    · rw [List.flatten_cons, List.flatten_cons, List.lookup_append, List.lookup_append, hlookup, hrest]
      cases group.lookup key with
      | none => rfl
      | some shape =>
        cases told key with
        | none => simp
        | some x => rfl

/-- A content is read back from an object that holds what was written of its slots. -/
theorem ofMembers_written (hn : (l.map Prod.fst).Nodup) (hl : ∀ e ∈ c.slots.table, e ∈ l) :
    ofMembers c.tag (textual (present l)) = .ok c := by
  -- Every group of keys finds its slots among those of the content.
  have hgroup : ∀ group ∈ c.tag.shapes, ∃ f,
      Slots.collect group (fun _ => .ok ()) [] (textual (present l)) = .ok f ∧
        ∀ key, f.lookup key =
          if (group.lookup key).isSome then (c.slots.lookup key).filter Slot.isWritten else none := by
    intro group hgroup
    refine Slots.collect_written hn (fun _ _ _ _ => rfl) fun key shape hshape => ?_
    have hmem : (key, shape) ∈ c.slots.shapes := by
      obtain ⟨l₁, l₂, rfl, -⟩ := List.lookup_eq_some_iff.1 hshape
      exact (shapes_slots c).mem_iff.2 (List.mem_flatten.2 ⟨_, hgroup, by simp⟩)
    obtain ⟨e, he, heq⟩ := List.mem_map.1 hmem
    cases heq
    exact ⟨e.2, (lookup_eq_some_iff_mem (nodup_slots c)).2 he, rfl,
      hl _ (List.mem_map.2 ⟨e, he, rfl⟩)⟩
  obtain ⟨groups, hgroups, hlookup⟩ := collect_groups hgroup
  have hshapes (key : String) : c.tag.shapes.flatten.lookup key = c.slots.shapes.lookup key :=
    (lookup_perm (shapes_slots c).symm (nodup_shapes c.tag)).symm
  have hagree : Slots.Agree groups.flatten c.slots := Slots.agree_of_written fun key => by
    rw [hlookup, hshapes, Slots.lookup_shapes]
    cases c.slots.lookup key <;> rfl
  rw [ofMembers, hgroups]
  exact congrArg Except.ok ((ofSlots_congr hagree c.tag).trans (ofSlots_slots c))

end Content

/-! ### Records -/

namespace Record

/-- What a record is written as under the keys that are read for all records. -/
def commonTable (r : Record) : List (String × Option Json) :=
  [("name", some (.str r.name)), ("managed_name", r.head.managedName.map .str),
    ("name_generic_aware", r.head.genericName.map .str),
    ("jni_signature", r.head.jniSignature.map .str), ("location", some r.head.location.toJson),
    ("deprecation", some r.head.deprecation.toJson), ("api_since", r.head.apiSince.map .str),
    ("api_until", r.head.apiUntil.map .str), ("merge_source_file", r.head.mergeSource.map .str),
    ("other_attributes",
      if r.head.attributes.entries = [] then none else some r.head.attributes.toJson),
    ("children", if r.children = [] then none else some (forestToJson r.children))]

/-- What is read under these keys. -/
def commonTold (r : Record) : List (String × Option CommonSlot) :=
  let optional (s : Option String) := s.map fun s => CommonSlot.optionalText (some s)
  [("name", some (.text r.name)), ("managed_name", optional r.head.managedName),
    ("name_generic_aware", optional r.head.genericName),
    ("jni_signature", optional r.head.jniSignature), ("location", some (.location r.head.location)),
    ("deprecation", some (.deprecation r.head.deprecation)),
    ("api_since", optional r.head.apiSince), ("api_until", optional r.head.apiUntil),
    ("merge_source_file", optional r.head.mergeSource),
    ("other_attributes",
      if r.head.attributes.entries = [] then none else some (.attributes r.head.attributes)),
    ("children", if r.children = [] then none else some (.children r.children))]

/-- What a record is written as. -/
def table (r : Record) : List (String × Option Json) :=
  [("kind", some (.str r.tag.text))] ++ r.content.slots.table ++ r.commonTable

/-- What is read of a record before its kind is known. -/
def told (r : Record) : List (String × Option CommonSlot) :=
  [("kind", none)] ++ r.content.slots.map (fun e => (e.1, none)) ++ r.commonTold

variable {r : Record}

theorem present_unless {c : Prop} [Decidable c] :
    present [(key, if c then none else some v)] = if c then [] else [(key, v)] := by
  split <;> rfl

theorem present_table (r : Record) : present r.table = r.head.members ++
    if r.children = [] then [] else [("children", forestToJson r.children)] := by
  let optional (key : String) (s : Option String) := (key, Slot.optionalText s)
  let first : Slots := [("name", .text r.name), optional "managed_name" r.head.managedName,
    optional "name_generic_aware" r.head.genericName, optional "jni_signature" r.head.jniSignature]
  let second : Slots := [optional "api_since" r.head.apiSince, optional "api_until" r.head.apiUntil,
    optional "merge_source_file" r.head.mergeSource]
  have hcommon : r.commonTable = first.table ++
      [("location", some r.head.location.toJson), ("deprecation", some r.head.deprecation.toJson)] ++
      second.table ++ [("other_attributes",
        if r.head.attributes.entries = [] then none else some r.head.attributes.toJson)] ++
      [("children", if r.children = [] then none else some (forestToJson r.children))] := rfl
  rw [table, hcommon]
  simp only [present_append, ← Slots.members_eq_present, present_unless, ← List.append_assoc]
  rfl

theorem toJson_eq_object (r : Record) : r.toJson = Json.object (present r.table) := by
  rw [present_table]
  obtain ⟨head, _ | ⟨r, rs⟩⟩ := r
  · exact congrArg Json.object (List.append_nil _).symm
  · rfl

/-! ### The keys of a record -/

/-- No kind owns the key of its tag or one that is read for all records, and none owns a key twice. -/
theorem nodup_keys (t : Tag) :
    (["kind"] ++ t.shapes.flatten.map Prod.fst ++ commonKeys).Nodup := by
  cases t <;> decide

/-- The keys that a kind owns are left alone until the kind is known. -/
theorem commonReader?_owned (t : Tag) : ∀ key ∈ t.shapes.flatten.map Prod.fst,
    (commonReader? key).isNone = true := by
  cases t <;> decide

theorem keys_table (r : Record) : (r.table.map Prod.fst).Perm
    (["kind"] ++ r.tag.shapes.flatten.map Prod.fst ++ commonKeys) := by
  have hslots : (r.content.slots.table.map Prod.fst).Perm (r.tag.shapes.flatten.map Prod.fst) :=
    Slots.keys_table ▸ Content.keys_slots r.content
  rw [table, List.map_append, List.map_append]
  exact (hslots.append_left _).append_right _

theorem nodup_table (r : Record) : (r.table.map Prod.fst).Nodup :=
  (keys_table r).nodup_iff.2 (nodup_keys r.tag)

theorem keys_told (r : Record) : r.told.map Prod.fst = r.table.map Prod.fst := by
  have hslots : (r.content.slots.map fun e => (e.1, (none : Option CommonSlot))).map Prod.fst =
      r.content.slots.table.map Prod.fst := by
    rw [Slots.keys_table, List.map_map]
    rfl
  rw [table, told, List.map_append, List.map_append, List.map_append, List.map_append, hslots]
  rfl

/-! ### Reading a record back -/

section Gives

theorem gives_none (key : String) :
    Gives commonReader? Json.check (key, none) (key, none) :=
  ⟨rfl, fun _ => rfl, fun v hv => by cases hv⟩

theorem gives_read {read : Json → Except Fault CommonSlot} {x : CommonSlot}
    (hr : commonReader? key = some read) (hv : read v = .ok x) :
    Gives commonReader? Json.check (key, some v) (key, some x) := by
  refine ⟨rfl, (fun h => by cases h), fun w hw => ?_⟩
  cases hw
  exact (entry_owned_eq_ok hr).2 ⟨x, hv, rfl⟩

theorem gives_optional (hr : commonReader? key =
    some fun v => CommonSlot.optionalText <$> v.readOptionalString) (o : Option String) :
    Gives commonReader? Json.check (key, o.map .str)
      (key, o.map fun s => .optionalText (some s)) := by
  cases o with
  | none => exact gives_none key
  | some s => exact gives_read hr rfl

theorem gives_checked (hr : commonReader? key = none) {o : Option Json}
    (hv : ∀ v, o = some v → v.check = .ok ()) :
    Gives commonReader? Json.check (key, o) (key, none) :=
  ⟨rfl, fun _ => rfl, fun v hs => (entry_foreign_eq_ok hr).2 ⟨hv v hs, rfl⟩⟩

/-- All of a record but what its kind owns is told by its common keys. -/
theorem gives_told (hc : listOfJson (forestToJson r.children) = .ok r.children) :
    List.Forall₂ (Gives commonReader? Json.check) r.table r.told := by
  have hkind : List.Forall₂ (Gives commonReader? Json.check)
      [("kind", some (.str r.tag.text))] [("kind", none)] :=
    .cons (gives_checked rfl fun v hv => by cases hv; rfl) .nil
  have hslots : List.Forall₂ (Gives commonReader? Json.check) r.content.slots.table
      (r.content.slots.map fun e => (e.1, none)) := by
    refine List.forall₂_map_right_iff.2 (List.forall₂_map_left_iff.2
      (List.forall₂_same.2 fun e he => ?_))
    have hkey : e.1 ∈ r.tag.shapes.flatten.map Prod.fst :=
      (Content.keys_slots r.content).mem_iff.1 (List.mem_map.2 ⟨e, he, rfl⟩)
    exact gives_checked (Option.isNone_iff_eq_none.1 (commonReader?_owned r.tag e.1 hkey))
      fun v hv => Json.check_toJson hv
  have hattributes : Gives commonReader? Json.check
      ("other_attributes",
        if r.head.attributes.entries = [] then none else some r.head.attributes.toJson)
      ("other_attributes",
        if r.head.attributes.entries = [] then none else some (.attributes r.head.attributes)) := by
    split
    · exact gives_none _
    · exact gives_read rfl (Except.map_eq_ok.2 ⟨_, Attributes.ofJson_toJson _, rfl⟩)
  have hchildren : Gives commonReader? Json.check
      ("children", if r.children = [] then none else some (forestToJson r.children))
      ("children", if r.children = [] then none else some (.children r.children)) := by
    split
    · exact gives_none _
    · exact gives_read rfl (Except.map_eq_ok.2 ⟨_, hc, rfl⟩)
  have hcommon : List.Forall₂ (Gives commonReader? Json.check) r.commonTable r.commonTold :=
    .cons (gives_read rfl rfl) <| .cons (gives_optional rfl _) <| .cons (gives_optional rfl _) <|
    .cons (gives_optional rfl _) <|
    .cons (gives_read rfl (Except.map_eq_ok.2 ⟨_, Location.ofJson_toJson _, rfl⟩)) <|
    .cons (gives_read rfl (Except.map_eq_ok.2 ⟨_, Deprecation.ofJson_toJson _, rfl⟩)) <|
    .cons (gives_optional rfl _) <| .cons (gives_optional rfl _) <|
    .cons (gives_optional rfl _) <| .cons hattributes <| .cons hchildren .nil
  exact List.rel_append (List.rel_append hkind hslots) hcommon

end Gives

/-- What is told under a common key is found under it. -/
theorem lookup_told {o : Option CommonSlot} (hm : (key, o) ∈ r.commonTold) :
    (present r.told).lookup key = o := by
  have hn : (r.told.map Prod.fst).Nodup := by
    rw [keys_told]
    exact nodup_table r
  rw [lookup_present hn, (lookup_eq_some_iff_mem hn).2 (List.mem_append_right _ hm)]
  rfl

theorem head_told (r : Record) :
    CommonSlot.Filled.head (present r.told) r.content r.name = r.head := by
  have hoptional : ∀ {key : String} {o : Option String},
      (key, o.map fun s => CommonSlot.optionalText (some s)) ∈ r.commonTold →
        CommonSlot.Filled.optionalText (present r.told) key = o := by
    intro key o hm
    rw [CommonSlot.Filled.optionalText, lookup_told hm]
    cases o <;> rfl
  have hattributes : (present r.told).lookup "other_attributes" =
      if r.head.attributes.entries = [] then none else some (.attributes r.head.attributes) :=
    lookup_told (by simp [commonTold])
  have hempty : r.head.attributes.entries = [] → Attributes.empty = r.head.attributes :=
    fun he => Attributes.ext_entries he.symm
  unfold CommonSlot.Filled.head
  rw [hoptional (o := r.head.managedName) (by simp [commonTold]),
    hoptional (o := r.head.genericName) (by simp [commonTold]),
    hoptional (o := r.head.jniSignature) (by simp [commonTold]),
    lookup_told (o := some (.location r.head.location)) (by simp [commonTold]),
    lookup_told (o := some (.deprecation r.head.deprecation)) (by simp [commonTold]),
    hoptional (o := r.head.apiSince) (by simp [commonTold]),
    hoptional (o := r.head.apiUntil) (by simp [commonTold]),
    hoptional (o := r.head.mergeSource) (by simp [commonTold]), hattributes]
  by_cases he : r.head.attributes.entries = []
  · rw [if_pos he, hempty he]
    rfl
  · rw [if_neg he]
    rfl

theorem children_told (r : Record) :
    CommonSlot.Filled.children (present r.told) = r.children := by
  have hchildren : (present r.told).lookup "children" =
      if r.children = [] then none else some (.children r.children) :=
    lookup_told (by simp [commonTold])
  rw [CommonSlot.Filled.children, hchildren]
  by_cases he : r.children = []
  · rw [if_pos he, he]
  · rw [if_neg he]

theorem readTag_table (r : Record) : readTag none (textual (present r.table)) = .ok r.tag := by
  let rest := r.content.slots.table ++ r.commonTable
  let told : List (String × Option Tag) := ("kind", some r.tag) :: rest.map fun e => (e.1, none)
  have htable : r.table = ("kind", some (.str r.tag.text)) :: rest := rfl
  have hn := nodup_table r
  rw [htable, List.map_cons, List.nodup_cons] at hn
  have hkeys : (told.map Prod.fst).Nodup := by
    have hrest : (rest.map fun e => (e.1, (none : Option Tag))).map Prod.fst = rest.map Prod.fst := by
      rw [List.map_map]
      rfl
    rw [List.map_cons, hrest]
    exact List.nodup_cons.2 hn
  have hgives : List.Forall₂ (Gives kindReader? fun _ => .ok ()) r.table told := by
    refine .cons ⟨rfl, (fun h => by cases h), fun v hv => ?_⟩
      (List.forall₂_map_right_iff.2 (List.forall₂_same.2 fun e he => ⟨rfl, fun _ => rfl, fun v _ => ?_⟩))
    · cases hv
      exact (entry_owned_eq_ok rfl).2 ⟨r.tag, congrArg Except.ok (Tag.ofText_text r.tag), rfl⟩
    · have hne : e.1 ≠ "kind" := fun hk => hn.1 (hk ▸ List.mem_map.2 ⟨e, he, rfl⟩)
      exact (entry_foreign_eq_ok (if_neg hne)).2 ⟨rfl, rfl⟩
  exact readTag_eq_ok.2 ⟨_, gather_present hkeys hgives, rfl⟩

/-- A record is read back if its children are. -/
theorem ofJson_of_children (hc : listOfJson (forestToJson r.children) = .ok r.children) :
    ofJson r.toJson = .ok r := by
  have hn : (r.told.map Prod.fst).Nodup := by
    rw [keys_told]
    exact nodup_table r
  have hname : (present r.told).lookup "name" = some (.text r.name) :=
    lookup_told List.mem_cons_self
  have hcontent : Content.ofMembers r.tag (textual (present r.table)) = .ok r.content :=
    Content.ofMembers_written (nodup_table r) fun e he =>
      List.mem_append_left _ (List.mem_append_right _ he)
  rw [toJson_eq_object]
  refine ofJson_eq_ok.2 ⟨present r.told, gather_present hn (gives_told hc), rfl, ?_⟩
  refine assemble_eq_ok.2 ⟨r.name, r.tag, r.content, hname, readTag_table r, hcontent, ?_⟩
  rw [head_told, children_told]
  cases r
  rfl

mutual

/-- Reading a written record gives it back. -/
theorem ofJson_toJson : ∀ r : Record, ofJson r.toJson = .ok r
  | ⟨_, children⟩ => ofJson_of_children (listOfJson_forestToJson children)

theorem listOfJson_forestToJson (rs : List Record) : listOfJson (forestToJson rs) = .ok rs := by
  have hitems := ofItems_items rs
  change (do let rs ← ofItems (items rs); _) = _
  rw [hitems]
  rfl

theorem ofItems_items : ∀ rs : List Record, ofItems (items rs) = .ok rs
  | [] => rfl
  | r :: rs => by
    rw [items, ofItems, ofJson_toJson r, ofItems_items rs]
    rfl

end

/-- Every text that stands for a written forest, and that is not nested too deep, reads as that
forest. -/
theorem readForest_of_written {text : String} {rest : List Char} {rs : List Record}
    (hread : Json.read text.toList = (forestToJson rs, rest)) (hrest : Json.skipSpace rest = [])
    (hdepth : (forestToJson rs).depth ≤ Json.nestingLimit) : readForest text = .ok rs := by
  unfold readForest Json.decode
  rw [hread]
  dsimp only
  rw [Json.limit_of_depth_le _ hdepth, listOfJson_forestToJson]
  change (if Json.skipSpace rest = [] then _ else _) = _
  rw [if_pos hrest]
  rfl

/-- A namespace with an empty managed name, and in it a class with a base, a visibility and a
location. -/
def sampleForest : List Record :=
  [⟨{ content := .ns { jniName := some "p" }, name := "a", managedName := some "" },
    [⟨{ content := .cls { type := { isFinal := true, visibility := .protInternal }, base := some "a.B" },
        name := "C", location := { path := some "C.java", line := some 7 } }, []⟩]⟩]

/-- What the sample is written as, without blanks. -/
def sampleText : String :=
  "[\x7b\"kind\":\"namespace\",\"jni_name\":\"p\",\"name\":\"a\",\"managed_name\":\"\","
    ++ "\"location\":\x7b\x7d,\"deprecation\":\x7b\"deprecated\":false\x7d,\"children\":["
    ++ "\x7b\"kind\":\"class\",\"abstract\":false,\"static\":false,\"final\":true,"
    ++ "\"visibility\":\"protected internal\",\"extends\":\"a.B\",\"obfuscated\":false,\"name\":\"C\","
    ++ "\"location\":\x7b\"document_path\":\"C.java\",\"line\":7\x7d,"
    ++ "\"deprecation\":\x7b\"deprecated\":false\x7d\x7d]\x7d]"

theorem read_sampleText : Json.read sampleText.toList = (forestToJson sampleForest, []) := by
  unfold sampleText
  simp only [String.toList_append]
  repeat rw [String.toList_ofList]
  decide +kernel

theorem readForest_of_sampleText :
    Json.read sampleText.toList = (forestToJson sampleForest, []) ∧
      (forestToJson sampleForest).depth ≤ Json.nestingLimit ∧
        readForest sampleText = .ok sampleForest := by
  have hdepth : (forestToJson sampleForest).depth ≤ Json.nestingLimit := by decide
  exact ⟨read_sampleText, hdepth, readForest_of_written read_sampleText rfl hdepth⟩

end Record

end BindingTree
