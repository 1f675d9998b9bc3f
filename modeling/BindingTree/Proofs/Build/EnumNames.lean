import BindingTree.Proofs.Build.FullNames
import Mathlib.Data.List.Forall2

/-! Native names below nested enums. An enum of the top level takes the whole name of its record as
its full name, and what is below it is named from there. When the enum is nested, its own full name
is made to follow its new place, but the names below it still go on from the record's. So they follow
the chain of owners just when the record names the enum's owner by the full native name of that
owner; a record that names it by the managed one, as enums may, leaves them behind. -/

namespace BindingTree

open Build Naming
open Relation (ReflTransGen)

/-- Whether elements of a kind may stand below an enum. -/
def Kind.belowEnum : Kind → Bool
  | .field | .method | .param | .typeParam | .exception | .constraint => true
  | _ => false

namespace Hierarchy

/-- What stands at the top still stands there under its native names. -/
def KeepsTop (h h' : Hierarchy) : Prop :=
  ∀ ⦃i : ElementId⦄, h.owner i = .root →
    h'.owner i = .root ∧ (h'.element i).native = (h.element i).native

/-- An enum at the top, as its record names it. -/
structure TopEnum (h : Hierarchy) (r : Record) (i : ElementId) : Prop where
  owner : h.owner i = .root
  fullName : h.fullName i = r.name
  name : (h.element i).name = (splitLast r.name).2

/-- The enums of a hierarchy are those of a list of records, in the same order. -/
def EnumsFrom (h : Hierarchy) (rs : List Record) : Prop :=
  List.Forall₂ h.TopEnum (rs.filter (·.tag = .enum)) h.enums

end Hierarchy

variable {p : Plan} {r : Record} {rs done : List Record} {heads : List Record.Head} {s : Settings}
  {d d' d₁ d₂ d₃ d₄ d₅ d₆ : Draft} {h h' h'' : Hierarchy} {a i j t : ElementId}

/-! ### Enums at the top -/

namespace Hierarchy

theorem SameNative.keepsTop (hs : h.SameNative h') : h.KeepsTop h' :=
  fun i hi => ⟨by rw [hs.owner, hi], hs.native i⟩

theorem TopEnum.kept (ht : h.TopEnum r i) (hk : h.KeepsTop h') : h'.TopEnum r i where
  owner := (hk ht.owner).1
  fullName := (fullName_of_native (hk ht.owner).2).trans ht.fullName
  name := (name_of_native (hk ht.owner).2).trans ht.name

theorem EnumsFrom.kept (hf : h.EnumsFrom rs) (hk : h.KeepsTop h') (he : h'.enums = h.enums) :
    h'.EnumsFrom rs := by
  unfold EnumsFrom
  rw [he]
  exact List.Forall₂.imp (fun _ _ ht => ht.kept hk) hf

/-- Each enum has its record in the same place. -/
theorem EnumsFrom.exists_zip (hf : h.EnumsFrom rs) (hi : i ∈ h.enums) :
    ∃ r, (r, i) ∈ (rs.filter (·.tag = .enum)).zip h.enums ∧ h.TopEnum r i := by
  obtain ⟨n, hn, rfl⟩ := List.getElem_of_mem hi
  have hlt : n < (rs.filter (·.tag = .enum)).length := List.Forall₂.length_eq hf ▸ hn
  refine ⟨(rs.filter (·.tag = .enum))[n], ?_, List.Forall₂.get hf hlt hn⟩
  have hzip : n < ((rs.filter (·.tag = .enum)).zip h.enums).length := by
    rw [List.length_zip]
    exact Nat.lt_min.2 ⟨hlt, hn⟩
  have hmem := List.getElem_mem hzip
  rwa [List.getElem_zip] at hmem

end Hierarchy

open Hierarchy (Fresh)

theorem Hierarchy.Fresh.keepsTop {o : Owner} {e : Element} (hf : Fresh h h' o e) : h.KeepsTop h' := by
  intro i hi
  have hlt : i < h.size := Hierarchy.lt_size_of_owner_ne (by simp [hi])
  exact ⟨(hf.owner_of_lt hlt).trans hi, by rw [hf.element_of_lt hlt]⟩

theorem keepsTop_of_below (hst : IntakeBelow heads d d') :
    d.hierarchy.KeepsTop d'.hierarchy ∧ d'.hierarchy.enums = d.hierarchy.enums := by
  cases hst with
  | below hm hp ha hc => exact ⟨Fresh.putBelow.keepsTop, by simp⟩
  | inherit hm hc hn =>
    exact ⟨(Hierarchy.SameNative.modify (Element.native_withFacts _)).keepsTop, rfl⟩
  | enter hi ht hr => exact ⟨(Hierarchy.SameNative.refl _).keepsTop, rfl⟩
  | notice => exact ⟨(Hierarchy.SameNative.refl _).keepsTop, rfl⟩

theorem keepsTop_of_intake (hst : Intake heads d d') : d.hierarchy.KeepsTop d'.hierarchy := by
  cases hst with
  | ns hm hc => exact Fresh.putNamespace.keepsTop
  | enum hm hc hdot => exact Fresh.putEnum.keepsTop
  | below hst => exact (keepsTop_of_below hst).1

theorem keepsTop_of_support (hst : Support s d d') :
    d.hierarchy.KeepsTop d'.hierarchy ∧ d'.hierarchy.enums = d.hierarchy.enums := by
  cases hst with
  | ns hn hr => exact ⟨Fresh.putNamespace.keepsTop, by simp⟩
  | give hne =>
    exact ⟨(Hierarchy.SameNative.modify (f := givenAs s.runtimeNamespace) fun _ => rfl).keepsTop, rfl⟩
  | type hns hk hr => exact ⟨Fresh.putBelow.keepsTop, by simp⟩

theorem enumsFrom_of_below (hf : d.hierarchy.EnumsFrom rs)
    (hst : ReflTransGen (IntakeBelow heads) d d') : d'.hierarchy.EnumsFrom rs := by
  induction hst with
  | refl => exact hf
  | tail _ hst ih =>
    obtain ⟨hkept, henums⟩ := keepsTop_of_below hst
    exact ih.kept hkept henums

theorem enumsFrom_of_support (hf : d.hierarchy.EnumsFrom rs)
    (hst : ReflTransGen (Support s) d d') : d'.hierarchy.EnumsFrom rs := by
  induction hst with
  | refl => exact hf
  | tail _ hst ih =>
    obtain ⟨hkept, henums⟩ := keepsTop_of_support hst
    exact ih.kept hkept henums

theorem Hierarchy.EnumsFrom.typesNested (hf : d.hierarchy.EnumsFrom rs) (hs : d.Sound)
    (ht : TypesNested d h') : h'.EnumsFrom rs := by
  refine hf.kept (fun i hi => ?_) ht.enums
  rcases ht.stayed_or_moved i with ⟨howner, helement⟩ | ⟨o, hmem, -⟩
  · exact ⟨howner.trans hi, by rw [helement]⟩
  · obtain ⟨ns, -, ho⟩ := (mem_listedTypes hs.orderly.toWellFormed).1 hmem
    rw [hi] at ho
    cases ho

/-- A record's enum goes to the end of the list. -/
theorem enumsFrom_putEnum {info : TypeInfo} (hs : d.Sound) (hr : r.tag = .enum)
    (hf : d.hierarchy.EnumsFrom done) :
    (d.hierarchy.putEnum (enumOf r.head info)).EnumsFrom (done ++ [r]) := by
  have hfresh := Fresh.putEnum (h := d.hierarchy) (e := enumOf r.head info)
  have hnew : (d.hierarchy.putEnum (enumOf r.head info)).TopEnum r d.hierarchy.size := by
    refine ⟨hfresh.owner_new, ?_, ?_⟩
    · rw [Hierarchy.fullName, hfresh.element_new]
      rfl
    · rw [hfresh.element_new]
      rfl
  unfold Hierarchy.EnumsFrom
  rw [Hierarchy.enums_putEnum hs.orderly.size_not_mem_enums, List.filter_append,
    List.filter_singleton, hr]
  refine List.rel_append ?_ (.cons hnew .nil)
  exact List.Forall₂.imp (fun _ _ ht => ht.kept hfresh.keepsTop) hf

/-- Taking records in lists their enums. -/
theorem enumsFrom_of_ingest (hm : ∀ x ∈ Record.headsOf rs, x ∈ heads) (hs : d.Sound)
    (hf : d.hierarchy.EnumsFrom done) (hd : ingest rs d = .ok () d') :
    d'.hierarchy.EnumsFrom (done ++ rs) := by
  induction rs generalizing d done with
  | nil =>
    obtain ⟨-, rfl⟩ := pure_ok.1 hd
    rwa [List.append_nil]
  | cons r rs ih =>
    have hhead : ∀ x ∈ r.heads, x ∈ heads := fun x hx => hm x (by simp [Record.headsOf, hx])
    have hrest : ∀ x ∈ Record.headsOf rs, x ∈ heads := fun x hx =>
      hm x (by simp [Record.headsOf, hx])
    obtain ⟨d₁, hr, hd₁⟩ := ingest_cons hd
    rw [List.append_cons]
    -- A record of another kind leaves the list as it is.
    have hother : r.tag ≠ .enum → d₁.hierarchy.EnumsFrom done →
        d₁.hierarchy.EnumsFrom (done ++ [r]) := by
      intro ht hf₁
      unfold Hierarchy.EnumsFrom at hf₁ ⊢
      simpa [List.filter_append, ht] using hf₁
    rcases hr with ⟨ht, hr⟩ | ⟨ht, hr⟩ | ⟨-, ht, rfl⟩
    · obtain ⟨d₂, hst, henums, hbelow⟩ := ingestNamespace_ok ht hhead hr
      have hs₁ := sound_of_intake ((intake_of_below hbelow).head hst) hs
      have hf₂ : d₂.hierarchy.EnumsFrom done := hf.kept (keepsTop_of_intake hst) henums
      exact ih hrest hs₁ (hother (by simp [ht]) (enumsFrom_of_below hf₂ hbelow)) hd₁
    · obtain ⟨info, hst, hbelow⟩ := ingestEnum_ok ht hhead hr
      have hs₁ := sound_of_intake ((intake_of_below hbelow).head hst) hs
      exact ih hrest hs₁ (enumsFrom_of_below (enumsFrom_putEnum hs ht hf) hbelow) hd₁
    · have hs₁ : ({ d with registry := d.registry.notice (.unsupported r.name r.tag .top) } :
          Draft).Sound := ⟨hs.orderly, hs.points⟩
      exact ih hrest hs₁ (hother ht hf) hd₁

/-! ### Chains below an enum -/

theorem Kind.ne_of_belowEnum {k : Kind} (hk : k.belowEnum = true) :
    k ≠ .invoker ∧ k ≠ .enum ∧ k ≠ .cls ∧ k ≠ .iface := by
  revert hk
  cases k <;> decide

theorem belowEnum_of_above (ho : h.Orderly) (hk : h.kind i = .enum) (ha : h.Above i j) :
    (h.kind j).belowEnum = true := by
  induction ha with
  | single hij =>
    have hfits := ho.fits hij
    rw [hk] at hfits
    revert hfits
    cases h.kind _ <;> decide
  | @tail b c _ hbc ih =>
    have hfits := ho.fits hbc
    revert hfits ih
    cases h.kind b <;> cases h.kind c <;> decide

/-- Nothing above an enum is an enum. -/
theorem ne_enum_of_above (ho : h.Orderly) (hk : h.kind i = .enum) (ha : h.Above a i) :
    h.kind a ≠ .enum := by
  intro hka
  exact (Kind.ne_of_belowEnum (belowEnum_of_above ho hka ha)).2.1 hk

/-- An element whose members are named from `old`, with all further down named in order. -/
structure Hierarchy.NamedFrom (h : Hierarchy) (i : ElementId) (old : String) : Prop where
  member : ∀ {c : ElementId}, h.owner c = .element i →
    h.fullName c = old ++ "." ++ (h.element c).name
  deeper : ∀ {q c : ElementId}, h.Above i q → h.owner c = .element q → h.Composed c

namespace Hierarchy.NamedFrom

variable {old : String} (hn : h.NamedFrom i old) (hg : h.Grounded)
include hn hg

/-- Below such an element, full names and chains differ in their fronts only. -/
theorem exists_rest (ha : h.Above i j) :
    ∃ rest, h.fullName j = old ++ "." ++ rest ∧
      h.chainFullName j = h.chainFullName i ++ "." ++ rest := by
  have hchain : ∀ {q c : ElementId}, h.owner c = .element q →
      h.chainFullName c = h.chainFullName q ++ "." ++ (h.element c).name :=
    fun hqc => Hierarchy.chain_of_owner hg hqc
  induction ha with
  | @single c hic => exact ⟨(h.element c).name, hn.member hic, hchain hic⟩
  | @tail b c hab hbc ih =>
    obtain ⟨rest, hfull, hb⟩ := ih
    refine ⟨rest ++ "." ++ (h.element c).name, ?_, ?_⟩
    · rw [(Hierarchy.composed_iff_of_owner hbc).1 (hn.deeper hab hbc), hfull]
      simp only [String.append_assoc]
    · rw [hchain hbc, hb]
      simp only [String.append_assoc]

theorem fullName_eq_chain_iff (ha : h.Above i j) :
    h.fullName j = h.chainFullName j ↔ old = h.chainFullName i := by
  obtain ⟨rest, hfull, hchain⟩ := hn.exists_rest hg ha
  rw [hfull, hchain, String.append_left_inj, String.append_left_inj]

end Hierarchy.NamedFrom

/-- A full name with a qualifier is the chain of an element with the name's last part just when the
qualifier is the chain of the element's owner. -/
theorem eq_chain_iff_of_splitLast {full : String} (hg : h.Grounded) (ht : h.owner i = .element t)
    (hname : (h.element i).name = (splitLast full).2) (hq : (splitLast full).1 ≠ none) :
    full = h.chainFullName i ↔ (splitLast full).1 = some (h.chainFullName t) := by
  obtain ⟨q, hq⟩ := Option.ne_none_iff_exists'.1 hq
  have hchain : h.chainFullName i = h.chainFullName t ++ "." ++ (splitLast full).2 := by
    rw [← hname]
    exact Hierarchy.chain_of_owner hg ht
  have hfull := eq_append_of_splitLast hq
  rw [hq, Option.some.injEq, hchain]
  constructor
  · intro he
    have hsplit := hfull.symm.trans he
    rwa [String.append_left_inj, String.append_left_inj] at hsplit
  · rintro rfl
    exact hfull

/-- From a composed element down, full names are those of the chains just when they are for its
owner, and for its members if it has any. -/
theorem Hierarchy.NamedFrom.forall_walk_iff {old : String} (hn : h.NamedFrom i old) (ho : h.Orderly)
    (ht : h.owner i = .element t) (hi : h.Composed i) :
    (∀ j ∈ h.walk i, h.fullName j = h.chainFullName j) ↔
      h.fullName t = h.chainFullName t ∧ (h.members i = [] ∨ old = h.chainFullName i) := by
  have hlt : i < h.size := Hierarchy.lt_size_of_owner_ne (by simp [ht])
  have hself : h.fullName i = h.chainFullName i ↔ h.fullName t = h.chainFullName t := by
    have hchain : h.chainFullName i = h.chainFullName t ++ "." ++ (h.element i).name :=
      Hierarchy.chain_of_owner ho.toGrounded ht
    rw [(Hierarchy.composed_iff_of_owner ht).1 hi, hchain, String.append_left_inj,
      String.append_left_inj]
  constructor
  · intro hall
    refine ⟨hself.1 (hall i ((ho.mem_walk hlt).2 (.refl h i))), ?_⟩
    by_cases hmembers : h.members i = []
    · exact .inl hmembers
    · obtain ⟨c, hc⟩ := List.exists_mem_of_ne_nil _ hmembers
      have hic : h.Above i c := .of_owner (ho.mem_members.1 hc)
      exact .inr ((hn.fullName_eq_chain_iff ho.toGrounded hic).1
        (hall c ((ho.mem_walk hlt).2 (.inr hic))))
  · rintro ⟨hfull, hbelow⟩ j hj
    rcases (ho.mem_walk hlt).1 hj with rfl | ha
    · exact hself.2 hfull
    · obtain ⟨c, hic, -⟩ := Relation.TransGen.head'_iff.1 ha
      have hold := hbelow.resolve_left (List.ne_nil_of_mem (ho.mem_members.2 hic))
      exact (hn.fullName_eq_chain_iff ho.toGrounded ha).2 hold

/-! ### The whole build -/

theorem Enclosed.enumsFrom_named (he : Enclosed p rs d₁ d₂ d₃ d₄ d₅) :
    d₄.hierarchy.EnumsFrom rs := by
  have hblank : p.blank.hierarchy.EnumsFrom [] := .nil
  have hingested : d₁.hierarchy.EnumsFrom rs :=
    enumsFrom_of_ingest (fun _ hx => hx) sound_blank hblank he.ingest
  have hsupported := enumsFrom_of_support hingested he.support
  have hnested := hsupported.typesNested he.sound_supported he.types
  have hsame := he.namedOver.toSameNative
  exact hnested.kept hsame.keepsTop hsame.enums

namespace Stages

variable (hst : Stages p rs d₁ d₂ d₃ d₄ d₅ d₆ d')
include hst

theorem enums_finished : d'.hierarchy.enums = d₄.hierarchy.enums :=
  hst.finish.enums.trans (hst.invokers.enums.trans hst.enums.enums)

theorem enumsFrom_named : d₄.hierarchy.EnumsFrom rs := hst.enclosed.enumsFrom_named

/-- What is no invoker has its place and its native names from before invokers were made. -/
theorem of_enclosed (hi : d'.hierarchy.owner i ≠ .detached) (hk : d'.hierarchy.kind i ≠ .invoker) :
    d'.hierarchy.owner i = d₅.hierarchy.owner i ∧
      (d'.hierarchy.element i).native = (d₅.hierarchy.element i).native := by
  have howner := hst.finish.owner hi
  rw [hst.finish.kind] at hk
  by_cases hlt : i < d₅.hierarchy.size
  · exact ⟨howner.trans (hst.invokers.owner hlt),
      (hst.finish.native i).trans (hst.invokers.native hlt)⟩
  · have hmade := hst.invokers.made (Nat.not_lt.1 hlt)
      (Hierarchy.lt_size_of_owner_ne (howner ▸ hi))
    exact absurd hmade.1 hk

/-- An enum that has come to stand below an element is composed there, of the last part of its
record's name, which has a qualifier. -/
theorem composed_moved (hi : d₄.hierarchy.TopEnum r i) (ht : d'.hierarchy.owner i = .element t)
    (hk : d'.hierarchy.kind i = .enum) :
    d'.hierarchy.Composed i ∧ (d'.hierarchy.element i).name = (splitLast r.name).2 ∧
      (splitLast r.name).1 ≠ none := by
  have hatt : d'.hierarchy.owner i ≠ .detached := by simp [ht]
  obtain ⟨howner, hnative⟩ := hst.of_enclosed hatt (by simp [hk])
  have hname : (d'.hierarchy.element i).name = (splitLast r.name).2 := by
    rw [Hierarchy.name_of_native hnative, hst.enums.name, hi.name]
  rcases hst.enums.stayed_or_moved i with ⟨hstay, -⟩ | ⟨o, hroot, ho⟩
  · rw [ht, hstay, hi.owner] at howner
    cases howner
  · obtain ⟨q, -, hq, -⟩ := nest?_eq_some.1 ho
    rw [hi.fullName] at hq
    have hcomposed := (hst.enums.moved hroot ho).2
    have hlt : i < d₅.hierarchy.size := Hierarchy.lt_size_of_owner_ne (howner ▸ hatt)
    have hcalled : d₆.hierarchy.Composed i :=
      hcomposed.of_native (hst.invokers.owner hlt) (hst.invokers.native hlt) fun q hq =>
        hst.invokers.native (hst.sound_enclosed.orderly.owner_lt hq)
    exact ⟨hst.finish.composed hatt hcalled, hname, by simp [hq]⟩

/-- Below a nested enum names go on from the name of its record. -/
theorem namedFrom (hc : Colonfree p rs) (hi : d₄.hierarchy.TopEnum r i)
    (hk : d'.hierarchy.kind i = .enum) : d'.hierarchy.NamedFrom i r.name := by
  have ho := hst.sound_finished.orderly
  constructor
  · intro c hic
    obtain ⟨hinvoker, henum, hcls, hiface⟩ := Kind.ne_of_belowEnum
      (belowEnum_of_above ho hk (.of_owner hic))
    obtain ⟨howner, hnative⟩ := hst.of_enclosed (by simp [hic]) hinvoker
    have hkind : d'.hierarchy.kind c = d₄.hierarchy.kind c := by
      rw [← hst.enums.kind]
      exact congrArg Prod.fst hnative
    rw [hkind] at henum hcls hiface
    obtain ⟨hstay, hfull⟩ := hst.enums.stayed_of_kind hst.sound_named henum
    have hic₄ : d₄.hierarchy.owner c = .element i := by rw [← hstay, ← howner, hic]
    have hset := (hst.placed_named hc (by simp [hic₄])).resolve_left fun he => henum he.1
    have hcomposed := hset.composed (Hierarchy.not_supports_of_kind hcls hiface)
    rw [Hierarchy.fullName, Hierarchy.fullName_of_native hnative, Hierarchy.name_of_native hnative,
      hst.enums.name, ← hi.fullName]
    exact hfull.trans ((Hierarchy.composed_iff_of_owner hic₄).1 hcomposed)
  · intro q c hiq hqc
    obtain ⟨-, hq, -⟩ := Kind.ne_of_belowEnum (belowEnum_of_above ho hk hiq)
    obtain ⟨-, henum, hcls, hiface⟩ := Kind.ne_of_belowEnum
      (belowEnum_of_above ho hk (hiq.below hqc))
    have houtside : d'.hierarchy.OutsideEnums c := by
      refine ⟨henum, fun o ho => ?_⟩
      cases Owner.element.inj (ho.symm.trans hqc)
      exact hq
    exact (hst.allSettled_finished hc c (by simp [hqc]) houtside).composed
      (Hierarchy.not_supports_of_kind hcls hiface)

end Stages

/-- At the end of a build the elements from a nested enum down have the full names of their chains
just when the enum's new owner has, and the enum either has no members or is named in its record
after the full native name of that owner; every owner but a supporting type has. -/
theorem enumNames_of_build (hc : Colonfree p rs) (hb : (p.build rs).result = .ok h)
    (hr : (r, i) ∈ (rs.filter (·.tag = .enum)).zip h.enums) (ht : h.owner i = .element t) :
    ((∀ j ∈ h.walk i, h.fullName j = h.chainFullName j) ↔
        h.fullName t = h.chainFullName t ∧
          (h.members i = [] ∨ (splitLast r.name).1 = some (h.fullName t))) ∧
      ((h.element t).isBound = true ∨ h.kind t = .ns → h.fullName t = h.chainFullName t) := by
  obtain ⟨d, hd, rfl⟩ := build_ok hb
  obtain ⟨d₁, d₂, d₃, d₄, d₅, d₆, hst⟩ := stages_of_passes hd
  have ho := hst.sound_finished.orderly
  have hk : d.hierarchy.kind i = .enum := (ho.of_mem_enums (List.of_mem_zip hr).2).2
  have htop : d₄.hierarchy.TopEnum r i := by
    rw [hst.enums_finished] at hr
    exact List.forall₂_zip hst.enumsFrom_named hr
  obtain ⟨hcomposed, hname, hqualified⟩ := hst.composed_moved htop ht hk
  constructor
  · rw [(hst.namedFrom hc htop hk).forall_walk_iff ho ht hcomposed,
      eq_chain_iff_of_splitLast ho.toGrounded ht hname hqualified]
    exact and_congr_right fun hfull => by rw [hfull]
  · intro hmade
    refine (hst.allSettled_finished hc).fullName_eq_chain ho (ho.owner_ne_detached_of_owns ht) ?_ ?_
    · rcases hmade with hbound | hns
      · exact Hierarchy.not_supports_of_isBound hbound
      · exact Hierarchy.not_supports_of_kind (by simp [hns]) (by simp [hns])
    · intro a ha
      exact ne_enum_of_above ho hk (ha.elim (fun he => he ▸ .of_owner ht) (·.below ht))

/-- An enum whose record names the class above it by that class's native name. -/
theorem enumNames_of_sample : ∃ h, (samplePlan.build sampleRecords).result = .ok h ∧
    h.owner 8 = .element 1 ∧ h.members 8 = [9] ∧ ∀ j ∈ h.walk 8, h.fullName j = h.chainFullName j := by
  obtain ⟨h, hb, hq⟩ := exists_built samplePlan sampleRecords
    (fun h => decide (h.enums = [8, 10]) && decide (h.owner 8 = .element 1) &&
      decide (h.members 8 = [9]) && (h.element 1).isBound &&
        decide (h.fullName 1 = "a.b.Outer")) (by decide +kernel)
  simp only [Bool.and_eq_true, decide_eq_true_eq] at hq
  obtain ⟨⟨⟨⟨henums, howner⟩, hmembers⟩, hbound⟩, hfull⟩ := hq
  have hrecord : (.plain (.enum {}) "a.b.Outer.Mode" [.plain (.field {}) "ON" []], 8) ∈
      (sampleRecords.filter (·.tag = .enum)).zip h.enums := by
    rw [henums]
    exact List.mem_cons_self
  obtain ⟨hiff, howned⟩ := enumNames_of_build colonfree_sample hb hrecord howner
  have hqualifier : (splitLast "a.b.Outer.Mode").1 = some "a.b.Outer" := by decide +kernel
  refine ⟨h, hb, howner, hmembers, hiff.2 ⟨howned (.inl hbound), .inr ?_⟩⟩
  rw [hfull]
  exact hqualifier

/-- A class, and an enum whose record names it by its managed name. -/
def managedStyleRecords : List Record :=
  [.plain (.ns {}) "android.os" [.plain (.cls {}) "Process" []],
    .plain (.enum {}) "Android.OS.Process.State" [.plain (.field {}) "RUNNING" []]]

/-- The field of such an enum keeps a full name that is not the one of its chain. -/
theorem fullName_left_behind : Colonfree samplePlan managedStyleRecords ∧
    ∃ h, (samplePlan.build managedStyleRecords).result = .ok h ∧ h.enums = [2] ∧
      h.owner 2 = .element 1 ∧ h.fullName 2 = h.chainFullName 2 ∧ 3 ∈ h.walk 2 ∧
        h.fullName 3 = "Android.OS.Process.State.RUNNING" ∧
          h.chainFullName 3 = "android.os.Process.State.RUNNING" := by
  constructor
  · refine ⟨colonfree_sample.settings, ?_⟩
    unfold Colonless
    decide +kernel
  · obtain ⟨h, hb, hq⟩ := exists_built samplePlan managedStyleRecords
      (fun h => decide (h.enums = [2]) && decide (h.owner 2 = .element 1) &&
        decide (h.fullName 2 = h.chainFullName 2) && decide (3 ∈ h.walk 2) &&
          decide (h.fullName 3 = "Android.OS.Process.State.RUNNING") &&
            decide (h.chainFullName 3 = "android.os.Process.State.RUNNING")) (by decide +kernel)
    simp only [Bool.and_eq_true, decide_eq_true_eq, and_assoc] at hq
    exact ⟨h, hb, hq⟩

end BindingTree
