import BindingTree.Proofs.Build.InvokerNames
import BindingTree.Proofs.Naming.Validity

/-! Managed names that are identifiers. A managed name is given or translated. What is translated has
been checked, and the marks of interfaces and invokers, put on after the check, keep an identifier
one; so every name of a build is an identifier if the names that are given to it are, and so are
their chains. -/

namespace BindingTree

open Build Naming

variable {p : Plan} {rs : List Record} {t : Translator} {d d' d₁ d₂ d₃ d₄ d₅ d₆ : Draft}
  {h : Hierarchy} {i j : ElementId} {e : Element} {m : String} {P : String → Prop}

/-! ### One name -/

section Name
variable (hs : t.Segmentwise) (hw : t.Wordwise)
include hs hw

theorem isIdentifier_translateAs {kind : Kind} {name : String}
    (ht : translateAs t kind name = .ok m) : IsIdentifier m := by
  unfold translateAs at ht
  split at ht
  · obtain ⟨m', hm, rfl⟩ := Except.map_eq_ok.1 ht
    exact (hs.isIdentifier hm).interfaceName
  · obtain ⟨m', hm, rfl⟩ := Except.map_eq_ok.1 ht
    exact (hs.isIdentifier hm).invokerName
  · exact hw.isIdentifier hs ht
  all_goals exact hs.isIdentifier ht

theorem isIdentifier_managedNameOf (hg : ∀ m, e.givenName = some m → IsIdentifier m)
    (hm : managedNameOf t e = .ok m) : IsIdentifier m := by
  unfold managedNameOf at hm
  split at hm
  next hgiven =>
    cases hm
    exact hg _ hgiven
  next => exact isIdentifier_translateAs hs hw hm

end Name

/-! ### The names of a build -/

theorem Hierarchy.isIdentifier_chain
    (hm : ∀ j, h.Covers j i → IsIdentifier (h.element j).managedText) :
    IsIdentifier (h.chainManagedName i) := by
  refine isIdentifier_intercalate (.inl rfl) (by simp) fun part hpart => ?_
  obtain ⟨j, hj, rfl⟩ := List.mem_map.1 hpart
  rw [List.mem_reverse, List.mem_cons] at hj
  exact hm j (hj.imp Eq.symm above_of_mem_ownersUpTo)

/-- If the managed names that records and settings give are identifiers, and names are translated
segment by segment and those of fields by their words, then every element of the hierarchy that is
built has an identifier for its managed name and one for its full managed name. -/
theorem isIdentifier_of_build (hs : p.translator.Segmentwise) (hw : p.translator.Wordwise)
    (hg : p.Gives rs IsIdentifier) (hb : (p.build rs).result = .ok h) (hi : i ∈ h.walkAll) :
    ∃ m full, (h.element i).managedName = some m ∧ IsIdentifier m ∧
      (h.element i).fullManagedName = some full ∧ IsIdentifier full := by
  obtain ⟨d, hd, rfl⟩ := build_ok hb
  obtain ⟨d₁, d₂, d₃, d₄, d₅, d₆, hst⟩ := stages_of_passes hd
  have ho := hst.sound_finished.orderly
  have hnames : ∀ {j}, d.hierarchy.owner j ≠ .detached →
      ∃ m, (d.hierarchy.element j).managedName = some m ∧ IsIdentifier m := by
    intro j hj
    obtain ⟨m, hm, -⟩ := hst.managed_finished hj
    exact ⟨m, hm, isIdentifier_managedNameOf hs hw (hst.allGiven_finished hg j)
      (hst.rendered_finished j m hm)⟩
  have hatt := ho.mem_walkAll_iff.1 hi
  obtain ⟨m, hm, hid⟩ := hnames hatt
  have hfull := Hierarchy.fullManagedName_eq_chain ho.toGrounded (i := i)
    (fun j hj => hst.managed_finished (ho.attached_of_covers hj hatt))
    fun j _ => hst.managedName_ne_empty (hs.neverEmpty hw)
  refine ⟨m, _, hm, hid, hfull, Hierarchy.isIdentifier_chain fun j hj => ?_⟩
  obtain ⟨n, hn, hnid⟩ := hnames (ho.attached_of_covers hj hatt)
  rwa [Element.managedText, hn, Option.getD_some]

/-- A class and an interface under a namespace with a given name, and an enum without one. -/
def renamedRecords : List Record :=
  [⟨{ content := .ns {}, name := "a.b", managedName := some "Alpha.Beta" },
      [.plain (.cls {}) "outer" [.plain (.field {}) "MAX_SIZE" []],
        .plain (.iface {}) "face" []]⟩,
    .plain (.enum {}) "a.b.mode" []]

theorem gives_renamed : samplePlan.Gives renamedRecords IsIdentifier where
  records := by
    unfold IsIdentifier
    decide +kernel
  settings := by
    unfold IsIdentifier
    decide +kernel

/-- The invoker that is made beside the interface. -/
theorem isIdentifier_of_renamed : samplePlan.translator.Segmentwise ∧
    samplePlan.translator.Wordwise ∧ samplePlan.Gives renamedRecords IsIdentifier ∧
    ∃ h, (samplePlan.build renamedRecords).result = .ok h ∧ 9 ∈ h.walkAll ∧
      ∃ m full, (h.element 9).managedName = some m ∧ IsIdentifier m ∧
        (h.element 9).fullManagedName = some full ∧ IsIdentifier full := by
  obtain ⟨h, hb, hq⟩ := exists_built samplePlan renamedRecords
    (fun h => decide (9 ∈ h.walkAll) && decide (h.kind 9 = .invoker)) (by decide +kernel)
  simp only [Bool.and_eq_true, decide_eq_true_eq] at hq
  have hs := isBuiltIn_samplePlan.segmentwise
  have hw := isBuiltIn_samplePlan.wordwise
  exact ⟨hs, hw, gives_renamed, h, hb, hq.1, isIdentifier_of_build hs hw gives_renamed hb hq.1⟩

end BindingTree
