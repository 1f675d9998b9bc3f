import BindingTree.Proofs.Naming.Marks

/-! What the marks of interfaces and invokers do to a dotted name. They change its last segment, so a
name in front of a dot is passed by, wherever the dots behind it are. A suffix that is there is not
put again. The mark of an interface is put again just if it stands before a segment that does not
begin with a capital, since then it does not read as a mark. -/

namespace BindingTree.Naming

open Text

/-- What stands behind the last dot of a name. -/
def lastSegment (name : String) : String := (segments name).getLast (segments_ne_nil name)

/-- Whether a text begins with a capital. -/
def BeginsUpper (text : String) : Prop := ∃ c ∈ text.toList.head?, isUppercase c = true

/-- Whether a segment reads as that of an interface: an `I`, and then a capital. -/
def IsMarked (segment : String) : Prop := ∃ rest, segment = "I" ++ rest ∧ BeginsUpper rest

variable {name p n : String}

/-! ### Dots -/

theorem withLast_dotted (f : List Char → List Char) (before after : List Char) :
    withLast f (before ++ '.' :: after) = before ++ '.' :: withLast f after := by
  cases hl : lastDot after with
  | none => simp only [withLast, lastDot_append (dotless_of_lastDot hl), hl]
  | some cut =>
    obtain ⟨front, last⟩ := cut
    obtain ⟨hafter, hlast⟩ := eq_append_of_lastDot hl
    -- The last dot of the second part is also the last one of the whole.
    have hwhole : lastDot (before ++ '.' :: after) = some (before ++ '.' :: front, last) := by
      rw [hafter, ← List.cons_append, ← List.append_assoc]
      exact lastDot_append (dotless_of_lastDot hlast)
    simp only [withLast, hwhole, hl, List.append_assoc, List.cons_append]

theorem ofList_withLast_dotted (f : List Char → List Char) (p n : String) :
    String.ofList (withLast f (p ++ "." ++ n).toList) =
      p ++ "." ++ String.ofList (withLast f n.toList) := by
  apply String.toList_injective
  rw [toList_dotted, withLast_dotted, toList_dotted, String.toList_ofList, String.toList_ofList]

theorem interfaceName_dotted (p n : String) :
    interfaceName (p ++ "." ++ n) = p ++ "." ++ interfaceName n :=
  ofList_withLast_dotted markInterface p n

/-- The suffix goes behind a dot that ends a name, but an empty name gets none. -/
theorem invokerName_dotted (hn : n ≠ "") :
    invokerName (p ++ "." ++ n) = p ++ "." ++ invokerName n := by
  rw [invokerName, if_neg (dotted_ne_empty p n), ofList_withLast_dotted, invokerName, if_neg hn]

theorem lastSegment_of_dotless (hn : '.' ∉ n.toList) : lastSegment n = n := by
  simp only [lastSegment, segments_of_dotless hn, List.getLast_singleton]

theorem lastSegment_dotted (p n : String) : lastSegment (p ++ "." ++ n) = lastSegment n := by
  simp only [lastSegment, segments_dotted,
    List.getLast_append_of_right_ne_nil _ _ (segments_ne_nil n)]

/-! ### The suffix -/

theorem suffix_invokerName (hne : name ≠ "") : invokerSuffix <:+ (invokerName name).toList := by
  by_cases hs : invokerSuffix <:+ name.toList
  · rwa [invokerName_of_suffix hs]
  · rw [invokerName_of_not_suffix hne hs, String.toList_append, String.toList_ofList]
    exact List.suffix_append _ _

theorem invokerName_invokerName (name : String) :
    invokerName (invokerName name) = invokerName name := by
  by_cases hne : name = ""
  · rw [hne]
    rfl
  · exact invokerName_of_suffix (suffix_invokerName hne)

/-! ### The mark -/

theorem hasInterfaceMark_iff : hasInterfaceMark name.toList = true ↔ IsMarked name := by
  constructor
  · intro hm
    unfold hasInterfaceMark at hm
    split at hm
    next c cs hname =>
      refine ⟨String.ofList (c :: cs), String.toList_injective ?_, c, ?_, hm⟩
      · simp [hname]
      · simp
    next => cases hm
  · rintro ⟨rest, rfl, c, hc, hupper⟩
    obtain ⟨cs, hrest⟩ := List.head?_eq_some_iff.1 hc
    simpa [hrest, hasInterfaceMark] using hupper

theorem isMarked_append_iff : IsMarked ("I" ++ name) ↔ BeginsUpper name := by
  refine ⟨fun ⟨rest, hrest, hupper⟩ => ?_, fun h => ⟨name, rfl, h⟩⟩
  rwa [(String.append_right_inj _).1 hrest]

theorem IsMarked.beginsUpper (hm : IsMarked name) : BeginsUpper name := by
  obtain ⟨rest, rfl, -⟩ := hm
  exact ⟨'I', by simp, by decide⟩

/-- A single segment is left alone if it is empty or has the mark, and gets an `I` otherwise. -/
theorem interfaceName_segment (hn : '.' ∉ n.toList) :
    (n = "" ∨ IsMarked n) ∧ interfaceName n = n ∨
      (n ≠ "" ∧ ¬ IsMarked n) ∧ interfaceName n = "I" ++ n := by
  have hname : interfaceName n = String.ofList (markInterface n.toList) := by
    rw [interfaceName, withLast, lastDot_eq_none_iff.2 hn]
  rw [hname, markInterface, ← hasInterfaceMark_iff]
  split
  next hm => exact .inl ⟨by simpa using hm, String.ofList_toList⟩
  next hm =>
    refine .inr ⟨by simpa using hm, String.toList_injective ?_⟩
    simp

theorem interfaceName_interfaceName_segment (hn : '.' ∉ n.toList) :
    interfaceName (interfaceName n) = interfaceName n ↔ n = "" ∨ BeginsUpper n := by
  rcases interfaceName_segment hn with ⟨hm, hself⟩ | ⟨⟨hne, hm⟩, hmarked⟩
  · rw [hself, hself]
    exact iff_of_true rfl (hm.imp_right IsMarked.beginsUpper)
  · have hn' : '.' ∉ ("I" ++ n).toList := by simpa using hn
    rw [hmarked, or_iff_right hne, ← isMarked_append_iff]
    rcases interfaceName_segment hn' with ⟨hm', hself⟩ | ⟨⟨-, hm'⟩, hagain⟩
    · have hne' : "I" ++ n ≠ "" := fun h => absurd (congrArg String.toList h) (by simp)
      exact iff_of_true hself (hm'.resolve_left hne')
    · -- The first `I` was put but does not read as a mark, so a second one makes the name longer.
      refine iff_of_false (fun h => ?_) hm'
      have hlength := congrArg String.length (hagain.symm.trans h)
      simp at hlength

theorem interfaceName_interfaceName_iff : interfaceName (interfaceName name) = interfaceName name ↔
    lastSegment name = "" ∨ BeginsUpper (lastSegment name) := by
  rcases dotless_or_dotted name with hn | ⟨p, n, hn, rfl⟩
  · rw [lastSegment_of_dotless hn]
    exact interfaceName_interfaceName_segment hn
  · rw [lastSegment_dotted, lastSegment_of_dotless hn, interfaceName_dotted, interfaceName_dotted,
      String.append_right_inj]
    exact interfaceName_interfaceName_segment hn

/-! ### Dotted names -/

/-- The names of interfaces and invokers go through the dots of a name. Its last segment gets an `I`
or the suffix unless it has them. Neither is put twice, but for an `I` before a segment that does not
begin with a capital. -/
theorem affixed_dotted :
    (∀ p n : String, n ≠ "" →
      invokerName (p ++ "." ++ n) = p ++ "." ++ invokerName n ∧
        interfaceName (p ++ "." ++ n) = p ++ "." ++ interfaceName n) ∧
    (∀ s, invokerName (invokerName s) = invokerName s) ∧
    (∀ s, interfaceName (interfaceName s) = interfaceName s ↔
      lastSegment s = "" ∨ BeginsUpper (lastSegment s)) ∧
    ∀ n : String, '.' ∉ n.toList → n ≠ "" →
      ("Invoker".toList <:+ n.toList ∧ invokerName n = n ∨
        ¬ "Invoker".toList <:+ n.toList ∧ invokerName n = n ++ "Invoker") ∧
      (IsMarked n ∧ interfaceName n = n ∨ ¬ IsMarked n ∧ interfaceName n = "I" ++ n) := by
  refine ⟨fun p n hne => ⟨invokerName_dotted hne, interfaceName_dotted p n⟩,
    invokerName_invokerName, fun s => interfaceName_interfaceName_iff, fun n hn hne => ⟨?_, ?_⟩⟩
  · by_cases hs : invokerSuffix <:+ n.toList
    · exact .inl ⟨hs, invokerName_of_suffix hs⟩
    · exact .inr ⟨hs, invokerName_of_not_suffix hne hs⟩
  · rcases interfaceName_segment hn with ⟨hm, hself⟩ | ⟨⟨-, hm⟩, hmarked⟩
    · exact .inl ⟨hm.resolve_left hne, hself⟩
    · exact .inr ⟨hm, hmarked⟩

/-- An `I` before a small letter is no mark, and after the mark is put it is one. -/
theorem affixed_dotted_iterable :
    "Process.Iterable" ≠ "" ∧
    invokerName ("Android.OS" ++ "." ++ "Process.Iterable") =
      "Android.OS" ++ "." ++ "Process.IterableInvoker" ∧
    interfaceName ("Android.OS" ++ "." ++ "Process.Iterable") =
      "Android.OS" ++ "." ++ "Process.IIterable" ∧
    '.' ∉ "Iterable".toList ∧ "Iterable" ≠ "" ∧ ¬ IsMarked "Iterable" ∧
    interfaceName "Iterable" = "I" ++ "Iterable" ∧ BeginsUpper (lastSegment "Process.Iterable") ∧
    interfaceName (interfaceName "Process.Iterable") = interfaceName "Process.Iterable" := by
  obtain ⟨hdotted, -, hagain, hsegment⟩ := affixed_dotted
  obtain ⟨hinvoker, hinterface⟩ := hdotted "Android.OS" "Process.Iterable" (by decide)
  have hsuffixed : invokerName "Process.Iterable" = "Process.IterableInvoker" := by decide +kernel
  have hmarked : interfaceName "Process.Iterable" = "Process.IIterable" := by decide +kernel
  have hplain : ¬ IsMarked "Iterable" := fun h => absurd (hasInterfaceMark_iff.2 h) (by decide)
  have hlast : BeginsUpper (lastSegment "Process.Iterable") := ⟨'I', by decide +kernel, by decide⟩
  obtain ⟨-, hself⟩ := hsegment "Iterable" (by decide) (by decide)
  exact ⟨by decide, hsuffixed ▸ hinvoker, hmarked ▸ hinterface, by decide, by decide, hplain,
    (hself.resolve_left fun h => hplain h.1).2, hlast, (hagain _).2 (.inr hlast)⟩

end BindingTree.Naming
