import BindingTree.Proofs.Record.Gathering

/-! What a loop over members keeps. It keeps what it kept when members change places, when a member
that it does not own comes or goes, and when a value gives way to one that it reads alike. What loops
keep, objects of slots and records keep. -/

namespace BindingTree

open Json (Fault Key)

variable {α σ : Type} {owned : Owned σ} {foreign : Json → Except Fault Unit}
  {seen f : List (String × σ)} {ms ms' ms₁ ms₂ : List (Key × Json)} {key : String} {k : Key}
  {v w : Json} {broken : Option Fault} {shapes : Shapes}

/-! ### Loops -/

/-- A loop ends with the same under each key, with the one list of members as with the other. -/
def Carries (owned : Owned σ) (foreign : Json → Except Fault Unit) (ms ms' : List (Key × Json)) :
    Prop :=
  ∀ f, gather owned foreign [] ms = .ok f →
    ∃ f', gather owned foreign [] ms' = .ok f' ∧ ∀ key, f'.lookup key = f.lookup key

theorem carries_perm (hp : ms.Perm ms') : Carries owned foreign ms ms' :=
  fun _ => gather_perm hp

theorem gather_foreign (ho : owned key = none) (hv : foreign v = .ok ()) :
    gather owned foreign seen (ms₁ ++ (.text key, v) :: ms₂) =
      gather owned foreign seen (ms₁ ++ ms₂) := by
  rw [gather_append, gather_append]
  congr 1
  funext seen
  rw [gather_cons, take_foreign ho, hv]
  rfl

theorem carries_insert (ho : owned key = none) (hw : foreign w = .ok ()) :
    Carries owned foreign (ms₁ ++ ms₂) (ms₁ ++ (.text key, w) :: ms₂) :=
  fun f hf => ⟨f, (gather_foreign ho hw).trans hf, fun _ => rfl⟩

theorem carries_delete (ho : owned key = none) :
    Carries owned foreign (ms₁ ++ (.text key, v) :: ms₂) (ms₁ ++ ms₂) := by
  intro f hf
  have hv : foreign v = .ok () := by
    rw [gather_append, Except.bind_eq_ok] at hf
    obtain ⟨seen, -, hf⟩ := hf
    rw [gather_cons, take_foreign ho, Except.bind_eq_ok] at hf
    obtain ⟨_, htake, -⟩ := hf
    exact (Except.unit_bind_eq_ok.1 htake).1
  exact ⟨f, (gather_foreign ho hv).symm.trans hf, fun _ => rfl⟩

/-- What is read of one value is read of another. -/
def Keeps (read : Json → Except Fault α) (v w : Json) : Prop := ∀ a, read v = .ok a → read w = .ok a

theorem Keeps.map {β : Type} {read : Json → Except Fault α} {g : α → β} (h : Keeps read v w) :
    Keeps (fun v => g <$> read v) v w := by
  intro b hv
  obtain ⟨a, ha, rfl⟩ := Except.map_eq_ok.1 hv
  exact Except.map_eq_ok.2 ⟨a, h a ha, rfl⟩

/-- A value may give way to one that is read alike under an owned key, and that is let through under
any other. -/
theorem carries_member
    (hread : ∀ key read, k = .text key → owned key = some read → Keeps read v w)
    (hforeign : Keeps foreign v w) :
    Carries owned foreign (ms₁ ++ (k, v) :: ms₂) (ms₁ ++ (k, w) :: ms₂) := by
  intro f hf
  refine ⟨f, ?_, fun _ => rfl⟩
  rw [gather_append, Except.bind_eq_ok] at hf ⊢
  obtain ⟨seen, hseen, hf⟩ := hf
  refine ⟨seen, hseen, ?_⟩
  rw [gather_cons, Except.bind_eq_ok] at hf ⊢
  obtain ⟨seen', htake, hf⟩ := hf
  refine ⟨seen', ?_, hf⟩
  obtain ⟨key, hkey, hrest⟩ := Except.bind_eq_ok.1 htake
  obtain rfl := Json.Key.read_eq_ok.1 hkey
  refine Except.bind_eq_ok.2 ⟨key, rfl, ?_⟩
  cases ho : owned key with
  | none =>
    rw [ho] at hrest
    obtain ⟨hv, hpure⟩ := Except.unit_bind_eq_ok.1 hrest
    exact Except.unit_bind_eq_ok.2 ⟨hforeign () hv, hpure⟩
  | some read =>
    rw [ho] at hrest
    obtain ⟨hnew, s, hv, rfl⟩ := Slots.fill_eq_ok.1 hrest
    exact Slots.fill_eq_ok.2 ⟨hnew, s, hread key read rfl ho s hv, rfl⟩

theorem lookup_of_mem {read : Json → Except Fault σ} {s : σ} (hf : gather owned foreign [] ms = .ok f)
    (hm : (.text key, v) ∈ ms) (ho : owned key = some read) (hv : read v = .ok s) :
    f.lookup key = some s := by
  obtain ⟨l₁, l₂, rfl⟩ := List.append_of_mem hm
  obtain ⟨f', hf', hlookup⟩ := gather_perm List.perm_middle hf
  obtain ⟨news, hnews, rfl, -⟩ := gather_nil_eq_ok.1 hf'
  obtain ⟨new, rest, he, -, rfl⟩ := List.forall₂_cons_left_iff.1 hnews
  obtain ⟨s', hs', rfl⟩ := (entry_owned_eq_ok ho).1 he
  obtain rfl : s' = s := Except.ok.inj (hs'.symm.trans hv)
  rw [← hlookup]
  exact List.lookup_cons_self

/-! ### Objects of slots -/

theorem slotReader?_of_not_mem (hk : key ∉ shapes.map Prod.fst) : slotReader? shapes key = none := by
  rw [slotReader?, lookup_eq_none_iff_not_mem.2 hk]
  rfl

theorem Slots.agree_of_lookup {s' s : Slots} (h : ∀ key, s'.lookup key = s.lookup key) :
    s'.Agree s := by
  constructor <;> intro key
  · unfold Slots.flag Slots.flagOr
    rw [h]
  · unfold Slots.text Slots.textOr
    rw [h]
  · unfold Slots.optionalText
    rw [h]
  · unfold Slots.number
    rw [h]
  · unfold Slots.visibility
    rw [h]

theorem Slots.ofJson_of_carries {s : Slots} (hc : Carries (slotReader? shapes) Json.pass ms ms')
    (hs : Slots.ofJson shapes (.obj ms broken) = .ok s) :
    ∃ s', Slots.ofJson shapes (.obj ms' broken) = .ok s' ∧ s'.Agree s := by
  rw [Slots.ofJson, Slots.collect_eq_gather, Except.bind_eq_ok] at hs
  obtain ⟨f, hf, hs⟩ := hs
  obtain ⟨hclosed, hpure⟩ := Except.unit_bind_eq_ok.1 hs
  obtain rfl := Except.pure_eq_ok.1 hpure
  obtain ⟨f', hf', hlookup⟩ := hc f hf
  refine ⟨f', ?_, Slots.agree_of_lookup hlookup⟩
  rw [Slots.ofJson, Slots.collect_eq_gather, Except.bind_eq_ok]
  exact ⟨f', hf', Except.unit_bind_eq_ok.2 ⟨hclosed, rfl⟩⟩

/-! ### Records -/

namespace Record

theorem collect_of_carries {groups : List Shapes} {fs : List Slots}
    (hg : ∀ group ∈ groups, Carries (slotReader? group) foreign ms ms')
    (hf : List.Forall₂ (fun group f => Slots.collect group foreign [] ms = .ok f) groups fs) :
    ∃ fs', List.Forall₂ (fun group f => Slots.collect group foreign [] ms' = .ok f) groups fs' ∧
      ∀ key, fs'.flatten.lookup key = fs.flatten.lookup key := by
  induction hf with
  | nil => exact ⟨[], .nil, fun _ => rfl⟩
  | @cons group f groups fs hf _ ih =>
    obtain ⟨hgroup, hgroups⟩ := List.forall_mem_cons.1 hg
    obtain ⟨f', hf', hlookup⟩ := hgroup f (Slots.collect_eq_gather.symm.trans hf)
    obtain ⟨fs', hfs', hrest⟩ := ih hgroups
    refine ⟨f' :: fs', .cons (Slots.collect_eq_gather.trans hf') hfs', fun key => ?_⟩
    rw [List.flatten_cons, List.flatten_cons, List.lookup_append, List.lookup_append, hlookup, hrest]

theorem ofMembers_of_carries {tag : Tag} {content : Content}
    (hg : ∀ group ∈ tag.shapes, Carries (slotReader? group) (fun _ => .ok ()) ms ms')
    (hc : Content.ofMembers tag ms = .ok content) : Content.ofMembers tag ms' = .ok content := by
  obtain ⟨fs, hfs, hpure⟩ := Except.bind_eq_ok.1 hc
  obtain rfl := Except.pure_eq_ok.1 hpure
  obtain ⟨fs', hfs', hlookup⟩ := collect_of_carries hg (Except.mapM_eq_ok.1 hfs)
  refine Except.bind_eq_ok.2 ⟨fs', Except.mapM_eq_ok.2 hfs', Except.pure_eq_ok.2 ?_⟩
  exact Content.ofSlots_congr (Slots.agree_of_lookup hlookup) tag

theorem ofJson_of_carries {r : Record} (hc : Carries commonReader? Json.check ms ms')
    (hk : Carries kindReader? (fun _ => .ok ()) ms ms')
    (hg : ∀ tag, readTag none ms = .ok tag → ∀ group ∈ tag.shapes,
      Carries (slotReader? group) (fun _ => .ok ()) ms ms')
    (hr : ofJson (.obj ms broken) = .ok r) : ofJson (.obj ms' broken) = .ok r := by
  obtain ⟨common, hcommon, hclosed, hassemble⟩ := ofJson_eq_ok.1 hr
  obtain ⟨name, tag, content, hname, htag, hcontent, rfl⟩ := assemble_eq_ok.1 hassemble
  obtain ⟨common', hcommon', hlookup⟩ := hc common hcommon
  have htag' : readTag none ms' = .ok tag := by
    obtain ⟨f, hf, hfound⟩ := readTag_eq_ok.1 htag
    obtain ⟨f', hf', hsame⟩ := hk f hf
    exact readTag_eq_ok.2 ⟨f', hf', (hsame _).trans hfound⟩
  refine ofJson_eq_ok.2 ⟨common', hcommon', hclosed, assemble_eq_ok.2
    ⟨name, tag, content, (hlookup _).trans hname, htag',
      ofMembers_of_carries (hg tag htag) hcontent, ?_⟩⟩
  simp only [CommonSlot.Filled.head, CommonSlot.Filled.optionalText, CommonSlot.Filled.children,
    hlookup]

end Record

end BindingTree
