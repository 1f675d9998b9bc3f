import BindingTree.Proofs.Build.Stocked

/-! From the nesting of types to the finding of base types. Names that settings refer to stay to be
found in between. Entries go from the index only when an enum is renamed, and no enum has the name
of a type that is a base by default; an entry of an interface gives way to nothing but another
interface. So a look-up of such a name on behalf of a type fails only if a record misspells it. -/

namespace BindingTree

open Build Naming

/-- What holds from the nesting of types on. Where a type names a base that the settings refer to,
the build put that name there: it is the root type, or an interface that an invoker calls. -/
structure Ready (s : Settings) (rs : List Record) (d : Draft) : Prop where
  sound : d.Sound
  root : Provided s rs d s.rootType
  base : Provided s rs d s.baseInterface
  faces : ∀ j, d.hierarchy.kind j = .iface → d.hierarchy.fullName j ∈ s.supportNames →
    d.registry.index.Holds .iface (d.hierarchy.fullName j)
  wanted : ∀ i, ∀ n ∈ (d.hierarchy.element i).wanted, n ∈ s.supportNames →
    n = s.rootType ∨ d.registry.index.Holds .iface n

variable {p : Plan} {s : Settings} {t : Naming.Translator} {rs : List Record} {d d' : Draft}
  {h' : Hierarchy} {r : Registry} {i : ElementId} {is : List ElementId} {k : Kind}
  {key name : String} {entry : Entry} {e : Element} {u : Table}

theorem Element.wanted_withFacts {f : TypeFacts → TypeFacts}
    (hf : ∀ facts, (f facts).basesFixed = facts.basesFixed ∧ (f facts).baseNames = facts.baseNames)
    (e : Element) : (e.withFacts f).wanted = e.wanted := by
  unfold withFacts wanted facts?
  cases hp : e.payload with
  | type k facts => simp [hf facts]
  | _ => simp [hp]

/-! ### Removal from the index -/

namespace Index

theorem Taken.withoutNames (ht : r.index.Taken name) (hc : Colonless name)
    (hne : e.fullName ≠ name) : (Build.withoutNames r i e).index.Taken name := by
  obtain ⟨x, hx⟩ := ht
  have hnative : (r.index.remove .native e.fullName ⟨i, e.kind⟩).1.native.get? name = some x :=
    get?_remove_of_get? (u := .native) hx fun _ =>
      ⟨hne.symm, fun heq => not_colonless_keyed _ _ (heq ▸ hc)⟩
  unfold Build.withoutNames
  cases e.fullManagedName <;> exact ⟨x, hnative⟩

/-- What stands under a name stays where entries of an element of another kind go. -/
theorem Holds.withoutNames (hh : r.index.Holds k name)
    (hid : ∀ ⦃key : String⦄ ⦃x : Entry⦄, r.index.native.get? key = some x → x.id = i → x.kind ≠ k) :
    (Build.withoutNames r i e).index.Holds k name := by
  obtain ⟨x, hkind, hx⟩ := hh
  have hstay : ∀ {key : String}, r.index.native.get? key = some x →
      (r.index.remove .native e.fullName ⟨i, e.kind⟩).1.native.get? key = some x := fun hx =>
    get?_remove_of_get? (u := .native) hx fun heq => absurd hkind (hid hx heq)
  unfold Build.withoutNames
  cases e.fullManagedName <;> exact ⟨x, hkind, hx.imp hstay hstay⟩

end Index

/-! ### Steps -/

theorem Stocked.ready (hk : Stocked s rs d) (hcolon : ∀ n ∈ s.supportNames, Colonless n)
    (hroot : Provided s rs d s.rootType) (hbase : Provided s rs d s.baseInterface) :
    Ready s rs d where
  sound := hk.nestable.sound
  root := hroot
  base := hbase
  faces j hj hn := by
    have hlt : j < d.hierarchy.size := Hierarchy.lt_size_of_kind_ne (by simp [hj])
    have hentered := hk.entered (Hierarchy.mem_indexed.2 ⟨hlt, by rw [hj]; rfl⟩)
    rw [hj] at hentered
    exact hentered.holds (hcolon _ hn)
  wanted i n hn hmem := absurd hmem (hk.wanted i n hn)

namespace Ready

variable (hr : Ready s rs d)
include hr

/-- Work on the hierarchy alone that makes no interfaces and names none anew. -/
theorem edit (ho : h'.Orderly) (hsize : d.hierarchy.size ≤ h'.size)
    (hkind : ∀ j < d.hierarchy.size, h'.kind j = d.hierarchy.kind j)
    (hface : ∀ j, h'.kind j = .iface →
      d.hierarchy.kind j = .iface ∧ h'.fullName j = d.hierarchy.fullName j)
    (hwanted : ∀ i, ∀ n ∈ (h'.element i).wanted, n ∈ (d.hierarchy.element i).wanted ∨
      n = s.rootType ∨ ∃ j, d.hierarchy.kind j = .iface ∧ d.hierarchy.fullName j = n) :
    Ready s rs { d with hierarchy := h' } where
  sound := hr.sound.extend ho hsize hkind
  root := hr.root
  base := hr.base
  faces j hj hn := by
    obtain ⟨hold, hname⟩ := hface j hj
    rw [hname] at hn ⊢
    exact hr.faces j hold hn
  wanted i n hn hmem := by
    rcases hwanted i n hn with hold | rfl | ⟨j, hj, rfl⟩
    · exact hr.wanted i n hold hmem
    · exact .inl rfl
    · exact .inr (hr.faces j hj hmem)

theorem modify {f : Element → Element} (hf : ∀ e, (f e).native = e.native)
    (hwanted : ∀ e, (f e).wanted = e.wanted) :
    Ready s rs { d with hierarchy := d.hierarchy.modify i f } := by
  have hsame : d.hierarchy.SameNative (d.hierarchy.modify i f) := .modify hf
  refine hr.edit (hsame.orderly hr.sound.orderly) (Nat.le_of_eq hsame.size.symm)
    (fun _ _ => by rw [hsame.kind]) (fun j hj => ⟨hsame.kind ▸ hj, hsame.fullName⟩) fun j n hn => ?_
  rw [Hierarchy.congr_element_modify Element.wanted hwanted] at hn
  exact .inl hn

theorem nestTypes (ht : TypesNested d h') : Ready s rs { d with hierarchy := h' } := by
  refine hr.edit ht.orderly (Nat.le_of_eq ht.size.symm) (fun _ _ => ht.kind)
    (fun j hj => ⟨ht.kind ▸ hj, ht.fullName⟩) fun j n hn => ?_
  obtain ⟨m, hm⟩ := ht.named j
  rw [hm] at hn
  exact .inl hn

theorem resolveBases (hd : Build.resolveBases s i d = .ok () d') : Ready s rs d' := by
  rcases resolveBases_ok hd with rfl | ⟨bases, rfl⟩
  · exact hr
  · exact hr.modify (Element.native_withFacts _) (Element.wanted_withFacts fun _ => ⟨rfl, rfl⟩)

section Index
/- Names that settings refer to are no keys with a kind. -/
variable (hcolon : ∀ n ∈ s.supportNames, Colonless n)
include hcolon

theorem insert (hi : entry.id < d.hierarchy.size) (hk : d.hierarchy.kind entry.id = entry.kind)
    (ht : entry.kind.isType = true ∨ entry.kind = .ns)
    (hins : Registry.insert u key entry d.registry = .ok () r) :
    Ready s rs { d with registry := r } := by
  have hsame : ∀ ⦃key : String⦄ ⦃x : Entry⦄, d.registry.index.native.get? key = some x →
      x.id = entry.id → x.kind = entry.kind := fun key x hx hid =>
    ((hr.sound.points (t := .native) hx).2.1.symm.trans (congrArg d.hierarchy.kind hid)).trans hk
  refine ⟨⟨hr.sound.orderly, hr.sound.points.insert hi hk ht hins⟩,
    hr.root.imp_right (·.insert hins), hr.base.imp_right (·.insert hins), fun j hj hn => ?_,
    fun i n hn hmem => ?_⟩
  · exact (hr.faces j hj hn).insert hsame (hcolon _ hn) hins
  · exact (hr.wanted i n hn hmem).imp_right (·.insert hsame (hcolon n hmem) hins)

theorem addNative (hi : i < d.hierarchy.size)
    (ht : (d.hierarchy.kind i).isType = true ∨ d.hierarchy.kind i = .ns)
    (hadd : Registry.addNative i (d.hierarchy.element i) d.registry = .ok () r) :
    Ready s rs { d with registry := r } := by
  have hins : Registry.insert .native (d.hierarchy.fullName i) ⟨i, d.hierarchy.kind i⟩ d.registry =
    .ok () r := hadd
  exact hr.insert hcolon hi rfl ht hins

theorem assign (hi : i < d.hierarchy.size) (hd : assignManagedName t i d = .ok () d') :
    Ready s rs d' := by
  obtain ⟨managed, r, -, rfl, hreg⟩ := assignManagedName_ok hd
  have hnamed := hr.modify (i := i)
    (f := managedAs managed (fullManagedNameOf d.hierarchy i managed)) (fun _ => rfl) fun _ => rfl
  rcases hreg with ⟨ht, hadd⟩ | ⟨-, rfl⟩
  · unfold Registry.addManaged at hadd
    split at hadd
    · cases hadd
      exact hnamed
    · refine hnamed.insert hcolon (by simpa using hi) rfl ?_ hadd
      have hkind : (d.hierarchy.modify i (managedAs managed
          (fullManagedNameOf d.hierarchy i managed))).kind i = d.hierarchy.kind i :=
        Hierarchy.congr_element_modify Element.kind fun _ => rfl
      change (Hierarchy.kind _ i).isType = true ∨ Hierarchy.kind _ i = .ns
      rw [hkind]
      exact ht
  · exact hnamed

theorem forM_assign (his : ∀ i ∈ is, i < d.hierarchy.size)
    (hd : is.forM (assignManagedName t) d = .ok () d') : Ready s rs d' := by
  refine (forM_ok (I := fun is d => Ready s rs d ∧ ∀ i ∈ is, i < d.hierarchy.size) ?_
    ⟨hr, his⟩ hd).1
  rintro i is d d' ⟨hr, his⟩ hd
  refine ⟨hr.assign hcolon (his i List.mem_cons_self) hd, fun j hj => ?_⟩
  rw [(namedOver_of_assign hd).size]
  exact his j (List.mem_cons_of_mem _ hj)

theorem withoutNames (hk : d.hierarchy.kind i = .enum) (hroot : d.hierarchy.fullName i ≠ s.rootType)
    (hbase : d.hierarchy.fullName i ≠ s.baseInterface) :
    Ready s rs { d with registry := withoutNames d.registry i (d.hierarchy.element i) } := by
  have hother : ∀ ⦃key : String⦄ ⦃x : Entry⦄, d.registry.index.native.get? key = some x →
      x.id = i → x.kind ≠ .iface := by
    rintro key x hx rfl hface
    have hkind := (hr.sound.points (t := .native) hx).2.1
    rw [hk, hface] at hkind
    cases hkind
  have hroot' := hcolon _ s.rootType_mem_supportNames
  have hbase' := hcolon _ s.baseInterface_mem_supportNames
  refine ⟨⟨hr.sound.orderly, within_withoutNames.points hr.sound.points⟩,
    hr.root.imp_right (·.withoutNames hroot' hroot),
    hr.base.imp_right (·.withoutNames hbase' hbase), fun j hj hn => ?_, fun j n hn hmem => ?_⟩
  · exact (hr.faces j hj hn).withoutNames hother
  · exact (hr.wanted j n hn hmem).imp_right (·.withoutNames hother)

theorem rename (hi : d.hierarchy.owner i ≠ .detached) (hk : d.hierarchy.kind i = .enum)
    (hroot : d.hierarchy.fullName i ≠ s.rootType) (hbase : d.hierarchy.fullName i ≠ s.baseInterface)
    (hd : renameEnum t i d = .ok () d') : Ready s rs d' := by
  obtain ⟨r, hadd, hnames⟩ := renameEnum_ok hd
  have hlt : i < d.hierarchy.size := Hierarchy.lt_size_of_owner_ne hi
  have hsame := samePlaces_fullyNamed (h := d.hierarchy) (i := i)
  have ho : (fullyNamed d.hierarchy i).Orderly := hsame.orderly hr.sound.orderly
  have hkind : (fullyNamed d.hierarchy i).kind i = .enum := hsame.kind ▸ hk
  have hrenamed := (hr.withoutNames hcolon hk hroot hbase).edit ho (Nat.le_of_eq hsame.size.symm)
    (fun _ _ => by rw [hsame.kind]) (fun j hj => ?_) fun j n hn => ?_
  · refine (hrenamed.addNative hcolon (hsame.size ▸ hlt) (.inl ?_) hadd).forM_assign hcolon
      (fun _ => ho.lt_size_of_mem_walk (hsame.size ▸ hlt)) hnames
    dsimp only
    rw [hkind]
    rfl
  · have hne : j ≠ i := by
      rintro rfl
      cases hkind.symm.trans hj
    refine ⟨hsame.kind ▸ hj, ?_⟩
    rw [Hierarchy.fullName, fullyNamed, Hierarchy.element_modify_of_ne hne, Hierarchy.fullName]
  · have hwanted : ((fullyNamed d.hierarchy i).element j).wanted = (d.hierarchy.element j).wanted :=
      Hierarchy.congr_element_modify Element.wanted fun _ => rfl
    exact .inl (hwanted ▸ hn)

/-- An invoker names the root type and its interface as base types. -/
theorem makeInvoker (hs : p.settings = s) (hk : d.hierarchy.kind i = .iface)
    (hd : Build.makeInvoker p i d = .ok () d') : Ready s rs d' := by
  subst hs
  obtain ⟨q, d₁, r, hi, hassign, hadd, rfl⟩ := makeInvoker_ok hd
  have hf : d.hierarchy.Fresh (besideInterface p d.hierarchy q i) (.element q)
    (invokerOf p.settings d.hierarchy q i) := .putBelow
  have hbeside : Ready p.settings rs { d with hierarchy := besideInterface p d.hierarchy q i } := by
    refine hr.edit (orderly_besideInterface p hr.sound.orderly hi hk) (Nat.le_of_lt hf.size_lt)
      (fun _ => hf.kind_of_lt) (fun j hj => ?_) fun j n hn => ?_
    · by_cases hnew : j = d.hierarchy.size
      · subst hnew
        rw [hf.kind_new] at hj
        cases hj
      · rw [Hierarchy.kind, besideInterface, Hierarchy.element_putBelow, if_neg hnew] at hj
        refine ⟨hj, ?_⟩
        rw [Hierarchy.fullName, besideInterface, Hierarchy.element_putBelow, if_neg hnew,
          Hierarchy.fullName]
    · rw [besideInterface, Hierarchy.element_putBelow] at hn
      split at hn
      · have hnames : n = p.settings.rootType ∨ n = (d.hierarchy.element i).fullName := by
          simpa [Element.wanted, Element.facts?, invokerOf, Element.fresh] using hn
        exact .inr (hnames.imp_right fun hn => ⟨i, hk, hn.symm⟩)
      · exact .inl hn
  have hlt : d.hierarchy.size < d₁.hierarchy.size := by
    rw [(namedOver_of_assign hassign).size]
    exact hf.size_lt
  have hkind : d₁.hierarchy.kind d.hierarchy.size = .invoker := by
    rw [(namedOver_of_assign hassign).kind]
    exact hf.kind_new
  have hassigned := hbeside.assign hcolon hf.size_lt hassign
  refine (hassigned.addNative hcolon hlt (.inl (by rw [hkind]; rfl)) hadd).modify
    (Element.native_withFacts _) (Element.wanted_withFacts fun _ => ⟨rfl, rfl⟩)

end Index

end Ready

/-! ### Base types that are not found -/

/-- A look-up that fails. -/
structure Missing (d : Draft) (name : String) (hint : Option Kind) (failure : Failure) : Prop where
  nowhere : d.registry.index.lookup? name hint = none
  failure : ∃ onBehalfOf, failure = .typeNotFound name onBehalfOf

theorem missing_of_lookup {hint : Option Kind} {failure : Failure}
    (hd : lookup name hint e d = .error failure d') : Missing d name hint failure := by
  rw [lookup_run] at hd
  cases hl : d.registry.index.lookup? name hint with
  | some entry =>
    rw [hl] at hd
    cases hd
  | none =>
    rw [hl] at hd
    cases hd
    exact ⟨hl, _, rfl⟩

theorem missing_of_findBases {found : List ElementId} {names : List String} {failure : Failure}
    (hd : findBases i e found names d = .error failure d') :
    ∃ n ∈ names, Missing d n (some .iface) failure := by
  induction names generalizing found with
  | nil => cases hd
  | cons n names ih =>
    obtain hlookup | ⟨base, _, hlookup, hrest⟩ := bind_error.1 hd
    · exact ⟨n, List.mem_cons_self, missing_of_lookup hlookup⟩
    · obtain ⟨-, rfl⟩ := lookup_ok.1 hlookup
      obtain ⟨m, hm, hmissing⟩ := ih hrest
      exact ⟨m, List.mem_cons_of_mem _ hm, hmissing⟩

theorem missing_of_defaultBase {failure : Failure}
    (hd : defaultBase s i e d = .error failure d') :
    Missing d s.baseInterface (some .iface) failure ∨ Missing d s.rootType (some .cls) failure := by
  obtain ⟨name, hint, hcases, heq⟩ := defaultBase_cases s i e
  rw [heq] at hd
  obtain hlookup | ⟨base, _, -, hpure⟩ := bind_error.1 hd
  · have hmissing := missing_of_lookup hlookup
    rcases hcases with ⟨rfl, rfl⟩ | ⟨rfl, rfl⟩
    · exact .inl hmissing
    · exact .inr hmissing
  · cases hpure

/-- Finding the base types of an element fails at a name that it gives, or at a default. -/
theorem missing_of_resolveBases {failure : Failure}
    (hd : Build.resolveBases s i d = .error failure d') :
    (∃ n ∈ (d.hierarchy.element i).wanted, Missing d n (some .iface) failure) ∨
      Missing d s.baseInterface (some .iface) failure ∨
        Missing d s.rootType (some .cls) failure := by
  obtain helement | ⟨_, _, helement, hbases⟩ := bind_error.1 hd
  · cases helement
  obtain ⟨rfl, rfl⟩ := element_ok.1 helement
  cases hfacts : (d.hierarchy.element i).facts? with
  | none =>
    rw [hfacts] at hbases
    cases hbases
  | some facts =>
    simp only [hfacts] at hbases
    split at hbases
    · cases hbases
    next hfixed =>
      have hwanted : (d.hierarchy.element i).wanted = facts.baseNames := by
        rw [Bool.or_eq_true, not_or] at hfixed
        rw [Element.wanted, hfacts]
        exact if_neg hfixed.1
      obtain hfound | ⟨found, _, hfound, hrest⟩ := bind_error.1 hbases
      · exact .inl (hwanted ▸ missing_of_findBases hfound)
      obtain rfl := findBases_ok hfound
      split at hrest
      · obtain hdefault | ⟨bases, _, -, hedit⟩ := bind_error.1 hrest
        · exact .inr (missing_of_defaultBase hdefault)
        · cases hedit
      · obtain hpure | ⟨bases, _, -, hedit⟩ := bind_error.1 hrest
        · cases hpure
        · cases hedit

theorem Provided.misspelt {hint : Option Kind} {failure : Failure} (hp : Provided s rs d name)
    (hm : Missing d name hint failure) : Misspelt s rs name := by
  rcases hp with hmisspelt | htaken
  · exact hmisspelt
  · obtain ⟨e, he⟩ := htaken.lookup? hint
    cases hm.nowhere.symm.trans he

/-- Base types are not found only where a record misspells them. -/
theorem Ready.misspelt (hr : Ready s rs d) {onBehalfOf : Option String}
    (hd : Build.resolveBases s i d = .error (.typeNotFound name onBehalfOf) d')
    (hn : name ∈ s.supportNames) : Misspelt s rs name := by
  have hname : ∀ {n : String} {hint : Option Kind},
      Missing d n hint (.typeNotFound name onBehalfOf) → n = name := by
    rintro n hint ⟨-, _, he⟩
    cases he
    rfl
  rcases missing_of_resolveBases hd with ⟨n, hwanted, hm⟩ | hm | hm
  · obtain rfl := hname hm
    rcases hr.wanted i n hwanted hn with rfl | hholds
    · exact hr.root.misspelt hm
    · obtain ⟨x, hx⟩ := hholds.lookup?
      cases hm.nowhere.symm.trans hx
  · exact hname hm ▸ hr.base.misspelt hm
  · exact hname hm ▸ hr.root.misspelt hm

end BindingTree
