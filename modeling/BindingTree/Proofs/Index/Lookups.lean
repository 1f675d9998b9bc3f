import BindingTree.Proofs.Index.Entries
import Mathlib.Data.List.Basic

/-! Names that lead somewhere. A name whose plain key is taken is found whatever is asked for, and
what stands under a name without colons is kept, or gives way to something of its own kind. -/

namespace BindingTree

namespace Index

open Naming (Colonless)

/-- Whether something stands under a plain native name. -/
def Taken (ix : Index) (name : String) : Prop := ∃ e, ix.native.get? name = some e

/-- Whether something of a kind stands under a native name, plain or with its kind. -/
def Holds (ix : Index) (k : Kind) (name : String) : Prop :=
  ∃ e, e.kind = k ∧ (ix.native.get? name = some e ∨ ix.native.get? (k.keyed name) = some e)

variable {ix : Index} {k l : Kind} {a b name key : String} {hint : Option Kind} {e entry : Entry}
  {r r' : Registry}

theorem colonless_word (k : Kind) : Colonless k.word := by
  unfold Colonless
  cases k <;> decide

/-- The kind in a key can be read off, as no kind has a colon. -/
theorem keyed_inj : k.keyed a = l.keyed b ↔ k = l ∧ a = b := by
  constructor
  · intro h
    have hlist : k.word.toList ++ ':' :: a.toList = l.word.toList ++ ':' :: b.toList := by
      simpa [Kind.keyed] using congrArg String.toList h
    have htake : ∀ (m : Kind) (cs : List Char),
        (m.word.toList ++ ':' :: cs).takeWhile (· ≠ ':') = m.word.toList := by
      intro m cs
      rw [List.takeWhile_append_of_pos fun c hc => by
        have hne : c ≠ ':' := fun heq => colonless_word m (heq ▸ hc)
        simpa using hne]
      simp
    have hword := congrArg (List.takeWhile (· ≠ ':')) hlist
    rw [htake, htake] at hword
    obtain rfl := Kind.word_injective (String.toList_injective hword)
    exact ⟨rfl, (String.append_right_inj _).1 h⟩
  · rintro ⟨rfl, rfl⟩
    rfl

theorem Taken.lookup? (ht : ix.Taken name) (hint : Option Kind) :
    ∃ e, ix.lookup? name hint = some e := by
  obtain ⟨e, he⟩ := ht
  suffices h : ∃ e, lookupIn ix.native name hint = some e by
    obtain ⟨e, he⟩ := h
    exact ⟨e, by rw [Index.lookup?, he, Option.some_or]⟩
  unfold lookupIn
  cases hint with
  | none => exact ⟨e, he⟩
  | some k =>
    dsimp only
    split
    · exact ⟨e, he⟩
    · rw [he]
      cases ix.native.get? (k.keyed name) with
      | some x => exact ⟨x, rfl⟩
      | none => exact ⟨e, rfl⟩

theorem Holds.lookup? (hh : ix.Holds k name) : ∃ e, ix.lookup? name (some k) = some e := by
  obtain ⟨e, -, hplain | hkeyed⟩ := hh
  · exact Taken.lookup? ⟨e, hplain⟩ _
  · by_cases hp : ix.native.get? name = none
    · exact ⟨e, by simp [Index.lookup?, lookupIn, hp, hkeyed]⟩
    · exact Taken.lookup? (Option.ne_none_iff_exists'.1 hp) _

theorem Taken.insert {t : Table} (ht : r.index.Taken name)
    (hr : Registry.insert t key entry r = .ok () r') : r'.index.Taken name := by
  obtain ⟨e, he⟩ := ht
  have hput : ∀ key', ((r.index.setTable t ((r.index.table t).put key' entry))).Taken name := by
    intro key'
    cases t with
    | native =>
      change ∃ x, (r.index.native.put key' entry).get? name = some x
      rw [KeyedList.get?_put]
      split
      · exact ⟨entry, rfl⟩
      · exact ⟨e, he⟩
    | managed => exact ⟨e, he⟩
  obtain ⟨-, ⟨-, rfl⟩ | ⟨_, -, -, ⟨-, rfl⟩ | ⟨-, rfl⟩⟩⟩ := Registry.insert_cases hr
  · exact hput _
  · exact ⟨e, he⟩
  · exact hput _

theorem taken_of_insert (hr : Registry.insert .native key entry r = .ok () r') :
    r'.index.Taken key :=
  (Registry.exists_get?_of_insert hr).imp fun _ he => he.1

theorem Holds.insert_managed (hh : r.index.Holds k name)
    (hr : Registry.insert .managed key entry r = .ok () r') : r'.index.Holds k name := by
  obtain ⟨-, ⟨-, rfl⟩ | ⟨_, -, -, ⟨-, rfl⟩ | ⟨-, rfl⟩⟩⟩ := Registry.insert_cases hr
  · exact hh
  · exact hh
  · exact hh

section Kinds
/- Entries of one element agree on its kind. -/
variable (hk : ∀ ⦃k : String⦄ ⦃e : Entry⦄, r.index.native.get? k = some e → e.id = entry.id →
  e.kind = entry.kind)
include hk

theorem holds_of_insert (hr : Registry.insert .native key entry r = .ok () r') :
    r'.index.Holds entry.kind key := by
  obtain ⟨-, ⟨-, rfl⟩ | ⟨_, -, -, ⟨hl, rfl⟩ | ⟨-, rfl⟩⟩⟩ := Registry.insert_cases hr
  · exact ⟨entry, rfl, .inl (by simp [setTable, table, KeyedList.get?_put])⟩
  · rw [leadsTo, Option.any_eq_true] at hl
    obtain ⟨e, he, hid⟩ := hl
    exact ⟨e, hk he (of_decide_eq_true hid), .inr he⟩
  · exact ⟨entry, rfl, .inr (by simp [setTable, table, KeyedList.get?_put])⟩

/-- What stands under a name is kept, or gives way to something of its kind. -/
theorem Holds.insert {t : Table} (hh : r.index.Holds k name) (hc : Colonless name)
    (hr : Registry.insert t key entry r = .ok () r') : r'.index.Holds k name := by
  cases t with
  | managed => exact hh.insert_managed hr
  | native =>
    obtain ⟨e, he, hkey⟩ := hh
    obtain ⟨-, ⟨hway, rfl⟩ | ⟨_, -, -, ⟨-, rfl⟩ | ⟨-, rfl⟩⟩⟩ := Registry.insert_cases hr
    · -- Nothing of another kind gives way to an entry under its plain key.
      have hkind : r.index.native.get? key = some e → entry.kind = k := by
        intro hold
        by_contra hne
        have hid : e.id ≠ entry.id := fun hid => hne ((hk hold hid).symm.trans he)
        have hway' : inTheWay? r.index.native key entry = none := hway
        rw [inTheWay?, hold] at hway'
        simp [Option.filter, hid, he, Ne.symm hne] at hway'
      have hput : ∀ name', r.index.native.get? name' = some e →
          ∃ x, x.kind = k ∧ (r.index.native.put key entry).get? name' = some x := by
        intro name' hold
        rw [KeyedList.get?_put]
        split
        next heq => exact ⟨entry, hkind (heq ▸ hold), rfl⟩
        next => exact ⟨e, he, hold⟩
      rcases hkey with hold | hold
      · obtain ⟨x, hx, hget⟩ := hput _ hold
        exact ⟨x, hx, .inl hget⟩
      · obtain ⟨x, hx, hget⟩ := hput _ hold
        exact ⟨x, hx, .inr hget⟩
    · exact ⟨e, he, hkey⟩
    · have hget : ∀ name', (r.index.native.put (entry.kind.keyed key) entry).get? name' =
          if name' = entry.kind.keyed key then some entry else r.index.native.get? name' :=
        fun name' => KeyedList.get?_put _ _ _ _
      have hplain : name ≠ entry.kind.keyed key := fun heq => not_colonless_keyed _ _ (heq ▸ hc)
      rcases hkey with hold | hold
      · exact ⟨e, he, .inl ((hget name).trans ((if_neg hplain).trans hold))⟩
      · by_cases heq : k.keyed name = entry.kind.keyed key
        · exact ⟨entry, (keyed_inj.1 heq).1.symm, .inr ((hget _).trans (if_pos heq))⟩
        · exact ⟨e, he, .inr ((hget _).trans ((if_neg heq).trans hold))⟩

end Kinds

end Index

end BindingTree
