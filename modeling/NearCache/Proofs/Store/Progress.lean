import NearCache.Store
import NearCache.Table.Laws

/-!
# The store only moves forward

What each operation of the store does to the values that it holds (`current?_erase`,
`current?_destroy`, beside `current?_write`), and what all of them have in common: the version
counter never falls, and a value that was not there before has a version above the counter of
before. `Store.Advances` says so for two states of the store and composes along a run.
-/

namespace NearCache

/-- What a change leaves in the store. -/
def Change.live? : Change → Option Versioned
  | put now => some now
  | removed _ => none

namespace Store

variable {L : Type}

/-- Two stores with the same data hold the same values. -/
theorem current?_of_data {s s' : Store L} (h : s'.data = s.data) (c : String) (k : Bytes) :
    s'.current? c k = s.current? c k := by
  unfold current? slot?
  rw [h]

/-- Removals are carried out on keys that have a value, and leave a mark under the next version. -/
theorem erase_eq_some_iff {s s' : Store L} {c : String} {k : Bytes} {n : Notice} :
    s.erase c k = some (n, s') ↔
      s.current? c k ≠ none ∧ n = ⟨c, k, .removed (s.lastVersion + 1)⟩ ∧
        s' = { s with
          lastVersion := s.lastVersion + 1
          deletes := s.deletes + 1 }.setSlot c k ⟨none, s.lastVersion + 1⟩ := by
  unfold erase
  cases s.current? c k <;> simp [eq_comm]

theorem erase_eq_none_iff {s : Store L} {c : String} {k : Bytes} :
    s.erase c k = none ↔ s.current? c k = none := by
  simp [erase]

theorem current?_erase {s s' : Store L} {c : String} {k : Bytes} {n : Notice}
    (h : s.erase c k = some (n, s')) (c' : String) (k' : Bytes) :
    s'.current? c' k' = if c' = c ∧ k' = k then none else s.current? c' k' := by
  obtain ⟨-, -, rfl⟩ := erase_eq_some_iff.mp h
  simp only [current?, slot?_setSlot]
  split <;> rfl

theorem current?_destroy (s : Store L) (c c' : String) (k : Bytes) :
    (s.destroy c).current? c' k = if c' = c then none else s.current? c' k := by
  simp only [current?, slot?_destroy]
  split <;> rfl

/-! ## Progress -/

/-- `s'` is a later state of the store than `s`. -/
structure Advances (s s' : Store L) : Prop where
  version : s.lastVersion ≤ s'.lastVersion
  fresh : ∀ {c k x}, s'.current? c k = some x →
    s.current? c k = some x ∨ s.lastVersion < x.version

namespace Advances

theorem refl (s : Store L) : Advances s s := ⟨Nat.le_refl _, Or.inl⟩

theorem trans {s t u : Store L} (a : Advances s t) (b : Advances t u) : Advances s u where
  version := Nat.le_trans a.version b.version
  fresh hx := by
    rcases b.fresh hx with hx | hx
    · exact a.fresh hx
    · exact Or.inr (Nat.lt_of_le_of_lt a.version hx)

/-- Nothing happens to the data. -/
theorem of_data {s s' : Store L} (hd : s'.data = s.data) (hv : s'.lastVersion = s.lastVersion) :
    Advances s s' where
  version := Nat.le_of_eq hv.symm
  fresh hx := Or.inl (by rwa [current?_of_data hd] at hx)

theorem write (s : Store L) (c : String) (k v : Bytes) : Advances s (s.write c k v).2 where
  version := Nat.le_succ _
  fresh hx := by
    rw [current?_write] at hx
    split at hx
    · cases hx
      exact Or.inr (Nat.lt_succ_self _)
    · exact Or.inl hx

theorem erase {s s' : Store L} {c : String} {k : Bytes} {n : Notice}
    (h : s.erase c k = some (n, s')) : Advances s s' where
  version := by
    obtain ⟨-, -, rfl⟩ := erase_eq_some_iff.mp h
    exact Nat.le_succ _
  fresh hx := by
    rw [current?_erase h] at hx
    split at hx
    · cases hx
    · exact Or.inl hx

theorem destroy (s : Store L) (c : String) : Advances s (s.destroy c) where
  version := Nat.le_refl _
  fresh hx := by
    rw [current?_destroy] at hx
    split at hx
    · cases hx
    · exact Or.inl hx

end Advances

end Store

end NearCache
