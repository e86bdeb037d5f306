import Mathlib.Data.Finset.Card
import NearCache.Front

/-!
# One near cache as a set of warm keys

`Front.Warm front W`: with no read of any key on its way, the near cache holds a value for each key
in `W`, knows nothing of any other key, and counts the keys of `W`.

Everything that happens to a near cache then comes down to two moves. A key gets a value under some
version, and is in the set from now on (`Warm.warmed`); or nothing is known of it any more, and it
is not (`Warm.cooled`). A whole read of a key is one or the other (`Warm.load`), and so is an
announcement (`Warm.apply`), where the version only decides that the announcement is taken.
-/

namespace NearCache

/-- The keys that stay warm when a change of one key is announced. -/
def Change.leaves (c : Change) (key : Bytes) (W : Finset Bytes) : Finset Bytes :=
  match c with
  | put _ => W
  | removed _ => W.erase key

theorem Change.leaves_of_notMem (c : Change) {key : Bytes} {W : Finset Bytes} (h : key ∉ W) :
    c.leaves key W = W := by
  cases c with
  | put => rfl
  | removed => exact Finset.erase_eq_of_notMem h

namespace Front

/-- The near cache has values for the keys of a set, and knows nothing of others. -/
structure Warm (front : Front) (W : Finset Bytes) : Prop where
  warm : ∀ {k}, k ∈ W → ∃ v n, front.cell? k = some ⟨some v, n, 0⟩
  cold : ∀ {k}, k ∉ W → front.cell? k = none
  size : front.size = W.card

namespace Warm

variable {front front' : Front} {W : Finset Bytes} {k : Bytes}

/-- A near cache without entries has no warm keys. -/
theorem empty : Warm {} ∅ where
  warm h := absurd h (Finset.notMem_empty _)
  cold {k} _ := cell?_clear {} k
  size := rfl

/-- Only what is known of the keys matters, and how many values are counted. -/
theorem congr (h : Warm front W) (hcell : ∀ k, front'.cell? k = front.cell? k)
    (hsize : front'.size = front.size) : Warm front' W where
  warm hk := by rw [hcell]; exact h.warm hk
  cold hk := by rw [hcell]; exact h.cold hk
  size := hsize.trans h.size

/-- A warm key has a value. -/
theorem get?_of_mem (h : Warm front W) (hk : k ∈ W) : ∃ v, front.get? k = some v := by
  obtain ⟨v, n, hcell⟩ := h.warm hk
  exact ⟨v, by simp [get?, hcell]⟩

/-- A cold key has none. -/
theorem get?_of_notMem (h : Warm front W) (hk : k ∉ W) : front.get? k = none := by
  simp [get?, h.cold hk]

/-- A warm key is live, a cold one is not. -/
theorem isLive (h : Warm front W) (k : Bytes) : Entry.isLive (front.cell? k) = decide (k ∈ W) := by
  by_cases hk : k ∈ W
  · obtain ⟨v, n, hcell⟩ := h.warm hk
    simp [hcell, Entry.isLive, hk]
  · simp [h.cold hk, Entry.isLive, hk]

/-- A key gets a value. -/
theorem warmed (h : Warm front W) (k v : Bytes) (n : Nat) :
    Warm (front.set k (some ⟨some v, n, 0⟩)) (insert k W) where
  warm {j} hj := by
    rw [cell?_set]
    split
    · exact ⟨v, n, rfl⟩
    · next hne => exact h.warm (Finset.mem_of_mem_insert_of_ne hj hne)
  cold {j} hj := by
    obtain ⟨hne, hj⟩ := not_or.mp (mt Finset.mem_insert.mpr hj)
    rw [cell?_set, if_neg hne]
    exact h.cold hj
  size := by
    have hsize : front.live = W.card := h.size
    show recount front.live (front.cell? k) (some ⟨some v, n, 0⟩) = _
    unfold recount
    rw [h.isLive]
    by_cases hk : k ∈ W
    · simpa [hk, Entry.isLive] using hsize
    · simpa [hk, Entry.isLive] using hsize

/-- A key is forgotten. -/
theorem cooled (h : Warm front W) (k : Bytes) : Warm (front.set k none) (W.erase k) where
  warm {j} hj := by
    obtain ⟨hne, hj⟩ := Finset.mem_erase.mp hj
    rw [cell?_set, if_neg hne]
    exact h.warm hj
  cold {j} hj := by
    rw [cell?_set]
    split
    · rfl
    · next hne => exact h.cold fun hmem => hj (Finset.mem_erase.mpr ⟨hne, hmem⟩)
  size := by
    have hsize : front.live = W.card := h.size
    show recount front.live (front.cell? k) none = _
    unfold recount
    rw [h.isLive]
    by_cases hk : k ∈ W
    · simpa [hk, Entry.isLive, Finset.card_erase_of_mem hk] using congrArg (· - 1) hsize
    · simpa [hk, Entry.isLive] using hsize

/-- A read of a cold key sets out and comes back. What it has found makes the key warm. -/
theorem load (h : Warm front W) (hk : k ∉ W) {fetched : Option Versioned}
    (hpos : ∀ x, fetched = some x → 0 < x.version) :
    Warm ((front.beginLoad k).finishLoad k fetched).2
      (if fetched.isSome then insert k W else W) := by
  have hcold := h.cold hk
  -- between the two parts of the read there is an entry without a value, which counts for nothing
  have hstep : ∀ new, Entry.settle fetched (some ⟨none, 0, 1⟩) = new →
      Warm (front.set k new.1) (if fetched.isSome then insert k W else W) →
      Warm ((front.beginLoad k).finishLoad k fetched).2
        (if fetched.isSome then insert k W else W) := by
    rintro new hnew hwarm
    have hbegun : (front.beginLoad k).cell? k = some ⟨none, 0, 1⟩ := by
      rw [beginLoad, cell?_set, if_pos rfl, hcold]
      rfl
    refine hwarm.congr (fun j => ?_) ?_
    · rw [finishLoad, cell?_step, hbegun, hnew, beginLoad, cell?_set, cell?_set]
      split <;> rfl
    · show recount (recount front.live (front.cell? k) (Entry.load (front.cell? k)))
        ((front.beginLoad k).cell? k) (Entry.settle fetched ((front.beginLoad k).cell? k)).1 =
          recount front.live (front.cell? k) new.1
      rw [hbegun, hnew, hcold]
      rfl
  cases fetched with
  | none =>
      refine hstep _ rfl ?_
      have hcooled := h.cooled k
      rwa [Finset.erase_eq_of_notMem hk] at hcooled
  | some x =>
      refine hstep (some ⟨some x.value, x.version, 0⟩, true) ?_ (h.warmed k x.value x.version)
      show (if 0 < x.version then _ else _) = _
      rw [if_pos (hpos x rfl)]
      rfl

/-- An announced change is taken exactly if the key is warm. A write leaves it warm, a removal
does not. -/
theorem apply (h : Warm front W) {c : Change}
    (hnew : ∀ en, front.cell? k = some en → en.version < c.version) :
    (front.apply k c).1 = decide (k ∈ W) ∧ Warm (front.apply k c).2 (c.leaves k W) := by
  by_cases hk : k ∈ W
  · obtain ⟨v, n, hcell⟩ := h.warm hk
    have hlt : n < c.version := hnew _ hcell
    cases c with
    | put now =>
        have hentry : Entry.apply (.put now) (front.cell? k) =
            (some ⟨some now.value, now.version, 0⟩, true) := by
          rw [hcell]
          exact if_pos hlt
        have hwarmed := h.warmed k now.value now.version
        rw [Finset.insert_eq_of_mem hk] at hwarmed
        unfold Front.apply Front.step
        rw [hentry]
        exact ⟨(decide_eq_true hk).symm, hwarmed⟩
    | removed version =>
        have hentry : Entry.apply (.removed version) (front.cell? k) = (none, true) := by
          rw [hcell]
          exact if_pos hlt
        unfold Front.apply Front.step
        rw [hentry]
        exact ⟨(decide_eq_true hk).symm, h.cooled k⟩
  · have hentry : Entry.apply c (front.cell? k) = (none, false) := by
      rw [h.cold hk]
      cases c <;> rfl
    have hcooled := h.cooled k
    rw [Finset.erase_eq_of_notMem hk] at hcooled
    unfold Front.apply Front.step
    rw [hentry]
    rw [c.leaves_of_notMem hk]
    exact ⟨(decide_eq_false hk).symm, hcooled⟩

end Warm

end Front

end NearCache
