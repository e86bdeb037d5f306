import NearCache.Front
import NearCache.Proofs.Store.Progress

/-!
# Coherence of one key

What a near cache knows of a key has to agree with three things at once: what the store holds, the
last version the store has given out, and what the reads of the key that are still on their way have
found there. `Entry.Coherent` says how:

* a value is the store's value, under the store's version;
* a read on its way holds the entry in place, so its version is not forgotten before the read ends;
* a read that has found more than the entry knows has found what the store holds.

The last clause is what makes a late answer harmless: a write that overtook the read has left its
version in the entry, and `settle` then drops the answer.
-/

namespace NearCache

namespace Front.Entry

/-- Agreement of what a near cache knows of a key with what the store holds (`now`), the last
version given out (`last`) and the reads of the key on their way (`flights`): for each, what it was
answered if the store was asked already. -/
structure Coherent (now : Option Versioned) (last : Nat)
    (flights : List (Option (Outcome (Option Versioned)))) (cell : Option Entry) : Prop where
  loads : (cell.map (·.loads)).getD 0 = flights.length
  old : ∀ {en}, cell = some en → en.version ≤ last
  live : ∀ {en v}, cell = some en → en.value = some v → now = some ⟨v, en.version⟩
  flight : ∀ {en x}, cell = some en → some (.ok (some x)) ∈ flights →
    en.version < x.version → now = some x
  dated : ∀ {x}, some (.ok (some x)) ∈ flights → x.version ≤ last

namespace Coherent

variable {now : Option Versioned} {last : Nat}
  {flights : List (Option (Outcome (Option Versioned)))} {cell : Option Entry}

/-- A key that nobody reads need not be known. -/
theorem none (now : Option Versioned) (last : Nat) : Coherent now last [] none where
  loads := rfl
  old h := by cases h
  live h := by cases h
  flight h := by cases h
  dated h := by cases h

/-- The order of the reads on their way does not matter. -/
theorem perm {flights' : List (Option (Outcome (Option Versioned)))}
    (h : Coherent now last flights cell) (hp : flights.Perm flights') :
    Coherent now last flights' cell where
  loads := h.loads.trans hp.length_eq
  old := h.old
  live := h.live
  flight hc hx := h.flight hc (hp.mem_iff.mpr hx)
  dated hx := h.dated (hp.mem_iff.mpr hx)

/-- Writes elsewhere only push the last version up. -/
theorem mono {last' : Nat} (h : Coherent now last flights cell) (hl : last ≤ last') :
    Coherent now last' flights cell where
  loads := h.loads
  old hc := Nat.le_trans (h.old hc) hl
  live := h.live
  flight := h.flight
  dated hx := Nat.le_trans (h.dated hx) hl

/-- An unknown key has no reads on their way. -/
theorem flights_eq_nil (h : Coherent now last flights Option.none) : flights = [] := by
  have := h.loads
  exact List.eq_nil_of_length_eq_zero this.symm

/-- Dropping an entry that nothing needs loses nothing. -/
theorem keep {en : Entry} (h : Coherent now last flights (some en)) :
    Coherent now last flights en.keep := by
  unfold Entry.keep
  split
  · next hk =>
    have : flights = [] := by
      have hlen := h.loads
      simp only [Option.map_some, Option.getD_some, hk.2] at hlen
      exact List.eq_nil_of_length_eq_zero hlen.symm
    rw [this]
    exact Coherent.none now last
  · exact h

/-- A read sets out. If it has asked the store already, it has found what the store holds. -/
theorem load {answer : Option (Outcome (Option Versioned))}
    (h : Coherent now last flights cell)
    (ha : ∀ x, answer = some (.ok (some x)) → now = some x ∧ x.version ≤ last) :
    Coherent now last (answer :: flights) (Entry.load cell) := by
  have hdated : ∀ {x}, some (.ok (some x)) ∈ answer :: flights → x.version ≤ last := by
    intro x hx
    rcases List.mem_cons.mp hx with hx | hx
    · exact (ha x hx.symm).2
    · exact h.dated hx
  cases hcell : cell with
  | none =>
      subst hcell
      have hnil := h.flights_eq_nil
      subst hnil
      refine ⟨rfl, ?_, ?_, ?_, hdated⟩
      · rintro en ⟨⟩
        exact Nat.zero_le _
      · rintro en v ⟨⟩ hv
        cases hv
      · rintro en x ⟨⟩ hx -
        exact (ha x (List.mem_singleton.mp hx).symm).1
  | some en₀ =>
      subst hcell
      refine ⟨?_, ?_, ?_, ?_, hdated⟩
      · have := h.loads
        simp only [Option.map_some, Option.getD_some] at this
        simp [Entry.load, this]
      · rintro en ⟨⟩
        show en₀.version ≤ last
        exact h.old rfl
      · rintro en v ⟨⟩ hv
        show now = some ⟨v, en₀.version⟩
        exact h.live rfl hv
      · rintro en x ⟨⟩ hx hlt
        rcases List.mem_cons.mp hx with hx | hx
        · exact (ha x hx.symm).1
        · exact h.flight rfl hx hlt

/-- A read comes back, with what it found when it asked or with what the store holds now. -/
theorem settle {answer : Option (Outcome (Option Versioned))} {fetched : Option Versioned}
    (h : Coherent now last (answer :: flights) cell)
    (hf : ∀ x, fetched = some x →
      answer = some (.ok (some x)) ∨ now = some x ∧ x.version ≤ last) :
    Coherent now last flights (Entry.settle fetched cell).1 := by
  cases hcell : cell with
  | none =>
      subst hcell
      cases h.flights_eq_nil
  | some en₀ =>
      subst hcell
      -- the entry with one load less, before the answer is looked at
      have hless : Coherent now last flights (some { en₀ with loads := en₀.loads - 1 }) := by
        refine ⟨?_, ?_, ?_, ?_, fun hx => h.dated (List.mem_cons_of_mem _ hx)⟩
        · have hlen := h.loads
          simp only [Option.map_some, Option.getD_some, List.length_cons] at hlen
          simp [hlen]
        · rintro en ⟨⟩
          show en₀.version ≤ last
          exact h.old rfl
        · rintro en v ⟨⟩ hv
          show now = some ⟨v, en₀.version⟩
          exact h.live rfl hv
        · rintro en x ⟨⟩ hx hlt
          exact h.flight rfl (List.mem_cons_of_mem _ hx) hlt
      cases fetched with
      | none => exact hless.keep
      | some x =>
          have hx := hf x rfl
          simp only [Entry.settle]
          split
          · next hlt =>
            have hnow : now = some x := by
              rcases hx with hx | hx
              · exact h.flight rfl (hx ▸ List.mem_cons_self) hlt
              · exact hx.1
            have hold : x.version ≤ last := by
              rcases hx with hx | hx
              · exact h.dated (hx ▸ List.mem_cons_self)
              · exact hx.2
            dsimp only
            refine Coherent.keep ⟨?_, ?_, ?_, ?_, hless.dated⟩
            · exact hless.loads
            · rintro en ⟨⟩
              exact hold
            · rintro en v ⟨⟩ hv
              cases hv
              exact hnow
            · rintro en y ⟨⟩ hy hlt'
              exact hless.flight rfl hy (Nat.lt_trans hlt hlt')
          · exact hless.keep

/-- A write or a removal of the key is announced, under a version that is larger than all before. -/
theorem apply {c : Change} (h : Coherent now last flights cell) (hv : c.version = last + 1) :
    Coherent c.live? (last + 1) flights (Entry.apply c cell).1 := by
  have hdated : ∀ {x}, some (.ok (some x)) ∈ flights → x.version ≤ last + 1 :=
    fun hx => Nat.le_succ_of_le (h.dated hx)
  cases hcell : cell with
  | none =>
      subst hcell
      have hnil := h.flights_eq_nil
      subst hnil
      cases c <;> exact Coherent.none _ _
  | some en₀ =>
      subst hcell
      have hlt : en₀.version < c.version := by
        have := h.old rfl
        omega
      have hloads := h.loads
      -- no read on its way has found the new version
      have hflight : ∀ {x : Versioned}, some (.ok (some x)) ∈ flights →
          ¬ c.version < x.version := by
        intro x hx hlt'
        have := h.dated hx
        omega
      cases c with
      | put x =>
          simp only [Entry.apply, Entry.update, Change.version] at hlt hv hflight ⊢
          rw [if_pos hlt]
          refine ⟨hloads, ?_, ?_, ?_, hdated⟩
          · rintro en ⟨⟩
            exact Nat.le_of_eq hv
          · rintro en v ⟨⟩ hval
            cases hval
            rfl
          · rintro en y ⟨⟩ hy hlt'
            exact absurd hlt' (hflight hy)
      | removed version =>
          simp only [Entry.apply, Entry.remove, Change.version] at hlt hv hflight ⊢
          rw [if_pos hlt]
          split
          · next hzero =>
            simp only [Option.map_some, Option.getD_some, hzero] at hloads
            rw [List.eq_nil_of_length_eq_zero hloads.symm]
            exact Coherent.none _ _
          · refine ⟨hloads, ?_, ?_, ?_, hdated⟩
            · rintro en ⟨⟩
              exact Nat.le_of_eq hv
            · rintro en v ⟨⟩ hval
              cases hval
            · rintro en y ⟨⟩ hy hlt'
              exact absurd hlt' (hflight hy)

end Coherent

end Front.Entry

end NearCache
