import Mathlib.Logic.Relation
import NearCache.Front
import NearCache.Proofs.Store.Progress

/-!
# A key whose notifications come late

A write and its announcement are two steps (`Store.write` and `Store.announce`), so announcements of
different writes may arrive in another order than that of the writes. `Race` is one key of one near
cache under such conditions: the writes so far, the announcements that have arrived, and the reads
on their way to the store, each of which asks the store once at a moment of its own.

`Front.Entry.Tracks` is what holds of the key all the time: its version is that of a write, and its
value is the one that was written under that version. `Front.Entry.Settled` is what holds once the
last write has arrived: as long as the key does not know of it, all reads on their way have found it
or are still to ask.
-/

namespace NearCache

/-- One key of a near cache, the writes to the key, and the announcements that have arrived. -/
structure Race where
  /-- The writes in their order. -/
  written : List Change := []
  /-- The announcements in the order of their arrival. -/
  told : List Change := []
  /-- The reads on their way: for each, what it has found if it has asked the store. -/
  loads : List (Option (Option Versioned)) := []
  front : Front

namespace Race

/-- What the store holds. -/
def now (r : Race) : Option Versioned := r.written.getLast?.bind Change.live?

/-- What can happen next. -/
inductive Step (key : Bytes) : Race → Race → Prop where
  | write (r : Race) {c : Change} (newer : ∀ d ∈ r.written, d.version < c.version) :
      Step key r { r with written := r.written ++ [c] }
  /-- The announcement of a write arrives, once. -/
  | tell (r : Race) {c : Change} (due : c ∈ r.written) (once : c ∉ r.told) :
      Step key r { r with told := r.told ++ [c], front := (r.front.apply key c).2 }
  | begin (r : Race) :
      Step key r { r with loads := none :: r.loads, front := r.front.beginLoad key }
  /-- A read asks the store. -/
  | ask (r : Race) {before after : List (Option (Option Versioned))}
      (split : r.loads = before ++ none :: after) :
      Step key r { r with loads := before ++ some r.now :: after }
  | finish (r : Race) {before after : List (Option (Option Versioned))} {x : Option Versioned}
      (split : r.loads = before ++ some x :: after) :
      Step key r { r with loads := before ++ after, front := (r.front.finishLoad key x).2 }

/-- A run starts with a near cache that does not know the key. -/
def Reach (key : Bytes) (r : Race) : Prop :=
  ∃ front : Front, front.cell? key = none ∧ Relation.ReflTransGen (Step key) { front } r

/-- The key is unknown or has the value and the version of the last write; if this is a removal, the
key has no value. -/
def Converged (key : Bytes) (r : Race) : Prop :=
  (r.front.cell? key = none ∨
    ∃ en x, r.front.cell? key = some en ∧ r.now = some x ∧ en.value = some x.value ∧
      en.version = x.version) ∧
  (r.now = none → r.front.get? key = none)

end Race

namespace Front.Entry

/-! ## What one event does -/

/-- An announcement changes an entry that is older, and no other. -/
theorem apply_eq_self {c : Change} {en : Entry} (h : c.version ≤ en.version) :
    (apply c (some en)).1 = some en := by
  cases c with
  | put x =>
      have hx : ¬ en.version < x.version := Nat.not_lt.mpr h
      simp only [apply, update, if_neg hx]
  | removed m =>
      have hm : ¬ en.version < m := Nat.not_lt.mpr h
      simp only [apply, remove, if_neg hm]

theorem apply_put {x : Versioned} {en : Entry} (h : en.version < x.version) :
    (apply (.put x) (some en)).1 =
      some { en with value := some x.value, version := x.version } := by
  simp only [apply, update, if_pos h]

theorem apply_removed {m : Nat} {en : Entry} (h : en.version < m) :
    (apply (.removed m) (some en)).1 =
      if en.loads = 0 then none else some { en with value := none, version := m } := by
  simp only [apply, remove, if_pos h]

theorem apply_none (c : Change) : (apply c none).1 = none := by
  cases c <;> rfl

/-- A read that comes back with nothing newer only takes its mark away. -/
theorem settle_eq_keep {fetched : Option Versioned} {en : Entry}
    (h : ∀ x, fetched = some x → x.version ≤ en.version) :
    (settle fetched (some en)).1 = keep { en with loads := en.loads - 1 } := by
  cases fetched with
  | none => rfl
  | some x => simp only [settle, if_neg (Nat.not_lt.mpr (h x rfl))]

theorem settle_newer {x : Versioned} {en : Entry} (h : en.version < x.version) :
    (settle (some x) (some en)).1 =
      some { value := some x.value, version := x.version, loads := en.loads - 1 } := by
  simp [settle, h, keep]

theorem keep_eq_some {en en' : Entry} (h : en.keep = some en') :
    en' = en ∧ (en.value = none → en.loads ≠ 0) := by
  unfold keep at h
  split at h
  · cases h
  · next hk =>
    cases h
    exact ⟨rfl, fun hv hl => hk ⟨hv, hl⟩⟩

/-! ## Following the writes -/

/-- The entry of a key under the writes to it and the reads of it that are on their way. -/
structure Tracks (written : List Change) (loads : List (Option (Option Versioned)))
    (cell : Option Entry) : Prop where
  count : (cell.map (·.loads)).getD 0 = loads.length
  needed : ∀ {en}, cell = some en → en.value = none → en.loads ≠ 0
  known : ∀ {en}, cell = some en → en.version ≠ 0 → ∃ c ∈ written, c.version = en.version
  value : ∀ {en v}, cell = some en → en.value = some v → .put ⟨v, en.version⟩ ∈ written
  found : ∀ {x}, some (some x) ∈ loads → .put x ∈ written

namespace Tracks

variable {written : List Change} {loads : List (Option (Option Versioned))} {cell : Option Entry}

theorem unknown : Tracks written [] none where
  count := rfl
  needed h := by cases h
  known h := by cases h
  value h := by cases h
  found h := by cases h

theorem loads_eq_nil (h : Tracks written loads none) : loads = [] :=
  List.eq_nil_of_length_eq_zero h.count.symm

theorem write (h : Tracks written loads cell) (c : Change) :
    Tracks (written ++ [c]) loads cell where
  count := h.count
  needed := h.needed
  known hcell hv := by
    obtain ⟨d, hd, hdv⟩ := h.known hcell hv
    exact ⟨d, List.mem_append_left _ hd, hdv⟩
  value hcell hv := List.mem_append_left _ (h.value hcell hv)
  found hx := List.mem_append_left _ (h.found hx)

theorem apply (h : Tracks written loads cell) {c : Change} (hc : c ∈ written) :
    Tracks written loads (Entry.apply c cell).1 := by
  cases cell with
  | none =>
      rw [apply_none]
      exact h
  | some en =>
      rcases Nat.lt_or_ge en.version c.version with hlt | hge
      · cases c with
        | put x =>
            rw [apply_put hlt]
            refine ⟨h.count, ?_, ?_, ?_, h.found⟩
            · rintro en' ⟨⟩ hv
              cases hv
            · rintro en' ⟨⟩ -
              exact ⟨_, hc, rfl⟩
            · rintro en' v ⟨⟩ hv
              cases hv
              exact hc
        | removed m =>
            rw [apply_removed (m := m) hlt]
            split
            · next hzero =>
              have hcount := h.count
              simp only [Option.map_some, Option.getD_some, hzero] at hcount
              rw [List.eq_nil_of_length_eq_zero hcount.symm]
              exact unknown
            · next hloads =>
              refine ⟨h.count, ?_, ?_, ?_, h.found⟩
              · rintro en' ⟨⟩ -
                exact hloads
              · rintro en' ⟨⟩ -
                exact ⟨_, hc, rfl⟩
              · rintro en' v ⟨⟩ hv
                cases hv
      · rw [apply_eq_self hge]
        exact h

theorem load (h : Tracks written loads cell) :
    Tracks written (none :: loads) (Entry.load cell) := by
  have hfound : ∀ {x}, some (some x) ∈ none :: loads → .put x ∈ written := by
    intro x hx
    rcases List.mem_cons.mp hx with hx | hx
    · cases hx
    · exact h.found hx
  cases cell with
  | none =>
      have hnil := h.loads_eq_nil
      subst hnil
      refine ⟨rfl, ?_, ?_, ?_, hfound⟩
      · rintro en ⟨⟩ -
        exact Nat.one_ne_zero
      · rintro en ⟨⟩ hv
        exact absurd rfl hv
      · rintro en v ⟨⟩ hv
        cases hv
  | some en₀ =>
      refine ⟨?_, ?_, ?_, ?_, hfound⟩
      · have hcount := h.count
        simp only [Option.map_some, Option.getD_some] at hcount
        simp [Entry.load, hcount]
      · rintro en ⟨⟩ -
        exact Nat.succ_ne_zero _
      · rintro en ⟨⟩ hv
        show ∃ c ∈ written, c.version = en₀.version
        exact h.known rfl hv
      · rintro en v ⟨⟩ hv
        show .put ⟨v, en₀.version⟩ ∈ written
        exact h.value rfl hv

theorem ask {before after : List (Option (Option Versioned))} {x : Option Versioned}
    (h : Tracks written (before ++ none :: after) cell)
    (hx : ∀ y, x = some y → .put y ∈ written) :
    Tracks written (before ++ some x :: after) cell where
  count := by
    rw [h.count, List.length_append, List.length_append]
    rfl
  needed := h.needed
  known := h.known
  value := h.value
  found {y} hy := by
    rcases List.mem_append.mp hy with hy | hy
    · exact h.found (List.mem_append_left _ hy)
    · rcases List.mem_cons.mp hy with hy | hy
      · exact hx y (Option.some.inj hy).symm
      · exact h.found (List.mem_append_right _ (List.mem_cons_of_mem _ hy))

theorem finish {before after : List (Option (Option Versioned))} {x : Option Versioned}
    (h : Tracks written (before ++ some x :: after) cell) :
    Tracks written (before ++ after) (Entry.settle x cell).1 := by
  have hfound : ∀ {y}, some (some y) ∈ before ++ after → .put y ∈ written := by
    intro y hy
    refine h.found ?_
    rcases List.mem_append.mp hy with hy | hy
    · exact List.mem_append_left _ hy
    · exact List.mem_append_right _ (List.mem_cons_of_mem _ hy)
  cases cell with
  | none =>
      have hnil := h.loads_eq_nil
      simp at hnil
  | some en =>
      have hcount := h.count
      simp only [Option.map_some, Option.getD_some, List.length_append, List.length_cons] at hcount
      have hless : en.loads - 1 = (before ++ after).length := by
        rw [List.length_append]
        omega
      -- an entry without value and reads is dropped, and then no read is on its way
      have hkeep : Tracks written (before ++ after) (keep { en with loads := en.loads - 1 }) := by
        unfold keep
        split
        · next hk =>
          have hnil : before ++ after = [] := List.eq_nil_of_length_eq_zero (hless.symm.trans hk.2)
          rw [hnil]
          exact unknown
        · next hk =>
          refine ⟨hless, ?_, ?_, ?_, hfound⟩
          · rintro en' ⟨⟩ hv hl
            exact hk ⟨hv, hl⟩
          · rintro en' ⟨⟩ hv
            show ∃ c ∈ written, c.version = en.version
            exact h.known rfl hv
          · rintro en' v ⟨⟩ hv
            show .put ⟨v, en.version⟩ ∈ written
            exact h.value rfl hv
      by_cases hnewer : ∃ y, x = some y ∧ en.version < y.version
      · obtain ⟨y, rfl, hlt⟩ := hnewer
        rw [settle_newer hlt]
        have hy : .put y ∈ written :=
          h.found (List.mem_append_right _ List.mem_cons_self)
        refine ⟨hless, ?_, ?_, ?_, hfound⟩
        · rintro en' ⟨⟩ hv
          cases hv
        · rintro en' ⟨⟩ -
          exact ⟨_, hy, rfl⟩
        · rintro en' v ⟨⟩ hv
          cases hv
          exact hy
      · rw [settle_eq_keep]
        · exact hkeep
        · intro y hy
          exact Nat.not_lt.mp fun hlt => hnewer ⟨y, hy, hlt⟩

/-- Versions of entries and of what reads have found do not exceed that of the last write. -/
theorem version_le (h : Tracks written loads cell) {last : Change}
    (hlast : ∀ c ∈ written, c.version ≤ last.version) {en : Entry} (hcell : cell = some en) :
    en.version ≤ last.version := by
  by_cases hv : en.version = 0
  · omega
  · obtain ⟨c, hc, hcv⟩ := h.known hcell hv
    exact hcv ▸ hlast c hc

end Tracks

/-! ## After the last write has arrived -/

/-- While the entry of a key does not know the last write to it, reads on their way have found this
write or are still to ask. If the write is not a removal, there is such a read. -/
def Settled (last : Change) (loads : List (Option (Option Versioned))) (cell : Option Entry) :
    Prop :=
  ∀ en, cell = some en → en.version ≠ last.version →
    (∀ a ∈ loads, a = none ∨ a = some last.live?) ∧ (last.live? ≠ none → loads ≠ [])

namespace Settled

variable {written : List Change} {loads : List (Option (Option Versioned))} {cell : Option Entry}
  {last : Change}

/-- The last write arrives. -/
theorem arrive (h : Tracks written loads cell) (hlast : ∀ c ∈ written, c.version ≤ last.version) :
    Settled last loads (Entry.apply last cell).1 := by
  intro en' hcell hne
  exfalso
  cases cell with
  | none =>
      rw [apply_none] at hcell
      cases hcell
  | some en =>
      rcases Nat.lt_or_ge en.version last.version with hlt | hge
      · cases last with
        | put x =>
            rw [apply_put hlt] at hcell
            cases hcell
            exact hne rfl
        | removed m =>
            rw [apply_removed (m := m) hlt] at hcell
            split at hcell
            · cases hcell
            · cases hcell
              exact hne rfl
      · rw [apply_eq_self hge] at hcell
        cases hcell
        exact hne (Nat.le_antisymm (h.version_le hlast rfl) hge)

/-- An earlier write arrives. -/
theorem apply (s : Settled last loads cell) {c : Change} (hc : c.version < last.version) :
    Settled last loads (Entry.apply c cell).1 := by
  intro en' hcell hne
  cases cell with
  | none =>
      rw [apply_none] at hcell
      cases hcell
  | some en =>
      refine s en rfl fun heq => ?_
      -- an entry that knows the last write is not changed
      rw [apply_eq_self (by omega)] at hcell
      cases hcell
      exact hne heq

theorem load (h : Tracks written loads cell) (s : Settled last loads cell) :
    Settled last (none :: loads) (Entry.load cell) := by
  intro en' hcell hne
  refine ⟨?_, fun _ => by simp⟩
  intro a ha
  rcases List.mem_cons.mp ha with rfl | ha
  · exact Or.inl rfl
  · cases cell with
    | none =>
        rw [h.loads_eq_nil] at ha
        cases ha
    | some en =>
        cases hcell
        exact (s en rfl hne).1 a ha

theorem ask {before after : List (Option (Option Versioned))}
    (s : Settled last (before ++ none :: after) cell) :
    Settled last (before ++ some last.live? :: after) cell := by
  intro en hcell hne
  obtain ⟨hfound, -⟩ := s en hcell hne
  refine ⟨?_, fun _ => by simp⟩
  intro a ha
  rcases List.mem_append.mp ha with ha | ha
  · exact hfound a (List.mem_append_left _ ha)
  · rcases List.mem_cons.mp ha with rfl | ha
    · exact Or.inr rfl
    · exact hfound a (List.mem_append_right _ (List.mem_cons_of_mem _ ha))

theorem finish {before after : List (Option (Option Versioned))} {x : Option Versioned}
    (h : Tracks written (before ++ some x :: after) cell)
    (hlast : ∀ c ∈ written, c.version ≤ last.version)
    (s : Settled last (before ++ some x :: after) cell) :
    Settled last (before ++ after) (Entry.settle x cell).1 := by
  intro en' hcell hne
  cases cell with
  | none => cases hcell
  | some en =>
      have hle := h.version_le hlast rfl
      by_cases heq : en.version = last.version
      · -- the entry knows the last write and keeps to it
        rw [settle_eq_keep] at hcell
        · obtain ⟨rfl, -⟩ := keep_eq_some hcell
          exact absurd heq hne
        · rintro y rfl
          have := hlast _ (h.found (List.mem_append_right _ List.mem_cons_self))
          exact heq ▸ this
      · obtain ⟨hfound, -⟩ := s en rfl heq
        have hx : x = last.live? := by
          rcases hfound (some x) (List.mem_append_right _ List.mem_cons_self) with hx | hx
          · cases hx
          · exact Option.some.inj hx
        cases last with
        | put y =>
            -- the read has found the last write
            rw [hx] at hcell
            rw [show Change.live? (.put y) = some y from rfl,
              settle_newer (Nat.lt_of_le_of_ne hle heq)] at hcell
            cases hcell
            exact absurd rfl hne
        | removed m =>
            refine ⟨?_, fun h => absurd rfl h⟩
            intro a ha
            refine hfound a ?_
            rcases List.mem_append.mp ha with ha | ha
            · exact List.mem_append_left _ ha
            · exact List.mem_append_right _ (List.mem_cons_of_mem _ ha)

end Settled

end Front.Entry

end NearCache
