import Mathlib.Data.List.Nodup
import Mathlib.Data.List.Perm.Subperm
import NearCache.Table

/-!
# Laws of finite tables

What `Table` leaves to its users: look-ups after a filter, membership of keys and values, and the
two permutation laws that let a count over a table follow one insertion (`entries_insert_perm`) or
one erasure (`entries_erase_perm`).

A table can also be read through a function on its values, `mapValues`. Two tables that agree under
such a reading have the same keys (`keys_eq_of_mapValues`).
-/

namespace NearCache.Table

variable {κ ν μ : Type} [LT κ] [DecidableEq κ] [Key κ]

/-! ## Keys and values -/

omit [DecidableEq κ] in
theorem nodup_keys (t : Table κ ν) : t.keys.Nodup := by
  have hne : t.entries.Pairwise (fun a b => a.1 ≠ b.1) := by
    refine t.increasing.imp ?_
    intro a b hab he
    exact Key.irrefl b.1 (he ▸ hab)
  exact List.pairwise_map.mpr hne

omit [DecidableEq κ] in
theorem nodup_entries (t : Table κ ν) : t.entries.Nodup :=
  List.Nodup.of_map Prod.fst (nodup_keys t)

theorem mem_keys_iff {t : Table κ ν} {k : κ} : k ∈ t.keys ↔ ∃ v, t.get? k = some v := by
  constructor
  · intro hk
    obtain ⟨⟨j, v⟩, he, rfl⟩ := List.mem_map.mp hk
    exact ⟨v, (mem_entries_iff t j v).mp he⟩
  · rintro ⟨v, hv⟩
    exact List.mem_map.mpr ⟨(k, v), (mem_entries_iff t k v).mpr hv, rfl⟩

theorem get?_eq_none_iff {t : Table κ ν} {k : κ} : t.get? k = none ↔ k ∉ t.keys := by
  rw [mem_keys_iff]
  cases t.get? k <;> simp

theorem mem_values_iff {t : Table κ ν} {v : ν} : v ∈ t.values ↔ ∃ k, t.get? k = some v := by
  constructor
  · intro hv
    obtain ⟨⟨k, w⟩, he, rfl⟩ := List.mem_map.mp hv
    exact ⟨k, (mem_entries_iff t k w).mp he⟩
  · rintro ⟨k, hk⟩
    exact List.mem_map.mpr ⟨(k, v), (mem_entries_iff t k v).mpr hk, rfl⟩

omit [Key κ] in
theorem contains_iff {t : Table κ ν} {k : κ} : t.contains k = true ↔ ∃ v, t.get? k = some v :=
  Option.isSome_iff_exists

omit [Key κ] in
theorem contains_eq_false_iff {t : Table κ ν} {k : κ} :
    t.contains k = false ↔ t.get? k = none := by
  simp [contains]

/-- A filter keeps a binding exactly if it passes the test. -/
theorem get?_filter (t : Table κ ν) (p : κ → ν → Bool) (k : κ) :
    (t.filter p).get? k = (t.get? k).filter (p k) := by
  apply Option.ext
  intro v
  rw [← mem_entries_iff, Option.filter_eq_some_iff, ← mem_entries_iff]
  simp [filter]

/-! ## Reading the values through a function -/

/-- The table with a function applied to every value. -/
def mapValues (f : ν → μ) (t : Table κ ν) : Table κ μ where
  entries := t.entries.map fun e => (e.1, f e.2)
  increasing := List.pairwise_map.mpr t.increasing

omit [DecidableEq κ] [Key κ] in
@[simp] theorem keys_mapValues (f : ν → μ) (t : Table κ ν) : (t.mapValues f).keys = t.keys := by
  simp [keys, mapValues]

omit [DecidableEq κ] [Key κ] in
@[simp] theorem values_mapValues (f : ν → μ) (t : Table κ ν) :
    (t.mapValues f).values = t.values.map f := by
  simp [values, mapValues]

omit [LT κ] [Key κ] in
theorem find?_map (f : ν → μ) (l : List (κ × ν)) (k : κ) :
    find? k (l.map fun e => (e.1, f e.2)) = (find? k l).map f := by
  induction l with
  | nil => rfl
  | cons a rest ih =>
      obtain ⟨j, w⟩ := a
      by_cases hj : j = k
      · simp [find?, hj]
      · simp [find?, hj, ih]

omit [Key κ] in
@[simp] theorem get?_mapValues (f : ν → μ) (t : Table κ ν) (k : κ) :
    (t.mapValues f).get? k = (t.get? k).map f :=
  find?_map f t.entries k

theorem mapValues_erase (f : ν → μ) (t : Table κ ν) (k : κ) :
    (t.erase k).mapValues f = (t.mapValues f).erase k := by
  refine ext_get? fun j => ?_
  simp only [get?_mapValues, get?_erase]
  split <;> rfl

/-- Only the values in the table matter. -/
theorem mapValues_congr {f g : ν → μ} {t : Table κ ν}
    (h : ∀ k v, t.get? k = some v → f v = g v) : t.mapValues f = t.mapValues g := by
  refine ext_get? fun k => ?_
  rw [get?_mapValues, get?_mapValues]
  cases hk : t.get? k with
  | none => rfl
  | some v => exact congrArg some (h k v hk)

/-- Tables with the same bound keys list the same keys, whatever is bound to them. -/
theorem keys_eq_of_contains {s : Table κ ν} {t : Table κ μ}
    (h : ∀ k, s.contains k = t.contains k) : s.keys = t.keys := by
  have hunit : s.mapValues (fun _ => ()) = t.mapValues (fun _ => ()) := by
    refine ext_get? fun k => ?_
    have hk := h k
    simp only [get?_mapValues]
    cases hs : s.get? k <;> cases ht : t.get? k <;> simp_all [contains]
  rw [← keys_mapValues (fun _ => ()) s, hunit, keys_mapValues]

/-! ## One binding more or less -/

/-- Erasing a key that is not bound changes nothing. -/
theorem erase_eq_self {t : Table κ ν} {k : κ} (h : t.get? k = none) : t.erase k = t := by
  refine ext_get? fun j => ?_
  rw [get?_erase]
  split
  · next hj => rw [hj, h]
  · rfl

/-- The bindings of a table are the one of a bound key and those that remain without it. -/
theorem entries_erase_perm {t : Table κ ν} {k : κ} {v : ν} (h : t.get? k = some v) :
    t.entries.Perm ((k, v) :: (t.erase k).entries) := by
  refine (List.perm_ext_iff_of_nodup (nodup_entries t)
    (List.nodup_cons.mpr ⟨?_, nodup_entries _⟩)).mpr ?_
  · rw [mem_entries_iff, get?_erase]
    simp
  · rintro ⟨j, w⟩
    rw [List.mem_cons, mem_entries_iff, mem_entries_iff, get?_erase]
    by_cases hj : j = k
    · subst hj
      simp [h, eq_comm]
    · simp [hj]

variable [DecidableLT κ]

/-- Binding a key to what it is bound to already changes nothing. -/
theorem insert_eq_self {t : Table κ ν} {k : κ} {v : ν} (h : t.get? k = some v) :
    t.insert k v = t := by
  refine ext_get? fun j => ?_
  rw [get?_insert]
  split
  · next hj => rw [hj, h]
  · rfl

theorem mapValues_insert (f : ν → μ) (t : Table κ ν) (k : κ) (v : ν) :
    (t.insert k v).mapValues f = (t.mapValues f).insert k (f v) := by
  refine ext_get? fun j => ?_
  simp only [get?_mapValues, get?_insert]
  split <;> rfl

/-- A free key that is bound and erased again leaves nothing behind. -/
theorem erase_insert {t : Table κ ν} {k : κ} (h : t.get? k = none) {v : ν} :
    (t.insert k v).erase k = t := by
  refine ext_get? fun j => ?_
  rw [get?_erase, get?_insert]
  split
  · next hj => rw [hj, h]
  · rfl

theorem place_eq_append {k : κ} {v : ν} {l : List (κ × ν)}
    (h : ∀ e ∈ l, e.1 < k) : place k v l = l ++ [(k, v)] := by
  induction l with
  | nil => rfl
  | cons e rest ih =>
      have hlt := h e List.mem_cons_self
      have hne : k ≠ e.1 := fun heq => Key.irrefl k (heq ▸ hlt)
      have hnlt : ¬ k < e.1 := fun hgt => Key.irrefl k (Key.trans hgt hlt)
      rw [place, if_neg hne, if_neg hnlt, ih fun f hf => h f (List.mem_cons_of_mem e hf)]
      rfl

/-- A key above all others is bound at the end. -/
theorem entries_insert_last {t : Table κ ν} {k : κ} (h : ∀ e ∈ t.entries, e.1 < k) (v : ν) :
    (t.insert k v).entries = t.entries ++ [(k, v)] :=
  place_eq_append h

/-- Binding a free key adds one binding to those of the table. -/
theorem entries_insert_perm {t : Table κ ν} {k : κ} (h : t.get? k = none) (v : ν) :
    (t.insert k v).entries.Perm ((k, v) :: t.entries) := by
  have hperm := entries_erase_perm (get?_insert_self t k v)
  rwa [erase_insert h] at hperm

theorem keys_insert_perm {t : Table κ ν} {k : κ} (h : k ∉ t.keys) (v : ν) :
    (t.insert k v).keys.Perm (k :: t.keys) :=
  (entries_insert_perm (get?_eq_none_iff.mpr h) v).map Prod.fst

theorem mem_keys_insert {t : Table κ ν} {k j : κ} {v : ν} :
    j ∈ (t.insert k v).keys ↔ j = k ∨ j ∈ t.keys := by
  rw [mem_keys_iff, mem_keys_iff, get?_insert]
  by_cases hj : j = k
  · simp [hj]
  · simp [hj]

/-- Binding keys that are new and different adds their bindings to those of the table. -/
theorem entries_insertAll_perm (l : List (κ × ν)) :
    ∀ t : Table κ ν, (t.keys ++ l.map Prod.fst).Nodup →
      (l.foldl (fun t e => t.insert e.1 e.2) t).entries.Perm (t.entries ++ l) := by
  induction l with
  | nil => intro t _; rw [List.append_nil]; exact .refl _
  | cons e l ih =>
      intro t h
      obtain ⟨hnew, hrest⟩ := List.nodup_cons.mp (List.perm_middle.nodup h)
      have hfree : e.1 ∉ t.keys := fun hmem => hnew (List.mem_append_left _ hmem)
      have hinsert := entries_insert_perm (get?_eq_none_iff.mpr hfree) e.2
      have hnodup : ((t.insert e.1 e.2).keys ++ l.map Prod.fst).Nodup := by
        refine ((keys_insert_perm hfree e.2).append_right _).symm.nodup ?_
        exact List.nodup_cons.mpr ⟨hnew, hrest⟩
      refine (ih _ hnodup).trans ?_
      exact (hinsert.append_right l).trans List.perm_middle.symm

/-- A list that binds each of its keys once has the bindings of its table. -/
theorem entries_ofList_perm {l : List (κ × ν)} (h : (l.map Prod.fst).Nodup) :
    (ofList l).entries.Perm l :=
  entries_insertAll_perm l empty h

/-- The bindings of a table make the same table in any order. -/
theorem ofList_eq_of_perm {l : List (κ × ν)} {t : Table κ ν} (h : l.Perm t.entries) :
    ofList l = t := by
  have hperm := entries_ofList_perm ((h.map Prod.fst).symm.nodup (nodup_keys t))
  refine ext_get? fun k => Option.ext fun v => ?_
  rw [← mem_entries_iff, ← mem_entries_iff, (hperm.trans h).mem_iff]

/-- The table of a list has its keys, and no others. -/
theorem mem_keys_ofList_iff {l : List (κ × ν)} {k : κ} :
    k ∈ (ofList l).keys ↔ k ∈ l.map Prod.fst := by
  have hall : ∀ (l : List (κ × ν)) (t : Table κ ν),
      k ∈ (l.foldl (fun t e => t.insert e.1 e.2) t).keys ↔ k ∈ t.keys ∨ k ∈ l.map Prod.fst := by
    intro l
    induction l with
    | nil => intro t; simp
    | cons e l ih =>
        intro t
        rw [List.foldl_cons, ih, mem_keys_insert, List.map_cons, List.mem_cons, or_assoc,
          or_left_comm]
  rw [ofList, hall]
  constructor
  · rintro (hempty | hmem)
    · cases hempty
    · exact hmem
  · exact Or.inr

/-- Nor has it more bindings. -/
theorem length_ofList_le (l : List (κ × ν)) : (ofList l).entries.length ≤ l.length := by
  have hsub := List.Nodup.subperm (nodup_keys (ofList l)) fun _ hk => mem_keys_ofList_iff.mp hk
  have hle := hsub.length_le
  rwa [keys, List.length_map, List.length_map] at hle

/-! ## One value more or less -/

omit [DecidableLT κ] in
theorem values_erase_perm {t : Table κ ν} {k : κ} {v : ν} (h : t.get? k = some v) :
    t.values.Perm (v :: (t.erase k).values) :=
  (entries_erase_perm h).map Prod.snd

theorem values_insert_perm {t : Table κ ν} {k : κ} (h : t.get? k = none) (v : ν) :
    (t.insert k v).values.Perm (v :: t.values) :=
  (entries_insert_perm h v).map Prod.snd

/-- A key that is bound anew gives up its value. -/
theorem values_replace_perm (t : Table κ ν) (k : κ) (v : ν) :
    (t.insert k v).values.Perm (v :: (t.erase k).values) := by
  have herase : (t.insert k v).erase k = t.erase k := by
    refine ext_get? fun j => ?_
    simp only [get?_erase, get?_insert]
    split <;> rfl
  have hperm := values_erase_perm (get?_insert_self t k v)
  rwa [herase] at hperm

end NearCache.Table

namespace NearCache

/-- Two look-ups that are read alike have both found something, or neither has. -/
theorem map_eq_map_cases {α β γ : Type} {f : α → γ} {g : β → γ} {a : Option α} {b : Option β}
    (h : a.map f = b.map g) :
    (a = none ∧ b = none) ∨ ∃ x y, a = some x ∧ b = some y ∧ f x = g y := by
  cases a with
  | none =>
      left
      exact ⟨rfl, Option.map_eq_none_iff.mp h.symm⟩
  | some x =>
      obtain ⟨y, hb, hy⟩ := Option.map_eq_some_iff.mp h.symm
      exact Or.inr ⟨x, y, rfl, hb, hy.symm⟩

end NearCache
