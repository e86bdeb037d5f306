/-!
# Finite tables in key order

A table holds at most one value per key and lists its keys in increasing order.  The order is part
of the type, so two tables with the same look-ups are the same table (`Table.ext_get?`), whatever
the order in which they were filled.

Each operation is described by what it does to `get?`: `get?_insert`, `get?_erase`, `get?_alter`.
-/

namespace NearCache

/-- The strict order of a key type: any two different keys stand one before the other. -/
class Key (κ : Type) [LT κ] : Prop where
  irrefl : ∀ a : κ, ¬ a < a
  trans : ∀ {a b c : κ}, a < b → b < c → a < c
  connected : ∀ {a b : κ}, ¬ a < b → ¬ b < a → a = b

instance : Key Nat where
  irrefl := Nat.lt_irrefl
  trans := Nat.lt_trans
  connected := by omega

instance : Key String where
  irrefl := String.lt_irrefl
  trans := String.lt_trans
  connected := Std.Trichotomous.trichotomous (r := (· < ·)) _ _

instance : Key (List UInt8) where
  irrefl := List.lt_irrefl
  trans := Trans.trans
  connected := Std.Trichotomous.trichotomous (r := (· < ·)) _ _

/-- A finite map as its bindings in strictly increasing key order. -/
structure Table (κ : Type) (ν : Type) [LT κ] where
  entries : List (κ × ν)
  increasing : entries.Pairwise (·.1 < ·.1) := by simp

namespace Table

variable {κ ν : Type} [LT κ]

instance [DecidableEq κ] [DecidableEq ν] : DecidableEq (Table κ ν) := fun a b =>
  if h : a.entries = b.entries then
    .isTrue (by cases a; cases b; cases h; rfl)
  else
    .isFalse (fun e => h (e ▸ rfl))

/-- The table without bindings. -/
def empty : Table κ ν := ⟨[], .nil⟩

instance : EmptyCollection (Table κ ν) := ⟨empty⟩

instance : Inhabited (Table κ ν) := ⟨empty⟩

/-- The keys, in increasing order. -/
def keys (t : Table κ ν) : List κ := t.entries.map (·.1)

/-- The values, in the order of their keys. -/
def values (t : Table κ ν) : List ν := t.entries.map (·.2)

/-- How many keys are bound. -/
def size (t : Table κ ν) : Nat := t.entries.length

/-- Whether no key is bound. -/
def isEmpty (t : Table κ ν) : Bool := t.entries.isEmpty

/-- The bindings whose key and value pass a test. -/
def filter (p : κ → ν → Bool) (t : Table κ ν) : Table κ ν where
  entries := t.entries.filter fun e => p e.1 e.2
  increasing := t.increasing.filter _

section Lookup

variable [DecidableEq κ]

/-- The value that a list of bindings gives a key: the first one wins. -/
def find? (k : κ) : List (κ × ν) → Option ν
  | [] => none
  | (j, v) :: rest => if j = k then some v else find? k rest

/-- The value bound to a key. -/
def get? (t : Table κ ν) (k : κ) : Option ν := find? k t.entries

/-- Whether a key is bound. -/
def contains (t : Table κ ν) (k : κ) : Bool := (t.get? k).isSome

/-- The table without a key. -/
def erase (t : Table κ ν) (k : κ) : Table κ ν := t.filter fun j _ => j ≠ k

end Lookup

section Update

variable [DecidableEq κ] [DecidableLT κ]

/-- Puts a binding at its place among ordered bindings, over an earlier one of the same key. -/
def place (k : κ) (v : ν) : List (κ × ν) → List (κ × ν)
  | [] => [(k, v)]
  | (j, w) :: rest =>
    if k = j then (k, v) :: rest
    else if k < j then (k, v) :: (j, w) :: rest
    else (j, w) :: place k v rest

theorem mem_place {k : κ} {v : ν} {l : List (κ × ν)} {e : κ × ν} (h : e ∈ place k v l) :
    e = (k, v) ∨ e ∈ l := by
  induction l with
  | nil => simpa [place] using h
  | cons a rest ih =>
    obtain ⟨j, w⟩ := a
    unfold place at h
    split at h
    · rcases List.mem_cons.1 h with h | h
      · exact .inl h
      · exact .inr (List.mem_cons_of_mem _ h)
    · split at h
      · rcases List.mem_cons.1 h with h | h
        · exact .inl h
        · exact .inr h
      · rcases List.mem_cons.1 h with h | h
        · exact .inr (h ▸ List.mem_cons_self)
        · exact (ih h).imp id (List.mem_cons_of_mem _)

theorem increasing_place [Key κ] (k : κ) (v : ν) {l : List (κ × ν)}
    (h : l.Pairwise (·.1 < ·.1)) : (place k v l).Pairwise (·.1 < ·.1) := by
  induction l with
  | nil => simp [place]
  | cons a rest ih =>
    obtain ⟨j, w⟩ := a
    obtain ⟨hj, hrest⟩ := List.pairwise_cons.1 h
    unfold place
    split
    · next e => exact List.pairwise_cons.2 ⟨e ▸ hj, hrest⟩
    · next ne =>
      split
      · next lt =>
        refine List.pairwise_cons.2 ⟨fun e he => ?_, h⟩
        rcases List.mem_cons.1 he with rfl | he
        · exact lt
        · exact Key.trans lt (hj e he)
      · next nlt =>
        refine List.pairwise_cons.2 ⟨fun e he => ?_, ih hrest⟩
        rcases mem_place he with rfl | he
        · exact Classical.byContradiction fun hn => ne (Key.connected nlt hn)
        · exact hj e he

variable [Key κ]

/-- Binds a key, in place of its earlier value if it had one. -/
def insert (t : Table κ ν) (k : κ) (v : ν) : Table κ ν :=
  ⟨place k v t.entries, increasing_place k v t.increasing⟩

/-- Changes what is bound to one key; `none` stands for no binding, before and after. -/
def alter (t : Table κ ν) (k : κ) (f : Option ν → Option ν) : Table κ ν :=
  match f (t.get? k) with
  | some v => t.insert k v
  | none => t.erase k

/-- The table that a list of bindings describes when a later binding replaces an earlier one. -/
def ofList (l : List (κ × ν)) : Table κ ν :=
  l.foldl (fun t e => t.insert e.1 e.2) empty

end Update

/-! ## Look-up laws -/

section Laws

variable [DecidableEq κ]

@[simp] theorem get?_empty (k : κ) : (∅ : Table κ ν).get? k = none := rfl

omit [LT κ] in
theorem find?_filter_key (l : List (κ × ν)) (p : κ → Bool) (k : κ) :
    find? k (l.filter fun e => p e.1) = if p k then find? k l else none := by
  induction l with
  | nil => simp [find?]
  | cons a rest ih =>
    obtain ⟨j, w⟩ := a
    by_cases hj : j = k
    · subst hj
      by_cases hp : p j <;> simp_all [find?]
    · by_cases hp : p j <;> simp [find?, hp, hj, ih]

/-- Erasing a key changes what is bound to that key only. -/
theorem get?_erase (t : Table κ ν) (k j : κ) :
    (t.erase k).get? j = if j = k then none else t.get? j := by
  have := find?_filter_key t.entries (fun i => decide (i ≠ k)) j
  by_cases h : j = k <;> simpa [get?, erase, filter, h] using this

variable [DecidableLT κ]

theorem find?_place (k j : κ) (v : ν) (l : List (κ × ν)) :
    find? j (place k v l) = if j = k then some v else find? j l := by
  induction l with
  | nil =>
    by_cases h : j = k
    · simp [place, find?, h]
    · simp [place, find?, h, Ne.symm h]
  | cons a rest ih =>
    obtain ⟨i, w⟩ := a
    by_cases hki : k = i
    · subst hki
      by_cases h : j = k
      · subst h; simp [place, find?]
      · simp [place, find?, h, Ne.symm h]
    · by_cases hlt : k < i
      · by_cases h : j = k
        · subst h; simp [place, find?, hki, hlt]
        · simp [place, find?, hki, hlt, h, Ne.symm h]
      · by_cases h : j = k
        · subst h; simp [place, find?, hki, hlt, ih, Ne.symm hki]
        · simp [place, find?, hki, hlt, ih, h]

variable [Key κ]

/-- Binding a key changes what is bound to that key only. -/
theorem get?_insert (t : Table κ ν) (k j : κ) (v : ν) :
    (t.insert k v).get? j = if j = k then some v else t.get? j :=
  find?_place k j v t.entries

@[simp] theorem get?_insert_self (t : Table κ ν) (k : κ) (v : ν) :
    (t.insert k v).get? k = some v := by
  simp [get?_insert]

/-- Altering a key applies the change to what was bound to it, and to nothing else. -/
theorem get?_alter (t : Table κ ν) (k j : κ) (f : Option ν → Option ν) :
    (t.alter k f).get? j = if j = k then f (t.get? k) else t.get? j := by
  unfold alter
  split
  · next v h => simp [get?_insert, h]
  · next h => simp [get?_erase, h]

end Laws

/-! ## Extensionality -/

section Extensionality

variable [DecidableEq κ] [Key κ]

theorem find?_eq_none_of_before {k : κ} {l : List (κ × ν)} (h : ∀ e ∈ l, k < e.1) :
    find? k l = none := by
  induction l with
  | nil => rfl
  | cons a rest ih =>
    have ha := h a List.mem_cons_self
    have : ¬ a.1 = k := fun e => Key.irrefl k (by simpa [e] using ha)
    simp [find?, this, ih fun e he => h e (List.mem_cons_of_mem _ he)]

theorem find?_eq_some_of_mem {k : κ} {v : ν} {l : List (κ × ν)} (h : l.Pairwise (·.1 < ·.1))
    (hm : (k, v) ∈ l) : find? k l = some v := by
  induction l with
  | nil => cases hm
  | cons a rest ih =>
    obtain ⟨j, w⟩ := a
    obtain ⟨hj, hrest⟩ := List.pairwise_cons.1 h
    rcases List.mem_cons.1 hm with e | hm
    · cases e; simp [find?]
    · have : ¬ j = k := fun e => Key.irrefl k (by simpa [e] using hj _ hm)
      simp [find?, this, ih hrest hm]

omit [LT κ] [Key κ] in
theorem mem_of_find?_eq_some {k : κ} {v : ν} {l : List (κ × ν)} (h : find? k l = some v) :
    (k, v) ∈ l := by
  induction l with
  | nil => cases h
  | cons a rest ih =>
    obtain ⟨j, w⟩ := a
    by_cases hj : j = k
    · simp [find?, hj] at h; simp [hj, h]
    · simp [find?, hj] at h; exact List.mem_cons_of_mem _ (ih h)

/-- The bindings of a table are exactly its look-ups. -/
theorem mem_entries_iff (t : Table κ ν) (k : κ) (v : ν) :
    (k, v) ∈ t.entries ↔ t.get? k = some v :=
  ⟨find?_eq_some_of_mem t.increasing, mem_of_find?_eq_some⟩

theorem eq_of_find?_eq {l m : List (κ × ν)} (hl : l.Pairwise (·.1 < ·.1))
    (hm : m.Pairwise (·.1 < ·.1)) (h : ∀ k, find? k l = find? k m) : l = m := by
  induction l generalizing m with
  | nil =>
    cases m with
    | nil => rfl
    | cons a _ => have := h a.1; simp [find?] at this
  | cons a l ih =>
    obtain ⟨ha, hl'⟩ := List.pairwise_cons.1 hl
    cases m with
    | nil => have := h a.1; simp [find?] at this
    | cons b m =>
      obtain ⟨hb, hm'⟩ := List.pairwise_cons.1 hm
      have hab : a.1 = b.1 := by
        refine Key.connected (fun lt => ?_) (fun lt => ?_)
        · have := find?_eq_none_of_before (k := a.1) (l := b :: m) fun e he => by
            rcases List.mem_cons.1 he with rfl | he
            · exact lt
            · exact Key.trans lt (hb e he)
          rw [← h a.1] at this
          simp [find?] at this
        · have := find?_eq_none_of_before (k := b.1) (l := a :: l) fun e he => by
            rcases List.mem_cons.1 he with rfl | he
            · exact lt
            · exact Key.trans lt (ha e he)
          rw [h b.1] at this
          simp [find?] at this
      have hv : a.2 = b.2 := by
        have := h a.1
        simpa [find?, hab] using this
      have hrest : l = m := by
        refine ih hl' hm' fun k => ?_
        by_cases hk : a.1 = k
        · subst hk
          rw [find?_eq_none_of_before ha, hab, find?_eq_none_of_before hb]
        · have := h k
          simpa [find?, hk, hab ▸ hk] using this
      rw [hrest, Prod.ext hab hv]

/-- Two tables with the same look-ups are equal. -/
theorem ext_get? {s t : Table κ ν} (h : ∀ k, s.get? k = t.get? k) : s = t := by
  cases s; cases t
  congr
  exact eq_of_find?_eq ‹_› ‹_› h

end Extensionality

end Table

end NearCache
