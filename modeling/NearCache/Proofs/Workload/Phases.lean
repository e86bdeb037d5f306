import NearCache.Proofs.Warmth.Balance
import NearCache.Proofs.Workload.Keys

/-!
# The two phases of the workload

The workload first writes and then reads, and nobody else does anything meanwhile. So the book of
`Account` can be carried through it. While it is written nothing is warm, and a write does no more
than count and bind a key (`Account.Wrote`). While it is read every key has a value, so that a near
cache asks the store once for each key and never again (`Row.reads_near`).

Neither phase fails: `writeEach_passes` and `readEach_passes`.
-/

namespace NearCache

namespace Account

/-! ## A row that reads keys that have values -/

namespace Row

/-- Reads of keys that have values, from a store that can be reached. -/
def reads (r : Row) (ks : List Bytes) : Row := ks.foldl (fun r k => r.read true true k) r

theorem isOpen_read (r : Row) (k : Bytes) : (r.read true true k).isOpen = r.isOpen := by
  unfold Row.read
  split
  · split <;> rfl
  · rfl

theorem cache_read (r : Row) (k : Bytes) : (r.read true true k).cache = r.cache := by
  unfold Row.read
  split
  · split <;> rfl
  · rfl

theorem near_read (r : Row) (k : Bytes) : (r.read true true k).near = r.near := by
  unfold Row.read
  split
  · split <;> rfl
  · rfl

theorem near_reads (ks : List Bytes) : ∀ r : Row, (r.reads ks).near = r.near := by
  induction ks with
  | nil => exact fun _ => rfl
  | cons k ks ih => exact fun r => (ih _).trans (near_read r k)

/-- What a row reads of one key. -/
theorem read_eq {r : Row} (ho : r.isOpen = true) (k : Bytes) :
    r.read true true k = { r with
      warm := if r.near then insert k r.warm else r.warm
      counters := { r.counters with
        gets := r.counters.gets + 1
        remoteGets := r.counters.remoteGets + if k ∈ r.warm then 0 else 1
        hits := r.counters.hits + if k ∈ r.warm then 1 else 0 } } := by
  unfold Row.read
  rw [if_pos ho]
  by_cases hk : k ∈ r.warm
  · rw [if_pos hk]
    simp [Row.count, hk]
  · rw [if_neg hk]
    simp [hk]

/-- The first key is new, or it is not, and then the others are counted as if it were warm. -/
theorem card_cons_sdiff (k : Bytes) (ks : List Bytes) (warm : Finset Bytes) :
    ((k :: ks).toFinset \ warm).card =
      (if k ∈ warm then 0 else 1) + (ks.toFinset \ insert k warm).card := by
  rw [List.toFinset_cons]
  by_cases hk : k ∈ warm
  · rw [if_pos hk, Finset.insert_sdiff_of_mem _ hk, Finset.insert_eq_of_mem hk, Nat.zero_add]
  · have hset : insert k ks.toFinset \ warm = insert k (ks.toFinset \ insert k warm) := by
      ext j
      by_cases hj : j = k
      · simp [hj, hk]
      · simp [hj]
    rw [if_neg hk, hset, Finset.card_insert_of_notMem (by simp), Nat.add_comm]

/-- A near cache goes to the store once for each key that was not warm before. -/
theorem reads_near (ks : List Bytes) :
    ∀ {r : Row}, r.isOpen = true → r.near = true →
      r.reads ks = { r with
        warm := r.warm ∪ ks.toFinset
        counters := { r.counters with
          gets := r.counters.gets + ks.length
          remoteGets := r.counters.remoteGets + (ks.toFinset \ r.warm).card
          hits := r.counters.hits + (ks.length - (ks.toFinset \ r.warm).card) } } := by
  induction ks with
  | nil => intro r _ _; simp [reads]
  | cons k ks ih =>
      intro r ho hnear
      have hfirst := read_eq ho k
      rw [if_pos hnear] at hfirst
      have hopen := (isOpen_read r k).trans ho
      have hnear' : (r.read true true k).near = true := by rw [hfirst]; exact hnear
      show (r.read true true k).reads ks = _
      -- after the first read its key is warm, and the induction takes over from there
      rw [ih hopen hnear', hfirst, card_cons_sdiff]
      have hwarm : insert k r.warm ∪ ks.toFinset = r.warm ∪ (k :: ks).toFinset := by
        rw [List.toFinset_cons, Finset.insert_union, Finset.union_insert]
      have hle : (ks.toFinset \ insert k r.warm).card ≤ ks.length :=
        (Finset.card_le_card Finset.sdiff_subset).trans ks.toFinset_card_le
      have hgets : r.counters.gets + 1 + ks.length = r.counters.gets + (ks.length + 1) := by omega
      have hhits : (r.counters.hits + if k ∈ r.warm then 1 else 0) +
          (ks.length - (ks.toFinset \ insert k r.warm).card) = r.counters.hits +
          (ks.length + 1 - ((if k ∈ r.warm then 0 else 1) +
            (ks.toFinset \ insert k r.warm).card)) := by
        split <;> omega
      simp only [hwarm, List.length_cons, hgets, hhits, Nat.add_assoc]

/-- Without a near cache every read goes to the store. -/
theorem reads_bare (ks : List Bytes) :
    ∀ {r : Row}, r.isOpen = true → r.near = false → r.warm = ∅ →
      r.reads ks = { r with
        counters := { r.counters with
          gets := r.counters.gets + ks.length
          remoteGets := r.counters.remoteGets + ks.length } } := by
  induction ks with
  | nil => intro r _ _ _; simp [reads]
  | cons k ks ih =>
      intro r ho hbare hcold
      have hfirst := read_eq ho k
      simp only [hbare, hcold, Bool.false_eq_true, if_false, Finset.notMem_empty] at hfirst
      have hopen := (isOpen_read r k).trans ho
      show (r.read true true k).reads ks = _
      rw [ih hopen (by rw [hfirst]) (by rw [hfirst]), hfirst]
      have hgets : r.counters.gets + 1 + ks.length = r.counters.gets + (ks.length + 1) := by omega
      have hremote : r.counters.remoteGets + 1 + ks.length =
          r.counters.remoteGets + (ks.length + 1) := by omega
      simp only [hbare, hcold, List.length_cons, Nat.add_zero, hgets, hremote]

end Row

/-! ## A cold book that is written to -/

/-- The row after writes. -/
def Row.addPuts (r : Row) (n : Nat) : Row := r.count fun c => { c with puts := c.puts + n }

/-- Nothing is warm. -/
def Cold (a : Account) : Prop := ∀ ⦃id r⦄, a.row? id = some r → r.warm = ∅

/-- What writes to a cold book do: each endpoint counts `puts` more writes, and the keys that are
`bound` through it have values in its cache. -/
structure Wrote (a a' : Account) (puts : EndpointId → Nat) (bound : EndpointId → Bytes → Prop) :
    Prop where
  available : a'.available = a.available
  row : ∀ id, a'.row? id = (a.row? id).map (·.addPuts (puts id))
  keeps : ∀ {c k}, (a.value? c k).isSome = true → (a'.value? c k).isSome = true
  binds : ∀ {id r k}, a.row? id = some r → bound id k → (a'.value? r.cache k).isSome = true

namespace Wrote

variable {a a' a'' : Account} {puts puts' : EndpointId → Nat}
  {bound bound' : EndpointId → Bytes → Prop}

theorem refl (a : Account) : Wrote a a (fun _ => 0) fun _ _ => False where
  available := rfl
  row id := by cases a.row? id <;> rfl
  keeps h := h
  binds _ h := h.elim

theorem row_some (w : Wrote a a' puts bound) {id : EndpointId} {r : Row}
    (hr : a.row? id = some r) :
    a'.row? id = some (r.addPuts (puts id)) := by
  rw [w.row, hr]
  rfl

theorem trans (w : Wrote a a' puts bound) (w' : Wrote a' a'' puts' bound') :
    Wrote a a'' (fun id => puts id + puts' id) fun id k => bound id k ∨ bound' id k where
  available := w'.available.trans w.available
  row id := by
    rw [w'.row, w.row, Option.map_map]
    cases a.row? id with
    | none => rfl
    | some r => simp [Row.addPuts, Row.count, Nat.add_assoc]
  keeps h := w'.keeps (w.keeps h)
  binds {id r k} hr hk := by
    rcases hk with hk | hk
    · exact w'.keeps (w.binds hr hk)
    · exact w'.binds (r := r.addPuts (puts id)) (w.row_some hr) hk

/-- The same with what has been written told in other words. -/
theorem congr (w : Wrote a a' puts bound) (hputs : ∀ id, puts' id = puts id)
    (hbound : ∀ id k, bound' id k → bound id k) : Wrote a a' puts' bound' where
  available := w.available
  row id := by rw [w.row, hputs]
  keeps := w.keeps
  binds hr hk := w.binds hr (hbound _ _ hk)

theorem cold (w : Wrote a a' puts bound) (h : a.Cold) : a'.Cold := by
  intro id r hr
  rw [w.row] at hr
  obtain ⟨r₀, hr₀, rfl⟩ := Option.map_eq_some_iff.mp hr
  exact h (r := r₀) hr₀

/-- An open row stays open. -/
theorem isOpen (w : Wrote a a' puts bound) {id : EndpointId}
    (h : ∃ r, a.row? id = some r ∧ r.isOpen = true) : ∃ r, a'.row? id = some r ∧ r.isOpen = true := by
  obtain ⟨r, hr, ho⟩ := h
  exact ⟨_, w.row_some hr, ho⟩

end Wrote

variable {a : Account} {f : Fabric}

/-- In a cold book nobody takes over what is written. -/
theorem Cold.row?_write (cold : a.Cold) (c : String) (k v : Bytes) (id : EndpointId) :
    (a.write c k v).row? id = a.row? id := by
  unfold Account.write
  split
  · show Table.get? (Table.mapValues _ a.rows) id = a.rows.get? id
    rw [Table.get?_mapValues]
    cases hr : a.rows.get? id with
    | none => rfl
    | some r =>
        rw [Option.map_some, Row.overwritten, if_neg]
        rw [cold hr]
        exact fun h => Finset.notMem_empty _ h.2
  · rfl

theorem value?_write (ha : a.available = true) (c c' : String) (k k' v : Bytes) :
    (a.write c k v).value? c' k' = if c' = c ∧ k' = k then some v else a.value? c' k' := by
  unfold Account.write
  rw [if_pos ha]
  rfl

/-- A write through an open endpoint of a cold book. -/
theorem wrote_put (cold : a.Cold) (ha : a.available = true) {id : EndpointId}
    (ho : ∃ r, a.row? id = some r ∧ r.isOpen = true) (k v : Bytes) :
    Wrote a (a.put id k v) (fun j => if j = id then 1 else 0) fun j k' => j = id ∧ k' = k := by
  obtain ⟨r, hr, hopen⟩ := ho
  have hrow : ∀ j, (a.update id (·.addPuts 1)).row? j =
      (a.row? j).map (·.addPuts (if j = id then 1 else 0)) := by
    intro j
    rw [row?_update]
    by_cases hj : j = id
    · rw [if_pos hj, if_pos hj, hj]
    · rw [if_neg hj, if_neg hj]
      cases a.row? j <;> rfl
  have hcold : (a.update id (·.addPuts 1)).Cold := by
    intro j r' hr'
    rw [hrow] at hr'
    obtain ⟨r₀, hr₀, rfl⟩ := Option.map_eq_some_iff.mp hr'
    exact cold (r := r₀) hr₀
  have hput : a.put id k v = (a.update id (·.addPuts 1)).write r.cache k v := by
    unfold Account.put
    rw [hr]
    exact if_pos hopen
  have ha' : (a.update id (·.addPuts 1)).available = true := ha
  rw [hput]
  -- the write counts for its endpoint, and then changes nothing but the store
  refine ⟨?_, fun j => ?_, fun {c k'} h => ?_, fun {j r' k'} hr' hj => ?_⟩
  · unfold Account.write
    split <;> rfl
  · rw [hcold.row?_write, hrow]
  · rw [value?_write ha']
    split
    · rfl
    · exact h
  · obtain ⟨rfl, rfl⟩ := hj
    rw [hr] at hr'
    cases hr'
    rw [value?_write ha', if_pos ⟨rfl, rfl⟩]
    rfl

/-- Something that was done with a fabric has succeeded, and a book is right about the outcome. -/
structure Passes (f : Fabric) (a' : Account) (r : Outcome Unit × Fabric) : Prop where
  ok : r.1 = .ok ()
  serves : f.Serves r.2
  settled : r.2.Settled
  fits : Fits a' r.2

theorem Passes.after {f₁ : Fabric} {a' : Account} {r : Outcome Unit × Fabric}
    (h : Passes f₁ a' r) (serves : f.Serves f₁) : Passes f a' r :=
  { h with serves := serves.trans h.serves }

theorem Passes.eq_ok {a' : Account} {r : Outcome Unit × Fabric} (h : Passes f a' r) :
    r = (.ok (), r.2) :=
  Prod.ext h.ok rfl

/-- What has succeeded has an answer. -/
theorem eq_ok_of_isOk {α : Type} {r : Outcome α × Fabric} (h : r.1.isOk = true) :
    ∃ x, r = (.ok x, r.2) := by
  obtain ⟨result, f₁⟩ := r
  cases result with
  | error e => cases h
  | ok x => exact ⟨x, rfl⟩

/-- Writes through an open endpoint succeed. -/
theorem putEach_passes (id : EndpointId) (entries : List (Bytes × Bytes)) :
    ∀ {a : Account} {f : Fabric}, Fits a f → f.Settled → a.Cold → a.available = true →
      (∃ r, a.row? id = some r ∧ r.isOpen = true) →
      ∃ a', Passes f a' (f.putEach id entries) ∧
        Wrote a a' (fun j => if j = id then entries.length else 0)
          fun j k => j = id ∧ k ∈ entries.map Prod.fst := by
  induction entries with
  | nil =>
      intro a f h hf _ _ _
      refine ⟨a, ⟨rfl, .refl f, hf, h⟩, (Wrote.refl a).congr (fun j => ?_) fun j k hk => ?_⟩
      · exact ite_self 0
      · cases hk.2
  | cons kv rest ih =>
      intro a f h hf cold ha ho
      obtain ⟨k, v⟩ := kv
      obtain ⟨hput, hok⟩ := h.put hf id k v
      have hwrote := wrote_put cold ha ho k v
      obtain ⟨a', hpass, hrest⟩ := ih hput (hf.put id k v) (hwrote.cold cold)
        (hwrote.available.trans ha) (hwrote.isOpen ho)
      refine ⟨a', ?_, (hwrote.trans hrest).congr (fun j => ?_) ?_⟩
      · obtain ⟨r, hr, hopen⟩ := ho
        rw [hr, Option.any_some, hopen, ha] at hok
        obtain ⟨_, hp⟩ := eq_ok_of_isOk hok
        rw [Fabric.putEach, hp]
        exact hpass.after (f.serves_put id k v)
      · by_cases hj : j = id
        · simp [hj, Nat.add_comm]
        · simp [hj]
      · rintro j k' ⟨hj, hk'⟩
        rcases List.mem_cons.mp hk' with rfl | hk'
        · exact Or.inl ⟨hj, rfl⟩
        · exact Or.inr ⟨hj, hk'⟩

/-- The first phase succeeds: all bindings are written through every endpoint. -/
theorem writeEach_passes (keys : Nat) (ids : List EndpointId) :
    ∀ {a : Account} {f : Fabric}, Fits a f → f.Settled → a.Cold → a.available = true →
      (∀ id ∈ ids, ∃ r, a.row? id = some r ∧ r.isOpen = true) →
      ∃ a', Passes f a' (Workload.writeEach f keys ids) ∧
        Wrote a a' (fun j => ids.count j * keys)
          fun j k => j ∈ ids ∧ k ∈ Workload.keyList keys := by
  induction ids with
  | nil =>
      intro a f h hf _ _ _
      refine ⟨a, ⟨rfl, .refl f, hf, h⟩, (Wrote.refl a).congr (fun j => ?_) fun j k hk => ?_⟩
      · exact Nat.zero_mul keys
      · cases hk.1
  | cons id rest ih =>
      intro a f h hf cold ha ho
      obtain ⟨a₁, hfirst, hwrote⟩ := putEach_passes id (Workload.bindings keys).entries h hf cold ha
        (ho id List.mem_cons_self)
      obtain ⟨a', hpass, hrest⟩ := ih hfirst.fits hfirst.settled (hwrote.cold cold)
        (hwrote.available.trans ha) fun j hj => hwrote.isOpen (ho j (List.mem_cons_of_mem _ hj))
      refine ⟨a', ?_, (hwrote.trans hrest).congr (fun j => ?_) ?_⟩
      · rw [Workload.writeEach, Fabric.putAll, hfirst.eq_ok]
        exact hpass.after hfirst.serves
      · rw [Workload.length_bindings, List.count_cons]
        by_cases hj : j = id
        · simp [hj, Nat.add_mul, Nat.add_comm]
        · simp [hj, Ne.symm hj]
      · rintro j k ⟨hj, hk⟩
        rcases List.mem_cons.mp hj with rfl | hj
        · exact Or.inl ⟨rfl, (Workload.keys_bindings_perm keys).mem_iff.mpr hk⟩
        · exact Or.inr ⟨hj, hk⟩

/-! ## A book that is read from -/

theorem update_congr {id : EndpointId} {g g' : Row → Row}
    (h : ∀ r, a.row? id = some r → g r = g' r) : a.update id g = a.update id g' := by
  have hrows : a.rows.alter id (·.map g) = a.rows.alter id (·.map g') := Table.ext_get? fun j => by
    rw [Table.get?_alter, Table.get?_alter]
    split
    · cases hr : a.rows.get? id with
      | none => rfl
      | some r => rw [Option.map_some, Option.map_some, h r hr]
    · rfl
  unfold update
  rw [hrows]

theorem update_update (id : EndpointId) (g g' : Row → Row) :
    (a.update id g).update id g' = a.update id fun r => g' (g r) := by
  have hrows : (a.rows.alter id (·.map g)).alter id (·.map g') =
      a.rows.alter id (·.map fun r => g' (g r)) := Table.ext_get? fun j => by
    simp only [Table.get?_alter, if_true]
    split
    · rw [Option.map_map]
      rfl
    · rfl
  show { a with rows := (a.rows.alter id (·.map g)).alter id (·.map g') } = _
  rw [hrows]
  rfl

/-- The keys have values in the cache of an open row. -/
def Readable (a : Account) (id : EndpointId) (ks : List Bytes) : Prop :=
  ∃ r, a.row? id = some r ∧ r.isOpen = true ∧ ∀ k ∈ ks, (a.value? r.cache k).isSome = true

/-- Reads through an open endpoint of keys that have values succeed. -/
theorem readKeys_passes (id : EndpointId) (ks : List Bytes) :
    ∀ {a : Account} {f : Fabric}, Fits a f → f.Settled → a.available = true →
      a.Readable id ks → Passes f (a.update id (·.reads ks)) (Workload.readKeys f id ks) := by
  induction ks with
  | nil =>
      intro a f h hf _ _
      have hsame : a.update id (·.reads []) = a := update_eq_self fun _ _ => rfl
      refine ⟨rfl, .refl f, hf, ?_⟩
      rw [hsame]
      exact h
  | cons k ks ih =>
      intro a f h hf ha hread
      obtain ⟨r, hr, hopen, hvalues⟩ := hread
      obtain ⟨hget, hok⟩ := h.get hf id k
      have hrow : a.get id k = a.update id (·.read true true k) := update_congr fun r' hr' => by
        rw [hr] at hr'
        cases hr'
        rw [ha, hvalues k List.mem_cons_self]
      rw [hrow] at hget
      have hread' : (a.update id (·.read true true k)).Readable id ks := by
        refine ⟨r.read true true k, ?_, (r.isOpen_read k).trans hopen, fun k' hk' => ?_⟩
        · rw [row?_update, if_pos rfl, hr]
          rfl
        · rw [r.cache_read k]
          exact hvalues k' (List.mem_cons_of_mem _ hk')
      have hpass := ih hget (hf.get id k) ha hread'
      rw [update_update] at hpass
      rw [hr, Option.any_some, Row.answers, hopen, ha, Bool.or_true] at hok
      obtain ⟨_, hg⟩ := eq_ok_of_isOk hok
      rw [Workload.readKeys, hg]
      exact hpass.after (f.reads_get id k).toServes

/-- The second phase succeeds: every endpoint reads the schedule, for itself. -/
theorem readEach_passes (keys rounds : Nat) (ids : List EndpointId) :
    ∀ {a : Account} {f : Fabric}, Fits a f → f.Settled → a.available = true → ids.Nodup →
      (∀ id ∈ ids, a.Readable id (Workload.schedule keys rounds)) →
      ∃ a', Passes f a' (Workload.readEach f keys rounds ids) ∧
        ∀ id, a'.row? id = if id ∈ ids then
          (a.row? id).map (·.reads (Workload.schedule keys rounds)) else a.row? id := by
  induction ids with
  | nil =>
      intro a f h hf _ _ _
      exact ⟨a, ⟨rfl, .refl f, hf, h⟩, fun id => rfl⟩
  | cons id rest ih =>
      intro a f h hf ha hnodup hread
      obtain ⟨hnew, hnodup⟩ := List.nodup_cons.mp hnodup
      have hfirst := readKeys_passes id (Workload.schedule keys rounds) h hf ha
        (hread id List.mem_cons_self)
      have hrow : ∀ j, j ≠ id →
          (a.update id (·.reads (Workload.schedule keys rounds))).row? j = a.row? j := by
        intro j hj
        rw [row?_update, if_neg hj]
      obtain ⟨a', hpass, hrest⟩ := ih hfirst.fits hfirst.settled ha hnodup fun j hj => by
        obtain ⟨r, hr, hopen, hvalues⟩ := hread j (List.mem_cons_of_mem _ hj)
        have hne : j ≠ id := fun heq => hnew (heq ▸ hj)
        exact ⟨r, by rw [hrow j hne, hr], hopen, hvalues⟩
      refine ⟨a', ?_, fun j => ?_⟩
      · rw [Workload.readEach, hfirst.eq_ok]
        exact hpass.after hfirst.serves
      · rw [hrest]
        by_cases hj : j = id
        · subst hj
          rw [if_neg hnew, if_pos List.mem_cons_self, row?_update, if_pos rfl]
        · rw [hrow j hj]
          simp [hj]

end Account

end NearCache
