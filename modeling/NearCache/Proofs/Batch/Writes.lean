import NearCache.Proofs.Batch.Reads
import NearCache.Proofs.Batch.Undated

/-!
# Writes in any order

Every write is announced to all near caches of its cache, and takes the next version. Which version
a key gets depends on when it is written; everything else depends on the key alone. Without the
versions a write is an `overwrite`: the store puts the value into the slot of the key, and every
near cache that has an entry for the key puts the value into that. This is so because an announced
version is later than all that a near cache has seen (`Endpoint.undated_hear`, by coherence).

Overwriting is indifferent to the order of keys (`Fabric.overwrite_comm`), so a batch of writes to
different keys is, too, but for the versions (`Fabric.putEach_perm`). The versions themselves are
handed out in the order of the batch: `Fabric.current?_putEach`.
-/

namespace NearCache

/-! ## The store -/

namespace Store

variable {L : Type}

/-- A store that gives a key another value, without looking at versions. -/
def overwrite (s : Store L) (cache : String) (key value : Bytes) : Store L :=
  { s with
    data := s.data.insert cache (((s.data.get? cache).getD ∅).insert key ⟨some value, 0⟩)
    lastVersion := s.lastVersion + 1
    writes := s.writes + 1
    notifications := s.notifications + (s.listeners cache).length }

/-- A write that is announced is an overwriting without its version. -/
theorem undated_write (s : Store L) (c : String) (k v : Bytes) :
    ((s.write c k v).2.announce (s.write c k v).1).2.undated = s.undated.overwrite c k v := by
  have hslots : ((s.data.get? c).getD ∅).mapValues Slot.undated =
      ((s.data.mapValues (Table.mapValues Slot.undated)).get? c).getD ∅ := by
    rw [Table.get?_mapValues]
    cases s.data.get? c <;> rfl
  simp only [write, announce, setSlot, overwrite, undated, Table.mapValues_insert, hslots]
  rfl

theorem overwrite_comm (s : Store L) (c : String) {j k : Bytes} (hne : j ≠ k) (v w : Bytes) :
    (s.overwrite c k v).overwrite c j w = (s.overwrite c j w).overwrite c k v := by
  have hdata : ∀ (k j : Bytes) (v w : Bytes), ((s.overwrite c k v).overwrite c j w).data =
      s.data.insert c
        ((((s.data.get? c).getD ∅).insert k ⟨some v, 0⟩).insert j ⟨some w, 0⟩) := by
    intro k j v w
    refine Table.ext_get? fun i => ?_
    simp only [overwrite, Table.get?_insert]
    split <;> simp
  have hboth : ((s.overwrite c k v).overwrite c j w).data =
      ((s.overwrite c j w).overwrite c k v).data := by
    rw [hdata, hdata, Table.insert_comm _ hne]
  simp only [overwrite] at hboth ⊢
  rw [hboth]
  rfl

end Store

/-! ## One endpoint -/

namespace Front

variable {f : Front} {k : Bytes}

theorem apply_unknown (h : f.cell? k = none) (x : Versioned) : f.apply k (.put x) = (false, f) := by
  have hself := f.set_self k
  rw [h] at hself
  unfold apply step
  rw [h]
  exact congrArg (Prod.mk false) hself

theorem apply_known {en : Entry} (h : f.cell? k = some en) {x : Versioned}
    (hlt : en.version < x.version) :
    f.apply k (.put x) = (true, f.set k (some ⟨some x.value, x.version, en.loads⟩)) := by
  unfold apply step
  rw [h]
  simp [Entry.apply, Entry.update, hlt]

end Front

namespace Endpoint

/-- An endpoint whose near cache gives a key that it has an entry for another value, without looking
at versions. -/
def overwrite (key value : Bytes) (e : Endpoint) : Endpoint :=
  match e.front with
  | none => e
  | some front =>
    match front.cell? key with
    | none => e
    | some en =>
      { e with front := some (front.set key (some { en with value := some value })) }.count fun c =>
        { c with invalidations := c.invalidations + 1 }

/-- A write that is announced under a version later than all before is an overwriting without its
version. -/
theorem undated_hear {e : Endpoint} {c : String} {k : Bytes} {x : Versioned}
    (hnew : ∀ {front en}, e.front = some front → front.cell? k = some en → en.version < x.version) :
    (e.hear ⟨c, k, .put x⟩).undated = e.undated.overwrite k x.value := by
  cases hf : e.front with
  | none => simp [hear, undated, overwrite, hf]
  | some front =>
      cases hc : front.cell? k with
      | none => simp [hear, undated, overwrite, hf, hc, Front.apply_unknown hc]
      | some en =>
          simp [hear, undated, overwrite, hf, hc, Front.apply_known hc (hnew hf hc), count,
            Front.undated_set, Front.Entry.undated]

@[simp] theorem closed_overwrite (k v : Bytes) (e : Endpoint) :
    (e.overwrite k v).closed = e.closed := by
  unfold overwrite
  split
  · rfl
  · split <;> rfl

@[simp] theorem config_overwrite (k v : Bytes) (e : Endpoint) :
    (e.overwrite k v).config = e.config := by
  unfold overwrite
  split
  · rfl
  · split <;> rfl

theorem overwrite_comm (e : Endpoint) {j k : Bytes} (hne : j ≠ k) (v w : Bytes) :
    (e.overwrite k v).overwrite j w = (e.overwrite j w).overwrite k v := by
  cases hf : e.front with
  | none => simp [overwrite, hf]
  | some front =>
      cases hk : front.cell? k with
      | none =>
          cases hj : front.cell? j with
          | none => simp [overwrite, hf, hk, hj]
          | some en => simp [overwrite, hf, hk, hj, count, Front.cell?_set, hne.symm]
      | some en =>
          cases hj : front.cell? j with
          | none => simp [overwrite, hf, hk, hj, count, Front.cell?_set, hne]
          | some en' =>
              have hgains : ∀ (old : Option Front.Entry) (en : Front.Entry) (v : Bytes),
                  Front.Entry.Gains old (some { en with value := some v }) := fun _ _ _ _ => rfl
              simp [overwrite, hf, hk, hj, count, Front.cell?_set, hne, hne.symm,
                Front.set_comm hne (hgains _ en v) (hgains _ en' w)]

/-- An endpoint when a binding of a cache is overwritten. -/
def told (name : String) (b : Bytes × Bytes) (e : Endpoint) : Endpoint :=
  if e.closed = none ∧ e.name = name then e.overwrite b.1 b.2 else e

theorem told_comm (e : Endpoint) (name : String) {a b : Bytes × Bytes} (hne : a.1 ≠ b.1) :
    (e.told name b).told name a = (e.told name a).told name b := by
  unfold told
  by_cases h : e.closed = none ∧ e.name = name
  · have hname : e.config.name = name := h.2
    simp [h, Endpoint.name, hname, e.overwrite_comm hne]
  · simp only [if_neg h]

/-- An endpoint when a write is asked for, which it counts if it is the one that is asked. -/
def charge (mine : Prop) [Decidable mine] (e : Endpoint) : Endpoint :=
  if mine then e.count fun c => { c with puts := c.puts + 1 } else e

variable {mine : Prop} [Decidable mine]

theorem undated_charge (e : Endpoint) : (e.charge mine).undated = e.undated.charge mine := by
  unfold charge
  split <;> rfl

theorem told_charge (e : Endpoint) (name : String) (b : Bytes × Bytes) :
    (e.charge mine).told name b = (e.told name b).charge mine := by
  by_cases h : mine
  · by_cases ho : e.closed = none ∧ e.config.name = name
    · cases hf : e.front with
      | none => simp [charge, told, Endpoint.name, overwrite, count, h, ho, hf]
      | some front =>
          cases hc : front.cell? b.1 <;>
            simp [charge, told, Endpoint.name, overwrite, count, h, ho, hf, hc]
    · simp [charge, told, Endpoint.name, count, h, ho]
  · simp [charge, h]

end Endpoint

/-! ## A fabric -/

namespace Fabric

variable {f : Fabric} {id : EndpointId} {held : Table Nat HeldRead}

/-- A fabric in which a binding of a cache is overwritten through an endpoint. -/
def overwrite (id : EndpointId) (name : String) (f : Fabric) (b : Bytes × Bytes) : Fabric where
  store := f.store.overwrite name b.1 b.2
  endpoints :=
    (f.count id fun c => { c with puts := c.puts + 1 }).endpoints.mapValues (·.told name b)
  started := f.started

theorem endpoint?_charge (f : Fabric) (id j : EndpointId) :
    (f.count id fun c => { c with puts := c.puts + 1 }).endpoint? j =
      (f.endpoint? j).map (Endpoint.charge (j = id)) := by
  rw [count, endpoint?_update]
  unfold Endpoint.charge
  by_cases hj : j = id
  · simp [hj]
  · simp [hj]

theorem endpoint?_overwrite (f : Fabric) (id : EndpointId) (name : String) (b : Bytes × Bytes)
    (j : EndpointId) :
    (f.overwrite id name b).endpoint? j =
      (f.endpoint? j).map fun e => (e.charge (j = id)).told name b := by
  have hmap : (f.overwrite id name b).endpoint? j =
      ((f.count id fun c => { c with puts := c.puts + 1 }).endpoint? j).map (·.told name b) :=
    Table.get?_mapValues _ _ _
  rw [hmap, endpoint?_charge, Option.map_map]
  rfl

theorem overwrite_comm (f : Fabric) (id : EndpointId) (name : String) {a b : Bytes × Bytes}
    (hne : a.1 ≠ b.1) :
    (f.overwrite id name b).overwrite id name a = (f.overwrite id name a).overwrite id name b := by
  refine ext_endpoints (f.store.overwrite_comm name hne b.2 a.2) rfl fun j => ?_
  simp only [endpoint?_overwrite, Option.map_map]
  refine congrArg (Option.map · _) (funext fun e => ?_)
  simp only [Function.comp_def, Endpoint.told_charge, e.told_comm name hne]

/-! ## Writes -/

/-- What a write that reaches the store leaves in the store. -/
theorem put_accepted {e : Endpoint} (hs : f.serving id = .ok e) (ha : f.store.available = true)
    (k v : Bytes) :
    (f.put id k v).1 = .ok () ∧ (f.put id k v).2.store =
      ((f.store.write e.name k v).2.announce (f.store.write e.name k v).1).2 := by
  rw [put_eq, hs]
  simp only [Store.reach, ha, if_true]
  exact ⟨trivial, store_tell _ _⟩

/-- The next write reaches the store, too. -/
theorem serving_put {e : Endpoint} (hs : f.serving id = .ok e) (ha : f.store.available = true)
    (k v : Bytes) :
    (f.put id k v).2.store.available = true ∧
      ∃ e', (f.put id k v).2.serving id = .ok e' ∧ e'.name = e.name := by
  obtain ⟨he, ho⟩ := serving_eq_ok_iff.mp hs
  obtain ⟨e', he', hframe⟩ := (serves_put f id k v).keeps he
  obtain ⟨-, hconfig, -, -, -, hclosed⟩ := Endpoint.eq_of_frame_eq hframe
  obtain ⟨-, hstore⟩ := put_accepted hs ha k v
  refine ⟨?_, e', serving_eq_ok_iff.mpr ⟨he', hclosed.trans ho⟩, Endpoint.name_of_config hconfig⟩
  rw [hstore]
  exact ha

/-- What it leaves of an endpoint: the one that asks counts it, and all open ones of the cache
hear of it. -/
theorem endpoint?_put (hw : f.Wired) {e : Endpoint} (hs : f.serving id = .ok e)
    (ha : f.store.available = true) (k v : Bytes) {j : EndpointId} {e' : Endpoint}
    (he : (f.count id fun c => { c with puts := c.puts + 1 }).endpoint? j = some e') :
    (f.put id k v).2.endpoint? j =
      some (if e'.closed = none ∧ e'.name = e.name then
        e'.hear ⟨e.name, k, .put ⟨v, f.store.lastVersion + 1⟩⟩ else e') := by
  have hserves : f.Serves { f.count id fun c => { c with puts := c.puts + 1 } with
      store := (f.store.write e.name k v).2 } :=
    (Serves.count f id _).trans (Serves.withStore rfl rfl (Store.Advances.write f.store e.name k v))
  rw [put_eq, hs]
  simp only [Store.reach, ha, if_true]
  exact (hw.serves hserves).endpoint?_tell he _

/-- **A write is an overwriting, but for its version.** -/
theorem undated_put (h : f.Coherent held) (hw : f.Wired) {e : Endpoint} (hs : f.serving id = .ok e)
    (ha : f.store.available = true) (k v : Bytes) :
    (f.put id k v).2.undated = f.undated.overwrite id e.name (k, v) := by
  obtain ⟨-, hstore⟩ := put_accepted hs ha k v
  refine ext_endpoints ?_ ?_ fun j => ?_
  · show (f.put id k v).2.store.undated = f.store.undated.overwrite e.name k v
    rw [hstore, Store.undated_write]
  · exact (serves_put f id k v).started
  · rw [endpoint?_undated, endpoint?_overwrite, endpoint?_undated]
    cases he : f.endpoint? j with
    | none =>
        have hframe := (serves_put f id k v).frame j
        rw [he] at hframe
        simp [Option.map_eq_none_iff.mp hframe]
    | some e' =>
        have hcharged := f.endpoint?_charge id j
        rw [he, Option.map_some] at hcharged
        rw [endpoint?_put hw hs ha k v hcharged, Option.map_some, Option.map_some, Option.map_some,
          ← Endpoint.undated_charge]
        generalize e'.charge (j = id) = e'' at hcharged ⊢
        refine congrArg some ?_
        show _ = if e''.closed = none ∧ e''.name = e.name then e''.undated.overwrite k v
          else e''.undated
        split
        · next hopen =>
          -- no version that the near cache has seen is later than the last one given out
          refine Endpoint.undated_hear fun hf hcell => ?_
          have hold := ((h.count id _).cell hcharged hopen.1 hf k).old hcell
          exact Nat.lt_succ_of_le hold
        · rfl

/-! ## Batches -/

/-- An accepted batch goes on with its next binding. -/
theorem putEach_cons {e : Endpoint} (hs : f.serving id = .ok e) (ha : f.store.available = true)
    (k v : Bytes) (rest : List (Bytes × Bytes)) :
    f.putEach id ((k, v) :: rest) = (f.put id k v).2.putEach id rest := by
  obtain ⟨hok, -⟩ := put_accepted hs ha k v
  rw [putEach]
  cases hp : f.put id k v with
  | mk r f' =>
      rw [hp] at hok
      cases hok
      rfl

/-- A batch that reaches the store is carried out, and is a series of overwritings but for the
versions. -/
theorem putEach_accepted (l : List (Bytes × Bytes)) :
    ∀ {f : Fabric} {e : Endpoint}, f.Coherent held → f.Wired → f.serving id = .ok e →
      f.store.available = true →
      (f.putEach id l).1 = .ok () ∧
        (f.putEach id l).2.undated = l.foldl (overwrite id e.name) f.undated := by
  induction l with
  | nil => intro f e _ _ _ _; exact ⟨rfl, rfl⟩
  | cons b rest ih =>
      intro f e h hw hs ha
      obtain ⟨k, v⟩ := b
      obtain ⟨ha', e', hs', hname⟩ := serving_put hs ha k v
      obtain ⟨hok, hundated⟩ := ih (h.put hw id k v) (hw.serves (serves_put f id k v)) hs' ha'
      rw [putEach_cons hs ha]
      refine ⟨hok, ?_⟩
      rw [hundated, hname, List.foldl_cons, ← undated_put h hw hs ha]

/-- A batch that does not reach the store fails with its first binding, if it has one. -/
theorem putEach_refused (h : ∀ e, f.serving id = .ok e → f.store.available = false) :
    ∃ failed, ∀ l : List (Bytes × Bytes),
      f.putEach id l = if l.length = 0 then (.ok (), f) else failed := by
  cases hs : f.serving id with
  | error err =>
      refine ⟨(.error err, f), fun l => ?_⟩
      cases l with
      | nil => rfl
      | cons b rest => simp [putEach, put_eq, hs]
  | ok e =>
      refine ⟨(.error (.storeUnavailable e.name "store unreachable"),
        f.count id fun c => { c with puts := c.puts + 1 }), fun l => ?_⟩
      cases l with
      | nil => rfl
      | cons b rest => simp [putEach, put_eq, hs, Store.reach, h e hs]

/-- **The order in which a batch is written shows in nothing but the versions.** -/
theorem putEach_perm (id : EndpointId) (h : f.Coherent held) (hw : f.Wired)
    {l l' : List (Bytes × Bytes)} (hp : l.Perm l') (distinct : (l.map Prod.fst).Nodup) :
    (f.putEach id l).1 = (f.putEach id l').1 ∧
      (f.putEach id l).2.undated = (f.putEach id l').2.undated := by
  by_cases haccepted : ∃ e, f.serving id = .ok e ∧ f.store.available = true
  · obtain ⟨e, hs, ha⟩ := haccepted
    obtain ⟨hok, hundated⟩ := putEach_accepted l h hw hs ha
    obtain ⟨hok', hundated'⟩ := putEach_accepted l' h hw hs ha
    refine ⟨hok.trans hok'.symm, ?_⟩
    rw [hundated, hundated']
    refine hp.foldl_eq' (fun a ha b hb g => ?_) _
    by_cases hne : b.1 = a.1
    · rw [List.inj_on_of_nodup_map distinct hb ha hne]
    · exact g.overwrite_comm id e.name hne
  · have hrefused : ∀ e, f.serving id = .ok e → f.store.available = false := by
      intro e hs
      exact Bool.eq_false_iff.mpr fun ha => haccepted ⟨e, hs, ha⟩
    obtain ⟨failed, hfailed⟩ := putEach_refused hrefused
    rw [hfailed, hfailed, hp.length_eq]
    exact ⟨rfl, rfl⟩

/-! ## Versions -/

/-- What a batch does not write stays. -/
theorem current?_putEach_of_notMem (l : List (Bytes × Bytes)) :
    ∀ {f : Fabric} {e : Endpoint}, f.serving id = .ok e → f.store.available = true →
      ∀ {c k}, (c = e.name → k ∉ l.map Prod.fst) →
        (f.putEach id l).2.store.current? c k = f.store.current? c k := by
  induction l with
  | nil => intro f e _ _ c k _; rfl
  | cons b rest ih =>
      intro f e hs ha c k hnot
      obtain ⟨j, v⟩ := b
      obtain ⟨ha', e', hs', hname⟩ := serving_put hs ha j v
      obtain ⟨-, hstore⟩ := put_accepted hs ha j v
      have hrest : c = e'.name → k ∉ rest.map Prod.fst := fun hc hmem =>
        hnot (hc.trans hname) (List.mem_cons_of_mem _ hmem)
      rw [putEach_cons hs ha, ih hs' ha' hrest, hstore]
      show (f.store.write e.name j v).2.current? c k = _
      rw [Store.current?_write, if_neg]
      rintro ⟨hc, rfl⟩
      exact hnot hc List.mem_cons_self

/-- The versions of a batch follow each other in the order in which it is written. -/
theorem current?_putEach (l : List (Bytes × Bytes)) :
    ∀ {f : Fabric} {e : Endpoint}, f.serving id = .ok e → f.store.available = true →
      (l.map Prod.fst).Nodup → ∀ {i k v}, l[i]? = some (k, v) →
        (f.putEach id l).2.store.current? e.name k = some ⟨v, f.store.lastVersion + i + 1⟩ := by
  induction l with
  | nil => intro f e _ _ _ i k v hi; cases hi
  | cons b rest ih =>
      intro f e hs ha distinct i k v hi
      obtain ⟨j, w⟩ := b
      obtain ⟨hnew, distinct⟩ := List.nodup_cons.mp distinct
      obtain ⟨ha', e', hs', hname⟩ := serving_put hs ha j w
      obtain ⟨-, hstore⟩ := put_accepted hs ha j w
      rw [putEach_cons hs ha]
      cases i with
      | zero =>
          cases hi
          rw [current?_putEach_of_notMem rest hs' ha' fun _ => hnew, hstore]
          show (f.store.write e.name k v).2.current? e.name k = _
          rw [Store.current?_write, if_pos ⟨rfl, rfl⟩]
      | succ i =>
          have hlater := ih hs' ha' distinct hi
          have hlast : (f.put id j w).2.store.lastVersion = f.store.lastVersion + 1 := by
            rw [hstore]
            rfl
          rw [hname, hlast] at hlater
          rw [hlater, Nat.add_right_comm _ 1 i, Nat.add_assoc _ i 1]

end Fabric

end NearCache
