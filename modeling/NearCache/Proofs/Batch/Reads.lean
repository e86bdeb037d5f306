import NearCache.Proofs.Coherence.Reading
import NearCache.Proofs.Front.Register

/-!
# Reads in any order

A read of a key can change the near cache that it goes through, and what it changes depends on what
the near cache holds. All this concerns the one key: reads of two different keys do not notice each
other (`Fabric.get_comm`), whether the near cache has the keys, whether the store has them, and
whether it can be reached.

So a batch of reads that no read interrupts by failing may be read in any order
(`Fabric.getAll_perm`). Keys that are listed more than once do no harm, for a read commutes with
itself.
-/

namespace NearCache

/-! ## Two entries -/

/-- Two bindings may be changed one after the other in any order. -/
theorem Table.alter_comm {κ ν : Type} [LT κ] [DecidableEq κ] [DecidableLT κ] [Key κ]
    (t : Table κ ν) {j k : κ} (hne : j ≠ k) (a b : Option ν) :
    (t.alter k fun _ => a).alter j (fun _ => b) = (t.alter j fun _ => b).alter k fun _ => a := by
  refine Table.ext_get? fun i => ?_
  simp only [Table.get?_alter]
  split
  · next hj => rw [if_neg (hj ▸ hne)]
  · rfl

/-- Two keys may be bound one after the other in any order. -/
theorem Table.insert_comm {κ ν : Type} [LT κ] [DecidableEq κ] [DecidableLT κ] [Key κ]
    (t : Table κ ν) {j k : κ} (hne : j ≠ k) (a b : ν) :
    (t.insert k a).insert j b = (t.insert j b).insert k a := by
  refine Table.ext_get? fun i => ?_
  simp only [Table.get?_insert]
  split
  · next hj => rw [if_neg (hj ▸ hne)]
  · rfl

namespace Front

/-- A value that an entry has is not lost in another one. -/
def Entry.Gains (old new : Option Entry) : Prop := Entry.isLive old = true → Entry.isLive new = true

/-- The count of values goes up by one where an entry gets its first value, and never down. -/
theorem recount_of_gains {old new : Option Entry} (h : Entry.Gains old new) (n : Nat) :
    recount n old new =
      n + if Entry.isLive old = false ∧ Entry.isLive new = true then 1 else 0 := by
  unfold recount
  cases hold : Entry.isLive old with
  | true => simp [h hold]
  | false => cases Entry.isLive new <;> simp

/-- Two entries may be replaced one after the other in any order. -/
theorem set_comm {f : Front} {j k : Bytes} {a b : Option Entry} (hne : j ≠ k)
    (ha : Entry.Gains (f.cell? k) a) (hb : Entry.Gains (f.cell? j) b) :
    (f.set k a).set j b = (f.set j b).set k a := by
  have hj : (f.set k a).cell? j = f.cell? j := by rw [cell?_set, if_neg hne]
  have hk : (f.set j b).cell? k = f.cell? k := by rw [cell?_set, if_neg hne.symm]
  refine congrArg₂ Front.mk ?_ ?_
  · by_cases hs : shardOf j = shardOf k
    · have hshards := f.shards[shardOf k].alter_comm hne a b
      simp only [set, hs, Fin.getElem_fin, Vector.getElem_set_self, Vector.set_set] at hshards ⊢
      rw [hshards]
    · have hval : (shardOf k).val ≠ (shardOf j).val := fun h => hs (Fin.ext h.symm)
      simp only [set, Fin.getElem_fin, Vector.getElem_set_ne _ _ hval,
        Vector.getElem_set_ne _ _ hval.symm]
      exact Vector.set_comm _ _ hval
  · rw [hj, hk]
    show recount (recount f.live (f.cell? k) a) (f.cell? j) b =
      recount (recount f.live (f.cell? j) b) (f.cell? k) a
    simp only [recount_of_gains ha, recount_of_gains hb]
    exact Nat.add_right_comm _ _ _

/-- A key that is looked up in vain has no value. -/
theorem isLive_of_get? {f : Front} {k : Bytes} (h : f.get? k = none) :
    Entry.isLive (f.cell? k) = false := by
  unfold get? at h
  cases hc : f.cell? k with
  | none => rfl
  | some en =>
      rw [hc] at h
      exact Option.isSome_eq_false_iff.mpr (Option.isNone_iff_eq_none.mpr h)

/-- A read of a key without a value that goes to the store and back replaces the entry of the
key. -/
theorem finishLoad_beginLoad_eq_set {f : Front} {k : Bytes} (h : f.get? k = none)
    (fetched : Option Versioned) :
    ((f.beginLoad k).finishLoad k fetched).2 =
      f.set k (Entry.settle fetched (Entry.load (f.cell? k))).1 := by
  have hbegun : (f.beginLoad k).cell? k = Entry.load (f.cell? k) := by
    rw [beginLoad, cell?_set, if_pos rfl]
  have hcounts : Entry.isLive (f.cell? k) = true → 0 < f.live := by
    rw [isLive_of_get? h]
    exact fun hfalse => Bool.noConfusion hfalse
  show (f.beginLoad k).set k (Entry.settle fetched ((f.beginLoad k).cell? k)).1 = _
  rw [hbegun]
  exact set_set (recount_recount hcounts _ _)

end Front

/-! ## Reads of one endpoint -/

namespace Endpoint

variable {e : Endpoint} {j k : Bytes}

/-- What a read of a key is told. -/
def answer (s : Store EndpointId) (key : Bytes) (e : Endpoint) : Outcome (Option Bytes) :=
  match e.local? key with
  | some v => .ok (some v)
  | none =>
    if s.available then .ok ((s.current? e.name key).map (·.value))
    else .error (.storeUnavailable e.name "store unreachable")

/-- Whether a read of a key is answered by the store. -/
def asks (s : Store EndpointId) (key : Bytes) (e : Endpoint) : Bool :=
  (e.local? key).isNone && s.available

/-- What is counted of a read that goes to the store. -/
def missed (s : Store EndpointId) (c : Counters) : Counters :=
  { c with gets := c.gets + 1, remoteGets := c.remoteGets + if s.available then 1 else 0 }

/-- The endpoint after a read of a key. -/
def reading (s : Store EndpointId) (key : Bytes) (e : Endpoint) : Endpoint :=
  match e.local? key with
  | some _ => e.count fun c => { c with gets := c.gets + 1, hits := c.hits + 1 }
  | none => (e.load key (if s.available then s.current? e.name key else none)).count (missed s)

theorem local?_load_of_ne (hne : j ≠ k) (fetched : Option Versioned) :
    (e.load k fetched).local? j = e.local? j := by
  unfold local? load
  cases e.front with
  | none => rfl
  | some front => simp [Front.get?, Front.finishLoad, Front.beginLoad, Front.cell?_step,
      Front.cell?_set, hne]

/-- Reads of different keys that go to the store and back may come in any order. -/
theorem load_comm (hne : j ≠ k) (hj : e.local? j = none) (hk : e.local? k = none)
    (x y : Option Versioned) : (e.load k x).load j y = (e.load j y).load k x := by
  have hjk := (local?_load_of_ne hne x).trans hj
  have hkj := (local?_load_of_ne hne.symm y).trans hk
  unfold local? load at *
  cases hf : e.front with
  | none => simp
  | some front =>
      simp only [hf, Option.map_some, Option.bind_some] at hj hk hjk hkj ⊢
      have hgains : ∀ {i new}, front.get? i = none → Front.Entry.Gains (front.cell? i) new := by
        intro i new hi hlive
        rw [Front.isLive_of_get? hi] at hlive
        cases hlive
      rw [Front.finishLoad_beginLoad_eq_set hjk, Front.finishLoad_beginLoad_eq_set hkj,
        Front.finishLoad_beginLoad_eq_set hk, Front.finishLoad_beginLoad_eq_set hj, Front.cell?_set,
        Front.cell?_set, if_neg hne, if_neg hne.symm, Front.set_comm hne (hgains hk) (hgains hj)]

variable {s : Store EndpointId}

theorem reading_hit {v : Bytes} (h : e.local? k = some v) :
    e.reading s k = e.count fun c => { c with gets := c.gets + 1, hits := c.hits + 1 } := by
  simp only [reading, h]

theorem reading_miss (h : e.local? k = none) :
    e.reading s k =
      (e.load k (if s.available then s.current? e.name k else none)).count (missed s) := by
  simp only [reading, h]

@[simp] theorem config_reading (s : Store EndpointId) (k : Bytes) (e : Endpoint) :
    (e.reading s k).config = e.config := by
  unfold reading
  split <;> rfl

@[simp] theorem closed_reading (s : Store EndpointId) (k : Bytes) (e : Endpoint) :
    (e.reading s k).closed = e.closed := by
  unfold reading
  split <;> rfl

theorem local?_reading_of_ne (hne : j ≠ k) : (e.reading s k).local? j = e.local? j := by
  unfold reading
  split
  · rfl
  · exact local?_load_of_ne hne _

theorem answer_reading_of_ne (hne : j ≠ k) : (e.reading s k).answer s j = e.answer s j := by
  simp only [answer, local?_reading_of_ne hne, name, config_reading]

theorem asks_reading_of_ne (hne : j ≠ k) : (e.reading s k).asks s j = e.asks s j := by
  simp only [asks, local?_reading_of_ne hne]

/-- Reads of different keys may come in any order. -/
theorem reading_comm (hne : j ≠ k) :
    (e.reading s k).reading s j = (e.reading s j).reading s k := by
  have hjk : (e.reading s k).local? j = e.local? j := local?_reading_of_ne hne
  have hkj : (e.reading s j).local? k = e.local? k := local?_reading_of_ne hne.symm
  -- each of the two is served by the near cache or goes to the store, whichever comes first
  cases hk : e.local? k with
  | some v =>
      rw [reading_hit (hkj.trans hk)]
      cases hj : e.local? j with
      | some w => rw [reading_hit (hjk.trans hj), reading_hit hk, reading_hit hj]
      | none =>
          rw [reading_miss (hjk.trans hj), reading_hit hk, reading_miss hj]
          rfl
  | none =>
      rw [reading_miss (hkj.trans hk)]
      cases hj : e.local? j with
      | some w =>
          rw [reading_hit (hjk.trans hj), reading_hit hj, reading_miss hk]
          rfl
      | none =>
          rw [reading_miss (hjk.trans hj), reading_miss hk, reading_miss hj]
          exact congrArg (fun e' => (e'.count (missed s)).count (missed s))
            (load_comm hne hj hk _ _)

end Endpoint

/-! ## Reads of a fabric -/

namespace Fabric

variable {f : Fabric} {id : EndpointId}

/-- The store after it was asked, or was not. -/
def asked (f : Fabric) (b : Bool) : Fabric :=
  { f with store := { f.store with reads := f.store.reads + if b then 1 else 0 } }

/-- A read through an open endpoint changes this endpoint, and the store counts it if it is
asked. -/
theorem get_eq {e : Endpoint} (hs : f.serving id = .ok e) (key : Bytes) :
    f.get id key = (e.answer f.store key,
      (f.asked (e.asks f.store key)).update id (·.reading f.store key)) := by
  obtain ⟨he, ho⟩ := serving_eq_ok_iff.mp hs
  cases hv : e.local? key with
  | some v =>
      rw [get_eq_hit he ho hv, Endpoint.answer, hv]
      refine congrArg (Prod.mk _) ?_
      have hasked : f.asked (e.asks f.store key) = f := by simp [asked, Endpoint.asks, hv]
      rw [hasked, count]
      refine update_congr fun e' he' => ?_
      rw [he] at he'
      cases he'
      exact (Endpoint.reading_hit hv).symm
  | none =>
      have hreading : ∀ g : Fabric, g.endpoint? id = some e → g.update id (·.reading f.store key) =
          g.update id fun e' =>
            (e'.load key (if f.store.available then f.store.current? e.name key else none)).count
              (Endpoint.missed f.store) := by
        intro g hg
        refine update_congr fun e' he' => ?_
        rw [hg] at he'
        cases he'
        exact Endpoint.reading_miss hv
      rw [get_eq_miss he ho hv, hreading (f.asked _) he, Endpoint.answer, hv]
      unfold asked Endpoint.asks Endpoint.missed
      cases ha : f.store.available with
      | true => simp [hv]
      | false => simp [hv]

/-- What a read through an open endpoint leaves of this endpoint and of the store. -/
theorem serving_get {e : Endpoint} (hs : f.serving id = .ok e) (key : Bytes) :
    (f.get id key).2.serving id = .ok (e.reading f.store key) := by
  obtain ⟨he, ho⟩ := serving_eq_ok_iff.mp hs
  refine serving_eq_ok_iff.mpr ⟨?_, (Endpoint.closed_reading _ _ _).trans ho⟩
  have hasked : (f.asked (e.asks f.store key)).endpoint? id = some e := he
  rw [get_eq hs, endpoint?_update, if_pos rfl, hasked]
  rfl

theorem asked_comm (f : Fabric) (a b : Bool) : (f.asked a).asked b = (f.asked b).asked a := by
  unfold asked
  simp only [Nat.add_right_comm]

/-- Two reads of different keys through an open endpoint, in one piece. -/
theorem get_get_eq {e : Endpoint} (hs : f.serving id = .ok e) {j k : Bytes} (hne : j ≠ k) :
    (f.get id k).2.get id j = (e.answer f.store j,
      ((f.asked (e.asks f.store k)).asked (e.asks f.store j)).update id fun e' =>
        (e'.reading f.store k).reading f.store j) := by
  rw [get_eq (serving_get hs k), get_eq hs]
  -- the second read finds the store of the first, but for the count of reads
  show ((e.reading f.store k).answer f.store j,
    (((f.asked (e.asks f.store k)).update id (·.reading f.store k)).asked
      ((e.reading f.store k).asks f.store j)).update id (·.reading f.store j)) = _
  rw [Endpoint.answer_reading_of_ne hne, Endpoint.asks_reading_of_ne hne]
  exact congrArg (Prod.mk _) (update_update ((f.asked _).asked _) id _ _)

/-- **Reads of different keys do not notice each other.** -/
theorem get_comm (f : Fabric) (id : EndpointId) {j k : Bytes} (hne : j ≠ k) :
    ((f.get id k).2.get id j).1 = (f.get id j).1 ∧
      ((f.get id k).2.get id j).2 = ((f.get id j).2.get id k).2 := by
  cases hs : f.serving id with
  | error err =>
      have hget := get_of_not_serving hs
      simp [hget]
  | ok e =>
      rw [get_get_eq hs hne, get_get_eq hs hne.symm, get_eq hs, asked_comm]
      exact ⟨rfl, update_congr fun e' _ => Endpoint.reading_comm hne⟩

/-! ## Batches -/

/-- One read of a batch, with what was found before. -/
def collect (id : EndpointId) (st : Table Bytes Bytes × Fabric) (key : Bytes) :
    Table Bytes Bytes × Fabric :=
  match st.2.get id key with
  | (.ok (some v), f) => (st.1.insert key v, f)
  | (_, f) => (st.1, f)

theorem collect_eq (id : EndpointId) (found : Table Bytes Bytes) (f : Fabric) (key : Bytes) :
    collect id (found, f) key =
      (match (f.get id key).1 with
        | .ok (some v) => found.insert key v
        | _ => found,
        (f.get id key).2) := by
  unfold collect
  dsimp only
  cases hg : f.get id key with
  | mk r f' =>
      cases r with
      | error => rfl
      | ok v => cases v <;> rfl

theorem collect_comm (id : EndpointId) (st : Table Bytes Bytes × Fabric) (j k : Bytes) :
    collect id (collect id st k) j = collect id (collect id st j) k := by
  by_cases hne : j = k
  · rw [hne]
  · obtain ⟨found, f⟩ := st
    obtain ⟨hj, hsame⟩ := f.get_comm id hne
    obtain ⟨hk, -⟩ := f.get_comm id (Ne.symm hne)
    simp only [collect_eq, hj, hk, hsame]
    refine congrArg (Prod.mk · _) ?_
    -- what is found under different keys is bound under different keys
    cases hrj : (f.get id j).1 with
    | error => rfl
    | ok v =>
        cases v with
        | none => rfl
        | some v =>
            cases hrk : (f.get id k).1 with
            | error => rfl
            | ok w =>
                cases w with
                | none => rfl
                | some w => exact Table.insert_comm found hne w v

/-- With the store in reach and the endpoint open, a batch reads all its keys. -/
theorem getInto_eq_foldl (id : EndpointId) (keys : List Bytes) :
    ∀ {f : Fabric} {e : Endpoint} (found : Table Bytes Bytes), f.serving id = .ok e →
      f.store.available = true →
      f.getInto id found keys =
        (.ok (keys.foldl (collect id) (found, f)).1, (keys.foldl (collect id) (found, f)).2) := by
  induction keys with
  | nil => intro f e found _ _; rfl
  | cons k ks ih =>
      intro f e found hs ha
      have hserving := serving_get hs k
      have havailable := (reads_get f id k).available.trans ha
      have hanswer : ∃ v, (f.get id k).1 = .ok v := by
        rw [get_eq hs, Endpoint.answer, ha]
        cases e.local? k <;> exact ⟨_, rfl⟩
      obtain ⟨v, hv⟩ := hanswer
      rw [List.foldl_cons, collect_eq, hv]
      unfold getInto
      cases hg : f.get id k with
      | mk r f' =>
          rw [hg] at hserving havailable hv
          cases hv
          cases v with
          | none => exact ih found hserving havailable
          | some v => exact ih (found.insert k v) hserving havailable

/-- **With the store in reach, the order in which a batch is read does not show.** -/
theorem getAll_perm (id : EndpointId) (ha : f.store.available = true) {ks ks' : List Bytes}
    (hp : ks.Perm ks') :
    f.getAll id ks = f.getAll id ks' := by
  unfold getAll
  cases hs : f.serving id with
  | error err =>
      -- the first of the reads fails, if there is one
      have hfirst : ∀ ks : List Bytes, f.getInto id ∅ ks =
          if ks.length = 0 then (.ok ∅, f) else (.error err, f) := by
        intro ks
        cases ks with
        | nil => rfl
        | cons k ks => simp [getInto, get_of_not_serving hs]
      rw [hfirst, hfirst, hp.length_eq]
  | ok e =>
      rw [getInto_eq_foldl id ks ∅ hs ha, getInto_eq_foldl id ks' ∅ hs ha,
        hp.foldl_eq' fun j _ k _ st => collect_comm id st k j]

/-- **With the store in reach, a batch finds what the store holds under the keys that are
listed.** -/
theorem Coherent.getAll_ok {held : Table Nat HeldRead} (h : f.Coherent held) (hw : f.Wired)
    {ticket : Nat} (ht : held.get? ticket = none) {e : Endpoint} (hs : f.serving id = .ok e)
    (ha : f.store.available = true) (ks : List Bytes) :
    ∃ t, (f.getAll id ks).1 = .ok t ∧
      ∀ k, t.get? k = if k ∈ ks then (f.store.current? e.name k).map (·.value) else none := by
  obtain ⟨t, ht'⟩ : ∃ t, (f.getAll id ks).1 = .ok t :=
    ⟨_, congrArg Prod.fst (getInto_eq_foldl id ks ∅ hs ha)⟩
  refine ⟨t, ht', fun k => ?_⟩
  rw [h.getInto_ok ht ks hw (serving_eq_ok_iff.mp hs).1 ht', get?_gather, Table.get?_empty,
    Option.or_none]

end Fabric

end NearCache
