import NearCache.Proofs.Fabric.Wiring

/-!
# The parts of a read

A read either is done at once, because the endpoint is closed or its near cache has the key, or it
sets out for the store: `beginGet_cases`. What comes back is what the store holds at the moment it
is asked (`fetch_eq`), and ends the read (`endGet_eq`).

To the store a read means nothing but one more read to count. `Fabric.Reads f f'` says so of every
part of a read, and of whole reads.
-/

namespace NearCache

/-- A read of a key sets out from an endpoint. -/
def Endpoint.setOut (key : Bytes) (e : Endpoint) : Endpoint :=
  { e with front := e.front.map (·.beginLoad key) }

/-- A read of a key sets out from an endpoint and comes back, with nothing between. -/
def Endpoint.load (key : Bytes) (fetched : Option Versioned) (e : Endpoint) : Endpoint :=
  { e with front := e.front.map fun front => ((front.beginLoad key).finishLoad key fetched).2 }

namespace Fabric

/-- A fabric is its store, its endpoints and how many of them were started. -/
theorem ext_endpoints {f f' : Fabric} (hs : f'.store = f.store) (hn : f'.started = f.started)
    (he : ∀ id, f'.endpoint? id = f.endpoint? id) : f' = f := by
  obtain ⟨store, endpoints, started⟩ := f
  obtain ⟨store', endpoints', started'⟩ := f'
  have hends : endpoints' = endpoints := Table.ext_get? he
  cases hs
  cases hn
  cases hends
  rfl

theorem update_congr {f : Fabric} {id : EndpointId} {g g' : Endpoint → Endpoint}
    (h : ∀ e, f.endpoint? id = some e → g e = g' e) : f.update id g = f.update id g' := by
  refine ext_endpoints rfl rfl fun j => ?_
  rw [endpoint?_update, endpoint?_update]
  split
  · cases he : f.endpoint? id with
    | none => rfl
    | some e => simp [h e he]
  · rfl

theorem update_eq_self {f : Fabric} {id : EndpointId} {g : Endpoint → Endpoint}
    (h : ∀ e, f.endpoint? id = some e → g e = e) : f.update id g = f := by
  refine ext_endpoints rfl rfl fun j => ?_
  rw [endpoint?_update]
  split
  · next hj =>
    cases he : f.endpoint? id with
    | none => rw [hj, he]; rfl
    | some e => simp [hj, he, h e he]
  · rfl

theorem endpoint?_count {f : Fabric} {id : EndpointId} {e : Endpoint}
    (he : f.endpoint? id = some e) (g : Counters → Counters) :
    (f.count id g).endpoint? id = some (e.count g) := by
  rw [count, endpoint?_update, if_pos rfl, he]
  rfl

/-- A read fails on a closed endpoint, is done at once when the near cache has the key, and sets out
for the store otherwise. -/
theorem beginGet_cases (f : Fabric) (id : EndpointId) (key : Bytes) :
    (∃ err, f.serving id = .error err ∧ f.beginGet id key = (.done (.error err), f)) ∨
    ∃ e, f.endpoint? id = some e ∧ e.closed = none ∧
      ((∃ v, e.local? key = some v ∧ f.beginGet id key =
          (.done (.ok (some v)), (f.count id fun c => { c with gets := c.gets + 1 }).count id
            fun c => { c with hits := c.hits + 1 })) ∨
        (e.local? key = none ∧ f.beginGet id key =
          (.pending ⟨id, key⟩, (f.count id fun c => { c with gets := c.gets + 1 }).update id
            (Endpoint.setOut key)))) := by
  unfold beginGet
  cases hs : f.serving id with
  | error err => exact Or.inl ⟨err, rfl, rfl⟩
  | ok e =>
      right
      obtain ⟨he, ho⟩ := serving_eq_ok_iff.mp hs
      have hcount : ∀ e',
          (f.count id fun c => { c with gets := c.gets + 1 }).endpoint? id = some e' →
            e'.front = e.front := by
        intro e' he'
        rw [endpoint?_count he] at he'
        cases he'
        rfl
      refine ⟨e, he, ho, ?_⟩
      dsimp only
      cases hf : e.front with
      | none =>
          right
          refine ⟨by simp [Endpoint.local?, hf], ?_⟩
          rw [update_eq_self]
          intro e' he'
          have hf' := (hcount e' he').trans hf
          obtain ⟨node, config, placement, front, subscription, counters, closed⟩ := e'
          cases hf'
          rfl
      | some front =>
          dsimp only
          cases hl : front.get? key with
          | some v =>
              left
              exact ⟨v, by simp [Endpoint.local?, hf, hl], rfl⟩
          | none =>
              right
              refine ⟨by simp [Endpoint.local?, hf, hl], ?_⟩
              dsimp only
              rw [update_congr]
              intro e' he'
              have hf' := (hcount e' he').trans hf
              simp [Endpoint.setOut, hf']

theorem get_of_not_serving {f : Fabric} {id : EndpointId} {err : Fault}
    (h : f.serving id = .error err) (key : Bytes) : f.get id key = (.error err, f) := by
  simp [get, beginGet, h]

/-- What the store holds for a read. -/
def due (f : Fabric) (r : PendingRead) : Option Versioned :=
  (f.endpoint? r.endpoint).bind fun e => f.store.current? e.name r.key

/-- The store answers with what it holds, if it can be reached. -/
theorem fetch_eq {f : Fabric} {r : PendingRead} {e : Endpoint}
    (he : f.endpoint? r.endpoint = some e) :
    f.fetch r =
      if f.store.available then
        (.ok (f.store.current? e.name r.key),
          { f with store := { f.store with reads := f.store.reads + 1 } })
      else (.error (.storeUnavailable e.name "store unreachable"), f) := by
  unfold fetch endpoint Store.get Store.reach
  rw [he]
  by_cases ha : f.store.available <;> simp [ha]

theorem fetch_eq_of_none {f : Fabric} {r : PendingRead} (he : f.endpoint? r.endpoint = none) :
    f.fetch r = (.error (.internal "no such endpoint"), f) := by
  unfold fetch endpoint
  rw [he]

/-- An answer of the store is what it holds. -/
theorem fetch_ok {f : Fabric} {r : PendingRead} {x : Option Versioned}
    (h : (f.fetch r).1 = .ok x) : f.due r = x := by
  cases he : f.endpoint? r.endpoint with
  | none =>
      rw [fetch_eq_of_none he] at h
      cases h
  | some e =>
      rw [fetch_eq he] at h
      split at h
      · cases h
        simp [due, he]
      · cases h

/-- A read that ends hands the answer of the store on to the reader and to the near cache. -/
theorem endGet_eq (f : Fabric) (r : PendingRead) (answer : Outcome (Option Versioned)) :
    f.endGet r answer =
      (answer.map fun x => x.map (·.value),
        match answer with
        | .error _ => f.settle r none
        | .ok x =>
          (f.count r.endpoint fun c => { c with remoteGets := c.remoteGets + 1 }).settle r x) := by
  cases answer <;> rfl

/-- A read that ends well has had an answer of the store. -/
theorem endGet_ok {f : Fabric} {r : PendingRead} {answer : Outcome (Option Versioned)}
    {v : Option Bytes} (h : (f.endGet r answer).1 = .ok v) :
    ∃ x, answer = .ok x ∧ x.map (·.value) = v := by
  cases answer with
  | error err => cases h
  | ok x => exact ⟨x, rfl, Except.ok.inj h⟩

/-! ## Reads in one piece -/

/-- Two changes of one endpoint are one change of it. -/
theorem update_update (f : Fabric) (id : EndpointId) (g h : Endpoint → Endpoint) :
    (f.update id g).update id h = f.update id (h ∘ g) := by
  refine ext_endpoints rfl rfl fun j => ?_
  simp only [endpoint?_update, if_true, Option.map_map]
  split <;> rfl

/-- A read that the near cache serves is counted twice, as a read and as a hit. The store is not
asked. -/
theorem get_eq_hit {f : Fabric} {id : EndpointId} {e : Endpoint} (he : f.endpoint? id = some e)
    (ho : e.closed = none) {key v : Bytes} (hv : e.local? key = some v) :
    f.get id key = (.ok (some v),
      f.count id fun c => { c with gets := c.gets + 1, hits := c.hits + 1 }) := by
  unfold get
  rcases beginGet_cases f id key with ⟨err, hs, -⟩ | ⟨e', he', -, ⟨w, hw, hb⟩ | ⟨hw, -⟩⟩
  · rw [serving_eq_ok_iff.mpr ⟨he, ho⟩] at hs
    cases hs
  · rw [he] at he'
    cases he'
    rw [hv] at hw
    cases hw
    rw [hb]
    exact congrArg (Prod.mk _) (update_update f id _ _)
  · rw [he] at he'
    cases he'
    rw [hv] at hw
    cases hw

/-- A read that the near cache cannot serve goes to the store and back. -/
theorem get_eq_miss {f : Fabric} {id : EndpointId} {e : Endpoint} (he : f.endpoint? id = some e)
    (ho : e.closed = none) {key : Bytes} (hv : e.local? key = none) :
    f.get id key =
      if f.store.available then
        (.ok ((f.store.current? e.name key).map (·.value)),
          { f with store := { f.store with reads := f.store.reads + 1 } }.update id fun e' =>
            (e'.load key (f.store.current? e.name key)).count fun c =>
              { c with gets := c.gets + 1, remoteGets := c.remoteGets + 1 })
      else
        (.error (.storeUnavailable e.name "store unreachable"),
          f.update id fun e' => (e'.load key none).count fun c => { c with gets := c.gets + 1 }) := by
  unfold get
  rcases beginGet_cases f id key with ⟨err, hs, -⟩ | ⟨e', he', -, ⟨w, hw, -⟩ | ⟨-, hb⟩⟩
  · rw [serving_eq_ok_iff.mpr ⟨he, ho⟩] at hs
    cases hs
  · rw [he] at he'
    cases he'
    rw [hv] at hw
    cases hw
  · rw [hb]
    obtain ⟨begun, hbegun⟩ : ∃ g, g = (f.count id fun c => { c with gets := c.gets + 1 }).update id
      (Endpoint.setOut key) := ⟨_, rfl⟩
    have hends : ∀ j, begun.endpoint? j =
        if j = id then some ((e.count fun c => { c with gets := c.gets + 1 }).setOut key)
        else f.endpoint? j := by
      intro j
      simp only [hbegun, count, endpoint?_update, if_true, he, Option.map_some]
      split <;> rfl
    have hstore : begun.store = f.store := by rw [hbegun]; rfl
    have hstarted : begun.started = f.started := by rw [hbegun]; rfl
    have hfetch := fetch_eq (r := ⟨id, key⟩) ((hends id).trans (if_pos rfl))
    rw [← hbegun]
    by_cases ha : f.store.available
    · rw [hstore, if_pos ha] at hfetch
      dsimp only
      rw [hfetch, if_pos ha]
      refine congrArg (Prod.mk _) (ext_endpoints rfl hstarted fun j => ?_)
      have hkeep : ∀ (g : Fabric) s j, endpoint? { g with store := s } j = g.endpoint? j :=
        fun _ _ _ => rfl
      simp only [settle, count, endpoint?_update, hkeep, hends, if_true, he, Option.map_some]
      split
      · simp [Endpoint.setOut, Endpoint.load, Endpoint.count, Endpoint.name, Function.comp_def]
      · rfl
    · rw [hstore, if_neg ha] at hfetch
      dsimp only
      rw [hfetch, if_neg ha]
      refine congrArg (Prod.mk _) (ext_endpoints hstore hstarted fun j => ?_)
      simp only [settle, endpoint?_update, hends, if_true, he, Option.map_some]
      split
      · simp [Endpoint.setOut, Endpoint.load, Endpoint.count, Function.comp_def]
      · rfl

/-! ## Reads and the store -/

/-- `f'` is `f` after reads. -/
structure Reads (f f' : Fabric) : Prop extends Serves f f' where
  store : ∃ n, f'.store = { f.store with reads := n }

namespace Reads

theorem refl (f : Fabric) : Reads f f := ⟨Serves.refl f, f.store.reads, rfl⟩

theorem trans {f g h : Fabric} (a : Reads f g) (b : Reads g h) : Reads f h where
  toServes := a.toServes.trans b.toServes
  store := by
    obtain ⟨m, hm⟩ := a.store
    obtain ⟨n, hn⟩ := b.store
    exact ⟨n, by rw [hn, hm]⟩

/-- A change of one endpoint that leaves its frame alone. -/
theorem update {f : Fabric} {id : EndpointId} {g : Endpoint → Endpoint}
    (hg : ∀ e, (g e).frame = e.frame) : Reads f (f.update id g) :=
  ⟨Serves.update fun e _ => hg e, f.store.reads, rfl⟩

theorem current? {f f' : Fabric} (h : Reads f f') (c : String) (k : Bytes) :
    f'.store.current? c k = f.store.current? c k := by
  obtain ⟨n, hn⟩ := h.store
  rw [hn]
  rfl

theorem available {f f' : Fabric} (h : Reads f f') : f'.store.available = f.store.available := by
  obtain ⟨n, hn⟩ := h.store
  rw [hn]

/-- Reads do not change what there is to be read. -/
theorem due {f f' : Fabric} (h : Reads f f') (r : PendingRead) : f'.due r = f.due r := by
  have hframe := h.frame r.endpoint
  unfold Fabric.due
  cases he : f.endpoint? r.endpoint with
  | none =>
      rw [he] at hframe
      simp [Option.map_eq_none_iff.mp hframe]
  | some e =>
      rw [he] at hframe
      obtain ⟨e', he', hee⟩ := Option.map_eq_some_iff.mp hframe
      obtain ⟨-, hconfig, -⟩ := Endpoint.eq_of_frame_eq hee
      rw [he']
      show f'.store.current? e'.name r.key = f.store.current? e.name r.key
      rw [h.current?, Endpoint.name_of_config hconfig]

end Reads

theorem reads_beginGet (f : Fabric) (id : EndpointId) (key : Bytes) :
    Reads f (f.beginGet id key).2 := by
  have hcount : ∀ g, Reads f (f.count id g) := fun g => Reads.update fun e => e.frame_count g
  rcases beginGet_cases f id key with ⟨err, -, hb⟩ | ⟨e, -, -, ⟨v, -, hb⟩ | ⟨-, hb⟩⟩
  · rw [hb]
    exact Reads.refl f
  · rw [hb]
    exact (hcount _).trans (Reads.update fun e => e.frame_count _)
  · rw [hb]
    exact (hcount _).trans (Reads.update fun e => e.frame_mapFront _)

theorem reads_fetch (f : Fabric) (r : PendingRead) : Reads f (f.fetch r).2 := by
  cases he : f.endpoint? r.endpoint with
  | none =>
      rw [fetch_eq_of_none he]
      exact Reads.refl f
  | some e =>
      rw [fetch_eq he]
      split
      · exact ⟨Serves.withStore rfl rfl (.of_data rfl rfl), _, rfl⟩
      · exact Reads.refl f

theorem reads_endGet (f : Fabric) (r : PendingRead) (answer : Outcome (Option Versioned)) :
    Reads f (f.endGet r answer).2 := by
  have hsettle : ∀ (g : Fabric) x, Reads g (g.settle r x) := fun g x =>
    Reads.update fun e => e.frame_mapFront _
  cases answer with
  | error => exact hsettle f none
  | ok x => exact (Reads.update fun e => e.frame_count _).trans (hsettle _ x)

theorem reads_get (f : Fabric) (id : EndpointId) (key : Bytes) : Reads f (f.get id key).2 := by
  have hbegin := reads_beginGet f id key
  unfold get
  cases hb : f.beginGet id key with
  | mk b f' =>
      rw [hb] at hbegin
      cases b with
      | done r => exact hbegin
      | pending r => exact (hbegin.trans (reads_fetch f' r)).trans (reads_endGet _ r _)

theorem reads_getInto (id : EndpointId) (keys : List Bytes) :
    ∀ (f : Fabric) (found : Table Bytes Bytes), Reads f (f.getInto id found keys).2 := by
  induction keys with
  | nil => intro f found; exact Reads.refl f
  | cons k ks ih =>
      intro f found
      have hget := reads_get f id k
      unfold getInto
      cases hg : f.get id k with
      | mk r f' =>
          rw [hg] at hget
          cases r with
          | error => exact hget
          | ok v =>
              cases v with
              | none => exact hget.trans (ih f' found)
              | some v => exact hget.trans (ih f' _)

end Fabric

end NearCache
