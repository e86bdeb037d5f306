import NearCache.Endpoint
/-!
# The store and the endpoints in front of it

The fabric is the store together with every endpoint that was ever started on it.  All reads and
writes of caches happen here.

A read that the near cache cannot serve goes to the store and back.  It is cut where it waits for
the store: `beginGet` does all that comes before, `fetch` asks the store, `endGet` does all that
comes after, and anything may happen between the three.  `get` is the read that nothing interrupts.

A write is announced to the near caches of its cache, that of the writing node included, before it
is acknowledged.
-/

namespace NearCache

/-- Endpoints are numbered in the order in which they started. -/
abbrev EndpointId := Nat

/-- The store and all endpoints, open or closed. -/
structure Fabric where
  store : Store EndpointId := {}
  endpoints : Table EndpointId Endpoint := ∅
  /-- How many endpoints were started. -/
  started : Nat := 0

/-- A read on its way to the store. -/
structure PendingRead where
  endpoint : EndpointId
  key : Bytes
  deriving DecidableEq, Repr

/-- How a read begins: it is done at once, or it has to go to the store. -/
inductive Begun where
  | done (result : Outcome (Option Bytes))
  | pending (read : PendingRead)

namespace Fabric

instance : Inhabited Fabric := ⟨{}⟩

/-- An endpoint by its number. -/
def endpoint? (f : Fabric) (id : EndpointId) : Option Endpoint := f.endpoints.get? id

/-- An endpoint by its number; asking for one that was never started is a fault of the caller. -/
def endpoint (f : Fabric) (id : EndpointId) : Outcome Endpoint :=
  match f.endpoint? id with
  | some e => .ok e
  | none => .error (.internal "no such endpoint")

/-- An endpoint that still serves. -/
def serving (f : Fabric) (id : EndpointId) : Outcome Endpoint := do
  let e ← f.endpoint id
  e.ensureOpen
  return e

/-- Changes one endpoint. -/
def update (f : Fabric) (id : EndpointId) (g : Endpoint → Endpoint) : Fabric :=
  { f with endpoints := f.endpoints.alter id (·.map g) }

/-- Adds to the counters of one endpoint. -/
def count (f : Fabric) (id : EndpointId) (g : Counters → Counters) : Fabric :=
  f.update id (·.count g)

/-! ## Starting and closing -/

/-- Starts an endpoint.  One with a near cache subscribes to the writes to its cache. -/
def start (f : Fabric) (node : String) (config : CacheConfig) (placement : Placement) :
    EndpointId × Fabric :=
  let id := f.started
  if placement.isPresent then
    let (subscription, store) := f.store.subscribe config.name id
    let e : Endpoint :=
      { node, config, placement, front := some {}, subscription := some subscription }
    (id, { store, endpoints := f.endpoints.insert id e, started := id + 1 })
  else
    let e : Endpoint := { node, config, placement, front := none, subscription := none }
    (id, { f with endpoints := f.endpoints.insert id e, started := id + 1 })

/-- Ends the subscription of an endpoint, if it has one. -/
def unsubscribe (f : Fabric) (e : Endpoint) : Fabric :=
  match e.subscription with
  | some s => { f with store := (f.store.unsubscribe s).2 }
  | none => f

/-- Closes an endpoint: it unsubscribes and empties its near cache.  Only the first closing has an
effect, and the answer is whether this is it. -/
def close (f : Fabric) (id : EndpointId) (reason : Closing) : Bool × Fabric :=
  match f.endpoint? id with
  | none => (false, f)
  | some e =>
    if e.closed.isSome then (false, f)
    else
      (true, (f.unsubscribe e).update id fun e =>
        { e with closed := some reason, subscription := none, front := e.front.map Front.clear })

/-! ## Reading -/

/-- The first part of a read.  It counts the read; a near cache that does not have the key
registers that the key is being loaded. -/
def beginGet (f : Fabric) (id : EndpointId) (key : Bytes) : Begun × Fabric :=
  match f.serving id with
  | .error e => (.done (.error e), f)
  | .ok e =>
    let f := f.count id fun c => { c with gets := c.gets + 1 }
    match e.front with
    | none => (.pending ⟨id, key⟩, f)
    | some front =>
      match front.get? key with
      | some v => (.done (.ok (some v)), f.count id fun c => { c with hits := c.hits + 1 })
      | none =>
        (.pending ⟨id, key⟩, f.update id fun e => { e with front := some (front.beginLoad key) })

/-- The question of a read to the store. -/
def fetch (f : Fabric) (r : PendingRead) : Outcome (Option Versioned) × Fabric :=
  match f.endpoint r.endpoint with
  | .error e => (.error e, f)
  | .ok e =>
    let (answer, store) := f.store.get e.name r.key
    (answer, { f with store })

/-- The near cache of an endpoint learns how a load of a key ended. -/
def settle (f : Fabric) (r : PendingRead) (fetched : Option Versioned) : Fabric :=
  f.update r.endpoint fun e =>
    { e with front := e.front.map fun front => (front.finishLoad r.key fetched).2 }

/-- The last part of a read, given the answer of the store. -/
def endGet (f : Fabric) (r : PendingRead) (answer : Outcome (Option Versioned)) :
    Outcome (Option Bytes) × Fabric :=
  match answer with
  | .error e => (.error e, f.settle r none)
  | .ok fetched =>
    let f := f.count r.endpoint fun c => { c with remoteGets := c.remoteGets + 1 }
    (.ok (fetched.map (·.value)), f.settle r fetched)

/-- Reads a key, from the near cache if it has the key. -/
def get (f : Fabric) (id : EndpointId) (key : Bytes) : Outcome (Option Bytes) × Fabric :=
  match f.beginGet id key with
  | (.done r, f) => (r, f)
  | (.pending r, f) =>
    let (answer, f) := f.fetch r
    f.endGet r answer

/-- Reads keys one after the other into a table, up to the first failure. -/
def getInto (f : Fabric) (id : EndpointId) (found : Table Bytes Bytes) :
    List Bytes → Outcome (Table Bytes Bytes) × Fabric
  | [] => (.ok found, f)
  | k :: ks =>
    match f.get id k with
    | (.error e, f) => (.error e, f)
    | (.ok none, f) => f.getInto id found ks
    | (.ok (some v), f) => f.getInto id (found.insert k v) ks

/-- Reads several keys; those without a value are left out. -/
def getAll (f : Fabric) (id : EndpointId) (keys : List Bytes) :
    Outcome (Table Bytes Bytes) × Fabric :=
  f.getInto id ∅ keys

/-- Looks a key up in the near cache only. -/
def peek (f : Fabric) (id : EndpointId) (key : Bytes) : Outcome (Option Bytes) := do
  (← f.endpoint id).peek key

/-! ## Writing -/

/-- Announcements arrive at the near caches that they are meant for. -/
def deliver (f : Fabric) (ds : List (Delivery EndpointId)) : Fabric :=
  ds.foldl (fun f d => f.update d.listener (·.hear d.notice)) f

/-- Writes a key. -/
def put (f : Fabric) (id : EndpointId) (key value : Bytes) : Outcome Unit × Fabric :=
  match f.serving id with
  | .error e => (.error e, f)
  | .ok e =>
    let f := f.count id fun c => { c with puts := c.puts + 1 }
    let (r, ds, store) := f.store.put e.name key value
    (r.map fun _ => (), { f with store }.deliver ds)

/-- Writes bindings one after the other, up to the first failure. -/
def putEach (f : Fabric) (id : EndpointId) : List (Bytes × Bytes) → Outcome Unit × Fabric
  | [] => (.ok (), f)
  | (k, v) :: rest =>
    match f.put id k v with
    | (.error e, f) => (.error e, f)
    | (.ok (), f) => f.putEach id rest

/-- Writes all bindings of a table. -/
def putAll (f : Fabric) (id : EndpointId) (entries : Table Bytes Bytes) :
    Outcome Unit × Fabric :=
  f.putEach id entries.entries

/-- Removes a key; the answer is whether it had a value. -/
def remove (f : Fabric) (id : EndpointId) (key : Bytes) : Outcome Bool × Fabric :=
  match f.serving id with
  | .error e => (.error e, f)
  | .ok e =>
    let f := f.count id fun c => { c with removals := c.removals + 1 }
    let (r, ds, store) := f.store.remove e.name key
    (r.map Option.isSome, { f with store }.deliver ds)

/-! ## Writing past the endpoints -/

/-- Writes a key of a cache directly; the answer is the version of the write. -/
def storePut (f : Fabric) (cache : String) (key value : Bytes) : Outcome Nat × Fabric :=
  let (r, ds, store) := f.store.put cache key value
  (r, { f with store }.deliver ds)

/-- Removes a key of a cache directly; the answer is the version of the removal, if any. -/
def storeRemove (f : Fabric) (cache : String) (key : Bytes) : Outcome (Option Nat) × Fabric :=
  let (r, ds, store) := f.store.remove cache key
  (r, { f with store }.deliver ds)

/-- Reads a key of a cache directly. -/
def storeGet (f : Fabric) (cache : String) (key : Bytes) :
    Outcome (Option Versioned) × Fabric :=
  let (r, store) := f.store.get cache key
  (r, { f with store })

/-- Drops the data of a cache. -/
def destroy (f : Fabric) (cache : String) : Fabric := { f with store := f.store.destroy cache }

/-- Makes the store reachable or unreachable. -/
def setAvailable (f : Fabric) (available : Bool) : Fabric :=
  { f with store := { f.store with available } }

/-! ## What a change of one endpoint does to the others -/

theorem endpoint?_update (f : Fabric) (id j : EndpointId) (g : Endpoint → Endpoint) :
    (f.update id g).endpoint? j = if j = id then (f.endpoint? id).map g else f.endpoint? j := by
  simp [update, endpoint?, Table.get?_alter]

@[simp] theorem store_update (f : Fabric) (id : EndpointId) (g : Endpoint → Endpoint) :
    (f.update id g).store = f.store := rfl

@[simp] theorem store_count (f : Fabric) (id : EndpointId) (g : Counters → Counters) :
    (f.count id g).store = f.store := rfl

end Fabric

end NearCache
