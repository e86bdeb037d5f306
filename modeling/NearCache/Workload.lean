import NearCache.Exposition
/-!
# A sample workload

The first node writes some keys to every cache, then every node reads all of these keys from every
cache, several rounds in a row.  The counters afterwards show how many reads reached the store.
-/

namespace NearCache.Workload

/-- The key with a number. -/
def key (i : Nat) : Bytes := Bytes.ofText ("key-" ++ toString i)

/-- The value with a number. -/
def value (i : Nat) : Bytes := Bytes.ofText ("value-" ++ toString i)

/-- The bindings that are written. -/
def bindings (keys : Nat) : Table Bytes Bytes :=
  Table.ofList ((List.range keys).map fun i => (key i, value i))

/-- Writes the bindings to endpoints one after the other, up to the first failure. -/
def writeEach (f : Fabric) (keys : Nat) : List EndpointId → Outcome Unit × Fabric
  | [] => (.ok (), f)
  | id :: rest =>
    match f.putAll id (bindings keys) with
    | (.error e, f) => (.error e, f)
    | (.ok (), f) => writeEach f keys rest

/-- Reads keys through an endpoint one after the other, up to the first failure. -/
def readKeys (f : Fabric) (id : EndpointId) : List Bytes → Outcome Unit × Fabric
  | [] => (.ok (), f)
  | k :: rest =>
    match f.get id k with
    | (.error e, f) => (.error e, f)
    | (.ok _, f) => readKeys f id rest

/-- All keys, as many times as there are rounds. -/
def schedule (keys rounds : Nat) : List Bytes :=
  (List.replicate rounds ((List.range keys).map key)).flatten

/-- Reads the keys through endpoints one after the other, up to the first failure. -/
def readEach (f : Fabric) (keys rounds : Nat) : List EndpointId → Outcome Unit × Fabric
  | [] => (.ok (), f)
  | id :: rest =>
    match readKeys f id (schedule keys rounds) with
    | (.error e, f) => (.error e, f)
    | (.ok (), f) => readEach f keys rounds rest

/-- The endpoints of a node, in the order of their caches. -/
def endpoints (c : Cluster) (id : MemberId) : List EndpointId := (c.endpointsOf id).map (·.2)

/-- Runs the workload on nodes, the first of which writes. -/
def run (c : Cluster) (nodes : List MemberId) (keys rounds : Nat) : Outcome Unit × Cluster :=
  match nodes with
  | [] => (.ok (), c)
  | writer :: _ =>
    match writeEach c.fabric keys (endpoints c writer) with
    | (.error e, f) => (.error e, { c with fabric := f })
    | (.ok (), f) =>
      let (r, f) := readEach f keys rounds (nodes.flatMap (endpoints c))
      (r, { c with fabric := f })

/-- Starts a deployment on a fresh cluster and runs the workload on it: the metrics afterwards. -/
def report (d : Deployment) (keys rounds : Nat) : Outcome String :=
  let journal := Fanout.ofSinks [.log .debug [], .journal {}]
  match ({ publisher := journal } : Cluster).apply d with
  | (.error e, _) => .error e
  | (.ok nodes, c) =>
    match run c nodes keys rounds with
    | (.error e, _) => .error e
    | (.ok (), c) => .ok (({} : Board).observe c).render

end NearCache.Workload
