import NearCache.Host
import NearCache.Publishing
import NearCache.Roster
/-!
# Clusters

A cluster keeps one configuration per cache name, its registry, and sees to it that every running
node has every registered cache.  A cache enters the registry with the first node that brings it
along or when a node creates it; from there it is propagated to the nodes that run, and a node that
joins later takes it from the registry.

Both ways publish before they read: a node enters the hosts before it reads the registry, a cache
enters the registry before its creator reads the hosts.  So a node and a cache that enter at the
same time meet in at least one of the two.  An activation may still come too late, when its cache
has just been destroyed; `confirm` looks at the registry once more and takes the cache back.

Each operation is made of the small steps of the first part (`enrol`, `registerStatic`,
`activateOn`, `confirm`), between which other operations may run.
-/

namespace NearCache

/-- A cluster. -/
structure Cluster where
  fabric : Fabric := {}
  roster : Roster := []
  /-- Every node that ever ran here; the running ones are those that have not stopped. -/
  hosts : Table MemberId Host := ∅
  /-- The configuration of every cache by its name. -/
  registry : Table String CacheConfig := ∅
  publisher : Fanout := {}
  /-- The numbers for the members, in the order in which they join. -/
  memberIds : Nat → MemberId := id
  /-- How many members have joined. -/
  joined : Nat := 0

namespace Cluster

instance : Inhabited Cluster := ⟨{}⟩

/-- Tells the world about an event; nothing depends on whether that succeeds. -/
def publish (c : Cluster) (e : Event) : Cluster :=
  { c with publisher := (c.publisher.publish e).2 }

/-- Tells the world about events at once. -/
def publishAll (c : Cluster) (es : List Event) : Cluster :=
  { c with publisher := (c.publisher.publishAll es).2 }

/-- A node by its number, running or stopped. -/
def host? (c : Cluster) (id : MemberId) : Option Host := c.hosts.get? id

/-- The nodes that run. -/
def running (c : Cluster) : Table MemberId Host := c.hosts.filter fun _ h => !h.stopped

/-- Replaces what a node consists of. -/
def setHost (c : Cluster) (id : MemberId) (h : Host) (f : Fabric) : Cluster :=
  { c with hosts := c.hosts.insert id h, fabric := f }

/-! ## Steps -/

/-- A node joins: it enters the roster and the hosts, and its arrival is told. -/
def enrol (c : Cluster) (n : NodeConfig) : Outcome (MemberId × Cluster) := do
  n.check
  let id := c.memberIds c.joined
  let m := Member.enrolled id n.name n.role n.attributes
  let roster ← c.roster.join m
  let c := { c with
    roster
    hosts := c.hosts.insert id { member := m }
    joined := c.joined + 1 }
  return (id, c.publish (.nodeJoined m.name m.isClient))

/-- A cache that a node brings along enters the registry, unless one of its name is there already.
The answer is the configuration that counts. -/
def registerStatic (c : Cluster) (config : CacheConfig) : CacheConfig × Cluster :=
  match c.registry.get? config.name with
  | some first => (first, c)
  | none => (config, { c with registry := c.registry.insert config.name config })

/-- A cache starts on a node, and the start is told. -/
def activateOn (c : Cluster) (id : MemberId) (config : CacheConfig) (t : Trigger) :
    Outcome EndpointId × Cluster :=
  match c.host? id with
  | none => (.error (.nodeNotFound (.id id)), c)
  | some h =>
    match h.activate c.fabric config t with
    | .error e => (.error e, c)
    | .ok a =>
      let c := c.setHost id a.host a.fabric
      (.ok a.endpoint, if a.events.isEmpty then c else c.publishAll a.events)

/-- A cache is taken from a node. -/
def deactivateOn (c : Cluster) (id : MemberId) (name : String) : Cluster :=
  match c.host? id with
  | none => c
  | some h =>
    let (_, h, f) := h.deactivate c.fabric name
    c.setHost id h f

/-- A cache that has just started on a node is taken back if it is not registered any more. -/
def confirm (c : Cluster) (id : MemberId) (name : String) : Cluster :=
  if c.registry.contains name then c else c.deactivateOn id name

/-- A cache starts on a node, provided that it is registered. -/
def activateRegistered (c : Cluster) (id : MemberId) (config : CacheConfig) (t : Trigger) :
    Outcome Unit × Cluster :=
  match c.activateOn id config t with
  | (.error e, c) => (.error e, c)
  | (.ok _, c) => (.ok (), c.confirm id config.name)

/-- A cache starts on nodes one after the other; a node that has stopped meanwhile is passed by. -/
def activateEach (c : Cluster) (config : CacheConfig) (ids : List MemberId) : Cluster :=
  ids.foldl (fun c id => (c.activateRegistered id config .dynamic).2) c

/-- A cache starts on every running node but one. -/
def propagate (c : Cluster) (config : CacheConfig) (skip : Option MemberId) : Cluster :=
  c.activateEach config (c.running.keys.filter fun id => some id ≠ skip)

/-! ## Nodes -/

/-- The caches that a node brings along: each is registered, starts on the node, and is propagated
to the others. -/
def startStatic (c : Cluster) (id : MemberId) : List CacheConfig → Outcome Unit × Cluster
  | [] => (.ok (), c)
  | config :: rest =>
    let (effective, c) := c.registerStatic config
    match c.activateRegistered id effective .static with
    | (.error e, c) => (.error e, c)
    | (.ok (), c) => (c.propagate effective (some id)).startStatic id rest

/-- Registered caches start on a node that has joined. -/
def startJoined (c : Cluster) (id : MemberId) : List CacheConfig → Outcome Unit × Cluster
  | [] => (.ok (), c)
  | config :: rest =>
    match c.activateRegistered id config .join with
    | (.error e, c) => (.error e, c)
    | (.ok (), c) => c.startJoined id rest

/-- Starts a node. -/
def startNode (c : Cluster) (n : NodeConfig) : Outcome MemberId × Cluster :=
  match c.enrol n with
  | .error e => (.error e, c)
  | .ok (id, c) =>
    match c.startStatic id n.staticCaches with
    | (.error e, c) => (.error e, c)
    | (.ok (), c) =>
      match c.startJoined id c.registry.values with
      | (.error e, c) => (.error e, c)
      | (.ok (), c) => (.ok id, c)

/-- Stops a node that runs. -/
def stopNode (c : Cluster) (id : MemberId) : Outcome Unit × Cluster :=
  match c.running.get? id with
  | none => (.error (.nodeNotFound (.id id)), c)
  | some h =>
    let name := h.member.name
    let (_, h, f) := h.shutdown c.fabric
    let c := c.setHost id h f
    (.ok (), { c with roster := (c.roster.leave id).2 }.publish (.nodeLeft name))

/-- Stops every node, drops the data of every registered cache, and forgets the caches. -/
def stopAll (c : Cluster) : Cluster :=
  let c := c.roster.foldl (fun c m => (c.stopNode m.id).2) c
  { c with
    fabric := c.registry.keys.foldl (fun f name => f.destroy name) c.fabric
    registry := ∅ }

/-- The running node with a name. -/
def node (c : Cluster) (name : String) : Outcome MemberId :=
  match c.roster.byName? name with
  | none => .error (.nodeNotFound (.name name))
  | some m =>
    if c.running.contains m.id then .ok m.id else .error (.nodeNotFound (.name name))

/-! ## Caches -/

/-- Creates a cache for a member of the cluster. -/
def createCache (c : Cluster) (creator : MemberId) (config : CacheConfig) :
    Outcome Unit × Cluster :=
  match config.check with
  | .error e => (.error e, c)
  | .ok () =>
    if (c.roster.byId? creator).isNone then (.error (.nodeNotFound (.id creator)), c)
    else if c.registry.contains config.name then (.error (.cacheExists config.name), c)
    else
      let c := { c with registry := c.registry.insert config.name config }
      (.ok (), c.propagate config none)

/-- Takes a cache from nodes one after the other. -/
def deactivateEach (c : Cluster) (name : String) (ids : List MemberId) : Cluster :=
  ids.foldl (fun c id => c.deactivateOn id name) c

/-- Destroys a cache everywhere; false if it is not registered. -/
def destroyCache (c : Cluster) (name : String) : Bool × Cluster :=
  if c.registry.contains name then
    let c := { c with registry := c.registry.erase name }
    let c := c.deactivateEach name c.running.keys
    (true, { c with fabric := c.fabric.destroy name }.publish (.cacheDestroyed name))
  else (false, c)

/-! ## What a node can be asked for -/

/-- Fails when a node has stopped. -/
def ensureRunning (c : Cluster) (id : MemberId) : Outcome Host :=
  match c.host? id with
  | none => .error (.nodeNotFound (.id id))
  | some h => if h.stopped then .error (.nodeStopped h.member.name) else .ok h

/-- The endpoint of a cache on a running node. -/
def cacheOn (c : Cluster) (id : MemberId) (name : String) : Outcome EndpointId := do
  let h ← c.ensureRunning id
  match h.caches.get? name with
  | some e => .ok e
  | none => .error (.cacheNotFound name)

/-- A node creates a cache; the answer is the node's endpoint. -/
def createFrom (c : Cluster) (id : MemberId) (config : CacheConfig) :
    Outcome EndpointId × Cluster :=
  match c.ensureRunning id with
  | .error e => (.error e, c)
  | .ok _ =>
    match c.createCache id config with
    | (.error e, c) => (.error e, c)
    | (.ok (), c) => (c.cacheOn id config.name, c)

/-- A node's endpoint of a cache, which is created if need be. -/
def getOrCreate (c : Cluster) (id : MemberId) (config : CacheConfig) :
    Outcome EndpointId × Cluster :=
  match c.cacheOn id config.name with
  | .ok e => (.ok e, c)
  | .error _ =>
    match c.createFrom id config with
    | (.error (.cacheExists _), c) => (c.cacheOn id config.name, c)
    | other => other

/-- A node destroys a cache. -/
def destroyFrom (c : Cluster) (id : MemberId) (name : String) : Outcome Bool × Cluster :=
  match c.ensureRunning id with
  | .error e => (.error e, c)
  | .ok _ =>
    let (found, c) := c.destroyCache name
    (.ok found, c)

/-! ## Deployments -/

/-- Starts nodes one after the other, up to the first failure. -/
def startNodes (c : Cluster) : List NodeConfig → Outcome (List MemberId) × Cluster
  | [] => (.ok [], c)
  | n :: rest =>
    match c.startNode n with
    | (.error e, c) => (.error e, c)
    | (.ok id, c) =>
      let (r, c) := c.startNodes rest
      (r.map (id :: ·), c)

/-- Creates late caches one after the other, up to the first failure. -/
def createLate (c : Cluster) : List LateCache → Outcome Unit × Cluster
  | [] => (.ok (), c)
  | l :: rest =>
    match c.node l.creator with
    | .error e => (.error e, c)
    | .ok id =>
      match c.createFrom id l.cache with
      | (.error e, c) => (.error e, c)
      | (.ok _, c) => c.createLate rest

/-- Starts the nodes of a deployment, then creates its late caches.  What was done before a
failure stays. -/
def apply (c : Cluster) (d : Deployment) : Outcome (List MemberId) × Cluster :=
  match d.check with
  | .error e => (.error e, c)
  | .ok () =>
    match c.startNodes d.nodes with
    | (.error e, c) => (.error e, c)
    | (.ok ids, c) =>
      let (r, c) := c.createLate d.lateCaches
      (r.map fun _ => ids, c)

/-! ## What is where -/

/-- The caches that a node started, by name. -/
def endpointsOf (c : Cluster) (id : MemberId) : List (String × EndpointId) :=
  match c.host? id with
  | some h => h.caches.entries
  | none => []

/-- One line for a developer. -/
def describe (c : Cluster) : String :=
  "Cluster \x7b nodes: " ++ toString c.roster.length ++ ", caches: " ++
    toString c.registry.size ++ " \x7d"

/-- One line about a node, for a developer. -/
def describeNode (m : Member) : String :=
  "Node \x7b name: " ++ Text.quoted m.name ++ ", id: NodeId(" ++ m.id.display ++ "), client: " ++
    (if m.isClient then "true" else "false") ++ " \x7d"

end Cluster

end NearCache
