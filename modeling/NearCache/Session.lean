import NearCache.Cluster
/-!
# Sessions

What the users of a cluster do with it, one command after another: they start and stop nodes,
create and destroy caches, read and write through endpoints, and make the store unreachable for a
while.

A read may be held where it waits for the store, and any other commands may come before it ends.
The store is asked either when the read begins to wait or when it ends (`Command.beginGet`).  A
read that is held gets a ticket, and no ticket is given out twice.
-/

namespace NearCache

/-- A read that waits for the store. -/
structure HeldRead where
  read : PendingRead
  /-- The answer of the store, if the store was asked already. -/
  answer : Option (Outcome (Option Versioned))

/-- What a user can ask for. -/
inductive Command where
  | start (node : NodeConfig)
  | apply (deployment : Deployment)
  /-- A cache is created in the name of a member. -/
  | create (creator : MemberId) (config : CacheConfig)
  /-- A node creates a cache and asks for its endpoint. -/
  | createFrom (node : MemberId) (config : CacheConfig)
  | getOrCreate (node : MemberId) (config : CacheConfig)
  | cache (node : MemberId) (name : String)
  | destroy (name : String)
  /-- A node destroys a cache. -/
  | destroyFrom (node : MemberId) (name : String)
  | stop (node : MemberId)
  | stopAll
  | get (endpoint : EndpointId) (key : Bytes)
  | getAll (endpoint : EndpointId) (keys : List Bytes)
  | peek (endpoint : EndpointId) (key : Bytes)
  | put (endpoint : EndpointId) (key value : Bytes)
  /-- Bindings are written in the order in which they are listed. -/
  | putAll (endpoint : EndpointId) (entries : List (Bytes × Bytes))
  | remove (endpoint : EndpointId) (key : Bytes)
  | setAvailable (available : Bool)
  /-- A read that is held if it has to go to the store; `early` says that the store is asked before
  the read is held. -/
  | beginGet (endpoint : EndpointId) (key : Bytes) (early : Bool)
  /-- A held read ends. -/
  | endGet (ticket : Nat)

/-- What a user is told. -/
inductive Answer where
  | nothing
  | member (r : Outcome MemberId)
  | members (r : Outcome (List MemberId))
  | done (r : Outcome Unit)
  | endpoint (r : Outcome EndpointId)
  | found (r : Outcome Bool)
  | value (r : Outcome (Option Bytes))
  | values (r : Outcome (Table Bytes Bytes))
  | peeked (r : Outcome (Option Bytes))
  | held (ticket : Nat)

/-- A cluster in use. -/
structure Session where
  cluster : Cluster := {}
  /-- The reads that are held, by ticket. -/
  held : Table Nat HeldRead := ∅
  nextTicket : Nat := 0

namespace Session

/-- The session in which nothing has happened yet, given the numbers for the members to come and
the sinks for the events. -/
def fresh (memberIds : Nat → MemberId) (publisher : Fanout) : Session :=
  { cluster := { memberIds, publisher } }

/-- The store and the endpoints. -/
def fabric (s : Session) : Fabric := s.cluster.fabric

/-- The same session with another cluster. -/
def withCluster (s : Session) (c : Cluster) : Session := { s with cluster := c }

/-- The same session with another fabric. -/
def withFabric (s : Session) (f : Fabric) : Session :=
  s.withCluster { s.cluster with fabric := f }

/-- Holds a read. -/
def hold (s : Session) (r : PendingRead) (answer : Option (Outcome (Option Versioned))) : Session :=
  { s with
    held := s.held.insert s.nextTicket ⟨r, answer⟩
    nextTicket := s.nextTicket + 1 }

/-- A read begins and is held if it has to go to the store. -/
def beginGet (s : Session) (id : EndpointId) (key : Bytes) (early : Bool) : Answer × Session :=
  match s.fabric.beginGet id key with
  | (.done r, f) => (.value r, s.withFabric f)
  | (.pending r, f) =>
    if early then
      let (answer, f) := f.fetch r
      (.held s.nextTicket, (s.withFabric f).hold r (some answer))
    else (.held s.nextTicket, (s.withFabric f).hold r none)

/-- What the store answers to a held read, now if it was not asked before. -/
def answerFor (f : Fabric) (h : HeldRead) : Outcome (Option Versioned) × Fabric :=
  match h.answer with
  | some answer => (answer, f)
  | none => f.fetch h.read

/-- A held read ends. -/
def endGet (s : Session) (ticket : Nat) : Answer × Session :=
  match s.held.get? ticket with
  | none => (.nothing, s)
  | some h =>
    let (answer, f) := answerFor s.fabric h
    let (r, f) := f.endGet h.read answer
    (.value r, { s.withFabric f with held := s.held.erase ticket })

/-- Carries out a command. -/
def step (s : Session) : Command → Answer × Session
  | .start n => let (r, c) := s.cluster.startNode n; (.member r, s.withCluster c)
  | .apply d => let (r, c) := s.cluster.apply d; (.members r, s.withCluster c)
  | .create id config => let (r, c) := s.cluster.createCache id config; (.done r, s.withCluster c)
  | .createFrom id config =>
    let (r, c) := s.cluster.createFrom id config; (.endpoint r, s.withCluster c)
  | .getOrCreate id config =>
    let (r, c) := s.cluster.getOrCreate id config; (.endpoint r, s.withCluster c)
  | .cache id name => (.endpoint (s.cluster.cacheOn id name), s)
  | .destroy name => let (b, c) := s.cluster.destroyCache name; (.found (.ok b), s.withCluster c)
  | .destroyFrom id name =>
    let (r, c) := s.cluster.destroyFrom id name; (.found r, s.withCluster c)
  | .stop id => let (r, c) := s.cluster.stopNode id; (.done r, s.withCluster c)
  | .stopAll => (.nothing, s.withCluster s.cluster.stopAll)
  | .get id key => let (r, f) := s.fabric.get id key; (.value r, s.withFabric f)
  | .getAll id keys => let (r, f) := s.fabric.getAll id keys; (.values r, s.withFabric f)
  | .peek id key => (.peeked (s.fabric.peek id key), s)
  | .put id key value => let (r, f) := s.fabric.put id key value; (.done r, s.withFabric f)
  | .putAll id entries => let (r, f) := s.fabric.putEach id entries; (.done r, s.withFabric f)
  | .remove id key => let (r, f) := s.fabric.remove id key; (.found r, s.withFabric f)
  | .setAvailable b => (.nothing, s.withFabric (s.fabric.setAvailable b))
  | .beginGet id key early => s.beginGet id key early
  | .endGet ticket => s.endGet ticket

/-- Carries out commands one after the other. -/
def run (s : Session) : List Command → List Answer × Session
  | [] => ([], s)
  | c :: rest =>
    let (a, s) := s.step c
    let (answers, s) := s.run rest
    (a :: answers, s)

/-- The session after commands. -/
def after (s : Session) (cs : List Command) : Session := (s.run cs).2

/-- What the commands are answered. -/
def answers (s : Session) (cs : List Command) : List Answer := (s.run cs).1

@[simp] theorem after_nil (s : Session) : s.after [] = s := rfl

@[simp] theorem after_cons (s : Session) (c : Command) (cs : List Command) :
    s.after (c :: cs) = (s.step c).2.after cs := rfl

@[simp] theorem answers_cons (s : Session) (c : Command) (cs : List Command) :
    s.answers (c :: cs) = (s.step c).1 :: (s.step c).2.answers cs := rfl

end Session

end NearCache
