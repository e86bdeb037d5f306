import NearCache.Front
import NearCache.Metrics
import NearCache.Placement
/-!
# A cache as one node serves it

An endpoint is one cache on one node: its configuration, whether it has a near cache, what it
counted, and whether it is still open.  Whether there is a near cache is settled when the endpoint
starts and never changes.  Closing an endpoint is final; its first reason stays.
-/

namespace NearCache

/-- Why an endpoint stopped serving. -/
inductive Closing where
  | cacheDestroyed
  | nodeStopped
  deriving DecidableEq, Repr

/-- The name of a reason to close. -/
def Closing.name : Closing → String
  | cacheDestroyed => "CacheDestroyed"
  | nodeStopped => "NodeStopped"

/-- One cache on one node. -/
structure Endpoint where
  node : String
  config : CacheConfig
  placement : Placement
  /-- The near cache, if there is one. -/
  front : Option Front
  /-- The subscription that keeps the near cache current. -/
  subscription : Option Nat
  counters : Counters := {}
  closed : Option Closing := none
  deriving DecidableEq

namespace Endpoint

/-- The name of the cache. -/
def name (e : Endpoint) : String := e.config.name

/-- Whether the endpoint has a near cache, open or closed. -/
def hasNear (e : Endpoint) : Bool := e.front.isSome

/-- The failure of every operation on a closed endpoint. -/
def ensureOpen (e : Endpoint) : Outcome Unit :=
  match e.closed with
  | none => .ok ()
  | some .cacheDestroyed => .error (.cacheNotFound e.name)
  | some .nodeStopped => .error (.nodeStopped e.node)

/-- The value of a key in the near cache. -/
def local? (e : Endpoint) (key : Bytes) : Option Bytes := e.front.bind (·.get? key)

/-- Looks a key up in the near cache only. -/
def peek (e : Endpoint) (key : Bytes) : Outcome (Option Bytes) := do
  e.ensureOpen
  return e.local? key

/-- How many values the near cache holds. -/
def localSize (e : Endpoint) : Nat :=
  match e.front with
  | some f => f.size
  | none => 0

/-- The counters at this moment. -/
def snapshot (e : Endpoint) : Snapshot := e.counters.snapshot e.localSize

/-- The same endpoint with other counters. -/
def count (e : Endpoint) (f : Counters → Counters) : Endpoint :=
  { e with counters := f e.counters }

/-- An announced change reaches the near cache. -/
def hear (e : Endpoint) (n : Notice) : Endpoint :=
  match e.front with
  | none => e
  | some f =>
    let (changed, f) := f.apply n.key n.change
    let e := { e with front := some f }
    if changed then e.count fun c => { c with invalidations := c.invalidations + 1 } else e

/-- Whether the endpoint has a near cache, as its description names it. -/
def state (e : Endpoint) : String := if e.hasNear then "Active" else "Inactive"

/-- One line for a developer. -/
def describe (e : Endpoint) : String :=
  let closed := match e.closed with
    | none => "None"
    | some r => "Some(" ++ r.name ++ ")"
  "Synchronizer \x7b node: " ++ Text.quoted e.node ++ ", cache: " ++ Text.quoted e.name ++
    ", state: " ++ e.state ++ ", closed: " ++ closed ++ " \x7d"

end Endpoint

end NearCache
