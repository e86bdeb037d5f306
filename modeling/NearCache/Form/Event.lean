import NearCache.Event
import NearCache.Form.Config
import NearCache.Time.Timestamp
/-!
# How events are written

An event is written with the time at which it happened, as a record with the field `type`, which
says what happened, the fields of that type, and the time last.
-/

namespace NearCache

open Document Time

instance : Form Timestamp where
  tree t := .text t.text
  read _ t := do
    match ← t.hold with
    | .text s =>
      match Timestamp.ofText s with
      | .ok time => return time
      | .error p => throw (.other p.text)
    | t => throw (t.mismatch "an RFC 3339 formatted date and time string")

/-- An event and the time at which it happened. -/
structure Stamped where
  event : Event
  time : Timestamp
  deriving DecidableEq

namespace Event

/-- The fields of an event, without the time. -/
def fields : Event → List (String × Tree)
  | nodeJoined node client => [("node", .text node), ("client", .bool client)]
  | nodeLeft node => [("node", .text node)]
  | cacheStarted node cache trigger near =>
    [("node", .text node), ("cache", .text cache), ("trigger", .text trigger),
     ("has_platform_cache", .bool near)]
  | nearActivated node cache trigger =>
    [("node", .text node), ("cache", .text cache), ("trigger", .text trigger)]
  | selectorFailed node cache reason =>
    [("node", .text node), ("cache", .text cache), ("reason", .text reason)]
  | cacheDestroyed cache => [("cache", .text cache)]

/-- An event as a record, without the time. -/
def tree (e : Event) : Tree :=
  .record (((("type", .text e.kind) :: e.fields)).map fun (k, v) => (.text k, v))

/-- The names of the kinds of events. -/
def kinds : List String :=
  ["NodeJoined", "NodeLeft", "CacheStarted", "PlatformCacheActivated", "FilterEvaluationFailed",
    "CacheDestroyed"]

end Event

namespace Stamped

/-- What is known of an event. -/
structure Parts where
  node : Option String := none
  client : Option Bool := none
  cache : Option String := none
  trigger : Option String := none
  near : Option Bool := none
  reason : Option String := none
  time : Option Timestamp := none

/-- The fields of one kind of event. -/
def fieldsOf (kind : String) : List String :=
  match kind with
  | "NodeJoined" => ["node", "client", "timestamp"]
  | "NodeLeft" => ["node", "timestamp"]
  | "CacheStarted" => ["node", "cache", "trigger", "has_platform_cache", "timestamp"]
  | "PlatformCacheActivated" => ["node", "cache", "trigger", "timestamp"]
  | "FilterEvaluationFailed" => ["node", "cache", "reason", "timestamp"]
  | _ => ["cache", "timestamp"]

/-- Takes in one field. -/
def take (o : Origin) (name : String) (t : Tree) (x : Parts) : Reading Parts :=
  match name with
  | "node" => do return { x with node := some (← Form.read o t) }
  | "client" => do return { x with client := some (← Form.read o t) }
  | "cache" => do return { x with cache := some (← Form.read o t) }
  | "trigger" => do return { x with trigger := some (← Form.read o t) }
  | "has_platform_cache" => do return { x with near := some (← Form.read o t) }
  | "reason" => do return { x with reason := some (← Form.read o t) }
  | _ => do return { x with time := some (← Form.read o t) }

/-- The event of one kind that the parts make up. -/
def eventOf (kind : String) (x : Parts) : Except String Event :=
  match kind with
  | "NodeJoined" => do
    let node ← need "node" x.node
    let client ← need "client" x.client
    return .nodeJoined node client
  | "NodeLeft" => do
    let node ← need "node" x.node
    return .nodeLeft node
  | "CacheStarted" => do
    let node ← need "node" x.node
    let cache ← need "cache" x.cache
    let trigger ← need "trigger" x.trigger
    let near ← need "has_platform_cache" x.near
    return .cacheStarted node cache trigger near
  | "PlatformCacheActivated" => do
    let node ← need "node" x.node
    let cache ← need "cache" x.cache
    let trigger ← need "trigger" x.trigger
    return .nearActivated node cache trigger
  | "FilterEvaluationFailed" => do
    let node ← need "node" x.node
    let cache ← need "cache" x.cache
    let reason ← need "reason" x.reason
    return .selectorFailed node cache reason
  | _ => do
    let cache ← need "cache" x.cache
    return .cacheDestroyed cache

/-- The record of one kind of event. -/
def shape (kind : String) : Shape Parts Stamped where
  title := "struct variant DomainEvent::" ++ kind
  fields := fieldsOf kind
  blank := {}
  take := take
  finish x := do
    let event ← eventOf kind x
    let time ← need "timestamp" x.time
    return ⟨event, time⟩

/-- The tree that an event is written as. -/
def tree (s : Stamped) : Tree :=
  let fields := ("type", .text s.event.kind) :: (s.event.fields ++ [("timestamp", Form.tree s.time)])
  .record (fields.map fun (k, v) => (.text k, v))

instance : Form Stamped where
  tree := tree
  read _ t := do
    let (kind, rest) ← readTagged "internally tagged enum DomainEvent" "type" Event.kinds t
    (shape kind).read .held rest

end Stamped

end NearCache
