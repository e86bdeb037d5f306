import NearCache.Table
/-!
# What happens in a cluster

The events that a cluster tells the world about: nodes come and go, caches start on nodes with or
without a near cache, and caches are destroyed.
-/

namespace NearCache

/-- What made a cache start on a node. -/
inductive Trigger where
  /-- The node brought the cache along. -/
  | static
  /-- The cache was created while the node ran. -/
  | dynamic
  /-- The node joined a cluster that had the cache. -/
  | join
  deriving DecidableEq, Repr

/-- The name of a trigger. -/
def Trigger.name : Trigger → String
  | static => "static"
  | dynamic => "dynamic"
  | join => "join"

/-- Something that happened.  Triggers stand in events by their names. -/
inductive Event where
  | nodeJoined (node : String) (client : Bool)
  | nodeLeft (node : String)
  | cacheStarted (node cache trigger : String) (near : Bool)
  | nearActivated (node cache trigger : String)
  | selectorFailed (node cache reason : String)
  | cacheDestroyed (cache : String)
  deriving DecidableEq, Repr

namespace Event

/-- The name of the kind of an event. -/
def kind : Event → String
  | nodeJoined .. => "NodeJoined"
  | nodeLeft .. => "NodeLeft"
  | cacheStarted .. => "CacheStarted"
  | nearActivated .. => "PlatformCacheActivated"
  | selectorFailed .. => "FilterEvaluationFailed"
  | cacheDestroyed .. => "CacheDestroyed"

/-- The node that an event concerns, if it concerns one. -/
def node? : Event → Option String
  | nodeJoined node _ => some node
  | nodeLeft node => some node
  | cacheStarted node .. => some node
  | nearActivated node .. => some node
  | selectorFailed node .. => some node
  | cacheDestroyed _ => none

/-- The cache that an event concerns, if it concerns one. -/
def cache? : Event → Option String
  | nodeJoined .. => none
  | nodeLeft _ => none
  | cacheStarted _ cache _ _ => some cache
  | nearActivated _ cache _ => some cache
  | selectorFailed _ cache _ => some cache
  | cacheDestroyed cache => some cache

end Event

end NearCache
