import NearCache.Event
import NearCache.Fabric
/-!
# Hosts

A host is one running node: its member and the endpoint of every cache that it started.  Starting
a cache is idempotent: the first decision about a near cache stands until the cache is taken from
the host again or the host shuts down.
-/

namespace NearCache

/-- A node and the caches that it started. -/
structure Host where
  member : Member
  caches : Table String EndpointId := ∅
  stopped : Bool := false
  deriving DecidableEq

namespace Host

/-- The events that tell of a cache that starts: what became of its near cache, then the start. -/
def startEvents (node cache : String) (t : Trigger) (p : Placement) : List Event :=
  let first := match p with
    | .present => [Event.nearActivated node cache t.name]
    | .absent reason =>
      match reason.failure? with
      | some text => [Event.selectorFailed node cache text]
      | none => []
  first ++ [.cacheStarted node cache t.name p.isPresent]

/-- What starting a cache leads to. -/
structure Activation where
  endpoint : EndpointId
  /-- What there is to tell; nothing if the cache had started before. -/
  events : List Event
  host : Host
  fabric : Fabric

/-- Starts a cache on a host that runs, unless a cache of this name has started there already. -/
def activate (h : Host) (f : Fabric) (c : CacheConfig) (t : Trigger) : Outcome Activation :=
  if h.stopped then .error (.nodeStopped h.member.name)
  else
    match h.caches.get? c.name with
    | some id => .ok ⟨id, [], h, f⟩
    | none =>
      let p := Placement.decide c h.member
      let (id, f) := f.start h.member.name c p
      .ok ⟨id, startEvents h.member.name c.name t p,
        { h with caches := h.caches.insert c.name id }, f⟩

/-- Takes a cache from the host and closes its endpoint, if the cache had started. -/
def deactivate (h : Host) (f : Fabric) (name : String) : Option EndpointId × Host × Fabric :=
  match h.caches.get? name with
  | none => (none, h, f)
  | some id =>
    (some id, { h with caches := h.caches.erase name }, (f.close id .cacheDestroyed).2)

/-- Closes endpoints because their node stops. -/
def closeAll (f : Fabric) (ids : List EndpointId) : Fabric :=
  ids.foldl (fun f id => (f.close id .nodeStopped).2) f

/-- Stops the host and closes all its endpoints; the answer is whether it was running. -/
def shutdown (h : Host) (f : Fabric) : Bool × Host × Fabric :=
  if h.stopped then (false, h, f)
  else (true, { h with caches := ∅, stopped := true }, closeAll f h.caches.values)

/-- The names of the started caches, in order. -/
def cacheNames (h : Host) : List String := h.caches.keys

/-- One line for a developer. -/
def describe (h : Host) : String :=
  "PlatformCacheActivator \x7b node: " ++ Text.quoted h.member.name ++ ", caches: " ++
    Text.quotedList h.cacheNames ++ ", stopped: " ++ (if h.stopped then "true" else "false") ++
    " \x7d"

end Host

end NearCache
