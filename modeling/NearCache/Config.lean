import NearCache.Selector
import NearCache.Text.Blank
/-!
# Configurations

What a user writes down: a cache, a node with its static caches, and a deployment of nodes and of
caches that are created once the nodes run.

A node may list invalid or repeated caches.  `NodeConfig.sortCaches` takes the list apart: of each
valid name the first entry is accepted, and every other entry gets the problem that rules it out.
-/

namespace NearCache

/-- How a cache's data lies on the servers. -/
inductive Layout where
  | partitioned
  | replicated
  deriving DecidableEq, Repr, Inhabited

/-- The name of a layout. -/
def Layout.name : Layout → String
  | partitioned => "partitioned"
  | replicated => "replicated"

/-- The near-cache settings of a cache. -/
structure NearConfig where
  enabled : Bool := true
  selector : Option Selector := none
  deriving DecidableEq

/-- A distributed cache.  Without near-cache settings every node has a near cache. -/
structure CacheConfig where
  name : String
  layout : Layout := .partitioned
  backups : UInt32 := 0
  near : Option NearConfig := none
  deriving DecidableEq

namespace CacheConfig

/-- The backups that are really kept: a replicated cache needs none. -/
def effectiveBackups (c : CacheConfig) : UInt32 :=
  match c.layout with
  | .partitioned => c.backups
  | .replicated => 0

/-- The selector of the near cache, if there is one. -/
def selector? (c : CacheConfig) : Option Selector := c.near.bind (·.selector)

/-- The same cache with a near cache for the members that a selector means. -/
def select (c : CacheConfig) (s : Selector) : CacheConfig :=
  { c with near := some { selector := some s } }

/-- A cache needs a name that is not blank. -/
def check (c : CacheConfig) : Outcome Unit :=
  if Text.isBlankText c.name then .error (.config .blankCacheName) else .ok ()

end CacheConfig

/-- A node and the caches that it brings along. -/
structure NodeConfig where
  name : String
  client : Bool := false
  attributes : Attributes := ∅
  caches : List CacheConfig := []
  deriving DecidableEq

namespace NodeConfig

/-- The role of the node. -/
def role (n : NodeConfig) : Role := if n.client then .client else .server

/-- A node needs a name that is not blank. -/
def check (n : NodeConfig) : Outcome Unit :=
  if Text.isBlankText n.name then .error (.config .blankInstanceName) else .ok ()

/-- The accepted caches and the problems of the others, both in the order of the list, when the
names in `seen` are taken already. -/
def sortFrom (node : String) (seen : List String) :
    List CacheConfig → List CacheConfig × List Fault
  | [] => ([], [])
  | c :: rest =>
    match c.check with
    | .error e =>
      let (accepted, rejected) := sortFrom node seen rest
      (accepted, e :: rejected)
    | .ok () =>
      if c.name ∈ seen then
        let (accepted, rejected) := sortFrom node seen rest
        (accepted, .config (.repeatedCache c.name node) :: rejected)
      else
        let (accepted, rejected) := sortFrom node (c.name :: seen) rest
        (c :: accepted, rejected)

/-- The accepted caches and the problems of the others. -/
def sortCaches (n : NodeConfig) : List CacheConfig × List Fault := sortFrom n.name [] n.caches

/-- The caches that the node starts with. -/
def staticCaches (n : NodeConfig) : List CacheConfig := n.sortCaches.1

end NodeConfig

/-- A cache that a running node creates. -/
structure LateCache where
  creator : String
  cache : CacheConfig
  deriving DecidableEq

/-- Nodes to start, and caches to create once they run. -/
structure Deployment where
  nodes : List NodeConfig
  lateCaches : List LateCache := []
  deriving DecidableEq

namespace Deployment

/-- A late cache must be valid and created by a node of the deployment. -/
def checkLate (d : Deployment) (l : LateCache) : Outcome Unit := do
  l.cache.check
  if d.nodes.any (·.name = l.creator) then .ok ()
  else .error (.config (.unknownCreator l.cache.name l.creator))

/-- The first problem: of the nodes in order, then of the late caches in order. -/
def check (d : Deployment) : Outcome Unit := do
  d.nodes.forM NodeConfig.check
  d.lateCaches.forM d.checkLate

end Deployment

end NearCache
