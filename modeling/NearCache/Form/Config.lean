import NearCache.Config
import NearCache.Form.Selector
/-!
# How configurations are written

Caches, nodes and deployments are records.  All fields are written; of those that are read, the ones
with a default may be missing, but only a field whose value is optional may be null.
-/

namespace NearCache

open Document

/-- A truth value, wherever it comes from. -/
instance : Form Bool where
  tree := .bool
  read _ t := t.readBool

/-- The tree of a value that may be absent. -/
def optionTree {α : Type} [Form α] : Option α → Tree
  | some a => Form.tree a
  | none => .null

/-- Takes a tree for a list of values. -/
def readListOf {α : Type} [Form α] (o : Origin) (t : Tree) : Reading (List α) := do
  (← t.readList).mapM (Form.read o)

/-- Takes a tree for a value that may be absent. -/
def readOptionOf {α : Type} [Form α] (o : Origin) (t : Tree) : Reading (Option α) :=
  t.readOptional (Form.read o)

/-! ## Layouts and roles -/

instance : Form Layout where
  tree l := .text l.name
  read o t := t.readChoice o [("partitioned", .partitioned), ("replicated", .replicated)]

instance : Form Role where
  tree r := .text r.name
  read o t := t.readChoice o [("server", .server), ("client", .client)]

/-! ## Near-cache settings -/

namespace NearConfig

/-- What is known of near-cache settings. -/
structure Parts where
  enabled : Option Bool := none
  selector : Option (Option Selector) := none

/-- The record of near-cache settings. -/
def shape : Shape Parts NearConfig where
  title := "struct PlatformCacheConfig"
  fields := ["enabled", "node_filter"]
  blank := {}
  take o name t x :=
    match name with
    | "enabled" => do return { x with enabled := some (← Form.read o t) }
    | _ => do return { x with selector := some (← readOptionOf o t) }
  finish x := .ok ⟨x.enabled.getD true, x.selector.getD none⟩

instance : Form NearConfig where
  tree c := .record
    [(.text "enabled", Form.tree c.enabled),
     (.text "node_filter", optionTree c.selector)]
  read := shape.read

end NearConfig

/-! ## Caches -/

namespace CacheConfig

/-- What is known of a cache. -/
structure Parts where
  name : Option String := none
  layout : Option Layout := none
  backups : Option UInt32 := none
  near : Option (Option NearConfig) := none

/-- The record of a cache. -/
def shape : Shape Parts CacheConfig where
  title := "struct DistributedCacheConfig"
  fields := ["name", "mode", "backups", "platform_cache"]
  blank := {}
  take o name t x :=
    match name with
    | "name" => do return { x with name := some (← Form.read o t) }
    | "mode" => do return { x with layout := some (← Form.read o t) }
    | "backups" => do return { x with backups := some (← Form.read o t) }
    | _ => do return { x with near := some (← readOptionOf o t) }
  finish x := do
    let name ← need "name" x.name
    return ⟨name, x.layout.getD .partitioned, x.backups.getD 0, x.near.getD none⟩

instance : Form CacheConfig where
  tree c := .record
    [(.text "name", Form.tree c.name),
     (.text "mode", Form.tree c.layout),
     (.text "backups", Form.tree c.backups),
     (.text "platform_cache", optionTree c.near)]
  read := shape.read

end CacheConfig

/-! ## Nodes -/

namespace NodeConfig

/-- What is known of a node. -/
structure Parts where
  name : Option String := none
  client : Option Bool := none
  attributes : Option Attributes := none
  caches : Option (List CacheConfig) := none

/-- The record of a node. -/
def shape : Shape Parts NodeConfig where
  title := "struct NodeConfig"
  fields := ["instance_name", "client_mode", "user_attributes", "caches"]
  blank := {}
  take o name t x :=
    match name with
    | "instance_name" => do return { x with name := some (← Form.read o t) }
    | "client_mode" => do return { x with client := some (← Form.read o t) }
    | "user_attributes" => do return { x with attributes := some (← Form.read o t) }
    | _ => do return { x with caches := some (← readListOf o t) }
  finish x := do
    let name ← need "instance_name" x.name
    return ⟨name, x.client.getD false, x.attributes.getD ∅, x.caches.getD []⟩

instance : Form NodeConfig where
  tree n := .record
    [(.text "instance_name", Form.tree n.name),
     (.text "client_mode", Form.tree n.client),
     (.text "user_attributes", Form.tree n.attributes),
     (.text "caches", .list (n.caches.map Form.tree))]
  read := shape.read

end NodeConfig

/-! ## Deployments -/

namespace LateCache

/-- What is known of a late cache. -/
structure Parts where
  creator : Option String := none
  cache : Option CacheConfig := none

/-- The record of a late cache. -/
def shape : Shape Parts LateCache where
  title := "struct DynamicCacheEntry"
  fields := ["created_by", "cache"]
  blank := {}
  take o name t x :=
    match name with
    | "created_by" => do return { x with creator := some (← Form.read o t) }
    | _ => do return { x with cache := some (← Form.read o t) }
  finish x := do
    let creator ← need "created_by" x.creator
    let cache ← need "cache" x.cache
    return ⟨creator, cache⟩

instance : Form LateCache where
  tree l := .record
    [(.text "created_by", Form.tree l.creator),
     (.text "cache", Form.tree l.cache)]
  read := shape.read

end LateCache

namespace Deployment

/-- What is known of a deployment. -/
structure Parts where
  nodes : Option (List NodeConfig) := none
  lateCaches : Option (List LateCache) := none

/-- The record of a deployment. -/
def shape : Shape Parts Deployment where
  title := "struct ClusterFile"
  fields := ["nodes", "dynamic_caches"]
  blank := {}
  take o name t x :=
    match name with
    | "nodes" => do return { x with nodes := some (← readListOf o t) }
    | _ => do return { x with lateCaches := some (← readListOf o t) }
  finish x := do
    let nodes ← need "nodes" x.nodes
    return ⟨nodes, x.lateCaches.getD []⟩

instance : Form Deployment where
  tree d := .record
    [(.text "nodes", .list (d.nodes.map Form.tree)),
     (.text "dynamic_caches", .list (d.lateCaches.map Form.tree))]
  read := shape.read

end Deployment

end NearCache
