import NearCache.Event
/-!
# Journals of events

A journal keeps every event in the order of arrival, and beside them two indexes: for each cache
and for each node the positions of the events that concern it.  Questions about one cache or one
node are answered through the indexes.
-/

namespace NearCache

/-- Positions in a journal, by the name that the events there concern. -/
abbrev Index := Table String (List Nat)

/-- Adds a position under a name, if there is a name. -/
def Index.note (ix : Index) (name : Option String) (position : Nat) : Index :=
  match name with
  | some n => ix.insert n ((ix.get? n).getD [] ++ [position])
  | none => ix

/-- The positions under a name. -/
def Index.positions (ix : Index) (name : String) : List Nat := (ix.get? name).getD []

/-- Events in the order of arrival, with an index by cache and one by node. -/
structure Journal where
  events : Array Event := #[]
  byCache : Index := ∅
  byNode : Index := ∅
  deriving DecidableEq

namespace Journal

instance : Inhabited Journal := ⟨{}⟩

/-- Adds an event at the end. -/
def push (j : Journal) (e : Event) : Journal where
  events := j.events.push e
  byCache := j.byCache.note e.cache? j.events.size
  byNode := j.byNode.note e.node? j.events.size

/-- Adds events at the end, in their order. -/
def append (j : Journal) (es : List Event) : Journal := es.foldl push j

/-- How many events the journal has. -/
def size (j : Journal) : Nat := j.events.size

/-- The journal without events. -/
def clear (_ : Journal) : Journal := {}

/-- The events at some positions. -/
def select (j : Journal) (positions : List Nat) : List Event :=
  positions.filterMap fun i => j.events[i]?

/-- The events of one kind. -/
def ofKind (j : Journal) (kind : String) : List Event := j.events.toList.filter (·.kind = kind)

/-- The events that concern one cache. -/
def forCache (j : Journal) (cache : String) : List Event := j.select (j.byCache.positions cache)

/-- The events that concern one node. -/
def forNode (j : Journal) (node : String) : List Event := j.select (j.byNode.positions node)

/-- The nodes with a near cache for a cache, as one more event about the cache leaves them. -/
def track (nodes : Table String Unit) : Event → Table String Unit
  | .nearActivated node _ _ => nodes.insert node ()
  | .cacheDestroyed _ => ∅
  | _ => nodes

/-- The nodes that activated a near cache for a cache since it was last destroyed, in order. -/
def nearNodes (j : Journal) (cache : String) : List String :=
  ((j.forCache cache).foldl track ∅).keys

end Journal

end NearCache
