import Mathlib.Data.Finset.Card
import NearCache.Proofs.Fabric.Wiring

/-!
# Near caches as sets of warm keys

As long as no read is held, all that a near cache adds to an endpoint can be told without versions,
loads and announcements: it has a set of warm keys. A read that finds a value in the store makes its
key warm, a removal of a key makes it cold everywhere, closing makes all keys cold, and nothing else
does anything to the set.

`Use` is what can be done with a fabric, and `Account` keeps book of it by these rules alone: for
each endpoint the warm keys and the counters, for each cache the values. What the book says is what
users of the fabric see (`NearCache.Proofs.Warmth.Counting`).
-/

namespace NearCache

/-- What can be done with a fabric when reads are not held. -/
inductive Use where
  | start (node : String) (config : CacheConfig) (placement : Placement)
  | close (endpoint : EndpointId) (reason : Closing)
  | get (endpoint : EndpointId) (key : Bytes)
  | getAll (endpoint : EndpointId) (keys : List Bytes)
  | put (endpoint : EndpointId) (key value : Bytes)
  /-- Bindings are written in the order in which they are listed. -/
  | putAll (endpoint : EndpointId) (entries : List (Bytes × Bytes))
  | remove (endpoint : EndpointId) (key : Bytes)
  | storeGet (cache : String) (key : Bytes)
  | storePut (cache : String) (key value : Bytes)
  | storeRemove (cache : String) (key : Bytes)
  | setAvailable (available : Bool)
  | destroy (cache : String)

namespace Fabric

/-- The fabric after a use. -/
def use (f : Fabric) : Use → Fabric
  | .start node config p => (f.start node config p).2
  | .close id r => (f.close id r).2
  | .get id k => (f.get id k).2
  | .getAll id ks => (f.getAll id ks).2
  | .put id k v => (f.put id k v).2
  | .putAll id entries => (f.putEach id entries).2
  | .remove id k => (f.remove id k).2
  | .storeGet c k => (f.storeGet c k).2
  | .storePut c k v => (f.storePut c k v).2
  | .storeRemove c k => (f.storeRemove c k).2
  | .setAvailable b => f.setAvailable b
  | .destroy c => f.destroy c

/-- The fabric after uses. -/
def uses (f : Fabric) (us : List Use) : Fabric := us.foldl use f

/-- No endpoint of a cache is open. -/
def isIdle (f : Fabric) (cache : String) : Bool :=
  f.endpoints.values.all fun e => e.closed.isSome || e.name ≠ cache

/-- A use does not drop the data of a cache while an endpoint of it is open. -/
def spares (f : Fabric) : Use → Bool
  | .destroy c => f.isIdle c
  | _ => true

/-- None of the uses drops the data of a cache while an endpoint of it is open. -/
def sparesAll (f : Fabric) : List Use → Bool
  | [] => true
  | u :: us => f.spares u && (f.use u).sparesAll us

end Fabric

namespace Account

/-- What the book says of an endpoint. -/
structure Row where
  cache : String
  /-- Whether there is a near cache. -/
  near : Bool
  isOpen : Bool := true
  /-- The keys that the near cache can serve. -/
  warm : Finset Bytes := ∅
  counters : Counters := {}

namespace Row

/-- The same row with other counters. -/
def count (r : Row) (g : Counters → Counters) : Row := { r with counters := g r.counters }

/-- A closed endpoint has no warm keys. -/
def close (r : Row) : Row := { r with isOpen := false, warm := ∅ }

/-- A read is answered from a warm key or by the store. -/
def answers (r : Row) (available : Bool) (key : Bytes) : Bool :=
  r.isOpen && (decide (key ∈ r.warm) || available)

/-- A read of a key. It is a hit if and only if the key is warm. Otherwise the store is asked, and
what is found there becomes warm if there is a near cache. -/
def read (r : Row) (available found : Bool) (key : Bytes) : Row :=
  if r.isOpen then
    if key ∈ r.warm then r.count fun c => { c with gets := c.gets + 1, hits := c.hits + 1 }
    else if available then
      { r with
        warm := if r.near && found then insert key r.warm else r.warm
        counters := { r.counters with
          gets := r.counters.gets + 1
          remoteGets := r.counters.remoteGets + 1 } }
    else r.count fun c => { c with gets := c.gets + 1 }
  else r

/-- A key of a cache is written: the near caches that have it take over the new value. -/
def overwritten (r : Row) (cache : String) (key : Bytes) : Row :=
  if r.cache = cache ∧ key ∈ r.warm then
    r.count fun c => { c with invalidations := c.invalidations + 1 }
  else r

/-- A key of a cache is removed: the near caches that have it give it up. -/
def erased (r : Row) (cache : String) (key : Bytes) : Row :=
  if r.cache = cache ∧ key ∈ r.warm then
    { r with
      warm := r.warm.erase key
      counters := { r.counters with invalidations := r.counters.invalidations + 1 } }
  else r

end Row

end Account

/-- A book of the endpoints and of the values in the store. -/
structure Account where
  rows : Table EndpointId Account.Row := ∅
  started : Nat := 0
  value? : String → Bytes → Option Bytes := fun _ _ => none
  available : Bool := true

namespace Account

/-- What the book says of an endpoint by its number. -/
def row? (a : Account) (id : EndpointId) : Option Row := a.rows.get? id

/-- Changes the row of one endpoint. -/
def update (a : Account) (id : EndpointId) (g : Row → Row) : Account :=
  { a with rows := a.rows.alter id (·.map g) }

/-- The same book with another value of one key, or none. -/
def setValue (a : Account) (cache : String) (key : Bytes) (value : Option Bytes) : Account :=
  { a with value? := fun c k => if c = cache ∧ k = key then value else a.value? c k }

/-- The store is to write a key. -/
def write (a : Account) (cache : String) (key value : Bytes) : Account :=
  if a.available then
    { a.setValue cache key (some value) with rows := a.rows.mapValues (·.overwritten cache key) }
  else a

/-- The store is to remove a key; nothing happens if it has no value. -/
def erase (a : Account) (cache : String) (key : Bytes) : Account :=
  if a.available && (a.value? cache key).isSome then
    { a.setValue cache key none with rows := a.rows.mapValues (·.erased cache key) }
  else a

/-- A read through an endpoint. -/
def get (a : Account) (id : EndpointId) (key : Bytes) : Account :=
  a.update id fun r => r.read a.available (a.value? r.cache key).isSome key

/-- Reads through an endpoint, up to the first that is not answered. -/
def getEach (a : Account) (id : EndpointId) : List Bytes → Account
  | [] => a
  | k :: ks =>
    if (a.row? id).any (·.answers a.available k) then (a.get id k).getEach id ks else a.get id k

/-- A write through an endpoint. -/
def put (a : Account) (id : EndpointId) (key value : Bytes) : Account :=
  match a.row? id with
  | some r =>
    if r.isOpen then
      (a.update id (·.count fun c => { c with puts := c.puts + 1 })).write r.cache key value
    else a
  | none => a

/-- Writes through an endpoint, up to the first that fails. -/
def putEach (a : Account) (id : EndpointId) : List (Bytes × Bytes) → Account
  | [] => a
  | (k, v) :: rest =>
    if (a.row? id).any (·.isOpen) && a.available then (a.put id k v).putEach id rest
    else a.put id k v

/-- A removal through an endpoint. -/
def remove (a : Account) (id : EndpointId) (key : Bytes) : Account :=
  match a.row? id with
  | some r =>
    if r.isOpen then
      (a.update id (·.count fun c => { c with removals := c.removals + 1 })).erase r.cache key
    else a
  | none => a

/-- The book after a use. -/
def use (a : Account) : Use → Account
  | .start _ config p =>
    { a with
      rows := a.rows.insert a.started { cache := config.name, near := p.isPresent }
      started := a.started + 1 }
  | .close id _ => a.update id Row.close
  | .get id k => a.get id k
  | .getAll id ks => a.getEach id ks
  | .put id k v => a.put id k v
  | .putAll id entries => a.putEach id entries
  | .remove id k => a.remove id k
  | .storeGet _ _ => a
  | .storePut c k v => a.write c k v
  | .storeRemove c k => a.erase c k
  | .setAvailable b => { a with available := b }
  | .destroy c => { a with value? := fun c' k => if c' = c then none else a.value? c' k }

/-- The book after uses. -/
def uses (a : Account) (us : List Use) : Account := us.foldl use a

theorem row?_update (a : Account) (id j : EndpointId) (g : Row → Row) :
    (a.update id g).row? j = if j = id then (a.row? id).map g else a.row? j := by
  simp [update, row?, Table.get?_alter]

end Account

end NearCache
