import NearCache.Bytes
import NearCache.Fault
/-!
# The distributed store

The store holds the data of every cache and is the only judge of what is current.  Each accepted
write gets the next version of one counter for the whole store, so a later write always has the
larger version, whatever its cache and key.  A removal leaves a mark with a version of its own.

Every write concerns the listeners that are subscribed to its cache: an operation that writes
returns the deliveries that it causes, in the order of subscription.  A write and its announcement
are two steps, `write` or `erase` and then `announce`; `put` and `remove` join them.
-/

namespace NearCache

/-- A value and the version of the write that made it. -/
structure Versioned where
  value : Bytes
  version : Nat
  deriving DecidableEq, Repr

/-- What the store keeps for a key: a value, or the mark of a removal. -/
structure Slot where
  value : Option Bytes
  version : Nat
  deriving DecidableEq, Repr

/-- The value of a slot with its version, if the slot is no mark. -/
def Slot.live? (s : Slot) : Option Versioned := s.value.map fun v => ⟨v, s.version⟩

/-- What happened to a key. -/
inductive Change where
  | put (now : Versioned)
  | removed (version : Nat)
  deriving DecidableEq, Repr

/-- The version of the write behind a change. -/
def Change.version : Change → Nat
  | put v => v.version
  | removed version => version

/-- The announcement of one write. -/
structure Notice where
  cache : String
  key : Bytes
  change : Change
  deriving DecidableEq, Repr

/-- A listener's interest in the writes to one cache. -/
structure Subscription (L : Type) where
  cache : String
  listener : L
  deriving DecidableEq, Repr

/-- One announcement on its way to one listener. -/
structure Delivery (L : Type) where
  listener : L
  notice : Notice
  deriving DecidableEq, Repr

/-- Counts of what the store holds and has done. -/
structure StoreStats where
  objects : Nat
  reads : Nat
  writes : Nat
  deletes : Nat
  notifications : Nat
  subscriptions : Nat
  deriving DecidableEq, Repr

/-- The store, with listeners of type `L`. -/
structure Store (L : Type) where
  /-- The slots of every cache by key. -/
  data : Table String (Table Bytes Slot) := ∅
  subscriptions : Table Nat (Subscription L) := ∅
  lastVersion : Nat := 0
  lastSubscription : Nat := 0
  available : Bool := true
  reads : Nat := 0
  writes : Nat := 0
  deletes : Nat := 0
  notifications : Nat := 0

namespace Store

variable {L : Type}

instance : Inhabited (Store L) := ⟨{}⟩

/-- Fails while the store cannot be reached. -/
def reach (s : Store L) (cache : String) : Outcome Unit :=
  if s.available then .ok () else .error (.storeUnavailable cache "store unreachable")

/-- What the store keeps for a key of a cache. -/
def slot? (s : Store L) (cache : String) (key : Bytes) : Option Slot :=
  (s.data.get? cache).bind (·.get? key)

/-- The current value of a key, whether or not the store can be reached. -/
def current? (s : Store L) (cache : String) (key : Bytes) : Option Versioned :=
  (s.slot? cache key).bind Slot.live?

/-- The same store with another slot for one key. -/
def setSlot (s : Store L) (cache : String) (key : Bytes) (slot : Slot) : Store L :=
  { s with data := s.data.insert cache (((s.data.get? cache).getD ∅).insert key slot) }

/-- Reads a key. -/
def get (s : Store L) (cache : String) (key : Bytes) : Outcome (Option Versioned) × Store L :=
  match s.reach cache with
  | .error e => (.error e, s)
  | .ok () => (.ok (s.current? cache key), { s with reads := s.reads + 1 })

/-! ## Writing -/

/-- Gives a key a value under the next version. -/
def write (s : Store L) (cache : String) (key value : Bytes) : Notice × Store L :=
  let version := s.lastVersion + 1
  let s := { s with lastVersion := version, writes := s.writes + 1 }
  (⟨cache, key, .put ⟨value, version⟩⟩, s.setSlot cache key ⟨some value, version⟩)

/-- Takes a key's value away under the next version; nothing happens if it has none. -/
def erase (s : Store L) (cache : String) (key : Bytes) : Option (Notice × Store L) :=
  (s.current? cache key).map fun _ =>
    let version := s.lastVersion + 1
    let s := { s with lastVersion := version, deletes := s.deletes + 1 }
    (⟨cache, key, .removed version⟩, s.setSlot cache key ⟨none, version⟩)

/-- The listeners of a cache, in the order of subscription. -/
def listeners (s : Store L) (cache : String) : List L :=
  (s.subscriptions.values.filter (·.cache = cache)).map (·.listener)

/-- Announces a write to the listeners of its cache. -/
def announce (s : Store L) (n : Notice) : List (Delivery L) × Store L :=
  let told := s.listeners n.cache
  (told.map (⟨·, n⟩), { s with notifications := s.notifications + told.length })

/-- Writes a key: the version of the write and the deliveries that it causes. -/
def put (s : Store L) (cache : String) (key value : Bytes) :
    Outcome Nat × List (Delivery L) × Store L :=
  match s.reach cache with
  | .error e => (.error e, [], s)
  | .ok () =>
    let (n, s) := s.write cache key value
    let (ds, s) := s.announce n
    (.ok n.change.version, ds, s)

/-- Removes a key: the version of the removal, or `none` if the key had no value. -/
def remove (s : Store L) (cache : String) (key : Bytes) :
    Outcome (Option Nat) × List (Delivery L) × Store L :=
  match s.reach cache with
  | .error e => (.error e, [], s)
  | .ok () =>
    match s.erase cache key with
    | none => (.ok none, [], s)
    | some (n, s) =>
      let (ds, s) := s.announce n
      (.ok (some n.change.version), ds, s)

/-- Drops all data of a cache, also while the store cannot be reached. -/
def destroy (s : Store L) (cache : String) : Store L := { s with data := s.data.erase cache }

/-! ## Listening -/

/-- Subscribes a listener to the writes to a cache, under a number that is never used again. -/
def subscribe (s : Store L) (cache : String) (listener : L) : Nat × Store L :=
  let id := s.lastSubscription + 1
  (id, { s with
    lastSubscription := id
    subscriptions := s.subscriptions.insert id ⟨cache, listener⟩ })

/-- Ends a subscription; false if there is none under the number. -/
def unsubscribe (s : Store L) (id : Nat) : Bool × Store L :=
  (s.subscriptions.contains id, { s with subscriptions := s.subscriptions.erase id })

/-- How many subscriptions a cache has. -/
def subscriberCount (s : Store L) (cache : String) : Nat := (s.listeners cache).length

/-- How many keys of a cache have a value. -/
def liveCount (slots : Table Bytes Slot) : Nat := (slots.values.filter (·.value.isSome)).length

/-- What the store holds and has done. -/
def stats (s : Store L) : StoreStats where
  objects := s.data.values.foldr (fun slots n => liveCount slots + n) 0
  reads := s.reads
  writes := s.writes
  deletes := s.deletes
  notifications := s.notifications
  subscriptions := s.subscriptions.size

/-! ## What a write leaves behind -/

theorem slot?_setSlot (s : Store L) (c c' : String) (k k' : Bytes) (slot : Slot) :
    (s.setSlot c k slot).slot? c' k' =
      if c' = c ∧ k' = k then some slot else s.slot? c' k' := by
  by_cases hc : c' = c
  · subst hc
    by_cases hk : k' = k
    · simp [slot?, setSlot, hk]
    · cases h : s.data.get? c' <;>
        simp [slot?, setSlot, Table.get?_insert, hk, h]
  · simp [slot?, setSlot, Table.get?_insert, hc]

theorem current?_write (s : Store L) (c c' : String) (k k' v : Bytes) :
    (s.write c k v).2.current? c' k' =
      if c' = c ∧ k' = k then some ⟨v, s.lastVersion + 1⟩ else s.current? c' k' := by
  simp only [write, current?, slot?_setSlot]
  split <;> rfl

theorem slot?_destroy (s : Store L) (c c' : String) (k : Bytes) :
    (s.destroy c).slot? c' k = if c' = c then none else s.slot? c' k := by
  by_cases h : c' = c <;> simp [slot?, destroy, Table.get?_erase, h]

end Store

end NearCache
