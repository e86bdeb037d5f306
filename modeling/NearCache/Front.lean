import NearCache.Front.Entry
/-!
# Near caches

The near cache of one cache on one node: its entries, spread over a fixed number of shards by a
hash of the key, and a count of those that have a value.  Every operation looks at one key in one
shard, and `Front.Entry` says what it does there.
-/

namespace NearCache

/-- The number of shards of a near cache. -/
def shardCount : Nat := 64

/-- A quick hash of a byte string: for each byte a rotation by five bits, an exclusive or, and a
multiplication by an odd constant, modulo 2^64. -/
def mixHash (b : Bytes) : UInt64 :=
  let seed : UInt64 := 0x517cc1b727220a95
  b.foldl (fun h x => ((h <<< 5 ||| h >>> 59) ^^^ x.toUInt64) * seed) seed

/-- The shard that a key belongs to. -/
def shardOf (key : Bytes) : Fin shardCount :=
  ⟨(mixHash key).toNat % shardCount, Nat.mod_lt _ (by decide)⟩

/-- The near cache of one cache on one node. -/
structure Front where
  shards : Vector (Table Bytes Front.Entry) shardCount := Vector.replicate shardCount ∅
  /-- How many entries have a value. -/
  live : Nat := 0
  deriving DecidableEq

namespace Front

instance : Inhabited Front := ⟨{}⟩

/-- What is known of a key. -/
def cell? (f : Front) (key : Bytes) : Option Entry := f.shards[shardOf key].get? key

/-- The value of a key. -/
def get? (f : Front) (key : Bytes) : Option Bytes := (f.cell? key).bind (·.value)

/-- The version that is recorded for a key. -/
def version? (f : Front) (key : Bytes) : Option Nat := (f.cell? key).map (·.version)

/-- The count of values after one entry turned from `old` into `new`. -/
def recount (live : Nat) (old new : Option Entry) : Nat :=
  match Entry.isLive old, Entry.isLive new with
  | false, true => live + 1
  | true, false => live - 1
  | _, _ => live

/-- Replaces what is known of a key. -/
def set (f : Front) (key : Bytes) (new : Option Entry) : Front where
  shards := f.shards.set (shardOf key) (f.shards[shardOf key].alter key fun _ => new)
  live := recount f.live (f.cell? key) new

/-- Lets an event happen to a key; the answer is whether it changed the value. -/
def step (f : Front) (key : Bytes) (event : Option Entry → Option Entry × Bool) : Bool × Front :=
  let (new, changed) := event (f.cell? key)
  (changed, f.set key new)

/-- A read of a key sets out for the store. -/
def beginLoad (f : Front) (key : Bytes) : Front := f.set key (Entry.load (f.cell? key))

/-- A read of a key comes back from the store; the answer is whether its value was taken over. -/
def finishLoad (f : Front) (key : Bytes) (fetched : Option Versioned) : Bool × Front :=
  f.step key (Entry.settle fetched)

/-- A write to a key is announced. -/
def applyUpdate (f : Front) (key : Bytes) (now : Versioned) : Bool × Front :=
  f.step key (Entry.update now)

/-- A removal of a key is announced. -/
def applyRemoval (f : Front) (key : Bytes) (version : Nat) : Bool × Front :=
  f.step key (Entry.remove version)

/-- A change of a key is announced. -/
def apply (f : Front) (key : Bytes) (change : Change) : Bool × Front :=
  f.step key (Entry.apply change)

/-- How many keys have a value. -/
def size (f : Front) : Nat := f.live

/-- The keys that have a value, shard by shard. -/
def keys (f : Front) : List Bytes :=
  f.shards.toList.flatMap fun shard => (shard.filter fun _ e => e.value.isSome).keys

/-- The near cache without entries. -/
def clear (_ : Front) : Front := {}

/-! ## What replacing one entry does to the others -/

theorem cell?_set (f : Front) (k j : Bytes) (new : Option Entry) :
    (f.set k new).cell? j = if j = k then new else f.cell? j := by
  by_cases hs : shardOf j = shardOf k
  · simp [cell?, set, hs, Table.get?_alter]
  · have hne : j ≠ k := fun h => hs (h ▸ rfl)
    have : (shardOf k).val ≠ (shardOf j).val := fun h => hs (Fin.ext h.symm)
    simp [cell?, set, hne, this]

theorem cell?_step (f : Front) (k j : Bytes) (event : Option Entry → Option Entry × Bool) :
    (f.step k event).2.cell? j = if j = k then (event (f.cell? k)).1 else f.cell? j := by
  simp [step, cell?_set]

@[simp] theorem cell?_clear (f : Front) (k : Bytes) : f.clear.cell? k = none := by
  simp [clear, cell?]

end Front

end NearCache
