import NearCache.Store
/-!
# One key of a near cache

A near cache knows a key in one of three ways: not at all, as an entry with a value, or as an entry
without one.  An entry without a value stands for reads that are on their way to the store and
remembers the version of the last change seen meanwhile, so that a late answer of the store cannot
bring back what has been overwritten or removed.

The functions of this module say what one event does to one key.  Each returns what is known of the
key afterwards and whether the event changed its value.
-/

namespace NearCache.Front

/-- What a near cache knows of a key. -/
structure Entry where
  value : Option Bytes
  version : Nat
  /-- How many reads of the key are on their way to the store. -/
  loads : Nat
  deriving DecidableEq, Repr

namespace Entry

/-- The entry of a key of which nothing is known yet. -/
def blank : Entry := ⟨none, 0, 0⟩

/-- An entry that nothing needs any more is dropped. -/
def keep (e : Entry) : Option Entry :=
  if e.value = none ∧ e.loads = 0 then none else some e

/-- A read sets out for the store. -/
def load (known : Option Entry) : Option Entry :=
  let e := known.getD blank
  some { e with loads := e.loads + 1 }

/-- A read comes back from the store, with what it found there. -/
def settle (fetched : Option Versioned) : Option Entry → Option Entry × Bool
  | none => (none, false)
  | some e =>
    let e := { e with loads := e.loads - 1 }
    match fetched with
    | some f =>
      if e.version < f.version then
        (keep { e with value := some f.value, version := f.version }, true)
      else (keep e, false)
    | none => (keep e, false)

/-- A write is announced. -/
def update (now : Versioned) : Option Entry → Option Entry × Bool
  | none => (none, false)
  | some e =>
    if e.version < now.version then
      (some { e with value := some now.value, version := now.version }, true)
    else (some e, false)

/-- A removal is announced.  Its mark is kept while a read of the key is on its way. -/
def remove (version : Nat) : Option Entry → Option Entry × Bool
  | none => (none, false)
  | some e =>
    if e.version < version then
      (if e.loads = 0 then none else some { e with value := none, version := version }, true)
    else (some e, false)

/-- A change of either kind is announced. -/
def apply : Change → Option Entry → Option Entry × Bool
  | .put now => update now
  | .removed version => remove version

/-- Whether a key has a value. -/
def isLive : Option Entry → Bool
  | some e => e.value.isSome
  | none => false

end Entry

end NearCache.Front
