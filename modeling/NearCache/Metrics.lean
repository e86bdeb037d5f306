import NearCache.Number.Shortest
/-!
# Counting what a cache does on a node

Six counters that only grow, and a snapshot of them with the size of the near cache and the share
of reads that it served.
-/

namespace NearCache

/-- What one cache did on one node since it started there. -/
structure Counters where
  gets : Nat := 0
  puts : Nat := 0
  removals : Nat := 0
  /-- Reads that the store served. -/
  remoteGets : Nat := 0
  /-- Reads that the near cache served. -/
  hits : Nat := 0
  /-- Announcements that changed the near cache. -/
  invalidations : Nat := 0
  deriving DecidableEq, Repr, Inhabited

/-- The share of `hits` in `gets` as a floating-point number: both rounded to the format, then
divided; zero when there were no reads. -/
def hitRatio (hits gets : Nat) : Binary64 :=
  if gets = 0 then .zero
  else (do (← Binary64.ofNat hits).div (← Binary64.ofNat gets)).getD .zero

/-- The counters at one moment. -/
structure Snapshot where
  counters : Counters
  /-- How many values the near cache holds. -/
  entries : Nat
  hitRatio : Binary64
  deriving DecidableEq, Repr

/-- The snapshot of counters beside a near cache of a given size. -/
def Counters.snapshot (c : Counters) (entries : Nat) : Snapshot :=
  ⟨c, entries, NearCache.hitRatio c.hits c.gets⟩

end NearCache
