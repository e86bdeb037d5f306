import NearCache.Config
/-!
# Placement of near caches

Every node decides by itself, from the cache's configuration and its own attributes, whether it
keeps a near cache.  A selector that cannot be meant and one that cannot be tested both keep the
near cache away.
-/

namespace NearCache

/-- Why a node keeps no near cache. -/
inductive Absence where
  | disabled
  | notSelected
  | badSelector (text : String)
  | testFailed (text : String)
  deriving DecidableEq, Repr

namespace Absence

/-- The reason in words. -/
def display : Absence → String
  | disabled => "platform cache disabled"
  | notSelected => "node filter mismatch"
  | badSelector e => "invalid node filter: " ++ e
  | testFailed e => "node filter failed: " ++ e

/-- The failure behind the reason, if there is one. -/
def failure? : Absence → Option String
  | badSelector e => some e
  | testFailed e => some e
  | _ => none

end Absence

/-- Whether a node keeps a near cache. -/
inductive Placement where
  | present
  | absent (reason : Absence)
  deriving DecidableEq, Repr

namespace Placement

/-- Whether there is a near cache. -/
def isPresent : Placement → Bool
  | present => true
  | absent _ => false

/-- The decision of one member about one cache. -/
def decide (c : CacheConfig) (m : Member) : Placement :=
  match c.near with
  | none => present
  | some near =>
    if near.enabled then
      match near.selector with
      | none => present
      | some s =>
        match s.check with
        | .error e => absent (.badSelector e.message)
        | .ok () =>
          match s.test m with
          | .ok true => present
          | .ok false => absent .notSelected
          | .error e => absent (.testFailed e.message)
    else absent .disabled

/-- The members with a near cache, in their order. -/
def resolve (c : CacheConfig) (ms : List Member) : List MemberId :=
  (ms.filter fun m => (decide c m).isPresent).map (·.id)

end Placement

end NearCache
