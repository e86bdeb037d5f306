import NearCache.Proofs.Coherence.Reading
import NearCache.Proofs.Warmth.Account
import NearCache.Proofs.Warmth.Front

/-!
# The row of an endpoint

`Row.Tells r e` says that a row is right about an endpoint: the cache, whether it is open, the
counters to the last digit, and, through `Front.Warm`, every key of the near cache. The lemmas of
this module follow one endpoint and its row through all that can happen to an endpoint: it starts,
it closes, a counter moves, a read goes to the store and back, an announcement arrives.
-/

namespace NearCache

namespace Account.Row

/-- The row is right about the endpoint. -/
structure Tells (r : Row) (e : Endpoint) : Prop where
  cache : r.cache = e.name
  near : r.near = e.hasNear
  isOpen : r.isOpen = e.closed.isNone
  counters : r.counters = e.counters
  /-- A closed endpoint has nothing warm. -/
  idle : r.isOpen = false → r.warm = ∅
  /-- Nor has one without a near cache. -/
  bare : e.front = none → r.warm = ∅
  warm : ∀ {front}, e.front = some front → front.Warm r.warm

/-- An announcement reaches a row: that of a write (`overwritten`) or of a removal (`erased`). -/
def hear (r : Row) (n : Notice) : Row :=
  if r.cache = n.cache ∧ n.key ∈ r.warm then
    { r with
      warm := n.change.leaves n.key r.warm
      counters := { r.counters with invalidations := r.counters.invalidations + 1 } }
  else r

namespace Tells

variable {r : Row} {e : Endpoint} {k : Bytes}

/-! ## What the row says of the keys -/

theorem local?_of_mem (h : r.Tells e) (hk : k ∈ r.warm) : ∃ v, e.local? k = some v := by
  cases hf : e.front with
  | none =>
      rw [h.bare hf] at hk
      exact absurd hk (Finset.notMem_empty _)
  | some front =>
      obtain ⟨v, hv⟩ := (h.warm hf).get?_of_mem hk
      exact ⟨v, by simp [Endpoint.local?, hf, hv]⟩

theorem local?_of_notMem (h : r.Tells e) (hk : k ∉ r.warm) : e.local? k = none := by
  cases hf : e.front with
  | none => simp [Endpoint.local?, hf]
  | some front => simp [Endpoint.local?, hf, (h.warm hf).get?_of_notMem hk]

/-- The near cache holds as many values as there are warm keys. -/
theorem localSize (h : r.Tells e) : e.localSize = r.warm.card := by
  unfold Endpoint.localSize
  cases hf : e.front with
  | none => rw [h.bare hf]; rfl
  | some front => exact (h.warm hf).size

/-! ## What happens to an endpoint -/

theorem opened (node : String) (config : CacheConfig) (p : Placement) (s : Nat) :
    Tells { cache := config.name, near := p.isPresent } (.opened node config p s) where
  cache := rfl
  near := by
    unfold Endpoint.hasNear Endpoint.opened
    cases p.isPresent <;> rfl
  isOpen := rfl
  counters := rfl
  idle h := by cases h
  bare _ := rfl
  warm {front} hf := by
    unfold Endpoint.opened at hf
    dsimp only at hf
    split at hf
    · cases hf
      exact .empty
    · cases hf

theorem shut (h : r.Tells e) (reason : Closing) : r.close.Tells (e.shut reason) where
  cache := by rw [Endpoint.name_of_config (e.config_shut reason)]; exact h.cache
  near := by
    unfold Endpoint.shut
    split
    · exact h.near
    · simpa [Endpoint.hasNear, close] using h.near
  isOpen := by
    cases hclosed : (e.shut reason).closed with
    | none => exact absurd hclosed (e.closed_shut reason)
    | some => rfl
  counters := by
    unfold Endpoint.shut
    split <;> exact h.counters
  idle _ := rfl
  bare _ := rfl
  warm {front} hf := by
    unfold Endpoint.shut at hf
    split at hf
    · next hc =>
      have hidle := h.idle (by rw [h.isOpen]; simpa [Option.isSome_iff_ne_none] using hc)
      have hwarm := h.warm hf
      rwa [hidle] at hwarm
    · obtain ⟨front₀, -, rfl⟩ := Option.map_eq_some_iff.mp hf
      exact .empty

theorem count (h : r.Tells e) (g : Counters → Counters) : (r.count g).Tells (e.count g) where
  cache := h.cache
  near := h.near
  isOpen := h.isOpen
  counters := congrArg g h.counters
  idle := h.idle
  bare := h.bare
  warm := h.warm

/-- A read of a cold key goes to the store and back. -/
theorem load (h : r.Tells e) (ho : r.isOpen = true) (hk : k ∉ r.warm) (fetched : Option Versioned)
    (hpos : ∀ x, fetched = some x → 0 < x.version) :
    Tells { r with warm := if r.near && fetched.isSome then insert k r.warm else r.warm }
      (e.load k fetched) where
  cache := h.cache
  near := by
    rw [h.near]
    simp [Endpoint.hasNear, Endpoint.load]
  isOpen := h.isOpen
  counters := h.counters
  idle hc := by rw [hc] at ho; cases ho
  bare hf := by
    have hnone : e.front = none := Option.map_eq_none_iff.mp hf
    have hnear : r.near = false := by rw [h.near, Endpoint.hasNear, hnone]; rfl
    simp [hnear, h.bare hnone]
  warm {front} hf := by
    obtain ⟨front₀, hf₀, rfl⟩ := Option.map_eq_some_iff.mp hf
    have hnear : r.near = true := by rw [h.near, Endpoint.hasNear, hf₀]; rfl
    simp only [hnear, Bool.true_and]
    exact (h.warm hf₀).load hk hpos

/-- An announcement reaches the open endpoints of its cache. Its version is news to them. -/
theorem hear (h : r.Tells e) {n : Notice}
    (hnew : ∀ {front en}, e.closed = none → e.name = n.cache → e.front = some front →
      front.cell? n.key = some en → en.version < n.change.version) :
    (r.hear n).Tells (if e.closed = none ∧ e.name = n.cache then e.hear n else e) := by
  unfold Row.hear
  by_cases hheard : e.closed = none ∧ e.name = n.cache
  · rw [if_pos hheard]
    obtain ⟨ho, hname⟩ := hheard
    have hcache : r.cache = n.cache := h.cache.trans hname
    cases hf : e.front with
    | none =>
        have hdeaf : e.hear n = e := by simp [Endpoint.hear, hf]
        rw [hdeaf, if_neg]
        · exact h
        · rw [h.bare hf]
          exact fun hand => Finset.notMem_empty _ hand.2
    | some front =>
        obtain ⟨hchanged, hwarm⟩ := (h.warm hf).apply fun en => hnew ho hname hf
        have hnear : r.near = true := by rw [h.near, Endpoint.hasNear, hf]; rfl
        have hopen : r.isOpen = true := by rw [h.isOpen, ho]; rfl
        by_cases hk : n.key ∈ r.warm
        · have hhear : e.hear n = { e with
              front := some (front.apply n.key n.change).2
              counters := { e.counters with invalidations := e.counters.invalidations + 1 } } := by
            simp [Endpoint.hear, hf, hchanged, hk, Endpoint.count]
          rw [hhear, if_pos ⟨hcache, hk⟩]
          refine ⟨h.cache, hnear, h.isOpen, ?_, fun hc => ?_, (fun hnone => by cases hnone), ?_⟩
          · exact congrArg
              (fun c : Counters => { c with invalidations := c.invalidations + 1 }) h.counters
          · rw [hopen] at hc
            cases hc
          · rintro front' ⟨⟩
            exact hwarm
        · have hhear : e.hear n = { e with front := some (front.apply n.key n.change).2 } := by
            simp [Endpoint.hear, hf, hchanged, hk]
          rw [n.change.leaves_of_notMem hk] at hwarm
          rw [hhear, if_neg fun hand => hk hand.2]
          refine ⟨h.cache, hnear, h.isOpen, h.counters, h.idle, (fun hnone => by cases hnone), ?_⟩
          rintro front' ⟨⟩
          exact hwarm
  · rw [if_neg hheard, if_neg]
    · exact h
    · -- an endpoint of the cache that hears nothing is closed, and has nothing warm
      rintro ⟨hcache, hk⟩
      have hclosed : r.isOpen = false := by
        rw [h.isOpen]
        cases hc : e.closed with
        | none => exact absurd ⟨hc, h.cache.symm.trans hcache⟩ hheard
        | some => rfl
      rw [h.idle hclosed] at hk
      exact Finset.notMem_empty _ hk

end Tells

end Account.Row

end NearCache
