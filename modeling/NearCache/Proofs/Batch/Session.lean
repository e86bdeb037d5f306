import NearCache.Proofs.Batch.Writes
import NearCache.Proofs.Session.Sound

/-!
# Batches in a session

In every session that its users can get to, a batch may be written or read in any order. Of writes
nothing shows the order but the versions, which follow each other as the keys do; of reads nothing
shows it at all. `unordered_after` says so, whether or not other reads are held meanwhile.
-/

namespace NearCache

namespace Session

/-- What a batch of writes to different keys that reaches the store does to the values of the
store. -/
structure Dated (s : Session) (name : String) (l : List (Bytes × Bytes)) (s' : Session) : Prop where
  /-- The versions of the batch follow each other. -/
  written : ∀ {i k v}, l[i]? = some (k, v) →
    s'.fabric.store.current? name k = some ⟨v, s.fabric.store.lastVersion + i + 1⟩
  /-- Everything else stays as it was, its version included. -/
  kept : ∀ {c k}, (c = name → k ∉ l.map Prod.fst) →
    s'.fabric.store.current? c k = s.fabric.store.current? c k

/-- Batches do not depend on the order of their keys. -/
structure Unordered (s : Session) (id : EndpointId) : Prop where
  /-- Different keys that are written in another order: the answer is the same, and so is all that
  is left, but for the versions. -/
  puts : ∀ {l l' : List (Bytes × Bytes)}, l.Perm l' → (l.map Prod.fst).Nodup →
    (s.step (.putAll id l)).1 = (s.step (.putAll id l')).1 ∧
      SameButVersions (s.step (.putAll id l)).2 (s.step (.putAll id l')).2
  /-- A batch of writes that reaches the store is carried out. -/
  dated : s.fabric.store.available = true → ∀ {e}, s.fabric.serving id = .ok e →
    ∀ {l : List (Bytes × Bytes)}, (l.map Prod.fst).Nodup →
      ∃ s', s.step (.putAll id l) = (.done (.ok ()), s') ∧ s.Dated e.name l s'
  /-- Keys that are read in another order, once or more often: the answer is the same, and so is all
  that is left. -/
  gets : s.fabric.store.available = true → ∀ {ks ks' : List Bytes}, ks.Perm ks' →
    s.step (.getAll id ks) = s.step (.getAll id ks')
  /-- A batch of reads that reaches the store finds what the store holds under its keys. -/
  found : s.fabric.store.available = true → ∀ {e}, s.fabric.serving id = .ok e →
    ∀ ks : List Bytes, ∃ t s', s.step (.getAll id ks) = (.values (.ok t), s') ∧
      ∀ k, t.get? k = if k ∈ ks then (s.fabric.store.current? e.name k).map (·.value) else none

theorem Sound.unordered {s : Session} (h : Sound s) (id : EndpointId) : s.Unordered id where
  puts {l l'} hp distinct := by
    obtain ⟨hanswer, hundated⟩ := Fabric.putEach_perm id h.coherent h.linked.wired hp distinct
    exact ⟨congrArg Answer.done hanswer, .of_undated (congrArg s.withFabric hundated)⟩
  dated ha {e} hs {l} distinct := by
    obtain ⟨hok, -⟩ := Fabric.putEach_accepted l h.coherent h.linked.wired hs ha
    refine ⟨_, congrArg₂ Prod.mk (congrArg Answer.done hok) rfl, ?_, ?_⟩
    · exact Fabric.current?_putEach l hs ha distinct
    · exact Fabric.current?_putEach_of_notMem l hs ha
  gets ha {ks ks'} hp := by
    have hsame := Fabric.getAll_perm id ha hp
    exact congrArg (fun r : Outcome _ × Fabric => (Answer.values r.1, s.withFabric r.2)) hsame
  found ha {e} hs ks := by
    obtain ⟨t, hok, hfound⟩ := h.coherent.getAll_ok h.linked.wired h.next_free hs ha ks
    exact ⟨t, _, congrArg₂ Prod.mk (congrArg Answer.values hok) rfl, hfound⟩

/-- **Batches do not depend on the order of their keys**, in any session that its users can get
to. -/
theorem unordered_after {memberIds : Nat → MemberId} (distinct : Function.Injective memberIds)
    (publisher : Fanout) (cs : List Command) (id : EndpointId) :
    ((fresh memberIds publisher).after cs).Unordered id :=
  ((Sound.fresh distinct publisher).after cs).sound.unordered id

/-- Two keys that are written in two orders, one of them in the near cache of another node. -/
theorem unordered_after_two_keys :
    let s := (fresh id {}).after [.start { name := "a", caches := [{ name := "x" }] },
      .start { name := "b" }, .put 0 [1] [2], .get 1 [1]]
    let s₁ := (s.step (.putAll 0 [([1], [3]), ([5], [4])])).2
    let s₂ := (s.step (.putAll 0 [([5], [4]), ([1], [3])])).2
    s₁.fabric.store.current? "x" [1] = some ⟨[3], 2⟩ ∧
      s₂.fabric.store.current? "x" [1] = some ⟨[3], 3⟩ ∧
      (s₁.fabric.endpoint? 1).bind (·.local? [1]) = some [3] ∧ s.Unordered 0 :=
  ⟨by decide, by decide, by decide, unordered_after Function.injective_id {} _ 0⟩

end Session

end NearCache
