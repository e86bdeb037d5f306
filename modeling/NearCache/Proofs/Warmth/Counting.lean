import NearCache.Proofs.Warmth.Balance

/-!
# What users see of warm keys

`Fabric.Shows` says what a row means to users: peeks, sizes, counters, and for every key what a read
would do, whether it is a hit, a read of the store or a failure. `warm_after` puts this together with
the book: after any uses without held reads, every endpoint shows its row.
-/

namespace NearCache

namespace Fabric

/-- The counters of an endpoint after a read of a key. -/
def countersAfterGet (f : Fabric) (id : EndpointId) (key : Bytes) : Option Counters :=
  ((f.get id key).2.endpoint? id).map (·.counters)

/-- What users see of an endpoint with a given row, where `value?` are the values that the store
holds for its cache. -/
structure Shows (f : Fabric) (id : EndpointId) (e : Endpoint) (r : Account.Row)
    (value? : Bytes → Option Bytes) : Prop where
  near : e.hasNear = r.near
  isOpen : e.closed = none ↔ r.isOpen = true
  counters : e.counters = r.counters
  /-- Nothing is warm on an endpoint that is closed or has no near cache. -/
  idle : e.hasNear = false ∨ e.closed ≠ none → r.warm = ∅
  size : e.localSize = r.warm.card
  peek : e.closed = none → ∀ k, f.peek id k = .ok (if k ∈ r.warm then value? k else none)
  /-- A warm key is served, whether or not the store can be reached. -/
  hit : e.closed = none → ∀ k ∈ r.warm, value? k ≠ none ∧
    (f.get id k).1 = .ok (value? k) ∧ f.countersAfterGet id k =
      some { e.counters with gets := e.counters.gets + 1, hits := e.counters.hits + 1 }
  /-- A cold key is read from the store. -/
  fetched : e.closed = none → f.store.available = true → ∀ k ∉ r.warm,
    (f.get id k).1 = .ok (value? k) ∧ f.countersAfterGet id k =
      some { e.counters with
        gets := e.counters.gets + 1, remoteGets := e.counters.remoteGets + 1 }
  /-- Without the store it cannot be read. -/
  outage : e.closed = none → f.store.available = false → ∀ k ∉ r.warm,
    (f.get id k).1 = .error (.storeUnavailable e.name "store unreachable") ∧
      f.countersAfterGet id k = some { e.counters with gets := e.counters.gets + 1 }

/-- An endpoint shows the row that is right about it. -/
theorem Settled.shows {f : Fabric} (hf : f.Settled) {id : EndpointId} {e : Endpoint}
    {r : Account.Row} (he : f.endpoint? id = some e) (htells : r.Tells e)
    {value? : Bytes → Option Bytes}
    (hvalue : ∀ k, value? k = (f.store.current? e.name k).map (·.value)) :
    f.Shows id e r value? where
  near := htells.near.symm
  isOpen := by
    rw [htells.isOpen]
    exact Option.isNone_iff_eq_none.symm
  counters := htells.counters.symm
  idle h := by
    rcases h with hbare | hclosed
    · refine htells.bare ?_
      simpa [Endpoint.hasNear] using hbare
    · refine htells.idle ?_
      rw [htells.isOpen]
      simpa [Option.isSome_iff_ne_none] using hclosed
  size := htells.localSize
  peek ho k := by
    refine peek_eq_ok_iff.mpr ⟨e, he, ho, ?_⟩
    split
    · next hk =>
      obtain ⟨v, hv⟩ := htells.local?_of_mem hk
      obtain ⟨n, hn⟩ := hf.coherent.current_of_local he ho hv
      rw [hv, hvalue, hn]
      rfl
    · next hk => exact htells.local?_of_notMem hk
  hit ho k hk := by
    obtain ⟨v, hv⟩ := htells.local?_of_mem hk
    obtain ⟨n, hn⟩ := hf.coherent.current_of_local he ho hv
    have hsome : value? k = some v := by rw [hvalue, hn]; rfl
    unfold countersAfterGet
    rw [get_eq_hit he ho hv, hsome]
    refine ⟨by simp, rfl, ?_⟩
    rw [endpoint?_count he]
    rfl
  fetched ho ha k hk := by
    unfold countersAfterGet
    rw [get_eq_miss he ho (htells.local?_of_notMem hk), if_pos ha, hvalue]
    refine ⟨rfl, ?_⟩
    rw [endpoint?_update, if_pos rfl]
    show ((f.endpoint? id).map _).map _ = _
    rw [he]
    rfl
  outage ho ha k hk := by
    unfold countersAfterGet
    rw [get_eq_miss he ho (htells.local?_of_notMem hk), if_neg (by simp [ha])]
    refine ⟨rfl, ?_⟩
    rw [endpoint?_update, if_pos rfl, he]
    rfl

/-- **Near caches are sets of warm keys.** Whatever is done with a fabric, as long as no read is held
and the data of a cache is not dropped under an open endpoint, the book that is kept by the rules of
`Account.use` has the values of the store, and every endpoint shows its row. -/
theorem warm_after (us : List Use) (spared : sparesAll {} us = true) :
    let f := Fabric.uses {} us
    let a := Account.uses {} us
    a.available = f.store.available ∧
      (∀ c k, a.value? c k = (f.store.current? c k).map (·.value)) ∧
      ∀ id, Option.Rel (fun r e => f.Shows id e r (a.value? e.name))
        (a.row? id) (f.endpoint? id) := by
  intro f a
  obtain ⟨hfits, hsettled⟩ := Account.Fits.uses us .empty .empty spared
  refine ⟨hfits.available, hfits.value, fun id => ?_⟩
  rcases hfits.row_cases id with ⟨hr, he⟩ | ⟨r, e, hr, he, htells⟩
  · rw [hr, he]
    exact .none
  · rw [hr, he]
    exact .some (hsettled.shows he htells (hfits.value e.name))

/-- Two endpoints of a cache, the second without a near cache. The first reads a key, which the
second then overwrites, and the store becomes unreachable: the first still reads the new value, and
has counted one announcement. -/
theorem warm_after_overwrite :
    let us := [.start "a" { name := "x" } .present,
      .start "b" { name := "x" } (.absent .disabled), .storePut "x" [1] [2], .get 0 [1],
      .put 1 [1] [3], .setAvailable false]
    let f := Fabric.uses {} us
    let a := Account.uses {} us
    (a.row? 0).map (fun r => (r.warm, r.counters.invalidations)) = some ({[1]}, 1) ∧
      (f.get 0 [1]).1.toOption = some (some [3]) ∧ (f.get 1 [1]).1.toOption = none ∧
      ∀ id, Option.Rel (fun r e => f.Shows id e r (a.value? e.name))
        (a.row? id) (f.endpoint? id) :=
  ⟨by decide, by decide, by decide, (warm_after _ (by decide)).2.2⟩

end Fabric

end NearCache
