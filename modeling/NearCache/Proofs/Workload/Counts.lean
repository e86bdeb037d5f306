import NearCache.Proofs.Cluster.Ownership
import NearCache.Proofs.Session.Agreement
import NearCache.Proofs.Workload.Phases

/-!
# What the workload leaves in the metrics

In a cluster whose caches nobody has used yet (`Cluster.Untouched`) the book starts with open, cold
rows. The workload takes it through its two phases, and the row of every endpoint ends with the
numbers of `Workload.due`: they depend on the sizes of the workload, on whether the node is the one
that writes, and on whether there is a near cache. `run_counts` reads them off.
-/

namespace NearCache

/-- The number of each family after a workload: on the writing node or not, with a near cache or
not. -/
def Workload.due (first near : Bool) (keys rounds : Nat) : Gauge → Nat
  | .gets => keys * rounds
  | .puts => if first then keys else 0
  | .removals | .invalidations => 0
  | .entries => if near && 0 < rounds then keys else 0
  | .hits => if near then keys * rounds - (if 0 < rounds then keys else 0) else 0
  | .remoteGets => if near then (if 0 < rounds then keys else 0) else keys * rounds

namespace Account

/-! ## The first page of the book -/

/-- The book of a fabric in which nobody has read or written. -/
def opening (f : Fabric) : Account where
  rows := f.endpoints.mapValues fun e =>
    { cache := e.name, near := e.hasNear, isOpen := e.closed.isNone }
  started := f.started
  available := f.store.available

theorem row?_opening (f : Fabric) (id : EndpointId) :
    (opening f).row? id = (f.endpoint? id).map fun e =>
      { cache := e.name, near := e.hasNear, isOpen := e.closed.isNone } :=
  Table.get?_mapValues _ _ _

theorem cold_opening (f : Fabric) : (opening f).Cold := by
  intro id r hr
  rw [row?_opening] at hr
  obtain ⟨e, -, rfl⟩ := Option.map_eq_some_iff.mp hr
  rfl

theorem Fits.opening {f : Fabric} (blank : ∀ name, f.Blank name 0) : Fits (opening f) f where
  started := rfl
  available := rfl
  value c k := by
    rw [(blank c).current? k]
    rfl
  row id := by
    rw [row?_opening]
    cases he : f.endpoint? id with
    | none => exact .none
    | some e =>
        have hunused := (blank e.name).unused he rfl (Nat.zero_le id)
        refine .some ⟨rfl, rfl, rfl, hunused.counters.symm, fun _ => rfl, fun _ => rfl, ?_⟩
        intro front hf
        rw [hunused.front hf]
        exact .empty

/-! ## The last page -/

/-- A cold row that has counted nothing, and then takes part in the workload. -/
theorem Row.snapshot_of_tells {r : Row} (ho : r.isOpen = true) (hcold : r.warm = ∅)
    (hcounters : r.counters = {}) {first : Bool} {keys rounds : Nat} {e : Endpoint}
    (htells : ((r.addPuts (if first then keys else 0)).reads
      (Workload.schedule keys rounds)).Tells e) (g : Gauge) :
    g.read e.snapshot = Workload.due first e.hasNear keys rounds g := by
  have hcounts := htells.counters
  have hsame : r.near = e.hasNear := by
    rw [← htells.near, Row.near_reads]
    rfl
  have hsize := htells.localSize
  have ho' : (r.addPuts (if first then keys else 0)).isOpen = true := ho
  have hlength := Workload.length_schedule keys rounds
  have hcard := Workload.card_schedule keys rounds
  unfold Gauge.read Endpoint.snapshot Counters.snapshot
  rw [← hcounts, hsize, ← hsame]
  cases hnear : r.near with
  | true =>
      have hwarm : (r.addPuts (if first then keys else 0)).warm = ∅ := hcold
      rw [Row.reads_near _ ho' hnear, hwarm, hlength, Finset.sdiff_empty, hcard,
        Finset.empty_union, hcard]
      cases g <;> simp [Workload.due, Row.addPuts, Row.count, hcounters]
  | false =>
      rw [Row.reads_bare _ ho' hnear hcold, hlength]
      cases g <;> simp [Workload.due, Row.addPuts, Row.count, hcounters, hcold]

end Account

namespace Cluster

/-- Nobody has used a cache yet, and the store can be reached. -/
structure Untouched (c : Cluster) : Prop where
  settled : c.fabric.Settled
  available : c.fabric.store.available = true
  blank : ∀ name, c.fabric.Blank name 0

/-- Nodes and caches that come to a fresh cluster are not used by that. -/
theorem Steps.untouched {memberIds : Nat → MemberId} (distinct : Function.Injective memberIds)
    {publisher : Fanout} {c : Cluster} (hs : Steps { memberIds, publisher } c) : Untouched c where
  settled := by
    have l := Linked.empty distinct publisher
    exact ⟨(l.steps hs).wired, hs.coherent .empty, (hs.precedes l).advances⟩
  available := hs.available
  blank name := hs.blank (Fabric.Blank.empty name)

variable {c : Cluster}

/-- The endpoints that a running node has started, each once. -/
theorem mem_endpoints_iff {id : MemberId} {i : EndpointId} :
    i ∈ Workload.endpoints c id ↔ ∃ h name, c.host? id = some h ∧ h.caches.get? name = some i := by
  unfold Workload.endpoints endpointsOf
  cases hh : c.host? id with
  | none => simp
  | some h =>
      have hvalues : i ∈ h.caches.values ↔ ∃ name, h.caches.get? name = some i :=
        Table.mem_values_iff
      simpa [Table.values] using hvalues

theorem Linked.nodup_endpoints (l : Linked c) (id : MemberId) :
    (Workload.endpoints c id).Nodup := by
  unfold Workload.endpoints endpointsOf
  cases hh : c.host? id with
  | none => exact List.nodup_nil
  | some h => exact l.nodup_values hh

/-- No two nodes share an endpoint. -/
theorem Linked.nodup_flatMap_endpoints (l : Linked c) {ids : List MemberId} (hids : ids.Nodup) :
    (ids.flatMap (Workload.endpoints c)).Nodup := by
  refine List.nodup_flatMap.mpr ⟨fun id _ => l.nodup_endpoints id, hids.imp fun {id id'} hne => ?_⟩
  intro i hi hi'
  obtain ⟨h, name, hh, hcache⟩ := mem_endpoints_iff.mp hi
  obtain ⟨h', name', hh', hcache'⟩ := mem_endpoints_iff.mp hi'
  exact hne (l.unshared hh hcache hh' hcache').1

/-- The row of an endpoint on the first page. -/
theorem Linked.opening_row (l : Linked c) {id : MemberId} {i : EndpointId}
    (hi : i ∈ Workload.endpoints c id) :
    ∃ e, c.fabric.endpoint? i = some e ∧
      (Account.opening c.fabric).row? i = some { cache := e.name, near := e.hasNear } := by
  obtain ⟨h, name, hh, hcache⟩ := mem_endpoints_iff.mp hi
  obtain ⟨e, he, ho, -⟩ := l.hosted hh hcache
  refine ⟨e, he, ?_⟩
  rw [Account.row?_opening, he, Option.map_some, ho]
  rfl

/-- The endpoints of the writer are written to once, and no others. -/
theorem Linked.count_endpoints (l : Linked c) {id writer : MemberId} {i : EndpointId}
    (hi : i ∈ Workload.endpoints c id) :
    (Workload.endpoints c writer).count i = if writer = id then 1 else 0 := by
  by_cases hfirst : writer = id
  · subst hfirst
    rw [if_pos rfl, List.count_eq_one_of_mem (l.nodup_endpoints writer) hi]
  · rw [if_neg hfirst]
    refine List.count_eq_zero_of_not_mem fun hi' => ?_
    obtain ⟨h, name, hh, hcache⟩ := mem_endpoints_iff.mp hi
    obtain ⟨h', name', hh', hcache'⟩ := mem_endpoints_iff.mp hi'
    exact hfirst (l.unshared hh' hcache' hh hcache).1

/-- Every running node has an endpoint of each cache that another node has one of. -/
theorem Agrees.exists_endpoint (a : Agrees c none none) (l : Linked c) {id writer : MemberId}
    {i : EndpointId} {e : Endpoint} (hi : i ∈ Workload.endpoints c id)
    (he : c.fabric.endpoint? i = some e) (hruns : ∃ h, c.running.get? writer = some h) :
    ∃ i' ∈ Workload.endpoints c writer, ∃ e', c.fabric.endpoint? i' = some e' ∧
      e'.name = e.name := by
  obtain ⟨h, name, hh, hstarted⟩ := mem_endpoints_iff.mp hi
  obtain ⟨e₁, -, hreg⟩ := a.current (l.runs hh hstarted) hstarted
  obtain ⟨e₂, he₂, -, hname, -⟩ := l.hosted hh hstarted
  obtain ⟨h₀, hr₀⟩ := hruns
  obtain ⟨h', i', hr', hstarted'⟩ := a.hosts hr₀ hreg
  have hh' := (running_eq_some_iff.mp hr').1
  obtain ⟨e', he', -, hname', -⟩ := l.hosted hh' hstarted'
  obtain rfl := Option.some.inj (he.symm.trans he₂)
  exact ⟨i', mem_endpoints_iff.mpr ⟨h', name, hh', hstarted'⟩, e', he', hname'.trans hname.symm⟩

/-! ## The run -/

theorem run_of_writeEach {writer : MemberId} {rest : List MemberId} {keys rounds : Nat} {f : Fabric}
    (h : Workload.writeEach c.fabric keys (Workload.endpoints c writer) = (.ok (), f)) :
    Workload.run c (writer :: rest) keys rounds =
      let read := Workload.readEach f keys rounds ((writer :: rest).flatMap (Workload.endpoints c))
      (read.1, { c with fabric := read.2 }) := by
  rw [Workload.run, h]

/-- **The workload never fails, and leaves every endpoint with the numbers that are due.** -/
theorem Untouched.run_counts (u : Untouched c) (l : Linked c) (a : Agrees c none none)
    {ids : List MemberId} (hids : ids.Nodup)
    (hruns : ∀ id ∈ ids, ∃ h, c.running.get? id = some h) (keys rounds : Nat) :
    ∃ f, Workload.run c ids keys rounds = (.ok (), { c with fabric := f }) ∧ c.fabric.Serves f ∧
      ∀ id ∈ ids, ∀ i ∈ Workload.endpoints c id, ∃ e, f.endpoint? i = some e ∧
        ∀ g, g.read e.snapshot =
          Workload.due (decide (ids.head? = some id)) e.hasNear keys rounds g := by
  cases ids with
  | nil => exact ⟨c.fabric, rfl, .refl _, fun id hid => by cases hid⟩
  | cons writer rest =>
      obtain ⟨a₁, hwritten, hwrote⟩ := Account.writeEach_passes keys (Workload.endpoints c writer)
        (Account.Fits.opening u.blank) u.settled (Account.cold_opening c.fabric) u.available
        fun i hi => by
          obtain ⟨e, -, hr⟩ := l.opening_row hi
          exact ⟨_, hr, rfl⟩
      -- the writer has an endpoint of each cache, through which the keys were written
      have hreadable : ∀ i ∈ (writer :: rest).flatMap (Workload.endpoints c),
          a₁.Readable i (Workload.schedule keys rounds) := by
        intro i hi
        obtain ⟨id, -, hi⟩ := List.mem_flatMap.mp hi
        obtain ⟨e, he, hr⟩ := l.opening_row hi
        obtain ⟨i', hi', e', he', hname⟩ :=
          a.exists_endpoint l hi he (hruns writer List.mem_cons_self)
        obtain ⟨e'', he'', hr'⟩ := l.opening_row hi'
        obtain rfl := Option.some.inj (he'.symm.trans he'')
        refine ⟨_, hwrote.row_some hr, rfl, fun k hk => ?_⟩
        show (a₁.value? e.name k).isSome = true
        rw [← hname]
        exact hwrote.binds hr' ⟨hi', (Workload.mem_schedule_iff.mp hk).2⟩
      obtain ⟨a₂, hread, hrows⟩ := Account.readEach_passes keys rounds
        ((writer :: rest).flatMap (Workload.endpoints c)) hwritten.fits hwritten.settled
        (hwrote.available.trans u.available) (l.nodup_flatMap_endpoints hids) hreadable
      refine ⟨_, ?_, hwritten.serves.trans hread.serves, fun id hid i hi => ?_⟩
      · exact (run_of_writeEach hwritten.eq_ok).trans (Prod.ext hread.ok rfl)
      · obtain ⟨e₀, -, hr⟩ := l.opening_row hi
        have hrow := hrows i
        rw [if_pos (List.mem_flatMap.mpr ⟨id, hid, hi⟩), hwrote.row_some hr,
          l.count_endpoints hi] at hrow
        have hputs : (if writer = id then 1 else 0) * keys =
            if decide ((writer :: rest).head? = some id) then keys else 0 := by
          by_cases hfirst : writer = id <;> simp [hfirst]
        rw [hputs] at hrow
        rcases hread.fits.row_cases i with ⟨hnone, -⟩ | ⟨r, e, hr', he, htells⟩
        · rw [hnone] at hrow
          cases hrow
        · obtain rfl := Option.some.inj (hr'.symm.trans hrow)
          exact ⟨e, he, fun g => Account.Row.snapshot_of_tells rfl rfl rfl htells g⟩

end Cluster

end NearCache
