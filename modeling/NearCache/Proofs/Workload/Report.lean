import NearCache.CommandLine
import NearCache.Proofs.Cluster.Roster
import NearCache.Proofs.Exposition.Board
import NearCache.Proofs.Session.Outcomes
import NearCache.Proofs.Workload.Counts

/-!
# What the command line prints

Whenever a deployment can be applied to a fresh cluster, the workload runs to its end on it, and
every registered cache has on every node the numbers of `Workload.due` (`Workload.Counted`). What is
printed are the labels and numbers of `Workload.samples`, one line each, if and only if these have
different digests and all numbers are written in full: `counts_after`.

Digests of different labels can be the same, because they do not tell where the name of the node ends
and that of the cache begins. Then a sample is missing, and another one has its number
(`sample_missing`).
-/

namespace NearCache

namespace Workload

/-- The samples that are due: one for every member and registered cache. -/
def samples (c : Cluster) (ids : List MemberId) (keys rounds : Nat) (g : Gauge) :
    List (Labels × Nat) :=
  c.roster.flatMap fun m => c.registry.values.map fun config =>
    let near := (Placement.decide config m).isPresent
    (⟨config.name, near, m.name⟩, due (decide (ids.head? = some m.id)) near keys rounds g)

/-- The workload has run on all members, the first of `ids` being the one that writes, and has left
every registered cache on every member with the numbers that are due. -/
structure Counted (c : Cluster) (ids : List MemberId) (keys rounds : Nat) (c' : Cluster) :
    Prop where
  nodes : ids = c.roster.map Member.id
  ran : run c ids keys rounds = (.ok (), c')
  rest : c' = { c with fabric := c'.fabric }
  endpoint : ∀ m ∈ c.roster, ∀ {name config}, c.registry.get? name = some config →
    ∃ i e, c'.cacheOn m.id name = .ok i ∧ c'.fabric.endpoint? i = some e ∧ e.closed = none ∧
      e.node = m.name ∧ e.config = config ∧ e.hasNear = (Placement.decide config m).isPresent ∧
      ∀ g, g.read e.snapshot = due (decide (ids.head? = some m.id)) e.hasNear keys rounds g

/-- The labels of the samples: those of every member and registered cache. -/
def labels (c : Cluster) : List Labels :=
  c.roster.flatMap fun m => c.registry.values.map fun config =>
    ⟨config.name, (Placement.decide config m).isPresent, m.name⟩

/-- What is printed of a family are the samples that are due. -/
def Shown (c : Cluster) (ids : List MemberId) (keys rounds : Nat) (c' : Cluster) (g : Gauge) :
    Prop :=
  ((({} : Board).observe c').lines g).Perm
    ((samples c ids keys rounds g).map fun s => (s.1, toString s.2))

/-- The samples of a family have different digests, and their numbers are written in full. -/
def Printable (c : Cluster) (ids : List MemberId) (keys rounds : Nat) (g : Gauge) : Prop :=
  ((samples c ids keys rounds g).map (·.1.digest)).Nodup ∧
    ∀ s ∈ samples c ids keys rounds g, Family.InFull s.2

/-- No number is larger than the number of keys or that of reads. -/
theorem due_le (first near : Bool) (keys rounds : Nat) (g : Gauge) :
    due first near keys rounds g ≤ max keys (keys * rounds) := by
  cases g <;> simp only [due] <;> (repeat' split) <;> omega

/-- As long as there are fewer than `twoTo 53` keys and reads, all that matters is that different
labels have different digests. -/
theorem printable_iff {keys rounds : Nat} (hkeys : keys < twoTo 53)
    (hreads : keys * rounds < twoTo 53)
    (c : Cluster) (ids : List MemberId) (g : Gauge) :
    Printable c ids keys rounds g ↔ ((labels c).map Labels.digest).Nodup := by
  have hdigests : (samples c ids keys rounds g).map (·.1.digest) =
      (labels c).map Labels.digest := by
    simp only [samples, labels, List.map_flatMap, List.map_map]
    rfl
  unfold Printable
  rw [hdigests, and_iff_left]
  intro s hs
  obtain ⟨m, -, hs⟩ := List.mem_flatMap.mp hs
  obtain ⟨config, -, rfl⟩ := List.mem_map.mp hs
  refine Family.inFull_of_lt (Nat.lt_of_le_of_lt (due_le _ _ keys rounds g) ?_)
  exact Nat.max_lt.mpr ⟨hkeys, hreads⟩

end Workload

namespace Cluster

variable {c : Cluster}

/-- Where nobody has used a cache yet, the workload leaves the numbers that are due, and prints them
if they can be printed. -/
theorem Untouched.counted (u : Untouched c) (l : Linked c) (a : Agrees c none none)
    (keys rounds : Nat) :
    ∃ c', Workload.Counted c (c.roster.map Member.id) keys rounds c' ∧
      ∀ g, Workload.Shown c (c.roster.map Member.id) keys rounds c' g ↔
        Workload.Printable c (c.roster.map Member.id) keys rounds g := by
  have hruns : ∀ id ∈ c.roster.map Member.id, ∃ h, c.running.get? id = some h := by
    intro id hid
    obtain ⟨m, hm, rfl⟩ := List.mem_map.mp hid
    obtain ⟨h, hr, -⟩ := l.present.mp hm
    exact ⟨h, hr⟩
  obtain ⟨f, hran, hserves, hcounts⟩ := u.run_counts l a l.ids hruns keys rounds
  have l' : Linked { c with fabric := f } := l.withFabric hserves
  have a' : Agrees { c with fabric := f } none none := a.withFabric hserves
  -- what the endpoints of a member have counted
  have hdue : ∀ {h name i e}, h.member ∈ c.roster → c.running.get? h.member.id = some h →
      h.caches.get? name = some i → f.endpoint? i = some e → ∀ g, g.read e.snapshot = Workload.due
        (decide ((c.roster.map Member.id).head? = some h.member.id)) e.hasNear keys rounds g := by
    intro h name i e hm hr hi he
    obtain ⟨e', he', hnumbers⟩ := hcounts h.member.id (List.mem_map_of_mem hm) i
      (mem_endpoints_iff.mpr ⟨h, name, (running_eq_some_iff.mp hr).1, hi⟩)
    obtain rfl := Option.some.inj (he.symm.trans he')
    exact hnumbers
  refine ⟨{ c with fabric := f }, ⟨rfl, hran, rfl, ?_⟩, fun g => ?_⟩
  · intro m hm name config hc
    obtain ⟨h, hr, rfl⟩ := l'.present.mp hm
    obtain ⟨h', i, hr', hi⟩ := a'.hosts hr hc
    obtain rfl := Option.some.inj (hr.symm.trans hr')
    obtain ⟨e, he, ho, hnode, hreg, -, hplacement, hnear⟩ := (a'.uniform l').endpoints hr hi
    obtain rfl := Option.some.inj (hc.symm.trans hreg)
    refine ⟨i, e, ?_, he, ho, hnode, rfl, ?_, hdue hm hr hi he⟩
    · rw [cacheOn_eq hr, hi]
    · rw [hnear, hplacement]
  · have hsamples : (Board.liveEndpoints { c with fabric := f }).map
        (fun e => (Labels.ofEndpoint e, g.read e.snapshot)) =
        Workload.samples c (c.roster.map Member.id) keys rounds g := by
      refine a'.liveEndpoints_map l' fun {h name i e} hm hr hi he hnode hplacement hnear => ?_
      have hlabels : Labels.ofEndpoint e =
          ⟨e.config.name, (Placement.decide e.config h.member).isPresent, h.member.name⟩ := by
        rw [← hplacement, ← hnear, ← hnode]
        rfl
      rw [hlabels, hdue hm hr hi he g, hnear, hplacement]
    have hiff := Family.lines_perm_iff g
      ((Board.liveEndpoints { c with fabric := f }).map Board.sample)
    unfold Workload.Shown Workload.Printable
    rw [Board.lines_observe, ← hsamples]
    simpa [List.map_map, Function.comp_def, Board.sample] using hiff

/-- A deployment that can be applied to a fresh cluster leaves its nodes on the roster, and no cache
has been used. -/
theorem applied_untouched {memberIds : Nat → MemberId} (distinct : Function.Injective memberIds)
    (publisher : Fanout) (d : Deployment) :
    let c := (Cluster.apply { memberIds, publisher } d).2
    Untouched c ∧ Linked c ∧ Agrees c none none := by
  intro c
  have l₀ := Linked.empty distinct publisher
  have hsteps := (l₀.deeds_apply d).steps l₀
  exact ⟨hsteps.untouched distinct, l₀.steps hsteps, (Agrees.empty memberIds publisher).apply l₀ d⟩

theorem ids_of_applied {memberIds : Nat → MemberId} {publisher : Fanout} {d : Deployment}
    {ids : List MemberId} (applied : (Cluster.apply { memberIds, publisher } d).1 = .ok ids) :
    ids = (Cluster.apply { memberIds, publisher } d).2.roster.map Member.id := by
  obtain ⟨ms, hroster, hids, -⟩ := apply_ok (Prod.ext applied rfl)
  rw [hroster, ← hids]
  rfl

end Cluster

namespace Workload

/-- What is reported of a workload that ran to its end. -/
theorem report_of_run {d : Deployment} {ids : List MemberId} {keys rounds : Nat} {c' : Cluster}
    (applied : (Cluster.apply { publisher := .ofSinks [.log .debug [], .journal {}] } d).1 = .ok ids)
    (ran : run (Cluster.apply { publisher := .ofSinks [.log .debug [], .journal {}] } d).2 ids keys
      rounds = (.ok (), c')) :
    report d keys rounds = .ok (({} : Board).observe c').render := by
  have happly : Cluster.apply { publisher := .ofSinks [.log .debug [], .journal {}] } d =
      (.ok ids, _) := Prod.ext applied rfl
  unfold report
  dsimp only
  rw [happly]
  dsimp only
  rw [ran]

/-- **The workload always runs to its end, every endpoint has the numbers that are due, and they are
printed if and only if they can be.** -/
theorem counts_after {memberIds : Nat → MemberId} (distinct : Function.Injective memberIds)
    (publisher : Fanout) {d : Deployment} {ids : List MemberId}
    (applied : (Cluster.apply { memberIds, publisher } d).1 = .ok ids) (keys rounds : Nat) :
    let c := (Cluster.apply { memberIds, publisher } d).2
    ∃ c', Counted c ids keys rounds c' ∧
      (∀ g, Shown c ids keys rounds c' g ↔ Printable c ids keys rounds g) ∧
      (memberIds = id → publisher = .ofSinks [.log .debug [], .journal {}] →
        ∀ path content k r, ConfigFile.load path content = .ok d →
          CommandLine.countOr CommandLine.defaultKeys k = some keys →
          CommandLine.countOr CommandLine.defaultRounds r = some rounds →
          CommandLine.run path content k r =
            { exit := 0
              output := String.join (Gauge.all.map fun g =>
                Family.page g ((({} : Board).observe c').lines g)) }) := by
  intro c
  obtain ⟨u, l, a⟩ := Cluster.applied_untouched distinct publisher d
  obtain ⟨c', hcounted, hshown⟩ := u.counted l a keys rounds
  rw [← Cluster.ids_of_applied applied] at hcounted hshown
  refine ⟨c', hcounted, hshown, ?_⟩
  rintro rfl rfl path content k r hload hkeys hrounds
  have hreport : report d keys rounds = .ok (({} : Board).observe c').render :=
    report_of_run applied hcounted.ran
  unfold CommandLine.run
  rw [hkeys, hrounds, hload]
  dsimp only
  rw [← Board.render_observe]
  have hbind : ((.ok d : Outcome Deployment) >>= fun d => report d keys rounds) =
      report d keys rounds := rfl
  rw [hbind, hreport]

/-- Two nodes and two caches, the second without near caches: two keys and three rounds of reads. -/
theorem counts_after_two_nodes :
    let d : Deployment := { nodes := [{ name := "a", caches := [{ name := "x" },
      { name := "y", near := some { enabled := false } }] }, { name := "b" }] }
    let c := (Cluster.apply {} d).2
    (Cluster.apply {} d).1 = .ok [0, 1] ∧
      ((samples c [0, 1] 2 3 .remoteGets).map Prod.snd = [2, 6, 2, 6]) ∧
      ∃ c', Counted c [0, 1] 2 3 c' ∧
        ∀ g, Shown c [0, 1] 2 3 c' g ↔ Printable c [0, 1] 2 3 g := by
  intro d c
  have applied : (Cluster.apply {} d).1 = .ok [0, 1] := by rfl
  obtain ⟨c', hcounted, hshown, -⟩ := counts_after Function.injective_id {} applied 2 3
  exact ⟨applied, by rfl, c', hcounted, hshown⟩

/-- Node `a` with caches `bc` and `c`, and node `ab`: the labels of `bc` on `a` and of `c` on `ab`
have the same digest, so that not all samples are printed. -/
theorem sample_missing :
    let d : Deployment := { nodes := [{ name := "a", caches := [{ name := "bc" }, { name := "c" }] },
      { name := "ab" }] }
    let c := (Cluster.apply {} d).2
    (Cluster.apply {} d).1 = .ok [0, 1] ∧
      ∃ c', Counted c [0, 1] 2 1 c' ∧ ∀ g, ¬ Shown c [0, 1] 2 1 c' g := by
  intro d c
  have applied : (Cluster.apply {} d).1 = .ok [0, 1] := by rfl
  obtain ⟨u, l, a⟩ := Cluster.applied_untouched Function.injective_id {} d
  obtain ⟨c', hcounted, hshown⟩ := u.counted l a 2 1
  rw [← Cluster.ids_of_applied applied] at hcounted hshown
  refine ⟨applied, c', hcounted, fun g hg => ?_⟩
  have hd := (printable_iff (by decide) (by decide) c [0, 1] g).mp ((hshown g).mp hg)
  have hlabels : labels c = [⟨"bc", true, "a"⟩, ⟨"c", true, "a"⟩, ⟨"bc", true, "ab"⟩,
      ⟨"c", true, "ab"⟩] := by rfl
  have hdigest : Labels.digest ⟨"bc", true, "a"⟩ = Labels.digest ⟨"c", true, "ab"⟩ := by rfl
  rw [hlabels] at hd
  simp [hdigest] at hd

end Workload

end NearCache
