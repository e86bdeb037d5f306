import NearCache.Proofs.Exposition.Series

/-!
# A board that watches a cluster

`Watch` is a session and a board that is asked to record what it sees, at any moment: all live
caches, or one endpoint, whatever became of it. Commands of the session do not touch the board.

What is due of a family is a series for each cache that a running node has started (`Cluster.due`).
Right after an observation each family shows just that, and a single endpoint that is recorded
changes its own series and no other: `current_after`. The labels that are recorded must be told
apart by their digests.
-/

namespace NearCache

/-! ## What is due -/

namespace Cluster

variable {c : Cluster}

/-- The series that are due of a family: one for each cache that a running node has started. -/
def due (c : Cluster) (g : Gauge) : List (Labels × Nat) :=
  c.running.values.flatMap fun h => h.caches.entries.filterMap fun x =>
    (c.fabric.endpoint? x.2).map fun e =>
      (⟨x.1, e.hasNear, h.member.name⟩, Family.shown g e.snapshot)

theorem mem_due_iff {g : Gauge} {l : Labels} {n : Nat} :
    (l, n) ∈ c.due g ↔ ∃ id h name i e, c.running.get? id = some h ∧ h.caches.get? name = some i ∧
      c.fabric.endpoint? i = some e ∧ l = ⟨name, e.hasNear, h.member.name⟩ ∧
        n = Family.shown g e.snapshot := by
  simp only [due, List.mem_flatMap, List.mem_filterMap, Table.mem_values_iff,
    Option.map_eq_some_iff]
  constructor
  · rintro ⟨h, ⟨id, hr⟩, ⟨name, i⟩, hi, e, he, heq⟩
    rw [Table.mem_entries_iff] at hi
    cases heq
    exact ⟨id, h, name, i, e, hr, hi, he, rfl, rfl⟩
  · rintro ⟨id, h, name, i, e, hr, hi, he, rfl, rfl⟩
    exact ⟨h, ⟨id, hr⟩, (name, i), (Table.mem_entries_iff _ _ _).mpr hi, e, he, rfl⟩

namespace Linked

variable (l : Linked c)
include l

/-- The live endpoints are those of the caches that running nodes have started. -/
theorem mem_liveEndpoints_iff {e : Endpoint} :
    e ∈ Board.liveEndpoints c ↔ ∃ id h name i, c.running.get? id = some h ∧
      h.caches.get? name = some i ∧ c.fabric.endpoint? i = some e := by
  unfold Board.liveEndpoints
  rw [List.mem_flatMap]
  constructor
  · rintro ⟨m, hm, he⟩
    obtain ⟨h, hr, rfl⟩ := l.present.mp hm
    rw [l.node_eq hm] at he
    dsimp only at he
    rw [endpointsOf, (running_eq_some_iff.mp hr).1, List.mem_filterMap] at he
    obtain ⟨⟨name, i⟩, hi, he⟩ := he
    exact ⟨h.member.id, h, name, i, hr, (Table.mem_entries_iff _ _ _).mp hi, he⟩
  · rintro ⟨id, h, name, i, hr, hi, he⟩
    have hhost := (running_eq_some_iff.mp hr).1
    have hm := l.member_mem hr
    refine ⟨h.member, hm, ?_⟩
    rw [l.node_eq hm]
    dsimp only
    rw [endpointsOf, l.own hhost, hhost, List.mem_filterMap]
    exact ⟨(name, i), (Table.mem_entries_iff _ _ _).mpr hi, he⟩

/-- The endpoint of a started cache is labelled with the cache and the node. -/
theorem ofEndpoint_eq {id : MemberId} {h : Host} {name : String} {i : EndpointId} {e : Endpoint}
    (hr : c.running.get? id = some h) (hi : h.caches.get? name = some i)
    (he : c.fabric.endpoint? i = some e) :
    Labels.ofEndpoint e = ⟨name, e.hasNear, h.member.name⟩ := by
  obtain ⟨e', he', -, hname, hnode, -⟩ := l.hosted (running_eq_some_iff.mp hr).1 hi
  rw [he] at he'
  cases he'
  unfold Labels.ofEndpoint
  rw [hname, hnode]

/-- A live endpoint is known by its labels. -/
theorem eq_of_ofEndpoint_eq {e e' : Endpoint} (he : e ∈ Board.liveEndpoints c)
    (he' : e' ∈ Board.liveEndpoints c) (heq : Labels.ofEndpoint e = .ofEndpoint e') : e = e' := by
  obtain ⟨id, h, name, i, hr, hi, he⟩ := l.mem_liveEndpoints_iff.mp he
  obtain ⟨id', h', name', i', hr', hi', he'⟩ := l.mem_liveEndpoints_iff.mp he'
  rw [l.ofEndpoint_eq hr hi he, l.ofEndpoint_eq hr' hi' he'] at heq
  obtain ⟨hname, -, hnode⟩ := Labels.mk.inj heq
  obtain ⟨-, rfl⟩ := l.eq_of_name_eq hr hr' hnode
  subst hname
  rw [hi] at hi'
  cases hi'
  rw [he] at he'
  cases he'
  rfl

/-- What is due is due once: the caches of a node have different names, and so have the nodes. -/
theorem nodup_due (g : Gauge) : ((c.due g).map Prod.fst).Nodup := by
  have hnodes : c.running.values.Pairwise fun h h' => h.member.name ≠ h'.member.name := by
    refine List.pairwise_map.mpr (c.running.increasing.imp_of_mem fun {x y} hx hy hlt hname => ?_)
    obtain ⟨hid, -⟩ := l.eq_of_name_eq ((Table.mem_entries_iff _ _ _).mp hx)
      ((Table.mem_entries_iff _ _ _).mp hy) hname
    rw [hid] at hlt
    exact Key.irrefl _ hlt
  unfold due
  rw [List.map_flatMap]
  refine List.nodup_flatMap.mpr ⟨fun h _ => ?_, hnodes.imp fun {h h'} hne => ?_⟩
  · refine List.pairwise_map.mpr (h.caches.increasing.filterMap _ fun x y hlt s hs s' hs' heq => ?_)
    obtain ⟨e, -, rfl⟩ := Option.map_eq_some_iff.mp hs
    obtain ⟨e', -, rfl⟩ := Option.map_eq_some_iff.mp hs'
    rw [(Labels.mk.inj heq).1] at hlt
    exact Key.irrefl _ hlt
  · refine List.disjoint_left.mpr fun {k} hk hk' => ?_
    obtain ⟨s, hs, rfl⟩ := List.mem_map.mp hk
    obtain ⟨s', hs', heq⟩ := List.mem_map.mp hk'
    obtain ⟨x, -, hx⟩ := List.mem_filterMap.mp hs
    obtain ⟨x', -, hx'⟩ := List.mem_filterMap.mp hs'
    obtain ⟨e, -, rfl⟩ := Option.map_eq_some_iff.mp hx
    obtain ⟨e', -, rfl⟩ := Option.map_eq_some_iff.mp hx'
    exact hne (Labels.mk.inj heq).2.2.symm

/-- A family that shows the live endpoints and nothing else shows what is due. -/
theorem due_perm {S : List Labels} {b : Board} (hb : b.InStep S) {g : Gauge}
    (hshows : ∀ {k n}, b.Shows g k n ↔
      ∃ e ∈ Board.liveEndpoints c, Labels.ofEndpoint e = k ∧ n = Family.shown g e.snapshot) :
    (b.shown g).Perm (c.due g) := by
  refine (List.perm_ext_iff_of_nodup (hb.nodup_shown g).of_map (l.nodup_due g).of_map).mpr ?_
  rintro ⟨k, n⟩
  rw [hb.mem_shown_iff, hshows, mem_due_iff]
  constructor
  · rintro ⟨e, he, rfl, rfl⟩
    obtain ⟨id, h, name, i, hr, hi, he⟩ := l.mem_liveEndpoints_iff.mp he
    exact ⟨id, h, name, i, e, hr, hi, he, l.ofEndpoint_eq hr hi he, rfl⟩
  · rintro ⟨id, h, name, i, e, hr, hi, he, rfl, rfl⟩
    exact ⟨e, l.mem_liveEndpoints_iff.mpr ⟨id, h, name, i, hr, hi, he⟩,
      l.ofEndpoint_eq hr hi he, rfl⟩

end Linked

end Cluster

/-! ## Watching -/

/-- What happens while a board watches a session. -/
inductive Act where
  | command (c : Command)
  /-- All live caches are recorded. -/
  | observe
  /-- One endpoint is recorded, open or closed. -/
  | record (endpoint : EndpointId)

/-- A session and the board that watches it. -/
structure Watch where
  session : Session
  board : Board := {}

namespace Watch

/-- The session and the board in which nothing has happened yet. -/
def fresh (memberIds : Nat → MemberId) (publisher : Fanout) : Watch :=
  { session := .fresh memberIds publisher }

/-- One thing happens. -/
def step (w : Watch) : Act → Watch
  | .command c => { w with session := (w.session.step c).2 }
  | .observe => { w with board := w.board.observe w.session.cluster }
  | .record i =>
    match w.session.fabric.endpoint? i with
    | none => w
    | some e => { w with board := w.board.record e }

/-- What has become of a watch. -/
def after (w : Watch) (acts : List Act) : Watch := acts.foldl step w

/-- The labels that are recorded at one time. -/
def labels (w : Watch) : Act → List Labels
  | .command _ => []
  | .observe => (Board.liveEndpoints w.session.cluster).map .ofEndpoint
  | .record i => (w.session.fabric.endpoint? i).toList.map .ofEndpoint

/-- The labels that are recorded in the course of time. -/
def recorded (w : Watch) : List Act → List Labels
  | [] => []
  | a :: acts => w.labels a ++ (w.step a).recorded acts

variable {w : Watch} {S : List Labels}

theorem recorded_append (as bs : List Act) :
    ∀ w : Watch, w.recorded (as ++ bs) = w.recorded as ++ (w.after as).recorded bs := by
  induction as with
  | nil => intro w; rfl
  | cons a as ih =>
      intro w
      show w.labels a ++ (w.step a).recorded (as ++ bs) = _
      rw [ih, ← List.append_assoc]
      rfl

theorem step_record {i : EndpointId} {e : Endpoint} (he : w.session.fabric.endpoint? i = some e) :
    w.step (.record i) = { w with board := w.board.record e } := by
  rw [step, he]

theorem mem_labels_record {i : EndpointId} {e : Endpoint}
    (he : w.session.fabric.endpoint? i = some e) : .ofEndpoint e ∈ w.labels (.record i) := by
  rw [labels, he]
  exact List.mem_cons_self

/-- The board is in step, and the cluster is sound. -/
structure Sound (S : List Labels) (w : Watch) : Prop where
  session : w.session.Sound
  board : w.board.InStep S

namespace Sound

theorem fresh {memberIds : Nat → MemberId} (distinct : Function.Injective memberIds)
    (publisher : Fanout) (S : List Labels) : Sound S (.fresh memberIds publisher) :=
  ⟨.fresh distinct publisher, .empty S⟩

/-- What an observation shows. -/
theorem observe (h : Sound S w) (apart : Labels.ToldApart S) (hS : ∀ l ∈ w.labels .observe, l ∈ S) :
    (w.board.observe w.session.cluster).InStep S ∧
      ∀ {g l n}, (w.board.observe w.session.cluster).Shows g l n ↔
        ∃ e ∈ Board.liveEndpoints w.session.cluster, Labels.ofEndpoint e = l ∧
          n = Family.shown g e.snapshot :=
  h.board.observe apart (fun _ he => hS _ (List.mem_map_of_mem he)) fun _ he _ he' =>
    h.session.linked.eq_of_ofEndpoint_eq he he'

theorem step (h : Sound S w) (apart : Labels.ToldApart S) {a : Act} (hS : ∀ l ∈ w.labels a, l ∈ S) :
    Sound S (w.step a) := by
  cases a with
  | command c => exact ⟨(h.session.step c).sound, h.board⟩
  | observe => exact ⟨h.session, (h.observe apart hS).1⟩
  | record i =>
      cases he : w.session.fabric.endpoint? i with
      | none =>
          rw [Watch.step, he]
          exact h
      | some e =>
          rw [step_record he]
          exact ⟨h.session, h.board.record apart (hS _ (mem_labels_record he))⟩

theorem after (acts : List Act) (apart : Labels.ToldApart S) : ∀ {w : Watch}, Sound S w →
    (∀ l ∈ w.recorded acts, l ∈ S) → Sound S (w.after acts) := by
  induction acts with
  | nil => intro w h _; exact h
  | cons a acts ih =>
      intro w h hS
      exact ih (h.step apart fun l hl => hS l (List.mem_append_left _ hl)) fun l hl =>
        hS l (List.mem_append_right _ hl)

end Sound

/-! ## What a board shows at any time -/

/-- What a board shows, and what becomes of it when `a` happens. -/
structure Current (w : Watch) (a : Act) : Prop where
  gauges : w.board.families.map (·.gauge) = Gauge.all
  /-- Labels are in use once, and every family has a series for each of them. -/
  inUse : w.board.series.values.Nodup ∧
    ∀ g, ((w.board.shown g).map Prod.fst).Perm w.board.series.values
  /-- Every cache that a running node has started is there to be observed. -/
  started : ∀ {id h name i}, w.session.cluster.running.get? id = some h →
    h.caches.get? name = some i → (w.session.fabric.endpoint? i).isSome
  /-- After an observation there is a series for each of them and no other. -/
  observe : a = .observe → ∀ g, ((w.step a).board.shown g).Perm (w.session.cluster.due g)
  /-- An endpoint that is recorded sets its own series in every family. -/
  record : ∀ {i e}, a = .record i → w.session.fabric.endpoint? i = some e → ∀ {g l n},
    (l, n) ∈ (w.step a).board.shown g ↔
      if l = .ofEndpoint e then n = min (g.read e.snapshot) Gauge.largest
      else (l, n) ∈ w.board.shown g

/-- **A board shows exactly the live caches** right after it observes them, and whatever it is asked
to record, its families stay in step, provided that the labels it comes to see are told apart. -/
theorem current_after {memberIds : Nat → MemberId} (distinct : Function.Injective memberIds)
    (publisher : Fanout) (acts : List Act) (a : Act)
    (apart : Labels.ToldApart ((fresh memberIds publisher).recorded (acts ++ [a]))) :
    ((fresh memberIds publisher).after acts).Current a := by
  rw [recorded_append] at apart
  have hsound := Sound.after acts apart (.fresh distinct publisher _) fun l hl =>
    List.mem_append_left _ hl
  have hS : ∀ l ∈ ((fresh memberIds publisher).after acts).labels a,
      l ∈ (fresh memberIds publisher).recorded acts ++
        ((fresh memberIds publisher).after acts).recorded [a] := fun l hl =>
    List.mem_append_right _ (List.mem_append_left _ hl)
  generalize (fresh memberIds publisher).recorded acts ++
    ((fresh memberIds publisher).after acts).recorded [a] = S at apart hsound hS
  generalize (fresh memberIds publisher).after acts = w at hsound hS
  have hlinked := hsound.session.linked
  refine
    { gauges := hsound.board.gauges
      inUse := ⟨hsound.board.nodup_inUse, hsound.board.labels_perm⟩
      started := ?_
      observe := ?_
      record := ?_ }
  · intro id h name i hr hi
    obtain ⟨e, he, -⟩ := hlinked.hosted (Cluster.running_eq_some_iff.mp hr).1 hi
    exact Option.isSome_iff_exists.mpr ⟨e, he⟩
  · rintro rfl g
    obtain ⟨hstep, hshows⟩ := hsound.observe apart hS
    exact hlinked.due_perm hstep hshows
  · rintro i e rfl he g l n
    have hnext := hsound.step apart hS
    rw [hnext.board.mem_shown_iff, hsound.board.mem_shown_iff, step_record he]
    exact hsound.board.shows_record apart (hS _ (mem_labels_record he))

/-- A node stops, and its endpoint is recorded once more. Its series is back on the board until the
next observation. -/
theorem current_after_stop :
    let acts := [.command (.start { name := "a" }), .command (.start { name := "b" }),
      .command (.createFrom 0 { name := "x" }), .observe, .command (.stop 1),
      .command (.put 0 [1] [2]), .observe, .record 1]
    let w := (fresh id {}).after acts
    Labels.ToldApart ((fresh id {}).recorded (acts ++ [.observe])) ∧
      (⟨"x", true, "b"⟩, 0) ∈ w.board.shown .puts ∧
      w.session.cluster.due .puts = [(⟨"x", true, "a"⟩, 1)] ∧ w.Current .observe := by
  intro acts w
  have apart : Labels.ToldApart ((fresh id {}).recorded (acts ++ [.observe])) := by decide +kernel
  have current := current_after Function.injective_id {} acts .observe apart
  exact ⟨apart, by decide +kernel, by decide +kernel, current⟩

end Watch

end NearCache
