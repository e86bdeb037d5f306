import Mathlib.Data.List.Induction
import NearCache.Proofs.Cluster.Operations

/-!
# A host on its own

An outpost is a host with a fabric of its own, outside of any cluster: nobody else starts endpoints
on this fabric, so what becomes of them is settled by what the host is asked for. `Turn` lists all
that can happen when it is asked for something.

An outpost can be seen as a cluster with one node (`Outpost.cluster`), and each turn is a change of
this cluster. So what holds a cluster together holds of every outpost (`linked_after`): the caches
of the host are its open endpoints, each under its own name.
-/

namespace NearCache

/-- A host and its fabric. -/
structure Outpost where
  host : Host
  fabric : Fabric := {}

namespace Outpost

/-- What a host can be asked for. -/
inductive Order where
  | activate (config : CacheConfig) (t : Trigger)
  | deactivate (name : String)
  | shutdown
  deriving DecidableEq

/-- What it replies. -/
inductive Reply where
  /-- An endpoint, and the events that are told. -/
  | activated (r : Outcome EndpointId) (told : List Event)
  /-- The endpoint that was taken from the host. -/
  | deactivated (r : Option EndpointId)
  /-- Whether the host was running. -/
  | stopped (first : Bool)
  deriving DecidableEq

/-- An outpost of which nothing was asked yet. -/
def fresh (m : Member) : Outpost := { host := { member := m } }

/-- Does what a host is asked for. -/
def serve (s : Outpost) : Order → Reply × Outpost
  | .activate config t =>
    match s.host.activate s.fabric config t with
    | .error e => (.activated (.error e) [], s)
    | .ok a => (.activated (.ok a.endpoint) a.events, ⟨a.host, a.fabric⟩)
  | .deactivate name =>
    let (i, host, fabric) := s.host.deactivate s.fabric name
    (.deactivated i, ⟨host, fabric⟩)
  | .shutdown =>
    let (first, host, fabric) := s.host.shutdown s.fabric
    (.stopped first, ⟨host, fabric⟩)

/-- The outpost after orders. -/
def after (s : Outpost) (os : List Order) : Outpost := os.foldl (fun s o => (s.serve o).2) s

/-- The endpoint of a cache, if the cache has started. -/
def started? (s : Outpost) (name : String) : Option EndpointId := s.host.caches.get? name

theorem after_append (s : Outpost) (os ps : List Order) :
    s.after (os ++ ps) = (s.after os).after ps :=
  List.foldl_append

theorem after_snoc (s : Outpost) (os : List Order) (o : Order) :
    s.after (os ++ [o]) = ((s.after os).serve o).2 :=
  after_append s os [o]

/-! ## Turns -/

/-- A cache starts. -/
def opening (s : Outpost) (config : CacheConfig) : Outpost where
  host := { s.host with caches := s.host.caches.insert config.name s.fabric.started }
  fabric := (s.fabric.start s.host.member.name config (Placement.decide config s.host.member)).2

/-- A cache is taken from the host. -/
def closing (s : Outpost) (name : String) (i : EndpointId) : Outpost where
  host := { s.host with caches := s.host.caches.erase name }
  fabric := (s.fabric.close i .cacheDestroyed).2

/-- The host stops. -/
def stopping (s : Outpost) : Outpost where
  host := { s.host with caches := ∅, stopped := true }
  fabric := Host.closeAll s.fabric s.host.caches.values

/-- What an order can lead to. -/
inductive Turn (s : Outpost) : Order → Reply → Outpost → Prop where
  | refused (stopped : s.host.stopped = true) (config : CacheConfig) (t : Trigger) :
      Turn s (.activate config t) (.activated (.error (.nodeStopped s.host.member.name)) []) s
  | known (runs : s.host.stopped = false) {config : CacheConfig} {i : EndpointId}
      (held : s.started? config.name = some i) (t : Trigger) :
      Turn s (.activate config t) (.activated (.ok i) []) s
  | opens (runs : s.host.stopped = false) {config : CacheConfig}
      (new : s.started? config.name = none) (t : Trigger) :
      Turn s (.activate config t)
        (.activated (.ok s.fabric.started)
          (Host.startEvents s.host.member.name config.name t
            (Placement.decide config s.host.member)))
        (s.opening config)
  | missing {name : String} (unknown : s.started? name = none) :
      Turn s (.deactivate name) (.deactivated none) s
  | closes {name : String} {i : EndpointId} (held : s.started? name = some i) :
      Turn s (.deactivate name) (.deactivated (some i)) (s.closing name i)
  | again (stopped : s.host.stopped = true) : Turn s .shutdown (.stopped false) s
  | stops (runs : s.host.stopped = false) : Turn s .shutdown (.stopped true) s.stopping

section Serving

variable {s : Outpost} {config : CacheConfig} {name : String} {i : EndpointId}

theorem serve_refused (stopped : s.host.stopped = true) (config : CacheConfig) (t : Trigger) :
    s.serve (.activate config t) =
      (.activated (.error (.nodeStopped s.host.member.name)) [], s) := by
  simp [serve, Host.activate, stopped]

theorem serve_known (runs : s.host.stopped = false) (held : s.started? config.name = some i)
    (t : Trigger) : s.serve (.activate config t) = (.activated (.ok i) [], s) := by
  rw [started?] at held
  simp [serve, Host.activate, runs, held]

theorem serve_opens (runs : s.host.stopped = false) (new : s.started? config.name = none)
    (t : Trigger) :
    s.serve (.activate config t) =
      (.activated (.ok s.fabric.started)
        (Host.startEvents s.host.member.name config.name t
          (Placement.decide config s.host.member)), s.opening config) := by
  rw [started?] at new
  simp [serve, Host.activate, runs, new, opening, Fabric.start_fst]

theorem serve_missing (unknown : s.started? name = none) :
    s.serve (.deactivate name) = (.deactivated none, s) := by
  rw [started?] at unknown
  simp [serve, Host.deactivate, unknown]

theorem serve_closes (held : s.started? name = some i) :
    s.serve (.deactivate name) = (.deactivated (some i), s.closing name i) := by
  rw [started?] at held
  simp [serve, Host.deactivate, held, closing]

theorem serve_again (stopped : s.host.stopped = true) :
    s.serve .shutdown = (.stopped false, s) := by
  simp [serve, Host.shutdown, stopped]

theorem serve_stops (runs : s.host.stopped = false) :
    s.serve .shutdown = (.stopped true, s.stopping) := by
  simp [serve, Host.shutdown, runs, stopping]

end Serving

/-- Every order leads to one of these. -/
theorem turn_serve (s : Outpost) (o : Order) : Turn s o (s.serve o).1 (s.serve o).2 := by
  cases o with
  | activate config t =>
      cases hs : s.host.stopped with
      | true =>
          rw [serve_refused hs]
          exact .refused hs config t
      | false =>
          cases hi : s.started? config.name with
          | some i =>
              rw [serve_known hs hi]
              exact .known hs hi t
          | none =>
              rw [serve_opens hs hi]
              exact .opens hs hi t
  | deactivate name =>
      cases hi : s.started? name with
      | none =>
          rw [serve_missing hi]
          exact .missing hi
      | some i =>
          rw [serve_closes hi]
          exact .closes hi
  | shutdown =>
      cases hs : s.host.stopped with
      | true =>
          rw [serve_again hs]
          exact .again hs
      | false =>
          rw [serve_stops hs]
          exact .stops hs

/-! ## An outpost as a cluster -/

/-- The cluster whose only node is the host. -/
def cluster (s : Outpost) : Cluster where
  fabric := s.fabric
  roster := if s.host.stopped then [] else [s.host.member]
  hosts := (∅ : Table MemberId Host).insert s.host.member.id s.host
  memberIds := (s.host.member.id + ·)
  joined := 1

theorem host?_cluster (s : Outpost) (j : MemberId) :
    s.cluster.host? j = if j = s.host.member.id then some s.host else none :=
  Table.get?_insert ∅ s.host.member.id j s.host

theorem host?_own (s : Outpost) : s.cluster.host? s.host.member.id = some s.host := by
  rw [host?_cluster, if_pos rfl]

theorem runs_own {s : Outpost} (hs : s.host.stopped = false) :
    s.cluster.running.get? s.host.member.id = some s.host :=
  Cluster.running_eq_some_iff.mpr ⟨s.host?_own, hs⟩

theorem linked_fresh (m : Member) : (fresh m).cluster.Linked := by
  have hempty : Cluster.Linked { memberIds := (m.id + ·) } :=
    .empty (fun _ _ h => Nat.add_left_cancel h) {}
  have henrol : Cluster.Step { memberIds := (m.id + ·) } (fresh m).cluster :=
    .enrol _ (m := m) rfl fun _ hm => by cases hm
  exact hempty.step henrol

theorem hosts_insert (s : Outpost) (h : Host) :
    s.cluster.hosts.insert s.host.member.id h =
      (∅ : Table MemberId Host).insert s.host.member.id h := by
  refine Table.ext_get? fun j => ?_
  simp only [cluster, Table.get?_insert]
  split <;> rfl

theorem cluster_opening {s : Outpost} (runs : s.host.stopped = false) (config : CacheConfig) :
    (s.opening config).cluster = s.cluster.starting s.host.member.id s.host config := by
  simp only [Cluster.starting, Cluster.setHost, hosts_insert]
  simp only [cluster, opening, runs]

theorem cluster_closing {s : Outpost} (runs : s.host.stopped = false) (name : String)
    (i : EndpointId) :
    (s.closing name i).cluster = s.cluster.closing s.host.member.id s.host name i := by
  simp only [Cluster.closing, Cluster.setHost, hosts_insert]
  simp only [cluster, closing, runs]

theorem cluster_stopping {s : Outpost} (runs : s.host.stopped = false) :
    s.stopping.cluster = s.cluster.stopping s.host.member.id s.host := by
  have hroster : (s.cluster.roster.leave s.host.member.id).2 = [] := by
    simp [cluster, runs, Roster.leave]
  simp only [Cluster.stopping, Cluster.setHost, hosts_insert, hroster]
  simp only [cluster, stopping, if_true]

/-- A turn is a change of the cluster, if it changes anything. -/
theorem Turn.steps {s s' : Outpost} {o : Order} {r : Reply} (h : Turn s o r s')
    (l : s.cluster.Linked) : Cluster.Steps s.cluster s'.cluster := by
  cases h with
  | refused | known | missing | again => exact .refl
  | opens runs new t =>
      rw [cluster_opening runs]
      exact .single (.start _ (runs_own runs) new)
  | closes held =>
      rw [cluster_closing (Cluster.running_eq_some_iff.mp (l.runs s.host?_own held)).2]
      exact .single (.close _ s.host?_own held)
  | stops runs =>
      rw [cluster_stopping runs]
      exact .single (.stop _ (runs_own runs))

theorem linked_after (m : Member) (os : List Order) : ((fresh m).after os).cluster.Linked := by
  induction os using List.reverseRecOn with
  | nil => exact linked_fresh m
  | append_singleton os o ih =>
      rw [after_snoc]
      exact ih.steps ((turn_serve _ o).steps ih)

end Outpost

end NearCache
