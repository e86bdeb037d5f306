import NearCache.Proofs.Session.Agreement

/-!
# When operations succeed

Each operation of a cluster has one condition under which it succeeds, and it can be checked before
anything is done: that a name is not blank, that it is free or in use, that the node still runs. An
operation that fails has done nothing (`Cluster.Exact`).

It is agreement with the registry that leaves no other way to fail. A node that creates a cache has
it among its own caches afterwards, and a cache that a node does not have is not registered, so
that a node which asks for a cache, and does not have it, can create it.
-/

namespace NearCache

namespace Cluster

variable {c : Cluster} {id : MemberId} {h : Host}

/-! ## Conditions -/

/-- A running node bears a name. -/
def Bears (c : Cluster) (name : String) : Prop :=
  ∃ id h, c.running.get? id = some h ∧ h.member.name = name

/-- An endpoint that serves a cache under a configuration, on the node that has it among its
caches. -/
structure Handle (c : Cluster) (id : MemberId) (config : CacheConfig) (i : EndpointId) : Prop where
  started : c.cacheOn id config.name = .ok i
  serves : ∃ e, c.fabric.endpoint? i = some e ∧ e.closed = none ∧ e.config = config
  registered : c.registry.get? config.name = some config

/-- A request of a node is settled: it fails because the node has stopped, or else it succeeds
exactly if a condition holds, and it does nothing if it fails. -/
structure Settled {α : Type} (c : Cluster) (h : Host) (condition : Prop)
    (r : Outcome α × Cluster) : Prop where
  stopped : h.stopped = true → r.1 = .error (.nodeStopped h.member.name)
  running : h.stopped = false → ∀ name, r.1 ≠ .error (.nodeStopped name)
  succeeds : h.stopped = false → ((∃ x, r.1 = .ok x) ↔ condition)
  unchanged : ∀ err, r.1 = .error err → r.2 = c

/-- What becomes of the requests of a node, running or stopped. -/
structure Governs (c : Cluster) (id : MemberId) (h : Host) : Prop where
  cache : ∀ name, Settled c h (c.registry.contains name = true) (c.cacheOn id name, c)
  found : ∀ name i, c.cacheOn id name = .ok i →
    ∃ config, c.registry.get? name = some config ∧ Handle c id config i
  create : ∀ config, Settled c h
    (Text.isBlankText config.name = false ∧ c.registry.contains config.name = false)
    (c.createFrom id config)
  created : ∀ config i, (c.createFrom id config).1 = .ok i →
    Handle (c.createFrom id config).2 id config i
  getOrCreate : ∀ config, Settled c h
    (c.registry.contains config.name = true ∨ Text.isBlankText config.name = false)
    (c.getOrCreate id config)
  /-- A cache that is registered stays under its configuration. -/
  got : ∀ config i, (c.getOrCreate id config).1 = .ok i →
    Handle (c.getOrCreate id config).2 id ((c.registry.get? config.name).getD config) i
  kept : ∀ config, c.registry.contains config.name = true → (c.getOrCreate id config).2 = c
  destroy : ∀ name, Settled c h True (c.destroyFrom id name)
  destroyed : ∀ name b, (c.destroyFrom id name).1 = .ok b → b = c.registry.contains name
  missing : ∀ name, (c.destroyFrom id name).1 = .ok false → (c.destroyFrom id name).2 = c
  stop : (c.stopNode id).1 = if h.stopped then .error (.nodeNotFound (.id id)) else .ok ()
  stopped : h.stopped = true → (c.stopNode id).2 = c

/-- Operations succeed exactly when they should, and have done nothing when they fail. -/
structure Exact (c : Cluster) : Prop where
  startNode : ∀ n, (∃ id, (c.startNode n).1 = .ok id) ↔
    Text.isBlankText n.name = false ∧ ¬ c.Bears n.name
  unchanged : ∀ n err, (c.startNode n).1 = .error err → (c.startNode n).2 = c
  governs : ∀ {id h}, c.host? id = some h → Governs c id h

/-! ## Nodes -/

theorem Linked.bears_iff (l : Linked c) {name : String} :
    c.roster.any (·.name = name) = true ↔ c.Bears name := by
  rw [List.any_eq_true]
  constructor
  · rintro ⟨m, hm, hname⟩
    obtain ⟨h, hr, rfl⟩ := l.present.mp hm
    exact ⟨_, h, hr, of_decide_eq_true hname⟩
  · rintro ⟨id, h, hr, hname⟩
    exact ⟨h.member, l.member_mem hr, decide_eq_true hname⟩

/-- A node can enrol if its name is not blank and no running node bears it. -/
theorem Linked.enrol_ok_iff (l : Linked c) {n : NodeConfig} :
    (∃ r, c.enrol n = .ok r) ↔ Text.isBlankText n.name = false ∧ ¬ c.Bears n.name := by
  rw [← l.bears_iff, enrol_eq, NodeConfig.check]
  cases Text.isBlankText n.name with
  | true => simp
  | false =>
      cases c.roster.any (·.name = n.name) with
      | true => simp
      | false => simp

theorem Agrees.startNode_ok_iff (a : Agrees c none none) (l : Linked c) (n : NodeConfig) :
    (∃ id, (c.startNode n).1 = .ok id) ↔ Text.isBlankText n.name = false ∧ ¬ c.Bears n.name := by
  rw [← l.enrol_ok_iff]
  rcases (a.startNode l n).2 with ⟨err, he, hs⟩ | ⟨id, hs⟩
  · rw [he, hs]
    simp
  · refine ⟨fun _ => ?_, fun _ => ⟨id, hs⟩⟩
    cases he : c.enrol n with
    | ok r => exact ⟨r, rfl⟩
    | error err =>
        rw [Cluster.startNode, he] at hs
        cases hs

theorem Agrees.startNode_error (a : Agrees c none none) (l : Linked c) {n : NodeConfig}
    {err : Fault} (hs : (c.startNode n).1 = .error err) : (c.startNode n).2 = c := by
  rcases (a.startNode l n).2 with ⟨err', -, he⟩ | ⟨id, hok⟩
  · rw [he]
  · rw [hok] at hs
    cases hs

/-! ## Caches of a node -/

/-- A running node finds a cache if and only if it has started it. -/
theorem cacheOn_eq (hr : c.running.get? id = some h) (name : String) :
    c.cacheOn id name =
      match h.caches.get? name with
      | some i => .ok i
      | none => .error (.cacheNotFound name) := by
  obtain ⟨hh, hs⟩ := running_eq_some_iff.mp hr
  rw [cacheOn, ensureRunning_eq hh, hs]
  rfl

theorem cacheOn_stopped (hh : c.host? id = some h) (hs : h.stopped = true) (name : String) :
    c.cacheOn id name = .error (.nodeStopped h.member.name) := by
  rw [cacheOn, ensureRunning_eq hh, hs]
  rfl

namespace Agrees

/-- A running node has exactly the registered caches, each under the registered configuration. -/
theorem cacheOn_cases (a : Agrees c none none) (l : Linked c) (hr : c.running.get? id = some h)
    (name : String) :
    (c.registry.get? name = none ∧ c.cacheOn id name = .error (.cacheNotFound name)) ∨
    ∃ config i, c.registry.get? name = some config ∧ c.cacheOn id name = .ok i ∧
      Handle c id config i := by
  cases hc : c.registry.get? name with
  | none =>
      left
      refine ⟨rfl, ?_⟩
      rw [cacheOn_eq hr]
      cases hi : h.caches.get? name with
      | none => rfl
      | some i =>
          obtain ⟨e, -, hreg⟩ := a.current hr hi
          rw [hc] at hreg
          cases hreg
  | some config =>
      right
      obtain ⟨h', i, hr', hi⟩ := a.hosts hr hc
      rw [hr] at hr'
      cases hr'
      obtain ⟨e, he, hreg⟩ := a.current hr hi
      obtain ⟨e', he', ho, -⟩ := l.hosted (running_eq_some_iff.mp hr).1 hi
      rw [he] at he'
      cases he'
      rw [hc] at hreg
      cases hreg
      have hname := l.keyed hc
      have hon : c.cacheOn id name = .ok i := by rw [cacheOn_eq hr, hi]
      exact ⟨_, i, rfl, hon, by rw [hname, hon], ⟨e, he, ho, rfl⟩, by rw [hname, hc]⟩

/-- What becomes of a cache that a running node creates. -/
theorem createFrom_cases (a : Agrees c none none) (l : Linked c)
    (hr : c.running.get? id = some h) (config : CacheConfig) :
    (Text.isBlankText config.name = true ∧
      c.createFrom id config = (.error (.config .blankCacheName), c)) ∨
    (Text.isBlankText config.name = false ∧ c.registry.contains config.name = true ∧
      c.createFrom id config = (.error (.cacheExists config.name), c)) ∨
    (Text.isBlankText config.name = false ∧ c.registry.contains config.name = false ∧
      ∃ i, (c.createFrom id config).1 = .ok i ∧ Handle (c.createFrom id config).2 id config i) := by
  obtain ⟨hh, hs⟩ := running_eq_some_iff.mp hr
  rw [Cluster.createFrom, ensureRunning_eq hh, hs, Cluster.createCache, CacheConfig.check,
    l.isNone_byId? hr]
  cases Text.isBlankText config.name with
  | true => exact Or.inl ⟨rfl, rfl⟩
  | false =>
      right
      cases hc : c.registry.contains config.name with
      | true => exact Or.inl ⟨rfl, rfl, rfl⟩
      | false =>
          right
          refine ⟨rfl, rfl, ?_⟩
          have free := Table.contains_eq_false_iff.mp hc
          have hnew : (c.registry.insert config.name config).get? config.name = some config :=
            Table.get?_insert_self _ _ _
          have l₁ := l.step (.register c free)
          obtain ⟨hgrows, a₂⟩ := (a.register free).propagate l₁ hnew
          have l₂ := l₁.deeds (deeds_propagate hnew none)
          obtain ⟨h₂, hr₂⟩ := hgrows.runs (c := { c with
            registry := c.registry.insert config.name config }) hr
          rcases a₂.cacheOn_cases l₂ hr₂ config.name with
            ⟨hnone, -⟩ | ⟨config', i, hc', hon, hhandle⟩
          · rw [hgrows.registry, hnew] at hnone
            cases hnone
          · rw [hgrows.registry, hnew] at hc'
            cases hc'
            exact ⟨i, hon, hhandle⟩

end Agrees

/-! ## Nodes that have stopped -/

theorem createFrom_stopped (hh : c.host? id = some h) (hs : h.stopped = true)
    (config : CacheConfig) : c.createFrom id config = (.error (.nodeStopped h.member.name), c) := by
  rw [createFrom, ensureRunning_eq hh, hs]
  rfl

theorem getOrCreate_stopped (hh : c.host? id = some h) (hs : h.stopped = true)
    (config : CacheConfig) :
    c.getOrCreate id config = (.error (.nodeStopped h.member.name), c) := by
  rw [getOrCreate, cacheOn_stopped hh hs, createFrom_stopped hh hs]

theorem destroyFrom_stopped (hh : c.host? id = some h) (hs : h.stopped = true) (name : String) :
    c.destroyFrom id name = (.error (.nodeStopped h.member.name), c) := by
  rw [destroyFrom, ensureRunning_eq hh, hs]
  rfl

theorem Settled.of_stopped {α : Type} {condition : Prop} {r : Outcome α × Cluster}
    (hs : h.stopped = true) (hr : r = (.error (.nodeStopped h.member.name), c)) :
    Settled c h condition r where
  stopped _ := by rw [hr]
  running hn := by
    rw [hs] at hn
    cases hn
  succeeds hn := by
    rw [hs] at hn
    cases hn
  unchanged _ _ := by rw [hr]

theorem Settled.of_ok {α : Type} {condition : Prop} {r : Outcome α × Cluster} {x : α}
    (hs : h.stopped = false) (hr : r.1 = .ok x) (hc : condition) : Settled c h condition r where
  stopped hn := by
    rw [hs] at hn
    cases hn
  running _ name herr := by
    rw [hr] at herr
    cases herr
  succeeds _ := ⟨fun _ => hc, fun _ => ⟨x, hr⟩⟩
  unchanged err herr := by
    rw [hr] at herr
    cases herr

theorem Settled.of_error {α : Type} {condition : Prop} {r : Outcome α × Cluster} {err : Fault}
    (hs : h.stopped = false) (hr : r = (.error err, c)) (hne : ∀ name, err ≠ .nodeStopped name)
    (hc : ¬ condition) : Settled c h condition r where
  stopped hn := by
    rw [hs] at hn
    cases hn
  running _ name herr := by
    rw [hr] at herr
    exact hne name (Except.error.inj herr)
  succeeds _ := by
    refine ⟨fun ⟨x, hx⟩ => ?_, fun h => absurd h hc⟩
    rw [hr] at hx
    cases hx
  unchanged _ _ := by rw [hr]

/-- A node that has stopped can do nothing any more. -/
theorem governs_stopped (hh : c.host? id = some h) (hs : h.stopped = true) : Governs c id h := by
  have hrun : c.running.get? id = none := by
    cases hr : c.running.get? id with
    | none => rfl
    | some h' =>
        obtain ⟨hh', hs'⟩ := running_eq_some_iff.mp hr
        rw [hh] at hh'
        cases hh'
        rw [hs] at hs'
        cases hs'
  have hstop := stopNode_eq_self hrun
  refine ⟨fun name => .of_stopped hs ?cache, fun name i hi => ?found,
    fun config => .of_stopped hs (createFrom_stopped hh hs config), fun config i hi => ?created,
    fun config => .of_stopped hs (getOrCreate_stopped hh hs config), fun config i hi => ?got,
    fun config _ => ?kept, fun name => .of_stopped hs (destroyFrom_stopped hh hs name),
    fun name b hb => ?destroyed, fun name hb => ?missing, ?stop, fun _ => ?stopped⟩
  case cache => rw [cacheOn_stopped hh hs]
  case found =>
    rw [cacheOn_stopped hh hs] at hi
    cases hi
  case created =>
    rw [createFrom_stopped hh hs] at hi
    cases hi
  case got =>
    rw [getOrCreate_stopped hh hs] at hi
    cases hi
  case kept => rw [getOrCreate_stopped hh hs]
  case destroyed =>
    rw [destroyFrom_stopped hh hs] at hb
    cases hb
  case missing =>
    rw [destroyFrom_stopped hh hs] at hb
    cases hb
  case stop =>
    rw [hstop, hs]
    rfl
  case stopped => rw [hstop]

/-! ## Nodes that run -/

namespace Agrees

theorem settled_cacheOn (a : Agrees c none none) (l : Linked c) (hr : c.running.get? id = some h)
    (name : String) :
    Settled c h (c.registry.contains name = true) (c.cacheOn id name, c) := by
  have hs := (running_eq_some_iff.mp hr).2
  rw [Table.contains_iff]
  rcases a.cacheOn_cases l hr name with ⟨hc, hon⟩ | ⟨config, i, hc, hon, -⟩
  · exact .of_error hs (by rw [hon]) (by simp) (by simp [hc])
  · exact .of_ok hs hon ⟨config, hc⟩

theorem settled_createFrom (a : Agrees c none none) (l : Linked c)
    (hr : c.running.get? id = some h) (config : CacheConfig) :
    Settled c h
      (Text.isBlankText config.name = false ∧ c.registry.contains config.name = false)
      (c.createFrom id config) := by
  have hs := (running_eq_some_iff.mp hr).2
  rcases a.createFrom_cases l hr config with ⟨hb, he⟩ | ⟨hb, hc, he⟩ | ⟨hb, hc, i, hok, -⟩
  · exact .of_error hs he (by simp) (by simp [hb])
  · exact .of_error hs he (by simp) (by simp [hc])
  · exact .of_ok hs hok ⟨hb, hc⟩

/-- A node that has created a cache has a handle of it. -/
theorem handle_createFrom (a : Agrees c none none) (l : Linked c) (hr : c.running.get? id = some h)
    {config : CacheConfig} {i : EndpointId} (hi : (c.createFrom id config).1 = .ok i) :
    Handle (c.createFrom id config).2 id config i := by
  rcases a.createFrom_cases l hr config with ⟨-, he⟩ | ⟨-, -, he⟩ | ⟨-, -, i', hok, hhandle⟩
  · rw [he] at hi
    cases hi
  · rw [he] at hi
    cases hi
  · rw [hok] at hi
    cases hi
    exact hhandle

/-- What a running node gets of a cache: the one that is registered, or else one that it creates. -/
theorem getOrCreate_cases (a : Agrees c none none) (l : Linked c)
    (hr : c.running.get? id = some h) (config : CacheConfig) :
    (∃ registered i, c.registry.get? config.name = some registered ∧
      c.getOrCreate id config = (.ok i, c) ∧ Handle c id registered i) ∨
    (c.registry.get? config.name = none ∧ c.getOrCreate id config = c.createFrom id config) := by
  rcases a.cacheOn_cases l hr config.name with ⟨hc, hon⟩ | ⟨registered, i, hc, hon, hhandle⟩
  · right
    refine ⟨hc, ?_⟩
    rw [Cluster.getOrCreate, hon]
    -- a cache that is not registered cannot be in the way
    rcases a.createFrom_cases l hr config with ⟨-, he⟩ | ⟨-, hreg, -⟩ | ⟨-, -, i, hok, -⟩
    · rw [he]
    · rw [Table.contains_eq_false_iff.mpr hc] at hreg
      cases hreg
    · cases hcreate : c.createFrom id config with
      | mk r c' =>
          rw [hcreate] at hok
          cases hok
          rfl
  · left
    refine ⟨registered, i, hc, ?_, hhandle⟩
    rw [Cluster.getOrCreate, hon]

theorem settled_getOrCreate (a : Agrees c none none) (l : Linked c)
    (hr : c.running.get? id = some h) (config : CacheConfig) :
    Settled c h
      (c.registry.contains config.name = true ∨ Text.isBlankText config.name = false)
      (c.getOrCreate id config) := by
  have hs := (running_eq_some_iff.mp hr).2
  rcases a.getOrCreate_cases l hr config with ⟨registered, i, hc, he, -⟩ | ⟨hc, he⟩
  · exact .of_ok hs (by rw [he]) (Or.inl (Table.contains_iff.mpr ⟨registered, hc⟩))
  · have hcreate := a.settled_createFrom l hr config
    rw [Table.contains_eq_false_iff.mpr hc] at hcreate ⊢
    rw [he]
    exact ⟨hcreate.stopped, hcreate.running,
      fun hn => (hcreate.succeeds hn).trans (by simp), hcreate.unchanged⟩

end Agrees

/-- A running node destroys a cache if there is one. -/
theorem destroyFrom_running (hr : c.running.get? id = some h) (name : String) :
    (c.destroyFrom id name).1 = .ok (c.registry.contains name) ∧
      (c.registry.contains name = false → (c.destroyFrom id name).2 = c) := by
  obtain ⟨hh, hs⟩ := running_eq_some_iff.mp hr
  rw [destroyFrom, ensureRunning_eq hh, hs, destroyCache]
  cases c.registry.contains name with
  | true => exact ⟨rfl, fun hn => by cases hn⟩
  | false => exact ⟨rfl, fun _ => rfl⟩

theorem Agrees.governs_running (a : Agrees c none none) (l : Linked c)
    (hr : c.running.get? id = some h) : Governs c id h := by
  have hs := (running_eq_some_iff.mp hr).2
  have hdestroy := destroyFrom_running hr
  refine ⟨a.settled_cacheOn l hr, fun name i hi => ?found, a.settled_createFrom l hr,
    fun config i hi => ?created, a.settled_getOrCreate l hr, fun config i hi => ?got,
    fun config hc => ?kept, fun name => ?destroy, fun name b hb => ?destroyed,
    fun name hb => ?missing, ?stop, fun hn => ?stopped⟩
  case found =>
    rcases a.cacheOn_cases l hr name with ⟨-, hon⟩ | ⟨config, i', hc, hon, hhandle⟩
    · rw [hon] at hi
      cases hi
    · rw [hon] at hi
      cases hi
      exact ⟨config, hc, hhandle⟩
  case created => exact a.handle_createFrom l hr hi
  case got =>
    rcases a.getOrCreate_cases l hr config with ⟨registered, i', hc, he, hhandle⟩ | ⟨hc, he⟩
    · rw [he] at hi ⊢
      cases hi
      rw [hc]
      exact hhandle
    · rw [he] at hi ⊢
      rw [hc]
      exact a.handle_createFrom l hr hi
  case kept =>
    rcases a.getOrCreate_cases l hr config with ⟨registered, i, -, he, -⟩ | ⟨hnone, -⟩
    · rw [he]
    · rw [Table.contains_eq_false_iff.mpr hnone] at hc
      cases hc
  case destroy => exact .of_ok hs (hdestroy name).1 trivial
  case destroyed =>
    rw [(hdestroy name).1] at hb
    cases hb
    rfl
  case missing =>
    refine (hdestroy name).2 ?_
    rw [(hdestroy name).1] at hb
    exact Except.ok.inj hb
  case stop =>
    rw [stopNode_eq_stopping hr, hs]
    rfl
  case stopped =>
    rw [hs] at hn
    cases hn

/-- A cluster that holds together and agrees with its registry is exact. -/
theorem Agrees.exact (a : Agrees c none none) (l : Linked c) : Exact c where
  startNode := a.startNode_ok_iff l
  unchanged _ _ := a.startNode_error l
  governs {id h} hh := by
    cases hs : h.stopped with
    | true => exact governs_stopped hh hs
    | false => exact a.governs_running l (running_eq_some_iff.mpr ⟨hh, hs⟩)

end Cluster

namespace Session

/-- **Operations succeed exactly when they should, and fail without a trace**: whatever users have
done, each request has one condition for its success, and a request that fails leaves nodes,
registry, endpoints, store and events as they are. -/
theorem exact_after {memberIds : Nat → MemberId} (distinct : Function.Injective memberIds)
    (publisher : Fanout) (cs : List Command) :
    ((fresh memberIds publisher).after cs).cluster.Exact := by
  have hsound := Sound.fresh distinct publisher
  have hagrees := agrees_after cs hsound (Cluster.Agrees.empty memberIds publisher)
  exact hagrees.exact (hsound.after cs).sound.linked

/-- One node runs and one has stopped. The running one finds the cache that it created. -/
theorem exact_after_stop :
    let c := ((fresh id {}).after [.start { name := "a" }, .start { name := "b" },
      .createFrom 0 { name := "x" }, .stop 1]).cluster
    (c.cacheOn 0 "x").isOk = true ∧ (c.cacheOn 0 "y").isOk = false ∧
      c.cacheOn 1 "x" = .error (.nodeStopped "b") ∧ c.Exact :=
  ⟨by decide, by decide, by decide, exact_after Function.injective_id {} _⟩

end Session

end NearCache
