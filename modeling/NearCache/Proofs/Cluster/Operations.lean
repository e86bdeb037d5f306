import NearCache.Proofs.Cluster.Linked

/-!
# What the parts of an operation do

The small operations of a cluster, of which all others are made: what each does to nodes and registry,
and that it is a sequence of the changes that `Cluster.Step` lists. Most of them are so whatever the
cluster looks like; those that drop data (`Linked.destroyCache`, `steps_dropEach`) rely on roster,
hosts and endpoints fitting together, for they have to have closed every endpoint before.

How the operations put them together is in `NearCache.Proofs.Cluster.Deeds`.
-/

namespace NearCache

namespace Cluster

variable {c : Cluster}

/-! ## Nodes and endpoints -/

theorem setHost_self {id : MemberId} {h : Host} (hh : c.host? id = some h) :
    c.setHost id h c.fabric = c := by
  unfold setHost
  rw [Table.insert_eq_self hh]

/-- A node that has stopped starts nothing. -/
theorem activateOn_eq_stopped {id : MemberId} {h : Host} (hh : c.host? id = some h)
    (hs : h.stopped = true) (config : CacheConfig) (t : Trigger) :
    c.activateOn id config t = (.error (.nodeStopped h.member.name), c) := by
  simp [activateOn, hh, Host.activate, hs]

theorem activateOn_eq_error {id : MemberId} (hr : c.running.get? id = none)
    (config : CacheConfig) (t : Trigger) :
    ∃ err, c.activateOn id config t = (.error err, c) := by
  cases hh : c.host? id with
  | none => exact ⟨.nodeNotFound (.id id), by simp [activateOn, hh]⟩
  | some h =>
      have hs : h.stopped = true := by
        cases hs : h.stopped with
        | true => rfl
        | false =>
            rw [running_eq_some_iff.mpr ⟨hh, hs⟩] at hr
            cases hr
      exact ⟨.nodeStopped h.member.name, activateOn_eq_stopped hh hs config t⟩

theorem activateOn_eq_self {id : MemberId} {h : Host} (hr : c.running.get? id = some h)
    {config : CacheConfig} {i : EndpointId} (hi : h.caches.get? config.name = some i)
    (t : Trigger) : c.activateOn id config t = (.ok i, c) := by
  obtain ⟨hh, hs⟩ := running_eq_some_iff.mp hr
  simp [activateOn, hh, Host.activate, hs, hi, setHost_self hh]

theorem activateOn_eq_starting {id : MemberId} {h : Host} (hr : c.running.get? id = some h)
    {config : CacheConfig} (new : h.caches.get? config.name = none) (t : Trigger) :
    c.activateOn id config t = (.ok c.fabric.started,
      (c.starting id h config).publishAll
        (Host.startEvents h.member.name config.name t (Placement.decide config h.member))) := by
  obtain ⟨hh, hs⟩ := running_eq_some_iff.mp hr
  simp [activateOn, hh, Host.activate, hs, new, Fabric.start_fst, starting, Host.startEvents]

/-- The node that starts a cache runs with one cache more. -/
theorem running_starting {id : MemberId} {h : Host} (hr : c.running.get? id = some h)
    (config : CacheConfig) (j : MemberId) :
    (c.starting id h config).running.get? j =
      if j = id then some { h with caches := h.caches.insert config.name c.fabric.started }
      else c.running.get? j := by
  have hs := (running_eq_some_iff.mp hr).2
  show Table.get? (Table.filter _ (c.hosts.insert id _)) j = _
  rw [running, Table.get?_filter, Table.get?_filter, Table.get?_insert]
  split
  · simp [hs]
  · rfl

theorem deactivateOn_eq_closing {id : MemberId} {h : Host} (hh : c.host? id = some h)
    {name : String} {i : EndpointId} (hi : h.caches.get? name = some i) :
    c.deactivateOn id name = c.closing id h name i := by
  simp [deactivateOn, hh, Host.deactivate, hi, closing]

theorem deactivateOn_eq_self {id : MemberId} {name : String}
    (hn : ∀ h, c.host? id = some h → h.caches.get? name = none) : c.deactivateOn id name = c := by
  unfold deactivateOn
  cases hh : c.host? id with
  | none => rfl
  | some h => simp [Host.deactivate, hn h hh, setHost_self hh]

/-- Taking a cache from a node takes it from the node's caches and from no other node's. -/
theorem host?_deactivateOn (c : Cluster) (id j : MemberId) (name : String) :
    (c.deactivateOn id name).host? j =
      if j = id then (c.host? id).map fun h => { h with caches := h.caches.erase name }
      else c.host? j := by
  cases hh : c.host? id with
  | none =>
      rw [deactivateOn_eq_self fun h hh' => by rw [hh] at hh'; cases hh']
      split
      · next hj => rw [hj, hh]; rfl
      · rfl
  | some h =>
      cases hi : h.caches.get? name with
      | none =>
          rw [deactivateOn_eq_self fun h' hh' => by rw [hh] at hh'; cases hh'; exact hi]
          split
          · next hj => simp [hj, hh, Table.erase_eq_self hi]
          · rfl
      | some i =>
          rw [deactivateOn_eq_closing hh hi]
          exact host?_setHost c id j _ _

/-- A registered cache stays where it has started. -/
theorem confirm_eq_self {name : String} {config : CacheConfig}
    (hc : c.registry.get? name = some config) (id : MemberId) : c.confirm id name = c := by
  unfold confirm
  rw [if_pos (Table.contains_iff.mpr ⟨config, hc⟩)]

theorem stopNode_eq_stopping {id : MemberId} {h : Host} (hr : c.running.get? id = some h) :
    c.stopNode id = (.ok (), (c.stopping id h).publish (.nodeLeft h.member.name)) := by
  obtain ⟨hh, hs⟩ := running_eq_some_iff.mp hr
  simp [stopNode, hr, Host.shutdown, hs, stopping, setHost]

theorem stopNode_eq_self {id : MemberId} (hr : c.running.get? id = none) :
    c.stopNode id = (.error (.nodeNotFound (.id id)), c) := by
  unfold stopNode
  rw [hr]

/-- A node enrols under the next number. -/
def enrolling (c : Cluster) (n : NodeConfig) : Cluster :=
  let m := Member.enrolled (c.memberIds c.joined) n.name n.role n.attributes
  { c with
    roster := c.roster ++ [m]
    hosts := c.hosts.insert m.id { member := m }
    joined := c.joined + 1 }

/-- A node that has enrolled runs without caches, beside those that ran before. -/
theorem running_enrolling (c : Cluster) (n : NodeConfig) (j : MemberId) :
    (c.enrolling n).running.get? j =
      if j = c.memberIds c.joined then
        some { member := Member.enrolled (c.memberIds c.joined) n.name n.role n.attributes }
      else c.running.get? j := by
  show Table.get? (Table.filter _ (c.hosts.insert (c.memberIds c.joined) _)) j = _
  rw [running, Table.get?_filter, Table.get?_filter, Table.get?_insert]
  split <;> rfl

theorem Linked.running_enrolling (l : Linked c) (n : NodeConfig) {id : MemberId} {h : Host}
    (hr : c.running.get? id = some h) : (c.enrolling n).running.get? id = some h := by
  rw [Cluster.running_enrolling, if_neg, hr]
  intro hid
  rw [hid, l.running_next] at hr
  cases hr

/-- A node enrols if its name can be used and is free. -/
theorem enrol_eq (c : Cluster) (n : NodeConfig) :
    c.enrol n =
      match n.check with
      | .error e => .error e
      | .ok () =>
        if c.roster.any (·.name = n.name) then .error (.nodeNameTaken n.name)
        else .ok (c.memberIds c.joined,
          (c.enrolling n).publish (.nodeJoined n.name n.role.isClient)) := by
  unfold enrol
  cases n.check with
  | error e => rfl
  | ok u =>
      have hname : ∀ id, (Member.enrolled id n.name n.role n.attributes).name = n.name :=
        fun _ => rfl
      simp only [bind, Except.bind, Roster.join, hname]
      cases c.roster.any fun m => decide (m.name = n.name) <;> rfl

theorem enrol_eq_ok {n : NodeConfig} {id : MemberId} {c' : Cluster}
    (h : c.enrol n = .ok (id, c')) :
    id = c.memberIds c.joined ∧ (∀ m ∈ c.roster, m.name ≠ n.name) ∧
      c' = (c.enrolling n).publish (.nodeJoined n.name n.role.isClient) := by
  rw [enrol_eq] at h
  cases hc : n.check with
  | error e =>
      rw [hc] at h
      cases h
  | ok u =>
      rw [hc] at h
      dsimp only at h
      split at h
      · cases h
      · next free =>
        cases h
        refine ⟨rfl, ?_, rfl⟩
        intro m hm heq
        exact free (List.any_eq_true.mpr ⟨m, hm, decide_eq_true heq⟩)

/-- A member is found by its name. -/
theorem Linked.node_eq (l : Linked c) {m : Member} (hm : m ∈ c.roster) :
    c.node m.name = .ok m.id := by
  obtain ⟨h, hr, -⟩ := l.present.mp hm
  have hfind : c.roster.byName? m.name = some m := by
    cases hf : c.roster.byName? m.name with
    | none =>
        have hnone := List.find?_eq_none.mp hf m hm
        simp at hnone
    | some m' =>
        have hname : m'.name = m.name := by simpa using List.find?_some hf
        have hmem : m' ∈ c.roster := List.mem_of_find?_eq_some hf
        rw [List.inj_on_of_nodup_map l.names hmem hm hname]
  have hrun : c.running.contains m.id = true := Table.contains_iff.mpr ⟨h, hr⟩
  unfold node
  rw [hfind]
  exact if_pos hrun

/-! ## The registry -/

theorem registry_activateOn (c : Cluster) (id : MemberId) (config : CacheConfig) (t : Trigger) :
    (c.activateOn id config t).2.registry = c.registry := by
  cases hr : c.running.get? id with
  | none =>
      obtain ⟨err, he⟩ := activateOn_eq_error hr config t
      rw [he]
  | some h =>
      cases hi : h.caches.get? config.name with
      | none => rw [activateOn_eq_starting hr hi t]; rfl
      | some i => rw [activateOn_eq_self hr hi t]

theorem registry_deactivateOn (c : Cluster) (id : MemberId) (name : String) :
    (c.deactivateOn id name).registry = c.registry := by
  unfold deactivateOn
  split <;> rfl

theorem registry_confirm (c : Cluster) (id : MemberId) (name : String) :
    (c.confirm id name).registry = c.registry := by
  unfold confirm
  split
  · rfl
  · exact registry_deactivateOn c id name

theorem registry_activateRegistered (c : Cluster) (id : MemberId) (config : CacheConfig)
    (t : Trigger) : (c.activateRegistered id config t).2.registry = c.registry := by
  have hactivate := registry_activateOn c id config t
  unfold activateRegistered
  cases ha : c.activateOn id config t with
  | mk r c' =>
      rw [ha] at hactivate
      cases r with
      | error => exact hactivate
      | ok => exact (registry_confirm c' id config.name).trans hactivate

theorem registry_stopNode (c : Cluster) (id : MemberId) :
    (c.stopNode id).2.registry = c.registry := by
  cases hr : c.running.get? id with
  | none => rw [stopNode_eq_self hr]
  | some h => rw [stopNode_eq_stopping hr]; rfl

theorem registry_deactivateEach (name : String) (ids : List MemberId) :
    ∀ c : Cluster, (c.deactivateEach name ids).registry = c.registry := by
  induction ids with
  | nil => intro c; rfl
  | cons id ids ih => intro c; exact (ih _).trans (registry_deactivateOn c id name)

/-! ## Changes that keep the data -/

theorem steps_publish (c : Cluster) (e : Event) : Steps c (c.publish e) :=
  .single (.publish c _)

theorem steps_publishAll (c : Cluster) (es : List Event) : Steps c (c.publishAll es) :=
  .single (.publish c _)

theorem steps_activateOn (c : Cluster) (id : MemberId) (config : CacheConfig) (t : Trigger) :
    Steps c (c.activateOn id config t).2 := by
  cases hr : c.running.get? id with
  | none =>
      obtain ⟨err, he⟩ := activateOn_eq_error hr config t
      rw [he]
  | some h =>
      cases hi : h.caches.get? config.name with
      | none =>
          rw [activateOn_eq_starting hr hi t]
          exact (Relation.ReflTransGen.single (.start c hr hi)).trans (steps_publishAll _ _)
      | some i => rw [activateOn_eq_self hr hi t]

theorem steps_deactivateOn (c : Cluster) (id : MemberId) (name : String) :
    Steps c (c.deactivateOn id name) := by
  by_cases hn : ∃ h i, c.host? id = some h ∧ h.caches.get? name = some i
  · obtain ⟨h, i, hh, hi⟩ := hn
    rw [deactivateOn_eq_closing hh hi]
    exact .single (.close c hh hi)
  · rw [deactivateOn_eq_self]
    intro h hh
    cases hi : h.caches.get? name with
    | none => rfl
    | some i => exact absurd ⟨h, i, hh, hi⟩ hn

theorem steps_enrol {n : NodeConfig} {id : MemberId} {c' : Cluster}
    (h : c.enrol n = .ok (id, c')) : Steps c c' := by
  obtain ⟨-, free, rfl⟩ := enrol_eq_ok h
  have henrol : Step c (c.enrolling n) := .enrol c rfl free
  exact (Relation.ReflTransGen.single henrol).trans (steps_publish _ _)

theorem steps_stopNode (c : Cluster) (id : MemberId) : Steps c (c.stopNode id).2 := by
  cases hr : c.running.get? id with
  | none => rw [stopNode_eq_self hr]
  | some h =>
      rw [stopNode_eq_stopping hr]
      exact (Relation.ReflTransGen.single (.stop c hr)).trans (steps_publish _ _)

/-! ## Changes that drop data -/

theorem steps_deactivateEach (name : String) (ids : List MemberId) :
    ∀ c : Cluster, Steps c (c.deactivateEach name ids) := by
  induction ids with
  | nil => intro c; exact .refl
  | cons id ids ih => intro c; exact (steps_deactivateOn c id name).trans (ih _)

theorem host?_deactivateEach (name : String) (j : MemberId) (ids : List MemberId) :
    ∀ c : Cluster, (c.deactivateEach name ids).host? j =
      if j ∈ ids then (c.host? j).map fun h => { h with caches := h.caches.erase name }
      else c.host? j := by
  induction ids with
  | nil => intro c; rfl
  | cons id ids ih =>
      intro c
      show ((c.deactivateOn id name).deactivateEach name ids).host? j = _
      rw [ih, host?_deactivateOn]
      by_cases hj : j = id
      · -- the node may be listed again, and then there is nothing left to take
        subst hj
        have htwice : ∀ h : Host, (h.caches.erase name).erase name = h.caches.erase name :=
          fun h => Table.erase_eq_self (by simp [Table.get?_erase])
        cases c.host? j <;> simp [htwice]
      · simp [hj]

/-- A cache that is taken from every running node is taken from each of them and nothing else. -/
theorem running_deactivateEach (name : String) (j : MemberId) :
    (c.deactivateEach name c.running.keys).running.get? j =
      (c.running.get? j).map fun h => { h with caches := h.caches.erase name } := by
  unfold running
  rw [Table.get?_filter, Table.get?_filter]
  show Option.filter _ ((c.deactivateEach name c.running.keys).host? j) = _
  rw [host?_deactivateEach]
  cases hh : c.host? j with
  | none =>
      have hhost : c.hosts.get? j = none := hh
      simp [hhost]
  | some h =>
      have hhost : c.hosts.get? j = some h := hh
      rw [hhost]
      by_cases hmem : j ∈ c.running.keys
      · rw [if_pos hmem]
        cases hs : h.stopped <;> simp [Option.filter, hs]
      · -- a host that is not listed has stopped
        rw [if_neg hmem]
        cases hs : h.stopped with
        | true => simp [Option.filter, hs]
        | false =>
            have hr : c.running.get? j = some h := running_eq_some_iff.mpr ⟨hh, hs⟩
            exact absurd (Table.mem_keys_iff.mpr ⟨h, hr⟩) hmem

/-- A cache that was taken from every running node has no open endpoint. -/
theorem Linked.idle_deactivateEach (l : Linked c) (name : String) (i : EndpointId) (e : Endpoint)
    (he : (c.deactivateEach name c.running.keys).fabric.endpoint? i = some e)
    (ho : e.closed = none) : e.name ≠ name := by
  intro hname
  obtain ⟨id, h, hh, hi⟩ := (l.steps (steps_deactivateEach name c.running.keys c)).hosting he ho
  rw [host?_deactivateEach] at hh
  split at hh
  · obtain ⟨h₀, -, rfl⟩ := Option.map_eq_some_iff.mp hh
    rw [Table.get?_erase, if_pos hname] at hi
    cases hi
  · next hmem => exact hmem (Table.mem_keys_iff.mpr ⟨h, l.runs hh hi⟩)

/-- A registered cache is destroyed by taking it from the registry and from all nodes. -/
theorem destroyCache_eq {name : String} (h : c.registry.contains name = true) :
    c.destroyCache name =
      (true,
        let d := { c with registry := c.registry.erase name }.deactivateEach name c.running.keys
        { d with fabric := d.fabric.destroy name }.publish (.cacheDestroyed name)) := by
  unfold destroyCache
  rw [if_pos h]
  rfl

theorem Linked.destroyCache (l : Linked c) (name : String) :
    Steps c (c.destroyCache name).2 := by
  cases h : c.registry.contains name with
  | false =>
      have hsame : c.destroyCache name = (false, c) := by simp [Cluster.destroyCache, h]
      rw [hsame]
  | true =>
      have hunregister : Step c { c with registry := c.registry.erase name } := by
        refine .unregister c fun {n config} hn => ?_
        rw [Table.get?_erase] at hn
        split at hn
        · cases hn
        · exact hn
      have hidle := (l.step hunregister).idle_deactivateEach name
      rw [destroyCache_eq h]
      exact (((Relation.ReflTransGen.single hunregister).trans
        (steps_deactivateEach name c.running.keys _)).tail (.drop _ hidle)).trans
        (steps_publish _ _)

/-- Stops members one after the other. -/
def stopEach (c : Cluster) (ms : List Member) : Cluster :=
  ms.foldl (fun c m => (c.stopNode m.id).2) c

/-- A node runs no more once it has stopped; the other nodes are not touched. -/
theorem running_stopNode (c : Cluster) (id j : MemberId) :
    (c.stopNode id).2.running.get? j = if j = id then none else c.running.get? j := by
  cases hr : c.running.get? id with
  | none =>
      rw [stopNode_eq_self hr]
      split
      · next hj => rw [hj, hr]
      · rfl
  | some h =>
      rw [stopNode_eq_stopping hr]
      show Table.get? (Table.filter _ (c.hosts.insert id _)) j = _
      rw [running, Table.get?_filter, Table.get?_filter, Table.get?_insert]
      split <;> simp [Option.filter]

theorem running_stopEach (j : MemberId) (ms : List Member) :
    ∀ c : Cluster, (c.stopEach ms).running.get? j =
      if j ∈ ms.map Member.id then none else c.running.get? j := by
  induction ms with
  | nil => intro c; rfl
  | cons m ms ih =>
      intro c
      show ((c.stopNode m.id).2.stopEach ms).running.get? j = _
      rw [ih, running_stopNode]
      by_cases hj : j = m.id
      · simp [hj]
      · simp [hj]

/-- Stopping the whole roster leaves no node running. -/
theorem Linked.running_stopEach (l : Linked c) (j : MemberId) :
    (c.stopEach c.roster).running.get? j = none := by
  rw [Cluster.running_stopEach]
  split
  · rfl
  · next hmem =>
    cases hr : c.running.get? j with
    | none => rfl
    | some h =>
        refine absurd (List.mem_map.mpr ⟨h.member, l.member_mem hr, ?_⟩) hmem
        exact l.own (running_eq_some_iff.mp hr).1

/-- Without running nodes nothing is open. -/
theorem Linked.closed (l : Linked c) (hr : ∀ j, c.running.get? j = none) {i : EndpointId}
    {e : Endpoint} (he : c.fabric.endpoint? i = some e) : e.closed ≠ none := by
  intro ho
  obtain ⟨id, h, hh, hi⟩ := l.hosting he ho
  have hruns := l.runs hh hi
  rw [hr id] at hruns
  cases hruns

theorem steps_dropEach (names : List String) :
    ∀ c : Cluster, (∀ i e, c.fabric.endpoint? i = some e → e.closed ≠ none) →
      Steps c { c with fabric := names.foldl (fun f name => f.destroy name) c.fabric } := by
  induction names with
  | nil => intro c _; exact .refl
  | cons name names ih =>
      intro c hclosed
      have hdrop : Step c { c with fabric := c.fabric.destroy name } :=
        .drop c fun i e he ho => absurd ho (hclosed i e he)
      exact (Relation.ReflTransGen.single hdrop).trans
        (ih { c with fabric := c.fabric.destroy name } hclosed)

end Cluster

end NearCache
