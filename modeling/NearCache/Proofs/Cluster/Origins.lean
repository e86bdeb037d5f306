import NearCache.Proofs.Cluster.Deeds
import NearCache.Proofs.Cluster.Roster

/-!
# Where endpoints come from

Whether an endpoint has a near cache was decided once, when it started, by the configuration of the
cache and the node on which it started (`Endpoint.StartedOn`). The endpoint may have been closed
since and the node may have stopped, but both are still known to the cluster.

`Cluster.Rooted kind c` says so of all endpoints of a cluster, and that every node that ever ran there
is of a kind. Only a node that enrols can bring another kind. A sequence of changes in which none does
can be told from the number of members that have joined, which nothing lowers (`Steps.joined_le`), so
`Rooted.steps` asks for that number only.
-/

namespace NearCache

/-- The endpoint has started on a node, which has decided about its near cache. -/
def Endpoint.StartedOn (e : Endpoint) (m : Member) : Prop :=
  e.node = m.name ∧ e.placement = Placement.decide e.config m

namespace Endpoint.StartedOn

variable {e e' : Endpoint} {m : Member}

theorem shut (h : e.StartedOn m) (reason : Closing) : (e.shut reason).StartedOn m := by
  unfold Endpoint.shut
  split <;> exact h

theorem of_frame_eq (h : e.StartedOn m) (hf : e'.frame = e.frame) : e'.StartedOn m := by
  obtain ⟨hnode, hconfig, hplacement, -⟩ := eq_of_frame_eq hf
  exact ⟨hnode.trans h.1, by rw [hplacement, hconfig]; exact h.2⟩

end Endpoint.StartedOn

namespace Cluster

/-- All nodes, running or stopped, are of a kind, and all endpoints, open or closed, have started on
one of the nodes. -/
structure Rooted (kind : Member → Prop) (c : Cluster) : Prop where
  hosts : ∀ {id h}, c.host? id = some h → kind h.member
  endpoints : ∀ {i e}, c.fabric.endpoint? i = some e →
    ∃ id h, c.host? id = some h ∧ e.StartedOn h.member

variable {kind : Member → Prop} {c c' : Cluster}

/-! ## Changes without new nodes -/

theorem Step.joined_le (hs : Step c c') : c.joined ≤ c'.joined := by
  cases hs with
  | enrol => exact Nat.le_succ _
  | register | unregister | start | close | stop | drop | publish => exact Nat.le_refl _

theorem Steps.joined_le (hs : Steps c c') : c.joined ≤ c'.joined := by
  induction hs with
  | refl => exact Nat.le_refl _
  | tail _ hlast ih => exact Nat.le_trans ih hlast.joined_le

namespace Rooted

theorem empty (memberIds : Nat → MemberId) (publisher : Fanout) :
    Rooted kind { memberIds, publisher } where
  hosts h := by cases h
  endpoints h := by cases h

/-- A host changes, but not its member, and what is new among the endpoints has started there. -/
theorem recast (r : Rooted kind c) {id : MemberId} {h h' : Host} {f : Fabric}
    (hh : c.host? id = some h) (hmember : h'.member = h.member)
    (hf : ∀ {i e'}, f.endpoint? i = some e' → e'.StartedOn h.member ∨
      ∃ e, c.fabric.endpoint? i = some e ∧ ∀ m, e.StartedOn m → e'.StartedOn m) :
    Rooted kind (c.setHost id h' f) where
  hosts {j k} hk := by
    rw [host?_setHost] at hk
    split at hk
    · cases hk
      rw [hmember]
      exact r.hosts hh
    · exact r.hosts hk
  endpoints {i e'} he' := by
    have hself : (c.setHost id h' f).host? id = some h' := by
      rw [host?_setHost, if_pos rfl]
    rcases hf he' with hnew | ⟨e, he, hkept⟩
    · exact ⟨id, h', hself, hmember ▸ hnew⟩
    · obtain ⟨j, k, hk, hstarted⟩ := r.endpoints he
      by_cases hj : j = id
      · subst hj
        rw [hh] at hk
        cases hk
        exact ⟨j, h', hself, hmember ▸ hkept _ hstarted⟩
      · refine ⟨j, k, ?_, hkept _ hstarted⟩
        rw [host?_setHost, if_neg hj, hk]

theorem starting (r : Rooted kind c) {id : MemberId} {h : Host} (hh : c.host? id = some h)
    (config : CacheConfig) : Rooted kind (c.starting id h config) := by
  refine r.recast hh rfl fun {i e'} he' => ?_
  rw [Fabric.endpoint?_start] at he'
  split at he'
  · cases he'
    exact Or.inl ⟨rfl, rfl⟩
  · exact Or.inr ⟨e', he', fun _ hm => hm⟩

theorem closing (r : Rooted kind c) {id : MemberId} {h : Host} (hh : c.host? id = some h)
    (name : String) (i : EndpointId) : Rooted kind (c.closing id h name i) := by
  refine r.recast hh rfl fun {j e'} he' => Or.inr ?_
  rw [Fabric.endpoint?_close] at he'
  split at he'
  · next hj =>
    obtain ⟨e, he, rfl⟩ := Option.map_eq_some_iff.mp he'
    exact ⟨e, hj ▸ he, fun _ hm => hm.shut _⟩
  · exact ⟨e', he', fun _ hm => hm⟩

theorem stopping (r : Rooted kind c) {id : MemberId} {h : Host} (hh : c.host? id = some h) :
    Rooted kind (c.stopping id h) := by
  have hstopped : Rooted kind (c.setHost id { h with caches := ∅, stopped := true }
      (Host.closeAll c.fabric h.caches.values)) := by
    refine r.recast hh rfl fun {j e'} he' => Or.inr ?_
    rw [Host.endpoint?_closeAll] at he'
    split at he'
    · obtain ⟨e, he, rfl⟩ := Option.map_eq_some_iff.mp he'
      exact ⟨e, he, fun _ hm => hm.shut _⟩
    · exact ⟨e', he', fun _ hm => hm⟩
  exact ⟨hstopped.hosts, hstopped.endpoints⟩

theorem step (r : Rooted kind c) (hs : Step c c') (hj : c'.joined = c.joined) :
    Rooted kind c' := by
  cases hs with
  | enrol => exact absurd hj (Nat.succ_ne_self _)
  | register | unregister | drop | publish => exact ⟨r.hosts, r.endpoints⟩
  | start runs new => exact r.starting (running_eq_some_iff.mp runs).1 _
  | close known started => exact r.closing known _ _
  | stop runs => exact r.stopping (running_eq_some_iff.mp runs).1

theorem steps (r : Rooted kind c) (hs : Steps c c') (hj : c'.joined = c.joined) :
    Rooted kind c' := by
  induction hs with
  | refl => exact r
  | tail hfirst hlast ih =>
      have hle := Steps.joined_le hfirst
      have hle' := hlast.joined_le
      exact (ih (by omega)).step hlast (by omega)

theorem deeds (r : Rooted kind c) (l : Linked c) (hd : Deeds c c') (hj : c'.joined = c.joined) :
    Rooted kind c' :=
  r.steps (hd.steps l) hj

/-- Reads and writes leave endpoints what they were when they started. -/
theorem withFabric (r : Rooted kind c) {f : Fabric} (hs : c.fabric.Serves f) :
    Rooted kind { c with fabric := f } where
  hosts := r.hosts
  endpoints {i e'} he' := by
    obtain ⟨e, he, hframe⟩ := hs.endpoint he'
    obtain ⟨id, h, hh, hstarted⟩ := r.endpoints he
    exact ⟨id, h, hh, hstarted.of_frame_eq hframe⟩

/-! ## New nodes -/

theorem enrol (r : Rooted kind c) (l : Linked c) {n : NodeConfig} {id : MemberId}
    (he : c.enrol n = .ok (id, c'))
    (hkind : kind (Member.enrolled id n.name n.role n.attributes)) : Rooted kind c' := by
  obtain ⟨rfl, -, rfl⟩ := enrol_eq_ok he
  have hhost : ∀ j, ((c.enrolling n).publish (.nodeJoined n.name n.role.isClient)).host? j =
      if j = c.memberIds c.joined then
        some { member := Member.enrolled (c.memberIds c.joined) n.name n.role n.attributes }
      else c.host? j := fun j => Table.get?_insert c.hosts _ j _
  refine ⟨fun {j k} hk => ?_, fun {i e} hi => ?_⟩
  · rw [hhost] at hk
    split at hk
    · cases hk
      exact hkind
    · exact r.hosts hk
  · obtain ⟨j, k, hk, hstarted⟩ := r.endpoints hi
    refine ⟨j, k, ?_, hstarted⟩
    rw [hhost, if_neg, hk]
    -- the number of the new node was nobody's
    rintro rfl
    rw [l.host?_next] at hk
    cases hk

theorem startNode (r : Rooted kind c) (l : Linked c) {n : NodeConfig}
    (hkind : ∀ id, kind (Member.enrolled id n.name n.role n.attributes)) :
    Rooted kind (c.startNode n).2 := by
  unfold Cluster.startNode
  cases he : c.enrol n with
  | error err => exact r
  | ok enrolled =>
      obtain ⟨id, c₁⟩ := enrolled
      have r₁ := r.enrol l he (hkind id)
      have l₁ := l.deeds (.single (.enrol he))
      have hstatic := Linked.deeds_startStatic id n.staticCaches l₁
      have hstaff := staff_startStatic id n.staticCaches c₁
      dsimp only
      cases hs : c₁.startStatic id n.staticCaches with
      | mk answer c₂ =>
          rw [hs] at hstatic hstaff
          have r₂ := r₁.deeds l₁ hstatic (congrArg Prod.snd hstaff)
          have l₂ := l₁.deeds hstatic
          cases answer with
          | error => exact r₂
          | ok u =>
              have hjoined := deeds_startJoined id c₂.registry.values
                fun config hc => l₂.registered_of_mem hc
              have hstaff' := staff_startJoined id c₂.registry.values c₂
              have r₃ := r₂.deeds l₂ hjoined (congrArg Prod.snd hstaff')
              dsimp only
              cases hj : c₂.startJoined id c₂.registry.values with
              | mk answer c₃ =>
                  rw [hj] at r₃
                  cases answer <;> exact r₃

theorem startNodes (ns : List NodeConfig)
    (hkind : ∀ n ∈ ns, ∀ id, kind (Member.enrolled id n.name n.role n.attributes)) :
    ∀ {c : Cluster}, Rooted kind c → Linked c → Rooted kind (c.startNodes ns).2 := by
  induction ns with
  | nil => intro c r _; exact r
  | cons n rest ih =>
      intro c r l
      have hstart := r.startNode l (hkind n List.mem_cons_self)
      have hlinked := l.deeds (l.deeds_startNode n)
      unfold Cluster.startNodes
      cases hs : c.startNode n with
      | mk answer c₁ =>
          rw [hs] at hstart hlinked
          cases answer with
          | error => exact hstart
          | ok id => exact ih (fun n hn => hkind n (List.mem_cons_of_mem _ hn)) hstart hlinked

theorem apply (r : Rooted kind c) (l : Linked c) {d : Deployment}
    (hkind : ∀ n ∈ d.nodes, ∀ id, kind (Member.enrolled id n.name n.role n.attributes)) :
    Rooted kind (c.apply d).2 := by
  unfold Cluster.apply
  cases d.check with
  | error => exact r
  | ok u =>
      have hstart := startNodes d.nodes hkind r l
      have hlinked := l.deeds (Linked.deeds_startNodes d.nodes l)
      dsimp only
      cases hs : c.startNodes d.nodes with
      | mk answer c₁ =>
          rw [hs] at hstart hlinked
          cases answer with
          | error => exact hstart
          | ok ids =>
              exact hstart.deeds hlinked (deeds_createLate d.lateCaches c₁)
                (congrArg Prod.snd (staff_createLate d.lateCaches c₁))

end Rooted

end Cluster

end NearCache
