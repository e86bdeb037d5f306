import NearCache.Proofs.Cluster.Agreement
import NearCache.Proofs.Session.Sound

/-!
# Every node has every cache

`uniform_after`: whatever users have done, all running nodes have started the same caches, those of
the registry, and under the registered configurations. It does not matter how a cache came to a
node: with the node, by propagation, or when the node joined. Nor do subscriptions leak or get lost;
a cache has as many as members of the roster are to have a near cache of it.
-/

namespace NearCache

/-- What a cluster looks like between operations. -/
structure Cluster.Uniform (c : Cluster) : Prop where
  /-- The members are the nodes that run. -/
  members : (c.running.values.map Host.member).Perm c.roster
  numbers : ∀ {id h}, c.running.get? id = some h → h.member.id = id
  names : (c.roster.map Member.name).Nodup
  /-- Every running node has started the registered caches and no others. -/
  started : ∀ {id h}, c.running.get? id = some h → h.cacheNames = c.registry.keys
  /-- What has started is open, has the registered configuration, and has a near cache if this
  configuration and this node say so. -/
  endpoints : ∀ {id h name i}, c.running.get? id = some h → h.caches.get? name = some i →
    ∃ e, c.fabric.endpoint? i = some e ∧ e.closed = none ∧ e.node = h.member.name ∧
      c.registry.get? name = some e.config ∧ e.name = name ∧
      e.placement = Placement.decide e.config h.member ∧ e.hasNear = e.placement.isPresent
  /-- A cache has one subscription for each member that is to have a near cache of it. -/
  subscribers : ∀ name, c.fabric.store.subscriberCount name =
    match c.registry.get? name with
    | some config => (Placement.resolve config c.roster).length
    | none => 0

namespace Cluster

variable {c : Cluster}

theorem Linked.members (l : Linked c) : (c.running.values.map Host.member).Perm c.roster := by
  have hnodup : (c.running.values.map Host.member).Nodup := by
    unfold Table.values
    rw [List.map_map]
    refine List.Nodup.map_on ?_ (Table.nodup_entries _)
    rintro ⟨id, h⟩ hmem ⟨id', h'⟩ hmem' heq
    rw [Table.mem_entries_iff] at hmem hmem'
    have hmember : h.member = h'.member := heq
    obtain ⟨rfl, rfl⟩ := l.eq_of_name_eq hmem hmem' (by rw [hmember])
    rfl
  refine (List.perm_ext_iff_of_nodup hnodup l.names.of_map).mpr fun m => ?_
  simp only [List.mem_map, Table.mem_values_iff]
  constructor
  · rintro ⟨h, ⟨id, hr⟩, rfl⟩
    exact l.member_mem hr
  · intro hm
    obtain ⟨h, hr, rfl⟩ := l.present.mp hm
    exact ⟨h, ⟨_, hr⟩, rfl⟩

/-- Nobody listens to a cache that no node has started. -/
theorem Linked.listeners_eq_nil (l : Linked c) {name : String}
    (hn : ∀ {id h}, c.running.get? id = some h → h.caches.get? name = none) :
    c.fabric.store.listeners name = [] := by
  refine List.eq_nil_iff_forall_not_mem.mpr fun i hi => ?_
  obtain ⟨e, he, ⟨ho, -⟩, rfl⟩ := l.wired.mem_listeners_iff.mp hi
  obtain ⟨id, h, hh, hcache⟩ := l.hosting he ho
  rw [hn (l.runs hh hcache)] at hcache
  cases hcache

/-- Nobody listens to a cache that is not registered. -/
theorem Agrees.listeners_eq_nil (a : Agrees c none none) (l : Linked c) {name : String}
    (hc : c.registry.get? name = none) : c.fabric.store.listeners name = [] := by
  refine l.listeners_eq_nil fun {id h} hr => ?_
  cases hi : h.caches.get? name with
  | none => rfl
  | some i =>
      obtain ⟨e, -, hreg⟩ := a.current hr hi
      rw [hc] at hreg
      cases hreg

/-- The listeners of a registered cache belong to the members that are to have a near cache, one to
each. -/
theorem Agrees.listeners_perm (a : Agrees c none none) (l : Linked c) {name : String}
    {config : CacheConfig} (hc : c.registry.get? name = some config) :
    ((c.fabric.store.listeners name).map fun i => (c.fabric.endpoint? i).map Endpoint.node).Perm
      ((c.roster.filter fun m => (Placement.decide config m).isPresent).map
        fun m => some m.name) := by
  have hnodup : ((c.fabric.store.listeners name).map
      fun i => (c.fabric.endpoint? i).map Endpoint.node).Nodup := by
    refine List.Nodup.map_on ?_ (l.wired.nodup_listeners name)
    intro i hi i' hi' hnode
    obtain ⟨e, he, ⟨ho, -⟩, hname⟩ := l.wired.mem_listeners_iff.mp hi
    obtain ⟨e', he', ⟨ho', -⟩, hname'⟩ := l.wired.mem_listeners_iff.mp hi'
    obtain ⟨id, h, hh, hcache⟩ := l.hosting he ho
    obtain ⟨id', h', hh', hcache'⟩ := l.hosting he' ho'
    -- both endpoints are of one node, which starts a cache only once
    have hsame : h.member.name = h'.member.name := by
      obtain ⟨e₁, he₁, -, -, hn, -⟩ := l.hosted hh hcache
      obtain ⟨e₁', he₁', -, -, hn', -⟩ := l.hosted hh' hcache'
      rw [he₁, he₁'] at hnode
      rw [← hn, ← hn']
      exact Option.some.inj hnode
    obtain ⟨rfl, rfl⟩ := l.eq_of_name_eq (l.runs hh hcache) (l.runs hh' hcache') hsame
    rw [hname] at hcache
    rw [hname', hcache] at hcache'
    exact Option.some.inj hcache'
  have hnodup' : ((c.roster.filter fun m => (Placement.decide config m).isPresent).map
      fun m => some m.name).Nodup := by
    have hnames := (l.names.map fun _ _ => Option.some.inj).sublist
      ((List.filter_sublist (p := fun m : Member => (Placement.decide config m).isPresent)).map
        Member.name |>.map some)
    rwa [List.map_map] at hnames
  refine (List.perm_ext_iff_of_nodup hnodup hnodup').mpr fun n => ?_
  simp only [List.mem_map, List.mem_filter]
  constructor
  · rintro ⟨i, hi, rfl⟩
    obtain ⟨e, he, ⟨ho, hf⟩, rfl⟩ := l.wired.mem_listeners_iff.mp hi
    obtain ⟨id, h, hh, hcache⟩ := l.hosting he ho
    have hr := l.runs hh hcache
    obtain ⟨e₁, he₁, -, -, hnode, hplacement⟩ := l.hosted hh hcache
    obtain ⟨e₂, he₂, hreg⟩ := a.current hr hcache
    rw [he] at he₁ he₂
    cases he₁
    cases he₂
    rw [hc] at hreg
    cases hreg
    refine ⟨h.member, ⟨l.member_mem hr, ?_⟩, by rw [he, ← hnode]; rfl⟩
    rw [← hplacement, ← l.wired.placed he, hf]
  · rintro ⟨m, ⟨hm, hpresent⟩, rfl⟩
    obtain ⟨h₀, hr₀, -⟩ := l.present.mp hm
    obtain ⟨h, i, hr, hcache⟩ := a.hosts hr₀ hc
    obtain ⟨e, he, ho, hname, hnode, hplacement⟩ :=
      l.hosted (running_eq_some_iff.mp hr).1 hcache
    obtain ⟨e', he', hreg⟩ := a.current hr hcache
    rw [he] at he'
    cases he'
    rw [hc] at hreg
    cases hreg
    have hmember : h.member = m := by
      obtain ⟨h₁, hr₁, hm₁⟩ := l.present.mp hm
      rw [hr] at hr₁
      cases hr₁
      exact hm₁
    refine ⟨i, l.wired.mem_listeners_iff.mpr ⟨e, he, ⟨ho, ?_⟩, hname⟩, ?_⟩
    · rw [l.wired.placed he, hplacement, hmember, hpresent]
    · rw [he, ← hmember, ← hnode]
      rfl

/-- A cluster that holds together and agrees with its registry is uniform. -/
theorem Agrees.uniform (a : Agrees c none none) (l : Linked c) : Uniform c where
  members := l.members
  numbers hr := l.own (running_eq_some_iff.mp hr).1
  names := l.names
  started {id h} hr := by
    refine Table.keys_eq_of_contains fun name => Bool.eq_iff_iff.mpr ?_
    rw [Table.contains_iff, Table.contains_iff]
    constructor
    · rintro ⟨i, hi⟩
      obtain ⟨e, -, hc⟩ := a.current hr hi
      exact ⟨_, hc⟩
    · rintro ⟨config, hc⟩
      obtain ⟨h', i, hr', hi⟩ := a.hosts hr hc
      rw [hr] at hr'
      cases hr'
      exact ⟨i, hi⟩
  endpoints {id h name i} hr hi := by
    obtain ⟨e, he, ho, hname, hnode, hplacement⟩ := l.hosted (running_eq_some_iff.mp hr).1 hi
    obtain ⟨e', he', hc⟩ := a.current hr hi
    rw [he] at he'
    cases he'
    exact ⟨e, he, ho, hnode, hc, hname, hplacement, l.wired.placed he⟩
  subscribers name := by
    unfold Store.subscriberCount
    cases hc : c.registry.get? name with
    | none =>
        rw [a.listeners_eq_nil l hc]
        rfl
    | some config =>
        have hlength := (a.listeners_perm l hc).length_eq
        rw [List.length_map, List.length_map] at hlength
        rw [hlength]
        exact (List.length_map _).symm

end Cluster

namespace Session

variable {s : Session}

/-- Every command leaves a cluster that agrees with its registry. -/
theorem agrees_step (h : Sound s) (a : s.cluster.Agrees none none) (command : Command) :
    (s.step command).2.cluster.Agrees none none := by
  have l := h.linked
  cases haccess : command.isAccess with
  | true =>
      obtain ⟨f, hserves, heq⟩ := serves_step s haccess
      rw [heq]
      exact a.withFabric hserves
  | false =>
      cases command with
      | start n => exact (a.startNode l n).1
      | apply d => exact a.apply l d
      | create id config => exact a.createCache l id config
      | createFrom id config => exact a.createFrom l id config
      | getOrCreate id config => exact a.getOrCreate l id config
      | cache => exact a
      | destroy name => exact a.destroyCache l name
      | destroyFrom id name => exact a.destroyFrom l id name
      | stop id => exact a.stopNode l id
      | stopAll => exact Cluster.Agrees.stopAll l
      | get | getAll | peek | put | putAll | remove | setAvailable | beginGet | endGet =>
          cases haccess

theorem agrees_after (cs : List Command) :
    ∀ {s : Session}, Sound s → s.cluster.Agrees none none →
      (s.after cs).cluster.Agrees none none := by
  induction cs with
  | nil => intro s _ a; exact a
  | cons c cs ih => intro s h a; exact ih (h.step c).sound (agrees_step h a c)

/-- **Whatever users have done, every running node has exactly the registered caches**, under the
registered configurations, and every cache has the subscriptions of its near caches. -/
theorem uniform_after {memberIds : Nat → MemberId} (distinct : Function.Injective memberIds)
    (publisher : Fanout) (cs : List Command) :
    ((fresh memberIds publisher).after cs).cluster.Uniform := by
  have hsound := Sound.fresh distinct publisher
  have hagrees := agrees_after cs hsound (Cluster.Agrees.empty memberIds publisher)
  exact hagrees.uniform (hsound.after cs).sound.linked

/-- Two nodes and two caches, one of which is destroyed before the first node stops. -/
theorem uniform_after_stop :
    let c := ((fresh id {}).after [.start { name := "a", caches := [{ name := "x" }] },
      .start { name := "b" }, .create 0 { name := "y" }, .destroy "x", .stop 0]).cluster
    c.roster.map Member.name = ["b"] ∧ c.fabric.store.subscriberCount "y" = 1 ∧ c.Uniform :=
  ⟨by decide, by decide, uniform_after Function.injective_id {} _⟩

end Session

end NearCache
