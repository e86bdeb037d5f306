import Mathlib.Logic.Relation
import NearCache.Cluster
import NearCache.Proofs.Coherence.Fabric

/-!
# What holds a cluster together

Every operation of a cluster is made of a few kinds of changes: a node enrols, a cache is registered
or unregistered, starts on a node or is taken from it, a node stops, and the data of a cache is
dropped. `Cluster.Step` lists them, with what the cluster has made sure of before each.

`Cluster.Linked` is what every one of them keeps, whatever comes before and after it: roster and
running hosts are the same nodes, and each host has exactly the endpoints that are open in its name.
Nothing is said here about the registry; a host may be behind it or ahead of it
(`NearCache.Proofs.Cluster.Agreement`).
-/

namespace NearCache

namespace Host

/-! ## Closing the endpoints of a host -/

theorem endpoint?_closeAll (ids : List EndpointId) (j : EndpointId) :
    ∀ f : Fabric, (closeAll f ids).endpoint? j =
      if j ∈ ids then (f.endpoint? j).map (Endpoint.shut .nodeStopped) else f.endpoint? j := by
  induction ids with
  | nil => intro f; rfl
  | cons i ids ih =>
      intro f
      show (closeAll (f.close i .nodeStopped).2 ids).endpoint? j = _
      rw [ih, Fabric.endpoint?_close]
      by_cases hj : j = i
      · subst hj
        cases f.endpoint? j <;> simp
      · simp [hj]

theorem wired_closeAll (ids : List EndpointId) :
    ∀ {f : Fabric}, f.Wired → (closeAll f ids).Wired := by
  induction ids with
  | nil => intro f hw; exact hw
  | cons i ids ih => intro f hw; exact ih (hw.close i .nodeStopped)

theorem precedes_closeAll (ids : List EndpointId) :
    ∀ f : Fabric, f.Precedes (closeAll f ids) := by
  induction ids with
  | nil => intro f; exact .refl f
  | cons i ids ih => intro f; exact (f.precedes_close i .nodeStopped).trans (ih _)

theorem coherent_closeAll {held : Table Nat HeldRead} (ids : List EndpointId) :
    ∀ {f : Fabric}, f.Coherent held → (closeAll f ids).Coherent held := by
  induction ids with
  | nil => intro f h; exact h
  | cons i ids ih => intro f h; exact ih (h.close i .nodeStopped)

end Host

namespace Cluster

theorem running_eq_some_iff {c : Cluster} {id : MemberId} {h : Host} :
    c.running.get? id = some h ↔ c.host? id = some h ∧ h.stopped = false := by
  unfold running host?
  rw [Table.get?_filter, Option.filter_eq_some_iff]
  simp

theorem ensureRunning_eq {c : Cluster} {id : MemberId} {h : Host} (hh : c.host? id = some h) :
    c.ensureRunning id = if h.stopped then .error (.nodeStopped h.member.name) else .ok h := by
  rw [ensureRunning, hh]

theorem host?_setHost (c : Cluster) (id j : MemberId) (h : Host) (f : Fabric) :
    (c.setHost id h f).host? j = if j = id then some h else c.host? j :=
  Table.get?_insert c.hosts id j h

/-! ## The kinds of changes -/

/-- A cache starts on a host. -/
def starting (c : Cluster) (id : MemberId) (h : Host) (config : CacheConfig) : Cluster :=
  c.setHost id { h with caches := h.caches.insert config.name c.fabric.started }
    (c.fabric.start h.member.name config (Placement.decide config h.member)).2

/-- A cache is taken from a host. -/
def closing (c : Cluster) (id : MemberId) (h : Host) (name : String) (i : EndpointId) : Cluster :=
  c.setHost id { h with caches := h.caches.erase name } (c.fabric.close i .cacheDestroyed).2

/-- A host stops and leaves the roster. -/
def stopping (c : Cluster) (id : MemberId) (h : Host) : Cluster :=
  { c.setHost id { h with caches := ∅, stopped := true }
      (Host.closeAll c.fabric h.caches.values) with
    roster := (c.roster.leave id).2 }

/-- One change of a cluster. -/
inductive Step : Cluster → Cluster → Prop where
  | enrol (c : Cluster) {m : Member} (number : m.id = c.memberIds c.joined)
      (free : ∀ m' ∈ c.roster, m'.name ≠ m.name) :
      Step c { c with
        roster := c.roster ++ [m]
        hosts := c.hosts.insert m.id { member := m }
        joined := c.joined + 1 }
  | register (c : Cluster) {config : CacheConfig} (free : c.registry.get? config.name = none) :
      Step c { c with registry := c.registry.insert config.name config }
  /-- Caches are taken from the registry. -/
  | unregister (c : Cluster) {registry : Table String CacheConfig}
      (fewer : ∀ {name config}, registry.get? name = some config →
        c.registry.get? name = some config) :
      Step c { c with registry }
  | start (c : Cluster) {id : MemberId} {h : Host} (runs : c.running.get? id = some h)
      {config : CacheConfig} (new : h.caches.get? config.name = none) :
      Step c (c.starting id h config)
  | close (c : Cluster) {id : MemberId} {h : Host} (known : c.host? id = some h) {name : String}
      {i : EndpointId} (started : h.caches.get? name = some i) : Step c (c.closing id h name i)
  | stop (c : Cluster) {id : MemberId} {h : Host} (runs : c.running.get? id = some h) :
      Step c (c.stopping id h)
  /-- The data of a cache is dropped when none of its endpoints is open any more. -/
  | drop (c : Cluster) {name : String}
      (idle : ∀ i e, c.fabric.endpoint? i = some e → e.closed = none → e.name ≠ name) :
      Step c { c with fabric := c.fabric.destroy name }
  | publish (c : Cluster) (p : Fanout) : Step c { c with publisher := p }

/-- Changes one after the other. -/
abbrev Steps : Cluster → Cluster → Prop := Relation.ReflTransGen Step

/-! ## The invariant -/

/-- Roster, hosts and endpoints fit together. -/
structure Linked (c : Cluster) : Prop where
  wired : c.fabric.Wired
  distinct : Function.Injective c.memberIds
  names : (c.roster.map Member.name).Nodup
  present : ∀ {m}, m ∈ c.roster ↔ ∃ h, c.running.get? m.id = some h ∧ h.member = m
  own : ∀ {id h}, c.host? id = some h → h.member.id = id
  numbered : ∀ {id h}, c.host? id = some h → ∃ n < c.joined, id = c.memberIds n
  idle : ∀ {id h}, c.host? id = some h → h.stopped = true → h.caches = ∅
  hosted : ∀ {id h name i}, c.host? id = some h → h.caches.get? name = some i →
    ∃ e, c.fabric.endpoint? i = some e ∧ e.closed = none ∧ e.name = name ∧
      e.node = h.member.name ∧ e.placement = Placement.decide e.config h.member
  hosting : ∀ {i e}, c.fabric.endpoint? i = some e → e.closed = none →
    ∃ id h, c.host? id = some h ∧ h.caches.get? e.name = some i
  keyed : ∀ {name config}, c.registry.get? name = some config → config.name = name

namespace Linked

variable {c : Cluster}

theorem empty {memberIds : Nat → MemberId} (hd : Function.Injective memberIds)
    (publisher : Fanout) : Linked { memberIds, publisher } where
  wired := Fabric.Wired.empty
  distinct := hd
  names := List.nodup_nil
  present := by
    intro m
    constructor
    · intro hm; cases hm
    · rintro ⟨h, hr, -⟩; cases hr
  own h := by cases h
  numbered h := by cases h
  idle h := by cases h
  hosted h := by cases h
  hosting h := by cases h
  keyed h := by cases h

/-- A host with caches runs. -/
theorem runs (l : Linked c) {id : MemberId} {h : Host} (hh : c.host? id = some h) {name : String}
    {i : EndpointId} (hi : h.caches.get? name = some i) : c.running.get? id = some h := by
  refine running_eq_some_iff.mpr ⟨hh, ?_⟩
  cases hs : h.stopped with
  | false => rfl
  | true =>
      rw [l.idle hh hs] at hi
      cases hi

/-- A running host is on the roster. -/
theorem member_mem (l : Linked c) {id : MemberId} {h : Host} (hr : c.running.get? id = some h) :
    h.member ∈ c.roster := by
  refine l.present.mpr ⟨h, ?_, rfl⟩
  rw [l.own (running_eq_some_iff.mp hr).1]
  exact hr

/-- The number of a running host is found in the roster. -/
theorem isNone_byId? (l : Linked c) {id : MemberId} {h : Host}
    (hr : c.running.get? id = some h) : (c.roster.byId? id).isNone = false := by
  rw [Option.isNone_eq_false_iff, Roster.byId?, List.find?_isSome]
  exact ⟨h.member, l.member_mem hr, decide_eq_true (l.own (running_eq_some_iff.mp hr).1)⟩

/-- Running hosts have different names. -/
theorem eq_of_name_eq (l : Linked c) {id id' : MemberId} {h h' : Host}
    (hr : c.running.get? id = some h) (hr' : c.running.get? id' = some h')
    (hn : h.member.name = h'.member.name) : id = id' ∧ h = h' := by
  have hm : h.member = h'.member :=
    List.inj_on_of_nodup_map l.names (l.member_mem hr) (l.member_mem hr') hn
  have hid : id = id' := by
    rw [← l.own (running_eq_some_iff.mp hr).1, ← l.own (running_eq_some_iff.mp hr').1, hm]
  subst hid
  rw [hr] at hr'
  cases hr'
  exact ⟨rfl, rfl⟩

/-- The name of a running host is that of no other. -/
theorem name_eq_iff (l : Linked c) {id j : MemberId} {h k : Host}
    (hr : c.running.get? id = some h) (hk : c.running.get? j = some k) :
    k.member.name = h.member.name ↔ j = id := by
  constructor
  · exact fun hname => (l.eq_of_name_eq hk hr hname).1
  · rintro rfl
    rw [hk] at hr
    cases hr
    rfl

/-- An endpoint belongs to one host and one name. -/
theorem unshared (l : Linked c) {id id' : MemberId} {h h' : Host} {name name' : String}
    {i : EndpointId} (hh : c.host? id = some h) (hi : h.caches.get? name = some i)
    (hh' : c.host? id' = some h') (hi' : h'.caches.get? name' = some i) :
    id = id' ∧ name = name' := by
  obtain ⟨e, he, -, hname, hnode, -⟩ := l.hosted hh hi
  obtain ⟨e', he', -, hname', hnode', -⟩ := l.hosted hh' hi'
  rw [he] at he'
  cases he'
  refine ⟨(l.eq_of_name_eq (l.runs hh hi) (l.runs hh' hi') ?_).1, hname.symm.trans hname'⟩
  rw [← hnode, ← hnode']

/-- A host has an endpoint of its own for each of its caches. -/
theorem nodup_values (l : Linked c) {id : MemberId} {h : Host} (hh : c.host? id = some h) :
    h.caches.values.Nodup := by
  refine List.Nodup.map_on ?_ h.caches.nodup_entries
  rintro ⟨name, i⟩ hi ⟨name', i'⟩ hi' heq
  rw [Table.mem_entries_iff] at hi hi'
  obtain rfl : i = i' := heq
  rw [(l.unshared hh hi hh hi').2]

/-- The number of the next member is new. -/
theorem host?_next (l : Linked c) : c.host? (c.memberIds c.joined) = none := by
  cases hh : c.host? (c.memberIds c.joined) with
  | none => rfl
  | some h =>
      obtain ⟨n, hn, heq⟩ := l.numbered hh
      have := l.distinct heq
      omega

theorem running_next (l : Linked c) : c.running.get? (c.memberIds c.joined) = none := by
  unfold running
  rw [Table.get?_filter, show c.hosts.get? (c.memberIds c.joined) = none from l.host?_next]
  rfl

/-- Members have different numbers. -/
theorem ids (l : Linked c) : (c.roster.map Member.id).Nodup := by
  refine List.Nodup.map_on ?_ l.names.of_map
  intro m hm m' hm' hid
  obtain ⟨h, hr, rfl⟩ := l.present.mp hm
  obtain ⟨h', hr', rfl⟩ := l.present.mp hm'
  rw [hid, hr'] at hr
  cases hr
  rfl

/-! ## Each change keeps it -/

/-- Registry and publisher may be any, as long as each configuration stands under its name. -/
theorem withRegistry (l : Linked c) {registry : Table String CacheConfig}
    (hk : ∀ {name config}, registry.get? name = some config → config.name = name)
    (publisher : Fanout) : Linked { c with registry, publisher } where
  wired := l.wired
  distinct := l.distinct
  names := l.names
  present := l.present
  own := l.own
  numbered := l.numbered
  idle := l.idle
  hosted := l.hosted
  hosting := l.hosting
  keyed := hk

/-- A fabric with the same endpoints, up to what they have counted and what their near caches
hold. -/
theorem withFabric (l : Linked c) {f : Fabric} (hs : c.fabric.Serves f) :
    Linked { c with fabric := f } where
  wired := l.wired.serves hs
  distinct := l.distinct
  names := l.names
  present := l.present
  own := l.own
  numbered := l.numbered
  idle := l.idle
  hosted {id h name i} hh hi := by
    obtain ⟨e, he, ho, hname, hnode, hplacement⟩ := l.hosted hh hi
    obtain ⟨e', he', hframe⟩ := hs.keeps he
    obtain ⟨hnode', hconfig', hplacement', -, -, hclosed'⟩ := Endpoint.eq_of_frame_eq hframe
    refine ⟨e', he', hclosed'.trans ho, ?_, hnode'.trans hnode, ?_⟩
    · exact (Endpoint.name_of_config hconfig').trans hname
    · rw [hplacement', hconfig', hplacement]
  hosting {i e'} he' ho := by
    obtain ⟨e, he, hframe⟩ := hs.endpoint he'
    obtain ⟨-, hconfig, -, -, -, hclosed⟩ := Endpoint.eq_of_frame_eq hframe
    obtain ⟨id, h, hh, hi⟩ := l.hosting he (hclosed ▸ ho)
    exact ⟨id, h, hh, by rw [Endpoint.name, hconfig]; exact hi⟩
  keyed := l.keyed

/-- A host changes its caches and nothing else. -/
theorem recast (l : Linked c) {id : MemberId} {h h' : Host} {f : Fabric}
    (hh : c.host? id = some h) (hm : h'.member = h.member) (hst : h'.stopped = h.stopped)
    (hw : f.Wired) (hidle : h.stopped = true → h'.caches = ∅)
    (hosted : ∀ {j k name i}, (c.setHost id h' f).host? j = some k → k.caches.get? name = some i →
      ∃ e, f.endpoint? i = some e ∧ e.closed = none ∧ e.name = name ∧
        e.node = k.member.name ∧ e.placement = Placement.decide e.config k.member)
    (hosting : ∀ {i e}, f.endpoint? i = some e → e.closed = none →
      ∃ j k, (c.setHost id h' f).host? j = some k ∧ k.caches.get? e.name = some i) :
    Linked (c.setHost id h' f) := by
  -- the same members run as before
  have hruns : ∀ j k, (c.setHost id h' f).running.get? j = some k →
      ∃ k₀, c.running.get? j = some k₀ ∧ k.member = k₀.member := by
    intro j k hr
    obtain ⟨hk, hks⟩ := running_eq_some_iff.mp hr
    rw [host?_setHost] at hk
    split at hk
    · next hj =>
      cases hk
      exact ⟨h, running_eq_some_iff.mpr ⟨hj ▸ hh, hst ▸ hks⟩, hm⟩
    · exact ⟨k, running_eq_some_iff.mpr ⟨hk, hks⟩, rfl⟩
  have hruns' : ∀ j k₀, c.running.get? j = some k₀ →
      ∃ k, (c.setHost id h' f).running.get? j = some k ∧ k.member = k₀.member := by
    intro j k₀ hr
    obtain ⟨hk, hks⟩ := running_eq_some_iff.mp hr
    by_cases hj : j = id
    · subst hj
      rw [hh] at hk
      cases hk
      refine ⟨h', running_eq_some_iff.mpr ⟨?_, hst.trans hks⟩, hm⟩
      rw [host?_setHost, if_pos rfl]
    · refine ⟨k₀, running_eq_some_iff.mpr ⟨?_, hks⟩, rfl⟩
      rw [host?_setHost, if_neg hj, hk]
  refine ⟨hw, l.distinct, l.names, ?_, ?_, ?_, ?_, hosted, hosting, l.keyed⟩
  · intro m
    refine l.present.trans ⟨?_, ?_⟩
    · rintro ⟨k₀, hr, rfl⟩
      obtain ⟨k, hr', hk⟩ := hruns' _ k₀ hr
      exact ⟨k, hr', hk⟩
    · rintro ⟨k, hr, rfl⟩
      obtain ⟨k₀, hr', hk⟩ := hruns _ k hr
      exact ⟨k₀, hr', hk.symm⟩
  · intro j k hk
    rw [host?_setHost] at hk
    split at hk
    · next hj =>
      cases hk
      rw [hm, hj]
      exact l.own hh
    · exact l.own hk
  · intro j k hk
    rw [host?_setHost] at hk
    split at hk
    · next hj =>
      rw [hj]
      exact l.numbered hh
    · exact l.numbered hk
  · intro j k hk hks
    rw [host?_setHost] at hk
    split at hk
    · cases hk
      exact hidle (hst ▸ hks)
    · exact l.idle hk hks

theorem starting (l : Linked c) {id : MemberId} {h : Host} (hr : c.running.get? id = some h)
    {config : CacheConfig} (new : h.caches.get? config.name = none) :
    Linked (c.starting id h config) := by
  obtain ⟨hh, hs⟩ := running_eq_some_iff.mp hr
  -- the new endpoint has a new number, so the endpoints of before are untouched
  have hold : ∀ {i e}, c.fabric.endpoint? i = some e →
      (c.fabric.start h.member.name config (Placement.decide config h.member)).2.endpoint? i =
        some e := by
    intro i e he
    rw [Fabric.endpoint?_start, if_neg (Nat.ne_of_lt (l.wired.started he)), he]
  refine l.recast hh rfl rfl (l.wired.start _ _ _) (fun ht => by rw [hs] at ht; cases ht) ?_ ?_
  · intro j k name i hk hi
    rw [host?_setHost] at hk
    split at hk
    · cases hk
      rw [Table.get?_insert] at hi
      split at hi
      · next hname =>
        cases hi
        refine ⟨.opened h.member.name config (Placement.decide config h.member)
          (c.fabric.store.lastSubscription + 1), ?_, rfl, hname.symm, rfl, rfl⟩
        rw [Fabric.endpoint?_start, if_pos rfl]
      · obtain ⟨e, he, hrest⟩ := l.hosted hh hi
        exact ⟨e, hold he, hrest⟩
    · obtain ⟨e, he, hrest⟩ := l.hosted hk hi
      exact ⟨e, hold he, hrest⟩
  · intro i e he ho
    rw [Fabric.endpoint?_start] at he
    split at he
    · next hi =>
      cases he
      refine ⟨id, _, by rw [host?_setHost, if_pos rfl], ?_⟩
      rw [hi]
      exact Table.get?_insert_self _ _ _
    · obtain ⟨j, k, hk, hi⟩ := l.hosting he ho
      by_cases hj : j = id
      · -- no cache of the new name had started here
        subst hj
        rw [hh] at hk
        cases hk
        refine ⟨j, _, by rw [host?_setHost, if_pos rfl], ?_⟩
        rw [Table.get?_insert, if_neg]
        · exact hi
        · intro hname
          rw [hname, new] at hi
          cases hi
      · exact ⟨j, k, by rw [host?_setHost, if_neg hj, hk], hi⟩

theorem closing (l : Linked c) {id : MemberId} {h : Host} (hh : c.host? id = some h)
    {name : String} {i : EndpointId} (hi : h.caches.get? name = some i) :
    Linked (c.closing id h name i) := by
  have hrun := (running_eq_some_iff.mp (l.runs hh hi)).2
  refine l.recast hh rfl rfl (l.wired.close _ _) (fun ht => by rw [hrun] at ht; cases ht) ?_ ?_
  · intro j k name' i' hk hi'
    -- the endpoint that closes is in no other place
    have hold : ∀ k₀, c.host? j = some k₀ → k₀.caches.get? name' = some i' →
        (j = id → name' ≠ name) → ∃ e, (c.fabric.close i .cacheDestroyed).2.endpoint? i' = some e ∧
          e.closed = none ∧ e.name = name' ∧ e.node = k₀.member.name ∧
          e.placement = Placement.decide e.config k₀.member := by
      intro k₀ hk₀ hi₀ hne
      obtain ⟨e, he, hrest⟩ := l.hosted hk₀ hi₀
      refine ⟨e, ?_, hrest⟩
      rw [Fabric.endpoint?_close, if_neg, he]
      intro heq
      rw [heq] at hi₀
      obtain ⟨hj, hn⟩ := l.unshared hk₀ hi₀ hh hi
      exact hne hj hn
    rw [host?_setHost] at hk
    split at hk
    · next hj =>
      cases hk
      rw [Table.get?_erase] at hi'
      split at hi'
      · cases hi'
      · next hne => exact hold h (hj ▸ hh) hi' fun _ => hne
    · next hj => exact hold _ hk hi' fun h => absurd h hj
  · intro i' e he ho
    rw [Fabric.endpoint?_close] at he
    split at he
    · obtain ⟨e₀, -, rfl⟩ := Option.map_eq_some_iff.mp he
      exact absurd ho (e₀.closed_shut _)
    · next hne =>
      obtain ⟨j, k, hk, hi'⟩ := l.hosting he ho
      by_cases hj : j = id
      · -- only the endpoint that closes bore the name
        subst hj
        rw [hh] at hk
        cases hk
        refine ⟨j, _, by rw [host?_setHost, if_pos rfl], ?_⟩
        rw [Table.get?_erase, if_neg]
        · exact hi'
        · intro hname
          rw [hname, hi] at hi'
          cases hi'
          exact hne rfl
      · exact ⟨j, k, by rw [host?_setHost, if_neg hj, hk], hi'⟩

theorem stopping (l : Linked c) {id : MemberId} {h : Host} (hr : c.running.get? id = some h) :
    Linked (c.stopping id h) := by
  obtain ⟨hh, hs⟩ := running_eq_some_iff.mp hr
  have hhost : ∀ j, (c.stopping id h).host? j =
      if j = id then some { h with caches := ∅, stopped := true } else c.host? j :=
    fun j => host?_setHost c id j _ (Host.closeAll c.fabric h.caches.values)
  have hroster : ∀ {m}, m ∈ (c.stopping id h).roster ↔ m ∈ c.roster ∧ m.id ≠ id :=
    Roster.mem_leave_iff l.ids
  refine ⟨Host.wired_closeAll _ l.wired, l.distinct, ?_, ?_, ?_, ?_, ?_, ?_, ?_, l.keyed⟩
  · exact l.names.sublist (List.eraseP_sublist.map _)
  · intro m
    rw [hroster, l.present]
    constructor
    · rintro ⟨⟨k, hk, rfl⟩, hne⟩
      obtain ⟨hk, hks⟩ := running_eq_some_iff.mp hk
      exact ⟨k, running_eq_some_iff.mpr ⟨by rw [hhost, if_neg hne, hk], hks⟩, rfl⟩
    · rintro ⟨k, hk, rfl⟩
      obtain ⟨hk, hks⟩ := running_eq_some_iff.mp hk
      rw [hhost] at hk
      split at hk
      · cases hk
        cases hks
      · next hne => exact ⟨⟨k, running_eq_some_iff.mpr ⟨hk, hks⟩, rfl⟩, hne⟩
  · intro j k hk
    rw [hhost] at hk
    split at hk
    · next hj =>
      cases hk
      rw [hj]
      exact l.own (h := h) hh
    · exact l.own hk
  · intro j k hk
    rw [hhost] at hk
    split at hk
    · next hj =>
      rw [hj]
      exact l.numbered hh
    · exact l.numbered hk
  · intro j k hk hks
    rw [hhost] at hk
    split at hk
    · cases hk
      rfl
    · exact l.idle hk hks
  · intro j k name i hk hi
    rw [hhost] at hk
    split at hk
    · cases hk
      cases hi
    · next hne =>
      obtain ⟨e, he, hrest⟩ := l.hosted hk hi
      refine ⟨e, ?_, hrest⟩
      show (Host.closeAll c.fabric h.caches.values).endpoint? i = some e
      rw [Host.endpoint?_closeAll, if_neg, he]
      -- no other host has an endpoint of the one that stops
      intro hmem
      obtain ⟨name', hi'⟩ := Table.mem_values_iff.mp hmem
      exact hne (l.unshared hk hi hh hi').1
  · intro i e he ho
    have he' : (Host.closeAll c.fabric h.caches.values).endpoint? i = some e := he
    rw [Host.endpoint?_closeAll] at he'
    split at he'
    · obtain ⟨e₀, -, rfl⟩ := Option.map_eq_some_iff.mp he'
      exact absurd ho (e₀.closed_shut _)
    · next hmem =>
      obtain ⟨j, k, hk, hi⟩ := l.hosting he' ho
      refine ⟨j, k, ?_, hi⟩
      rw [hhost, if_neg, hk]
      intro hj
      subst hj
      rw [hh] at hk
      cases hk
      exact hmem (Table.mem_values_iff.mpr ⟨e.name, hi⟩)

theorem enrol (l : Linked c) {m : Member} (hid : m.id = c.memberIds c.joined)
    (free : ∀ m' ∈ c.roster, m'.name ≠ m.name) :
    Linked { c with
      roster := c.roster ++ [m]
      hosts := c.hosts.insert m.id { member := m }
      joined := c.joined + 1 } := by
  have hnew : c.host? m.id = none := by
    rw [hid]
    exact l.host?_next
  have hhost : ∀ j, host? { c with
      roster := c.roster ++ [m]
      hosts := c.hosts.insert m.id { member := m }
      joined := c.joined + 1 } j = if j = m.id then some { member := m } else c.host? j :=
    fun j => Table.get?_insert c.hosts m.id j _
  have hjoin : c.roster.join m = .ok (c.roster ++ [m]) := by
    refine if_neg ?_
    simp only [List.any_eq_true, decide_eq_true_eq, not_exists, not_and]
    exact free
  refine ⟨l.wired, l.distinct, Roster.nodup_join hjoin l.names, ?_, ?_, ?_, ?_, ?_, ?_, l.keyed⟩
  · intro m'
    rw [List.mem_append, List.mem_singleton, l.present]
    constructor
    · rintro (⟨k, hk, rfl⟩ | rfl)
      · obtain ⟨hk, hks⟩ := running_eq_some_iff.mp hk
        refine ⟨k, running_eq_some_iff.mpr ⟨?_, hks⟩, rfl⟩
        rw [hhost, if_neg, hk]
        intro heq
        rw [heq, hnew] at hk
        cases hk
      · exact ⟨{ member := m' }, running_eq_some_iff.mpr ⟨by rw [hhost, if_pos rfl], rfl⟩, rfl⟩
    · rintro ⟨k, hk, rfl⟩
      obtain ⟨hk, hks⟩ := running_eq_some_iff.mp hk
      rw [hhost] at hk
      split at hk
      · cases hk
        exact Or.inr rfl
      · exact Or.inl ⟨k, running_eq_some_iff.mpr ⟨hk, hks⟩, rfl⟩
  · intro j k hk
    rw [hhost] at hk
    split at hk
    · next hj =>
      cases hk
      exact hj.symm
    · exact l.own hk
  · intro j k hk
    rw [hhost] at hk
    split at hk
    · next hj => exact ⟨c.joined, Nat.lt_succ_self _, hj.trans hid⟩
    · obtain ⟨n, hn, heq⟩ := l.numbered hk
      exact ⟨n, Nat.lt_succ_of_lt hn, heq⟩
  · intro j k hk hks
    rw [hhost] at hk
    split at hk
    · cases hk
      rfl
    · exact l.idle hk hks
  · intro j k name i hk hi
    rw [hhost] at hk
    split at hk
    · cases hk
      cases hi
    · exact l.hosted hk hi
  · intro i e he ho
    obtain ⟨j, k, hk, hi⟩ := l.hosting he ho
    refine ⟨j, k, ?_, hi⟩
    rw [hhost, if_neg, hk]
    intro hj
    rw [hj, hnew] at hk
    cases hk

/-- No change breaks it. -/
theorem step {c' : Cluster} (l : Linked c) (hs : Step c c') : Linked c' := by
  cases hs with
  | enrol number free => exact l.enrol number free
  | register free =>
      refine l.withRegistry ?_ c.publisher
      intro name config hc
      rw [Table.get?_insert] at hc
      split at hc
      · next hname =>
        cases hc
        exact hname.symm
      · exact l.keyed hc
  | unregister fewer => exact l.withRegistry (fun hc => l.keyed (fewer hc)) c.publisher
  | start runs new => exact l.starting runs new
  | close known started => exact l.closing known started
  | stop runs => exact l.stopping runs
  | drop idle => exact l.withFabric (Fabric.Serves.withStore rfl rfl (.destroy _ _))
  | publish p => exact l.withRegistry l.keyed p

theorem steps {c' : Cluster} (l : Linked c) (hs : Steps c c') : Linked c' := by
  induction hs with
  | refl => exact l
  | tail _ hlast ih => exact ih.step hlast

end Linked

/-! ## What changes do to the fabric -/

/-- No change takes an endpoint away, gives it another configuration or turns the store back. -/
theorem Step.precedes {c c' : Cluster} (hs : Step c c') (l : Linked c) :
    c.fabric.Precedes c'.fabric := by
  cases hs with
  | enrol | register | unregister | publish => exact .refl _
  | start => exact l.wired.precedes_start _ _ _
  | close => exact Fabric.precedes_close _ _ _
  | stop => exact Host.precedes_closeAll _ _
  | drop => exact ⟨fun he => ⟨_, he, rfl⟩, .destroy _ _⟩

theorem Steps.precedes {c c' : Cluster} (hs : Steps c c') (l : Linked c) :
    c.fabric.Precedes c'.fabric := by
  induction hs with
  | refl => exact .refl _
  | tail hfirst hlast ih => exact ih.trans (hlast.precedes (l.steps hfirst))

/-- Near caches stay coherent through every change of the cluster. -/
theorem Step.coherent {c c' : Cluster} {held : Table Nat HeldRead} (hs : Step c c')
    (h : c.fabric.Coherent held) : c'.fabric.Coherent held := by
  cases hs with
  | enrol | register | unregister | publish => exact h
  | start => exact h.start _ _ _
  | close => exact h.close _ _
  | stop => exact Host.coherent_closeAll _ h
  | drop idle => exact h.destroy idle

theorem Steps.coherent {c c' : Cluster} {held : Table Nat HeldRead} (hs : Steps c c')
    (h : c.fabric.Coherent held) : c'.fabric.Coherent held := by
  induction hs with
  | refl => exact h
  | tail _ hlast ih => exact hlast.coherent ih

end Cluster

end NearCache
