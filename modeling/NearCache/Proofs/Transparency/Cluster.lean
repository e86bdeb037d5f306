import NearCache.Proofs.Cluster.Operations
import NearCache.Proofs.Transparency.Fabric

/-!
# Two clusters that differ in their near caches

Two clusters are alike if their fabrics are alike and members, hosts and registered caches are the
same when they are plain. Each operation, asked of both with settings that may differ, is answered
alike and leaves clusters that are alike (`AlikeWith`): what an operation decides on, names, numbers
and what has started where, can be seen in plain things, and the endpoints that it opens come in the
same order in both clusters.

The events told may differ, as they say which near caches became active; so the publishers are left
out.
-/

namespace NearCache

namespace Cluster

/-- The clusters differ only in their near caches and in what they have told. -/
structure Alike (c d : Cluster) : Prop where
  fabric : c.fabric.Alike d.fabric
  roster : c.roster.map Member.plain = d.roster.map Member.plain
  hosts : ∀ id, (c.host? id).map Host.plain = (d.host? id).map Host.plain
  registry : ∀ name, (c.registry.get? name).map CacheConfig.plain =
    (d.registry.get? name).map CacheConfig.plain
  memberIds : c.memberIds = d.memberIds
  joined : c.joined = d.joined

/-- The same answer from clusters that are alike. -/
def AlikeWith {α : Type} (r r' : α × Cluster) : Prop := r.1 = r'.1 ∧ Alike r.2 r'.2

/-- The answer and the clusters that it comes with. -/
theorem AlikeWith.cases {α : Type} {r r' : α × Cluster} (h : AlikeWith r r') :
    ∃ a c d, r = (a, c) ∧ r' = (a, d) ∧ Alike c d := by
  obtain ⟨a, c⟩ := r
  obtain ⟨b, d⟩ := r'
  obtain ⟨hanswer, halike⟩ := h
  cases hanswer
  exact ⟨a, c, d, rfl, rfl, halike⟩

namespace Alike

variable {c d : Cluster}

theorem empty (memberIds : Nat → MemberId) (p q : Fanout) :
    Alike { memberIds, publisher := p } { memberIds, publisher := q } where
  fabric := ⟨⟨rfl, rfl, rfl⟩, rfl, fun _ => rfl⟩
  roster := rfl
  hosts _ := rfl
  registry _ := rfl
  memberIds := rfl
  joined := rfl

theorem withPublisher (h : Alike c d) (p q : Fanout) :
    Alike { c with publisher := p } { d with publisher := q } where
  fabric := h.fabric
  roster := h.roster
  hosts := h.hosts
  registry := h.registry
  memberIds := h.memberIds
  joined := h.joined

theorem withFabric (h : Alike c d) {f g : Fabric} (hf : f.Alike g) :
    Alike { c with fabric := f } { d with fabric := g } where
  fabric := hf
  roster := h.roster
  hosts := h.hosts
  registry := h.registry
  memberIds := h.memberIds
  joined := h.joined

theorem setHost (h : Alike c d) (id : MemberId) {k k' : Host} (hk : k.plain = k'.plain)
    {f g : Fabric} (hf : f.Alike g) : Alike (c.setHost id k f) (d.setHost id k' g) where
  fabric := hf
  roster := h.roster
  hosts j := by
    rw [host?_setHost, host?_setHost]
    split
    · exact congrArg some hk
    · exact h.hosts j
  registry := h.registry
  memberIds := h.memberIds
  joined := h.joined

/-! ## What can be seen -/

/-- The same nodes run. -/
theorem running (h : Alike c d) (id : MemberId) :
    (c.running.get? id = none ∧ d.running.get? id = none) ∨
      ∃ k k', c.running.get? id = some k ∧ d.running.get? id = some k' ∧ k.plain = k'.plain := by
  have hrunning : ∀ a : Cluster,
      a.running.get? id = (a.host? id).filter fun k => !k.stopped := by
    intro a
    exact Table.get?_filter a.hosts (fun _ k => !k.stopped) id
  rw [hrunning, hrunning]
  rcases map_eq_map_cases (h.hosts id) with ⟨hc, hd⟩ | ⟨k, k', hc, hd, hplain⟩
  · rw [hc, hd]
    exact Or.inl ⟨rfl, rfl⟩
  · obtain ⟨-, -, hstopped⟩ := Host.eq_of_plain_eq hplain
    rw [hc, hd]
    cases hs : k.stopped with
    | true => exact Or.inl ⟨by simp [hs], by simp [← hstopped, hs]⟩
    | false => exact Or.inr ⟨k, k', by simp [hs], by simp [← hstopped, hs], hplain⟩

theorem contains_running (h : Alike c d) (id : MemberId) :
    c.running.contains id = d.running.contains id := by
  unfold Table.contains
  rcases h.running id with ⟨hc, hd⟩ | ⟨k, k', hc, hd, -⟩
  · rw [hc, hd]
  · rw [hc, hd]
    rfl

theorem keys_running (h : Alike c d) : c.running.keys = d.running.keys :=
  Table.keys_eq_of_contains h.contains_running

theorem contains_registry (h : Alike c d) (name : String) :
    c.registry.contains name = d.registry.contains name := by
  unfold Table.contains
  rcases map_eq_map_cases (h.registry name) with ⟨hc, hd⟩ | ⟨k, k', hc, hd, -⟩
  · rw [hc, hd]
  · rw [hc, hd]
    rfl

/-- The same caches are registered, in the same order. -/
theorem values_registry (h : Alike c d) :
    List.Forall₂ (fun a b => a.plain = b.plain) c.registry.values d.registry.values := by
  apply forall₂_of_map_eq
  rw [← Table.values_mapValues, ← Table.values_mapValues]
  have htable : c.registry.mapValues CacheConfig.plain =
      d.registry.mapValues CacheConfig.plain := by
    apply Table.ext_get?
    intro name
    rw [Table.get?_mapValues, Table.get?_mapValues, h.registry]
  rw [htable]

/-- Members are found by what is left of them. -/
theorem find?_roster (h : Alike c d) (p : Member → Bool) (hp : ∀ m, p m.plain = p m) :
    (c.roster.find? p).map Member.plain = (d.roster.find? p).map Member.plain := by
  have hfind : ∀ r : Roster, (r.find? p).map Member.plain = (r.map Member.plain).find? p := by
    intro r
    have hplain : (fun m => p m.plain) = p := funext hp
    rw [List.find?_map]
    show _ = (r.find? fun m => p m.plain).map Member.plain
    rw [hplain]
  rw [hfind, hfind, h.roster]

theorem ensureRunning (h : Alike c d) (id : MemberId) :
    (∃ err, c.ensureRunning id = .error err ∧ d.ensureRunning id = .error err) ∨
      ∃ k k', c.ensureRunning id = .ok k ∧ d.ensureRunning id = .ok k' ∧ k.plain = k'.plain := by
  unfold Cluster.ensureRunning
  rcases map_eq_map_cases (h.hosts id) with ⟨hc, hd⟩ | ⟨k, k', hc, hd, hplain⟩
  · rw [hc, hd]
    exact Or.inl ⟨_, rfl, rfl⟩
  · obtain ⟨hname, -, hstopped⟩ := Host.eq_of_plain_eq hplain
    rw [hc, hd]
    dsimp only
    rw [← hstopped, ← hname]
    cases k.stopped with
    | true => exact Or.inl ⟨_, rfl, rfl⟩
    | false => exact Or.inr ⟨k, k', rfl, rfl, hplain⟩

theorem cacheOn (h : Alike c d) (id : MemberId) (name : String) :
    c.cacheOn id name = d.cacheOn id name := by
  unfold Cluster.cacheOn
  rcases h.ensureRunning id with ⟨err, hc, hd⟩ | ⟨k, k', hc, hd, hplain⟩
  · rw [hc, hd]
  · obtain ⟨-, hcaches, -⟩ := Host.eq_of_plain_eq hplain
    rw [hc, hd]
    simp only [bind, Except.bind, hcaches]

theorem node (h : Alike c d) (name : String) : c.node name = d.node name := by
  unfold Cluster.node Roster.byName?
  rcases map_eq_map_cases (h.find?_roster (·.name = name) fun m => rfl) with
    ⟨hc, hd⟩ | ⟨m, m', hc, hd, hplain⟩
  · rw [hc, hd]
  · obtain ⟨hid, -⟩ := Member.eq_of_plain_eq hplain
    rw [hc, hd]
    dsimp only
    rw [h.contains_running, hid]

/-! ## Starting caches on nodes -/

theorem starting (h : Alike c d) (id : MemberId) {k k' : Host} (hk : k.plain = k'.plain)
    {config config' : CacheConfig} (hc : config.plain = config'.plain) :
    Alike (c.starting id k config) (d.starting id k' config') := by
  obtain ⟨hnode, hcaches, hstopped⟩ := Host.eq_of_plain_eq hk
  obtain ⟨hname, -⟩ := CacheConfig.eq_of_plain_eq hc
  refine h.setHost id ?_ ?_
  · rw [hcaches, hname, h.fabric.started]
    exact hstopped ▸ Host.plain_recast hk _ k.stopped
  · rw [hnode]
    exact h.fabric.start hc _ _ _

theorem activateOn (h : Alike c d) (id : MemberId) {config config' : CacheConfig}
    (hc : config.plain = config'.plain) (t : Trigger) :
    AlikeWith (c.activateOn id config t) (d.activateOn id config' t) := by
  -- a host that has stopped refuses, whatever it is to start
  have hstop : ∀ (a : Cluster) (k : Host) (q : CacheConfig), a.host? id = some k →
      k.stopped = true → a.activateOn id q t = (.error (.nodeStopped k.member.name), a) := by
    intro a k q hk hs
    simp [Cluster.activateOn, hk, Host.activate, hs]
  rcases map_eq_map_cases (h.hosts id) with ⟨hck, hdk⟩ | ⟨k, k', hck, hdk, hplain⟩
  · unfold Cluster.activateOn
    rw [hck, hdk]
    exact ⟨rfl, h⟩
  · obtain ⟨hnode, hcaches, hstopped⟩ := Host.eq_of_plain_eq hplain
    obtain ⟨hname, -⟩ := CacheConfig.eq_of_plain_eq hc
    cases hs : k.stopped with
    | true =>
        rw [hstop c k config hck hs, hstop d k' config' hdk (hstopped ▸ hs), hnode]
        exact ⟨rfl, h⟩
    | false =>
        have hr := running_eq_some_iff.mpr ⟨hck, hs⟩
        have hr' := running_eq_some_iff.mpr ⟨hdk, hstopped ▸ hs⟩
        cases hi : k.caches.get? config.name with
        | some i =>
            have hi' : k'.caches.get? config'.name = some i := by rw [← hcaches, ← hname, hi]
            rw [activateOn_eq_self hr hi t, activateOn_eq_self hr' hi' t]
            exact ⟨rfl, h⟩
        | none =>
            have hi' : k'.caches.get? config'.name = none := by rw [← hcaches, ← hname, hi]
            rw [activateOn_eq_starting hr hi t, activateOn_eq_starting hr' hi' t]
            refine ⟨?_, (h.starting id hplain hc).withPublisher _ _⟩
            rw [h.fabric.started]

theorem deactivateOn (h : Alike c d) (id : MemberId) (name : String) :
    Alike (c.deactivateOn id name) (d.deactivateOn id name) := by
  rcases map_eq_map_cases (h.hosts id) with ⟨hck, hdk⟩ | ⟨k, k', hck, hdk, hplain⟩
  · rw [deactivateOn_eq_self fun k hk => (by rw [hck] at hk; cases hk),
      deactivateOn_eq_self fun k hk => (by rw [hdk] at hk; cases hk)]
    exact h
  · obtain ⟨-, hcaches, hstopped⟩ := Host.eq_of_plain_eq hplain
    cases hi : k.caches.get? name with
    | none =>
        rw [deactivateOn_eq_self fun k₁ hk => (by rw [hck] at hk; cases hk; exact hi),
          deactivateOn_eq_self fun k₁ hk => (by rw [hdk] at hk; cases hk; exact hcaches ▸ hi)]
        exact h
    | some i =>
        rw [deactivateOn_eq_closing hck hi, deactivateOn_eq_closing hdk (hcaches ▸ hi)]
        refine h.setHost id ?_ (h.fabric.close i .cacheDestroyed)
        rw [hcaches]
        exact hstopped ▸ Host.plain_recast hplain _ k.stopped

theorem confirm (h : Alike c d) (id : MemberId) (name : String) :
    Alike (c.confirm id name) (d.confirm id name) := by
  unfold Cluster.confirm
  rw [h.contains_registry]
  split
  · exact h
  · exact h.deactivateOn id name

theorem activateRegistered (h : Alike c d) (id : MemberId) {config config' : CacheConfig}
    (hc : config.plain = config'.plain) (t : Trigger) :
    AlikeWith (c.activateRegistered id config t) (d.activateRegistered id config' t) := by
  obtain ⟨r, c', d', hrc, hrd, h'⟩ := (h.activateOn id hc t).cases
  unfold Cluster.activateRegistered
  rw [hrc, hrd]
  cases r with
  | error err => exact ⟨rfl, h'⟩
  | ok i =>
      refine ⟨rfl, ?_⟩
      show Alike (c'.confirm id config.name) (d'.confirm id config'.name)
      rw [(CacheConfig.eq_of_plain_eq hc).1]
      exact h'.confirm id _

theorem activateEach {config config' : CacheConfig} (hc : config.plain = config'.plain)
    (ids : List MemberId) : ∀ {c d : Cluster}, Alike c d →
      Alike (c.activateEach config ids) (d.activateEach config' ids) := by
  induction ids with
  | nil => intro c d h; exact h
  | cons id ids ih => intro c d h; exact ih (h.activateRegistered id hc .dynamic).2

theorem propagate (h : Alike c d) {config config' : CacheConfig}
    (hc : config.plain = config'.plain) (skip : Option MemberId) :
    Alike (c.propagate config skip) (d.propagate config' skip) := by
  unfold Cluster.propagate
  rw [h.keys_running]
  exact activateEach hc _ h

theorem register (h : Alike c d) {config config' : CacheConfig}
    (hc : config.plain = config'.plain) :
    Alike { c with registry := c.registry.insert config.name config }
      { d with registry := d.registry.insert config'.name config' } where
  fabric := h.fabric
  roster := h.roster
  hosts := h.hosts
  registry name := by
    rw [Table.get?_insert, Table.get?_insert, (CacheConfig.eq_of_plain_eq hc).1]
    split
    · exact congrArg some hc
    · exact h.registry name
  memberIds := h.memberIds
  joined := h.joined

/-! ## Starting nodes -/

theorem enrolling (h : Alike c d) {n n' : NodeConfig} (hn : n.plain = n'.plain) :
    Alike (c.enrolling n) (d.enrolling n') := by
  obtain ⟨hname, -, hrole, -⟩ := NodeConfig.eq_of_plain_eq hn
  have hmember : (Member.enrolled (c.memberIds c.joined) n.name n.role n.attributes).plain =
      (Member.enrolled (d.memberIds d.joined) n'.name n'.role n'.attributes).plain := by
    rw [h.memberIds, h.joined, hname, hrole]
    rfl
  refine ⟨h.fabric, ?_, fun id => ?_, h.registry, h.memberIds, congrArg (· + 1) h.joined⟩
  · show (c.roster ++ [_]).map Member.plain = (d.roster ++ [_]).map Member.plain
    rw [List.map_append, List.map_append, h.roster]
    exact congrArg (fun m => _ ++ [m]) hmember
  · show (Table.get? (c.hosts.insert _ _) id).map _ = (Table.get? (d.hosts.insert _ _) id).map _
    rw [Table.get?_insert, Table.get?_insert]
    have hid := (Member.eq_of_plain_eq hmember).1
    rw [hid]
    split
    · exact congrArg (fun m => some ({ member := m } : Host)) hmember
    · exact h.hosts id

/-- Whether a name is free can be seen from plain members. -/
theorem enrol (h : Alike c d) {n n' : NodeConfig} (hn : n.plain = n'.plain) :
    (∃ err, c.enrol n = .error err ∧ d.enrol n' = .error err) ∨
      ∃ id c' d', c.enrol n = .ok (id, c') ∧ d.enrol n' = .ok (id, d') ∧ Alike c' d' := by
  obtain ⟨hname, hcheck, -, -⟩ := NodeConfig.eq_of_plain_eq hn
  have hany : c.roster.any (fun m => decide (m.name = n.name)) =
      d.roster.any fun m => decide (m.name = n.name) := by
    have hplain : ∀ r : Roster, r.any (fun m => decide (m.name = n.name)) =
        (r.map Member.plain).any fun m => decide (m.name = n.name) := by
      intro r
      rw [List.any_map]
      rfl
    rw [hplain, hplain d.roster, h.roster]
  rw [enrol_eq, enrol_eq, ← hcheck, ← hname, ← hany, ← h.memberIds, ← h.joined]
  cases n.check with
  | error err => exact Or.inl ⟨err, rfl, rfl⟩
  | ok u =>
      dsimp only
      split
      · exact Or.inl ⟨_, rfl, rfl⟩
      · refine Or.inr ⟨_, _, _, rfl, rfl, ?_⟩
        exact (h.enrolling hn).withPublisher _ _

/-- The first configuration of a name counts in both clusters. -/
theorem registerStatic (h : Alike c d) {config config' : CacheConfig}
    (hc : config.plain = config'.plain) :
    (c.registerStatic config).1.plain = (d.registerStatic config').1.plain ∧
      Alike (c.registerStatic config).2 (d.registerStatic config').2 := by
  unfold Cluster.registerStatic
  rw [← (CacheConfig.eq_of_plain_eq hc).1]
  rcases map_eq_map_cases (h.registry config.name) with ⟨hcr, hdr⟩ | ⟨q, q', hcr, hdr, hplain⟩
  · rw [hcr, hdr]
    exact ⟨hc, (CacheConfig.eq_of_plain_eq hc).1 ▸ h.register hc⟩
  · rw [hcr, hdr]
    exact ⟨hplain, h⟩

theorem startStatic (id : MemberId) {configs configs' : List CacheConfig}
    (hcs : List.Forall₂ (fun a b => a.plain = b.plain) configs configs') :
    ∀ {c d : Cluster}, Alike c d →
      AlikeWith (c.startStatic id configs) (d.startStatic id configs') := by
  induction hcs with
  | nil => intro c d h; exact ⟨rfl, h⟩
  | cons hc hrest ih =>
      intro c d h
      obtain ⟨heffective, h₁⟩ := h.registerStatic hc
      obtain ⟨r, c₂, d₂, hrc, hrd, h₂⟩ := (h₁.activateRegistered id heffective .static).cases
      simp only [Cluster.startStatic, hrc, hrd]
      cases r with
      | error err => exact ⟨rfl, h₂⟩
      | ok u => exact ih (h₂.propagate heffective (some id))

theorem startJoined (id : MemberId) {configs configs' : List CacheConfig}
    (hcs : List.Forall₂ (fun a b => a.plain = b.plain) configs configs') :
    ∀ {c d : Cluster}, Alike c d →
      AlikeWith (c.startJoined id configs) (d.startJoined id configs') := by
  induction hcs with
  | nil => intro c d h; exact ⟨rfl, h⟩
  | cons hc hrest ih =>
      intro c d h
      obtain ⟨r, c₁, d₁, hrc, hrd, h₁⟩ := (h.activateRegistered id hc .join).cases
      simp only [Cluster.startJoined, hrc, hrd]
      cases r with
      | error err => exact ⟨rfl, h₁⟩
      | ok u => exact ih h₁

theorem startNode (h : Alike c d) {n n' : NodeConfig} (hn : n.plain = n'.plain) :
    AlikeWith (c.startNode n) (d.startNode n') := by
  unfold Cluster.startNode
  rcases h.enrol hn with ⟨err, hc, hd⟩ | ⟨id, c₁, d₁, hc, hd, h₁⟩
  · rw [hc, hd]
    exact ⟨rfl, h⟩
  · rw [hc, hd]
    dsimp only
    obtain ⟨-, -, -, hstatic⟩ := NodeConfig.eq_of_plain_eq hn
    obtain ⟨r, c₂, d₂, hrc, hrd, h₂⟩ := (startStatic id hstatic h₁).cases
    rw [hrc, hrd]
    cases r with
    | error err => exact ⟨rfl, h₂⟩
    | ok u =>
        dsimp only
        obtain ⟨r, c₃, d₃, hrc, hrd, h₃⟩ := (startJoined id h₂.values_registry h₂).cases
        rw [hrc, hrd]
        cases r <;> exact ⟨rfl, h₃⟩

/-! ## Stopping nodes -/

theorem stopping (h : Alike c d) (id : MemberId) {k k' : Host} (hk : k.plain = k'.plain) :
    Alike (c.stopping id k) (d.stopping id k') := by
  obtain ⟨-, hcaches, -⟩ := Host.eq_of_plain_eq hk
  have hclose : ∀ (ids : List EndpointId) {f g : Fabric}, f.Alike g →
      (Host.closeAll f ids).Alike (Host.closeAll g ids) := by
    intro ids
    induction ids with
    | nil => intro f g hfg; exact hfg
    | cons i ids ih => intro f g hfg; exact ih (hfg.close i .nodeStopped)
  have hfabric : (Host.closeAll c.fabric k.caches.values).Alike
      (Host.closeAll d.fabric k'.caches.values) := by
    rw [hcaches]
    exact hclose _ h.fabric
  have hset := h.setHost id (Host.plain_recast hk ∅ true) hfabric
  refine ⟨hset.fabric, ?_, hset.hosts, hset.registry, hset.memberIds, hset.joined⟩
  have hleave : ∀ r : Roster, (r.leave id).2.map Member.plain =
      (r.map Member.plain).eraseP fun m => decide (m.id = id) := by
    intro r
    rw [List.eraseP_map]
    rfl
  show (c.roster.leave id).2.map Member.plain = (d.roster.leave id).2.map Member.plain
  rw [hleave, hleave, h.roster]

theorem stopNode (h : Alike c d) (id : MemberId) :
    AlikeWith (c.stopNode id) (d.stopNode id) := by
  rcases h.running id with ⟨hc, hd⟩ | ⟨k, k', hc, hd, hplain⟩
  · rw [stopNode_eq_self hc, stopNode_eq_self hd]
    exact ⟨rfl, h⟩
  · rw [stopNode_eq_stopping hc, stopNode_eq_stopping hd]
    exact ⟨rfl, (h.stopping id hplain).withPublisher _ _⟩

theorem stopEach {ms ms' : List Member}
    (hms : List.Forall₂ (fun m m' => m.plain = m'.plain) ms ms') :
    ∀ {c d : Cluster}, Alike c d → Alike (c.stopEach ms) (d.stopEach ms') := by
  induction hms with
  | nil => intro c d h; exact h
  | @cons m m' ms ms' hm hrest ih =>
      intro c d h
      show Alike ((c.stopNode m.id).2.stopEach ms) ((d.stopNode m'.id).2.stopEach ms')
      rw [(Member.eq_of_plain_eq hm).1]
      exact ih (h.stopNode m'.id).2

theorem stopAll (h : Alike c d) : Alike c.stopAll d.stopAll := by
  -- the nodes are stopped in the order of the rosters, and the data of the same caches is dropped
  have hstop := stopEach (forall₂_of_map_eq h.roster) h
  have hkeys := Table.keys_eq_of_contains hstop.contains_registry
  refine ⟨?_, hstop.roster, hstop.hosts, fun _ => rfl, hstop.memberIds, hstop.joined⟩
  show Fabric.Alike
    ((c.stopEach c.roster).registry.keys.foldl (fun f name => f.destroy name) _)
    ((d.stopEach d.roster).registry.keys.foldl (fun f name => f.destroy name) _)
  rw [hkeys]
  exact Fabric.Alike.destroyEach _ hstop.fabric

/-! ## Creating and destroying caches -/

theorem createCache (h : Alike c d) (creator : MemberId) {config config' : CacheConfig}
    (hc : config.plain = config'.plain) :
    AlikeWith (c.createCache creator config) (d.createCache creator config') := by
  obtain ⟨hname, hcheck⟩ := CacheConfig.eq_of_plain_eq hc
  have hmember : (c.roster.byId? creator).isNone = (d.roster.byId? creator).isNone := by
    unfold Roster.byId?
    rcases map_eq_map_cases (h.find?_roster (·.id = creator) fun m => rfl) with
      ⟨hcm, hdm⟩ | ⟨m, m', hcm, hdm, -⟩
    · rw [hcm, hdm]
    · rw [hcm, hdm]
      rfl
  unfold Cluster.createCache
  rw [← hcheck, ← hmember, ← h.contains_registry, ← hname]
  cases config.check with
  | error err => exact ⟨rfl, h⟩
  | ok u =>
      dsimp only
      split
      · exact ⟨rfl, h⟩
      · split
        · exact ⟨rfl, h⟩
        · have hregister := h.register hc
          rw [← hname] at hregister
          exact ⟨rfl, hregister.propagate hc none⟩

theorem createFrom (h : Alike c d) (id : MemberId) {config config' : CacheConfig}
    (hc : config.plain = config'.plain) :
    AlikeWith (c.createFrom id config) (d.createFrom id config') := by
  unfold Cluster.createFrom
  rcases h.ensureRunning id with ⟨err, hck, hdk⟩ | ⟨k, k', hck, hdk, -⟩
  · rw [hck, hdk]
    exact ⟨rfl, h⟩
  · obtain ⟨r, c', d', hrc, hrd, h'⟩ := (h.createCache id hc).cases
    rw [hck, hdk, hrc, hrd]
    cases r with
    | error err => exact ⟨rfl, h'⟩
    | ok u =>
        refine ⟨?_, h'⟩
        show c'.cacheOn id config.name = d'.cacheOn id config'.name
        rw [(CacheConfig.eq_of_plain_eq hc).1, h'.cacheOn]

theorem getOrCreate (h : Alike c d) (id : MemberId) {config config' : CacheConfig}
    (hc : config.plain = config'.plain) :
    AlikeWith (c.getOrCreate id config) (d.getOrCreate id config') := by
  unfold Cluster.getOrCreate
  rw [← (CacheConfig.eq_of_plain_eq hc).1, ← h.cacheOn]
  cases c.cacheOn id config.name with
  | ok i => exact ⟨rfl, h⟩
  | error err =>
      obtain ⟨r, c', d', hrc, hrd, h'⟩ := (h.createFrom id hc).cases
      rw [hrc, hrd]
      cases r with
      | ok i => exact ⟨rfl, h'⟩
      | error err =>
          -- only when somebody else was faster the node's endpoint is looked up
          cases err <;> first | exact ⟨h'.cacheOn id _, h'⟩ | exact ⟨rfl, h'⟩

theorem deactivateEach (name : String) (ids : List MemberId) : ∀ {c d : Cluster}, Alike c d →
    Alike (c.deactivateEach name ids) (d.deactivateEach name ids) := by
  induction ids with
  | nil => intro c d h; exact h
  | cons id ids ih => intro c d h; exact ih (h.deactivateOn id name)

theorem unregister (h : Alike c d) (name : String) :
    Alike { c with registry := c.registry.erase name } { d with registry := d.registry.erase name }
    where
  fabric := h.fabric
  roster := h.roster
  hosts := h.hosts
  registry n := by
    rw [Table.get?_erase, Table.get?_erase]
    split
    · rfl
    · exact h.registry n
  memberIds := h.memberIds
  joined := h.joined

theorem destroyCache (h : Alike c d) (name : String) :
    AlikeWith (c.destroyCache name) (d.destroyCache name) := by
  have hregistered := h.contains_registry name
  cases hc : c.registry.contains name with
  | false =>
      have hd := hregistered.symm.trans hc
      have hsame : ∀ a : Cluster, a.registry.contains name = false →
          a.destroyCache name = (false, a) := by
        intro a ha
        simp [Cluster.destroyCache, ha]
      rw [hsame c hc, hsame d hd]
      exact ⟨rfl, h⟩
  | true =>
      have hd := hregistered.symm.trans hc
      rw [destroyCache_eq hc, destroyCache_eq hd, ← h.keys_running]
      have htaken := deactivateEach name c.running.keys (h.unregister name)
      exact ⟨rfl, (htaken.withFabric (htaken.fabric.destroy name)).withPublisher _ _⟩

theorem destroyFrom (h : Alike c d) (id : MemberId) (name : String) :
    AlikeWith (c.destroyFrom id name) (d.destroyFrom id name) := by
  unfold Cluster.destroyFrom
  rcases h.ensureRunning id with ⟨err, hc, hd⟩ | ⟨k, k', hc, hd, -⟩
  · rw [hc, hd]
    exact ⟨rfl, h⟩
  · obtain ⟨found, c', d', hrc, hrd, h'⟩ := (h.destroyCache name).cases
    rw [hc, hd, hrc, hrd]
    exact ⟨rfl, h'⟩

/-! ## Deployments -/

theorem startNodes {ns ns' : List NodeConfig}
    (hns : List.Forall₂ (fun n n' => n.plain = n'.plain) ns ns') :
    ∀ {c d : Cluster}, Alike c d → AlikeWith (c.startNodes ns) (d.startNodes ns') := by
  induction hns with
  | nil => intro c d h; exact ⟨rfl, h⟩
  | cons hn hrest ih =>
      intro c d h
      obtain ⟨r, c', d', hrc, hrd, h'⟩ := (h.startNode hn).cases
      simp only [Cluster.startNodes, hrc, hrd]
      cases r with
      | error err => exact ⟨rfl, h'⟩
      | ok id =>
          obtain ⟨hanswer, halike⟩ := ih h'
          exact ⟨congrArg (Except.map (id :: ·)) hanswer, halike⟩

theorem createLate {ls ls' : List LateCache}
    (hls : List.Forall₂ (fun l l' => l.plain = l'.plain) ls ls') :
    ∀ {c d : Cluster}, Alike c d → AlikeWith (c.createLate ls) (d.createLate ls') := by
  induction hls with
  | nil => intro c d h; exact ⟨rfl, h⟩
  | @cons l l' ls ls' hl hrest ih =>
      intro c d h
      obtain ⟨hcreator, hcache⟩ := LateCache.eq_of_plain_eq hl
      unfold Cluster.createLate
      rw [← hcreator, ← h.node]
      cases c.node l.creator with
      | error err => exact ⟨rfl, h⟩
      | ok id =>
          obtain ⟨r, c', d', hrc, hrd, h'⟩ := (h.createFrom id hcache).cases
          dsimp only
          rw [hrc, hrd]
          cases r with
          | error err => exact ⟨rfl, h'⟩
          | ok i => exact ih h'

theorem apply (h : Alike c d) {p p' : Deployment} (hp : p.plain = p'.plain) :
    AlikeWith (c.apply p) (d.apply p') := by
  obtain ⟨hcheck, hnodes, hlate⟩ := Deployment.eq_of_plain_eq hp
  unfold Cluster.apply
  rw [← hcheck]
  cases p.check with
  | error err => exact ⟨rfl, h⟩
  | ok u =>
      obtain ⟨r, c', d', hrc, hrd, h'⟩ := (startNodes hnodes h).cases
      rw [hrc, hrd]
      cases r with
      | error err => exact ⟨rfl, h'⟩
      | ok ids =>
          obtain ⟨hanswer, halike⟩ := createLate hlate h'
          exact ⟨congrArg (Except.map fun _ => ids) hanswer, halike⟩

end Alike

end Cluster

end NearCache
