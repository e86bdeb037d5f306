import NearCache.Proofs.Cluster.Origins
import NearCache.Proofs.Placement.Identity
import NearCache.Proofs.Session.Sound

/-!
# Near caches cannot be had by pretence

A node that starts under a name with some attributes is, to every selector, the node of this name with
these attributes (`Member.genuine_enrolled`), and whatever becomes of it, it stays the one that started
(`Cluster.Rooted`). `genuine_after` joins the two for everything that users can do: what decides about
the near cache of an endpoint is the near-cache settings of its cache and the configuration with which
its node was started, and no such decision ever comes of a test that failed.
-/

namespace NearCache

/-- The nodes that a command is to start. -/
def Command.nodes : Command → List NodeConfig
  | start n => [n]
  | apply d => d.nodes
  | create .. | createFrom .. | getOrCreate .. | cache .. | destroy _ | destroyFrom .. | stop _
  | stopAll | get .. | getAll .. | peek .. | put .. | putAll .. | remove .. | setAvailable _
  | beginGet .. | endGet _ => []

/-- What decides about near caches in a cluster whose nodes were started with some configurations. -/
structure Cluster.Unspoofed (c : Cluster) (nodes : List NodeConfig) : Prop where
  /-- Nodes are what they were started as. -/
  hosts : ∀ {id h}, c.host? id = some h →
    ∃ n ∈ nodes, h.member = Member.enrolled id n.name n.role n.attributes
  /-- An endpoint, open or closed, has the placement that any cache with its near-cache settings has
  on any node that is started like its own. -/
  endpoints : ∀ {i e}, c.fabric.endpoint? i = some e → ∃ n ∈ nodes, ∃ id h,
    c.host? id = some h ∧ h.member = Member.enrolled id n.name n.role n.attributes ∧
      e.node = n.name ∧ ∀ config id', config.near = e.config.near →
        e.placement = Placement.decide config (Member.enrolled id' n.name n.role n.attributes)
  tested : ∀ {i e}, c.fabric.endpoint? i = some e →
    ∀ text, e.placement ≠ .absent (.testFailed text)
  /-- It does not matter which node creates a cache. -/
  creators : ∀ {a b h k}, c.running.get? a = some h → c.running.get? b = some k → ∀ config,
    c.createCache a config = c.createCache b config ∧
      (c.createFrom a config).2 = (c.createFrom b config).2

namespace Cluster

variable {c : Cluster}

/-- A cache comes out the same for any two running nodes. -/
theorem Linked.createCache_eq (l : Linked c) {a b : MemberId} {h k : Host}
    (ha : c.running.get? a = some h) (hb : c.running.get? b = some k) (config : CacheConfig) :
    c.createCache a config = c.createCache b config := by
  unfold createCache
  rw [l.isNone_byId? ha, l.isNone_byId? hb]
  rfl

theorem Linked.createFrom_snd_eq (l : Linked c) {a b : MemberId} {h k : Host}
    (ha : c.running.get? a = some h) (hb : c.running.get? b = some k) (config : CacheConfig) :
    (c.createFrom a config).2 = (c.createFrom b config).2 := by
  obtain ⟨hh, hs⟩ := running_eq_some_iff.mp ha
  obtain ⟨hk, ht⟩ := running_eq_some_iff.mp hb
  unfold createFrom
  rw [ensureRunning_eq hh, ensureRunning_eq hk, hs, ht, l.createCache_eq ha hb config]
  cases c.createCache b config with
  | mk answer c' => cases answer <;> rfl

/-- In a cluster that goes back to some configurations, these decide. -/
theorem Rooted.unspoofed {nodes : List NodeConfig}
    (r : Rooted (fun m => ∃ n ∈ nodes, Became n m) c) (l : Linked c) : Unspoofed c nodes := by
  have hhosts : ∀ {id h}, c.host? id = some h →
      ∃ n ∈ nodes, h.member = Member.enrolled id n.name n.role n.attributes := by
    intro id h hh
    obtain ⟨n, hn, hbecame⟩ := r.hosts hh
    exact ⟨n, hn, by rw [← l.own hh]; exact hbecame⟩
  refine ⟨hhosts, fun {i e} he => ?_, fun {i e} he text => ?_, fun ha hb config => ?_⟩
  · obtain ⟨id, h, hh, hnode, hplacement⟩ := r.endpoints he
    obtain ⟨n, hn, hmember⟩ := hhosts hh
    refine ⟨n, hn, id, h, hh, hmember, by rw [hnode, hmember]; rfl, fun config id' hnear => ?_⟩
    rw [hplacement, hmember]
    exact (Member.genuine_enrolled id n.name n.role n.attributes).decide_eq
      (Member.genuine_enrolled id' n.name n.role n.attributes) hnear.symm
  · obtain ⟨id, h, hh, -, hplacement⟩ := r.endpoints he
    obtain ⟨n, -, hmember⟩ := hhosts hh
    rw [hplacement, hmember]
    exact (Member.genuine_enrolled id n.name n.role n.attributes).decided e.config text
  · exact ⟨l.createCache_eq ha hb config, l.createFrom_snd_eq ha hb config⟩

end Cluster

namespace Session

variable {s : Session} {kind : Member → Prop}

/-- A command brings no nodes but those that it starts. -/
theorem rooted_step (h : Sound s) (r : s.cluster.Rooted kind) (command : Command)
    (hkind : ∀ n ∈ command.nodes, ∀ id, kind (Member.enrolled id n.name n.role n.attributes)) :
    (s.step command).2.cluster.Rooted kind := by
  have l := h.linked
  cases haccess : command.isAccess with
  | true =>
      obtain ⟨f, hserves, heq⟩ := serves_step s haccess
      rw [heq]
      exact r.withFabric hserves
  | false =>
      cases command with
      | start n => exact r.startNode l (hkind n List.mem_cons_self)
      | apply d => exact r.apply l hkind
      | create id config =>
          exact r.deeds l (s.cluster.deeds_createCache id config)
            (congrArg Prod.snd (s.cluster.staff_createCache id config))
      | createFrom id config =>
          exact r.deeds l (s.cluster.deeds_createFrom id config)
            (congrArg Prod.snd (s.cluster.staff_createFrom id config))
      | getOrCreate id config =>
          exact r.deeds l (s.cluster.deeds_getOrCreate id config)
            (congrArg Prod.snd (s.cluster.staff_getOrCreate id config))
      | cache => exact r
      | destroy name =>
          exact r.deeds l (.single (.destroy s.cluster name))
            (congrArg Prod.snd (s.cluster.staff_destroyCache name))
      | destroyFrom id name =>
          exact r.deeds l (s.cluster.deeds_destroyFrom id name)
            (congrArg Prod.snd (s.cluster.staff_destroyFrom id name))
      | stop id =>
          exact r.deeds l (.single (.stop s.cluster id)) (s.cluster.joined_stopNode id)
      | stopAll => exact r.deeds l l.deeds_stopAll s.cluster.joined_stopAll
      | get | getAll | peek | put | putAll | remove | setAvailable | beginGet | endGet =>
          cases haccess

theorem rooted_after (cs : List Command) : ∀ {s : Session}, Sound s → s.cluster.Rooted kind →
    (∀ n ∈ cs.flatMap Command.nodes, ∀ id,
      kind (Member.enrolled id n.name n.role n.attributes)) →
    (s.after cs).cluster.Rooted kind := by
  induction cs with
  | nil => intro s _ r _; exact r
  | cons command cs ih =>
      intro s h r hkind
      rw [List.flatMap_cons] at hkind
      have hstep := rooted_step h r command fun n hn => hkind n (List.mem_append_left _ hn)
      exact ih (h.step command).sound hstep fun n hn => hkind n (List.mem_append_right _ hn)

/-- **No node passes for another, and no test of a started node fails.** To every selector, a member
that enrols under a name with any attributes is the one of this name that shows these attributes under
its own two. So two members that differ in their numbers only are decided about alike, for any two
caches with the same near-cache settings. And in whatever way users go on, every endpoint that was
ever started has the near cache that its settings and the configuration of its node ask for, whoever
created the cache. -/
theorem genuine_after {memberIds : Nat → MemberId} (distinct : Function.Injective memberIds)
    (publisher : Fanout) (cs : List Command) :
    (∀ id name role user,
        (Member.enrolled id name role user).Genuine name (Member.shown name role user)) ∧
      (∀ id id' name role user {c c' : CacheConfig}, c.near = c'.near →
        Placement.decide c (Member.enrolled id name role user) =
          Placement.decide c' (Member.enrolled id' name role user)) ∧
      ((fresh memberIds publisher).after cs).cluster.Unspoofed (cs.flatMap Command.nodes) := by
  have hsound := Sound.fresh distinct publisher
  refine ⟨Member.genuine_enrolled, fun id id' name role user {c c'} hnear => ?_, ?_⟩
  · exact (Member.genuine_enrolled id name role user).decide_eq
      (Member.genuine_enrolled id' name role user) hnear
  · refine Cluster.Rooted.unspoofed ?_ (hsound.after cs).sound.linked
    exact rooted_after cs hsound (Cluster.Rooted.empty memberIds publisher)
      fun n hn id => ⟨n, hn, rfl⟩

/-- A node that says in its attributes that it is `b`, and the node that is `b`. -/
theorem genuine_after_pretence :
    let pretence := (∅ : Attributes).insert Member.nameKey (.text "b")
    let near : NearConfig := { selector := some (.ofNames ["b"]) }
    let cs : List Command := [.start { name := "a", attributes := pretence },
      .start { name := "b" }, .create 0 { name := "x", near := some near }]
    let c := ((fresh id {}).after cs).cluster
    (c.fabric.endpoint? 0).map (fun e => (e.node, e.placement)) =
        some ("a", .absent .notSelected) ∧
      (c.fabric.endpoint? 1).map (fun e => (e.node, e.placement)) = some ("b", .present) ∧
      c.Unspoofed (cs.flatMap Command.nodes) :=
  ⟨by decide, by decide, (genuine_after Function.injective_id {} _).2.2⟩

end Session

end NearCache
