import NearCache.Proofs.Cluster.Deeds

/-!
# Agreement of the nodes with the registry

Between operations every running node has started exactly the registered caches, each with the
registered configuration. Within an operation this fails in two ways: a node that has just enrolled
is late, and a cache that has just been registered is new. `Cluster.Agrees late new` is agreement up
to one late node and one new cache.

Registering makes a cache new (`Agrees.register`), propagating makes it common
(`Agrees.propagate`); enrolling makes a node late (`Agrees.enrol`), joining brings it up to date
(`Agrees.startJoined`). The operations put these together, and every one of them returns to
agreement without exceptions, whether it succeeds or fails.
-/

namespace NearCache

namespace Cluster

/-- A running node has started a cache. -/
def Hosts (c : Cluster) (id : MemberId) (name : String) : Prop :=
  ∃ h i, c.running.get? id = some h ∧ h.caches.get? name = some i

/-- The nodes agree with the registry, but for a late node and a new cache. -/
structure Agrees (c : Cluster) (late : Option MemberId) (new : Option String) : Prop where
  current : ∀ {id h name i}, c.running.get? id = some h → h.caches.get? name = some i →
    ∃ e, c.fabric.endpoint? i = some e ∧ c.registry.get? name = some e.config
  complete : ∀ {id h name config}, some id ≠ late → some name ≠ new →
    c.running.get? id = some h → c.registry.get? name = some config → c.Hosts id name

theorem Agrees.empty (memberIds : Nat → MemberId) (publisher : Fanout) :
    Agrees { memberIds, publisher } none none where
  current hr _ := by cases hr
  complete _ _ hr _ := by cases hr

/-- Where all agree, every running node has started every registered cache. -/
theorem Agrees.hosts {c : Cluster} (a : Agrees c none none) {id : MemberId} {h : Host}
    {name : String} {config : CacheConfig} (hr : c.running.get? id = some h)
    (hc : c.registry.get? name = some config) : c.Hosts id name :=
  a.complete (Option.some_ne_none id) (Option.some_ne_none name) hr hc

/-! ## Starting a registered cache -/

/-- `c'` is `c` with more registered caches started: the same nodes run, the registry is the same,
and what had started is still there. -/
structure Grows (c c' : Cluster) : Prop where
  registry : c'.registry = c.registry
  running : ∀ id, c'.running.contains id = c.running.contains id
  hosts : ∀ {id name}, c.Hosts id name → c'.Hosts id name

namespace Grows

theorem refl (c : Cluster) : Grows c c := ⟨rfl, fun _ => rfl, fun h => h⟩

theorem trans {a b c : Cluster} (h : Grows a b) (h' : Grows b c) : Grows a c where
  registry := h'.registry.trans h.registry
  running id := (h'.running id).trans (h.running id)
  hosts hh := h'.hosts (h.hosts hh)

theorem runs {c c' : Cluster} (g : Grows c c') {id : MemberId} {h : Host}
    (hr : c.running.get? id = some h) : ∃ h', c'.running.get? id = some h' := by
  rw [← Table.contains_iff, g.running, Table.contains_iff]
  exact ⟨h, hr⟩

end Grows

variable {c : Cluster} {late : Option MemberId} {new : Option String}

theorem grows_starting {id : MemberId} {h : Host} (hr : c.running.get? id = some h)
    (config : CacheConfig) : Grows c (c.starting id h config) where
  registry := rfl
  running j := by
    unfold Table.contains
    rw [running_starting hr]
    split
    · next hj => simp [hj, hr]
    · rfl
  hosts {j name} hh := by
    obtain ⟨k, i, hk, hi⟩ := hh
    by_cases hj : j = id
    · subst hj
      rw [hr] at hk
      cases hk
      have hstarted : ∃ i', (h.caches.insert config.name c.fabric.started).get? name = some i' := by
        rw [Table.get?_insert]
        split
        · exact ⟨_, rfl⟩
        · exact ⟨i, hi⟩
      obtain ⟨i', hi'⟩ := hstarted
      exact ⟨_, i', by rw [running_starting hr, if_pos rfl], hi'⟩
    · exact ⟨k, i, by rw [running_starting hr, if_neg hj, hk], hi⟩

/-- Whoever grows towards the registry does not lose agreement. -/
theorem Agrees.grows (a : Agrees c late new) {c' : Cluster} (g : Grows c c')
    (current : ∀ {id h name i}, c'.running.get? id = some h → h.caches.get? name = some i →
      ∃ e, c'.fabric.endpoint? i = some e ∧ c'.registry.get? name = some e.config) :
    Agrees c' late new where
  current := current
  complete {id h name config} hl hn hr hc := by
    obtain ⟨h₀, hr₀⟩ : ∃ h₀, c.running.get? id = some h₀ := by
      rw [← Table.contains_iff, ← g.running, Table.contains_iff]
      exact ⟨h, hr⟩
    rw [g.registry] at hc
    exact g.hosts (a.complete hl hn hr₀ hc)

theorem Agrees.starting (a : Agrees c late new) (l : Linked c) {id : MemberId} {h : Host}
    (hr : c.running.get? id = some h) {config : CacheConfig}
    (hc : c.registry.get? config.name = some config)
    (free : h.caches.get? config.name = none) : Agrees (c.starting id h config) late new := by
  refine a.grows (grows_starting hr config) ?_
  intro j k name i hk hi
  have hold : ∀ {k₀}, c.running.get? j = some k₀ → k₀.caches.get? name = some i →
      ∃ e, (c.starting id h config).fabric.endpoint? i = some e ∧
        c.registry.get? name = some e.config := by
    intro k₀ hk₀ hi₀
    obtain ⟨e, he, hreg⟩ := a.current hk₀ hi₀
    obtain ⟨e', he', hconfig⟩ := ((Step.start c hr free).precedes l).config he
    exact ⟨e', he', hconfig ▸ hreg⟩
  rw [running_starting hr] at hk
  split at hk
  · next hj =>
    cases hk
    rw [Table.get?_insert] at hi
    split at hi
    · next hname =>
      cases hi
      refine ⟨.opened h.member.name config (Placement.decide config h.member)
        (c.fabric.store.lastSubscription + 1), ?_, hname ▸ hc⟩
      show (Fabric.start _ _ _ _).2.endpoint? _ = _
      rw [Fabric.endpoint?_start, if_pos rfl]
    · exact hold (hj ▸ hr) hi
  · exact hold hk hi

/-- A registered cache starts on a running node, and stays there. -/
theorem Agrees.activateRegistered (a : Agrees c late new) (l : Linked c) {id : MemberId} {h : Host}
    (hr : c.running.get? id = some h) {config : CacheConfig}
    (hc : c.registry.get? config.name = some config) (t : Trigger) :
    ∃ c', c.activateRegistered id config t = (.ok (), c') ∧ Grows c c' ∧ Agrees c' late new ∧
      c'.Hosts id config.name := by
  unfold Cluster.activateRegistered
  cases hi : h.caches.get? config.name with
  | some i =>
      rw [activateOn_eq_self hr hi t]
      dsimp only
      rw [confirm_eq_self hc id]
      exact ⟨c, rfl, .refl c, a, h, i, hr, hi⟩
  | none =>
      rw [activateOn_eq_starting hr hi t]
      dsimp only
      rw [confirm_eq_self (c := (c.starting id h config).publishAll _) hc id]
      have hstart := a.starting l hr hc hi
      have hgrows := grows_starting hr config
      refine ⟨_, rfl, ⟨rfl, hgrows.running, hgrows.hosts⟩, ⟨hstart.current, hstart.complete⟩,
        { h with caches := h.caches.insert config.name c.fabric.started }, c.fabric.started, ?_, ?_⟩
      · exact (running_starting hr config id).trans (if_pos rfl)
      · exact Table.get?_insert_self _ _ _

/-- A registered cache starts on nodes one after the other; those that do not run are passed by. -/
theorem Agrees.activateEach {config : CacheConfig} (ids : List MemberId) :
    ∀ {c : Cluster}, Agrees c late new → Linked c →
      c.registry.get? config.name = some config →
      Grows c (c.activateEach config ids) ∧ Agrees (c.activateEach config ids) late new ∧
        ∀ {id h}, id ∈ ids → c.running.get? id = some h →
          (c.activateEach config ids).Hosts id config.name := by
  induction ids with
  | nil => intro c a _ _; exact ⟨.refl c, a, fun hid => by cases hid⟩
  | cons id ids ih =>
      intro c a l hc
      have hstep : Grows c (c.activateRegistered id config .dynamic).2 ∧
          Agrees (c.activateRegistered id config .dynamic).2 late new ∧
          ∀ {h}, c.running.get? id = some h →
            (c.activateRegistered id config .dynamic).2.Hosts id config.name := by
        cases hr : c.running.get? id with
        | none =>
            obtain ⟨err, he⟩ := activateOn_eq_error hr config .dynamic
            have hsame : (c.activateRegistered id config .dynamic).2 = c := by
              simp [Cluster.activateRegistered, he]
            rw [hsame]
            exact ⟨.refl c, a, fun hr' => by cases hr'⟩
        | some h =>
            obtain ⟨c', he, hgrows, hagrees, hhosts⟩ := a.activateRegistered l hr hc .dynamic
            rw [he]
            exact ⟨hgrows, hagrees, fun _ => hhosts⟩
      obtain ⟨hgrows, hagrees, hhosts⟩ := hstep
      have hlinked := l.deeds (deeds_activateRegistered id .dynamic hc)
      obtain ⟨hgrows', hagrees', hhosts'⟩ := ih hagrees hlinked (by rw [hgrows.registry, hc])
      refine ⟨hgrows.trans hgrows', hagrees', ?_⟩
      intro j h hj hr
      rcases List.mem_cons.mp hj with rfl | hj
      · exact hgrows'.hosts (hhosts hr)
      · obtain ⟨h', hr'⟩ := hgrows.runs hr
        exact hhosts' hj hr'

/-- A new cache that is propagated is not new any more. -/
theorem Agrees.propagate {config : CacheConfig} (a : Agrees c late (some config.name))
    (l : Linked c) (hc : c.registry.get? config.name = some config) :
    Grows c (c.propagate config late) ∧ Agrees (c.propagate config late) late none := by
  obtain ⟨hgrows, hagrees, hhosts⟩ :=
    a.activateEach (c.running.keys.filter fun id => some id ≠ late) l hc
  refine ⟨hgrows, hagrees.current, ?_⟩
  intro id h name config' hl _ hr hc'
  by_cases hname : name = config.name
  · subst hname
    obtain ⟨h₀, hr₀⟩ : ∃ h₀, c.running.get? id = some h₀ := by
      rw [← Table.contains_iff, ← hgrows.running, Table.contains_iff]
      exact ⟨h, hr⟩
    refine hhosts ?_ hr₀
    rw [List.mem_filter]
    exact ⟨Table.mem_keys_iff.mpr ⟨h₀, hr₀⟩, decide_eq_true hl⟩
  · exact hagrees.complete hl (fun h => hname (Option.some.inj h)) hr hc'

/-- A cache that has just been registered is new. -/
theorem Agrees.register (a : Agrees c late none) {config : CacheConfig}
    (free : c.registry.get? config.name = none) :
    Agrees { c with registry := c.registry.insert config.name config } late
      (some config.name) where
  current {id h name i} hr hi := by
    obtain ⟨e, he, hc⟩ := a.current hr hi
    refine ⟨e, he, ?_⟩
    rw [Table.get?_insert, if_neg]
    · exact hc
    · intro hname
      rw [hname, free] at hc
      cases hc
  complete {id h name config'} hl hn hr hc := by
    rw [Table.get?_insert, if_neg fun hname => hn (congrArg some hname)] at hc
    exact a.complete hl (fun h => by cases h) hr hc

/-! ## Nodes that join -/

/-- A node that has just enrolled is late. -/
theorem Agrees.enrol (a : Agrees c none none) {n : NodeConfig} {id : MemberId}
    {c' : Cluster} (he : c.enrol n = .ok (id, c')) :
    Agrees c' (some id) none ∧ ∃ h, c'.running.get? id = some h := by
  obtain ⟨rfl, -, rfl⟩ := enrol_eq_ok he
  have hrun := running_enrolling c n
  refine ⟨⟨?_, ?_⟩, _, (hrun _).trans (if_pos rfl)⟩
  · intro j h name i hr hi
    have hr' := (hrun j).symm.trans hr
    split at hr'
    · cases hr'
      cases hi
    · exact a.current hr' hi
  · intro j h name config hl hn hr hc
    have hj : j ≠ c.memberIds c.joined := fun hj => hl (congrArg some hj)
    have hr' := (hrun j).symm.trans hr
    rw [if_neg hj] at hr'
    obtain ⟨k, i, hk, hi⟩ := a.complete (fun h => by cases h) hn hr' hc
    exact ⟨k, i, (hrun j).trans ((if_neg hj).trans hk), hi⟩

theorem Agrees.registerStatic (a : Agrees c late none) (config : CacheConfig) :
    Agrees (c.registerStatic config).2 late (some (c.registerStatic config).1.name) ∧
      (c.registerStatic config).2.running = c.running := by
  unfold Cluster.registerStatic
  cases hr : c.registry.get? config.name with
  | some first => exact ⟨⟨a.current, fun hl _ => a.complete hl fun h => by cases h⟩, rfl⟩
  | none => exact ⟨a.register hr, rfl⟩

/-- The caches that a late node brings along start everywhere. -/
theorem Agrees.startStatic {id : MemberId} (configs : List CacheConfig) :
    ∀ {c : Cluster} {h : Host}, Agrees c (some id) none → Linked c →
      c.running.get? id = some h →
      ∃ c' h', c.startStatic id configs = (.ok (), c') ∧ Agrees c' (some id) none ∧
        c'.running.get? id = some h' := by
  induction configs with
  | nil => intro c h a _ hr; exact ⟨c, h, rfl, a, hr⟩
  | cons config rest ih =>
      intro c h a l hr
      obtain ⟨hregister, hrunning⟩ := a.registerStatic config
      obtain ⟨hdeeds, hc⟩ := l.registerStatic config
      have l₁ := l.deeds hdeeds
      unfold Cluster.startStatic
      cases hs : c.registerStatic config with
      | mk effective c₁ =>
          rw [hs] at hc hregister hrunning l₁
          dsimp only at hc hregister hrunning l₁ ⊢
          rw [← hrunning] at hr
          obtain ⟨c₂, hactivate, hgrows₂, a₂, -⟩ := hregister.activateRegistered l₁ hr hc .static
          have l₂ := l₁.deeds (deeds_activateRegistered id .static hc)
          rw [hactivate] at l₂ ⊢
          dsimp only at l₂ ⊢
          rw [← hgrows₂.registry] at hc
          obtain ⟨hgrows₃, a₃⟩ := a₂.propagate l₂ hc
          obtain ⟨h₃, hr₃⟩ := (hgrows₂.trans hgrows₃).runs hr
          exact ih a₃ (l₂.deeds (deeds_propagate hc _)) hr₃

/-- A late node starts registered caches. -/
theorem Agrees.startJoined {id : MemberId} (configs : List CacheConfig) :
    ∀ {c : Cluster} {h : Host}, Agrees c late new → Linked c → c.running.get? id = some h →
      (∀ config ∈ configs, c.registry.get? config.name = some config) →
      ∃ c', c.startJoined id configs = (.ok (), c') ∧ Grows c c' ∧ Agrees c' late new ∧
        ∀ config ∈ configs, c'.Hosts id config.name := by
  induction configs with
  | nil => intro c h a _ _ _; exact ⟨c, rfl, .refl c, a, fun config hc => by cases hc⟩
  | cons config rest ih =>
      intro c h a l hr hc
      have hfirst := hc config List.mem_cons_self
      obtain ⟨c₁, hactivate, hgrows₁, a₁, hhosts₁⟩ := a.activateRegistered l hr hfirst .join
      have l₁ := l.deeds (deeds_activateRegistered id .join hfirst)
      unfold Cluster.startJoined
      rw [hactivate] at l₁ ⊢
      dsimp only at l₁ ⊢
      obtain ⟨h₁, hr₁⟩ := hgrows₁.runs hr
      obtain ⟨c₂, hrest, hgrows₂, a₂, hhosts₂⟩ := ih a₁ l₁ hr₁ fun config' hc' => by
        rw [hgrows₁.registry]
        exact hc config' (List.mem_cons_of_mem _ hc')
      refine ⟨c₂, hrest, hgrows₁.trans hgrows₂, a₂, ?_⟩
      intro config' hc'
      rcases List.mem_cons.mp hc' with rfl | hc'
      · exact hgrows₂.hosts hhosts₁
      · exact hhosts₂ config' hc'

/-- Starting a node fails before anything has happened, or succeeds and leaves nobody late. -/
theorem Agrees.startNode (a : Agrees c none none) (l : Linked c) (n : NodeConfig) :
    Agrees (c.startNode n).2 none none ∧
      ((∃ err, c.enrol n = .error err ∧ c.startNode n = (.error err, c)) ∨
        ∃ id, (c.startNode n).1 = .ok id) := by
  unfold Cluster.startNode
  cases he : c.enrol n with
  | error err => exact ⟨a, Or.inl ⟨err, rfl, rfl⟩⟩
  | ok r =>
      obtain ⟨id, c₁⟩ := r
      obtain ⟨a₁, h₁, hr₁⟩ := a.enrol he
      have l₁ := l.steps (steps_enrol he)
      obtain ⟨c₂, h₂, hstatic, a₂, hr₂⟩ := a₁.startStatic n.staticCaches l₁ hr₁
      have l₂ := l₁.deeds (Linked.deeds_startStatic id n.staticCaches l₁)
      dsimp only
      rw [hstatic] at l₂ ⊢
      dsimp only at l₂ ⊢
      obtain ⟨c₃, hjoined, hgrows₃, a₃, hhosts₃⟩ :=
        a₂.startJoined c₂.registry.values l₂ hr₂ fun config hc => l₂.registered_of_mem hc
      rw [hjoined]
      refine ⟨⟨a₃.current, ?_⟩, Or.inr ⟨id, rfl⟩⟩
      intro j h name config _ hn hr hc
      -- the node that was late has started what is registered now
      by_cases hj : j = id
      · subst hj
        rw [hgrows₃.registry] at hc
        have hhosts := hhosts₃ config (Table.mem_values_iff.mpr ⟨name, hc⟩)
        rwa [l₂.keyed hc] at hhosts
      · exact a₃.complete (fun h => hj (Option.some.inj h)) hn hr hc

/-! ## Nodes and caches that go -/

theorem Agrees.stopNode (a : Agrees c none none) (l : Linked c) (id : MemberId) :
    Agrees (c.stopNode id).2 none none := by
  have hrun := running_stopNode c id
  have hregistry := registry_stopNode c id
  constructor
  · intro j h name i hr hi
    rw [hrun] at hr
    split at hr
    · cases hr
    · obtain ⟨e, he, hc⟩ := a.current hr hi
      obtain ⟨e', he', hconfig⟩ := ((steps_stopNode c id).precedes l).config he
      exact ⟨e', he', by rw [hregistry, hconfig, hc]⟩
  · intro j h name config hl hn hr hc
    rw [hrun] at hr
    split at hr
    · cases hr
    · next hj =>
      rw [hregistry] at hc
      obtain ⟨k, i, hk, hi⟩ := a.complete hl hn hr hc
      exact ⟨k, i, by rw [hrun, if_neg hj, hk], hi⟩

/-- With nobody running and nothing registered there is nothing to agree about. -/
theorem Agrees.stopAll (l : Linked c) : Agrees c.stopAll none none where
  current hr _ := by
    have := (l.running_stopEach _).symm.trans hr
    cases this
  complete _ _ hr _ := by
    have := (l.running_stopEach _).symm.trans hr
    cases this

theorem Agrees.destroyCache (a : Agrees c none none) (l : Linked c) (name : String) :
    Agrees (c.destroyCache name).2 none none := by
  cases hreg : c.registry.contains name with
  | false =>
      have hsame : c.destroyCache name = (false, c) := by simp [Cluster.destroyCache, hreg]
      rw [hsame]
      exact a
  | true =>
      rw [destroyCache_eq hreg]
      have l₀ : Linked { c with registry := c.registry.erase name } := by
        refine l.withRegistry (fun {n config} hn => ?_) c.publisher
        rw [Table.get?_erase] at hn
        split at hn
        · cases hn
        · exact l.keyed hn
      have hsteps := steps_deactivateEach name c.running.keys
        { c with registry := c.registry.erase name }
      have hregistry := registry_deactivateEach name c.running.keys
        { c with registry := c.registry.erase name }
      have hrun := running_deactivateEach (c := { c with registry := c.registry.erase name }) name
      constructor
      · intro j h n i hr hi
        -- the destroyed cache is not among what a node has started, and the others stay registered
        have hr' := (hrun j).symm.trans hr
        obtain ⟨h₀, hr₀, rfl⟩ := Option.map_eq_some_iff.mp hr'
        rw [Table.get?_erase] at hi
        split at hi
        · cases hi
        · next hne =>
          obtain ⟨e, he, hc⟩ := a.current hr₀ hi
          obtain ⟨e', he', hconfig⟩ := (hsteps.precedes l₀).config he
          refine ⟨e', he', ?_⟩
          show Table.get? (deactivateEach _ _ _).registry n = _
          rw [hregistry, hconfig]
          show (c.registry.erase name).get? n = _
          rw [Table.get?_erase, if_neg hne, hc]
      · intro j h n config hl hn hr hc
        have hr' := (hrun j).symm.trans hr
        obtain ⟨h₀, hr₀, -⟩ := Option.map_eq_some_iff.mp hr'
        have hc' : (c.registry.erase name).get? n = some config := by
          rw [← hc]
          exact congrArg (fun t : Table String CacheConfig => t.get? n) hregistry.symm
        rw [Table.get?_erase] at hc'
        split at hc'
        · cases hc'
        · next hne =>
          obtain ⟨k, i, hk, hi⟩ := a.complete hl hn hr₀ hc'
          have hkept : (k.caches.erase name).get? n = some i := by
            rw [Table.get?_erase, if_neg hne, hi]
          exact ⟨_, i, (hrun j).trans (congrArg _ hk), hkept⟩

theorem Agrees.destroyFrom (a : Agrees c none none) (l : Linked c) (id : MemberId)
    (name : String) : Agrees (c.destroyFrom id name).2 none none := by
  unfold Cluster.destroyFrom
  cases c.ensureRunning id with
  | error => exact a
  | ok h => exact a.destroyCache l name

/-! ## Caches that are created -/

theorem Agrees.createCache (a : Agrees c none none) (l : Linked c) (creator : MemberId)
    (config : CacheConfig) : Agrees (c.createCache creator config).2 none none := by
  unfold Cluster.createCache
  cases config.check with
  | error => exact a
  | ok u =>
      dsimp only
      split
      · exact a
      · split
        · exact a
        · next free =>
          rw [Bool.not_eq_true, Table.contains_eq_false_iff] at free
          exact ((a.register free).propagate (l.step (.register c free))
            (Table.get?_insert_self _ _ _)).2

theorem Agrees.createFrom (a : Agrees c none none) (l : Linked c) (id : MemberId)
    (config : CacheConfig) : Agrees (c.createFrom id config).2 none none := by
  have hcreate := a.createCache l id config
  unfold Cluster.createFrom
  cases c.ensureRunning id with
  | error => exact a
  | ok h =>
      dsimp only
      cases hc : c.createCache id config with
      | mk r c' =>
          rw [hc] at hcreate
          cases r <;> exact hcreate

theorem Agrees.getOrCreate (a : Agrees c none none) (l : Linked c) (id : MemberId)
    (config : CacheConfig) : Agrees (c.getOrCreate id config).2 none none := by
  have hcreate := a.createFrom l id config
  unfold Cluster.getOrCreate
  cases c.cacheOn id config.name with
  | ok => exact a
  | error err =>
      dsimp only
      split
      · next hc => rw [hc] at hcreate; exact hcreate
      · exact hcreate

/-! ## Deployments -/

theorem Agrees.startNodes (ns : List NodeConfig) :
    ∀ {c : Cluster}, Agrees c none none → Linked c → Agrees (c.startNodes ns).2 none none := by
  induction ns with
  | nil => intro c a _; exact a
  | cons n rest ih =>
      intro c a l
      have hstart := (a.startNode l n).1
      have hdeeds := l.deeds_startNode n
      unfold Cluster.startNodes
      cases hs : c.startNode n with
      | mk r c' =>
          rw [hs] at hstart hdeeds
          cases r with
          | error => exact hstart
          | ok id => exact ih hstart (l.deeds hdeeds)

theorem Agrees.createLate (ls : List LateCache) :
    ∀ {c : Cluster}, Agrees c none none → Linked c → Agrees (c.createLate ls).2 none none := by
  induction ls with
  | nil => intro c a _; exact a
  | cons late rest ih =>
      intro c a l
      unfold Cluster.createLate
      cases c.node late.creator with
      | error => exact a
      | ok id =>
          have hcreate := a.createFrom l id late.cache
          have hdeeds := deeds_createFrom c id late.cache
          dsimp only
          cases hc : c.createFrom id late.cache with
          | mk r c' =>
              rw [hc] at hcreate hdeeds
              cases r with
              | error => exact hcreate
              | ok i => exact ih hcreate (l.deeds hdeeds)

theorem Agrees.apply (a : Agrees c none none) (l : Linked c) (d : Deployment) :
    Agrees (c.apply d).2 none none := by
  unfold Cluster.apply
  cases d.check with
  | error => exact a
  | ok u =>
      have hstart := Agrees.startNodes d.nodes a l
      have hdeeds := Linked.deeds_startNodes d.nodes l
      dsimp only
      cases hs : c.startNodes d.nodes with
      | mk r c' =>
          rw [hs] at hstart hdeeds
          cases r with
          | error => exact hstart
          | ok ids => exact Agrees.createLate d.lateCaches hstart (l.deeds hdeeds)

/-- Reading and writing through endpoints does not concern the registry. -/
theorem Agrees.withFabric (a : Agrees c none none) {f : Fabric} (hs : c.fabric.Serves f) :
    Agrees { c with fabric := f } none none where
  current hr hi := by
    obtain ⟨e, he, hc⟩ := a.current hr hi
    obtain ⟨e', he', hconfig⟩ := hs.precedes.config he
    exact ⟨e', he', by rw [hconfig]; exact hc⟩
  complete := a.complete

end Cluster

end NearCache
