import NearCache.Proofs.Cluster.Origins
import NearCache.Proofs.Publishing.Propagation

/-!
# What a cluster does, whoever listens

Two clusters that are beside each other are asked for the same, each about the node of the same rank.
Every operation gets the same answer from both, up to numbers, and leaves them beside each other
(`BesideWith`). For what is told is told in passing: no operation stops or turns because a sink has
failed, and none but propagation looks at the order of nodes.
-/

namespace NearCache

namespace Cluster

variable {S T : Setting} {kept : Prop} {c c' d d' : Cluster} {a b : MemberId}

theorem SameMember.rank?_eq (h : SameMember c d a b) : d.rank? b = c.rank? a := by
  obtain ⟨n, ha, hb⟩ := h
  rw [ha, hb]

/-- A member is left out in one cluster if it is left out in the other. -/
theorem SameMember.some_eq_iff (hab : SameMember c d a b) {x y : MemberId}
    (hxy : SameMember c d x y) : some x = some a ↔ some y = some b := by
  obtain ⟨n, ha, hb⟩ := hab
  rw [Option.some.injEq, Option.some.injEq]
  exact Renumbered.eq_iff_eq ha (hb.trans ha.symm) hxy.rank?_eq

namespace Beside

/-- A member that has joined stays the same member. -/
theorem sameMember (h : Beside S T kept c d) (h' : Beside S T kept c' d')
    (hj : c.joined ≤ c'.joined) (hab : SameMember c d a b) : SameMember c' d' a b := by
  obtain ⟨n, ha, hb⟩ := hab
  obtain ⟨hn, rfl⟩ := of_rank?_eq_some ha
  obtain ⟨-, rfl⟩ := of_rank?_eq_some hb
  have hn' := Nat.lt_of_lt_of_le hn hj
  refine ⟨n, ?_, ?_⟩
  · rw [h.ids, ← h'.ids, rank?_memberIds h'.linked.distinct hn']
  · rw [h.ids', ← h'.ids', rank?_memberIds h'.linked'.distinct (h'.renumbered.joined ▸ hn')]

/-! ## Looking at a cluster -/

theorem ensureRunning (h : Beside S T kept c d) (hab : d.rank? b = c.rank? a) :
    (∃ fault fault', c.ensureRunning a = .error fault ∧ d.ensureRunning b = .error fault' ∧
        SameFault c d fault fault') ∨
      ∃ k k', c.running.get? a = some k ∧ c.ensureRunning a = .ok k ∧ d.ensureRunning b = .ok k' ∧
        k'.unnumbered d.fabric = k.unnumbered c.fabric := by
  rcases h.renumbered.host_cases hab with ⟨ha, hb⟩ | ⟨k, k', ha, hb, hsame⟩
  · left
    unfold Cluster.ensureRunning
    rw [ha, hb]
    exact ⟨_, _, rfl, rfl, .nodeNotFound hab⟩
  · obtain ⟨hmember, -, hstopped⟩ := Host.unnumbered_eq_iff.mp hsame
    rw [ensureRunning_eq ha, ensureRunning_eq hb, hstopped,
      Member.name_eq_of_unnumbered_eq hmember]
    cases hs : k.stopped with
    | true => exact Or.inl ⟨_, _, rfl, rfl, .same _⟩
    | false => exact Or.inr ⟨k, k', running_eq_some_iff.mpr ⟨ha, hs⟩, rfl, rfl, hsame⟩

theorem cacheOn (h : Beside S T kept c d) (hab : d.rank? b = c.rank? a) (name : String) :
    SameOutcome c d (SameEndpoint c d) (c.cacheOn a name) (d.cacheOn b name) := by
  unfold Cluster.cacheOn
  rcases h.ensureRunning hab with ⟨_, _, ha, hb, hfault⟩ | ⟨k, k', hr, ha, hb, hsame⟩
  · rw [ha, hb]
    exact .error hfault
  · rw [ha, hb]
    dsimp only [bind, Except.bind]
    rcases Renumbered.cache_cases hsame name with ⟨hi, hj⟩ | ⟨i, j, hi, hj, hplace⟩
    · rw [hi, hj]
      exact .error (.same _)
    · rw [hi, hj]
      obtain ⟨e, he, -⟩ := h.linked.hosted (running_eq_some_iff.mp hr).1 hi
      have hp := Fabric.place?_of_endpoint he
      exact .ok ⟨_, hp, hplace.trans hp⟩

/-! ## Starting nodes -/

/-- The next node enrols in both clusters or in neither. -/
theorem enrol (h : Beside S T kept c d) (n : NodeConfig) :
    (∃ fault, c.enrol n = .error fault ∧ d.enrol n = .error fault) ∨
      ∃ a b c' d', c.enrol n = .ok (a, c') ∧ d.enrol n = .ok (b, d') ∧ Beside S T kept c' d' ∧
        SameMember c' d' a b := by
  have hr := h.renumbered
  rw [enrol_eq, enrol_eq, hr.any_name]
  cases n.check with
  | error fault => exact Or.inl ⟨fault, rfl, rfl⟩
  | ok u =>
      dsimp only
      split
      · exact Or.inl ⟨_, rfl, rfl⟩
      · next free =>
        have hstep : ∀ {c : Cluster}, c.roster.any (·.name = n.name) ≠ true →
            Step c (c.enrolling n) := fun hfree => .enrol _ rfl fun m hm hname =>
          hfree (List.any_eq_true.mpr ⟨m, hm, decide_eq_true hname⟩)
        have henrol := h.steps (.single (hstep free)) (.single (hstep (hr.any_name _ ▸ free)))
          (hr.enrolling h.linked h.linked' n) rfl rfl
        refine Or.inr ⟨_, _, _, _, rfl, rfl, henrol.publish _, c.joined, ?_, ?_⟩
        · exact (rank?_enrolling h.linked.distinct n _).trans (if_pos rfl)
        · rw [← hr.joined]
          exact (rank?_enrolling h.linked'.distinct n _).trans (if_pos rfl)

theorem register (h : Beside S T kept c d) {config : CacheConfig}
    (free : c.registry.get? config.name = none) :
    Beside S T kept { c with registry := c.registry.insert config.name config }
      { d with registry := c.registry.insert config.name config } := by
  have hstep : Step d { d with registry := d.registry.insert config.name config } :=
    .register d (h.renumbered.registry.symm ▸ free)
  rw [h.renumbered.registry] at hstep
  exact h.steps (.single (.register c free)) (.single hstep) (h.renumbered.withRegistry _) rfl rfl

theorem registerStatic (h : Beside S T kept c d) (config : CacheConfig) :
    BesideWith S T kept (fun _ _ => Eq) (c.registerStatic config) (d.registerStatic config) := by
  unfold Cluster.registerStatic
  rw [h.renumbered.registry]
  cases hc : c.registry.get? config.name with
  | some first => exact ⟨h, rfl⟩
  | none => exact ⟨h.register hc, rfl⟩

theorem startStatic (configs : List CacheConfig) : ∀ {c d : Cluster}, Beside S T kept c d →
    SameMember c d a b →
      BesideWith S T kept (fun c d => SameOutcome c d Eq) (c.startStatic a configs)
        (d.startStatic b configs) := by
  induction configs with
  | nil => intro c d h _; exact ⟨h, .ok rfl⟩
  | cons config rest ih =>
      intro c d h hab
      have hregistered := (h.linked.registerStatic config).2
      have hstaff := staff_registerStatic c config
      obtain ⟨effective, _, c₁, d₁, hec, hed, h₁, rfl⟩ := (h.registerStatic config).cases
      rw [hec] at hregistered hstaff
      have hab₁ := h.sameMember h₁ (congrArg Prod.snd hstaff).ge hab
      have hregistry := registry_activateRegistered c₁ a effective .static
      have hstaff₁ := staff_activateRegistered c₁ a effective .static
      obtain ⟨r, r', c₂, d₂, hrc, hrd, h₂, hsame⟩ :=
        (h₁.activateRegistered hab₁.rank?_eq hregistered .static).cases
      rw [hrc] at hregistry hstaff₁
      have hab₂ := h₁.sameMember h₂ (congrArg Prod.snd hstaff₁).ge hab₁
      simp only [Cluster.startStatic, hec, hed, hrc, hrd]
      cases hsame with
      | error hfault => exact ⟨h₂, .error hfault⟩
      | ok =>
          -- the node that starts is the one that propagation leaves out
          have hprop := h₂.propagate (hregistry.symm ▸ hregistered) (some a) (some b)
            hab₂.some_eq_iff
          have hstaff₂ := staff_propagate c₂ effective (some a)
          exact ih hprop (h₂.sameMember hprop (congrArg Prod.snd hstaff₂).ge hab₂)

theorem startJoined (configs : List CacheConfig) : ∀ {c d : Cluster}, Beside S T kept c d →
    SameMember c d a b → (∀ config ∈ configs, c.registry.get? config.name = some config) →
      BesideWith S T kept (fun c d => SameOutcome c d Eq) (c.startJoined a configs)
        (d.startJoined b configs) := by
  induction configs with
  | nil => intro c d h _ _; exact ⟨h, .ok rfl⟩
  | cons config rest ih =>
      intro c d h hab hc
      have hregistry := registry_activateRegistered c a config .join
      have hstaff := staff_activateRegistered c a config .join
      obtain ⟨r, r', c₁, d₁, hrc, hrd, h₁, hsame⟩ :=
        (h.activateRegistered hab.rank?_eq (hc config List.mem_cons_self) .join).cases
      rw [hrc] at hregistry hstaff
      simp only [Cluster.startJoined, hrc, hrd]
      cases hsame with
      | error hfault => exact ⟨h₁, .error hfault⟩
      | ok =>
          refine ih h₁ (h.sameMember h₁ (congrArg Prod.snd hstaff).ge hab) fun config' hmem => ?_
          exact hregistry ▸ hc config' (List.mem_cons_of_mem _ hmem)

theorem startNode (h : Beside S T kept c d) (n : NodeConfig) :
    BesideWith S T kept (fun c d => SameOutcome c d (SameMember c d)) (c.startNode n)
      (d.startNode n) := by
  unfold Cluster.startNode
  rcases h.enrol n with ⟨fault, hc, hd⟩ | ⟨a, b, c₁, d₁, hc, hd, h₁, hab⟩
  · rw [hc, hd]
    exact ⟨h, .error (.same fault)⟩
  · have hstaff := staff_startStatic a n.staticCaches c₁
    obtain ⟨r, r', c₂, d₂, hrc, hrd, h₂, hsame⟩ := (startStatic n.staticCaches h₁ hab).cases
    rw [hrc] at hstaff
    rw [hc, hd]
    dsimp only
    rw [hrc, hrd]
    cases hsame with
    | error hfault => exact ⟨h₂, .error hfault⟩
    | ok =>
        have hab₂ := h₁.sameMember h₂ (congrArg Prod.snd hstaff).ge hab
        have hstaff₂ := staff_startJoined a c₂.registry.values c₂
        obtain ⟨r, r', c₃, d₃, hrc, hrd, h₃, hsame⟩ :=
          (startJoined c₂.registry.values h₂ hab₂ fun _ => h₂.linked.registered_of_mem).cases
        rw [hrc] at hstaff₂
        dsimp only
        rw [h₂.renumbered.registry, hrc, hrd]
        cases hsame with
        | error hfault => exact ⟨h₃, .error hfault⟩
        | ok => exact ⟨h₃, .ok (h₂.sameMember h₃ (congrArg Prod.snd hstaff₂).ge hab₂)⟩

/-! ## Stopping nodes -/

theorem stopNode (h : Beside S T kept c d) (hab : d.rank? b = c.rank? a) :
    BesideWith S T kept (fun c d => SameOutcome c d Eq) (c.stopNode a) (d.stopNode b) := by
  rcases h.renumbered.running_cases hab with ⟨ha, hb⟩ | ⟨k, k', ha, hb, hsame⟩
  · rw [stopNode_eq_self ha, stopNode_eq_self hb]
    exact ⟨h, .error (.nodeNotFound hab)⟩
  · have hname := Member.name_eq_of_unnumbered_eq (Host.unnumbered_eq_iff.mp hsame).1
    rw [stopNode_eq_stopping ha, stopNode_eq_stopping hb, hname]
    have hstop := h.steps (.single (.stop c ha)) (.single (.stop d hb))
      (h.renumbered.stopping h.linked h.linked' hab (running_eq_some_iff.mp ha).1 hsame) rfl rfl
    exact ⟨hstop.publish _, .ok rfl⟩

theorem stopEach {ms : List Member} : ∀ {ms' : List Member} {c d : Cluster},
    Beside S T kept c d → List.Forall₂ (fun m m' => d.rank? m'.id = c.rank? m.id) ms ms' →
      Beside S T kept (c.stopEach ms) (d.stopEach ms') := by
  induction ms with
  | nil =>
      intro ms' c d h hranks
      cases hranks
      exact h
  | cons m ms ih =>
      intro ms' c d h hranks
      obtain ⟨m', rest, hm, hrest, rfl⟩ := List.forall₂_cons_left_iff.mp hranks
      have hstop := (h.stopNode hm).1
      show Beside S T kept ((c.stopNode m.id).2.stopEach ms) ((d.stopNode m'.id).2.stopEach rest)
      exact ih hstop (hrest.imp fun _ _ => h.rank?_eq hstop (joined_stopNode c m.id))

theorem stopAll (h : Beside S T kept c d) : Beside S T kept c.stopAll d.stopAll := by
  -- members leave in the order in which they joined, which no number changes
  have hroster : List.Forall₂ (fun m m' => d.rank? m'.id = c.rank? m.id) c.roster d.roster := by
    have hentries : List.Forall₂ Eq (c.roster.map c.entry) (d.roster.map d.entry) := by
      rw [h.renumbered.roster]
      exact List.forall₂_same.mpr fun _ _ => rfl
    rw [List.forall₂_map_left_iff, List.forall₂_map_right_iff] at hentries
    exact hentries.imp fun _ _ heq => (congrArg Prod.fst heq).symm
  have hstop := stopEach h hroster
  have hr := hstop.renumbered
  have hdrop := (hr.withFabric hstop.linked hstop.linked' (hr.fabric.destroyEach _)
    (Fabric.keepsPlaces_destroyEach (c.stopEach c.roster).registry.keys _)
    (Fabric.keepsPlaces_destroyEach _ _)).withRegistry ∅
  have hnames : d.stopAll =
      { d.stopEach d.roster with
        fabric := (c.stopEach c.roster).registry.keys.foldl (fun f name => f.destroy name)
          (d.stopEach d.roster).fabric
        registry := ∅ } := by
    rw [← hr.registry]
    rfl
  exact { hstop with
    linked := h.linked.deeds h.linked.deeds_stopAll
    linked' := h.linked'.deeds h.linked'.deeds_stopAll
    renumbered := hnames ▸ hdrop }

/-! ## Creating and destroying caches -/

theorem createCache (h : Beside S T kept c d) (hab : d.rank? b = c.rank? a)
    (config : CacheConfig) :
    BesideWith S T kept (fun c d => SameOutcome c d Eq) (c.createCache a config)
      (d.createCache b config) := by
  unfold Cluster.createCache
  rw [h.renumbered.isNone_byId? h.linked h.linked' hab, h.renumbered.registry]
  cases config.check with
  | error fault => exact ⟨h, .error (.same fault)⟩
  | ok u =>
      dsimp only
      split
      · exact ⟨h, .error (.nodeNotFound hab)⟩
      · split
        · exact ⟨h, .error (.same _)⟩
        · next free =>
          have hfree : c.registry.get? config.name = none :=
            Table.contains_eq_false_iff.mp (Bool.eq_false_iff.mpr free)
          refine ⟨(h.register hfree).propagate (Table.get?_insert_self _ _ _) _ _ fun _ => ?_,
            .ok rfl⟩
          exact iff_of_false (Option.some_ne_none _) (Option.some_ne_none _)

theorem createFrom (h : Beside S T kept c d) (hab : d.rank? b = c.rank? a)
    (config : CacheConfig) :
    BesideWith S T kept (fun c d => SameOutcome c d (SameEndpoint c d)) (c.createFrom a config)
      (d.createFrom b config) := by
  have hstaff := staff_createCache c a config
  unfold Cluster.createFrom
  rcases h.ensureRunning hab with ⟨_, _, ha, hb, hfault⟩ | ⟨k, k', -, ha, hb, -⟩
  · rw [ha, hb]
    exact ⟨h, .error hfault⟩
  · obtain ⟨r, r', c', d', hrc, hrd, h', hsame⟩ := (h.createCache hab config).cases
    rw [hrc] at hstaff
    rw [ha, hb]
    dsimp only
    rw [hrc, hrd]
    cases hsame with
    | error hfault => exact ⟨h', .error hfault⟩
    | ok => exact ⟨h', h'.cacheOn (h.rank?_eq h' (congrArg Prod.snd hstaff) hab) config.name⟩

theorem getOrCreate (h : Beside S T kept c d) (hab : d.rank? b = c.rank? a)
    (config : CacheConfig) :
    BesideWith S T kept (fun c d => SameOutcome c d (SameEndpoint c d)) (c.getOrCreate a config)
      (d.getOrCreate b config) := by
  have hstaff := staff_createFrom c a config
  have hcached := h.cacheOn hab config.name
  unfold Cluster.getOrCreate
  cases hc : c.cacheOn a config.name with
  | ok i =>
      rw [hc] at hcached
      cases hd : d.cacheOn b config.name with
      | ok j => rw [hd] at hcached; exact ⟨h, hcached⟩
      | error => rw [hd] at hcached; cases hcached
  | error =>
      rw [hc] at hcached
      cases hd : d.cacheOn b config.name with
      | ok j => rw [hd] at hcached; cases hcached
      | error =>
          obtain ⟨r, r', c', d', hrc, hrd, h', hsame⟩ := (h.createFrom hab config).cases
          rw [hrc] at hstaff
          dsimp only
          rw [hrc, hrd]
          cases hsame with
          | ok hplace => exact ⟨h', .ok hplace⟩
          | @error fault fault' hfault =>
              have hlooked := h'.cacheOn (h.rank?_eq h' (congrArg Prod.snd hstaff) hab) config.name
              cases hfault with
              | nodeNotFound rank => exact ⟨h', .error (.nodeNotFound rank)⟩
              | same =>
                  -- only when somebody else was faster the node's endpoint is looked up
                  cases fault <;> first | exact ⟨h', hlooked⟩ | exact ⟨h', .error (.same _)⟩

theorem publisher_deactivateEach (name : String) (ids : List MemberId) : ∀ c : Cluster,
    (c.deactivateEach name ids).publisher = c.publisher := by
  induction ids with
  | nil => intro c; rfl
  | cons a ids ih =>
      intro c
      refine (ih (c.deactivateOn a name)).trans ?_
      unfold Cluster.deactivateOn
      split <;> rfl

theorem destroyCache (h : Beside S T kept c d) (name : String) :
    BesideWith S T kept (fun _ _ => Eq) (c.destroyCache name) (d.destroyCache name) := by
  have hregistry := h.renumbered.registry
  cases hc : c.registry.contains name with
  | false =>
      have hd : d.registry.contains name = false := hregistry.symm ▸ hc
      simp only [Cluster.destroyCache, hc, hd]
      exact ⟨h, rfl⟩
  | true =>
      have hd : d.registry.contains name = true := hregistry.symm ▸ hc
      rw [destroyCache_eq hc, destroyCache_eq hd]
      -- the cache goes from the registry, from the nodes and from the store
      have hstep : ∀ c : Cluster, Step c { c with registry := c.registry.erase name } := by
        intro c
        refine .unregister c fun {n config} hn => ?_
        rw [Table.get?_erase] at hn
        split at hn
        · cases hn
        · exact hn
      have hfewer : Renumbered { c with registry := c.registry.erase name }
          { d with registry := d.registry.erase name } := by
        rw [hregistry]
        exact h.renumbered.withRegistry _
      have hunregister := h.steps (.single (hstep c)) (.single (hstep d)) hfewer rfl rfl
      have htaken := hunregister.steps (steps_deactivateEach name c.running.keys _)
        (steps_deactivateEach name d.running.keys _)
        (hfewer.deactivateEach hunregister.linked hunregister.linked' name)
        (publisher_deactivateEach ..) (publisher_deactivateEach ..)
      have hdrop := htaken.steps (.single (.drop _ (hunregister.linked.idle_deactivateEach name)))
        (.single (.drop _ (hunregister.linked'.idle_deactivateEach name)))
        (htaken.renumbered.withFabric htaken.linked htaken.linked'
          (htaken.renumbered.fabric.destroy name) (.of_eq fun _ => rfl) (.of_eq fun _ => rfl))
        rfl rfl
      exact ⟨hdrop.publish _, rfl⟩

theorem destroyFrom (h : Beside S T kept c d) (hab : d.rank? b = c.rank? a) (name : String) :
    BesideWith S T kept (fun c d => SameOutcome c d Eq) (c.destroyFrom a name)
      (d.destroyFrom b name) := by
  unfold Cluster.destroyFrom
  rcases h.ensureRunning hab with ⟨_, _, ha, hb, hfault⟩ | ⟨k, k', -, ha, hb, -⟩
  · rw [ha, hb]
    exact ⟨h, .error hfault⟩
  · obtain ⟨found, _, c', d', hrc, hrd, h', rfl⟩ := (h.destroyCache name).cases
    rw [ha, hb]
    dsimp only
    rw [hrc, hrd]
    exact ⟨h', .ok rfl⟩

/-! ## Deployments -/

theorem startNodes (ns : List NodeConfig) : ∀ {c d : Cluster}, Beside S T kept c d →
    BesideWith S T kept (fun c d => SameOutcome c d (List.Forall₂ (SameMember c d)))
      (c.startNodes ns) (d.startNodes ns) := by
  induction ns with
  | nil => intro c d h; exact ⟨h, .ok .nil⟩
  | cons n rest ih =>
      intro c d h
      obtain ⟨r, r', c₁, d₁, hrc, hrd, h₁, hsame⟩ := (h.startNode n).cases
      simp only [Cluster.startNodes, hrc, hrd]
      cases hsame with
      | error hfault => exact ⟨h₁, .error hfault⟩
      | ok hab =>
          have hjoined := ((Linked.deeds_startNodes rest h₁.linked).steps h₁.linked).joined_le
          obtain ⟨r, r', c₂, d₂, hrc, hrd, h₂, hsame⟩ := (ih h₁).cases
          rw [hrc] at hjoined
          dsimp only
          rw [hrc, hrd]
          cases hsame with
          | error hfault => exact ⟨h₂, .error hfault⟩
          | ok hrest => exact ⟨h₂, .ok (.cons (h₁.sameMember h₂ hjoined hab) hrest)⟩

theorem createLate (ls : List LateCache) : ∀ {c d : Cluster}, Beside S T kept c d →
    BesideWith S T kept (fun c d => SameOutcome c d Eq) (c.createLate ls) (d.createLate ls) := by
  induction ls with
  | nil => intro c d h; exact ⟨h, .ok rfl⟩
  | cons l rest ih =>
      intro c d h
      unfold Cluster.createLate
      rcases h.renumbered.node_cases h.linked h.linked' l.creator with
        ⟨hc, hd⟩ | ⟨a, b, n, hc, hd, ha, hb⟩
      · rw [hc, hd]
        exact ⟨h, .error (.same _)⟩
      · obtain ⟨r, r', c', d', hrc, hrd, h', hsame⟩ :=
          (h.createFrom (hb.trans ha.symm) l.cache).cases
        rw [hc, hd]
        dsimp only
        rw [hrc, hrd]
        cases hsame with
        | error hfault => exact ⟨h', .error hfault⟩
        | ok => exact ih h'

theorem apply (h : Beside S T kept c d) (p : Deployment) :
    BesideWith S T kept (fun c d => SameOutcome c d (List.Forall₂ (SameMember c d))) (c.apply p)
      (d.apply p) := by
  unfold Cluster.apply
  cases p.check with
  | error fault => exact ⟨h, .error (.same fault)⟩
  | ok u =>
      obtain ⟨r, r', c₁, d₁, hrc, hrd, h₁, hsame⟩ := (startNodes p.nodes h).cases
      dsimp only
      rw [hrc, hrd]
      cases hsame with
      | error hfault => exact ⟨h₁, .error hfault⟩
      | ok hids =>
          have hstaff := staff_createLate p.lateCaches c₁
          obtain ⟨r, r', c₂, d₂, hrc, hrd, h₂, hsame⟩ := (createLate p.lateCaches h₁).cases
          rw [hrc] at hstaff
          dsimp only
          rw [hrc, hrd]
          cases hsame with
          | error hfault => exact ⟨h₂, .error hfault⟩
          | ok => exact ⟨h₂, .ok (hids.imp fun _ _ => h₁.sameMember h₂ (congrArg Prod.snd hstaff).ge)⟩

end Beside

end Cluster

end NearCache
