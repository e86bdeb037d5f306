import NearCache.Proofs.Cluster.Roster

/-!
# What a deployment adds to the registry

A registry never forgets while nodes start and caches are created. It takes the caches that come
along in their order, and of each name the first (`Cluster.Gains`); a cache that comes too late is
served under the configuration that stands. So the registry after a deployment can be read off its
file, nodes first, and each operation below adds its own part of it.
-/

namespace NearCache

namespace Deployment

/-- The caches that the nodes bring along. -/
def statics (d : Deployment) : List CacheConfig := d.nodes.flatMap NodeConfig.staticCaches

/-- The caches that nodes create once all run. -/
def lates (d : Deployment) : List CacheConfig := d.lateCaches.map LateCache.cache

end Deployment

namespace Cluster

/-- The registry of `c'` is that of `c` and what was added to it. A name that is registered keeps
its configuration, any other gets the first that is added. -/
def Gains (c c' : Cluster) (configs : List CacheConfig) : Prop :=
  ∀ name, c'.registry.get? name = (c.registry.get? name).or (configs.find? (·.name = name))

variable {c c' c'' : Cluster}

namespace Gains

theorem of_registry_eq (h : c'.registry = c.registry) : Gains c c' [] := by
  intro name
  rw [h]
  exact Option.or_none.symm

theorem append {xs ys : List CacheConfig} (h : Gains c c' xs) (h' : Gains c' c'' ys) :
    Gains c c'' (xs ++ ys) := by
  intro name
  rw [h', h, List.find?_append, Option.or_assoc]

theorem cons {config : CacheConfig} {rest : List CacheConfig} (h : Gains c c' [config])
    (h' : Gains c' c'' rest) : Gains c c'' (config :: rest) :=
  h.append h'

/-- A configuration that is added under a free name. -/
theorem single {config : CacheConfig} (free : c.registry.get? config.name = none)
    (h : c'.registry = c.registry.insert config.name config) : Gains c c' [config] := by
  intro name
  rw [h, Table.get?_insert, List.find?_singleton]
  by_cases hname : name = config.name
  · rw [if_pos hname, hname, free, decide_eq_true rfl]
    rfl
  · rw [if_neg hname, decide_eq_false (Ne.symm hname)]
    exact Option.or_none.symm

/-- A name stays free if it is not among what is added. -/
theorem get?_eq_none_iff {configs : List CacheConfig} (h : Gains c c' configs) (name : String) :
    c'.registry.get? name = none ↔
      c.registry.get? name = none ∧ ∀ config ∈ configs, config.name ≠ name := by
  rw [h, Option.or_eq_none_iff, List.find?_eq_none]
  simp only [decide_eq_true_eq]

end Gains

/-! ## Starting what is registered -/

theorem registry_activateEach (config : CacheConfig) (ids : List MemberId) :
    ∀ c : Cluster, (c.activateEach config ids).registry = c.registry := by
  induction ids with
  | nil => intro c; rfl
  | cons id ids ih =>
      intro c
      exact (ih _).trans (registry_activateRegistered c id config .dynamic)

theorem registry_propagate (c : Cluster) (config : CacheConfig) (skip : Option MemberId) :
    (c.propagate config skip).registry = c.registry :=
  registry_activateEach config _ c

theorem registry_startJoined (id : MemberId) (configs : List CacheConfig) :
    ∀ c : Cluster, (c.startJoined id configs).2.registry = c.registry := by
  induction configs with
  | nil => intro c; rfl
  | cons config rest ih =>
      intro c
      have hactivate := registry_activateRegistered c id config .join
      unfold startJoined
      cases ha : c.activateRegistered id config .join with
      | mk r c' =>
          rw [ha] at hactivate
          cases r with
          | error => exact hactivate
          | ok => exact (ih c').trans hactivate

/-! ## What each operation adds -/

theorem gains_registerStatic (c : Cluster) (config : CacheConfig) :
    Gains c (c.registerStatic config).2 [config] := by
  unfold registerStatic
  cases hc : c.registry.get? config.name with
  | none => exact .single hc rfl
  | some first =>
      intro name
      rw [List.find?_singleton]
      by_cases hname : config.name = name
      · rw [← hname, hc]
        rfl
      · rw [decide_eq_false hname]
        exact Option.or_none.symm

theorem gains_startStatic {id : MemberId} (configs : List CacheConfig) :
    ∀ {c : Cluster}, c.startStatic id configs = (.ok (), c') → Gains c c' configs := by
  induction configs with
  | nil =>
      intro c h
      cases h
      exact .of_registry_eq rfl
  | cons config rest ih =>
      intro c h
      have hregister := gains_registerStatic c config
      unfold startStatic at h
      cases hs : c.registerStatic config with
      | mk effective c₁ =>
          rw [hs] at h hregister
          have hactivate := registry_activateRegistered c₁ id effective .static
          dsimp only at h
          cases ha : c₁.activateRegistered id effective .static with
          | mk r c₂ =>
              rw [ha] at h hactivate
              cases r with
              | error => cases h
              | ok =>
                  have hrest := ih h
                  -- starting the cache here and there leaves the registry alone
                  have hkept := (registry_propagate c₂ effective (some id)).trans hactivate
                  refine hregister.cons fun name => ?_
                  rw [hrest, hkept]

theorem gains_startNode {n : NodeConfig} {id : MemberId} (h : c.startNode n = (.ok id, c')) :
    Gains c c' n.staticCaches := by
  obtain ⟨c₁, c₂, henrol, hstatic, hjoined⟩ := startNode_eq_ok h
  have hkept := registry_startJoined id c₂.registry.values c₂
  rw [hjoined] at hkept
  obtain ⟨-, -, rfl⟩ := enrol_eq_ok henrol
  intro name
  exact (congrArg (·.get? name) hkept).trans (gains_startStatic _ hstatic name)

theorem gains_startNodes (ns : List NodeConfig) :
    ∀ {c : Cluster} {ids : List MemberId}, c.startNodes ns = (.ok ids, c') →
      Gains c c' (ns.flatMap NodeConfig.staticCaches) := by
  induction ns with
  | nil =>
      intro c ids h
      cases h
      exact .of_registry_eq rfl
  | cons n rest ih =>
      intro c ids h
      obtain ⟨id, c₁, ids', hstart, hrest, rfl⟩ := startNodes_cons_eq_ok h
      rw [List.flatMap_cons]
      exact (gains_startNode hstart).append (ih hrest)

/-- A cache is created only under a free name. -/
theorem createCache_eq_ok {creator : MemberId} {config : CacheConfig}
    (h : c.createCache creator config = (.ok (), c')) :
    c.registry.get? config.name = none ∧
      c' = { c with registry := c.registry.insert config.name config }.propagate config none := by
  unfold createCache at h
  split at h
  · cases h
  · split at h
    · cases h
    · split at h
      · cases h
      · next free =>
        cases h
        rw [Bool.not_eq_true, Table.contains_eq_false_iff] at free
        exact ⟨free, rfl⟩

theorem createFrom_eq_ok {id : MemberId} {config : CacheConfig} {i : EndpointId}
    (h : c.createFrom id config = (.ok i, c')) : c.createCache id config = (.ok (), c') := by
  unfold createFrom at h
  split at h
  · cases h
  · split at h
    · cases h
    · next c₁ hcreate =>
      obtain ⟨-, rfl⟩ := Prod.mk.inj h
      exact hcreate

theorem gains_createFrom {id : MemberId} {config : CacheConfig} {i : EndpointId}
    (h : c.createFrom id config = (.ok i, c')) :
    c.registry.get? config.name = none ∧ Gains c c' [config] := by
  obtain ⟨free, rfl⟩ := createCache_eq_ok (createFrom_eq_ok h)
  exact ⟨free, .single free (registry_propagate _ config none)⟩

/-- Late caches are created one after the other. -/
theorem createLate_cons_eq_ok {l : LateCache} {rest : List LateCache}
    (h : c.createLate (l :: rest) = (.ok (), c')) :
    ∃ id i c₁, c.node l.creator = .ok id ∧ c.createFrom id l.cache = (.ok i, c₁) ∧
      c₁.createLate rest = (.ok (), c') := by
  unfold createLate at h
  cases hnode : c.node l.creator with
  | error =>
      rw [hnode] at h
      cases h
  | ok id =>
      rw [hnode] at h
      dsimp only at h
      cases hcreate : c.createFrom id l.cache with
      | mk r c₁ =>
          rw [hcreate] at h
          cases r with
          | error => cases h
          | ok i => exact ⟨id, i, c₁, rfl, hcreate, h⟩

theorem gains_createLate (ls : List LateCache) :
    ∀ {c : Cluster}, c.createLate ls = (.ok (), c') →
      Gains c c' (ls.map LateCache.cache) := by
  induction ls with
  | nil =>
      intro c h
      cases h
      exact .of_registry_eq rfl
  | cons l rest ih =>
      intro c h
      obtain ⟨id, i, c₁, -, hcreate, hrest⟩ := createLate_cons_eq_ok h
      exact (gains_createFrom hcreate).2.cons (ih hrest)

/-- A deployment that succeeds adds the caches of its nodes and then its late caches. -/
theorem gains_apply {d : Deployment} {ids : List MemberId} (h : c.apply d = (.ok ids, c')) :
    Gains c c' (d.statics ++ d.lates) := by
  obtain ⟨c₁, hstart, hlate⟩ := apply_eq_ok h
  exact (gains_startNodes d.nodes hstart).append (gains_createLate d.lateCaches hlate)

end Cluster

end NearCache
