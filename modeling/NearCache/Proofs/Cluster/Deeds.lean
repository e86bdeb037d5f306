import NearCache.Proofs.Cluster.Operations

/-!
# Operations as deeds

Without other operations between its steps, an operation of a cluster does few kinds of things one
after the other: a node enrols, a cache is registered, a registered cache starts on a node, a node
stops, a cache is destroyed, and at the end of all, what is registered is forgotten. `Cluster.Deed`
lists them. Each is a step of the program as it stands, with what it tells the world, whereas
`Cluster.Step` lists changes of the state and says nothing of what is told.

What all deeds keep, all operations keep (`deeds_startNode`, `deeds_createCache` and so on), above all
what holds a cluster together (`Linked.deeds`). The activation of a cache that is registered is
confirmed at once, so it is a deed by itself.
-/

namespace NearCache

namespace Cluster

/-- What an operation does at once. -/
inductive Deed : Cluster → Cluster → Prop where
  | enrol {c c' : Cluster} {n : NodeConfig} {id : MemberId} (joined : c.enrol n = .ok (id, c')) :
      Deed c c'
  | register (c : Cluster) {config : CacheConfig} (free : c.registry.get? config.name = none) :
      Deed c { c with registry := c.registry.insert config.name config }
  | activate (c : Cluster) (id : MemberId) {config : CacheConfig} (t : Trigger)
      (registered : c.registry.get? config.name = some config) :
      Deed c (c.activateOn id config t).2
  | stop (c : Cluster) (id : MemberId) : Deed c (c.stopNode id).2
  | destroy (c : Cluster) (name : String) : Deed c (c.destroyCache name).2
  /-- When nobody runs any more, the data of all caches are dropped and the caches forgotten. -/
  | forget (c : Cluster) (quiet : ∀ id, c.running.get? id = none) (names : List String)
      (all : ∀ {name config}, c.registry.get? name = some config → name ∈ names) :
      Deed c { c with fabric := names.foldl (fun f name => f.destroy name) c.fabric, registry := ∅ }

/-- Deeds one after the other. -/
abbrev Deeds : Cluster → Cluster → Prop := Relation.ReflTransGen Deed

variable {c c' : Cluster}

/-- A deed is a sequence of changes. -/
theorem Deed.steps (hd : Deed c c') (l : Linked c) : Steps c c' := by
  cases hd with
  | enrol joined => exact steps_enrol joined
  | register free => exact .single (.register c free)
  | activate id t registered => exact steps_activateOn c id _ t
  | stop id => exact steps_stopNode c id
  | destroy name => exact l.destroyCache name
  | forget quiet names all =>
      exact (steps_dropEach names c fun i e he => l.closed quiet he).tail
        (.unregister _ fun hn => by cases hn)

theorem Deeds.steps (hd : Deeds c c') (l : Linked c) : Steps c c' := by
  induction hd with
  | refl => exact .refl
  | tail _ hlast ih => exact ih.trans (hlast.steps (l.steps ih))

theorem Linked.deeds (l : Linked c) (hd : Deeds c c') : Linked c' := l.steps (hd.steps l)

/-! ## Activating what is registered -/

theorem deeds_activateRegistered (id : MemberId) {config : CacheConfig} (t : Trigger)
    (hc : c.registry.get? config.name = some config) :
    Deeds c (c.activateRegistered id config t).2 := by
  have hdeed : Deed c (c.activateOn id config t).2 := .activate c id t hc
  have hregistry := registry_activateOn c id config t
  unfold activateRegistered
  cases ha : c.activateOn id config t with
  | mk r c' =>
      rw [ha] at hdeed hregistry
      cases r with
      | error => exact .single hdeed
      | ok i =>
          dsimp only at hregistry ⊢
          rw [← hregistry] at hc
          rw [confirm_eq_self hc]
          exact .single hdeed

theorem deeds_activateEach {config : CacheConfig} (ids : List MemberId) :
    ∀ {c : Cluster}, c.registry.get? config.name = some config →
      Deeds c (c.activateEach config ids) := by
  induction ids with
  | nil => intro c _; exact .refl
  | cons id ids ih =>
      intro c hc
      refine (deeds_activateRegistered id .dynamic hc).trans (ih ?_)
      rw [registry_activateRegistered, hc]

theorem deeds_propagate {config : CacheConfig} (hc : c.registry.get? config.name = some config)
    (skip : Option MemberId) : Deeds c (c.propagate config skip) :=
  deeds_activateEach _ hc

/-! ## Nodes -/

theorem Linked.registerStatic (l : Linked c) (config : CacheConfig) :
    Deeds c (c.registerStatic config).2 ∧
      (c.registerStatic config).2.registry.get? (c.registerStatic config).1.name =
        some (c.registerStatic config).1 := by
  unfold Cluster.registerStatic
  cases hr : c.registry.get? config.name with
  | some first => exact ⟨.refl, by rw [l.keyed hr]; exact hr⟩
  | none => exact ⟨.single (.register c hr), Table.get?_insert_self _ _ _⟩

theorem Linked.deeds_startStatic (id : MemberId) (configs : List CacheConfig) :
    ∀ {c : Cluster}, Linked c → Deeds c (c.startStatic id configs).2 := by
  induction configs with
  | nil => intro c _; exact .refl
  | cons config rest ih =>
      intro c l
      obtain ⟨hregister, hc⟩ := l.registerStatic config
      unfold startStatic
      cases hs : c.registerStatic config with
      | mk effective c₁ =>
          rw [hs] at hregister hc
          dsimp only at hregister hc ⊢
          have hactivate := deeds_activateRegistered id .static hc
          have hregistry := registry_activateRegistered c₁ id effective .static
          cases ha : c₁.activateRegistered id effective .static with
          | mk r c₂ =>
              rw [ha] at hactivate hregistry
              cases r with
              | error => exact hregister.trans hactivate
              | ok u =>
                  dsimp only at hregistry
                  have hfirst := (hregister.trans hactivate).trans
                    (deeds_propagate (by rw [hregistry, hc]) (some id))
                  exact hfirst.trans (ih (l.deeds hfirst))

theorem deeds_startJoined (id : MemberId) (configs : List CacheConfig) :
    ∀ {c : Cluster}, (∀ config ∈ configs, c.registry.get? config.name = some config) →
      Deeds c (c.startJoined id configs).2 := by
  induction configs with
  | nil => intro c _; exact .refl
  | cons config rest ih =>
      intro c hc
      have hactivate := deeds_activateRegistered id .join (hc config List.mem_cons_self)
      have hregistry := registry_activateRegistered c id config .join
      unfold startJoined
      cases ha : c.activateRegistered id config .join with
      | mk r c₁ =>
          rw [ha] at hactivate hregistry
          cases r with
          | error => exact hactivate
          | ok u =>
              refine hactivate.trans (ih fun config' hmem => ?_)
              dsimp only at hregistry
              rw [hregistry]
              exact hc config' (List.mem_cons_of_mem _ hmem)

/-- What the registry lists is registered. -/
theorem Linked.registered_of_mem (l : Linked c) {config : CacheConfig}
    (hc : config ∈ c.registry.values) : c.registry.get? config.name = some config := by
  obtain ⟨name, hname⟩ := Table.mem_values_iff.mp hc
  rw [l.keyed hname, hname]

theorem Linked.deeds_startNode (l : Linked c) (n : NodeConfig) : Deeds c (c.startNode n).2 := by
  unfold startNode
  cases he : c.enrol n with
  | error => exact .refl
  | ok r =>
      obtain ⟨id, c₁⟩ := r
      have henrol : Deeds c c₁ := .single (.enrol he)
      have hstatic := Linked.deeds_startStatic id n.staticCaches (l.deeds henrol)
      dsimp only
      cases hs : c₁.startStatic id n.staticCaches with
      | mk r c₂ =>
          rw [hs] at hstatic
          have htwo := henrol.trans hstatic
          cases r with
          | error => exact htwo
          | ok u =>
              have hjoined := deeds_startJoined id c₂.registry.values
                fun config hc => (l.deeds htwo).registered_of_mem hc
              dsimp only
              cases hj : c₂.startJoined id c₂.registry.values with
              | mk r c₃ =>
                  rw [hj] at hjoined
                  cases r <;> exact htwo.trans hjoined

theorem deeds_stopEach (ms : List Member) : ∀ c : Cluster, Deeds c (c.stopEach ms) := by
  induction ms with
  | nil => intro c; exact .refl
  | cons m ms ih =>
      intro c
      exact (Relation.ReflTransGen.single (.stop c m.id)).trans (ih _)

theorem Linked.deeds_stopAll (l : Linked c) : Deeds c c.stopAll :=
  (deeds_stopEach c.roster c).tail
    (.forget _ (fun id => l.running_stopEach id) (c.stopEach c.roster).registry.keys
      fun hc => Table.mem_keys_iff.mpr ⟨_, hc⟩)

/-! ## Caches -/

theorem deeds_createCache (c : Cluster) (creator : MemberId) (config : CacheConfig) :
    Deeds c (c.createCache creator config).2 := by
  unfold createCache
  cases config.check with
  | error => exact .refl
  | ok u =>
      dsimp only
      split
      · exact .refl
      · split
        · exact .refl
        · next free =>
          rw [Bool.not_eq_true, Table.contains_eq_false_iff] at free
          exact (Relation.ReflTransGen.single (.register c free)).trans
            (deeds_propagate (Table.get?_insert_self _ _ _) none)

theorem deeds_createFrom (c : Cluster) (id : MemberId) (config : CacheConfig) :
    Deeds c (c.createFrom id config).2 := by
  have hcreate := deeds_createCache c id config
  unfold createFrom
  cases c.ensureRunning id with
  | error => exact .refl
  | ok h =>
      dsimp only
      cases hc : c.createCache id config with
      | mk r c' =>
          rw [hc] at hcreate
          cases r <;> exact hcreate

theorem deeds_getOrCreate (c : Cluster) (id : MemberId) (config : CacheConfig) :
    Deeds c (c.getOrCreate id config).2 := by
  have hcreate := deeds_createFrom c id config
  unfold getOrCreate
  cases c.cacheOn id config.name with
  | ok => exact .refl
  | error err =>
      dsimp only
      split
      · next hc => rw [hc] at hcreate; exact hcreate
      · exact hcreate

theorem deeds_destroyFrom (c : Cluster) (id : MemberId) (name : String) :
    Deeds c (c.destroyFrom id name).2 := by
  unfold destroyFrom
  cases c.ensureRunning id with
  | error => exact .refl
  | ok h => exact .single (.destroy c name)

/-! ## Deployments -/

theorem Linked.deeds_startNodes (ns : List NodeConfig) :
    ∀ {c : Cluster}, Linked c → Deeds c (c.startNodes ns).2 := by
  induction ns with
  | nil => intro c _; exact .refl
  | cons n rest ih =>
      intro c l
      have hstart := l.deeds_startNode n
      unfold startNodes
      cases hs : c.startNode n with
      | mk r c' =>
          rw [hs] at hstart
          cases r with
          | error => exact hstart
          | ok id => exact hstart.trans (ih (l.deeds hstart))

theorem deeds_createLate (ls : List LateCache) :
    ∀ c : Cluster, Deeds c (c.createLate ls).2 := by
  induction ls with
  | nil => intro c; exact .refl
  | cons late rest ih =>
      intro c
      unfold createLate
      cases c.node late.creator with
      | error => exact .refl
      | ok id =>
          have hcreate := deeds_createFrom c id late.cache
          dsimp only
          cases hc : c.createFrom id late.cache with
          | mk r c' =>
              rw [hc] at hcreate
              cases r with
              | error => exact hcreate
              | ok i => exact hcreate.trans (ih c')

theorem Linked.deeds_apply (l : Linked c) (d : Deployment) : Deeds c (c.apply d).2 := by
  unfold apply
  cases d.check with
  | error => exact .refl
  | ok u =>
      have hstart := Linked.deeds_startNodes d.nodes l
      dsimp only
      cases hs : c.startNodes d.nodes with
      | mk r c' =>
          rw [hs] at hstart
          cases r with
          | error => exact hstart
          | ok ids => exact hstart.trans (deeds_createLate d.lateCaches c')

end Cluster

end NearCache
