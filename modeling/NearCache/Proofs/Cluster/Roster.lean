import NearCache.Proofs.Cluster.Operations

/-!
# Who is on the roster

Only two operations touch the roster: a node that starts is added at the end, and a node that stops
is taken away. Only a start adds to the number of members that have joined. Whatever happens to caches
leaves both alone, the staff of the cluster (`staff_createFrom` and the lemmas beside it). So the
members that a deployment starts are on the roster in the order in which the deployment lists them:
`apply_ok`.
-/

namespace NearCache

namespace Cluster

/-- Who is a member, and how many have become members so far. -/
def staff (c : Cluster) : Roster × Nat := (c.roster, c.joined)

/-! ## Caches come and go -/

theorem staff_activateOn (c : Cluster) (id : MemberId) (config : CacheConfig) (t : Trigger) :
    (c.activateOn id config t).2.staff = c.staff := by
  cases hr : c.running.get? id with
  | none =>
      obtain ⟨err, he⟩ := activateOn_eq_error hr config t
      rw [he]
  | some h =>
      cases hi : h.caches.get? config.name with
      | none => rw [activateOn_eq_starting hr hi t]; rfl
      | some i => rw [activateOn_eq_self hr hi t]

theorem staff_deactivateOn (c : Cluster) (id : MemberId) (name : String) :
    (c.deactivateOn id name).staff = c.staff := by
  unfold deactivateOn
  split <;> rfl

theorem staff_activateRegistered (c : Cluster) (id : MemberId) (config : CacheConfig)
    (t : Trigger) : (c.activateRegistered id config t).2.staff = c.staff := by
  have hactivate := staff_activateOn c id config t
  unfold activateRegistered confirm
  cases ha : c.activateOn id config t with
  | mk r c' =>
      rw [ha] at hactivate
      cases r with
      | error => exact hactivate
      | ok =>
          dsimp only
          split
          · exact hactivate
          · exact (staff_deactivateOn c' id config.name).trans hactivate

theorem staff_activateEach (config : CacheConfig) (ids : List MemberId) :
    ∀ c : Cluster, (c.activateEach config ids).staff = c.staff := by
  induction ids with
  | nil => intro c; rfl
  | cons id ids ih => intro c; exact (ih _).trans (staff_activateRegistered c id config .dynamic)

theorem staff_propagate (c : Cluster) (config : CacheConfig) (skip : Option MemberId) :
    (c.propagate config skip).staff = c.staff :=
  staff_activateEach config _ c

theorem staff_registerStatic (c : Cluster) (config : CacheConfig) :
    (c.registerStatic config).2.staff = c.staff := by
  unfold registerStatic
  split <;> rfl

theorem staff_startStatic (id : MemberId) (configs : List CacheConfig) :
    ∀ c : Cluster, (c.startStatic id configs).2.staff = c.staff := by
  induction configs with
  | nil => intro c; rfl
  | cons config rest ih =>
      intro c
      have hregister := staff_registerStatic c config
      unfold startStatic
      cases hs : c.registerStatic config with
      | mk effective c₁ =>
          rw [hs] at hregister
          have hactivate := staff_activateRegistered c₁ id effective .static
          dsimp only at hregister ⊢
          cases ha : c₁.activateRegistered id effective .static with
          | mk r c₂ =>
              rw [ha] at hactivate
              cases r with
              | error => exact hactivate.trans hregister
              | ok u =>
                  exact ((ih _).trans (staff_propagate c₂ effective (some id))).trans
                    (hactivate.trans hregister)

theorem staff_startJoined (id : MemberId) (configs : List CacheConfig) :
    ∀ c : Cluster, (c.startJoined id configs).2.staff = c.staff := by
  induction configs with
  | nil => intro c; rfl
  | cons config rest ih =>
      intro c
      have hactivate := staff_activateRegistered c id config .join
      unfold startJoined
      cases ha : c.activateRegistered id config .join with
      | mk r c₁ =>
          rw [ha] at hactivate
          cases r with
          | error => exact hactivate
          | ok u => exact (ih c₁).trans hactivate

theorem staff_createCache (c : Cluster) (creator : MemberId) (config : CacheConfig) :
    (c.createCache creator config).2.staff = c.staff := by
  unfold createCache
  cases config.check with
  | error => rfl
  | ok u =>
      dsimp only
      split
      · rfl
      · split
        · rfl
        · exact staff_propagate _ config none

theorem staff_createFrom (c : Cluster) (id : MemberId) (config : CacheConfig) :
    (c.createFrom id config).2.staff = c.staff := by
  have hcreate := staff_createCache c id config
  unfold createFrom
  cases c.ensureRunning id with
  | error => rfl
  | ok h =>
      dsimp only
      cases hc : c.createCache id config with
      | mk r c' =>
          rw [hc] at hcreate
          cases r <;> exact hcreate

theorem staff_createLate (ls : List LateCache) :
    ∀ c : Cluster, (c.createLate ls).2.staff = c.staff := by
  induction ls with
  | nil => intro c; rfl
  | cons late rest ih =>
      intro c
      unfold createLate
      cases c.node late.creator with
      | error => rfl
      | ok id =>
          have hcreate := staff_createFrom c id late.cache
          dsimp only
          cases hc : c.createFrom id late.cache with
          | mk r c' =>
              rw [hc] at hcreate
              cases r with
              | error => exact hcreate
              | ok i => exact (ih c').trans hcreate

theorem staff_getOrCreate (c : Cluster) (id : MemberId) (config : CacheConfig) :
    (c.getOrCreate id config).2.staff = c.staff := by
  have hcreate := staff_createFrom c id config
  unfold getOrCreate
  cases c.cacheOn id config.name with
  | ok i => rfl
  | error err =>
      dsimp only
      split
      · next hc => rw [hc] at hcreate; exact hcreate
      · exact hcreate

theorem staff_deactivateEach (name : String) (ids : List MemberId) :
    ∀ c : Cluster, (c.deactivateEach name ids).staff = c.staff := by
  induction ids with
  | nil => intro c; rfl
  | cons id ids ih => intro c; exact (ih _).trans (staff_deactivateOn c id name)

theorem staff_destroyCache (c : Cluster) (name : String) :
    (c.destroyCache name).2.staff = c.staff := by
  unfold destroyCache
  split
  · exact staff_deactivateEach name _ _
  · rfl

theorem staff_destroyFrom (c : Cluster) (id : MemberId) (name : String) :
    (c.destroyFrom id name).2.staff = c.staff := by
  unfold destroyFrom
  cases c.ensureRunning id with
  | error => rfl
  | ok h => exact staff_destroyCache c name

/-! ## Nodes go -/

theorem joined_stopNode (c : Cluster) (id : MemberId) : (c.stopNode id).2.joined = c.joined := by
  unfold stopNode
  split <;> rfl

theorem joined_stopEach (ms : List Member) : ∀ c : Cluster, (c.stopEach ms).joined = c.joined := by
  induction ms with
  | nil => intro c; rfl
  | cons m ms ih => intro c; exact (ih _).trans (joined_stopNode c m.id)

theorem joined_stopAll (c : Cluster) : c.stopAll.joined = c.joined := joined_stopEach c.roster c

/-! ## Nodes come -/

variable {c c' : Cluster}

/-- What a start consists of that succeeds. -/
theorem startNode_eq_ok {n : NodeConfig} {id : MemberId} (h : c.startNode n = (.ok id, c')) :
    ∃ c₁ c₂, c.enrol n = .ok (id, c₁) ∧ c₁.startStatic id n.staticCaches = (.ok (), c₂) ∧
      c₂.startJoined id c₂.registry.values = (.ok (), c') := by
  unfold startNode at h
  split at h
  · cases h
  · next id₁ c₁ henrol =>
    split at h
    · cases h
    · next c₂ hstatic =>
      split at h
      · cases h
      · next c₃ hjoined =>
        cases h
        exact ⟨c₁, c₂, henrol, hstatic, hjoined⟩

/-- A node that starts is the last on the roster, under the number that is the answer. -/
theorem startNode_ok {n : NodeConfig} {id : MemberId} (h : c.startNode n = (.ok id, c')) :
    c'.roster = c.roster ++ [Member.enrolled id n.name n.role n.attributes] := by
  obtain ⟨c₁, c₂, henrol, hstatic, hjoined⟩ := startNode_eq_ok h
  have hkept := staff_startStatic id n.staticCaches c₁
  have hkept' := staff_startJoined id c₂.registry.values c₂
  rw [hstatic] at hkept
  rw [hjoined] at hkept'
  obtain ⟨rfl, -, rfl⟩ := enrol_eq_ok henrol
  exact congrArg Prod.fst (hkept'.trans hkept)

/-- The member that a node became. -/
def Became (n : NodeConfig) (m : Member) : Prop :=
  m = Member.enrolled m.id n.name n.role n.attributes

/-- Nodes start one after the other. -/
theorem startNodes_cons_eq_ok {n : NodeConfig} {rest : List NodeConfig} {ids : List MemberId}
    (h : c.startNodes (n :: rest) = (.ok ids, c')) :
    ∃ id c₁ ids', c.startNode n = (.ok id, c₁) ∧ c₁.startNodes rest = (.ok ids', c') ∧
      ids = id :: ids' := by
  unfold startNodes at h
  split at h
  · cases h
  · next id c₁ hstart =>
    dsimp only at h
    cases hrest : c₁.startNodes rest with
    | mk r c₂ =>
        rw [hrest] at h
        cases r with
        | error => cases h
        | ok ids' =>
            cases h
            exact ⟨id, c₁, ids', hstart, hrest, rfl⟩

theorem startNodes_ok (ns : List NodeConfig) :
    ∀ {c c' : Cluster} {ids : List MemberId}, c.startNodes ns = (.ok ids, c') →
      ∃ ms, c'.roster = c.roster ++ ms ∧ ms.map Member.id = ids ∧ List.Forall₂ Became ns ms := by
  induction ns with
  | nil =>
      intro c c' ids h
      cases h
      exact ⟨[], (List.append_nil _).symm, rfl, .nil⟩
  | cons n rest ih =>
      intro c c' ids h
      obtain ⟨id, c₁, ids', hstart, hrest, rfl⟩ := startNodes_cons_eq_ok h
      obtain ⟨ms, hroster, hids, hbecame⟩ := ih hrest
      refine ⟨Member.enrolled id n.name n.role n.attributes :: ms, ?_, ?_, .cons rfl hbecame⟩
      · rw [hroster, startNode_ok hstart, List.append_assoc]
        rfl
      · rw [List.map_cons, hids]
        rfl

/-- What a deployment consists of that succeeds. -/
theorem apply_eq_ok {d : Deployment} {ids : List MemberId} (h : c.apply d = (.ok ids, c')) :
    ∃ c₁, c.startNodes d.nodes = (.ok ids, c₁) ∧ c₁.createLate d.lateCaches = (.ok (), c') := by
  unfold apply at h
  split at h
  · cases h
  · split at h
    · cases h
    · next ids' c₁ hstart =>
      dsimp only at h
      cases hlate : c₁.createLate d.lateCaches with
      | mk r c₂ =>
          rw [hlate] at h
          cases r with
          | error => cases h
          | ok u =>
              cases h
              exact ⟨c₁, hstart, hlate⟩

/-- A deployment that succeeds adds its nodes to the roster, in their order. -/
theorem apply_ok {d : Deployment} {ids : List MemberId} (h : c.apply d = (.ok ids, c')) :
    ∃ ms, c'.roster = c.roster ++ ms ∧ ms.map Member.id = ids ∧
      List.Forall₂ Became d.nodes ms := by
  obtain ⟨c₁, hstart, hlate⟩ := apply_eq_ok h
  obtain ⟨ms, hroster, hids, hbecame⟩ := startNodes_ok d.nodes hstart
  have hkept := staff_createLate d.lateCaches c₁
  rw [hlate] at hkept
  exact ⟨ms, (congrArg Prod.fst hkept).trans hroster, hids, hbecame⟩

end Cluster

end NearCache
