import NearCache.Proofs.Deployment.Success

/-!
# What a deployment leaves behind

A deployment that succeeds adds its nodes to the roster in their order and its caches to the
registry, and every node, new or old, serves every cache that is registered then
(`Cluster.Applied`). On a cluster where nothing has happened yet this settles everything that can be
asked about nodes and caches, and the deployment succeeds unless its check or its own names stop it
(`apply_fresh`).
-/

namespace NearCache

namespace Cluster

variable {c c' : Cluster}

/-- A member serves a cache under a configuration, with a near cache if its own decision says so. -/
def Provides (c : Cluster) (m : Member) (config : CacheConfig) : Prop :=
  ∃ i e, c.cacheOn m.id config.name = .ok i ∧ c.fabric.endpoint? i = some e ∧ e.closed = none ∧
    e.node = m.name ∧ e.config = config ∧ e.placement = Placement.decide config m ∧
    e.hasNear = e.placement.isPresent

/-- What a deployment makes of a cluster when it succeeds with an answer. -/
structure Applied (c : Cluster) (d : Deployment) (ids : List MemberId) (c' : Cluster) : Prop where
  members : ∃ ms, c'.roster = c.roster ++ ms ∧ List.Forall₂ Became d.nodes ms ∧
    ids = ms.map Member.id
  registry : Gains c c' (d.statics ++ d.lates)
  lates : ∀ late ∈ d.lates, c'.registry.get? late.name = some late
  provided : ∀ m ∈ c'.roster, ∀ name config, c'.registry.get? name = some config →
    c'.Provides m config
  uniform : c'.Uniform

/-- What a deployment makes of a cluster in which nothing has happened yet. -/
structure Deployed (d : Deployment) (ids : List MemberId) (c : Cluster) : Prop where
  /-- The members are the nodes, in their order. -/
  members : List.Forall₂ Became d.nodes c.roster
  ids : ids = c.roster.map Member.id
  /-- Of the caches that nodes bring along, the first of each name counts. There are the late caches
  besides, and no others. -/
  registry : ∀ name, c.registry.get? name =
    (d.statics.find? (·.name = name)).or (d.lates.find? (·.name = name))
  lates : ∀ late ∈ d.lates, c.registry.get? late.name = some late
  provided : ∀ m ∈ c.roster, ∀ name config, c.registry.get? name = some config →
    c.Provides m config
  uniform : c.Uniform

/-- Where all agree, every member serves every registered cache. -/
theorem Agrees.provides (a : Agrees c none none) (l : Linked c) {m : Member} (hm : m ∈ c.roster)
    {name : String} {config : CacheConfig} (hc : c.registry.get? name = some config) :
    c.Provides m config := by
  obtain ⟨h₀, hr₀, rfl⟩ := l.present.mp hm
  obtain ⟨h, i, hr, hi⟩ := a.hosts hr₀ hc
  obtain rfl : h₀ = h := Option.some.inj (hr₀.symm.trans hr)
  obtain ⟨e, he, hopen, hnode, hconfig, -, hplacement, hnear⟩ := (a.uniform l).endpoints hr hi
  rw [hc] at hconfig
  cases hconfig
  refine ⟨i, e, ?_, he, hopen, hnode, rfl, hplacement, hnear⟩
  rw [l.keyed hc, cacheOn_eq hr, hi]

/-- A cache whose name is free, and that no other cache of the name precedes, is registered. -/
theorem Gains.late {xs ys : List CacheConfig} (h : Gains c c' (xs ++ ys)) {late : CacheConfig}
    (free : c.registry.get? late.name = none) (apart : ∀ config ∈ xs, config.name ≠ late.name)
    (distinct : (ys.map CacheConfig.name).Nodup) (hlate : late ∈ ys) :
    c'.registry.get? late.name = some late := by
  have hbefore : xs.find? (·.name = late.name) = none :=
    List.find?_eq_none.mpr fun config hconfig => by simpa using apart config hconfig
  rw [h, free, List.find?_append, hbefore, Option.none_or, Option.none_or]
  cases hfind : ys.find? (·.name = late.name) with
  | none =>
      have hnone := List.find?_eq_none.mp hfind late hlate
      simp at hnone
  | some config =>
      have hname : config.name = late.name := by simpa using List.find?_some hfind
      rw [List.inj_on_of_nodup_map distinct (List.mem_of_find?_eq_some hfind) hlate hname]

theorem Agrees.applied (a : Agrees c none none) (l : Linked c) {d : Deployment}
    {ids : List MemberId} (h : c.apply d = (.ok ids, c')) : Applied c d ids c' := by
  have a' := a.apply l d
  have l' := l.deeds (l.deeds_apply d)
  rw [h] at a' l'
  obtain ⟨ms, hroster, hids, hbecame⟩ := apply_ok h
  obtain ⟨apart, free⟩ := l.apart_of_apply h
  have hgains := gains_apply h
  exact {
    members := ⟨ms, hroster, hbecame, hids.symm⟩
    registry := hgains
    lates := fun late hlate => hgains.late (free.lates late hlate)
      (fun config hconfig => apart.statics config hconfig late hlate) apart.lates hlate
    provided := fun m hm name config hc => a'.provides l' hm hc
    uniform := a'.uniform l' }

/-- **What a deployment does to a new cluster.** It succeeds exactly if it passes its check and its
names are apart. Then the members are its nodes, the registry has the first configuration of every
cache that they bring along and every late cache, and each member serves each of them. -/
theorem apply_fresh {memberIds : Nat → MemberId} (distinct : Function.Injective memberIds)
    (publisher : Fanout) (d : Deployment) :
    ((∃ ids, (apply { memberIds, publisher } d).1 = .ok ids) ↔ d.check = .ok () ∧ d.Apart) ∧
      ∀ ids, (apply { memberIds, publisher } d).1 = .ok ids →
        Deployed d ids (apply { memberIds, publisher } d).2 := by
  have a := Agrees.empty memberIds publisher
  have l := Linked.empty distinct publisher
  have free : Free { memberIds, publisher } d := by
    refine ⟨?_, fun _ _ => rfl⟩
    rintro n - ⟨id, h, hr, -⟩
    cases hr
  refine ⟨?_, ?_⟩
  · rw [a.apply_ok_iff l]
    constructor
    · rintro ⟨check, apart, -⟩
      exact ⟨check, apart⟩
    · rintro ⟨check, apart⟩
      exact ⟨check, apart, free⟩
  · intro ids hids
    have applied := a.applied l (Prod.ext hids rfl)
    obtain ⟨ms, hroster, hbecame, rfl⟩ := applied.members
    rw [List.nil_append] at hroster
    subst hroster
    refine ⟨hbecame, rfl, fun name => ?_, applied.lates, applied.provided, applied.uniform⟩
    rw [applied.registry, ← List.find?_append]
    rfl

/-- Two nodes bring along a cache of one name, and the second creates another. -/
theorem apply_fresh_two_nodes :
    let d : Deployment :=
      { nodes := [{ name := "a", caches := [{ name := "x" }] },
          { name := "b", caches := [{ name := "x", backups := 1 }, { name := "y" }] }]
        lateCaches := [{ creator := "b", cache := { name := "z" } }] }
    (apply {} d).1 = .ok [0, 1] ∧ Deployed d [0, 1] (apply {} d).2 :=
  ⟨by decide, (apply_fresh Function.injective_id {} _).2 [0, 1] (by decide)⟩

end Cluster

end NearCache
