import Mathlib.Data.List.Forall2
import NearCache.Cluster

/-!
# What near caches are set up with

Whether a node has a near cache of a cache depends on the near-cache settings of the cache and on
the attributes of the node, and nothing else does. `plain` erases the two wherever they are kept: in
the configurations that users write down, in members and in hosts. Two things that are the same when
they are plain differ only in their near caches.

What is checked about a configuration, and which caches a node brings along, can be seen in plain
configurations.
-/

namespace NearCache

/-! ## Reading two things alike -/

section Reading

variable {α β : Type} {f : α → β}

/-- Two lists that agree under a reading agree entry by entry. -/
theorem forall₂_of_map_eq : ∀ {l m : List α}, l.map f = m.map f →
    List.Forall₂ (fun x y => f x = f y) l m := by
  intro l m h
  rw [← List.forall₂_map_right_iff (R := fun x y => f x = y), ← h, List.forall₂_map_right_iff]
  exact List.forall₂_same.mpr fun _ _ => rfl

end Reading

/-! ## Configurations -/

/-- The cache without its near-cache settings. -/
def CacheConfig.plain (c : CacheConfig) : CacheConfig := { c with near := none }

/-- Two caches that differ only in their near-cache settings. -/
theorem CacheConfig.eq_of_plain_eq {c c' : CacheConfig} (h : c.plain = c'.plain) :
    c.name = c'.name ∧ c.check = c'.check := by
  have hname := congrArg CacheConfig.name h
  have hcheck := congrArg CacheConfig.check h
  exact ⟨hname, hcheck⟩

namespace NodeConfig

/-- The node without the user's attributes and with plain caches. -/
def plain (n : NodeConfig) : NodeConfig :=
  { n with attributes := ∅, caches := n.caches.map CacheConfig.plain }

/-- Which caches of a node are accepted does not depend on near caches. -/
theorem sortFrom_plain (node : String) (cs : List CacheConfig) : ∀ seen,
    sortFrom node seen (cs.map CacheConfig.plain) =
      ((sortFrom node seen cs).1.map CacheConfig.plain, (sortFrom node seen cs).2) := by
  induction cs with
  | nil => intro seen; rfl
  | cons c rest ih =>
      intro seen
      have hcheck : c.plain.check = c.check := rfl
      have hname : c.plain.name = c.name := rfl
      simp only [List.map_cons, sortFrom, hcheck, hname, ih]
      cases c.check with
      | error => rfl
      | ok u =>
          dsimp only
          split <;> rfl

theorem staticCaches_plain (n : NodeConfig) :
    n.plain.staticCaches = n.staticCaches.map CacheConfig.plain :=
  congrArg Prod.fst (sortFrom_plain n.name n.caches [])

/-- Two nodes that differ only in what their near caches are set up with. -/
theorem eq_of_plain_eq {n n' : NodeConfig} (h : n.plain = n'.plain) :
    n.name = n'.name ∧ n.check = n'.check ∧ n.role = n'.role ∧
      List.Forall₂ (fun c c' => c.plain = c'.plain) n.staticCaches n'.staticCaches := by
  have hname := congrArg NodeConfig.name h
  have hcheck := congrArg NodeConfig.check h
  have hrole := congrArg NodeConfig.role h
  refine ⟨hname, hcheck, hrole, ?_⟩
  apply forall₂_of_map_eq
  rw [← staticCaches_plain, ← staticCaches_plain, h]

end NodeConfig

/-- The late cache without its near-cache settings. -/
def LateCache.plain (l : LateCache) : LateCache := { l with cache := l.cache.plain }

theorem LateCache.eq_of_plain_eq {l l' : LateCache} (h : l.plain = l'.plain) :
    l.creator = l'.creator ∧ l.cache.plain = l'.cache.plain := by
  have hcreator := congrArg LateCache.creator h
  have hcache := congrArg LateCache.cache h
  exact ⟨hcreator, hcache⟩

namespace Deployment

/-- The deployment with plain nodes and caches. -/
def plain (d : Deployment) : Deployment where
  nodes := d.nodes.map NodeConfig.plain
  lateCaches := d.lateCaches.map LateCache.plain

theorem check_plain (d : Deployment) : d.plain.check = d.check := by
  have hnodes : d.plain.nodes.forM NodeConfig.check = d.nodes.forM NodeConfig.check := by
    show (d.nodes.map NodeConfig.plain).forM NodeConfig.check = _
    rw [List.forM_eq_forM, List.forM_map]
    rfl
  have hlate : ∀ l, d.plain.checkLate (LateCache.plain l) = d.checkLate l := by
    intro l
    unfold checkLate
    have hany : d.plain.nodes.any (fun n => decide (n.name = l.plain.creator)) =
        d.nodes.any fun n => decide (n.name = l.creator) := by
      show (d.nodes.map NodeConfig.plain).any _ = _
      rw [List.any_map]
      rfl
    rw [hany]
    rfl
  have hlates : d.plain.lateCaches.forM d.plain.checkLate = d.lateCaches.forM d.checkLate := by
    show (d.lateCaches.map LateCache.plain).forM d.plain.checkLate = _
    rw [List.forM_eq_forM, List.forM_map]
    simp only [hlate]
  unfold check
  rw [hnodes, hlates]

/-- Two deployments that differ only in what near caches are set up with. -/
theorem eq_of_plain_eq {d d' : Deployment} (h : d.plain = d'.plain) :
    d.check = d'.check ∧ List.Forall₂ (fun n n' => n.plain = n'.plain) d.nodes d'.nodes ∧
      List.Forall₂ (fun l l' => l.plain = l'.plain) d.lateCaches d'.lateCaches := by
  refine ⟨?_, forall₂_of_map_eq (congrArg Deployment.nodes h),
    forall₂_of_map_eq (congrArg Deployment.lateCaches h)⟩
  rw [← check_plain d, ← check_plain d', h]

end Deployment

/-! ## Members and hosts -/

/-- The member without its attributes. -/
def Member.plain (m : Member) : Member := { m with attributes := ∅ }

theorem Member.eq_of_plain_eq {m m' : Member} (h : m.plain = m'.plain) :
    m.id = m'.id ∧ m.name = m'.name := by
  have hid := congrArg Member.id h
  have hname := congrArg Member.name h
  exact ⟨hid, hname⟩

/-- The host with a plain member. -/
def Host.plain (h : Host) : Host := { h with member := h.member.plain }

theorem Host.eq_of_plain_eq {h h' : Host} (e : h.plain = h'.plain) :
    h.member.name = h'.member.name ∧ h.caches = h'.caches ∧ h.stopped = h'.stopped := by
  have hname := congrArg (fun x : Host => x.member.name) e
  have hcaches := congrArg Host.caches e
  have hstopped := congrArg Host.stopped e
  exact ⟨hname, hcaches, hstopped⟩

theorem Host.plain_recast {h h' : Host} (e : h.plain = h'.plain) (caches : Table String EndpointId)
    (stopped : Bool) :
    { h with caches, stopped : Host }.plain = { h' with caches, stopped : Host }.plain := by
  show { h.plain with caches, stopped : Host } = { h'.plain with caches, stopped : Host }
  rw [e]

end NearCache
