import NearCache.Proofs.Chronicle.Chapter
import NearCache.Proofs.Cluster.Deeds
import NearCache.Proofs.Journal.Indexes

/-!
# The chronicle of a cluster

A journal is the only sink of a cluster. `Cluster.Chronicle c chapters` says that the journal has
recorded exactly these chapters, and that they tell the truth: their starts are the endpoints of the
fabric one by one, a reader's line-up is that of the nodes that run, and every event came at its
time.

No deed leaves the chronicle wrong, and each adds at most one chapter (`Chronicle.deed`).
-/

namespace NearCache

/-- The start of an endpoint. -/
def Endpoint.start (e : Endpoint) : Start := ⟨e.node, e.name, e.placement⟩

namespace Fabric

/-- The starts of the endpoints, in the order of their numbers. -/
def starts (f : Fabric) : List (Option Start) :=
  (List.range f.started).map fun i => (f.endpoint? i).map Endpoint.start

/-- Whether an endpoint started with a near cache. -/
def isNear (f : Fabric) (i : EndpointId) : Bool := (f.endpoint? i).any (·.placement.isPresent)

/-- The same endpoints have started in two fabrics. -/
structure Coeval (f f' : Fabric) : Prop where
  started : f'.started = f.started
  start : ∀ i, (f'.endpoint? i).map Endpoint.start = (f.endpoint? i).map Endpoint.start

namespace Coeval

theorem refl (f : Fabric) : Coeval f f := ⟨rfl, fun _ => rfl⟩

theorem trans {f g h : Fabric} (a : Coeval f g) (b : Coeval g h) : Coeval f h :=
  ⟨b.started.trans a.started, fun i => (b.start i).trans (a.start i)⟩

theorem starts {f f' : Fabric} (h : Coeval f f') : f'.starts = f.starts := by
  unfold Fabric.starts
  rw [h.started]
  exact List.map_congr_left fun i _ => h.start i

theorem isNear {f f' : Fabric} (h : Coeval f f') : f'.isNear = f.isNear := by
  funext i
  have hany : ∀ g : Fabric, g.isNear i =
      ((g.endpoint? i).map Endpoint.start).any (·.placement.isPresent) := by
    intro g
    unfold Fabric.isNear
    cases g.endpoint? i <;> rfl
  rw [hany, hany, h.start]

end Coeval

theorem Serves.coeval {f f' : Fabric} (h : Serves f f') : Coeval f f' where
  started := h.started
  start i := by
    have hframe := h.frame i
    cases he : f.endpoint? i with
    | none =>
        rw [he] at hframe
        rw [Option.map_eq_none_iff.mp hframe]
    | some e =>
        rw [he] at hframe
        obtain ⟨e', he', hee⟩ := Option.map_eq_some_iff.mp hframe
        obtain ⟨hnode, hconfig, hplacement, -⟩ := Endpoint.eq_of_frame_eq hee
        rw [he']
        simp [Endpoint.start, hnode, Endpoint.name, hconfig, hplacement]

/-- A new endpoint is one more start. -/
theorem starts_start (f : Fabric) (node : String) (config : CacheConfig) (p : Placement) :
    (f.start node config p).2.starts = f.starts ++ [some ⟨node, config.name, p⟩] := by
  unfold starts
  rw [started_start, List.range_succ, List.map_append]
  congr 1
  · refine List.map_congr_left fun i hi => ?_
    rw [endpoint?_start, if_neg (Nat.ne_of_lt (List.mem_range.mp hi))]
  · rw [List.map_singleton, endpoint?_start, if_pos rfl]
    rfl

theorem isNear_start (f : Fabric) (node : String) (config : CacheConfig) (p : Placement)
    (i : EndpointId) :
    (f.start node config p).2.isNear i = if i = f.started then p.isPresent else f.isNear i := by
  unfold isNear
  rw [endpoint?_start]
  split <;> rfl

theorem coeval_close (f : Fabric) (id : EndpointId) (r : Closing) : Coeval f (f.close id r).2 where
  started := started_close f id r
  start i := by
    rw [endpoint?_close]
    split
    · next hi =>
      subst hi
      cases f.endpoint? i with
      | none => rfl
      | some e =>
          simp only [Option.map_some, Endpoint.start, Endpoint.shut]
          split <;> rfl
    · rfl

end Fabric

theorem Host.coeval_closeAll (ids : List EndpointId) :
    ∀ f : Fabric, f.Coeval (closeAll f ids) := by
  induction ids with
  | nil => intro f; exact .refl f
  | cons i ids ih => intro f; exact (f.coeval_close i .nodeStopped).trans (ih _)

namespace Cluster

variable {c c' : Cluster} {chapters : List Chapter}

theorem coeval_deactivateOn (c : Cluster) (id : MemberId) (name : String) :
    c.fabric.Coeval (c.deactivateOn id name).fabric := by
  by_cases hn : ∃ h i, c.host? id = some h ∧ h.caches.get? name = some i
  · obtain ⟨h, i, hh, hi⟩ := hn
    rw [deactivateOn_eq_closing hh hi]
    exact c.fabric.coeval_close i .cacheDestroyed
  · rw [deactivateOn_eq_self]
    · exact .refl _
    · intro h hh
      cases hi : h.caches.get? name with
      | none => rfl
      | some i => exact absurd ⟨h, i, hh, hi⟩ hn

theorem coeval_deactivateEach (name : String) (ids : List MemberId) :
    ∀ c : Cluster, c.fabric.Coeval (c.deactivateEach name ids).fabric := by
  induction ids with
  | nil => intro c; exact .refl _
  | cons id ids ih => intro c; exact (coeval_deactivateOn c id name).trans (ih _)

theorem publisher_deactivateEach (name : String) (ids : List MemberId) :
    ∀ c : Cluster, (c.deactivateEach name ids).publisher = c.publisher := by
  induction ids with
  | nil => intro c; rfl
  | cons id ids ih =>
      intro c
      refine (ih (c.deactivateOn id name)).trans ?_
      unfold deactivateOn
      split <;> rfl

/-- Dropping data concerns no endpoint. -/
theorem coeval_dropEach (names : List String) :
    ∀ f : Fabric, f.Coeval (names.foldl (fun f name => f.destroy name) f) := by
  induction names with
  | nil => intro f; exact .refl f
  | cons name names ih =>
      intro f
      have hdrop : f.Coeval (f.destroy name) := ⟨rfl, fun _ => rfl⟩
      exact hdrop.trans (ih (f.destroy name))

/-- The journal has recorded these chapters, and they tell the truth. -/
structure Chronicle (c : Cluster) (chapters : List Chapter) : Prop where
  journal : ∃ j : Journal, c.publisher = .ofSinks [.journal j] ∧ j.events.toList = story chapters
  starts : (startsIn chapters).map some = c.fabric.starts
  lineup : ∀ {node caches}, (lineup (story chapters)).get? node = some caches ↔
    ∃ id h, c.running.get? id = some h ∧ h.member.name = node ∧
      caches = h.caches.mapValues c.fabric.isNear
  inOrder : InOrder (story chapters)

namespace Chronicle

theorem empty (memberIds : Nat → MemberId) :
    Chronicle { memberIds, publisher := .ofSinks [.journal {}] } [] where
  journal := ⟨{}, rfl, rfl⟩
  starts := rfl
  lineup := by
    intro node caches
    constructor
    · intro h; cases h
    · rintro ⟨id, h, hr, -⟩; cases hr
  inOrder := InOrder.nil

/-- A node that runs is in the line-up. -/
theorem present (h : Chronicle c chapters) {id : MemberId} {k : Host}
    (hr : c.running.get? id = some k) :
    (NearCache.lineup (story chapters)).get? k.member.name =
      some (k.caches.mapValues c.fabric.isNear) :=
  h.lineup.mpr ⟨id, k, hr, rfl, rfl⟩

/-- A name that no running node bears is not. -/
theorem absent (h : Chronicle c chapters) {node : String}
    (hn : ∀ id k, c.running.get? id = some k → k.member.name ≠ node) :
    (NearCache.lineup (story chapters)).get? node = none := by
  cases hs : (NearCache.lineup (story chapters)).get? node with
  | none => rfl
  | some caches =>
      obtain ⟨id, k, hr, hname, -⟩ := h.lineup.mp hs
      exact absurd hname (hn id k hr)

/-- What the world is told in a chapter goes to the journal. -/
theorem publishAll (h : Chronicle c chapters) (ch : Chapter) :
    ∃ j : Journal, (c.publishAll ch.events).publisher = .ofSinks [.journal j] ∧
      j.events.toList = story (chapters ++ [ch]) := by
  obtain ⟨j, hp, hj⟩ := h.journal
  refine ⟨j.append ch.events, ?_, ?_⟩
  · show (c.publisher.publishAll ch.events).2 = _
    rw [hp]
    rfl
  · rw [Journal.toList_append, hj, story_append]

/-- A deed that tells nothing and touches no node. -/
theorem quiet (h : Chronicle c chapters) (hp : c'.publisher = c.publisher)
    (hr : ∀ id, c'.running.get? id = c.running.get? id) (hf : c.fabric.Coeval c'.fabric) :
    Chronicle c' chapters where
  journal := by rw [hp]; exact h.journal
  starts := h.starts.trans hf.starts.symm
  lineup := by
    intro node caches
    rw [h.lineup, hf.isNear]
    simp only [hr]
  inOrder := h.inOrder

/-- Where one node comes, goes or changes, the reader follows by changing what is known of its name.
No other running node bears that name, and no cache of a node that stays has changed its near
cache. -/
theorem lineup_change (h : Chronicle c chapters) {id : MemberId} {name : String} {now : Option Host}
    {seen : Lineup}
    (hrun : ∀ j, c'.running.get? j = if j = id then now else c.running.get? j)
    (hown : ∀ {j k}, c.running.get? j = some k → (k.member.name = name ↔ j = id))
    (hnow : ∀ {k}, now = some k → k.member.name = name)
    (hkept : ∀ {j k}, c.running.get? j = some k →
      k.caches.mapValues c'.fabric.isNear = k.caches.mapValues c.fabric.isNear)
    (hseen : ∀ node, seen.get? node =
      if node = name then now.map (·.caches.mapValues c'.fabric.isNear)
      else (NearCache.lineup (story chapters)).get? node) {node : String}
    {caches : Table String Bool} :
    seen.get? node = some caches ↔ ∃ j k, c'.running.get? j = some k ∧ k.member.name = node ∧
      caches = k.caches.mapValues c'.fabric.isNear := by
  rw [hseen]
  by_cases hn : node = name
  · rw [if_pos hn, Option.map_eq_some_iff]
    constructor
    · rintro ⟨k, hk, rfl⟩
      exact ⟨id, k, (hrun id).trans ((if_pos rfl).trans hk), (hnow hk).trans hn.symm, rfl⟩
    · rintro ⟨j, k, hk, hname, rfl⟩
      rw [hrun] at hk
      by_cases hj : j = id
      · rw [if_pos hj] at hk
        exact ⟨k, hk, rfl⟩
      · rw [if_neg hj] at hk
        exact absurd ((hown hk).mp (hname.trans hn)) hj
  · rw [if_neg hn, h.lineup]
    constructor
    · rintro ⟨j, k, hk, hname, rfl⟩
      have hj : j ≠ id := fun hj => hn (hname.symm.trans ((hown hk).mpr hj))
      exact ⟨j, k, (hrun j).trans ((if_neg hj).trans hk), hname, (hkept hk).symm⟩
    · rintro ⟨j, k, hk, hname, rfl⟩
      rw [hrun] at hk
      by_cases hj : j = id
      · rw [if_pos hj] at hk
        exact absurd (hname.symm.trans (hnow hk)) hn
      · rw [if_neg hj] at hk
        exact ⟨j, k, hk, hname, hkept hk⟩

/-! ## Nodes -/

theorem enrol (h : Chronicle c chapters) (l : Linked c) {n : NodeConfig} {id : MemberId}
    (he : c.enrol n = .ok (id, c')) :
    Chronicle c' (chapters ++ [.joined n.name n.role.isClient]) := by
  obtain ⟨-, free, rfl⟩ := enrol_eq_ok he
  have hfree : ∀ id k, c.running.get? id = some k → k.member.name ≠ n.name :=
    fun id k hr => free _ (l.member_mem hr)
  refine ⟨h.publishAll (.joined n.name n.role.isClient), ?_, ?_, ?_⟩
  · rw [startsIn_append_of_none chapters rfl]
    exact h.starts
  · intro node caches
    rw [story_append, lineup_append]
    refine h.lineup_change (running_enrolling c n) (fun {j k} hk => ?_) (fun hk => by cases hk; rfl)
      (fun _ => rfl) (fun _ => Table.get?_insert ..)
    -- neither the name nor the number is anyone's
    refine ⟨fun hname => absurd hname (hfree j k hk), fun hj => ?_⟩
    rw [hj, l.running_next] at hk
    cases hk
  · rw [story_append]
    refine h.inOrder.snoc ?_
    rintro node ⟨⟩
    exact Table.contains_eq_false_iff.mpr (h.absent hfree)

theorem stop (h : Chronicle c chapters) (l : Linked c) (id : MemberId) :
    ∃ more, Chronicle (c.stopNode id).2 (chapters ++ more) := by
  have hrun := running_stopNode c id
  cases hr : c.running.get? id with
  | none =>
      rw [stopNode_eq_self hr]
      exact ⟨[], by rwa [List.append_nil]⟩
  | some k =>
      rw [stopNode_eq_stopping hr] at hrun ⊢
      have hclose : c.fabric.Coeval (c.stopping id k).fabric :=
        Host.coeval_closeAll k.caches.values c.fabric
      refine ⟨[.left k.member.name], ?_, ?_, ?_, ?_⟩
      · exact h.publishAll (.left k.member.name)
      · rw [startsIn_append_of_none chapters rfl]
        exact h.starts.trans hclose.starts.symm
      · intro node caches
        rw [story_append, lineup_append]
        exact h.lineup_change hrun (l.name_eq_iff hr) (fun hk => by cases hk)
          (fun {_ k'} _ => congrArg (Table.mapValues · k'.caches) hclose.isNear)
          (fun _ => Table.get?_erase ..)
      · rw [story_append]
        refine h.inOrder.snoc ?_
        rintro node ⟨⟩
        exact Table.contains_iff.mpr ⟨_, h.present hr⟩

/-! ## Caches -/

theorem activate (h : Chronicle c chapters) (l : Linked c) (id : MemberId) (config : CacheConfig)
    (t : Trigger) : ∃ more, Chronicle (c.activateOn id config t).2 (chapters ++ more) := by
  cases hr : c.running.get? id with
  | none =>
      obtain ⟨err, he⟩ := activateOn_eq_error hr config t
      rw [he]
      exact ⟨[], by rwa [List.append_nil]⟩
  | some k =>
      cases hi : k.caches.get? config.name with
      | some i =>
          rw [activateOn_eq_self hr hi t]
          exact ⟨[], by rwa [List.append_nil]⟩
      | none =>
          rw [activateOn_eq_starting hr hi t, ← Chapter.events_started]
          obtain ⟨p, hp⟩ : ∃ p, p = Placement.decide config k.member := ⟨_, rfl⟩
          rw [← hp]
          refine ⟨[.started k.member.name config.name t p], ?_, ?_, ?_, ?_⟩
          · exact h.publishAll (.started k.member.name config.name t p)
          · rw [startsIn_append, List.map_append, h.starts]
            show _ = Fabric.starts (Fabric.start _ k.member.name config _).2
            rw [Fabric.starts_start, hp]
            rfl
          · intro node caches
            rw [story_append, lineup_started]
            -- caches that had started before have kept their flags
            have hkept : ∀ {j k'}, c.running.get? j = some k' →
                k'.caches.mapValues (c.starting id k config).fabric.isNear =
                  k'.caches.mapValues c.fabric.isNear := by
              intro j k' hk'
              refine Table.mapValues_congr fun name i hname => ?_
              obtain ⟨e, he, -⟩ := l.hosted (running_eq_some_iff.mp hk').1 hname
              refine (Fabric.isNear_start ..).trans (if_neg ?_)
              exact Nat.ne_of_lt (l.wired.started he)
            have hflag : (c.starting id k config).fabric.isNear c.fabric.started = p.isPresent :=
              (Fabric.isNear_start ..).trans ((if_pos rfl).trans (by rw [hp]))
            have hcaches : (k.caches.insert config.name c.fabric.started).mapValues
                (c.starting id k config).fabric.isNear =
                  (k.caches.mapValues c.fabric.isNear).insert config.name p.isPresent := by
              rw [Table.mapValues_insert, hkept hr, hflag]
            refine h.lineup_change (running_starting hr config) (l.name_eq_iff hr)
              (fun hk => by cases hk; rfl) hkept (fun node => ?_)
            rw [Table.get?_alter, h.present hr]
            exact congrArg (if node = k.member.name then some · else _) hcaches.symm
          · rw [story_append]
            exact h.inOrder.started (Table.contains_iff.mpr ⟨_, h.present hr⟩) _ _ _

theorem destroy (h : Chronicle c chapters) (name : String) :
    ∃ more, Chronicle (c.destroyCache name).2 (chapters ++ more) := by
  cases hreg : c.registry.contains name with
  | false =>
      have hsame : c.destroyCache name = (false, c) := by simp [destroyCache, hreg]
      rw [hsame]
      exact ⟨[], by rwa [List.append_nil]⟩
  | true =>
      rw [destroyCache_eq hreg]
      obtain ⟨d, hd⟩ : ∃ d, d = { c with registry := c.registry.erase name }.deactivateEach name
        c.running.keys := ⟨_, rfl⟩
      have hrun : ∀ j, d.running.get? j =
          (c.running.get? j).map fun k => { k with caches := k.caches.erase name } := by
        intro j
        rw [hd]
        exact running_deactivateEach (c := { c with registry := c.registry.erase name }) name j
      have hfabric : c.fabric.Coeval (d.fabric.destroy name) := by
        have hclosed : c.fabric.Coeval d.fabric := by
          rw [hd]
          exact coeval_deactivateEach name c.running.keys
            { c with registry := c.registry.erase name }
        exact hclosed.trans ⟨rfl, fun _ => rfl⟩
      have hpublisher : d.publisher = c.publisher := by
        rw [hd]
        exact publisher_deactivateEach name c.running.keys _
      dsimp only
      rw [← hd]
      refine ⟨[.destroyed name], ?_, ?_, ?_, ?_⟩
      · obtain ⟨j, hp, hj⟩ := h.publishAll (.destroyed name)
        refine ⟨j, ?_, hj⟩
        rw [← hp]
        show (d.publisher.publish _).2 = (c.publisher.publishAll _).2
        rw [hpublisher]
        rfl
      · rw [startsIn_append_of_none chapters rfl]
        exact h.starts.trans hfabric.starts.symm
      · intro node caches
        rw [story_append, lineup_append]
        show (Table.mapValues _ _).get? node = _ ↔
          ∃ j k', d.running.get? j = some k' ∧ _ ∧
            caches = (Host.caches k').mapValues (d.fabric.destroy name).isNear
        rw [Table.get?_mapValues, hfabric.isNear, Option.map_eq_some_iff]
        constructor
        · rintro ⟨all, hall, rfl⟩
          obtain ⟨j, k, hk, hname, rfl⟩ := h.lineup.mp hall
          exact ⟨j, _, (hrun j).trans (congrArg _ hk), hname, (Table.mapValues_erase ..).symm⟩
        · rintro ⟨j, k', hk', hname, rfl⟩
          obtain ⟨k, hk, rfl⟩ := Option.map_eq_some_iff.mp ((hrun j).symm.trans hk')
          exact ⟨_, h.lineup.mpr ⟨j, k, hk, hname, rfl⟩, (Table.mapValues_erase ..).symm⟩
      · rw [story_append]
        refine h.inOrder.snoc ?_
        rintro node ⟨⟩

/-- Reads and writes are not told. -/
theorem withFabric (h : Chronicle c chapters) {f : Fabric} (hs : c.fabric.Serves f) :
    Chronicle { c with fabric := f } chapters := h.quiet rfl (fun _ => rfl) hs.coeval

/-! ## Every deed -/

theorem deed (h : Chronicle c chapters) (l : Linked c) (hd : Deed c c') :
    ∃ more, Chronicle c' (chapters ++ more) := by
  cases hd with
  | enrol joined => exact ⟨_, h.enrol l joined⟩
  | register free =>
      exact ⟨[], by rw [List.append_nil]; exact h.quiet rfl (fun _ => rfl) (.refl _)⟩
  | activate id t registered => exact h.activate l id _ t
  | stop id => exact h.stop l id
  | destroy name => exact h.destroy name
  | forget quiet names all =>
      refine ⟨[], ?_⟩
      rw [List.append_nil]
      exact h.quiet rfl (fun _ => rfl) (coeval_dropEach names c.fabric)

theorem deeds (h : Chronicle c chapters) (l : Linked c) (hd : Deeds c c') :
    ∃ more, Chronicle c' (chapters ++ more) := by
  induction hd with
  | refl => exact ⟨[], by rwa [List.append_nil]⟩
  | tail hfirst hlast ih =>
      obtain ⟨more, hmore⟩ := ih
      obtain ⟨last, hend⟩ := hmore.deed (l.deeds hfirst) hlast
      exact ⟨more ++ last, by rwa [← List.append_assoc]⟩

end Chronicle

end Cluster

end NearCache
