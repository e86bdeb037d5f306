import NearCache.Proofs.Overlap.Order
import NearCache.Proofs.Session.Agreement

/-!
# Caches that are destroyed while they start

A cache may be destroyed after a call has read of it and before the call starts it on a node. That
is what an activation is confirmed for: destroying takes the cache from the registry first and from
the nodes then, so either it finds the cache on the node, or the node finds that the cache is not
registered.

The second half holds as long as nobody creates a cache of the same name in between. The registry is
asked for the name only, and if it has the name under another configuration, the node keeps what it
has started: the confirmation slips. `kept_after` says that this is all that can go wrong. Whatever
calls overlap, and in whatever order, in the end every cache on a node has a registered name, and it
has the registered configuration if and only if no confirmation of it has slipped.
-/

namespace NearCache

namespace Overlap

variable {o o' : Overlap}

/-- The endpoint that a turn confirms although it has another configuration than the one that is
registered under its name. -/
def slip? (o : Overlap) (turn : Turn) : Option EndpointId :=
  match o.stage? turn with
  | some (.confirm id name) => do
    let current ← o.cluster.registry.get? name
    let h ← o.cluster.running.get? id
    let i ← h.caches.get? name
    let e ← o.cluster.fabric.endpoint? i
    if e.config = current then none else some i
  | _ => none

/-- The endpoints for which that happens. -/
def slips (o : Overlap) : List Turn → List EndpointId
  | [] => []
  | turn :: rest => (o.slip? turn).toList ++ (o.advance turn).slips rest

theorem slip?_eq_some_iff {turn : Turn} {i : EndpointId} :
    o.slip? turn = some i ↔ ∃ id name config current, o.stage? turn = some (.confirm id name) ∧
      o.cluster.Carries id name i config ∧ o.cluster.registry.get? name = some current ∧
      config ≠ current := by
  unfold slip?
  constructor
  · intro h
    split at h
    · next id name hstage =>
      obtain ⟨current, hc, h⟩ := Option.bind_eq_some_iff.mp h
      obtain ⟨k, hr, h⟩ := Option.bind_eq_some_iff.mp h
      obtain ⟨i', hi, h⟩ := Option.bind_eq_some_iff.mp h
      obtain ⟨e, he, h⟩ := Option.bind_eq_some_iff.mp h
      split at h
      · cases h
      · next hne =>
        cases h
        exact ⟨id, name, e.config, current, hstage, ⟨k, e, hr, hi, he, rfl⟩, hc, hne⟩
    · cases h
  · rintro ⟨id, name, config, current, hstage, ⟨k, e, hr, hi, he, rfl⟩, hc, hne⟩
    simp [hstage, hc, hr, hi, he, hne]

/-- A cache on a node is about to be taken away. -/
def Doomed (o : Overlap) (id : MemberId) (name : String) : Prop :=
  o.Pending (.sweep name) ∨ o.Pending (.deactivate id name)

/-- Every cache on a node is accounted for, given the endpoints whose confirmation has slipped. -/
structure Accounted (o : Overlap) (slipped : List EndpointId) : Prop where
  carried : ∀ {id name i config}, o.cluster.Carries id name i config →
    o.cluster.registry.get? name = some config ∨ i ∈ slipped ∨ o.Pending (.confirm id name) ∨
      o.Doomed id name
  stale : ∀ {id name i config}, o.cluster.Carries id name i config → i ∈ slipped →
    (∃ current, o.cluster.registry.get? name = some current ∧ config ≠ current) ∨ o.Doomed id name
  known : ∀ {i}, i ∈ slipped → ∃ e, o.cluster.fabric.endpoint? i = some e

theorem accounted_ofCalls {c : Cluster} (a : c.Agrees none none) (calls : List Call) :
    Accounted (ofCalls c calls) [] where
  carried h := by
    obtain ⟨k, e, hr, hi, he, rfl⟩ := h
    obtain ⟨e', he', hc⟩ := a.current hr hi
    have heq : some e = some e' := he.symm.trans he'
    cases heq
    exact Or.inl hc
  stale _ h := by cases h
  known h := by cases h

variable {t : Stage} {next : List Stage} {id : MemberId} {name : String} {i : EndpointId}
  {config : CacheConfig} {trigger : Trigger}

/-- What is about to be taken away is taken away, or still about to be. -/
theorem Moves.doomed (m : Moves o t next o') (l : o.cluster.Linked)
    (hc : o'.cluster.Carries id name i config) (hd : o.Doomed id name) : o'.Doomed id name := by
  have heffect := m.effect
  rcases hd with hd | hd
  · rcases m.kept hd with rfl | hd
    · -- the sweep goes to all nodes that run
      right
      refine m.added ?_
      obtain ⟨k, -, hr, -⟩ := hc
      generalize o'.cluster = c' at heffect hr
      cases heffect with
      | refused entry => cases entry
      | sweep => exact List.mem_map.mpr ⟨id, Table.mem_keys_iff.mpr ⟨k, hr⟩, rfl⟩
    · exact Or.inl hd
  · rcases m.kept hd with rfl | hd
    · generalize o'.cluster = c' at heffect hc
      cases heffect with
      | refused entry => cases entry
      | deactivate => exact absurd ⟨rfl, rfl⟩ (l.carries_deactivateOn hc).2
    · exact Or.inr hd

/-- A registered configuration stays registered, or all that carry it are about to be taken away. -/
theorem Moves.registered (m : Moves o t next o')
    (hc : o.cluster.registry.get? name = some config) (id : MemberId) :
    o'.cluster.registry.get? name = some config ∨ o'.Doomed id name := by
  rcases m.effect.registered hc with hc | ⟨-, hsweep⟩
  · exact Or.inl hc
  · exact Or.inr (Or.inl (m.added hsweep))

/-- What has just started is still to be confirmed. -/
theorem Moves.confirmable (m : Moves o (.activate id config trigger) next o') :
    o'.Pending (.confirm id config.name) := by
  refine m.added ?_
  have heffect := m.effect
  generalize o'.cluster = c' at heffect
  cases heffect with
  | refused entry => cases entry
  | again | activate => exact List.mem_cons_self

/-- What is still there after its confirmation is registered as it is, unless it has slipped. -/
theorem Moves.confirmed (m : Moves o (.confirm id name) next o') (l : o.cluster.Linked)
    {turn : Turn} (ht : o.stage? turn = some (.confirm id name))
    (hold : o.cluster.Carries id name i config) (hc : o'.cluster.Carries id name i config) :
    o'.cluster.registry.get? name = some config ∨ o.slip? turn = some i := by
  have heffect := m.effect
  generalize o'.cluster = c' at heffect hc ⊢
  cases heffect with
  | refused entry => cases entry
  | @confirm _ _ current registered =>
      by_cases hsame : config = current
      · exact Or.inl (hsame ▸ registered)
      · exact Or.inr (slip?_eq_some_iff.mpr ⟨id, name, config, current, ht, hold, registered, hsame⟩)
  | withdraw => exact absurd ⟨rfl, rfl⟩ (l.carries_deactivateOn hc).2

/-- What slips has another configuration than the registered one. -/
theorem Moves.slipped (m : Moves o t next o') (l : o.cluster.Linked) {turn : Turn}
    (ht : o.stage? turn = some t) (hslip : o.slip? turn = some i)
    (hc : o'.cluster.Carries id name i config) :
    ∃ current, o'.cluster.registry.get? name = some current ∧ config ≠ current := by
  obtain ⟨j, n, A, current, hstage, hold, hreg, hne⟩ := slip?_eq_some_iff.mp hslip
  rw [ht] at hstage
  cases hstage
  have heffect := m.effect
  generalize o'.cluster = c' at heffect hc ⊢
  cases heffect with
  | refused entry => cases entry
  | confirm =>
      obtain ⟨rfl, rfl, rfl⟩ := hc.unique l hold
      exact ⟨current, hreg, hne⟩
  | withdraw gone =>
      rw [gone] at hreg
      cases hreg

/-- A turn leaves nothing unaccounted for. -/
theorem Accounted.moves {slipped : List EndpointId} (a : Accounted o slipped)
    (l : o.cluster.Linked) {turn : Turn} (ht : o.stage? turn = some t)
    (m : Moves o t next o') : Accounted o' (slipped ++ (o.slip? turn).toList) := by
  refine ⟨?_, ?_, ?_⟩
  · intro id name i config hc
    rcases m.effect.carries l hc with hold | ⟨-, rfl, trigger, rfl⟩
    · rcases a.carried hold with hreg | hslip | hconfirm | hdoomed
      · rcases m.registered hreg id with hreg | hdoomed
        · exact Or.inl hreg
        · exact Or.inr (Or.inr (Or.inr hdoomed))
      · exact Or.inr (Or.inl (List.mem_append_left _ hslip))
      · rcases m.kept hconfirm with rfl | hconfirm
        · rcases m.confirmed l ht hold hc with hreg | hslip
          · exact Or.inl hreg
          · exact Or.inr (Or.inl (List.mem_append_right _ (Option.mem_toList.mpr hslip)))
        · exact Or.inr (Or.inr (Or.inl hconfirm))
      · exact Or.inr (Or.inr (Or.inr (m.doomed l hc hdoomed)))
    · exact Or.inr (Or.inr (Or.inl m.confirmable))
  · intro id name i config hc hi
    rcases List.mem_append.mp hi with hi | hi
    · rcases m.effect.carries l hc with hold | ⟨hnew, -⟩
      · rcases a.stale hold hi with ⟨current, hreg, hne⟩ | hdoomed
        · exact (m.registered hreg id).imp_left fun hreg => ⟨current, hreg, hne⟩
        · exact Or.inr (m.doomed l hc hdoomed)
      · obtain ⟨e, he⟩ := a.known hi
        exact absurd hnew (Nat.ne_of_lt (l.wired.started he))
    · exact Or.inl (m.slipped l ht (Option.mem_toList.mp hi) hc)
  · intro i hi
    have hthere : ∃ e, o.cluster.fabric.endpoint? i = some e := by
      rcases List.mem_append.mp hi with hi | hi
      · exact a.known hi
      · obtain ⟨j, n, A, current, -, ⟨k, e, -, -, he, -⟩, -⟩ :=
          slip?_eq_some_iff.mp (Option.mem_toList.mp hi)
        exact ⟨e, he⟩
    obtain ⟨e, he⟩ := hthere
    obtain ⟨e', he', -⟩ := (m.effect.precedes l).config he
    exact ⟨e', he'⟩

/-- Nothing is unaccounted for after any turns. -/
theorem accounted_after (schedule : List Turn) :
    ∀ {o : Overlap} {slipped : List EndpointId}, Orderly o → Accounted o slipped →
      Orderly (o.after schedule) ∧ Accounted (o.after schedule) (slipped ++ o.slips schedule) := by
  induction schedule with
  | nil =>
      intro o slipped h a
      rw [slips, List.append_nil]
      exact ⟨h, a⟩
  | cons turn rest ih =>
      intro o slipped h a
      have hstep : Orderly (o.advance turn) ∧
          Accounted (o.advance turn) (slipped ++ (o.slip? turn).toList) := by
        rcases h.advance turn with ⟨hidle, hsame⟩ | ⟨t, next, ht, m, horderly⟩
        · have hnone : o.slip? turn = none := by
            unfold slip?
            rw [hidle]
          rw [hsame, hnone, Option.toList_none, List.append_nil]
          exact ⟨h, a⟩
        · exact ⟨horderly, a.moves h.linked ht m⟩
      rw [slips, ← List.append_assoc]
      exact ih hstep.1 hstep.2

end Overlap

/-- What is on the nodes when all calls have returned, given the endpoints whose confirmation has
slipped. -/
structure Cluster.Kept (c : Cluster) (slipped : List EndpointId) : Prop where
  /-- What has started is open and its name is registered. It has been decided on by its own
  configuration, and that is the registered one unless it has slipped. -/
  endpoints : ∀ {id h name i}, c.running.get? id = some h → h.caches.get? name = some i →
    ∃ e current, c.fabric.endpoint? i = some e ∧ e.closed = none ∧ e.node = h.member.name ∧
      e.name = name ∧ e.placement = Placement.decide e.config h.member ∧
      c.registry.get? name = some current ∧ (e.config = current ↔ i ∉ slipped)
  /-- A cache that is not registered has no subscriptions. -/
  subscribers : ∀ {name}, c.registry.get? name = none → c.fabric.store.subscriberCount name = 0

namespace Overlap

/-- When all calls have returned, nothing is left to be looked at or taken away. -/
theorem Accounted.kept {o : Overlap} {slipped : List EndpointId} (a : Accounted o slipped)
    (l : o.cluster.Linked) (hreturned : o.returned = true) : o.cluster.Kept slipped := by
  have hnone := pending_eq_false hreturned
  have hdoomed : ∀ {id name}, ¬ o.Doomed id name :=
    fun hd => hd.elim (hnone _) (hnone _)
  have hregistered : ∀ {id name i config}, o.cluster.Carries id name i config →
      ∃ current, o.cluster.registry.get? name = some current ∧
        (config = current ↔ i ∉ slipped) := by
    intro id name i config hc
    by_cases hi : i ∈ slipped
    · obtain ⟨current, hreg, hne⟩ := (a.stale hc hi).resolve_right hdoomed
      exact ⟨current, hreg, iff_of_false hne (not_not_intro hi)⟩
    · rcases a.carried hc with hreg | hslip | hconfirm | hd
      · exact ⟨config, hreg, iff_of_true rfl hi⟩
      · exact absurd hslip hi
      · exact absurd hconfirm (hnone _)
      · exact absurd hd hdoomed
  constructor
  · intro id h name i hr hi
    obtain ⟨e, he, ho, hname, hnode, hplacement⟩ :=
      l.hosted (Cluster.running_eq_some_iff.mp hr).1 hi
    obtain ⟨current, hreg, hiff⟩ := hregistered ⟨h, e, hr, hi, he, rfl⟩
    exact ⟨e, current, he, ho, hnode, hname, hplacement, hreg, hiff⟩
  · intro name hreg
    unfold Store.subscriberCount
    rw [l.listeners_eq_nil fun {id h} hr => ?_, List.length_nil]
    cases hi : h.caches.get? name with
    | none => rfl
    | some i =>
        obtain ⟨config, hc⟩ := l.carries hr hi
        obtain ⟨current, hcurrent, -⟩ := hregistered hc
        rw [hreg] at hcurrent
        cases hcurrent

/-- **No cache that has been destroyed stays on a node, and a slip is all that can keep one of an
old configuration there.** Nodes start, caches are created and destroyed, by any number of calls and
in whatever order their stages come, after whatever users have done before. -/
theorem kept_after {memberIds : Nat → MemberId} (distinct : Function.Injective memberIds)
    (publisher : Fanout) (cs : List Command) (calls : List Call) (schedule : List Turn) :
    let o := ofCalls ((Session.fresh memberIds publisher).after cs).cluster calls
    (o.after schedule).returned = true → (o.after schedule).cluster.Kept (o.slips schedule) := by
  intro o hreturned
  have hsound := Session.Sound.fresh distinct publisher
  have hagrees :=
    Session.agrees_after cs hsound (Cluster.Agrees.empty memberIds publisher)
  have horderly := orderly_ofCalls (hsound.after cs).sound.linked calls
  obtain ⟨h, a⟩ := accounted_after schedule horderly (accounted_ofCalls hagrees calls)
  exact a.kept h.linked hreturned

/-- A node brings along a cache, which is destroyed between its registration and its start. The
node takes it back. -/
theorem kept_after_destroy :
    let o := ofCalls (Session.fresh id {}).cluster
      [.start { name := "a", caches := [{ name := "x" }] }, .destroy "x"]
    let schedule := [(0, none), (0, none), (1, none), (1, none), (1, some 0), (1, none), (0, none),
      (0, none), (0, none), (0, none)]
    (o.after schedule).returned = true ∧ o.slips schedule = [] ∧
      (o.after schedule).cluster.Kept (o.slips schedule) :=
  ⟨by decide, by decide, kept_after Function.injective_id {} [] _ _ (by decide)⟩

/-- If the cache is created anew in between, without near caches, the node keeps what it brought
along: its endpoint has the old configuration and a near cache, and it is subscribed. -/
theorem stale_start_outlives_renewal :
    let renewed : CacheConfig := { name := "x", near := some { enabled := false } }
    let o := (ofCalls (Session.fresh id {}).cluster
      [.start { name := "a", caches := [{ name := "x" }] }, .destroy "x",
        .create 0 renewed]).after
      [(0, none), (0, none), (1, none), (1, none), (1, some 0), (1, none), (2, none), (2, none),
        (0, none), (0, none), (2, some 0), (2, some 0), (0, none), (0, none), (0, none), (0, none)]
    o.returned = true ∧ o.cluster.registry.get? "x" = some renewed ∧
      ((o.cluster.running.get? 0).bind fun h => h.caches.get? "x") = some 0 ∧
      (o.cluster.fabric.endpoint? 0).map Endpoint.config = some { name := "x" } ∧
      o.cluster.fabric.store.subscriberCount "x" = 1 := by
  decide

end Overlap

end NearCache
