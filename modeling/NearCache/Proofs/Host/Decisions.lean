import NearCache.Proofs.Host.Outpost

/-!
# The first decision stands

A host decides about a cache when it is asked to activate it, and then no more: whoever asks for the
cache again gets the same endpoint, whatever configuration comes with the question, and nothing else
happens. That ends when the cache is taken from the host or the host stops, and then the endpoint is
closed for good, for the reason of the order that took it (`Order.Takes`).

Endpoints are followed through the orders in three steps: what one order does to a name
(`Turn.started?_eq`), that an endpoint stays until an order takes it (`holds_or_left`), and that it
stays closed from then on (`endpoint?_after`). `decided_after` puts together what holds of a host
after any orders.
-/

namespace NearCache.Outpost

/-- The host has the endpoint under some name. -/
def Holds (s : Outpost) (i : EndpointId) : Prop := ∃ name, s.started? name = some i

/-- Whether an endpoint has a near cache. -/
def hasNear (s : Outpost) (i : EndpointId) : Bool := (s.fabric.endpoint? i).any Endpoint.hasNear

/-- The orders that take the endpoint of a name from the host, and for what reason. -/
inductive Order.Takes (name : String) : Order → Closing → Prop where
  | deactivate : Takes name (.deactivate name) .cacheDestroyed
  | shutdown : Takes name .shutdown .nodeStopped

/-- Every activation of the name was followed by its deactivation. -/
def Unheld (os : List Order) (name : String) : Prop :=
  ∀ p config t q, os = p ++ .activate config t :: q → config.name = name → .deactivate name ∈ q

/-- Some activation among the orders returned the endpoint. -/
def Returned (m : Member) (os : List Order) (i : EndpointId) : Prop :=
  ∃ p config t q told, os = p ++ .activate config t :: q ∧
    (((fresh m).after p).serve (.activate config t)).1 = .activated (.ok i) told

/-- Some order took the endpoint from the host. -/
def Left (m : Member) (os : List Order) (i : EndpointId) (reason : Closing) : Prop :=
  ∃ p o q name, os = p ++ o :: q ∧ Order.Takes name o reason ∧
    ((fresh m).after p).started? name = some i

/-- The endpoint is what the host decided about a configuration, and asking again is idle. -/
structure Stands (s : Outpost) (config : CacheConfig) (i : EndpointId) : Prop where
  decided : ∃ e, s.fabric.endpoint? i = some e ∧ e.closed = none ∧ e.config = config ∧
    e.placement = Placement.decide config s.host.member ∧ e.hasNear = e.placement.isPresent
  again : ∀ config' t, config'.name = config.name →
    s.serve (.activate config' t) = (.activated (.ok i) [], s)

/-- What holds of the outpost of a member after orders. -/
structure Decided (m : Member) (os : List Order) (s : Outpost) : Prop where
  member : s.host.member = m
  /-- The first activation of a name opens an endpoint, and this one stands as long as the name is
  not deactivated and the host runs. -/
  sticks : ∀ p config t q, os = p ++ .activate config t :: q → Unheld p config.name →
    .shutdown ∉ os → .deactivate config.name ∉ q →
    ∃ i, ((fresh m).after p).fabric.endpoint? i = none ∧
      (((fresh m).after p).serve (.activate config t)).1 = .activated (.ok i)
        (Host.startEvents m.name config.name t (Placement.decide config m)) ∧
      s.Stands config i
  filed : ∀ name i, s.started? name = some i →
    ∃ e, s.fabric.endpoint? i = some e ∧ e.closed = none ∧ e.name = name
  /-- An endpoint that was ever returned is still there, or some order took it. -/
  returned : ∀ i, Returned m os i → s.Holds i ∨ ∃ reason, Left m os i reason
  left : ∀ i reason, Left m os i reason →
    ¬ s.Holds i ∧ ∃ e, s.fabric.endpoint? i = some e ∧ e.closed = some reason
  subscriptions : s.fabric.store.subscriptions.size =
    (s.host.caches.values.filter s.hasNear).length
  listens : ∀ name i, i ∈ s.fabric.store.listeners name ↔
    s.started? name = some i ∧ s.hasNear i
  runs : .shutdown ∉ os → (s.serve .shutdown).1 = .stopped true
  stopped : .shutdown ∈ os → s.host.caches = ∅ ∧ s.serve .shutdown = (.stopped false, s) ∧
    ∀ config t, s.serve (.activate config t) = (.activated (.error (.nodeStopped m.name)) [], s)

variable {m : Member} {s s' : Outpost} {o : Order} {r : Reply} {os : List Order}
variable {i : EndpointId} {name : String}

/-! ## One order -/

namespace Turn

theorem member_eq (h : Turn s o r s') : s'.host.member = s.host.member := by
  cases h <;> rfl

theorem stopped_iff (h : Turn s o r s') :
    s'.host.stopped = true ↔ s.host.stopped = true ∨ o = .shutdown := by
  cases h <;> simp_all [opening, closing, stopping]

/-- An endpoint stays unless the order takes it. -/
theorem started?_eq (h : Turn s o r s') (hi : s.started? name = some i)
    (keeps : ∀ reason, ¬ Order.Takes name o reason) : s'.started? name = some i := by
  cases h with
  | refused | known | missing | again => exact hi
  | opens _ new =>
      refine (Table.get?_insert _ _ _ _).trans ?_
      rw [if_neg]
      · exact hi
      · rintro rfl
        rw [new] at hi
        cases hi
  | closes =>
      refine (Table.get?_erase _ _ _).trans ?_
      rw [if_neg]
      · exact hi
      · rintro rfl
        exact keeps _ .deactivate
  | stops => exact absurd .shutdown (keeps _)

/-- A name without an endpoint gets one only when it is activated. -/
theorem started?_eq_none (h : Turn s o r s') (hi : s.started? name = none)
    (other : ∀ config t, o = .activate config t → config.name ≠ name) :
    s'.started? name = none := by
  cases h with
  | refused | known | missing | again => exact hi
  | opens _ _ t =>
      refine (Table.get?_insert _ _ _ _).trans ?_
      rw [if_neg (other _ t rfl).symm]
      exact hi
  | closes =>
      refine (Table.get?_erase _ _ _).trans ?_
      split
      · rfl
      · exact hi
  | stops => rfl

theorem started?_deactivated (h : Turn s (.deactivate name) r s') : s'.started? name = none := by
  cases h with
  | missing hi => exact hi
  | closes => exact (Table.get?_erase _ _ _).trans (if_pos rfl)

/-- What an activation returns is under its name then. -/
theorem started?_activated {config : CacheConfig} {t : Trigger} {told : List Event}
    (h : Turn s (.activate config t) (.activated (.ok i) told) s') :
    s'.started? config.name = some i := by
  cases h with
  | known _ hi => exact hi
  | opens => exact Table.get?_insert_self _ _ _

/-- A closed endpoint does not change any more. -/
theorem endpoint?_eq (h : Turn s o r s') (hw : s.fabric.Wired) {e : Endpoint}
    (he : s.fabric.endpoint? i = some e) (hc : e.closed.isSome) :
    s'.fabric.endpoint? i = some e := by
  have hshut : ∀ reason, e.shut reason = e := fun _ => if_pos hc
  cases h with
  | refused | known | missing | again => exact he
  | opens =>
      refine (Fabric.endpoint?_start _ _ _ _ _).trans ?_
      rw [if_neg (Nat.ne_of_lt (hw.started he)), he]
  | closes =>
      refine (Fabric.endpoint?_close _ _ _ _).trans ?_
      split
      · next hi => rw [← hi, he, Option.map_some, hshut]
      · exact he
  | stops =>
      refine (Host.endpoint?_closeAll _ _ _).trans ?_
      rw [he, Option.map_some, hshut, ite_self]

/-- An endpoint that is taken is closed for the reason of the order. -/
theorem closed (h : Turn s o r s') (l : s.cluster.Linked) {reason : Closing}
    (takes : Order.Takes name o reason) (hi : s.started? name = some i) :
    ∃ e, s'.fabric.endpoint? i = some e ∧ e.closed = some reason := by
  obtain ⟨e, he, hopen, -⟩ := l.hosted s.host?_own hi
  have he : s.fabric.endpoint? i = some e := he
  refine ⟨e.shut reason, ?_, by simp [Endpoint.shut, hopen]⟩
  cases takes with
  | deactivate =>
      cases h with
      | missing hnone =>
          rw [hnone] at hi
          cases hi
      | closes held =>
          rw [hi] at held
          cases held
          refine (Fabric.endpoint?_close _ _ _ _).trans ?_
          rw [if_pos rfl, he]
          rfl
  | shutdown =>
      cases h with
      | again stopped =>
          have hidle := l.idle s.host?_own stopped
          rw [started?, hidle] at hi
          cases hi
      | stops =>
          refine (Host.endpoint?_closeAll _ _ _).trans ?_
          rw [if_pos (Table.mem_values_iff.mpr ⟨name, hi⟩), he]
          rfl

end Turn

/-! ## Orders one after the other -/

theorem member_after (m : Member) (os : List Order) :
    ((fresh m).after os).host.member = m := by
  induction os using List.reverseRecOn with
  | nil => rfl
  | append_singleton os o ih => rw [after_snoc, (turn_serve _ o).member_eq, ih]

theorem stopped_after (m : Member) (os : List Order) :
    ((fresh m).after os).host.stopped = true ↔ .shutdown ∈ os := by
  induction os using List.reverseRecOn with
  | nil => simp [after, fresh]
  | append_singleton os o ih =>
      rw [after_snoc, (turn_serve _ o).stopped_iff, ih, List.mem_append, List.mem_singleton,
        eq_comm (a := o)]

theorem steps_after (l : s.cluster.Linked) (os : List Order) :
    Cluster.Steps s.cluster (s.after os).cluster := by
  induction os using List.reverseRecOn with
  | nil => exact .refl
  | append_singleton os o ih =>
      rw [after_snoc]
      exact ih.trans ((turn_serve _ o).steps (l.steps ih))

theorem started?_after (s : Outpost) (hi : s.started? name = some i)
    (keeps : ∀ o ∈ os, ∀ reason, ¬ Order.Takes name o reason) :
    (s.after os).started? name = some i := by
  induction os using List.reverseRecOn with
  | nil => exact hi
  | append_singleton os o ih =>
      rw [after_snoc]
      refine (turn_serve _ o).started?_eq (ih fun o' ho' => keeps o' ?_) (keeps o ?_)
      · exact List.mem_append_left _ ho'
      · exact List.mem_append_right _ (List.mem_singleton_self o)

theorem endpoint?_after (l : s.cluster.Linked) {e : Endpoint}
    (he : s.fabric.endpoint? i = some e) (hc : e.closed.isSome) (os : List Order) :
    (s.after os).fabric.endpoint? i = some e := by
  induction os using List.reverseRecOn with
  | nil => exact he
  | append_singleton os o ih =>
      rw [after_snoc]
      exact (turn_serve _ o).endpoint?_eq (l.steps (steps_after l os)).wired ih hc

theorem Unheld.of_snoc (h : Unheld (os ++ [o]) name) (ho : o ≠ .deactivate name) :
    Unheld os name := by
  rintro p config t q rfl hname
  have hmem := h p config t (q ++ [o]) (by simp) hname
  simpa [ho.symm] using hmem

/-- A name that nobody holds has no endpoint. -/
theorem started?_of_unheld (m : Member) (h : Unheld os name) :
    ((fresh m).after os).started? name = none := by
  induction os using List.reverseRecOn with
  | nil => rfl
  | append_singleton os o ih =>
      rw [after_snoc]
      by_cases ho : o = .deactivate name
      · subst ho
        exact (turn_serve _ _).started?_deactivated
      · refine (turn_serve _ o).started?_eq_none (ih (h.of_snoc ho)) ?_
        rintro config t rfl hname
        cases h os config t [] rfl hname

theorem Left.snoc {reason : Closing} (h : Left m os i reason) (o : Order) :
    Left m (os ++ [o]) i reason := by
  obtain ⟨p, o', q, name, rfl, takes, hi⟩ := h
  exact ⟨p, o', q ++ [o], name, by simp, takes, hi⟩

/-- An endpoint stays until an order takes it. -/
theorem holds_or_left {p : List Order} (h : ((fresh m).after p).Holds i) (q : List Order) :
    ((fresh m).after (p ++ q)).Holds i ∨ ∃ reason, Left m (p ++ q) i reason := by
  induction q using List.reverseRecOn with
  | nil =>
      rw [List.append_nil]
      exact Or.inl h
  | append_singleton q o ih =>
      rw [← List.append_assoc]
      rcases ih with ⟨name, hi⟩ | ⟨reason, hleft⟩
      · by_cases htakes : ∃ reason, Order.Takes name o reason
        · obtain ⟨reason, takes⟩ := htakes
          exact Or.inr ⟨reason, p ++ q, o, [], name, rfl, takes, hi⟩
        · refine Or.inl ⟨name, ?_⟩
          rw [after_snoc]
          exact (turn_serve _ o).started?_eq hi (not_exists.mp htakes)
      · exact Or.inr ⟨reason, hleft.snoc o⟩

/-! ## What holds after any orders -/

/-- An endpoint of the host with a configuration stands for it. -/
theorem stands (l : s.cluster.Linked) {config : CacheConfig}
    (hi : s.started? config.name = some i) {e : Endpoint}
    (he : s.fabric.endpoint? i = some e) (hc : e.config = config) : s.Stands config i := by
  obtain ⟨e', he', hopen, -, -, hplacement⟩ := l.hosted s.host?_own hi
  have he' : s.fabric.endpoint? i = some e' := he'
  rw [he] at he'
  cases he'
  have runs := (Cluster.running_eq_some_iff.mp (l.runs s.host?_own hi)).2
  refine ⟨⟨e, he, hopen, hc, ?_, l.wired.placed he⟩, ?_⟩
  · rw [hplacement, hc]
  · exact fun config' t hname => serve_known runs (by rw [hname]; exact hi) t

/-- An endpoint that has just opened stands until its name is deactivated or the host stops. -/
theorem stands_opening (l : s.cluster.Linked) (runs : s.host.stopped = false)
    {config : CacheConfig} (new : s.started? config.name = none) (ongoing : .shutdown ∉ os)
    (kept : .deactivate config.name ∉ os) :
    ((s.opening config).after os).Stands config s.fabric.started := by
  have hlinked : (s.opening config).cluster.Linked := by
    rw [cluster_opening runs]
    exact l.starting (runs_own runs) new
  have hstarted : ((s.opening config).after os).started? config.name = some s.fabric.started := by
    refine started?_after _ (Table.get?_insert_self _ _ _) ?_
    rintro o ho reason (_ | _)
    · exact kept ho
    · exact ongoing ho
  have hendpoint : (s.opening config).fabric.endpoint? s.fabric.started =
      some (.opened s.host.member.name config (Placement.decide config s.host.member)
        (s.fabric.store.lastSubscription + 1)) :=
    (Fabric.endpoint?_start _ _ _ _ _).trans (if_pos rfl)
  -- no order gives an endpoint another configuration
  have hsteps := steps_after hlinked os
  obtain ⟨e, he, hconfig⟩ := (hsteps.precedes hlinked).config hendpoint
  exact stands (hlinked.steps hsteps) hstarted he hconfig

/-- The first activation of a name opens an endpoint that stands from then on. -/
theorem sticks_after (m : Member) {p q : List Order} {config : CacheConfig} (t : Trigger)
    (unheld : Unheld p config.name) (runs : .shutdown ∉ p ++ .activate config t :: q)
    (kept : .deactivate config.name ∉ q) :
    ∃ i, ((fresh m).after p).fabric.endpoint? i = none ∧
      (((fresh m).after p).serve (.activate config t)).1 = .activated (.ok i)
        (Host.startEvents m.name config.name t (Placement.decide config m)) ∧
      ((fresh m).after (p ++ .activate config t :: q)).Stands config i := by
  obtain ⟨hp, hq⟩ : .shutdown ∉ p ∧ .shutdown ∉ q := by simpa using runs
  have hmember := member_after m p
  have hruns : ((fresh m).after p).host.stopped = false := by
    rwa [← Bool.not_eq_true, stopped_after]
  have hnew := started?_of_unheld m unheld
  have hlinked := linked_after m p
  rw [after_append]
  generalize (fresh m).after p = s at hmember hruns hnew hlinked ⊢
  have hserve := serve_opens hruns hnew t
  rw [hmember] at hserve
  refine ⟨s.fabric.started, ?_, by rw [hserve], ?_⟩
  · cases he : s.fabric.endpoint? s.fabric.started with
    | none => rfl
    | some e => exact absurd (hlinked.wired.started he) (Nat.lt_irrefl _)
  · show ((s.serve (.activate config t)).2.after q).Stands config s.fabric.started
    rw [hserve]
    exact stands_opening hlinked hruns hnew hq kept

/-- The endpoints of the host are those that are open. -/
theorem started?_iff (l : s.cluster.Linked) :
    s.started? name = some i ↔
      ∃ e, s.fabric.endpoint? i = some e ∧ e.closed = none ∧ e.name = name := by
  constructor
  · intro hi
    obtain ⟨e, he, hopen, hname, -⟩ := l.hosted s.host?_own hi
    exact ⟨e, he, hopen, hname⟩
  · rintro ⟨e, he, hopen, rfl⟩
    obtain ⟨j, h, hh, hi⟩ := l.hosting he hopen
    rw [host?_cluster] at hh
    split at hh
    · cases hh
      exact hi
    · cases hh

/-- The active endpoints of the host. -/
theorem started?_hasNear_iff (l : s.cluster.Linked) :
    s.started? name = some i ∧ s.hasNear i ↔
      ∃ e, s.fabric.endpoint? i = some e ∧ (e.closed = none ∧ e.front.isSome) ∧ e.name = name := by
  rw [started?_iff l]
  constructor
  · rintro ⟨⟨e, he, hopen, hname⟩, hnear⟩
    rw [hasNear, he] at hnear
    exact ⟨e, he, ⟨hopen, hnear⟩, hname⟩
  · rintro ⟨e, he, ⟨hopen, hfront⟩, hname⟩
    refine ⟨⟨e, he, hopen, hname⟩, ?_⟩
    rw [hasNear, he]
    exact hfront

/-- Subscriptions belong to the active endpoints of the host, one to each. -/
theorem length_subscriptions (l : s.cluster.Linked) :
    s.fabric.store.subscriptions.size = (s.host.caches.values.filter s.hasNear).length := by
  have hperm : (s.fabric.store.subscriptions.values.map Subscription.listener).Perm
      (s.host.caches.values.filter s.hasNear) := by
    refine (List.perm_ext_iff_of_nodup l.wired.nodup_subscribers
      ((l.nodup_values s.host?_own).filter _)).mpr fun i => ?_
    have hheld : i ∈ s.host.caches.values.filter s.hasNear ↔
        ∃ name, s.started? name = some i ∧ s.hasNear i := by
      rw [List.mem_filter, Table.mem_values_iff, ← exists_and_right]
      rfl
    rw [hheld]
    refine l.wired.mem_subscribers_iff.trans ?_
    simp only [started?_hasNear_iff l]
    constructor
    · rintro ⟨e, he, hactive⟩
      exact ⟨e.name, e, he, hactive, rfl⟩
    · rintro ⟨-, e, he, hactive, -⟩
      exact ⟨e, he, hactive⟩
  have hlength := hperm.length_eq
  rwa [List.length_map, Table.values, List.length_map] at hlength

/-- An endpoint that was returned is still there unless an order took it. -/
theorem holds_or_left_of_returned (h : Returned m os i) :
    ((fresh m).after os).Holds i ∨ ∃ reason, Left m os i reason := by
  obtain ⟨p, config, t, q, told, rfl, hr⟩ := h
  have hholds : ((fresh m).after (p ++ [.activate config t])).Holds i := by
    refine ⟨config.name, ?_⟩
    rw [after_snoc]
    exact (hr ▸ turn_serve _ _).started?_activated
  simpa using holds_or_left hholds q

/-- What left stays closed for the reason for which it left. -/
theorem closed_of_left {reason : Closing} (h : Left m os i reason) :
    ∃ e, ((fresh m).after os).fabric.endpoint? i = some e ∧ e.closed = some reason := by
  obtain ⟨p, o, q, name, rfl, takes, hi⟩ := h
  have l := linked_after m p
  obtain ⟨e, he, hc⟩ := (turn_serve _ o).closed l takes hi
  refine ⟨e, ?_, hc⟩
  rw [after_append]
  exact endpoint?_after (l.steps ((turn_serve _ o).steps l)) he (by simp [hc]) q

/-- A decision stands until its name is deactivated or the host stops, and what left the host is
closed. -/
theorem decided_after (m : Member) (os : List Order) : Decided m os ((fresh m).after os) where
  member := member_after m os
  sticks := by
    rintro p config t q rfl unheld runs kept
    exact sticks_after m t unheld runs kept
  filed name i hi := (started?_iff (linked_after m os)).mp hi
  returned _ := holds_or_left_of_returned
  left i reason h := by
    obtain ⟨e, he, hc⟩ := closed_of_left h
    refine ⟨?_, e, he, hc⟩
    -- what the host has is open
    rintro ⟨name, hi⟩
    obtain ⟨e', he', hopen, -⟩ := (started?_iff (linked_after m os)).mp hi
    rw [he] at he'
    cases he'
    rw [hopen] at hc
    cases hc
  subscriptions := length_subscriptions (linked_after m os)
  listens name i :=
    (linked_after m os).wired.mem_listeners_iff.trans
      (started?_hasNear_iff (linked_after m os)).symm
  runs h := by
    rw [serve_stops]
    rwa [← Bool.not_eq_true, stopped_after]
  stopped h := by
    have hstopped := (stopped_after m os).mpr h
    refine ⟨(linked_after m os).idle (host?_own _) hstopped, serve_again hstopped, ?_⟩
    intro config t
    rw [serve_refused hstopped, member_after]

/-- The second configuration wants no near cache. It counts only after a deactivation. -/
example :
    let m := Member.enrolled 0 "a" .server ∅
    let off : CacheConfig := { name := "x", near := some { enabled := false } }
    let s := (fresh m).after [.activate { name := "x" } .static]
    (s.serve (.activate off .dynamic)).1 = .activated (.ok 0) [] ∧
      ((s.after [.deactivate "x"]).serve (.activate off .dynamic)).1 =
        .activated (.ok 1) [.cacheStarted "a" "x" "dynamic" false] := by
  decide

end NearCache.Outpost
