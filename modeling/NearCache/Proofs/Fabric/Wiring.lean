import NearCache.Proofs.Fabric.Serving

/-!
# Subscriptions and near caches

An open endpoint with a near cache has one subscription, to its own cache, and no other endpoint has
any: `Fabric.Wired`. Starting, closing, reading and writing all keep it that way, so it holds of
every fabric that is ever built.

The consequence that matters is `Wired.endpoint?_tell`: an announcement reaches every open near
cache of its cache, each once, and nothing else.
-/

namespace NearCache

/-- An endpoint as it starts. -/
def Endpoint.opened (node : String) (config : CacheConfig) (placement : Placement)
    (subscription : Nat) : Endpoint where
  node
  config
  placement
  front := if placement.isPresent then some {} else none
  subscription := if placement.isPresent then some subscription else none

/-- An endpoint after it was asked to close: a closed one stays as it is. -/
def Endpoint.shut (reason : Closing) (e : Endpoint) : Endpoint :=
  if e.closed.isSome then e
  else { e with closed := some reason, subscription := none, front := e.front.map Front.clear }

@[simp] theorem Endpoint.closed_shut (reason : Closing) (e : Endpoint) :
    (e.shut reason).closed ≠ none := by
  unfold shut
  split
  · next h => intro hn; rw [hn] at h; cases h
  · simp

/-- Closing twice is closing once. -/
@[simp] theorem Endpoint.shut_shut (reason : Closing) (e : Endpoint) :
    (e.shut reason).shut reason = e.shut reason :=
  if_pos (Option.isSome_iff_ne_none.mpr (e.closed_shut reason))

theorem Endpoint.config_shut (reason : Closing) (e : Endpoint) :
    (e.shut reason).config = e.config := by
  unfold shut
  split <;> rfl

namespace Fabric

/-! ## Starting and closing -/

theorem endpoint?_start (f : Fabric) (node : String) (config : CacheConfig) (p : Placement)
    (j : EndpointId) :
    (f.start node config p).2.endpoint? j =
      if j = f.started then some (.opened node config p (f.store.lastSubscription + 1))
      else f.endpoint? j := by
  cases p <;>
    simp [start, endpoint?, Table.get?_insert, Placement.isPresent, Endpoint.opened,
      Store.subscribe]

theorem start_fst (f : Fabric) (node : String) (config : CacheConfig) (p : Placement) :
    (f.start node config p).1 = f.started := by
  cases p <;> rfl

theorem started_start (f : Fabric) (node : String) (config : CacheConfig) (p : Placement) :
    (f.start node config p).2.started = f.started + 1 := by
  cases p <;> rfl

theorem subscriptions_start (f : Fabric) (node : String) (config : CacheConfig) (p : Placement)
    (s : Nat) :
    (f.start node config p).2.store.subscriptions.get? s =
      if p.isPresent ∧ s = f.store.lastSubscription + 1 then some ⟨config.name, f.started⟩
      else f.store.subscriptions.get? s := by
  cases p <;> simp [start, Placement.isPresent, Store.subscribe, Table.get?_insert]

theorem lastSubscription_start (f : Fabric) (node : String) (config : CacheConfig)
    (p : Placement) :
    (f.start node config p).2.store.lastSubscription =
      if p.isPresent then f.store.lastSubscription + 1 else f.store.lastSubscription := by
  cases p <;> simp [start, Placement.isPresent, Store.subscribe]

/-- Starting an endpoint changes nothing in the store but its subscriptions. -/
theorem store_start (f : Fabric) (node : String) (config : CacheConfig) (p : Placement) :
    ∃ subscriptions lastSubscription, (f.start node config p).2.store =
      { f.store with subscriptions, lastSubscription } := by
  cases p <;> exact ⟨_, _, rfl⟩

theorem data_start (f : Fabric) (node : String) (config : CacheConfig) (p : Placement) :
    (f.start node config p).2.store.data = f.store.data ∧
      (f.start node config p).2.store.lastVersion = f.store.lastVersion := by
  obtain ⟨subs, n, hs⟩ := f.store_start node config p
  rw [hs]
  exact ⟨rfl, rfl⟩

theorem endpoint?_close (f : Fabric) (id j : EndpointId) (r : Closing) :
    (f.close id r).2.endpoint? j =
      if j = id then (f.endpoint? id).map (Endpoint.shut r) else f.endpoint? j := by
  unfold close
  cases he : f.endpoint? id with
  | none =>
      dsimp only
      split
      · next hj => rw [hj, he]; rfl
      · rfl
  | some e =>
      have hids : ∀ k, (f.unsubscribe e).endpoint? k = f.endpoint? k := by
        intro k
        unfold unsubscribe
        split <;> rfl
      by_cases hc : e.closed.isSome
      · simp only [hc, if_true, Option.map_some, Endpoint.shut]
        split
        · next hj => rw [hj, he]
        · rfl
      · simp [endpoint?_update, hids, he, hc, Endpoint.shut]

@[simp] theorem started_close (f : Fabric) (id : EndpointId) (r : Closing) :
    (f.close id r).2.started = f.started := by
  unfold close
  split
  · rfl
  · split
    · rfl
    · show (f.unsubscribe _).started = f.started
      unfold unsubscribe
      split <;> rfl

/-- Closing ends the subscription of an open endpoint and no other. -/
theorem subscriptions_close (f : Fabric) (id : EndpointId) (r : Closing) (s : Nat) :
    (f.close id r).2.store.subscriptions.get? s =
      if ∃ e, f.endpoint? id = some e ∧ e.closed = none ∧ e.subscription = some s then none
      else f.store.subscriptions.get? s := by
  unfold close
  cases he : f.endpoint? id with
  | none => simp
  | some e =>
      cases hc : e.closed with
      | some r => simp [hc]
      | none =>
          dsimp only
          rw [if_neg (by simp [hc])]
          show (f.unsubscribe e).store.subscriptions.get? s = _
          unfold unsubscribe
          cases hs : e.subscription with
          | none => simp [hs]
          | some t =>
              simp only [Store.unsubscribe, Table.get?_erase, Option.some.injEq]
              by_cases hst : s = t
              · simp [hst, hc, hs]
              · simp [hst, Ne.symm hst, hs]

/-- Closing an endpoint changes nothing in the store but its subscriptions. -/
theorem store_close (f : Fabric) (id : EndpointId) (r : Closing) :
    ∃ subscriptions, (f.close id r).2.store = { f.store with subscriptions } := by
  unfold close
  split
  · exact ⟨_, rfl⟩
  · split
    · exact ⟨_, rfl⟩
    · show ∃ subscriptions, (f.unsubscribe _).store = { f.store with subscriptions }
      unfold unsubscribe
      split <;> exact ⟨_, rfl⟩

theorem data_close (f : Fabric) (id : EndpointId) (r : Closing) :
    (f.close id r).2.store.data = f.store.data ∧
      (f.close id r).2.store.lastVersion = f.store.lastVersion := by
  obtain ⟨subs, hs⟩ := f.store_close id r
  rw [hs]
  exact ⟨rfl, rfl⟩

theorem lastSubscription_close (f : Fabric) (id : EndpointId) (r : Closing) :
    (f.close id r).2.store.lastSubscription = f.store.lastSubscription := by
  obtain ⟨subs, hs⟩ := f.store_close id r
  rw [hs]

theorem precedes_close (f : Fabric) (id : EndpointId) (r : Closing) :
    Precedes f (f.close id r).2 where
  config {j e} he := by
    rw [endpoint?_close]
    split
    · next hj => exact ⟨e.shut r, by rw [← hj, he]; rfl, e.config_shut r⟩
    · exact ⟨e, he, rfl⟩
  advances := .of_data (f.data_close id r).1 (f.data_close id r).2

/-! ## The invariant -/

/-- Subscriptions and open near caches belong to each other, one to one. -/
structure Wired (f : Fabric) : Prop where
  started : ∀ {id e}, f.endpoint? id = some e → id < f.started
  numbered : ∀ {s sub}, f.store.subscriptions.get? s = some sub → s ≤ f.store.lastSubscription
  listens : ∀ {s sub}, f.store.subscriptions.get? s = some sub ↔
    ∃ e, f.endpoint? sub.listener = some e ∧ e.subscription = some s ∧ e.name = sub.cache
  tuned : ∀ {id e}, f.endpoint? id = some e →
    (e.subscription.isSome ↔ e.closed = none ∧ e.front.isSome)
  placed : ∀ {id e}, f.endpoint? id = some e → e.front.isSome = e.placement.isPresent

namespace Wired

theorem empty : Wired {} where
  started h := by cases h
  numbered h := by cases h
  listens := by
    intro s sub
    constructor
    · intro h; cases h
    · rintro ⟨e, he, -⟩; cases he
  tuned h := by cases h
  placed h := by cases h

/-- Reads and writes leave the wiring alone. -/
theorem serves {f f' : Fabric} (hw : Wired f) (h : Serves f f') : Wired f' where
  started := by
    intro id e' he'
    obtain ⟨e, he, -⟩ := h.endpoint he'
    rw [h.started]
    exact hw.started he
  numbered := by
    intro s sub hs
    rw [h.subscriptions] at hs
    rw [h.lastSubscription]
    exact hw.numbered hs
  listens := by
    intro s sub
    rw [h.subscriptions, hw.listens]
    constructor
    · rintro ⟨e, he, hsub, hname⟩
      obtain ⟨e', he', hframe⟩ := h.keeps he
      obtain ⟨-, hconfig, -, -, hsub', -⟩ := Endpoint.eq_of_frame_eq hframe
      exact ⟨e', he', hsub'.trans hsub, (Endpoint.name_of_config hconfig).trans hname⟩
    · rintro ⟨e', he', hsub, hname⟩
      obtain ⟨e, he, hframe⟩ := h.endpoint he'
      obtain ⟨-, hconfig, -, -, hsub', -⟩ := Endpoint.eq_of_frame_eq hframe
      exact ⟨e, he, hsub'.symm.trans hsub, (Endpoint.name_of_config hconfig).symm.trans hname⟩
  tuned := by
    intro id e' he'
    obtain ⟨e, he, hframe⟩ := h.endpoint he'
    obtain ⟨-, -, -, hfront, hsub, hclosed⟩ := Endpoint.eq_of_frame_eq hframe
    rw [hsub, hclosed, hfront]
    exact hw.tuned he
  placed := by
    intro id e' he'
    obtain ⟨e, he, hframe⟩ := h.endpoint he'
    obtain ⟨-, -, hplacement, hfront, -, -⟩ := Endpoint.eq_of_frame_eq hframe
    rw [hfront, hplacement]
    exact hw.placed he

theorem start {f : Fabric} (hw : Wired f) (node : String) (config : CacheConfig)
    (p : Placement) : Wired (f.start node config p).2 where
  started := by
    intro id e he
    rw [started_start]
    rw [endpoint?_start] at he
    split at he
    · next hid => exact hid ▸ Nat.lt_succ_self _
    · exact Nat.lt_succ_of_lt (hw.started he)
  numbered := by
    intro s sub hs
    rw [lastSubscription_start]
    rw [subscriptions_start] at hs
    split at hs
    · next h => rw [if_pos h.1]; omega
    · have := hw.numbered hs
      split <;> omega
  listens := by
    intro s sub
    rw [subscriptions_start, endpoint?_start]
    constructor
    · intro hs
      split at hs
      · next h =>
        obtain ⟨hp, rfl⟩ := h
        cases hs
        exact ⟨_, if_pos rfl, by simp [Endpoint.opened, hp], rfl⟩
      · obtain ⟨e, he, hrest⟩ := hw.listens.mp hs
        have hne : sub.listener ≠ f.started := Nat.ne_of_lt (hw.started he)
        exact ⟨e, (if_neg hne).trans he, hrest⟩
    · rintro ⟨e, he, hsub, hname⟩
      by_cases hid : sub.listener = f.started
      · rw [if_pos hid] at he
        cases he
        simp only [Endpoint.opened] at hsub
        split at hsub
        · next hp =>
          cases hsub
          rw [if_pos ⟨hp, rfl⟩, ← hid]
          exact congrArg some (congrArg (Subscription.mk · _) hname)
        · cases hsub
      · rw [if_neg hid] at he
        have hs := hw.listens.mpr ⟨e, he, hsub, hname⟩
        -- the number of the new subscription was not in use
        have := hw.numbered hs
        rw [if_neg (by omega)]
        exact hs
  tuned := by
    intro id e he
    rw [endpoint?_start] at he
    split at he
    · cases he
      simp only [Endpoint.opened]
      split <;> simp
    · exact hw.tuned he
  placed := by
    intro id e he
    rw [endpoint?_start] at he
    split at he
    · cases he
      simp only [Endpoint.opened]
      split <;> simp_all
    · exact hw.placed he

theorem close {f : Fabric} (hw : Wired f) (id : EndpointId) (r : Closing) :
    Wired (f.close id r).2 where
  started := by
    intro j e he
    rw [started_close]
    rw [endpoint?_close] at he
    split at he
    · next hj =>
      obtain ⟨e₀, he₀, -⟩ := Option.map_eq_some_iff.mp he
      exact hj ▸ hw.started he₀
    · exact hw.started he
  numbered := by
    intro s sub hs
    rw [lastSubscription_close]
    rw [subscriptions_close] at hs
    split at hs
    · cases hs
    · exact hw.numbered hs
  listens := by
    intro s sub
    rw [subscriptions_close, endpoint?_close]
    constructor
    · intro hs
      split at hs
      · cases hs
      · next hkeep =>
        obtain ⟨e, he, hsub, hname⟩ := hw.listens.mp hs
        have hid : sub.listener ≠ id := by
          intro hid
          rw [hid] at he
          exact hkeep ⟨e, he, ((hw.tuned he).mp (by simp [hsub])).1, hsub⟩
        exact ⟨e, (if_neg hid).trans he, hsub, hname⟩
    · rintro ⟨e, he, hsub, hname⟩
      by_cases hid : sub.listener = id
      · -- a closed endpoint has no subscription, before and after
        rw [if_pos hid] at he
        obtain ⟨e₀, he₀, rfl⟩ := Option.map_eq_some_iff.mp he
        unfold Endpoint.shut at hsub
        split at hsub
        · next hc =>
          have hopen := ((hw.tuned he₀).mp (by simp [hsub])).1
          rw [hopen] at hc
          cases hc
        · cases hsub
      · rw [if_neg hid] at he
        have hs := hw.listens.mpr ⟨e, he, hsub, hname⟩
        rw [if_neg]
        · exact hs
        · rintro ⟨e₁, he₁, -, hsub₁⟩
          have hs₁ : f.store.subscriptions.get? s = some ⟨e₁.name, id⟩ :=
            hw.listens.mpr ⟨e₁, he₁, hsub₁, rfl⟩
          rw [hs] at hs₁
          cases hs₁
          exact hid rfl
  tuned := by
    intro j e he
    rw [endpoint?_close] at he
    split at he
    · obtain ⟨e₀, he₀, rfl⟩ := Option.map_eq_some_iff.mp he
      unfold Endpoint.shut
      split
      · exact hw.tuned he₀
      · simp
    · exact hw.tuned he
  placed := by
    intro j e he
    rw [endpoint?_close] at he
    split at he
    · obtain ⟨e₀, he₀, rfl⟩ := Option.map_eq_some_iff.mp he
      have hp := hw.placed he₀
      unfold Endpoint.shut
      split
      · exact hp
      · simpa using hp
    · exact hw.placed he

theorem precedes_start {f : Fabric} (hw : Wired f) (node : String) (config : CacheConfig)
    (p : Placement) : Precedes f (f.start node config p).2 where
  config he := ⟨_, by rw [endpoint?_start, if_neg (Nat.ne_of_lt (hw.started he)), he], rfl⟩
  advances := .of_data (f.data_start node config p).1 (f.data_start node config p).2

/-! ## Announcements arrive where they belong -/

/-- The listeners of a cache are its open endpoints with a near cache. -/
theorem mem_listeners_iff {f : Fabric} (hw : Wired f) {id : EndpointId} {c : String} :
    id ∈ f.store.listeners c ↔
      ∃ e, f.endpoint? id = some e ∧ (e.closed = none ∧ e.front.isSome) ∧ e.name = c := by
  have hmem : id ∈ f.store.listeners c ↔ ∃ s, f.store.subscriptions.get? s = some ⟨c, id⟩ := by
    simp only [Store.listeners, List.mem_map, List.mem_filter, decide_eq_true_eq,
      Table.mem_values_iff]
    constructor
    · rintro ⟨⟨c', id'⟩, ⟨⟨s, hs⟩, rfl⟩, rfl⟩
      exact ⟨s, hs⟩
    · rintro ⟨s, hs⟩
      exact ⟨⟨c, id⟩, ⟨⟨s, hs⟩, rfl⟩, rfl⟩
  rw [hmem]
  constructor
  · rintro ⟨s, hs⟩
    obtain ⟨e, he, hsub, hname⟩ := hw.listens.mp hs
    exact ⟨e, he, (hw.tuned he).mp (by simp [hsub]), hname⟩
  · rintro ⟨e, he, hopen, hname⟩
    obtain ⟨s, hs⟩ := Option.isSome_iff_exists.mp ((hw.tuned he).mpr hopen)
    exact ⟨s, hw.listens.mpr ⟨e, he, hs, hname⟩⟩

/-- Every subscription has a listener of its own. -/
theorem nodup_subscribers {f : Fabric} (hw : Wired f) :
    (f.store.subscriptions.values.map Subscription.listener).Nodup := by
  unfold Table.values
  rw [List.map_map]
  refine List.Nodup.map_on ?_ (Table.nodup_entries _)
  rintro ⟨s, sub⟩ hs ⟨t, tub⟩ ht hlistener
  rw [Table.mem_entries_iff] at hs ht
  obtain ⟨e, he, hsub, hname⟩ := hw.listens.mp hs
  obtain ⟨e', he', htub, hname'⟩ := hw.listens.mp ht
  have hl : sub.listener = tub.listener := hlistener
  rw [hl, he'] at he
  cases he
  rw [hsub] at htub
  cases htub
  rw [hs] at ht
  cases ht
  rfl

theorem nodup_listeners {f : Fabric} (hw : Wired f) (c : String) :
    (f.store.listeners c).Nodup :=
  hw.nodup_subscribers.sublist (List.filter_sublist.map _)

/-- The endpoints that subscribe are the open ones with a near cache. -/
theorem mem_subscribers_iff {f : Fabric} (hw : Wired f) {id : EndpointId} :
    id ∈ f.store.subscriptions.values.map Subscription.listener ↔
      ∃ e, f.endpoint? id = some e ∧ e.closed = none ∧ e.front.isSome := by
  simp only [List.mem_map, Table.mem_values_iff]
  constructor
  · rintro ⟨sub, ⟨s, hs⟩, rfl⟩
    obtain ⟨e, he, hsub, -⟩ := hw.listens.mp hs
    exact ⟨e, he, (hw.tuned he).mp (by simp [hsub])⟩
  · rintro ⟨e, he, hopen⟩
    obtain ⟨s, hs⟩ := Option.isSome_iff_exists.mp ((hw.tuned he).mpr hopen)
    exact ⟨⟨e.name, id⟩, ⟨s, hw.listens.mpr ⟨e, he, hs, rfl⟩⟩, rfl⟩

end Wired

/-- Each of several different endpoints hears an announcement once. -/
theorem endpoint?_deliver (n : Notice) (id : EndpointId) (ls : List EndpointId) :
    ∀ f : Fabric, ls.Nodup →
      (f.deliver (ls.map (⟨·, n⟩))).endpoint? id =
        if id ∈ ls then (f.endpoint? id).map (·.hear n) else f.endpoint? id := by
  induction ls with
  | nil => intro f _; rfl
  | cons l ls ih =>
      intro f hnd
      obtain ⟨hl, hnd⟩ := List.nodup_cons.mp hnd
      show ((f.update l (·.hear n)).deliver (ls.map (⟨·, n⟩))).endpoint? id = _
      rw [ih _ hnd, endpoint?_update]
      by_cases hid : id = l
      · subst hid
        simp [hl]
      · simp [hid]

/-- An announcement is heard by the open endpoints of its cache. -/
theorem Wired.endpoint?_tell {f : Fabric} (hw : Wired f) {id : EndpointId} {e : Endpoint}
    (he : f.endpoint? id = some e) (n : Notice) :
    (f.tell n).endpoint? id =
      some (if e.closed = none ∧ e.name = n.cache then e.hear n else e) := by
  have hdeliver := endpoint?_deliver n id (f.store.listeners n.cache)
    { f with store := (f.store.announce n).2 } (hw.nodup_listeners n.cache)
  have hmem : id ∈ f.store.listeners n.cache ↔
      (e.closed = none ∧ e.front.isSome) ∧ e.name = n.cache := by
    rw [hw.mem_listeners_iff, he]
    simp
  have he' : endpoint? { f with store := (f.store.announce n).2 } id = some e := he
  rw [he'] at hdeliver
  refine hdeliver.trans ?_
  by_cases hf : e.front.isSome
  · simp only [hmem, hf, and_true]
    split <;> rfl
  · have hnone : e.front = none := by simpa using hf
    have hhear : e.hear n = e := by simp [Endpoint.hear, hnone]
    simp [hmem, hf, hhear]

theorem endpoint?_tell_eq_none {f : Fabric} {id : EndpointId} (h : f.endpoint? id = none)
    (n : Notice) : (f.tell n).endpoint? id = none := by
  have hframe := (serves_tell f n).frame id
  rw [h] at hframe
  simpa using hframe

end Fabric

end NearCache
