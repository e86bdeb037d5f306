import NearCache.Proofs.Cluster.Deeds

/-!
# Data belong to registered caches

The store holds data for no name that is not registered (`Cluster.Owned`): nothing that happens to a
cluster gives a name data (`Step.data`), and the two deeds that take names from the registry, to
destroy a cache and to forget all of them, drop the data of the names that they take
(`Owned.destroyCache`, `Owned.forget`).

A name without data and without open endpoints is blank, `Fabric.Blank`. It stays blank when
endpoints are started and closed, as long as nobody reads or writes: what had started before some
point is closed, and what has started since has counted nothing and has an empty near cache.
-/

namespace NearCache

/-- An endpoint that nobody has used since it started. -/
structure Endpoint.Unused (e : Endpoint) : Prop where
  counters : e.counters = {}
  front : ∀ {front}, e.front = some front → front = {}

namespace Endpoint

theorem unused_opened (node : String) (config : CacheConfig) (p : Placement)
    (subscription : Nat) : (opened node config p subscription).Unused where
  counters := rfl
  front {front} hf := by
    simp only [opened] at hf
    split at hf
    · exact (Option.some.inj hf).symm
    · cases hf

variable {e : Endpoint}

theorem Unused.local? (h : e.Unused) (key : Bytes) : e.local? key = none := by
  unfold Endpoint.local?
  cases hf : e.front with
  | none => rfl
  | some front =>
      rw [h.front hf, Option.bind_some, Front.get?, show ({} : Front).cell? key = none from
        Front.cell?_clear {} key]
      rfl

/-- Closing an endpoint uses nothing. -/
theorem Unused.shut (h : e.Unused) (reason : Closing) : (e.shut reason).Unused where
  counters := by
    unfold Endpoint.shut
    split <;> exact h.counters
  front {front} hf := by
    unfold Endpoint.shut at hf
    split at hf
    · exact h.front hf
    · obtain ⟨front₀, -, rfl⟩ := Option.map_eq_some_iff.mp hf
      rfl

/-- The metrics of an unused endpoint are all zero. -/
theorem Unused.snapshot (h : e.Unused) : e.snapshot = ({} : Counters).snapshot 0 := by
  have hsize : e.localSize = 0 := by
    unfold localSize
    cases hf : e.front with
    | none => rfl
    | some front => rw [h.front hf]; rfl
  rw [Endpoint.snapshot, h.counters, hsize]

end Endpoint

namespace Fabric

/-- The store has no data of a cache. Of the endpoints of the cache, those below `n` are closed, and
the others are unused. -/
structure Blank (f : Fabric) (name : String) (n : Nat) : Prop where
  started : n ≤ f.started
  data : f.store.data.get? name = none
  past : ∀ {i e}, f.endpoint? i = some e → e.name = name → i < n → e.closed ≠ none
  unused : ∀ {i e}, f.endpoint? i = some e → e.name = name → n ≤ i → e.Unused

namespace Blank

variable {f : Fabric} {name : String} {n : Nat}

/-- Nothing has happened under any name in a fabric in which nothing has happened. -/
theorem empty (name : String) : Blank {} name 0 where
  started := Nat.le_refl 0
  data := rfl
  past h := by cases h
  unused h := by cases h

theorem start (b : Blank f name n) (node : String) (config : CacheConfig) (p : Placement) :
    Blank (f.start node config p).2 name n where
  started := by
    rw [started_start]
    exact Nat.le_succ_of_le b.started
  data := by rw [(f.data_start node config p).1, b.data]
  past {i e} he hname hi := by
    rw [endpoint?_start, if_neg (Nat.ne_of_lt (Nat.lt_of_lt_of_le hi b.started))] at he
    exact b.past he hname hi
  unused {i e} he hname hi := by
    rw [endpoint?_start] at he
    split at he
    · cases he
      exact Endpoint.unused_opened node config p _
    · exact b.unused he hname hi

theorem close (b : Blank f name n) (i : EndpointId) (reason : Closing) :
    Blank (f.close i reason).2 name n where
  started := by
    rw [started_close]
    exact b.started
  data := by rw [(f.data_close i reason).1, b.data]
  past {j e} he hname hj := by
    rw [endpoint?_close] at he
    split at he
    · obtain ⟨e₀, -, rfl⟩ := Option.map_eq_some_iff.mp he
      exact e₀.closed_shut reason
    · exact b.past he hname hj
  unused {j e} he hname hj := by
    rw [endpoint?_close] at he
    split at he
    · next hi =>
      obtain ⟨e₀, he₀, rfl⟩ := Option.map_eq_some_iff.mp he
      rw [Endpoint.name_of_config (e₀.config_shut reason)] at hname
      exact (b.unused he₀ hname (hi ▸ hj)).shut reason
    · exact b.unused he hname hj

theorem closeAll (ids : List EndpointId) :
    ∀ {f : Fabric}, Blank f name n → Blank (Host.closeAll f ids) name n := by
  induction ids with
  | nil => intro f b; exact b
  | cons i ids ih => intro f b; exact ih (b.close i .nodeStopped)

theorem destroy (b : Blank f name n) (name' : String) : Blank (f.destroy name') name n where
  started := b.started
  data := by
    show (f.store.data.erase name').get? name = none
    rw [Table.get?_erase, b.data, ite_self]
  past := b.past
  unused := b.unused

/-- An open endpoint of the name is unused, and has not started before. -/
theorem of_open (b : Blank f name n) {i : EndpointId} {e : Endpoint} (he : f.endpoint? i = some e)
    (hname : e.name = name) (hopen : e.closed = none) : n ≤ i ∧ e.Unused := by
  have hi : n ≤ i := Nat.le_of_not_lt fun hi => b.past he hname hi hopen
  exact ⟨hi, b.unused he hname hi⟩

/-- Without data no key has a value. -/
theorem current? (b : Blank f name n) (key : Bytes) : f.store.current? name key = none := by
  unfold Store.current? Store.slot?
  rw [b.data]
  rfl

end Blank

theorem available_start (f : Fabric) (node : String) (config : CacheConfig) (p : Placement) :
    (f.start node config p).2.store.available = f.store.available := by
  obtain ⟨subscriptions, n, hs⟩ := f.store_start node config p
  rw [hs]

theorem available_close (f : Fabric) (i : EndpointId) (reason : Closing) :
    (f.close i reason).2.store.available = f.store.available := by
  obtain ⟨subscriptions, hs⟩ := f.store_close i reason
  rw [hs]

/-- What is dropped has no data any more, and nothing else loses any. -/
theorem data_dropEach (names : List String) (name : String) :
    ∀ f : Fabric, (names.foldl (fun f n => f.destroy n) f).store.data.get? name =
      if name ∈ names then none else f.store.data.get? name := by
  induction names with
  | nil => intro f; rfl
  | cons n names ih =>
      intro f
      show (names.foldl (fun f n => f.destroy n) (f.destroy n)).store.data.get? name = _
      have hdrop : (f.destroy n).store.data.get? name =
          if name = n then none else f.store.data.get? name := Table.get?_erase _ _ _
      rw [ih, hdrop]
      by_cases hn : name = n
      · simp [hn]
      · simp [hn]

end Fabric

namespace Cluster

variable {c c' : Cluster}

/-! ## What changes do to data -/

theorem data_closeAll (ids : List EndpointId) :
    ∀ f : Fabric, (Host.closeAll f ids).store.data = f.store.data := by
  induction ids with
  | nil => intro f; rfl
  | cons i ids ih => intro f; exact (ih _).trans (f.data_close i .nodeStopped).1

theorem available_closeAll (ids : List EndpointId) :
    ∀ f : Fabric, (Host.closeAll f ids).store.available = f.store.available := by
  induction ids with
  | nil => intro f; rfl
  | cons i ids ih => intro f; exact (ih _).trans (f.available_close i .nodeStopped)

/-- No change makes the store reachable or unreachable. -/
theorem Step.available (hs : Step c c') :
    c'.fabric.store.available = c.fabric.store.available := by
  cases hs with
  | enrol | register | unregister | publish | drop => rfl
  | start => exact c.fabric.available_start _ _ _
  | close => exact c.fabric.available_close _ _
  | stop => exact available_closeAll _ c.fabric

theorem Steps.available (hs : Steps c c') :
    c'.fabric.store.available = c.fabric.store.available := by
  induction hs with
  | refl => rfl
  | tail _ hlast ih => exact hlast.available.trans ih

/-- No change gives a name data or alters what the store holds under it. -/
theorem Step.data (hs : Step c c') {name : String} {slots : Table Bytes Slot}
    (hd : c'.fabric.store.data.get? name = some slots) :
    c.fabric.store.data.get? name = some slots := by
  cases hs with
  | enrol | register | unregister | publish => exact hd
  | start runs new => rwa [starting, setHost, (Fabric.data_start _ _ _ _).1] at hd
  | close known started => rwa [closing, setHost, (Fabric.data_close _ _ _).1] at hd
  | stop runs => rwa [stopping, setHost, data_closeAll] at hd
  | @drop name' idle =>
      have hdrop : (c.fabric.store.data.erase name').get? name = some slots := hd
      rw [Table.get?_erase] at hdrop
      split at hdrop
      · cases hdrop
      · exact hdrop

theorem Steps.data (hs : Steps c c') {name : String} {slots : Table Bytes Slot}
    (hd : c'.fabric.store.data.get? name = some slots) :
    c.fabric.store.data.get? name = some slots := by
  induction hs with
  | refl => exact hd
  | tail _ hlast ih => exact ih (hlast.data hd)

/-- What changes leave in the store was there before. -/
theorem Steps.current? (hs : Steps c c') {name : String} {key : Bytes} {x : Versioned}
    (hx : c'.fabric.store.current? name key = some x) :
    c.fabric.store.current? name key = some x := by
  unfold Store.current? Store.slot? at hx ⊢
  cases hd : c'.fabric.store.data.get? name with
  | none =>
      rw [hd] at hx
      cases hx
  | some slots =>
      rw [hd] at hx
      rwa [hs.data hd]

theorem Step.blank {name : String} {n : Nat} (hs : Step c c') (b : c.fabric.Blank name n) :
    c'.fabric.Blank name n := by
  cases hs with
  | enrol | register | unregister | publish => exact b
  | start => exact b.start _ _ _
  | close => exact b.close _ _
  | stop => exact b.closeAll _
  | drop => exact b.destroy _

theorem Steps.blank {name : String} {n : Nat} (hs : Steps c c') (b : c.fabric.Blank name n) :
    c'.fabric.Blank name n := by
  induction hs with
  | refl => exact b
  | tail _ hlast ih => exact hlast.blank ih

/-! ## Ownership -/

/-- Every name under which the store holds data is registered. -/
def Owned (c : Cluster) : Prop :=
  ∀ ⦃name slots⦄, c.fabric.store.data.get? name = some slots →
    ∃ config, c.registry.get? name = some config

namespace Owned

/-- Names may be registered and data dropped. -/
theorem mono (o : Owned c) (hs : Steps c c')
    (hreg : ∀ {name config}, c.registry.get? name = some config →
      ∃ config', c'.registry.get? name = some config') : Owned c' := by
  intro name slots hd
  obtain ⟨config, hc⟩ := o (hs.data hd)
  exact hreg hc

theorem destroyCache (o : Owned c) (l : Linked c) (name : String) :
    Owned (c.destroyCache name).2 := by
  cases h : c.registry.contains name with
  | false =>
      have hsame : c.destroyCache name = (false, c) := by simp [Cluster.destroyCache, h]
      rw [hsame]
      intro _ _ hd
      exact o hd
  | true =>
      intro name' slots hd
      obtain ⟨config, hc⟩ := o ((l.destroyCache name).data hd)
      rw [destroyCache_eq h] at hd ⊢
      refine ⟨config, ?_⟩
      -- the name that is taken from the registry has lost its data
      have hne : name' ≠ name := by
        rintro rfl
        have hdrop : Table.get? (Table.erase _ name') name' = some slots := hd
        rw [Table.get?_erase, if_pos rfl] at hdrop
        cases hdrop
      show (Cluster.deactivateEach _ name c.running.keys).registry.get? name' = some config
      rw [registry_deactivateEach]
      show (c.registry.erase name).get? name' = some config
      rw [Table.get?_erase, if_neg hne, hc]

theorem forget (o : Owned c) {names : List String}
    (all : ∀ {name config}, c.registry.get? name = some config → name ∈ names) :
    Owned { c with
      fabric := names.foldl (fun f name => f.destroy name) c.fabric
      registry := ∅ } := by
  intro name slots hd
  have hdrop := Fabric.data_dropEach names name c.fabric
  rw [show (names.foldl (fun f name => f.destroy name) c.fabric).store.data.get? name = some slots
    from hd] at hdrop
  split at hdrop
  · cases hdrop
  · next hmem =>
    obtain ⟨config, hc⟩ := o hdrop.symm
    exact absurd (all hc) hmem

theorem deed (o : Owned c) (l : Linked c) (hd : Deed c c') : Owned c' := by
  cases hd with
  | enrol joined =>
      obtain ⟨-, -, rfl⟩ := enrol_eq_ok joined
      intro _ _ hd
      exact o hd
  | @register config free =>
      refine o.mono (.single (.register c free)) fun {name config'} hc => ?_
      rw [Table.get?_insert]
      split
      · exact ⟨config, rfl⟩
      · exact ⟨config', hc⟩
  | activate id t registered =>
      refine o.mono (steps_activateOn c id _ t) fun hc => ?_
      rw [registry_activateOn]
      exact ⟨_, hc⟩
  | stop id =>
      refine o.mono (steps_stopNode c id) fun hc => ?_
      cases hr : c.running.get? id with
      | none => exact ⟨_, by rw [stopNode_eq_self hr, hc]⟩
      | some h => exact ⟨_, by rw [stopNode_eq_stopping hr]; exact hc⟩
  | destroy name => exact o.destroyCache l name
  | forget quiet names all => exact o.forget all

theorem deeds (o : Owned c) (l : Linked c) (hd : Deeds c c') : Owned c' := by
  induction hd with
  | refl => exact o
  | tail hfirst hlast ih => exact ih.deed (l.deeds hfirst) hlast

end Owned

/-! ## Stopping -/

/-- Stopping a node changes neither the registry nor the data. -/
theorem stopNode_keeps (c : Cluster) (id : MemberId) :
    (c.stopNode id).2.registry = c.registry ∧
      (c.stopNode id).2.fabric.store.data = c.fabric.store.data := by
  cases hr : c.running.get? id with
  | none =>
      rw [stopNode_eq_self hr]
      exact ⟨rfl, rfl⟩
  | some h =>
      rw [stopNode_eq_stopping hr]
      exact ⟨rfl, data_closeAll h.caches.values c.fabric⟩

end Cluster

end NearCache
