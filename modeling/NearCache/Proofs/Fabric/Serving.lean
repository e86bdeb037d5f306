import NearCache.Fabric
import NearCache.Proofs.Store.Progress

/-!
# What reading and writing leave alone

Reads and writes change what endpoints have counted and what their near caches hold, and they change
the store's data. They start and close nothing: `Fabric.Serves f f'` says that `f'` has the
endpoints of `f`, each with its configuration, its placement and its subscription, the same
subscriptions in the store, and a store that has only moved forward. Every operation on caches is of
this kind, the parts of a read included.

`Fabric.Precedes f f'` says less, and also of starting and closing: the endpoints of `f` are still
there under their configurations, and the store has only moved forward.
-/

namespace NearCache

/-- What an endpoint is, without what it has counted and what its near cache holds. -/
def Endpoint.frame (e : Endpoint) : Endpoint :=
  { e with front := e.front.map Front.clear, counters := {} }

namespace Endpoint

@[simp] theorem frame_count (e : Endpoint) (g : Counters → Counters) :
    (e.count g).frame = e.frame := rfl

@[simp] theorem frame_hear (e : Endpoint) (n : Notice) : (e.hear n).frame = e.frame := by
  unfold hear
  cases hf : e.front with
  | none => rfl
  | some f =>
      dsimp only
      split <;> simp [frame, count, hf, Front.clear]

theorem frame_mapFront (e : Endpoint) (g : Front → Front) :
    { e with front := e.front.map g }.frame = e.frame := by
  cases hf : e.front <;> simp [frame, hf, Front.clear]

/-- The parts of an endpoint that its frame shows. -/
theorem eq_of_frame_eq {e e' : Endpoint} (h : e'.frame = e.frame) :
    e'.node = e.node ∧ e'.config = e.config ∧ e'.placement = e.placement ∧
      e'.front.isSome = e.front.isSome ∧ e'.subscription = e.subscription ∧
      e'.closed = e.closed := by
  have hfront := congrArg (fun x : Endpoint => x.front.isSome) h
  simp only [frame, Option.isSome_map] at hfront
  simp only [frame, Endpoint.mk.injEq] at h
  obtain ⟨hnode, hconfig, hplacement, -, hsubscription, -, hclosed⟩ := h
  exact ⟨hnode, hconfig, hplacement, hfront, hsubscription, hclosed⟩

theorem name_of_config {e e' : Endpoint} (h : e'.config = e.config) : e'.name = e.name :=
  congrArg CacheConfig.name h

end Endpoint

namespace Fabric

/-- An endpoint serves exactly if it was started and not closed. -/
theorem serving_eq_ok_iff {f : Fabric} {id : EndpointId} {e : Endpoint} :
    f.serving id = .ok e ↔ f.endpoint? id = some e ∧ e.closed = none := by
  unfold serving endpoint
  cases he : f.endpoint? id with
  | none => simp [bind, Except.bind]
  | some e' =>
      cases hc : e'.closed with
      | none =>
          simp only [bind, Except.bind, pure, Except.pure, Endpoint.ensureOpen, hc,
            Except.ok.injEq, Option.some.injEq]
          constructor
          · rintro rfl
            exact ⟨rfl, hc⟩
          · exact fun h => h.1
      | some r =>
          have hopen : ∀ e, some e' = some e ∧ e.closed = none → False := by
            rintro e ⟨he, hn⟩
            cases he
            rw [hc] at hn
            cases hn
          cases r <;>
            simpa [bind, Except.bind, Endpoint.ensureOpen, hc] using
              fun h hn => hopen e ⟨congrArg some h, hn⟩

/-- A near cache is looked at only while its endpoint is open. -/
theorem peek_eq_ok_iff {f : Fabric} {id : EndpointId} {key : Bytes} {v : Option Bytes} :
    f.peek id key = .ok v ↔
      ∃ e, f.endpoint? id = some e ∧ e.closed = none ∧ e.local? key = v := by
  unfold peek endpoint
  cases he : f.endpoint? id with
  | none => simp [bind, Except.bind]
  | some e =>
      cases hc : e.closed with
      | none => simp [bind, Except.bind, Endpoint.peek, Endpoint.ensureOpen, hc, pure, Except.pure]
      | some r =>
          cases r <;> simp [bind, Except.bind, Endpoint.peek, Endpoint.ensureOpen, hc]

/-- `f'` is `f` after reads and writes. -/
structure Serves (f f' : Fabric) : Prop where
  started : f'.started = f.started
  subscriptions : f'.store.subscriptions = f.store.subscriptions
  lastSubscription : f'.store.lastSubscription = f.store.lastSubscription
  advances : f.store.Advances f'.store
  frame : ∀ id, (f'.endpoint? id).map Endpoint.frame = (f.endpoint? id).map Endpoint.frame

namespace Serves

theorem refl (f : Fabric) : Serves f f := ⟨rfl, rfl, rfl, .refl _, fun _ => rfl⟩

theorem trans {f g h : Fabric} (a : Serves f g) (b : Serves g h) : Serves f h where
  started := b.started.trans a.started
  subscriptions := b.subscriptions.trans a.subscriptions
  lastSubscription := b.lastSubscription.trans a.lastSubscription
  advances := a.advances.trans b.advances
  frame id := (b.frame id).trans (a.frame id)

/-- A change of one endpoint that leaves its frame alone. -/
theorem update {f : Fabric} {id : EndpointId} {g : Endpoint → Endpoint}
    (hg : ∀ e, f.endpoint? id = some e → (g e).frame = e.frame) : Serves f (f.update id g) where
  started := rfl
  subscriptions := rfl
  lastSubscription := rfl
  advances := .refl _
  frame j := by
    rw [endpoint?_update]
    split
    · next hj =>
      subst hj
      cases he : f.endpoint? j with
      | none => rfl
      | some e => simp [hg e he]
    · rfl

theorem count (f : Fabric) (id : EndpointId) (g : Counters → Counters) :
    Serves f (f.count id g) :=
  update fun e _ => e.frame_count g

/-- A change of the store that leaves its subscriptions alone. -/
theorem withStore {f : Fabric} {s : Store EndpointId}
    (hs : s.subscriptions = f.store.subscriptions)
    (hl : s.lastSubscription = f.store.lastSubscription) (ha : f.store.Advances s) :
    Serves f { f with store := s } :=
  ⟨rfl, hs, hl, ha, fun _ => rfl⟩

/-- An endpoint of the one fabric is, up to its frame, an endpoint of the other. -/
theorem endpoint {f f' : Fabric} (h : Serves f f') {id : EndpointId} {e' : Endpoint}
    (he : f'.endpoint? id = some e') : ∃ e, f.endpoint? id = some e ∧ e'.frame = e.frame := by
  have hframe := h.frame id
  rw [he] at hframe
  cases hf : f.endpoint? id with
  | none => simp [hf] at hframe
  | some e => exact ⟨e, rfl, by simpa [hf] using hframe⟩

/-- The other way round, every endpoint is still there. -/
theorem keeps {f f' : Fabric} (h : Serves f f') {id : EndpointId} {e : Endpoint}
    (he : f.endpoint? id = some e) : ∃ e', f'.endpoint? id = some e' ∧ e'.frame = e.frame := by
  have hframe := h.frame id
  rw [he] at hframe
  exact Option.map_eq_some_iff.mp hframe

end Serves

/-- `f'` is a later state of `f`. -/
structure Precedes (f f' : Fabric) : Prop where
  config : ∀ {id e}, f.endpoint? id = some e →
    ∃ e', f'.endpoint? id = some e' ∧ e'.config = e.config
  advances : f.store.Advances f'.store

namespace Precedes

theorem refl (f : Fabric) : Precedes f f := ⟨fun he => ⟨_, he, rfl⟩, .refl _⟩

theorem trans {f g h : Fabric} (a : Precedes f g) (b : Precedes g h) : Precedes f h where
  config he := by
    obtain ⟨e', he', hconfig'⟩ := a.config he
    obtain ⟨e'', he'', hconfig''⟩ := b.config he'
    exact ⟨e'', he'', hconfig''.trans hconfig'⟩
  advances := a.advances.trans b.advances

end Precedes

theorem Serves.precedes {f f' : Fabric} (h : Serves f f') : Precedes f f' where
  config he := by
    obtain ⟨e', he', hframe⟩ := h.keeps he
    obtain ⟨-, hconfig, -⟩ := Endpoint.eq_of_frame_eq hframe
    exact ⟨e', he', hconfig⟩
  advances := h.advances

/-! ## Writing -/

theorem serves_deliver (ds : List (Delivery EndpointId)) :
    ∀ f : Fabric, Serves f (f.deliver ds) := by
  induction ds with
  | nil => intro f; exact Serves.refl f
  | cons d ds ih =>
      intro f
      exact (Serves.update fun e _ => e.frame_hear d.notice).trans (ih _)

/-- Announces a write to the near caches of its cache. -/
def tell (f : Fabric) (n : Notice) : Fabric :=
  { f with store := (f.store.announce n).2 }.deliver (f.store.announce n).1

theorem store_deliver (ds : List (Delivery EndpointId)) :
    ∀ f : Fabric, (f.deliver ds).store = f.store := by
  induction ds with
  | nil => intro f; rfl
  | cons d ds ih => intro f; exact ih (f.update d.listener (·.hear d.notice))

theorem store_tell (f : Fabric) (n : Notice) : (f.tell n).store = (f.store.announce n).2 :=
  store_deliver _ _

theorem serves_tell (f : Fabric) (n : Notice) : Serves f (f.tell n) :=
  (Serves.withStore (s := (f.store.announce n).2) rfl rfl (.of_data rfl rfl)).trans
    (serves_deliver _ _)

theorem serves_write (f : Fabric) (c : String) (k v : Bytes) :
    Serves f ({ f with store := (f.store.write c k v).2 }.tell (f.store.write c k v).1) :=
  (Serves.withStore (s := (f.store.write c k v).2) rfl rfl (.write f.store c k v)).trans
    (serves_tell _ _)

theorem serves_erase {f : Fabric} {c : String} {k : Bytes} {n : Notice} {s : Store EndpointId}
    (h : f.store.erase c k = some (n, s)) : Serves f ({ f with store := s }.tell n) := by
  obtain ⟨-, -, hs⟩ := Store.erase_eq_some_iff.mp h
  have hstore : Serves f { f with store := s } :=
    Serves.withStore (by rw [hs]; rfl) (by rw [hs]; rfl) (.erase h)
  exact hstore.trans (serves_tell _ n)

/-- A direct write that reaches the store is carried out and announced. -/
theorem storePut_eq (f : Fabric) (c : String) (k v : Bytes) :
    f.storePut c k v =
      match f.store.reach c with
      | .error e => (.error e, f)
      | .ok () =>
        let (n, store) := f.store.write c k v
        (.ok n.change.version, { f with store }.tell n) := by
  unfold storePut Store.put
  cases f.store.reach c <;> rfl

/-- A direct removal that reaches the store is carried out and announced if the key has a value. -/
theorem storeRemove_eq (f : Fabric) (c : String) (k : Bytes) :
    f.storeRemove c k =
      match f.store.reach c with
      | .error e => (.error e, f)
      | .ok () =>
        match f.store.erase c k with
        | none => (.ok none, f)
        | some (n, store) => (.ok (some n.change.version), { f with store }.tell n) := by
  unfold storeRemove Store.remove
  cases f.store.reach c with
  | error => rfl
  | ok u =>
      cases u
      dsimp only
      cases f.store.erase c k <;> rfl

/-- A write through an endpoint is counted there, and is a direct write otherwise. -/
theorem put_snd (f : Fabric) (id : EndpointId) (key value : Bytes) :
    (f.put id key value).2 =
      match f.serving id with
      | .error _ => f
      | .ok e =>
        ((f.count id fun c => { c with puts := c.puts + 1 }).storePut e.name key value).2 := by
  unfold put
  cases f.serving id <;> rfl

/-- A removal through an endpoint is counted there, and is a direct removal otherwise. -/
theorem remove_snd (f : Fabric) (id : EndpointId) (key : Bytes) :
    (f.remove id key).2 =
      match f.serving id with
      | .error _ => f
      | .ok e =>
        ((f.count id fun c => { c with removals := c.removals + 1 }).storeRemove e.name key).2 := by
  unfold remove
  cases f.serving id <;> rfl

theorem serves_storePut (f : Fabric) (c : String) (k v : Bytes) :
    Serves f (f.storePut c k v).2 := by
  rw [storePut_eq]
  cases f.store.reach c with
  | error => exact Serves.refl f
  | ok u => exact serves_write f c k v

theorem serves_storeRemove (f : Fabric) (c : String) (k : Bytes) :
    Serves f (f.storeRemove c k).2 := by
  rw [storeRemove_eq]
  cases f.store.reach c with
  | error => exact Serves.refl f
  | ok u =>
      dsimp only
      cases he : f.store.erase c k with
      | none => exact Serves.refl f
      | some ns => exact serves_erase he

/-- A write that reaches the store: it is counted, carried out and announced. -/
theorem put_eq (f : Fabric) (id : EndpointId) (key value : Bytes) :
    f.put id key value =
      match f.serving id with
      | .error e => (.error e, f)
      | .ok e =>
        let g := f.count id fun c => { c with puts := c.puts + 1 }
        match f.store.reach e.name with
        | .error e => (.error e, g)
        | .ok () =>
          let (n, store) := f.store.write e.name key value
          (.ok (), { g with store }.tell n) := by
  unfold put
  cases f.serving id with
  | error => rfl
  | ok e =>
      dsimp only [Store.put, store_count]
      cases f.store.reach e.name <;> rfl

/-- A removal that reaches the store: it is counted, and if the key had a value, it is carried out
and announced. -/
theorem remove_eq (f : Fabric) (id : EndpointId) (key : Bytes) :
    f.remove id key =
      match f.serving id with
      | .error e => (.error e, f)
      | .ok e =>
        let g := f.count id fun c => { c with removals := c.removals + 1 }
        match f.store.reach e.name with
        | .error e => (.error e, g)
        | .ok () =>
          match f.store.erase e.name key with
          | none => (.ok false, g)
          | some (n, store) => (.ok true, { g with store }.tell n) := by
  unfold remove
  cases f.serving id with
  | error => rfl
  | ok e =>
      dsimp only [Store.remove, store_count]
      cases f.store.reach e.name with
      | error => rfl
      | ok u =>
          cases u
          dsimp only
          cases f.store.erase e.name key <;> rfl

theorem serves_put (f : Fabric) (id : EndpointId) (key value : Bytes) :
    Serves f (f.put id key value).2 := by
  rw [put_snd]
  cases f.serving id with
  | error => exact Serves.refl f
  | ok e => exact (Serves.count f id _).trans (serves_storePut _ e.name key value)

theorem serves_putEach (id : EndpointId) (entries : List (Bytes × Bytes)) :
    ∀ f : Fabric, Serves f (f.putEach id entries).2 := by
  induction entries with
  | nil => intro f; exact Serves.refl f
  | cons kv rest ih =>
      intro f
      obtain ⟨k, v⟩ := kv
      have hput := serves_put f id k v
      unfold putEach
      cases hp : f.put id k v with
      | mk r f' =>
          rw [hp] at hput
          cases r with
          | error => exact hput
          | ok u => exact hput.trans (ih f')

theorem serves_remove (f : Fabric) (id : EndpointId) (key : Bytes) :
    Serves f (f.remove id key).2 := by
  rw [remove_snd]
  cases f.serving id with
  | error => exact Serves.refl f
  | ok e => exact (Serves.count f id _).trans (serves_storeRemove _ e.name key)

/-- An acknowledged write is the last one. -/
theorem current?_put {f : Fabric} {id : EndpointId} {e : Endpoint} {key value : Bytes}
    (he : f.endpoint? id = some e) (hok : (f.put id key value).1 = .ok ()) :
    (f.put id key value).2.store.current? e.name key =
      some ⟨value, (f.put id key value).2.store.lastVersion⟩ := by
  rw [put_eq] at hok ⊢
  cases hs : f.serving id with
  | error err =>
      rw [hs] at hok
      cases hok
  | ok e' =>
      obtain ⟨he', -⟩ := serving_eq_ok_iff.mp hs
      rw [he] at he'
      cases he'
      rw [hs] at hok
      dsimp only at hok ⊢
      cases hr : f.store.reach e.name with
      | error err =>
          rw [hr] at hok
          cases hok
      | ok u =>
          dsimp only
          rw [store_tell]
          show (f.store.write e.name key value).2.current? e.name key = _
          rw [Store.current?_write, if_pos ⟨rfl, rfl⟩]
          rfl

/-- An acknowledged removal leaves no value. -/
theorem current?_remove {f : Fabric} {id : EndpointId} {e : Endpoint} {key : Bytes} {b : Bool}
    (he : f.endpoint? id = some e) (hok : (f.remove id key).1 = .ok b) :
    (f.remove id key).2.store.current? e.name key = none := by
  rw [remove_eq] at hok ⊢
  cases hs : f.serving id with
  | error err =>
      rw [hs] at hok
      cases hok
  | ok e' =>
      obtain ⟨he', -⟩ := serving_eq_ok_iff.mp hs
      rw [he] at he'
      cases he'
      rw [hs] at hok
      dsimp only at hok ⊢
      cases hr : f.store.reach e.name with
      | error err =>
          rw [hr] at hok
          cases hok
      | ok u =>
          dsimp only
          cases her : f.store.erase e.name key with
          | none => exact Store.erase_eq_none_iff.mp her
          | some ns =>
              obtain ⟨n, store⟩ := ns
              dsimp only
              rw [store_tell]
              show store.current? e.name key = none
              rw [Store.current?_erase her, if_pos ⟨rfl, rfl⟩]

end Fabric

end NearCache
