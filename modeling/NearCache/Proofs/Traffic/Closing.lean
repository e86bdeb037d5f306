import NearCache.Proofs.Traffic.Outage

/-!
# Closing is final

Closing an endpoint takes its subscriptions out of the store and empties its near cache
(`Fabric.Closes`). Nothing reaches it afterwards but the reads that were on their way, and they find
nothing to settle: all that they can move is the count of the answers of the store
(`endpoint?_after_close`).

Together this says how a closed endpoint ends, whatever is done later: `final_after`.
-/

namespace NearCache

/-! ## Nothing comes back into an empty near cache -/

/-- A read that comes back to a near cache without entries leaves it so. -/
theorem Front.finishLoad_empty (k : Bytes) (x : Option Versioned) :
    (({} : Front).finishLoad k x).2 = {} := by
  have hcell : ({} : Front).cell? k = none := Front.cell?_clear {} k
  show ({} : Front).set k (Entry.settle x (({} : Front).cell? k)).1 = {}
  rw [hcell]
  have hself := Front.set_self {} k
  rwa [hcell] at hself

namespace Endpoint

variable {e : Endpoint}

/-- The endpoint is closed, and its near cache has no entries. -/
structure Gone (e : Endpoint) : Prop where
  closed : e.closed ≠ none
  front : ∀ front, e.front = some front → front = {}

namespace Gone

theorem shut (ho : e.closed = none) (r : Closing) : (e.shut r).Gone where
  closed := e.closed_shut r
  front front hfront := by
    unfold Endpoint.shut at hfront
    rw [ho] at hfront
    obtain ⟨f, -, rfl⟩ := Option.map_eq_some_iff.mp hfront
    rfl

theorem count (h : e.Gone) (g : Counters → Counters) : (e.count g).Gone := ⟨h.closed, h.front⟩

theorem shut_eq (h : e.Gone) (r : Closing) : e.shut r = e :=
  if_pos (Option.isSome_iff_ne_none.mpr h.closed)

/-- A read that comes back finds nothing to settle. -/
theorem back_eq (h : e.Gone) (k : Bytes) (x : Option Versioned) : e.back k x = e := by
  have hfront : (e.front.map fun front => (front.finishLoad k x).2) = e.front := by
    cases hf : e.front with
    | none => rfl
    | some front =>
        obtain rfl := h.front front hf
        exact congrArg some (Front.finishLoad_empty k x)
  unfold Endpoint.back
  rw [hfront]

/-- What is done to open endpoints is not done to this one. -/
theorem kept (h : e.Gone) : Kept (· = some e) where
  opened hnone := by cases hnone
  shut he r := by
    cases he
    exact congrArg some (h.shut_eq r)
  count ho he := by
    cases he
    exact absurd ho h.closed
  setOut ho he := by
    cases he
    exact absurd ho h.closed
  back ho he := by
    cases he
    exact absurd ho h.closed
  hear ho he := by
    cases he
    exact absurd ho h.closed

theorem localSize (h : e.Gone) : e.localSize = 0 := by
  unfold Endpoint.localSize
  cases hf : e.front with
  | none => rfl
  | some front =>
      obtain rfl := h.front front hf
      rfl

end Gone

/-- What a closed endpoint answers, by the first reason. -/
def farewell (e : Endpoint) : Closing → Fault
  | .cacheDestroyed => .cacheNotFound e.name
  | .nodeStopped => .nodeStopped e.node

theorem ensureOpen_of_closed {r : Closing} (h : e.closed = some r) :
    e.ensureOpen = .error (e.farewell r) := by
  unfold ensureOpen
  rw [h]
  cases r <;> rfl

end Endpoint

namespace Fabric

variable {f : Fabric} {id : EndpointId} {e : Endpoint}

/-! ## A closed endpoint does not serve -/

/-- All that an endpoint is asked for fails and changes nothing. -/
structure Silent (f : Fabric) (id : EndpointId) (err : Fault) : Prop where
  get : ∀ k, f.get id k = (.error err, f)
  beginGet : ∀ k, f.beginGet id k = (.done (.error err), f)
  getAll : ∀ k ks, f.getAll id (k :: ks) = (.error err, f)
  peek : ∀ k, f.peek id k = .error err
  put : ∀ k v, f.put id k v = (.error err, f)
  putEach : ∀ kv rest, f.putEach id (kv :: rest) = (.error err, f)
  remove : ∀ k, f.remove id k = (.error err, f)
  /-- Closing it again has no effect. -/
  close : ∀ r, f.close id r = (false, f)

theorem silent_of_closed (he : f.endpoint? id = some e) {r : Closing} (hr : e.closed = some r) :
    f.Silent id (e.farewell r) := by
  have hserving : f.serving id = .error (e.farewell r) := by
    unfold serving endpoint
    rw [he]
    show (e.ensureOpen >>= fun _ => pure e) = _
    rw [Endpoint.ensureOpen_of_closed hr]
    rfl
  have hput : ∀ k v, f.put id k v = (.error (e.farewell r), f) := by
    intro k v
    rw [put_eq, hserving]
  refine
    { get := get_of_not_serving hserving
      beginGet := fun k => by rw [Fabric.beginGet, hserving]
      getAll := fun k ks => by rw [Fabric.getAll, getInto, get_of_not_serving hserving]
      peek := ?_
      put := hput
      putEach := fun kv rest => by rw [Fabric.putEach, hput]
      remove := fun k => by rw [remove_eq, hserving]
      close := ?_ }
  · intro k
    unfold Fabric.peek endpoint
    rw [he]
    show e.peek k = _
    unfold Endpoint.peek
    rw [Endpoint.ensureOpen_of_closed hr]
    rfl
  · intro r'
    unfold Fabric.close
    rw [he]
    dsimp only
    rw [hr]
    rfl

/-- A read that comes back to a closed endpoint is answered, and at most counted. -/
theorem endGet_of_gone {r : PendingRead} (he : f.endpoint? r.endpoint = some e) (h : e.Gone)
    (answer : Outcome (Option Versioned)) :
    f.endGet r answer =
      (answer.map fun x => x.map (·.value),
        match answer with
        | .error _ => f
        | .ok _ => f.count r.endpoint fun c => { c with remoteGets := c.remoteGets + 1 }) := by
  have hsettle : ∀ {g : Fabric} {e : Endpoint} x, g.endpoint? r.endpoint = some e → e.Gone →
      g.settle r x = g := by
    intro g e x he h
    refine update_eq_self fun e' he' => ?_
    rw [he] at he'
    cases he'
    exact h.back_eq r.key x
  rw [endGet_eq]
  cases answer with
  | error err => exact congrArg (Prod.mk _) (hsettle none he h)
  | ok x => exact congrArg (Prod.mk _) (hsettle x (endpoint?_count he _) (h.count _))

/-- What the first closing of an endpoint does. -/
structure Closes (f : Fabric) (id : EndpointId) (e : Endpoint) (r : Closing) : Prop where
  done : (f.close id r).1 = true
  endpoint : (f.close id r).2.endpoint? id = some
    { e with closed := some r, subscription := none, front := e.front.map Front.clear }
  others : ∀ {j}, j ≠ id → (f.close id r).2.endpoint? j = f.endpoint? j
  /-- The subscription of the endpoint goes, and no other. -/
  subscriptions : ∀ s, (f.close id r).2.store.subscriptions.get? s =
    if e.subscription = some s then none else f.store.subscriptions.get? s
  listener : ∀ {s sub}, f.store.subscriptions.get? s = some sub →
    (sub.listener = id ↔ e.subscription = some s)
  /-- The store is left alone apart from that. -/
  store : ∃ subscriptions, (f.close id r).2.store = { f.store with subscriptions }

theorem closes (hw : f.Wired) (he : f.endpoint? id = some e) (ho : e.closed = none) (r : Closing) :
    f.Closes id e r where
  done := by
    unfold close
    rw [he]
    dsimp only
    rw [ho]
    rfl
  endpoint := by
    rw [endpoint?_close, if_pos rfl, he]
    show some (e.shut r) = _
    unfold Endpoint.shut
    rw [ho]
    rfl
  others hj := by rw [endpoint?_close, if_neg hj]
  subscriptions s := by
    rw [subscriptions_close]
    refine if_congr ⟨?_, fun hs => ⟨e, he, ho, hs⟩⟩ rfl rfl
    rintro ⟨e', he', -, hs⟩
    rw [he] at he'
    cases he'
    exact hs
  listener {s sub} hs := by
    obtain ⟨e', he', hsub, -⟩ := hw.listens.mp hs
    constructor
    · rintro rfl
      rw [he] at he'
      cases he'
      exact hsub
    · intro hs'
      have hown : f.store.subscriptions.get? s = some ⟨e.name, id⟩ :=
        hw.listens.mpr ⟨e, he, hs', rfl⟩
      rw [hs] at hown
      cases hown
      rfl
  store := f.store_close id r

/-- A closed endpoint listens to nothing. -/
theorem Wired.listener_ne (hw : f.Wired) (he : f.endpoint? id = some e) (h : e.closed ≠ none)
    {s : Nat} {sub : Subscription EndpointId} (hs : f.store.subscriptions.get? s = some sub) :
    sub.listener ≠ id := by
  rintro rfl
  obtain ⟨e', he', hsub, -⟩ := hw.listens.mp hs
  rw [he] at he'
  cases he'
  exact h ((hw.tuned he).mp (Option.isSome_iff_exists.mpr ⟨s, hsub⟩)).1

end Fabric

/-! ## What still happens to a closed endpoint -/

/-- A read of one key through the endpoint that does not fail. -/
def Ending.succeeds (id : EndpointId) : Ending → Bool
  | value j (.ok _) => j = id
  | _ => false

/-- The counters after more answers of the store. -/
def Counters.answered (n : Nat) (c : Counters) : Counters :=
  { c with remoteGets := c.remoteGets + n }

namespace Traffic

variable {t : Traffic} {id : EndpointId} {e : Endpoint}

theorem succeeds_ending_use {err : Fault} (h : t.fabric.Silent id err) (u : Use) :
    (t.fabric.ending u).succeeds id = false := by
  cases u with
  | get j k =>
      show Ending.succeeds id (.value j (t.fabric.get j k).1) = false
      by_cases hj : j = id
      · rw [hj, h.get]
        rfl
      · cases (t.fabric.get j k).1 with
        | error => rfl
        | ok v => exact decide_eq_false hj
  | start | close | getAll | put | putAll | remove | storeGet | storePut | storeRemove |
    setAvailable | destroy => rfl

/-- A read that ends, here or at another endpoint. -/
theorem endpoint?_endGet_of_gone {f : Fabric} (he : f.endpoint? id = some e) (h : e.Gone)
    (r : PendingRead) (answer : Outcome (Option Versioned)) :
    (f.endGet r answer).2.endpoint? id = some (e.count (.answered
      (if (Ending.value r.endpoint (f.endGet r answer).1).succeeds id then 1 else 0))) := by
  by_cases hj : r.endpoint = id
  · subst hj
    rw [Fabric.endGet_of_gone he h]
    cases answer with
    | error err => exact he
    | ok x =>
        have hyes : Ending.succeeds r.endpoint (.value r.endpoint (.ok (x.map (·.value)))) = true :=
          decide_eq_true rfl
        show (f.count r.endpoint _).endpoint? r.endpoint =
          some (e.count (.answered (if Ending.succeeds _ (.value _ (.ok _)) then 1 else 0)))
        rw [hyes, Fabric.endpoint?_count he]
        rfl
  · have hnot : (Ending.value r.endpoint (f.endGet r answer).1).succeeds id = false := by
      cases (f.endGet r answer).1 with
      | error => rfl
      | ok v => exact decide_eq_false hj
    rw [hnot]
    cases answer with
    | error err =>
        simp only [Fabric.endGet, Fabric.settle, Fabric.endpoint?_update, if_neg (Ne.symm hj)]
        exact he
    | ok x =>
        simp only [Fabric.endGet, Fabric.settle, Fabric.count, Fabric.endpoint?_update,
          if_neg (Ne.symm hj)]
        exact he

/-- A move leaves a closed endpoint alone, or a read comes back to it and is counted. -/
theorem endpoint?_step_of_gone (hw : t.fabric.Wired) (he : t.fabric.endpoint? id = some e)
    (h : e.Gone) (m : Move) :
    (t.step m).2.fabric.endpoint? id =
      some (e.count (.answered (if (t.step m).1.succeeds id then 1 else 0))) := by
  obtain ⟨r, hr⟩ := Option.ne_none_iff_exists'.mp h.closed
  have hsilent := Fabric.silent_of_closed he hr
  cases m with
  | use u =>
      have hstays := h.kept.use hw he u
      rw [step, succeeds_ending_use hsilent]
      exact hstays
  | begin j key =>
      rw [step]
      rcases Fabric.beginGet_cases t.fabric j key with
        ⟨err, -, hb⟩ | ⟨e', he', ho, ⟨v, -, hb⟩ | ⟨-, hb⟩⟩
      · rw [hb]
        exact he
      all_goals
        have hj : j ≠ id := by
          rintro rfl
          rw [he] at he'
          cases he'
          exact h.closed ho
        rw [hb]
        simp only [Fabric.count, Fabric.endpoint?_update, Ending.succeeds, if_neg (Ne.symm hj), hj]
        exact he
  | ask ticket =>
      rw [step]
      cases t.held.get? ticket with
      | none => exact he
      | some r => exact (endpoint?_answerFor t.fabric r id).trans he
  | finish ticket =>
      rw [step]
      cases t.held.get? ticket with
      | none => exact he
      | some r =>
          have hasked := (endpoint?_answerFor t.fabric r id).trans he
          exact endpoint?_endGet_of_gone hasked h r.read _

/-- Whatever is done, a closed endpoint only counts the reads that come back to it. -/
theorem endpoint?_after_of_gone (ms : List Move) : ∀ {t : Traffic} {e : Endpoint}, t.fabric.Wired →
    t.fabric.endpoint? id = some e → e.Gone →
      (t.after ms).fabric.endpoint? id =
        some (e.count (.answered ((t.endings ms).countP (·.succeeds id)))) := by
  induction ms with
  | nil => intro t e _ he _; exact he
  | cons m ms ih =>
      intro t e hw he h
      have hfirst := endpoint?_step_of_gone hw he h m
      have hrest := ih (wired_step hw m) hfirst (h.count _)
      refine hrest.trans (congrArg some ?_)
      show (e.count _).count _ = e.count _
      have hcount : (t.endings (m :: ms)).countP (·.succeeds id) =
          (if (t.step m).1.succeeds id then 1 else 0) +
            ((t.step m).2.endings ms).countP (·.succeeds id) := by
        rw [endings, List.countP_cons, Nat.add_comm]
      rw [hcount]
      simp only [Endpoint.count, Counters.answered, Nat.add_assoc]

/-! ## The end of an endpoint -/

/-- How a closed endpoint stands, `e` when it was closed for the reason `r`, after `n` reads have
come back to it. -/
structure Ended (t : Traffic) (id : EndpointId) (e : Endpoint) (r : Closing) (n : Nat) : Prop where
  endpoint : t.fabric.endpoint? id = some
    { e with
      closed := some r
      subscription := none
      front := e.front.map Front.clear
      counters := { e.counters with remoteGets := e.counters.remoteGets + n } }
  /-- No announcement is meant for it. -/
  unsubscribed : ∀ {s sub}, t.fabric.store.subscriptions.get? s = some sub → sub.listener ≠ id
  silent : t.fabric.Silent id (e.farewell r)
  /-- Its near cache, if it had one, is there and has no entries. -/
  empty : ∀ {e'}, t.fabric.endpoint? id = some e' → e'.hasNear = e.hasNear ∧ e'.localSize = 0 ∧
    ∀ front, e'.front = some front → ∀ k, front.cell? k = none
  /-- A read that was on its way returns what the store answers, and is counted then. -/
  returns : ∀ {ticket h answer g}, t.held.get? ticket = some h → h.read.endpoint = id →
    Session.answerFor t.fabric h = (answer, g) →
      t.step (.finish ticket) =
        (.value id (answer.map fun x => x.map (·.value)),
          { t with
            fabric := match answer with
              | .error _ => g
              | .ok _ => g.count id fun c => { c with remoteGets := c.remoteGets + 1 }
            held := t.held.erase ticket })

/-- **Closing is final**: the first closing of an endpoint takes away its subscription and its
entries, and whatever is done afterwards, the endpoint serves nothing and keeps nothing. -/
theorem final_after (ms ns : List Move) (r : Closing) {id : EndpointId} {e : Endpoint}
    (he : (({} : Traffic).after ms).fabric.endpoint? id = some e) (ho : e.closed = none) :
    (({} : Traffic).after ms).fabric.Closes id e r ∧
      let t := ((({} : Traffic).after ms).step (.use (.close id r))).2
      (t.after ns).Ended id e r ((t.endings ns).countP (·.succeeds id)) := by
  have hw : (({} : Traffic).after ms).fabric.Wired := wired_after ms .empty
  generalize ({} : Traffic).after ms = before at he hw
  refine ⟨Fabric.closes hw he ho r, ?_⟩
  intro t
  have hshut : t.fabric.endpoint? id = some (e.shut r) := by
    show (before.fabric.close id r).2.endpoint? id = _
    rw [Fabric.endpoint?_close, if_pos rfl, he]
    rfl
  have hgone : (e.shut r).Gone := .shut ho r
  have hwired : t.fabric.Wired := wired_step hw _
  have hend := endpoint?_after_of_gone ns hwired hshut hgone
  generalize (t.endings ns).countP (·.succeeds id) = n at hend
  have hw' := wired_after ns hwired
  have hgone' := hgone.count (.answered n)
  have hfields : (e.shut r).count (.answered n) =
      { e with
        closed := some r
        subscription := none
        front := e.front.map Front.clear
        counters := { e.counters with remoteGets := e.counters.remoteGets + n } } := by
    unfold Endpoint.shut
    rw [ho]
    rfl
  refine
    { endpoint := by rw [hend, hfields]
      unsubscribed := hw'.listener_ne hend hgone'.closed
      silent := ?_
      empty := ?_
      returns := ?_ }
  · have hsilent := Fabric.silent_of_closed hend (r := r) (by rw [hfields])
    rw [hfields] at hsilent
    exact hsilent
  · intro e' he'
    rw [hend] at he'
    cases he'
    refine ⟨?_, hgone'.localSize, fun front hfront k => ?_⟩
    · rw [hfields]
      exact Option.isSome_map
    · rw [hgone'.front front hfront]
      exact Front.cell?_clear {} k
  · intro ticket h answer g hh hid hanswer
    have hasked := (endpoint?_answerFor (t.after ns).fabric h id).trans hend
    rw [hanswer] at hasked
    rw [← hid] at hasked ⊢
    rw [step, hh]
    dsimp only
    rw [hanswer]
    dsimp only
    rw [Fabric.endGet_of_gone hasked hgone']

/-- Two reads of one key are on their way when their endpoint closes, one of them with its answer.
The cache is started again on the node, the key is written, and the reads come back in the other
order: they are counted where they set out. -/
theorem final_after_two_reads :
    let t := ({} : Traffic).after [.use (.start "a" { name := "x" } .present),
      .use (.start "b" { name := "x" } .present), .begin 0 [1], .begin 0 [1], .ask 0]
    let later := [.use (.start "a" { name := "x" } .present), .use (.put 1 [1] [7]), .finish 1,
      .finish 0]
    ∃ e, t.fabric.endpoint? 0 = some e ∧ e.closed = none ∧
      t.fabric.Closes 0 e .cacheDestroyed ∧
        ((t.step (.use (.close 0 .cacheDestroyed))).2.after later).Ended 0 e .cacheDestroyed 2 := by
  intro t later
  have hopen : (t.fabric.endpoint? 0).map (·.closed) = some none := by decide
  obtain ⟨e, he, ho⟩ := Option.map_eq_some_iff.mp hopen
  have hcount : ((t.step (.use (.close 0 .cacheDestroyed))).2.endings later).countP
      (·.succeeds 0) = 2 := by decide
  have hfinal := final_after _ later .cacheDestroyed he ho
  exact ⟨e, he, ho, hfinal.1, hcount ▸ hfinal.2⟩

end Traffic

end NearCache
