import NearCache.Proofs.Fabric.Reading
import NearCache.Proofs.Warmth.Account
import NearCache.Session

/-!
# Reads on their way

`Traffic` is a fabric in use together with the reads that are held at the store: any number of them,
each asked about at any moment and ended at any later moment, in any order, with anything else
between.

No counter ever falls (`Fabric.Grows`), and all that is done apart from reading leaves the counters
of reads as they are (`Fabric.Quiet`).
-/

namespace NearCache

/-- What can be done with a fabric when reads may be held. A read of several keys that is held comes
to one read after another. -/
inductive Move where
  | use (u : Use)
  /-- A read begins and is held if it has to go to the store. -/
  | begin (endpoint : EndpointId) (key : Bytes)
  /-- The store answers a held read. -/
  | ask (ticket : Nat)
  /-- A held read ends. The store is asked now if it was not before. -/
  | finish (ticket : Nat)

/-- How a move ended, if it was or ended a read. -/
inductive Ending where
  | nothing
  | value (endpoint : EndpointId) (r : Outcome (Option Bytes))
  | values (endpoint : EndpointId) (r : Outcome (Table Bytes Bytes))
  /-- A read past the endpoints. -/
  | direct (r : Outcome (Option Versioned))

/-- Whether the store could not be reached. -/
def isUnreachable {α : Type} : Outcome α → Bool
  | .ok _ => false
  | .error e => e.isRemote

namespace Ending

/-- A read through an endpoint that the store did not answer. -/
def isRefused (id : EndpointId) : Ending → Bool
  | value j r => j = id && isUnreachable r
  | values j r => j = id && isUnreachable r
  | _ => false

/-- A read past the endpoints that the store answered. -/
def isDirect : Ending → Bool
  | direct (.ok _) => true
  | _ => false

end Ending

/-- How a use ends, if it is a read. -/
def Fabric.ending (f : Fabric) : Use → Ending
  | .get id k => .value id (f.get id k).1
  | .getAll id ks => .values id (f.getAll id ks).1
  | .storeGet c k => .direct (f.storeGet c k).1
  | _ => .nothing

/-- A fabric and the reads that are held. -/
structure Traffic where
  fabric : Fabric := {}
  held : Table Nat HeldRead := ∅
  nextTicket : Nat := 0

namespace Traffic

/-- Makes a move. -/
def step (t : Traffic) : Move → Ending × Traffic
  | .use u => (t.fabric.ending u, { t with fabric := t.fabric.use u })
  | .begin id key =>
    match t.fabric.beginGet id key with
    | (.done r, f) => (.value id r, { t with fabric := f })
    | (.pending r, f) =>
      (.nothing,
        { fabric := f
          held := t.held.insert t.nextTicket ⟨r, none⟩
          nextTicket := t.nextTicket + 1 })
  | .ask ticket =>
    match t.held.get? ticket with
    | none => (.nothing, t)
    | some h =>
      let (answer, f) := Session.answerFor t.fabric h
      (.nothing, { t with fabric := f, held := t.held.insert ticket ⟨h.read, some answer⟩ })
  | .finish ticket =>
    match t.held.get? ticket with
    | none => (.nothing, t)
    | some h =>
      let (answer, f) := Session.answerFor t.fabric h
      let (r, f) := f.endGet h.read answer
      (.value h.read.endpoint r, { t with fabric := f, held := t.held.erase ticket })

/-- The traffic after moves. -/
def after (t : Traffic) : List Move → Traffic
  | [] => t
  | m :: ms => (t.step m).2.after ms

/-- How the moves end. -/
def endings (t : Traffic) : List Move → List Ending
  | [] => []
  | m :: ms => (t.step m).1 :: (t.step m).2.endings ms

end Traffic

/-! ## Counters do not fall -/

/-- No count of `c` is above that of `c'`. -/
structure Counters.UpTo (c c' : Counters) : Prop where
  gets : c.gets ≤ c'.gets
  puts : c.puts ≤ c'.puts
  removals : c.removals ≤ c'.removals
  remoteGets : c.remoteGets ≤ c'.remoteGets
  hits : c.hits ≤ c'.hits
  invalidations : c.invalidations ≤ c'.invalidations

namespace Counters.UpTo

theorem refl (c : Counters) : UpTo c c := by
  constructor <;> exact Nat.le_refl _

theorem trans {a b c : Counters} (h : UpTo a b) (k : UpTo b c) : UpTo a c where
  gets := h.gets.trans k.gets
  puts := h.puts.trans k.puts
  removals := h.removals.trans k.removals
  remoteGets := h.remoteGets.trans k.remoteGets
  hits := h.hits.trans k.hits
  invalidations := h.invalidations.trans k.invalidations

end Counters.UpTo

/-- What a store has counted so far is kept. -/
structure Store.Grows {L : Type} (s s' : Store L) : Prop where
  reads : s.reads ≤ s'.reads
  writes : s.writes ≤ s'.writes
  deletes : s.deletes ≤ s'.deletes
  notifications : s.notifications ≤ s'.notifications

namespace Store.Grows

variable {L : Type} {s s' s'' : Store L}

theorem refl (s : Store L) : Grows s s := by
  constructor <;> exact Nat.le_refl _

theorem trans (h : Grows s s') (k : Grows s' s'') : Grows s s'' where
  reads := h.reads.trans k.reads
  writes := h.writes.trans k.writes
  deletes := h.deletes.trans k.deletes
  notifications := h.notifications.trans k.notifications

theorem write (s : Store L) (c : String) (k v : Bytes) : Grows s (s.write c k v).2 :=
  ⟨Nat.le_refl _, Nat.le_succ _, Nat.le_refl _, Nat.le_refl _⟩

theorem erase {c : String} {k : Bytes} {n : Notice} (h : s.erase c k = some (n, s')) :
    Grows s s' := by
  obtain ⟨-, -, rfl⟩ := erase_eq_some_iff.mp h
  exact ⟨Nat.le_refl _, Nat.le_refl _, Nat.le_succ _, Nat.le_refl _⟩

theorem announce (s : Store L) (n : Notice) : Grows s (s.announce n).2 :=
  ⟨Nat.le_refl _, Nat.le_refl _, Nat.le_refl _, Nat.le_add_right _ _⟩

end Store.Grows

namespace Fabric

/-- Every endpoint and the store keep what they have counted. -/
structure Grows (f f' : Fabric) : Prop where
  counters : ∀ {id e}, f.endpoint? id = some e →
    ∃ e', f'.endpoint? id = some e' ∧ e.counters.UpTo e'.counters
  store : f.store.Grows f'.store

namespace Grows

variable {f f' f'' : Fabric}

theorem refl (f : Fabric) : Grows f f := ⟨fun he => ⟨_, he, .refl _⟩, .refl _⟩

theorem trans (h : Grows f f') (k : Grows f' f'') : Grows f f'' where
  counters he := by
    obtain ⟨e', he', hle'⟩ := h.counters he
    obtain ⟨e'', he'', hle''⟩ := k.counters he'
    exact ⟨e'', he'', hle'.trans hle''⟩
  store := h.store.trans k.store

theorem update {id : EndpointId} {g : Endpoint → Endpoint}
    (hg : ∀ e : Endpoint, e.counters.UpTo (g e).counters) : Grows f (f.update id g) where
  counters {j e} he := by
    rw [endpoint?_update]
    split
    · next hj =>
      rw [← hj, he]
      exact ⟨g e, rfl, hg e⟩
    · exact ⟨e, he, .refl _⟩
  store := .refl _

theorem withStore {s : Store EndpointId} (hs : f.store.Grows s) : Grows f { f with store := s } :=
  ⟨fun he => ⟨_, he, .refl _⟩, hs⟩

theorem start (fresh : f.endpoint? f.started = none) (node : String) (config : CacheConfig)
    (p : Placement) : Grows f (f.start node config p).2 where
  counters {id e} he := by
    have hne : id ≠ f.started := by
      rintro rfl
      rw [fresh] at he
      cases he
    exact ⟨e, by rw [endpoint?_start, if_neg hne, he], .refl _⟩
  store := by
    obtain ⟨subs, n, hs⟩ := f.store_start node config p
    rw [hs]
    exact ⟨Nat.le_refl _, Nat.le_refl _, Nat.le_refl _, Nat.le_refl _⟩

theorem storeGet (f : Fabric) (c : String) (k : Bytes) : Grows f (f.storeGet c k).2 := by
  refine withStore (s := (f.store.get c k).2) ?_
  unfold Store.get
  cases f.store.reach c with
  | error => exact .refl _
  | ok u => exact { Store.Grows.refl f.store with reads := Nat.le_succ _ }

theorem beginGet (f : Fabric) (id : EndpointId) (key : Bytes) :
    Grows f (f.beginGet id key).2 := by
  have hgets : Grows f (f.count id fun c => { c with gets := c.gets + 1 }) :=
    update fun e => { Counters.UpTo.refl e.counters with gets := Nat.le_succ _ }
  rcases beginGet_cases f id key with ⟨err, -, hb⟩ | ⟨e, -, -, ⟨v, -, hb⟩ | ⟨-, hb⟩⟩
  · rw [hb]
    exact refl f
  · rw [hb]
    exact hgets.trans
      (update fun e => { Counters.UpTo.refl e.counters with hits := Nat.le_succ _ })
  · rw [hb]
    exact hgets.trans (update fun e => .refl _)

theorem fetch (f : Fabric) (r : PendingRead) : Grows f (f.fetch r).2 := by
  unfold Fabric.fetch
  cases f.endpoint r.endpoint with
  | error => exact refl f
  | ok e => exact storeGet f e.name r.key

theorem endGet (f : Fabric) (r : PendingRead) (answer : Outcome (Option Versioned)) :
    Grows f (f.endGet r answer).2 := by
  have hsettle : ∀ (g : Fabric) x, Grows g (g.settle r x) := fun g x => update fun e => .refl _
  cases answer with
  | error => exact hsettle f none
  | ok x =>
      have hcount :
          Grows f (f.count r.endpoint fun c => { c with remoteGets := c.remoteGets + 1 }) :=
        update fun e => { Counters.UpTo.refl e.counters with remoteGets := Nat.le_succ _ }
      exact hcount.trans (hsettle _ x)

theorem get (f : Fabric) (id : EndpointId) (key : Bytes) : Grows f (f.get id key).2 := by
  have hbegin := beginGet f id key
  unfold Fabric.get
  cases hb : f.beginGet id key with
  | mk b f' =>
      rw [hb] at hbegin
      cases b with
      | done r => exact hbegin
      | pending r => exact (hbegin.trans (fetch f' r)).trans (endGet _ r _)

theorem getInto (id : EndpointId) (keys : List Bytes) :
    ∀ (f : Fabric) (found : Table Bytes Bytes), Grows f (f.getInto id found keys).2 := by
  induction keys with
  | nil => intro f found; exact refl f
  | cons k ks ih =>
      intro f found
      have hget := get f id k
      unfold Fabric.getInto
      cases hg : f.get id k with
      | mk r f' =>
          rw [hg] at hget
          cases r with
          | error => exact hget
          | ok v =>
              cases v with
              | none => exact hget.trans (ih f' found)
              | some v => exact hget.trans (ih f' _)

end Grows

end Fabric

/-! ## What is not a read -/

/-- What an endpoint has counted of reads: all of them, those that it served itself, and those that
the store served. -/
def Endpoint.tally (e : Endpoint) : Nat × Nat × Nat :=
  (e.counters.gets, e.counters.hits, e.counters.remoteGets)

namespace Fabric

variable {f f' f'' : Fabric}

/-- The counters grow, but those of reads stay as they are. -/
structure Quiet (f f' : Fabric) : Prop extends Grows f f' where
  started : f'.started = f.started
  reads : f'.store.reads = f.store.reads
  tally : ∀ id, (f'.endpoint? id).map Endpoint.tally = (f.endpoint? id).map Endpoint.tally

namespace Quiet

theorem refl (f : Fabric) : Quiet f f := ⟨.refl f, rfl, rfl, fun _ => rfl⟩

theorem trans (h : Quiet f f') (k : Quiet f' f'') : Quiet f f'' where
  toGrows := h.toGrows.trans k.toGrows
  started := k.started.trans h.started
  reads := k.reads.trans h.reads
  tally id := (k.tally id).trans (h.tally id)

theorem update {id : EndpointId} {g : Endpoint → Endpoint}
    (hg : ∀ e : Endpoint, e.counters.UpTo (g e).counters) (ht : ∀ e, (g e).tally = e.tally) :
    Quiet f (f.update id g) where
  toGrows := .update hg
  started := rfl
  reads := rfl
  tally j := by
    rw [endpoint?_update]
    split
    · next hj =>
      subst hj
      rw [Option.map_map]
      exact congrArg (Option.map · (f.endpoint? j)) (funext ht)
    · rfl

theorem withStore {s : Store EndpointId} (hs : f.store.Grows s) (hr : s.reads = f.store.reads) :
    Quiet f { f with store := s } :=
  ⟨.withStore hs, rfl, hr, fun _ => rfl⟩

/-- An announcement is counted by the near caches that it changes. -/
theorem deliver (ds : List (Delivery EndpointId)) : ∀ f : Fabric, Quiet f (f.deliver ds) := by
  induction ds with
  | nil => intro f; exact refl f
  | cons d ds ih =>
      intro f
      have hhear : Quiet f (f.update d.listener (·.hear d.notice)) := by
        refine update (fun e => ?_) fun e => ?_
        · unfold Endpoint.hear
          cases e.front with
          | none => exact .refl _
          | some front =>
              dsimp only
              split
              · exact { Counters.UpTo.refl e.counters with invalidations := Nat.le_succ _ }
              · exact .refl _
        · unfold Endpoint.hear
          cases e.front with
          | none => rfl
          | some front =>
              dsimp only
              split <;> rfl
      exact hhear.trans (ih _)

theorem tell (f : Fabric) (n : Notice) : Quiet f (f.tell n) :=
  (withStore (.announce f.store n) rfl).trans (deliver _ _)

theorem storePut (f : Fabric) (c : String) (k v : Bytes) : Quiet f (f.storePut c k v).2 := by
  rw [storePut_eq]
  cases f.store.reach c with
  | error => exact refl f
  | ok u => exact (withStore (.write f.store c k v) rfl).trans (tell _ _)

theorem storeRemove (f : Fabric) (c : String) (k : Bytes) : Quiet f (f.storeRemove c k).2 := by
  rw [storeRemove_eq]
  cases f.store.reach c with
  | error => exact refl f
  | ok u =>
      dsimp only
      cases he : f.store.erase c k with
      | none => exact refl f
      | some ns =>
          obtain ⟨n, s⟩ := ns
          have hreads : s.reads = f.store.reads := by
            obtain ⟨-, -, rfl⟩ := Store.erase_eq_some_iff.mp he
            rfl
          exact (withStore (.erase he) hreads).trans (tell _ n)

theorem put (f : Fabric) (id : EndpointId) (k v : Bytes) : Quiet f (f.put id k v).2 := by
  rw [put_snd]
  cases f.serving id with
  | error => exact refl f
  | ok e =>
      have hcount : Quiet f (f.count id fun c => { c with puts := c.puts + 1 }) :=
        update (fun e => { Counters.UpTo.refl e.counters with puts := Nat.le_succ _ }) fun _ => rfl
      exact hcount.trans (storePut _ e.name k v)

theorem putEach (id : EndpointId) (entries : List (Bytes × Bytes)) :
    ∀ f : Fabric, Quiet f (f.putEach id entries).2 := by
  induction entries with
  | nil => intro f; exact refl f
  | cons kv rest ih =>
      intro f
      obtain ⟨k, v⟩ := kv
      have hput := put f id k v
      unfold Fabric.putEach
      cases hp : f.put id k v with
      | mk r f' =>
          rw [hp] at hput
          cases r with
          | error => exact hput
          | ok u => exact hput.trans (ih f')

theorem remove (f : Fabric) (id : EndpointId) (k : Bytes) : Quiet f (f.remove id k).2 := by
  rw [remove_snd]
  cases f.serving id with
  | error => exact refl f
  | ok e =>
      have hcount : Quiet f (f.count id fun c => { c with removals := c.removals + 1 }) :=
        update (fun e => { Counters.UpTo.refl e.counters with removals := Nat.le_succ _ })
          fun _ => rfl
      exact hcount.trans (storeRemove _ e.name k)

theorem setAvailable (f : Fabric) (b : Bool) : Quiet f (f.setAvailable b) :=
  withStore ⟨Nat.le_refl _, Nat.le_refl _, Nat.le_refl _, Nat.le_refl _⟩ rfl

theorem destroy (f : Fabric) (c : String) : Quiet f (f.destroy c) :=
  withStore ⟨Nat.le_refl _, Nat.le_refl _, Nat.le_refl _, Nat.le_refl _⟩ rfl

/-- Closing does not touch what was counted. -/
theorem close (f : Fabric) (id : EndpointId) (r : Closing) : Quiet f (f.close id r).2 := by
  obtain ⟨subs, hs⟩ := f.store_close id r
  have hcounters : ∀ e : Endpoint, (e.shut r).counters = e.counters := by
    intro e
    unfold Endpoint.shut
    split <;> rfl
  refine ⟨⟨fun {j e} he => ?_, ?_⟩, started_close f id r, ?_, fun j => ?_⟩
  · rw [endpoint?_close]
    split
    · next hj =>
      refine ⟨e.shut r, by rw [← hj, he]; rfl, ?_⟩
      rw [hcounters]
      exact .refl _
    · exact ⟨e, he, .refl _⟩
  · rw [hs]
    exact ⟨Nat.le_refl _, Nat.le_refl _, Nat.le_refl _, Nat.le_refl _⟩
  · rw [hs]
  · rw [endpoint?_close]
    split
    · next hj =>
      subst hj
      rw [Option.map_map]
      refine congrArg (Option.map · (f.endpoint? j)) (funext fun e => ?_)
      rw [Function.comp_apply, Endpoint.tally, hcounters]
      rfl
    · rfl

end Quiet

/-- No use makes a counter fall. -/
theorem grows_use (fresh : f.endpoint? f.started = none) (u : Use) : Grows f (f.use u) := by
  cases u with
  | start node config p => exact .start fresh node config p
  | close id r => exact (Quiet.close f id r).toGrows
  | get id k => exact .get f id k
  | getAll id ks => exact .getInto id ks f ∅
  | put id k v => exact (Quiet.put f id k v).toGrows
  | putAll id entries => exact (Quiet.putEach id entries f).toGrows
  | remove id k => exact (Quiet.remove f id k).toGrows
  | storeGet c k => exact .storeGet f c k
  | storePut c k v => exact (Quiet.storePut f c k v).toGrows
  | storeRemove c k => exact (Quiet.storeRemove f c k).toGrows
  | setAvailable b => exact (Quiet.setAvailable f b).toGrows
  | destroy c => exact (Quiet.destroy f c).toGrows

end Fabric

end NearCache
