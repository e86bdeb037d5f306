import Mathlib.Algebra.BigOperators.Group.List.Basic
import Mathlib.Algebra.GroupWithZero.Nat
import NearCache.Proofs.Traffic.Basic

/-!
# Every read is accounted for

A read that an endpoint takes on is one of four: served by the near cache, answered by the store,
refused because the store could not be reached, or still on its way. And whatever the store has
answered was counted by an endpoint, was asked past the endpoints, or is on its way back.
`Fabric.Balanced` says so for a fabric and the reads held on it. Each part of a read moves the read
from one kind to another, and nothing else touches the balance.
-/

namespace NearCache

open Fabric

/-- A held read that the store has answered. -/
def HeldRead.isAnswered (h : HeldRead) : Bool :=
  match h.answer with
  | some (.ok _) => true
  | _ => false

/-- What the endpoints together have counted of answers of the store. -/
def Fabric.remoteGets (f : Fabric) : Nat := (f.endpoints.values.map (·.counters.remoteGets)).sum

variable {f f' : Fabric} {held held' : List HeldRead} {failed : EndpointId → Nat} {direct : Nat}

/-- The reads taken on by each endpoint and the reads served by the store add up, given the reads
that are held, the failures so far at each endpoint, and the reads past the endpoints. -/
structure Fabric.Balanced (f : Fabric) (held : List HeldRead) (failed : EndpointId → Nat)
    (direct : Nat) : Prop where
  /-- Endpoints are numbered as they start, and none is forgotten. -/
  started : ∀ id, (f.endpoint? id).isSome ↔ id < f.started
  known : ∀ h ∈ held, (f.endpoint? h.read.endpoint).isSome
  /-- The store refuses to answer only while it cannot be reached. -/
  refused : ∀ h ∈ held, ∀ err, h.answer = some (.error err) → err.isRemote = true
  untouched : ∀ {id}, f.endpoint? id = none → failed id = 0
  gets : ∀ {id e}, f.endpoint? id = some e →
    e.counters.gets = e.counters.hits + e.counters.remoteGets + failed id +
      held.countP (·.read.endpoint = id)
  reads : f.store.reads = f.remoteGets + direct + held.countP HeldRead.isAnswered

/-! ## Sums over endpoints -/

/-- What one endpoint has counted more, all have together. -/
theorem Fabric.remoteGets_update {id : EndpointId} {e : Endpoint} (he : f.endpoint? id = some e)
    (g : Endpoint → Endpoint) :
    (f.update id g).remoteGets + e.counters.remoteGets =
      f.remoteGets + (g e).counters.remoteGets := by
  have hupdated : (f.update id g).endpoints = f.endpoints.insert id (g e) := by
    refine Table.ext_get? fun j => ?_
    rw [Table.get?_insert]
    have hj := f.endpoint?_update id j g
    rw [he] at hj
    exact hj
  have hbefore := (Table.values_erase_perm he).map (·.counters.remoteGets)
  have hafter := (Table.values_replace_perm f.endpoints id (g e)).map (·.counters.remoteGets)
  rw [remoteGets, remoteGets, hupdated, hbefore.sum_eq, hafter.sum_eq, List.map_cons, List.map_cons,
    List.sum_cons, List.sum_cons]
  omega

/-- A new endpoint has counted nothing. -/
theorem Fabric.remoteGets_start (fresh : f.endpoint? f.started = none) (node : String)
    (config : CacheConfig) (p : Placement) :
    (f.start node config p).2.remoteGets = f.remoteGets := by
  have hstart : (f.start node config p).2.endpoints =
      f.endpoints.insert f.started (.opened node config p (f.store.lastSubscription + 1)) := by
    refine Table.ext_get? fun j => ?_
    rw [Table.get?_insert]
    exact f.endpoint?_start node config p j
  have hperm := (Table.values_insert_perm fresh
    (.opened node config p (f.store.lastSubscription + 1))).map (·.counters.remoteGets)
  rw [remoteGets, remoteGets, hstart, hperm.sum_eq, List.map_cons, List.sum_cons]
  exact Nat.zero_add _

theorem Fabric.Quiet.remoteGets (h : Quiet f f') : f'.remoteGets = f.remoteGets := by
  have htally : f'.endpoints.mapValues Endpoint.tally = f.endpoints.mapValues Endpoint.tally := by
    refine Table.ext_get? fun id => ?_
    rw [Table.get?_mapValues, Table.get?_mapValues]
    exact h.tally id
  have hvalues := congrArg (fun t : Table EndpointId (Nat × Nat × Nat) =>
    (t.values.map fun x => x.2.2).sum) htally
  simp only [Table.values_mapValues, List.map_map] at hvalues
  exact hvalues

/-! ## What keeps the balance -/

namespace Fabric.Balanced

theorem empty : Balanced {} [] (fun _ => 0) 0 where
  started id := by
    constructor
    · intro h
      cases h
    · intro h
      cases h
  known h hh := by cases hh
  refused h hh := by cases hh
  untouched _ := rfl
  gets h := by cases h
  reads := rfl

/-- The next number is free. -/
theorem fresh (b : Balanced f held failed direct) : f.endpoint? f.started = none := by
  cases he : f.endpoint? f.started with
  | none => rfl
  | some e => exact absurd ((b.started _).mp (by rw [he]; rfl)) (Nat.lt_irrefl _)

/-- It does not matter in which order the reads are held. -/
theorem perm (b : Balanced f held failed direct) (h : held.Perm held') :
    Balanced f held' failed direct where
  started := b.started
  known r hr := b.known r (h.mem_iff.mpr hr)
  refused r hr := b.refused r (h.mem_iff.mpr hr)
  untouched := b.untouched
  gets he := by rw [b.gets he, h.countP_eq]
  reads := by rw [b.reads, h.countP_eq]

theorem quiet (b : Balanced f held failed direct) (h : Quiet f f') :
    Balanced f' held failed direct := by
  have hsome : ∀ id, (f'.endpoint? id).isSome = (f.endpoint? id).isSome := by
    intro id
    have ht := congrArg Option.isSome (h.tally id)
    rwa [Option.isSome_map, Option.isSome_map] at ht
  refine ⟨fun id => ?_, fun r hr => ?_, b.refused, fun {id} hnone => ?_, fun {id e'} he' => ?_, ?_⟩
  · rw [hsome, h.started]
    exact b.started id
  · rw [hsome]
    exact b.known r hr
  · refine b.untouched (Option.isNone_iff_eq_none.mp ?_)
    rw [Option.isNone_iff_eq_none, ← Option.not_isSome_iff_eq_none, ← hsome, hnone]
    simp
  · have ht := h.tally id
    rw [he', Option.map_some] at ht
    obtain ⟨e, he, heq⟩ := Option.map_eq_some_iff.mp ht.symm
    simp only [Endpoint.tally, Prod.mk.injEq] at heq
    rw [← heq.1, ← heq.2.1, ← heq.2.2]
    exact b.gets he
  · rw [h.reads, h.remoteGets]
    exact b.reads

theorem start (b : Balanced f held failed direct) (node : String) (config : CacheConfig)
    (p : Placement) : Balanced (f.start node config p).2 held failed direct := by
  obtain ⟨subs, n, hs⟩ := f.store_start node config p
  refine ⟨fun id => ?_, fun r hr => ?_, b.refused, fun {id} hnone => ?_, fun {id e} he => ?_, ?_⟩
  · rw [endpoint?_start, started_start]
    split
    · next hid => simp [hid]
    · next hid =>
      rw [b.started]
      exact ⟨Nat.lt_succ_of_lt, fun h => Nat.lt_of_le_of_ne (Nat.le_of_lt_succ h) hid⟩
  · rw [endpoint?_start]
    split
    · rfl
    · exact b.known r hr
  · rw [endpoint?_start] at hnone
    split at hnone
    · cases hnone
    · exact b.untouched hnone
  · rw [endpoint?_start] at he
    split at he
    · -- a new endpoint has neither failed nor held reads
      next hid =>
      cases he
      have hnone : held.countP (·.read.endpoint = id) = 0 := by
        refine List.countP_eq_zero.mpr fun r hr heq => ?_
        have hknown := b.known r hr
        rw [of_decide_eq_true heq, hid, b.fresh] at hknown
        cases hknown
      rw [hnone, b.untouched (hid ▸ b.fresh)]
      rfl
    · exact b.gets he
  · rw [hs, remoteGets_start b.fresh]
    exact b.reads

/-- One endpoint counts, and reads are held or come back, so that the sums stay the same. -/
theorem change (b : Balanced f held failed direct) {id : EndpointId} {e : Endpoint}
    (he : f.endpoint? id = some e) (g : Endpoint → Endpoint)
    (known : ∀ h ∈ held', (f.endpoint? h.read.endpoint).isSome)
    (refused : ∀ h ∈ held', ∀ err, h.answer = some (.error err) → err.isRemote = true)
    (others : ∀ j, j ≠ id →
      held'.countP (·.read.endpoint = j) = held.countP (·.read.endpoint = j))
    (gets : (g e).counters.gets + e.counters.hits + e.counters.remoteGets +
        held.countP (·.read.endpoint = id) =
      e.counters.gets + (g e).counters.hits + (g e).counters.remoteGets +
        held'.countP (·.read.endpoint = id))
    (reads : (g e).counters.remoteGets + held'.countP HeldRead.isAnswered =
      e.counters.remoteGets + held.countP HeldRead.isAnswered) :
    Balanced (f.update id g) held' failed direct := by
  have hsome : ∀ j, ((f.update id g).endpoint? j).isSome = (f.endpoint? j).isSome := by
    intro j
    rw [endpoint?_update]
    split
    · next hj => rw [hj, Option.isSome_map]
    · rfl
  refine ⟨fun j => ?_, fun r hr => ?_, refused, fun {j} hnone => ?_, fun {j e'} he' => ?_, ?_⟩
  · rw [hsome]
    exact b.started j
  · rw [hsome]
    exact known r hr
  · refine b.untouched ?_
    rw [← Option.not_isSome_iff_eq_none, ← hsome, hnone]
    simp
  · rw [endpoint?_update] at he'
    split at he'
    · next hj =>
      subst hj
      rw [he] at he'
      cases he'
      have := b.gets he
      omega
    · next hj =>
      rw [others j hj]
      exact b.gets he'
  · have hsum := remoteGets_update he g
    have := b.reads
    rw [store_update]
    omega

/-! ## The parts of a read -/

/-- An endpoint is charged with a read that failed. -/
def charge (failed : EndpointId → Nat) (id : EndpointId) (refused : Bool) : EndpointId → Nat :=
  fun j => failed j + if (decide (id = j) && refused) = true then 1 else 0

theorem charge_false (id : EndpointId) : charge failed id false = failed := by
  funext j
  simp [charge]

end Fabric.Balanced

/-- A closed endpoint and one that was never started refuse for reasons of their own. -/
theorem Fabric.isUnreachable_serving {id : EndpointId} {err : Fault}
    (h : f.serving id = .error err) : err.isRemote = false := by
  unfold serving endpoint at h
  cases he : f.endpoint? id with
  | none =>
      rw [he] at h
      cases h
      rfl
  | some e =>
      rw [he] at h
      cases hc : e.closed with
      | none =>
          simp [bind, Except.bind, Endpoint.ensureOpen, hc, pure, Except.pure] at h
      | some r =>
          cases r <;> simp [bind, Except.bind, Endpoint.ensureOpen, hc] at h <;> rw [← h] <;> rfl

namespace Fabric.Balanced

/-- A read that begins is refused by its endpoint, served by it, or held. -/
theorem beginGet (b : Balanced f held failed direct) (id : EndpointId) (key : Bytes) :
    (∃ r f', f.beginGet id key = (.done r, f') ∧ isUnreachable r = false ∧
      Balanced f' held failed direct) ∨
    (∃ f', f.beginGet id key = (.pending ⟨id, key⟩, f') ∧
      Balanced f' (⟨⟨id, key⟩, none⟩ :: held) failed direct) := by
  rcases beginGet_cases f id key with ⟨err, hs, hb⟩ | ⟨e, he, -, ⟨v, -, hb⟩ | ⟨-, hb⟩⟩
  · exact Or.inl ⟨_, _, hb, isUnreachable_serving hs, b⟩
  · refine Or.inl ⟨_, _, hb, rfl, ?_⟩
    rw [count, count, update_update]
    refine b.change he _ b.known b.refused (fun j _ => rfl) ?_ rfl
    simp only [Function.comp_apply, Endpoint.count]
    omega
  · refine Or.inr ⟨_, hb, ?_⟩
    rw [count, update_update]
    refine b.change he _ ?_ ?_ (fun j hj => ?_) ?_ ?_
    · intro h hh
      rcases List.mem_cons.mp hh with rfl | hh
      · exact Option.isSome_iff_exists.mpr ⟨e, he⟩
      · exact b.known h hh
    · intro h hh err herr
      rcases List.mem_cons.mp hh with rfl | hh
      · cases herr
      · exact b.refused h hh err herr
    · rw [List.countP_cons_of_neg (by simpa using Ne.symm hj)]
    · rw [List.countP_cons_of_pos (by simp)]
      simp only [Function.comp_apply, Endpoint.count, Endpoint.setOut]
      omega
    · rfl

/-- A held read that is asked about is still held. -/
theorem asked {r : PendingRead} (b : Balanced f (⟨r, none⟩ :: held) failed direct)
    {answer : Outcome (Option Versioned)}
    (refused : ∀ err, answer = .error err → err.isRemote = true) {n : Nat}
    (counted : n = f.store.reads + if (HeldRead.mk r (some answer)).isAnswered then 1 else 0) :
    Balanced { f with store := { f.store with reads := n } } (⟨r, some answer⟩ :: held) failed
      direct where
  started := b.started
  known h hh := by
    rcases List.mem_cons.mp hh with rfl | hh
    · exact b.known ⟨r, none⟩ List.mem_cons_self
    · exact b.known h (List.mem_cons_of_mem _ hh)
  refused h hh err herr := by
    rcases List.mem_cons.mp hh with rfl | hh
    · exact refused err (Option.some.inj herr)
    · exact b.refused h (List.mem_cons_of_mem _ hh) err herr
  untouched := b.untouched
  gets he := by
    have := b.gets he
    rwa [List.countP_cons] at this ⊢
  reads := by
    have hreads := b.reads
    rw [List.countP_cons_of_neg (by simp [HeldRead.isAnswered])] at hreads
    rw [List.countP_cons]
    show n = f.remoteGets + direct + _
    omega

/-- The store answers a held read, or it cannot be reached. -/
theorem fetch {r : PendingRead} (b : Balanced f (⟨r, none⟩ :: held) failed direct) :
    Balanced (f.fetch r).2 (⟨r, some (f.fetch r).1⟩ :: held) failed direct := by
  obtain ⟨e, he⟩ := Option.isSome_iff_exists.mp (b.known _ List.mem_cons_self)
  rw [fetch_eq he]
  split
  · exact b.asked (fun err herr => by cases herr) rfl
  · refine b.asked (fun err herr => ?_) rfl
    cases herr
    rfl

/-- A read that ends was answered by the store, or is charged to its endpoint. -/
theorem endGet {r : PendingRead} {answer : Outcome (Option Versioned)}
    (b : Balanced f (⟨r, some answer⟩ :: held) failed direct) :
    Balanced (f.endGet r answer).2 held
      (charge failed r.endpoint (isUnreachable (f.endGet r answer).1)) direct := by
  obtain ⟨e, he⟩ := Option.isSome_iff_exists.mp (b.known _ List.mem_cons_self)
  have hsettle : ∀ (g : Fabric) x, Quiet g (g.settle r x) := fun g x =>
    .update (fun e => .refl _) fun e => rfl
  have hknown : ∀ h ∈ held, (f.endpoint? h.read.endpoint).isSome := fun h hh =>
    b.known h (List.mem_cons_of_mem _ hh)
  have hrefused : ∀ h ∈ held, ∀ err, h.answer = some (.error err) → err.isRemote = true :=
    fun h hh => b.refused h (List.mem_cons_of_mem _ hh)
  rw [endGet_eq]
  cases answer with
  | ok x =>
      dsimp only [Except.map, isUnreachable]
      rw [charge_false]
      refine quiet ?_ (hsettle _ x)
      refine b.change he _ hknown hrefused (fun j hj => ?_) ?_ ?_
      · rw [List.countP_cons_of_neg (by simpa using Ne.symm hj)]
      · rw [List.countP_cons_of_pos (by simp)]
        simp only [Endpoint.count]
        omega
      · rw [List.countP_cons_of_pos (by simp [HeldRead.isAnswered])]
        simp only [Endpoint.count]
        omega
  | error err =>
      have hremote : err.isRemote = true := b.refused _ List.mem_cons_self err rfl
      dsimp only [Except.map, isUnreachable]
      refine quiet ⟨b.started, hknown, hrefused, fun {id} hnone => ?_, fun {id e'} he' => ?_, ?_⟩
        (hsettle f none)
      · have hne : r.endpoint ≠ id := by
          rintro rfl
          rw [he] at hnone
          cases hnone
        simp [charge, hne, b.untouched hnone]
      · have hgets := b.gets he'
        rw [List.countP_cons] at hgets
        dsimp only at hgets
        simp only [charge, hremote, Bool.and_true]
        omega
      · have hreads := b.reads
        rwa [List.countP_cons_of_neg (by simp [HeldRead.isAnswered])] at hreads

/-! ## Whole reads -/

theorem get (b : Balanced f held failed direct) (id : EndpointId) (key : Bytes) :
    Balanced (f.get id key).2 held (charge failed id (isUnreachable (f.get id key).1)) direct := by
  unfold Fabric.get
  rcases b.beginGet id key with ⟨r, f', hb, hr, b'⟩ | ⟨f', hb, b'⟩
  · rw [hb]
    dsimp only
    rwa [hr, charge_false]
  · rw [hb]
    exact b'.fetch.endGet

theorem getInto (id : EndpointId) (keys : List Bytes) :
    ∀ {f : Fabric} (found : Table Bytes Bytes), Balanced f held failed direct →
      Balanced (f.getInto id found keys).2 held
        (charge failed id (isUnreachable (f.getInto id found keys).1)) direct := by
  induction keys with
  | nil =>
      intro f found b
      unfold Fabric.getInto
      dsimp only [isUnreachable]
      rwa [charge_false]
  | cons k ks ih =>
      intro f found b
      have hget := b.get id k
      unfold Fabric.getInto
      cases hg : f.get id k with
      | mk r f' =>
          rw [hg] at hget
          cases r with
          | error => exact hget
          | ok v =>
              dsimp only [isUnreachable] at hget
              rw [charge_false] at hget
              cases v with
              | none => exact ih found hget
              | some v => exact ih _ hget

/-- A read past the endpoints. -/
theorem storeGet (b : Balanced f held failed direct) (c : String) (k : Bytes) :
    Balanced (f.storeGet c k).2 held failed
      (direct + if (Ending.direct (f.storeGet c k).1).isDirect then 1 else 0) := by
  have hreads := b.reads
  unfold Fabric.storeGet Store.get
  cases f.store.reach c with
  | error => exact b
  | ok u =>
      refine ⟨b.started, b.known, b.refused, b.untouched, b.gets, ?_⟩
      show f.store.reads + 1 = f.remoteGets + (direct + 1) + _
      omega

/-- A use moves reads from one kind to another, and says which. -/
theorem use (b : Balanced f held failed direct) (u : Use) :
    Balanced (f.use u) held
      (fun id => failed id + if (f.ending u).isRefused id then 1 else 0)
      (direct + if (f.ending u).isDirect then 1 else 0) := by
  cases u with
  | start node config p => exact b.start node config p
  | close id r => exact b.quiet (.close f id r)
  | get id k => exact b.get id k
  | getAll id ks => exact b.getInto id ks ∅
  | put id k v => exact b.quiet (.put f id k v)
  | putAll id entries => exact b.quiet (.putEach id entries f)
  | remove id k => exact b.quiet (.remove f id k)
  | storeGet c k => exact b.storeGet c k
  | storePut c k v => exact b.quiet (.storePut f c k v)
  | storeRemove c k => exact b.quiet (.storeRemove f c k)
  | setAvailable v => exact b.quiet (.setAvailable f v)
  | destroy c => exact b.quiet (.destroy f c)

end Fabric.Balanced

/-! ## Runs -/

namespace Traffic

variable {t : Traffic} {es : List Ending}

/-- The balance of a fabric in use, given how the moves so far ended. -/
structure Balances (t : Traffic) (es : List Ending) : Prop where
  balanced : t.fabric.Balanced t.held.values (fun id => es.countP (·.isRefused id))
    (es.countP Ending.isDirect)
  tickets : ∀ {k h}, t.held.get? k = some h → k < t.nextTicket

theorem balances_nil : Balances {} [] := ⟨.empty, fun h => by cases h⟩

namespace Balances

/-- One more ending is added to those so far. -/
theorem snoc {f : Fabric} {held : List HeldRead} {x : Ending}
    (b : f.Balanced held (fun id => es.countP (·.isRefused id) + if x.isRefused id then 1 else 0)
      (es.countP Ending.isDirect + if x.isDirect then 1 else 0)) :
    f.Balanced held (fun id => (es ++ [x]).countP (·.isRefused id))
      ((es ++ [x]).countP Ending.isDirect) := by
  simpa only [List.countP_append, List.countP_singleton] using b

/-- The store is asked about a held read, if it was not before. -/
theorem answerFor {f : Fabric} {h : HeldRead} {held : List HeldRead} {failed : EndpointId → Nat}
    {direct : Nat} (b : f.Balanced (h :: held) failed direct) :
    (Session.answerFor f h).2.Balanced (⟨h.read, some (Session.answerFor f h).1⟩ :: held) failed
      direct := by
  obtain ⟨r, answer⟩ := h
  cases answer with
  | none => exact b.fetch
  | some a => exact b

theorem step (b : Balances t es) (m : Move) :
    Balances (t.step m).2 (es ++ [(t.step m).1]) := by
  cases m with
  | use u => exact ⟨snoc (b.balanced.use u), b.tickets⟩
  | begin id key =>
      rw [Traffic.step]
      rcases b.balanced.beginGet id key with ⟨r, f, hb, hr, b'⟩ | ⟨f, hb, b'⟩
      · rw [hb]
        refine ⟨snoc ?_, b.tickets⟩
        simpa [Ending.isRefused, Ending.isDirect, hr] using b'
      · rw [hb]
        have hfree : t.held.get? t.nextTicket = none := by
          cases hh : t.held.get? t.nextTicket with
          | none => rfl
          | some h => exact absurd (b.tickets hh) (Nat.lt_irrefl _)
        refine ⟨snoc (b'.perm (Table.values_insert_perm hfree _).symm), fun {k h} hk => ?_⟩
        rw [Table.get?_insert] at hk
        split at hk
        · next heq => exact heq ▸ Nat.lt_succ_self _
        · exact Nat.lt_succ_of_lt (b.tickets hk)
  | ask ticket =>
      rw [Traffic.step]
      cases hh : t.held.get? ticket with
      | none => exact ⟨snoc b.balanced, b.tickets⟩
      | some h =>
          have b' := answerFor (b.balanced.perm (Table.values_erase_perm hh))
          refine ⟨snoc (b'.perm (Table.values_replace_perm _ _ _).symm), fun {k h'} hk => ?_⟩
          rw [Table.get?_insert] at hk
          split at hk
          · next heq => exact b.tickets (heq ▸ hh)
          · exact b.tickets hk
  | finish ticket =>
      rw [Traffic.step]
      cases hh : t.held.get? ticket with
      | none => exact ⟨snoc b.balanced, b.tickets⟩
      | some h =>
          have b' := answerFor (b.balanced.perm (Table.values_erase_perm hh))
          refine ⟨snoc b'.endGet, fun {k h'} hk => ?_⟩
          rw [Table.get?_erase] at hk
          split at hk
          · cases hk
          · exact b.tickets hk

theorem after (ms : List Move) : ∀ {t : Traffic} {es : List Ending}, Balances t es →
    Balances (t.after ms) (es ++ t.endings ms) := by
  induction ms with
  | nil =>
      intro t es b
      rw [Traffic.after, Traffic.endings, List.append_nil]
      exact b
  | cons m ms ih =>
      intro t es b
      have hnext := ih (b.step m)
      rwa [List.append_assoc] at hnext

end Balances

/-- No move makes a counter fall. -/
theorem grows_step (fresh : t.fabric.endpoint? t.fabric.started = none) (m : Move) :
    t.fabric.Grows (t.step m).2.fabric := by
  have hanswer : ∀ h, t.fabric.Grows (Session.answerFor t.fabric h).2 := by
    rintro ⟨r, answer⟩
    cases answer with
    | none => exact .fetch t.fabric r
    | some a => exact .refl _
  cases m with
  | use u => exact grows_use fresh u
  | begin id key =>
      have hbegin := Grows.beginGet t.fabric id key
      rw [step]
      cases hb : t.fabric.beginGet id key with
      | mk b f =>
          rw [hb] at hbegin
          cases b <;> exact hbegin
  | ask ticket =>
      rw [step]
      cases t.held.get? ticket with
      | none => exact .refl _
      | some h => exact hanswer h
  | finish ticket =>
      rw [step]
      cases t.held.get? ticket with
      | none => exact .refl _
      | some h => exact (hanswer h).trans (.endGet _ h.read _)

theorem grows_after (ms : List Move) : ∀ {t : Traffic} {es : List Ending}, Balances t es →
    t.fabric.Grows (t.after ms).fabric := by
  induction ms with
  | nil => intro t es _; exact .refl _
  | cons m ms ih =>
      intro t es b
      exact (grows_step b.balanced.fresh m).trans (ih (b.step m))

/-- Where the reads have gone, at one moment, and what becomes of the counters later. -/
structure Reconciled (t : Traffic) (es : List Ending) (later : Traffic) : Prop where
  /-- Every endpoint ever started is there, open or closed. -/
  endpoints : ∀ id, (t.fabric.endpoint? id).isSome ↔ id < t.fabric.started
  /-- The reads that an endpoint took on. -/
  gets : ∀ {id e}, t.fabric.endpoint? id = some e →
    e.snapshot.counters.gets = e.snapshot.counters.hits + e.snapshot.counters.remoteGets +
      es.countP (·.isRefused id) + t.held.values.countP (·.read.endpoint = id)
  /-- The reads that the store answered. -/
  reads : t.fabric.store.stats.reads =
    (t.fabric.endpoints.values.map (·.snapshot.counters.remoteGets)).sum +
      es.countP Ending.isDirect + t.held.values.countP HeldRead.isAnswered
  grows : t.fabric.Grows later.fabric

/-- **Reads are accounted for at both levels**: whatever is done, whichever reads are held and for
how long, the counters of each endpoint and of the store add up, and none of them ever falls. -/
theorem reconciled_after (ms ns : List Move) :
    Reconciled (({} : Traffic).after ms) (({} : Traffic).endings ms)
      ((({} : Traffic).after ms).after ns) := by
  have b := Balances.after ms balances_nil
  rw [List.nil_append] at b
  exact ⟨b.balanced.started, b.balanced.gets, b.balanced.reads, grows_after ns b⟩

/-- A read that is on its way while its endpoint closes is counted when it comes back. -/
example :
    let t := ({} : Traffic).after [.use (.start "a" { name := "x" } .present), .begin 0 [1], .ask 0,
      .use (.close 0 .nodeStopped)]
    t.fabric.store.stats.reads = 1 ∧ t.fabric.remoteGets = 0 ∧
      (t.after [.finish 0]).fabric.remoteGets = 1 := by
  decide

end Traffic

end NearCache
