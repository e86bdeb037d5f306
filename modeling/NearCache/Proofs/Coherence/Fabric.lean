import NearCache.Proofs.Coherence.Entry
import NearCache.Proofs.Fabric.Wiring
import NearCache.Session

/-!
# Coherence of all near caches

`Fabric.Coherent f held` says of every open near cache that each of its keys agrees with the store
in the sense of `Front.Entry.Coherent`, where `held` are the reads that wait for the store. Every
operation on the fabric keeps it: starting and closing endpoints, announcements, and the two halves
of a read with anything between them.

Dropping the data of a cache keeps it only while no endpoint of the cache is open
(`Coherent.destroy`).
-/

namespace NearCache

/-- The reads of a key on an endpoint that are held: for each, what the store has answered so
far. -/
def flights (held : Table Nat HeldRead) (id : EndpointId) (key : Bytes) :
    List (Option (Outcome (Option Versioned))) :=
  (held.values.filter fun h => h.read = ⟨id, key⟩).map (·.answer)

private theorem flights_perm {held held' : Table Nat HeldRead} {ticket : Nat} {h : HeldRead}
    (hp : held'.entries.Perm ((ticket, h) :: held.entries)) (id : EndpointId) (key : Bytes) :
    (flights held' id key).Perm
      (if h.read = ⟨id, key⟩ then h.answer :: flights held id key else flights held id key) := by
  have hvalues : held'.values.Perm (h :: held.values) := hp.map Prod.snd
  have hflights := (hvalues.filter fun h => h.read = ⟨id, key⟩).map (·.answer)
  refine hflights.trans (List.Perm.of_eq ?_)
  by_cases hr : h.read = ⟨id, key⟩
  · simp [flights, hr]
  · simp [flights, hr]

theorem flights_insert {held : Table Nat HeldRead} {ticket : Nat} (ht : held.get? ticket = none)
    (h : HeldRead) (id : EndpointId) (key : Bytes) :
    (flights (held.insert ticket h) id key).Perm
      (if h.read = ⟨id, key⟩ then h.answer :: flights held id key else flights held id key) :=
  flights_perm (Table.entries_insert_perm ht h) id key

theorem flights_erase {held : Table Nat HeldRead} {ticket : Nat} {h : HeldRead}
    (ht : held.get? ticket = some h) (id : EndpointId) (key : Bytes) :
    (flights held id key).Perm
      (if h.read = ⟨id, key⟩ then h.answer :: flights (held.erase ticket) id key
        else flights (held.erase ticket) id key) :=
  flights_perm (Table.entries_erase_perm ht) id key

namespace Fabric

/-- Every open near cache agrees with the store, `held` being the reads that wait for it. -/
structure Coherent (f : Fabric) (held : Table Nat HeldRead) : Prop where
  dated : ∀ {c k x}, f.store.current? c k = some x → x.version ≤ f.store.lastVersion
  issued : ∀ {t h}, held.get? t = some h → h.read.endpoint < f.started
  cell : ∀ {id e front}, f.endpoint? id = some e → e.closed = none → e.front = some front →
    ∀ k, Front.Entry.Coherent (f.store.current? e.name k) f.store.lastVersion
      (flights held id k) (front.cell? k)

namespace Coherent

variable {f : Fabric} {held : Table Nat HeldRead}

theorem empty : Coherent {} ∅ where
  dated h := by cases h
  issued h := by cases h
  cell h := by cases h

/-! ## Changes that coherence does not notice -/

/-- A change of the store that leaves its data alone. -/
theorem withStore (h : Coherent f held) {s : Store EndpointId} (hd : s.data = f.store.data)
    (hv : s.lastVersion = f.store.lastVersion) : Coherent { f with store := s } held where
  dated {c k x} hx := by
    have hcurrent := Store.current?_of_data hd c k
    show x.version ≤ s.lastVersion
    rw [hv]
    exact h.dated (hcurrent ▸ hx)
  issued := h.issued
  cell {id e front} he ho hf k := by
    show Front.Entry.Coherent (s.current? e.name k) s.lastVersion _ _
    rw [Store.current?_of_data hd, hv]
    exact h.cell he ho hf k

/-- A change of an endpoint that leaves its configuration, its near cache and its state alone. -/
theorem update (h : Coherent f held) (id : EndpointId) {g : Endpoint → Endpoint}
    (hg : ∀ e, (g e).config = e.config ∧ (g e).front = e.front ∧ (g e).closed = e.closed) :
    Coherent (f.update id g) held where
  dated := h.dated
  issued := h.issued
  cell {j e front} he ho hf k := by
    rw [endpoint?_update] at he
    split at he
    · next hj =>
      obtain ⟨e₀, he₀, rfl⟩ := Option.map_eq_some_iff.mp he
      obtain ⟨hconfig, hfront, hclosed⟩ := hg e₀
      rw [Endpoint.name_of_config hconfig, hj]
      exact h.cell he₀ (hclosed ▸ ho) (hfront ▸ hf) k
    · exact h.cell he ho hf k

theorem count (h : Coherent f held) (id : EndpointId) (g : Counters → Counters) :
    Coherent (f.count id g) held :=
  h.update id fun _ => ⟨rfl, rfl, rfl⟩

/-! ## Starting, closing and dropping data -/

/-- A near cache starts empty. -/
theorem start (h : Coherent f held) (node : String) (config : CacheConfig) (p : Placement) :
    Coherent (f.start node config p).2 held := by
  obtain ⟨hd, hv⟩ := f.data_start node config p
  refine ⟨?_, ?_, ?_⟩
  · intro c k x hx
    rw [Store.current?_of_data hd] at hx
    rw [hv]
    exact h.dated hx
  · intro t r hr
    rw [started_start]
    exact Nat.lt_succ_of_lt (h.issued hr)
  · intro id e front he ho hf k
    rw [Store.current?_of_data hd, hv]
    rw [endpoint?_start] at he
    split at he
    · next hid =>
      -- nobody reads on an endpoint that has just started
      have hnone : flights held id k = [] := by
        simp only [flights, List.map_eq_nil_iff, List.filter_eq_nil_iff, decide_eq_true_eq]
        intro r hr hread
        obtain ⟨t, ht⟩ := Table.mem_values_iff.mp hr
        have hlt := h.issued ht
        rw [hread, hid] at hlt
        exact Nat.lt_irrefl _ hlt
      cases he
      simp only [Endpoint.opened] at hf
      split at hf
      · cases hf
        rw [hnone]
        have hcell : (({} : Front).cell? k) = none := Front.cell?_clear {} k
        rw [hcell]
        exact Front.Entry.Coherent.none _ _
      · cases hf
    · exact h.cell he ho hf k

/-- Only open near caches have to agree with the store. -/
theorem close (h : Coherent f held) (id : EndpointId) (r : Closing) :
    Coherent (f.close id r).2 held := by
  obtain ⟨hd, hv⟩ := f.data_close id r
  refine ⟨?_, ?_, ?_⟩
  · intro c k x hx
    rw [Store.current?_of_data hd] at hx
    rw [hv]
    exact h.dated hx
  · intro t hr ht
    rw [started_close]
    exact h.issued ht
  · intro j e front he ho hf k
    rw [Store.current?_of_data hd, hv]
    rw [endpoint?_close] at he
    split at he
    · obtain ⟨e₀, -, rfl⟩ := Option.map_eq_some_iff.mp he
      exact absurd ho (e₀.closed_shut r)
    · exact h.cell he ho hf k

/-- The data of a cache may go once all its endpoints are closed. -/
theorem destroy (h : Coherent f held) {c : String}
    (hc : ∀ id e, f.endpoint? id = some e → e.closed = none → e.name ≠ c) :
    Coherent (f.destroy c) held where
  dated {c' k x} hx := by
    show x.version ≤ f.store.lastVersion
    have hx' : (f.store.destroy c).current? c' k = some x := hx
    rw [Store.current?_destroy] at hx'
    split at hx'
    · cases hx'
    · exact h.dated hx'
  issued := h.issued
  cell {id e front} he ho hf k := by
    show Front.Entry.Coherent ((f.store.destroy c).current? e.name k) f.store.lastVersion _ _
    rw [Store.current?_destroy, if_neg (hc id e he ho)]
    exact h.cell he ho hf k

end Coherent

/-! ## Writing -/

theorem front_hear (e : Endpoint) (n : Notice) :
    (e.hear n).front = e.front.map fun f => (f.apply n.key n.change).2 := by
  unfold Endpoint.hear
  cases hf : e.front with
  | none => exact hf
  | some f =>
      dsimp only
      split <;> rfl

namespace Coherent

variable {f : Fabric} {held : Table Nat HeldRead}

/-- A write or a removal that the store has accepted and that is announced to all near caches of its
cache. -/
theorem written (h : Coherent f held) (hw : Wired f) {s : Store EndpointId} {n : Notice}
    (hsubs : s.subscriptions = f.store.subscriptions)
    (hlast : s.lastSubscription = f.store.lastSubscription) (hadvances : f.store.Advances s)
    (hversion : s.lastVersion = f.store.lastVersion + 1)
    (hnotice : n.change.version = f.store.lastVersion + 1)
    (hcurrent : ∀ c k, s.current? c k =
      if c = n.cache ∧ k = n.key then n.change.live? else f.store.current? c k) :
    Coherent ({ f with store := s }.tell n) held := by
  have hw' : Wired { f with store := s } := hw.serves (Serves.withStore hsubs hlast hadvances)
  have hstore := store_tell { f with store := s } n
  have hv : ({ f with store := s }.tell n).store.lastVersion = f.store.lastVersion + 1 := by
    rw [hstore]
    exact hversion
  have hc : ∀ c k, ({ f with store := s }.tell n).store.current? c k = s.current? c k := by
    intro c k
    rw [hstore]
    rfl
  refine ⟨?_, ?_, ?_⟩
  · intro c k x hx
    rw [hc, hcurrent] at hx
    rw [hv]
    split at hx
    · cases hch : n.change with
      | put y =>
          rw [hch] at hx hnotice
          cases hx
          exact Nat.le_of_eq hnotice
      | removed v => rw [hch] at hx; cases hx
    · exact Nat.le_succ_of_le (h.dated hx)
  · intro t r hr
    have hstarted := (serves_tell { f with store := s } n).started
    rw [hstarted]
    exact h.issued hr
  · intro id e front he ho hf k
    rw [hc, hv, hcurrent]
    -- an endpoint that is open hears of the write if and only if it is of the cache
    cases he₀ : f.endpoint? id with
    | none =>
        have hnone := endpoint?_tell_eq_none (f := { f with store := s }) he₀ n
        rw [hnone] at he
        cases he
    | some e₀ =>
        have htell := hw'.endpoint?_tell (e := e₀) he₀ n
        rw [htell] at he
        split at he
        · next hheard =>
          cases he
          obtain ⟨hopen, hname⟩ := hheard
          rw [front_hear] at hf
          obtain ⟨front₀, hf₀, rfl⟩ := Option.map_eq_some_iff.mp hf
          have hcell := h.cell he₀ hopen hf₀ k
          obtain ⟨-, hconfig, -⟩ := Endpoint.eq_of_frame_eq (e₀.frame_hear n)
          rw [Endpoint.name_of_config hconfig, Front.apply, Front.cell?_step]
          by_cases hk : k = n.key
          · rw [if_pos ⟨hname, hk⟩, if_pos hk, ← hk]
            exact hcell.apply hnotice
          · rw [if_neg (fun hand => hk hand.2), if_neg hk]
            exact hcell.mono (Nat.le_succ _)
        · next hdeaf =>
          cases he
          rw [if_neg (fun hand => hdeaf ⟨ho, hand.1⟩)]
          exact (h.cell he₀ ho hf k).mono (Nat.le_succ _)

theorem storePut (h : Coherent f held) (hw : Wired f) (c : String) (k v : Bytes) :
    Coherent (f.storePut c k v).2 held := by
  rw [storePut_eq]
  cases f.store.reach c with
  | error => exact h
  | ok u =>
      exact h.written hw rfl rfl (Store.Advances.write _ _ _ _) rfl rfl fun c' k' =>
        Store.current?_write f.store c c' k k' v

theorem storeRemove (h : Coherent f held) (hw : Wired f) (c : String) (k : Bytes) :
    Coherent (f.storeRemove c k).2 held := by
  rw [storeRemove_eq]
  cases f.store.reach c with
  | error => exact h
  | ok u =>
      dsimp only
      cases he : f.store.erase c k with
      | none => exact h
      | some ns =>
          obtain ⟨n, s⟩ := ns
          have hcurrent := Store.current?_erase he
          obtain ⟨-, rfl, hs⟩ := Store.erase_eq_some_iff.mp he
          refine h.written hw ?_ ?_ (Store.Advances.erase he) ?_ ?_ ?_
          · rw [hs]; rfl
          · rw [hs]; rfl
          · rw [hs]; rfl
          · rfl
          · exact hcurrent

theorem put (h : Coherent f held) (hw : Wired f) (id : EndpointId) (key value : Bytes) :
    Coherent (f.put id key value).2 held := by
  rw [put_snd]
  cases f.serving id with
  | error => exact h
  | ok e => exact (h.count id _).storePut (hw.serves (Serves.count f id _)) e.name key value

theorem putEach (id : EndpointId) (entries : List (Bytes × Bytes)) :
    ∀ {f : Fabric}, Coherent f held → Wired f → Coherent (f.putEach id entries).2 held := by
  induction entries with
  | nil => intro f h _; exact h
  | cons kv rest ih =>
      intro f h hw
      obtain ⟨k, v⟩ := kv
      have hput := h.put hw id k v
      have hserves := serves_put f id k v
      unfold Fabric.putEach
      cases hp : f.put id k v with
      | mk r f' =>
          rw [hp] at hput hserves
          cases r with
          | error => exact hput
          | ok u => exact ih hput (hw.serves hserves)

theorem remove (h : Coherent f held) (hw : Wired f) (id : EndpointId) (key : Bytes) :
    Coherent (f.remove id key).2 held := by
  rw [remove_snd]
  cases f.serving id with
  | error => exact h
  | ok e => exact (h.count id _).storeRemove (hw.serves (Serves.count f id _)) e.name key

end Coherent

end Fabric

end NearCache
