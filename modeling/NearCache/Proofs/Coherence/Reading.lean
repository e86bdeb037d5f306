import NearCache.Proofs.Coherence.Fabric
import NearCache.Proofs.Fabric.Reading

/-!
# Reads and coherence

A read that sets out joins the held reads (`Coherent.setOut`), and one that comes back leaves them
(`Coherent.settle`). A read in one piece is the same with nothing between, under a ticket that
nobody holds, so `Coherent.get` needs no argument of its own.

With coherent near caches it does not show who serves a read: `Coherent.get_cases`.
-/

namespace NearCache

namespace Fabric

/-- What a read of several keys finds in a store that holds `now`. -/
def gather (now : Bytes → Option Versioned) (found : Table Bytes Bytes) :
    List Bytes → Table Bytes Bytes
  | [] => found
  | k :: ks =>
    match now k with
    | none => gather now found ks
    | some x => gather now (found.insert k x.value) ks

theorem get?_gather (now : Bytes → Option Versioned) (k : Bytes) (keys : List Bytes) :
    ∀ found : Table Bytes Bytes, (gather now found keys).get? k =
      if k ∈ keys then ((now k).map (·.value)).or (found.get? k) else found.get? k := by
  induction keys with
  | nil => intro found; rfl
  | cons j ks ih =>
      intro found
      unfold gather
      cases hj : now j with
      | none =>
          rw [ih]
          by_cases hk : k = j
          · subst hk
            simp [hj]
          · simp [hk]
      | some x =>
          dsimp only
          rw [ih, Table.get?_insert]
          by_cases hk : k = j
          · subst hk
            simp [hj]
          · simp [hk]

/-- What a near cache holds is what the store holds. -/
theorem Coherent.current_of_local {f : Fabric} {held : Table Nat HeldRead} (h : Coherent f held)
    {id : EndpointId} {e : Endpoint} (he : f.endpoint? id = some e) (ho : e.closed = none)
    {key v : Bytes} (hv : e.local? key = some v) :
    ∃ n, f.store.current? e.name key = some ⟨v, n⟩ := by
  obtain ⟨front, hf, hget⟩ := Option.bind_eq_some_iff.mp hv
  obtain ⟨en, hcell, hval⟩ := Option.bind_eq_some_iff.mp hget
  exact ⟨en.version, (h.cell he ho hf key).live hcell hval⟩

namespace Coherent

variable {f : Fabric} {held : Table Nat HeldRead}

/-- A read sets out under a new ticket. If it has asked the store already, it was told what the
store holds. -/
theorem setOut (h : Coherent f held) (hw : Wired f) {id : EndpointId} {e : Endpoint}
    (he : f.endpoint? id = some e) {ticket : Nat} (ht : held.get? ticket = none) (key : Bytes)
    {answer : Option (Outcome (Option Versioned))}
    (ha : ∀ x, answer = some (.ok (some x)) → f.store.current? e.name key = some x) :
    Coherent (f.update id (Endpoint.setOut key))
      (held.insert ticket ⟨⟨id, key⟩, answer⟩) where
  dated := h.dated
  issued {t r} hr := by
    rw [Table.get?_insert] at hr
    split at hr
    · cases hr
      exact hw.started he
    · exact h.issued hr
  cell {j e' front} he' ho hf k := by
    have hperm := (flights_insert ht ⟨⟨id, key⟩, answer⟩ j k).symm
    rw [endpoint?_update, he] at he'
    show Front.Entry.Coherent (f.store.current? e'.name k) f.store.lastVersion _ _
    by_cases hj : j = id
    · subst hj
      rw [if_pos rfl] at he'
      cases he'
      obtain ⟨front₀, hf₀, rfl⟩ := Option.map_eq_some_iff.mp hf
      have hcell := h.cell he ho hf₀ k
      -- the read counts for its own key and for no other
      show Front.Entry.Coherent (f.store.current? e.name k) _ _ ((front₀.beginLoad key).cell? k)
      rw [Front.beginLoad, Front.cell?_set]
      by_cases hk : k = key
      · subst hk
        rw [if_pos rfl]
        rw [if_pos rfl] at hperm
        exact (hcell.load fun x hx => ⟨ha x hx, h.dated (ha x hx)⟩).perm hperm
      · rw [if_neg hk]
        rw [if_neg (by simp [Ne.symm hk])] at hperm
        exact hcell.perm hperm
    · rw [if_neg hj] at he'
      rw [if_neg (by simp [Ne.symm hj])] at hperm
      exact (h.cell he' ho hf k).perm hperm

/-- A held read comes back, with what it was told when it asked or with what the store holds now. -/
theorem settle (h : Coherent f held) {ticket : Nat} {r : HeldRead}
    (ht : held.get? ticket = some r) {fetched : Option Versioned}
    (hx : ∀ x, fetched = some x → r.answer = some (.ok (some x)) ∨ f.due r.read = some x) :
    Coherent (f.settle r.read fetched) (held.erase ticket) where
  dated := h.dated
  issued {t r'} hr := by
    rw [Table.get?_erase] at hr
    split at hr
    · cases hr
    · exact h.issued hr
  cell {j e' front} he' ho hf k := by
    have hperm := flights_erase ht j k
    unfold Fabric.settle at he'
    rw [endpoint?_update] at he'
    show Front.Entry.Coherent (f.store.current? e'.name k) f.store.lastVersion _ _
    by_cases hj : j = r.read.endpoint
    · subst hj
      rw [if_pos rfl] at he'
      obtain ⟨e, he, rfl⟩ := Option.map_eq_some_iff.mp he'
      obtain ⟨front₀, hf₀, rfl⟩ := Option.map_eq_some_iff.mp hf
      have hcell := (h.cell he ho hf₀ k).perm hperm
      show Front.Entry.Coherent (f.store.current? e.name k) _ _
        ((front₀.finishLoad r.read.key fetched).2.cell? k)
      rw [Front.finishLoad, Front.cell?_step]
      by_cases hk : k = r.read.key
      · subst hk
        rw [if_pos rfl] at hcell
        rw [if_pos rfl]
        refine hcell.settle fun x hfetched => ?_
        rcases hx x hfetched with hx | hx
        · exact Or.inl hx
        · have hnow : f.store.current? e.name r.read.key = some x := by
            simpa [due, he] using hx
          exact Or.inr ⟨hnow, h.dated hnow⟩
      · rw [if_neg fun hread => hk (by rw [hread])] at hcell
        rw [if_neg hk]
        exact hcell
    · rw [if_neg hj] at he'
      rw [if_neg (fun hread => hj (by rw [hread]))] at hperm
      exact (h.cell he' ho hf k).perm hperm

/-! ## The parts of a read -/

/-- A read that is done at once. -/
theorem beginGet_done (h : Coherent f held) {id : EndpointId} {key : Bytes}
    {r : Outcome (Option Bytes)} {f' : Fabric} (hb : f.beginGet id key = (.done r, f')) :
    Coherent f' held := by
  rcases beginGet_cases f id key with ⟨err, -, hb'⟩ | ⟨e, -, -, ⟨v, -, hb'⟩ | ⟨-, hb'⟩⟩
  · rw [hb'] at hb
    cases hb
    exact h
  · rw [hb'] at hb
    cases hb
    exact (h.count id _).count id _
  · rw [hb'] at hb
    cases hb

/-- A read that has to go to the store is held under a new ticket. -/
theorem beginGet_pending (h : Coherent f held) (hw : Wired f) {id : EndpointId} {key : Bytes}
    {r : PendingRead} {f' : Fabric} (hb : f.beginGet id key = (.pending r, f')) {ticket : Nat}
    (ht : held.get? ticket = none) (answer : Option (Outcome (Option Versioned)))
    (ha : ∀ x, answer = some (.ok (some x)) → f.due r = some x) :
    Coherent f' (held.insert ticket ⟨r, answer⟩) := by
  rcases beginGet_cases f id key with ⟨err, -, hb'⟩ | ⟨e, he, ho, ⟨v, -, hb'⟩ | ⟨-, hb'⟩⟩
  · rw [hb'] at hb
    cases hb
  · rw [hb'] at hb
    cases hb
  · rw [hb'] at hb
    cases hb
    have hserves := Serves.count f id fun c => { c with gets := c.gets + 1 }
    refine (h.count id _).setOut (hw.serves hserves)
      (e := e.count fun c => { c with gets := c.gets + 1 }) ?_ ht key ?_
    · exact endpoint?_count he _
    · intro x hx
      have hdue := ha x hx
      rw [due, he] at hdue
      exact hdue

/-- The store answers a read that waits for it. -/
theorem fetch (h : Coherent f held) (r : PendingRead) : Coherent (f.fetch r).2 held := by
  cases he : f.endpoint? r.endpoint with
  | none =>
      rw [fetch_eq_of_none he]
      exact h
  | some e =>
      rw [fetch_eq he]
      split
      · exact h.withStore rfl rfl
      · exact h

/-- A held read ends, with what it was told when it asked or with what the store holds now. -/
theorem endGet (h : Coherent f held) {ticket : Nat} {r : HeldRead}
    (ht : held.get? ticket = some r) (answer : Outcome (Option Versioned))
    (hx : ∀ x, answer = .ok (some x) → r.answer = some (.ok (some x)) ∨ f.due r.read = some x) :
    Coherent (f.endGet r.read answer).2 (held.erase ticket) := by
  cases answer with
  | error err => exact h.settle ht fun x hfetched => by cases hfetched
  | ok fetched =>
      refine (h.count r.read.endpoint _).settle ht fun x hfetched => ?_
      have hreads : Reads f (f.count r.read.endpoint fun c =>
          { c with remoteGets := c.remoteGets + 1 }) := Reads.update fun e => e.frame_count _
      rw [hreads.due]
      exact hx x (by rw [hfetched])

/-! ## Whole reads -/

/-- A read in one piece. It is held only while it is under way, so any free ticket will do. -/
theorem get (h : Coherent f held) (hw : Wired f) {ticket : Nat} (ht : held.get? ticket = none)
    (id : EndpointId) (key : Bytes) : Coherent (f.get id key).2 held := by
  unfold Fabric.get
  cases hb : f.beginGet id key with
  | mk b f' =>
      cases b with
      | done r => exact h.beginGet_done hb
      | pending r =>
          have hbegun := h.beginGet_pending hw hb ht none fun x hx => by cases hx
          have hend := (hbegun.fetch r).endGet (r := ⟨r, none⟩) (Table.get?_insert_self ..)
            (f'.fetch r).1 fun x hx => by
              right
              rw [(reads_fetch f' r).due]
              exact fetch_ok hx
          rwa [Table.erase_insert ht] at hend

theorem getInto (id : EndpointId) (keys : List Bytes) {ticket : Nat}
    (ht : held.get? ticket = none) :
    ∀ {f : Fabric} (found : Table Bytes Bytes), Coherent f held → Wired f →
      Coherent (f.getInto id found keys).2 held := by
  induction keys with
  | nil => intro f found h _; exact h
  | cons k ks ih =>
      intro f found h hw
      have hget := h.get hw ht id k
      have hwired := hw.serves (reads_get f id k).toServes
      unfold Fabric.getInto
      cases hg : f.get id k with
      | mk r f' =>
          rw [hg] at hget hwired
          cases r with
          | error => exact hget
          | ok v =>
              cases v with
              | none => exact ih found hget hwired
              | some v => exact ih _ hget hwired

/-- A read fails on a closed endpoint, and in front of an unreachable store unless the near cache
has the key. Otherwise its answer is what the store holds, whoever gives it. -/
theorem get_cases (h : Coherent f held) (id : EndpointId) (key : Bytes) :
    (∃ err, f.serving id = .error err ∧ f.get id key = (.error err, f)) ∨
    ∃ e, f.endpoint? id = some e ∧ e.closed = none ∧
      (((f.store.available = true ∨ ∃ v, e.local? key = some v) ∧
          (f.get id key).1 = .ok ((f.store.current? e.name key).map (·.value))) ∨
        (f.store.available = false ∧ e.local? key = none ∧
          (f.get id key).1 = .error (.storeUnavailable e.name "store unreachable"))) := by
  have hreads := reads_beginGet f id key
  unfold Fabric.get
  rcases beginGet_cases f id key with ⟨err, hs, hb⟩ | ⟨e, he, ho, ⟨v, hv, hb⟩ | ⟨hv, hb⟩⟩
  · left
    exact ⟨err, hs, by rw [hb]⟩
  · right
    obtain ⟨n, hn⟩ := h.current_of_local he ho hv
    refine ⟨e, he, ho, Or.inl ⟨Or.inr ⟨v, hv⟩, ?_⟩⟩
    rw [hb, hn]
    rfl
  · right
    refine ⟨e, he, ho, ?_⟩
    rw [hb] at hreads ⊢
    obtain ⟨e', he', hframe⟩ := hreads.keeps he
    obtain ⟨-, hconfig, -⟩ := Endpoint.eq_of_frame_eq hframe
    have hname := Endpoint.name_of_config hconfig
    dsimp only at hreads he' ⊢
    rw [endGet_eq, fetch_eq (r := ⟨id, key⟩) he', hreads.available, hreads.current?, hname]
    by_cases ha : f.store.available
    · left
      rw [if_pos ha]
      exact ⟨Or.inl ha, rfl⟩
    · right
      rw [if_neg ha]
      exact ⟨by simpa using ha, hv, rfl⟩

/-- The answer of an endpoint that serves. -/
theorem get_open (h : Coherent f held) {id : EndpointId} {e : Endpoint} (hs : f.serving id = .ok e)
    (key : Bytes) :
    ((f.store.available = true ∨ ∃ v, e.local? key = some v) ∧
        (f.get id key).1 = .ok ((f.store.current? e.name key).map (·.value))) ∨
      (f.store.available = false ∧ e.local? key = none ∧
        (f.get id key).1 = .error (.storeUnavailable e.name "store unreachable")) := by
  obtain ⟨he, -⟩ := serving_eq_ok_iff.mp hs
  rcases h.get_cases id key with ⟨err, herr, -⟩ | ⟨e', he', -, hanswer⟩
  · rw [hs] at herr
    cases herr
  · rw [he] at he'
    cases he'
    exact hanswer

/-- A read of several keys that does not fail finds what the store holds. -/
theorem getInto_ok {ticket : Nat} (ht : held.get? ticket = none) {id : EndpointId}
    (keys : List Bytes) :
    ∀ {f : Fabric} {found t : Table Bytes Bytes} {e : Endpoint}, f.Coherent held → f.Wired →
      f.endpoint? id = some e → (f.getInto id found keys).1 = .ok t →
      t = gather (f.store.current? e.name) found keys := by
  induction keys with
  | nil =>
      intro f found t e _ _ _ hok
      cases hok
      rfl
  | cons k ks ih =>
      intro f found t e h hw he hok
      have hget := h.get hw ht id k
      have hreads := reads_get f id k
      obtain ⟨e', he', hframe⟩ := hreads.keeps he
      obtain ⟨-, hconfig, -⟩ := Endpoint.eq_of_frame_eq hframe
      -- the store holds the same after the first read as before
      have hsame : (f.get id k).2.store.current? e'.name = f.store.current? e.name := by
        funext j
        rw [hreads.current?, Endpoint.name_of_config hconfig]
      have hfirst : ∀ v, (f.get id k).1 = .ok v →
          v = (f.store.current? e.name k).map (·.value) := by
        intro v hv
        rcases h.get_cases id k with ⟨err, -, herr⟩ | ⟨e₁, he₁, -, ⟨-, hans⟩ | ⟨-, -, hans⟩⟩
        · rw [herr] at hv
          cases hv
        · rw [he] at he₁
          cases he₁
          rw [hans] at hv
          exact (Except.ok.inj hv).symm
        · rw [hans] at hv
          cases hv
      unfold Fabric.getInto at hok
      unfold gather
      cases hg : f.get id k with
      | mk r f' =>
          rw [hg] at hget hreads he' hsame hfirst hok
          cases r with
          | error err => cases hok
          | ok v =>
              have hv := hfirst v rfl
              have hwired := hw.serves hreads.toServes
              cases hnow : f.store.current? e.name k with
              | none =>
                  rw [hnow] at hv
                  cases hv
                  rw [← hsame]
                  exact ih hget hwired he' hok
              | some x =>
                  rw [hnow] at hv
                  cases hv
                  rw [← hsame]
                  exact ih hget hwired he' hok

end Coherent

end Fabric

end NearCache
