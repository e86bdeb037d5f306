import NearCache.Proofs.Session.Sound

/-!
# No read is stale

`Session.Reads` follows a read from its beginning to its end, through whatever other commands come
between. `Reads.current` is the reason why near caches do not show: the answer of a read is what the
store held at one moment between the two. As the store only moves forward, a read that begins after
a write has been acknowledged cannot find anything older than the write.

`coherent_after` collects what users may rely on, in every session they can get to.
-/

namespace NearCache

namespace Session

/-- A read of a key through an endpoint, from the session in which it begins to the one in which it
ends, with its answer. Other commands may come between the two if the read is held. -/
inductive Reads (id : EndpointId) (key : Bytes) :
    Session → Outcome (Option Bytes) → Session → Prop where
  | whole {s s' : Session} {r : Outcome (Option Bytes)}
      (step : s.step (.get id key) = (.value r, s')) : Reads id key s r s'
  /-- A read of several keys, this one among them. -/
  | among {s s' : Session} {keys : List Bytes} {found : Table Bytes Bytes} (mem : key ∈ keys)
      (step : s.step (.getAll id keys) = (.values (.ok found), s')) :
      Reads id key s (.ok (found.get? key)) s'
  | atOnce {s s' : Session} {early : Bool} {r : Outcome (Option Bytes)}
      (step : s.step (.beginGet id key early) = (.value r, s')) : Reads id key s r s'
  | held {s s₁ s' : Session} {early : Bool} {ticket : Nat} {cs : List Command}
      {r : Outcome (Option Bytes)} (begins : s.step (.beginGet id key early) = (.held ticket, s₁))
      (ends : (s₁.after cs).step (.endGet ticket) = (.value r, s')) : Reads id key s r s'

/-- A moment between two others. -/
def During (s t s' : Session) : Prop := ∃ before after, t = s.after before ∧ s' = t.after after

theorem after_append (cs ds : List Command) :
    ∀ s : Session, s.after (cs ++ ds) = (s.after cs).after ds := by
  induction cs with
  | nil => intro s; rfl
  | cons c cs ih => intro s; exact ih (s.step c).2

variable {s : Session}

theorem beginGet_held {id : EndpointId} {key : Bytes} {early : Bool} {ticket : Nat} {s₁ : Session}
    (h : s.step (.beginGet id key early) = (.held ticket, s₁)) :
    ∃ f, s.fabric.beginGet id key = (.pending ⟨id, key⟩, f) ∧ ticket = s.nextTicket ∧
      s₁.nextTicket = s.nextTicket + 1 ∧
      s₁.held.get? ticket =
        some ⟨⟨id, key⟩, if early then some (f.fetch ⟨id, key⟩).1 else none⟩ := by
  have hstep : s.beginGet id key early = (.held ticket, s₁) := h
  unfold beginGet at hstep
  cases hb : s.fabric.beginGet id key with
  | mk b f =>
      rw [hb] at hstep
      cases b with
      | done r => cases hstep
      | pending r =>
          have hr : r = ⟨id, key⟩ := by
            rcases Fabric.beginGet_cases s.fabric id key with
              ⟨err, -, hb'⟩ | ⟨e, -, -, ⟨v, -, hb'⟩ | ⟨-, hb'⟩⟩ <;>
            · rw [hb'] at hb
              cases hb
              try rfl
          subst hr
          refine ⟨f, rfl, ?_⟩
          cases early with
          | false =>
              cases hstep
              exact ⟨rfl, rfl, Table.get?_insert_self _ _ _⟩
          | true =>
              cases hstep
              exact ⟨rfl, rfl, Table.get?_insert_self _ _ _⟩

/-- **The answer of a read is what the store held at one moment between its beginning and its
end.** -/
theorem Reads.current (h : Sound s) {id : EndpointId} {key : Bytes} {answer : Option Bytes}
    {s' : Session} (hr : Reads id key s (.ok answer) s') :
    ∃ e t, s.fabric.endpoint? id = some e ∧ During s t s' ∧
      (t.fabric.store.current? e.name key).map (·.value) = answer := by
  cases hr with
  | whole step =>
      have hans : (s.fabric.get id key).1 = .ok answer := Answer.value.inj (congrArg Prod.fst step)
      have hs' : (s.step (.get id key)).2 = s' := congrArg Prod.snd step
      rcases h.coherent.get_cases id key with ⟨err, -, herr⟩ | ⟨e, he, -, ⟨-, hok⟩ | ⟨-, -, hno⟩⟩
      · rw [herr] at hans
        cases hans
      · rw [hok] at hans
        exact ⟨e, s, he, ⟨[], [.get id key], rfl, hs'.symm⟩, Except.ok.inj hans⟩
      · rw [hno] at hans
        cases hans
  | @among _ keys found mem step =>
      have hans : (s.fabric.getAll id keys).1 = .ok found :=
        Answer.values.inj (congrArg Prod.fst step)
      have hs' : (s.step (.getAll id keys)).2 = s' := congrArg Prod.snd step
      cases he : s.fabric.endpoint? id with
      | none =>
          -- the first of the reads fails
          cases keys with
          | nil => cases mem
          | cons k ks =>
              rcases h.coherent.get_cases id k with ⟨err, -, herr⟩ | ⟨e, he', -⟩
              · rw [Fabric.getAll, Fabric.getInto, herr] at hans
                cases hans
              · rw [he] at he'
                cases he'
      | some e =>
          have hfound :=
            Fabric.Coherent.getInto_ok h.next_free keys h.coherent h.linked.wired he hans
          refine ⟨e, s, rfl, ⟨[], [.getAll id keys], rfl, hs'.symm⟩, ?_⟩
          rw [hfound, Fabric.get?_gather, if_pos mem]
          simp
  | @atOnce _ early _ step =>
      have hs' : (s.step (.beginGet id key early)).2 = s' := congrArg Prod.snd step
      have hstep : (s.beginGet id key early).1 = .value (.ok answer) := congrArg Prod.fst step
      unfold beginGet at hstep
      rcases Fabric.beginGet_cases s.fabric id key with
        ⟨err, -, hb⟩ | ⟨e, he, ho, ⟨v, hv, hb⟩ | ⟨-, hb⟩⟩
      · rw [hb] at hstep
        cases hstep
      · rw [hb] at hstep
        cases hstep
        obtain ⟨n, hn⟩ := h.coherent.current_of_local he ho hv
        exact ⟨e, s, he, ⟨[], [.beginGet id key early], rfl, hs'.symm⟩, by rw [hn]; rfl⟩
      · rw [hb] at hstep
        cases early <;> cases hstep
  | @held s₁ _ early ticket cs _ begins ends =>
      obtain ⟨f, hb, rfl, hnext, hheld⟩ := beginGet_held begins
      have hs₁ : s₁ = s.after [.beginGet id key early] := (congrArg Prod.snd begins).symm
      have hs' : s' = (s₁.after cs).after [.endGet s.nextTicket] := (congrArg Prod.snd ends).symm
      have hlater : s₁.after cs = s.after (.beginGet id key early :: cs) := by rw [hs₁]; rfl
      have hreads := Fabric.reads_beginGet s.fabric id key
      rw [hb] at hreads
      obtain ⟨e, he⟩ : ∃ e, s.fabric.endpoint? id = some e := by
        rcases Fabric.beginGet_cases s.fabric id key with ⟨err, -, hb'⟩ | ⟨e, he, -⟩
        · rw [hb] at hb'
          cases hb'
        · exact ⟨e, he⟩
      have hsound₁ : Sound s₁ := hs₁ ▸ (h.after [.beginGet id key early]).sound
      have hstep : ((s₁.after cs).endGet s.nextTicket).1 = .value (.ok answer) :=
        congrArg Prod.fst ends
      unfold endGet at hstep
      -- the read is held as it was when it began
      cases hr : (s₁.after cs).held.get? s.nextTicket with
      | none =>
          rw [hr] at hstep
          cases hstep
      | some r =>
          have hr₁ := (hsound₁.after cs).held (by omega) hr
          rw [hheld] at hr₁
          cases hr₁
          rw [hr] at hstep
          have hans := Answer.value.inj hstep
          -- what the store answered is what it held when it was asked
          cases early with
          | true =>
              obtain ⟨x, hfetch, hx⟩ := Fabric.endGet_ok hans
              have hdue := (hreads.due _).symm.trans (Fabric.fetch_ok hfetch)
              rw [Fabric.due, he] at hdue
              refine ⟨e, s, he,
                ⟨[], .beginGet id key true :: (cs ++ [.endGet s.nextTicket]), rfl, ?_⟩, ?_⟩
              · rw [hs', hs₁, ← after_append]
                rfl
              · rw [← hx, ← hdue]
                rfl
          | false =>
              obtain ⟨x, hfetch, hx⟩ := Fabric.endGet_ok hans
              have hdue := Fabric.fetch_ok hfetch
              obtain ⟨e', he', hconfig⟩ :=
                (h.after (.beginGet id key false :: cs)).precedes.config he
              rw [← hlater] at he'
              rw [Fabric.due, he'] at hdue
              refine ⟨e, s₁.after cs, he,
                ⟨.beginGet id key false :: cs, [.endGet s.nextTicket], hlater, hs'⟩, ?_⟩
              rw [← hx, ← hdue]
              show _ = Option.map _ ((s₁.after cs).fabric.store.current? e'.name key)
              rw [Endpoint.name_of_config hconfig]

/-! ## Writes and later reads -/

/-- No read through an endpoint of a cache that begins now or later finds a value of the key under a
version below `n`. -/
def NoneOlder (s : Session) (c : String) (key : Bytes) (n : Nat) : Prop :=
  ∀ {cs id e v s'}, (s.after cs).fabric.endpoint? id = some e → e.name = c →
    Reads id key (s.after cs) (.ok (some v)) s' →
    ∃ t m, During (s.after cs) t s' ∧ t.fabric.store.current? c key = some ⟨v, m⟩ ∧ n ≤ m

/-- The store only moves forward, so what it holds now bounds what will be found. -/
theorem noneOlder (h : Sound s) {c : String} {key : Bytes} {n : Nat}
    (hn : n ≤ s.fabric.store.lastVersion + 1)
    (hnow : ∀ x, s.fabric.store.current? c key = some x → n ≤ x.version) :
    NoneOlder s c key n := by
  intro cs id e v s' he hname hr
  obtain ⟨e', t, he', hduring, hvalue⟩ := hr.current (h.after cs).sound
  rw [he] at he'
  cases he'
  rw [hname] at hvalue
  obtain ⟨x, hx, hxv⟩ := Option.map_eq_some_iff.mp hvalue
  refine ⟨t, x.version, hduring, by rw [hx, ← hxv], ?_⟩
  obtain ⟨before, -, rfl, -⟩ := hduring
  have hadvances := (h.after cs).precedes.advances.trans
    ((h.after cs).sound.after before).precedes.advances
  rcases hadvances.fresh hx with hold | hnew
  · exact hnow x hold
  · omega

/-- What users of a cluster may rely on. -/
structure Coherent (s : Session) : Prop where
  /-- A near cache of an open endpoint has no value that the store does not have, under the same
  version. -/
  entry : ∀ {id e front key en v}, s.fabric.endpoint? id = some e → e.closed = none →
    e.front = some front → front.cell? key = some en → en.value = some v →
    s.fabric.store.current? e.name key = some ⟨v, en.version⟩
  /-- A read that the near cache serves returns what the store holds. -/
  hit : ∀ {id key v f}, s.fabric.beginGet id key = (.done (.ok (some v)), f) →
    ∃ e n, s.fabric.endpoint? id = some e ∧ s.fabric.store.current? e.name key = some ⟨v, n⟩
  peek : ∀ {id key v s'}, s.step (.peek id key) = (.peeked (.ok (some v)), s') →
    ∃ e n, s.fabric.endpoint? id = some e ∧ s.fabric.store.current? e.name key = some ⟨v, n⟩
  /-- The answer of any read is what the store held at one moment of the read. -/
  read : ∀ {id key answer s'}, Reads id key s (.ok answer) s' →
    ∃ e t, s.fabric.endpoint? id = some e ∧ During s t s' ∧
      (t.fabric.store.current? e.name key).map (·.value) = answer
  /-- After a write has been acknowledged no read finds anything older. -/
  put : ∀ {id e key value s'}, s.fabric.endpoint? id = some e →
    s.step (.put id key value) = (.done (.ok ()), s') →
    s'.fabric.store.current? e.name key = some ⟨value, s'.fabric.store.lastVersion⟩ ∧
      NoneOlder s' e.name key s'.fabric.store.lastVersion
  /-- After a removal has been acknowledged reads find only what is written later. -/
  remove : ∀ {id e key b s'}, s.fabric.endpoint? id = some e →
    s.step (.remove id key) = (.found (.ok b), s') →
    s'.fabric.store.current? e.name key = none ∧
      NoneOlder s' e.name key (s'.fabric.store.lastVersion + 1)

theorem Sound.toCoherent (h : Sound s) : Coherent s where
  entry he ho hf hcell hv := (h.coherent.cell he ho hf _).live hcell hv
  hit {id key v f} hb := by
    rcases Fabric.beginGet_cases s.fabric id key with
      ⟨err, -, hb'⟩ | ⟨e, he, ho, ⟨w, hw, hb'⟩ | ⟨-, hb'⟩⟩
    · rw [hb'] at hb
      cases hb
    · rw [hb'] at hb
      cases hb
      obtain ⟨n, hn⟩ := h.coherent.current_of_local he ho hw
      exact ⟨e, n, he, hn⟩
    · rw [hb'] at hb
      cases hb
  peek {id key v s'} hstep := by
    have hpeek : s.fabric.peek id key = .ok (some v) := Answer.peeked.inj (congrArg Prod.fst hstep)
    obtain ⟨e, he, ho, hv⟩ := Fabric.peek_eq_ok_iff.mp hpeek
    obtain ⟨n, hn⟩ := h.coherent.current_of_local he ho hv
    exact ⟨e, n, he, hn⟩
  read hr := hr.current h
  put {id e key value s'} he hstep := by
    have hput : (s.fabric.put id key value).1 = .ok () := Answer.done.inj (congrArg Prod.fst hstep)
    have hs' : s' = s.after [.put id key value] := (congrArg Prod.snd hstep).symm
    have hcurrent : s'.fabric.store.current? e.name key =
        some ⟨value, s'.fabric.store.lastVersion⟩ := by
      rw [hs']
      exact Fabric.current?_put he hput
    refine ⟨hcurrent, noneOlder (hs' ▸ (h.after _).sound) (Nat.le_succ _) fun x hx => ?_⟩
    rw [hcurrent] at hx
    cases hx
    exact Nat.le_refl _
  remove {id e key b s'} he hstep := by
    have hremove : (s.fabric.remove id key).1 = .ok b :=
      Answer.found.inj (congrArg Prod.fst hstep)
    have hs' : s' = s.after [.remove id key] := (congrArg Prod.snd hstep).symm
    have hcurrent : s'.fabric.store.current? e.name key = none := by
      rw [hs']
      exact Fabric.current?_remove he hremove
    refine ⟨hcurrent, noneOlder (hs' ▸ (h.after _).sound) (Nat.le_refl _) fun x hx => ?_⟩
    rw [hcurrent] at hx
    cases hx

/-- **Near caches are coherent, whatever users do and however their reads and writes overlap.** -/
theorem coherent_after {memberIds : Nat → MemberId} (distinct : Function.Injective memberIds)
    (publisher : Fanout) (cs : List Command) : Coherent ((fresh memberIds publisher).after cs) :=
  ((Sound.fresh distinct publisher).after cs).sound.toCoherent

/-- A value that one node writes and the other has in its near cache, while a read is held. -/
theorem coherent_after_write :
    let s := (fresh id {}).after [.start { name := "a", caches := [{ name := "x" }] },
      .start { name := "b" }, .put 0 [1] [2], .get 1 [1], .beginGet 0 [1] true, .put 1 [1] [3]]
    (s.fabric.endpoint? 1).bind (·.local? [1]) = some [3] ∧ s.held.size = 1 ∧ Coherent s :=
  ⟨by decide, by decide, coherent_after Function.injective_id {} _⟩

end Session

end NearCache
