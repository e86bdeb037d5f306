import NearCache.Proofs.Warmth.Row

/-!
# The book balances

With no reads on their way a fabric is `Fabric.Settled`, and every use keeps it so, as long as the
data of a cache is not dropped under an open endpoint. `Account.Fits a f` says that a book is right
about a settled fabric: about the values of the store, and about every endpoint (`Row.Tells`). Each
use takes a book and a fabric that fit to a book and a fabric that fit, so the book that starts
empty is right for ever.

`warm_after` reads off what users see: which reads are hits, what near caches hold, and every
counter, all from sets of warm keys.
-/

namespace NearCache

namespace Fabric

/-- Nothing is on its way: the wiring is right, near caches agree with the store, and the values of
the store have versions above 0. -/
structure Settled (f : Fabric) : Prop where
  wired : f.Wired
  coherent : f.Coherent ∅
  advances : Store.Advances {} f.store

namespace Settled

variable {f f' : Fabric}

theorem empty : Settled {} := ⟨.empty, .empty, .refl _⟩

theorem version_pos (h : Settled f) {c : String} {k : Bytes} {x : Versioned}
    (hx : f.store.current? c k = some x) : 0 < x.version := by
  rcases h.advances.fresh hx with hold | hpos
  · cases hold
  · exact hpos

theorem serves (h : Settled f) (hs : f.Serves f') (hc : f'.Coherent ∅) : Settled f' :=
  ⟨h.wired.serves hs, hc, h.advances.trans hs.advances⟩

theorem count (h : Settled f) (id : EndpointId) (g : Counters → Counters) :
    Settled (f.count id g) :=
  h.serves (.count f id g) (h.coherent.count id g)

theorem get (h : Settled f) (id : EndpointId) (k : Bytes) : Settled (f.get id k).2 :=
  h.serves (f.reads_get id k).toServes (h.coherent.get h.wired (Table.get?_empty 0) id k)

theorem put (h : Settled f) (id : EndpointId) (k v : Bytes) : Settled (f.put id k v).2 :=
  h.serves (f.serves_put id k v) (h.coherent.put h.wired id k v)

theorem of_isIdle {c : String} (h : f.isIdle c = true) {id : EndpointId} {e : Endpoint}
    (he : f.endpoint? id = some e) (ho : e.closed = none) : e.name ≠ c := by
  have hall := List.all_eq_true.mp h e (Table.mem_values_iff.mpr ⟨id, he⟩)
  simpa [ho] using hall

/-- Every use keeps a fabric settled that does not drop data under an open endpoint. -/
theorem use (h : Settled f) {u : Use} (hs : f.spares u = true) : Settled (f.use u) := by
  cases u with
  | start node config p =>
      exact ⟨h.wired.start node config p, h.coherent.start node config p,
        h.advances.trans (Wired.precedes_start h.wired node config p).advances⟩
  | close id r =>
      exact ⟨h.wired.close id r, h.coherent.close id r,
        h.advances.trans (f.precedes_close id r).advances⟩
  | get id k => exact h.get id k
  | getAll id ks =>
      exact h.serves (reads_getInto id ks f ∅).toServes
        (Coherent.getInto id ks (Table.get?_empty 0) ∅ h.coherent h.wired)
  | put id k v => exact h.put id k v
  | putAll id entries =>
      exact h.serves (serves_putEach id entries f) (Coherent.putEach id entries h.coherent h.wired)
  | remove id k => exact h.serves (f.serves_remove id k) (h.coherent.remove h.wired id k)
  | storeGet c k =>
      show Settled { f with store := (f.store.get c k).2 }
      unfold Store.get
      cases f.store.reach c with
      | error => exact h
      | ok =>
          exact h.serves (Serves.withStore rfl rfl (.of_data rfl rfl))
            (h.coherent.withStore rfl rfl)
  | storePut c k v => exact h.serves (f.serves_storePut c k v) (h.coherent.storePut h.wired c k v)
  | storeRemove c k =>
      exact h.serves (f.serves_storeRemove c k) (h.coherent.storeRemove h.wired c k)
  | setAvailable b =>
      exact h.serves (Serves.withStore rfl rfl (.of_data rfl rfl)) (h.coherent.withStore rfl rfl)
  | destroy c =>
      exact h.serves (Serves.withStore rfl rfl (.destroy f.store c))
        (h.coherent.destroy fun id e he ho => of_isIdle hs he ho)

end Settled

end Fabric

namespace Account

variable {a : Account} {f : Fabric}

theorem update_eq_self {id : EndpointId} {g : Row → Row}
    (h : ∀ r, a.row? id = some r → g r = r) : a.update id g = a := by
  have hrows : a.rows.alter id (·.map g) = a.rows := Table.ext_get? fun j => by
    rw [Table.get?_alter]
    split
    · next hj =>
      cases hr : a.rows.get? id with
      | none => rw [hj, hr]; rfl
      | some r => rw [hj, hr, Option.map_some, h r hr]
    · rfl
  unfold update
  rw [hrows]

/-- The book is right about the fabric. -/
structure Fits (a : Account) (f : Fabric) : Prop where
  started : a.started = f.started
  available : a.available = f.store.available
  value : ∀ c k, a.value? c k = (f.store.current? c k).map (·.value)
  row : ∀ id, Option.Rel Row.Tells (a.row? id) (f.endpoint? id)

namespace Fits

theorem empty : Fits {} {} where
  started := rfl
  available := rfl
  value _ _ := rfl
  row _ := .none

/-- There is a row for every endpoint, and for nothing else. -/
theorem row_cases (h : Fits a f) (id : EndpointId) :
    (a.row? id = none ∧ f.endpoint? id = none) ∨
      ∃ r e, a.row? id = some r ∧ f.endpoint? id = some e ∧ r.Tells e := by
  have hrow := h.row id
  generalize a.row? id = row at hrow ⊢
  generalize f.endpoint? id = endpoint at hrow ⊢
  cases hrow with
  | none => exact Or.inl ⟨rfl, rfl⟩
  | some htells => exact Or.inr ⟨_, _, rfl, rfl, htells⟩

/-- A change of the store that users cannot see. -/
theorem withStore (h : Fits a f) {s : Store EndpointId} (hd : s.data = f.store.data)
    (ha : s.available = f.store.available) : Fits a { f with store := s } where
  started := h.started
  available := h.available.trans ha.symm
  value c k := by
    show _ = (s.current? c k).map _
    rw [Store.current?_of_data hd]
    exact h.value c k
  row := h.row

/-- A change of one endpoint and its row. -/
theorem update (h : Fits a f) {id : EndpointId} {g : Row → Row} {g' : Endpoint → Endpoint}
    (hg : ∀ {r e}, a.row? id = some r → f.endpoint? id = some e → r.Tells e →
      (g r).Tells (g' e)) : Fits (a.update id g) (f.update id g') where
  started := h.started
  available := h.available
  value := h.value
  row j := by
    rw [row?_update, Fabric.endpoint?_update]
    split
    · rcases h.row_cases id with ⟨hr, he⟩ | ⟨r, e, hr, he, htells⟩
      · rw [hr, he]
        exact .none
      · rw [hr, he]
        exact .some (hg hr he htells)
    · exact h.row j

theorem count (h : Fits a f) (id : EndpointId) (g : Counters → Counters) :
    Fits (a.update id (·.count g)) (f.count id g) :=
  h.update fun _ _ htells => htells.count g

/-- An endpoint that serves has an open row, and no other has one. -/
theorem serving_cases (h : Fits a f) (id : EndpointId) :
    (∃ err, f.serving id = .error err ∧ (a.row? id).any (·.isOpen) = false) ∨
    ∃ r e, a.row? id = some r ∧ f.serving id = .ok e ∧ f.endpoint? id = some e ∧
      e.closed = none ∧ r.isOpen = true ∧ r.Tells e := by
  rcases h.row_cases id with ⟨hr, he⟩ | ⟨r, e, hr, he, htells⟩
  · left
    cases hs : f.serving id with
    | error err => exact ⟨err, rfl, by rw [hr]; rfl⟩
    | ok e =>
        rw [(Fabric.serving_eq_ok_iff.mp hs).1] at he
        cases he
  · have hopen := htells.isOpen
    cases hc : e.closed with
    | none =>
        rw [hc] at hopen
        exact Or.inr ⟨r, e, hr, Fabric.serving_eq_ok_iff.mpr ⟨he, hc⟩, he, hc, hopen, htells⟩
    | some reason =>
        rw [hc] at hopen
        left
        cases hs : f.serving id with
        | error err => exact ⟨err, rfl, by rw [hr]; exact hopen⟩
        | ok e' =>
            obtain ⟨he', ho⟩ := Fabric.serving_eq_ok_iff.mp hs
            rw [he] at he'
            cases he'
            rw [hc] at ho
            cases ho

/-! ## Starting and closing -/

theorem start (h : Fits a f) (node : String) (config : CacheConfig) (p : Placement) :
    Fits (a.use (.start node config p)) (f.start node config p).2 where
  started := by
    rw [Fabric.started_start, ← h.started]
    rfl
  available := by
    obtain ⟨subs, n, hs⟩ := f.store_start node config p
    rw [hs]
    exact h.available
  value c k := by
    rw [Store.current?_of_data (f.data_start node config p).1]
    exact h.value c k
  row j := by
    show Option.Rel _ ((a.rows.insert a.started _).get? j) _
    rw [Table.get?_insert, Fabric.endpoint?_start, h.started]
    split
    · exact .some (.opened node config p _)
    · exact h.row j

theorem close (h : Fits a f) (id : EndpointId) (r : Closing) :
    Fits (a.update id Row.close) (f.close id r).2 where
  started := h.started.trans (Fabric.started_close f id r).symm
  available := by
    obtain ⟨subs, hs⟩ := f.store_close id r
    rw [hs]
    exact h.available
  value c k := by
    rw [Store.current?_of_data (f.data_close id r).1]
    exact h.value c k
  row j := by
    have hfits : Fits (a.update id Row.close) (f.update id (Endpoint.shut r)) :=
      h.update fun _ _ htells => htells.shut r
    have hupdate := hfits.row j
    rw [Fabric.endpoint?_update] at hupdate
    rw [Fabric.endpoint?_close]
    exact hupdate

/-! ## Reading -/

/-- A read through an endpoint. Whether it is answered is in the book, too. -/
theorem get (h : Fits a f) (hf : f.Settled) (id : EndpointId) (k : Bytes) :
    Fits (a.get id k) (f.get id k).2 ∧
      (f.get id k).1.isOk = (a.row? id).any (·.answers a.available k) := by
  rcases h.serving_cases id with ⟨err, hs, hshut⟩ | ⟨r, e, hr, -, he, ho, hopen, htells⟩
  · rw [Fabric.get_of_not_serving hs]
    have hread : ∀ r, a.row? id = some r → r.isOpen = false := by
      intro r hr
      rw [hr] at hshut
      exact hshut
    refine ⟨?_, ?_⟩
    · unfold Account.get
      rw [update_eq_self fun r hr => ?_]
      · exact h
      · simp [Row.read, hread r hr]
    · cases hr : a.row? id with
      | none => rfl
      | some r => simp [Row.answers, hread r hr, Except.isOk, Except.toBool]
  · rw [hr]
    by_cases hk : k ∈ r.warm
    · obtain ⟨v, hv⟩ := htells.local?_of_mem hk
      rw [Fabric.get_eq_hit he ho hv]
      refine ⟨h.update ?_, ?_⟩
      · intro r' e' hr' he' htells'
        rw [hr] at hr'
        cases hr'
        simp only [Row.read, hopen, hk, if_true]
        exact htells'.count _
      · simp [Row.answers, hopen, hk, Except.isOk, Except.toBool]
    · rw [Fabric.get_eq_miss he ho (htells.local?_of_notMem hk), ← h.available]
      have hvalue := h.value e.name k
      by_cases ha : a.available
      · rw [if_pos ha]
        refine ⟨?_, ?_⟩
        · have hcounted := h.withStore
            (s := { f.store with reads := f.store.reads + 1 }) rfl rfl
          refine hcounted.update ?_
          intro r' e' hr' he' htells'
          rw [hr] at hr'
          cases hr'
          have hload := (htells'.load hopen hk (f.store.current? e.name k)
            fun x hx => hf.version_pos hx).count fun c =>
              { c with gets := c.gets + 1, remoteGets := c.remoteGets + 1 }
          rw [← htells.cache] at hload hvalue ⊢
          simpa [Row.read, hopen, hk, ha, hvalue, Row.count] using hload
        · simp [Row.answers, hopen, ha, Except.isOk, Except.toBool]
      · rw [if_neg ha]
        refine ⟨h.update ?_, ?_⟩
        · intro r' e' hr' he' htells'
          rw [hr] at hr'
          cases hr'
          have hload := (htells'.load hopen hk none
            fun x hx => by cases hx).count fun c => { c with gets := c.gets + 1 }
          simpa [Row.read, hopen, hk, ha, Row.count] using hload
        · simp [Row.answers, hopen, hk, ha, Except.isOk, Except.toBool]

theorem getInto (id : EndpointId) (ks : List Bytes) :
    ∀ {a : Account} {f : Fabric} (found : Table Bytes Bytes), Fits a f → f.Settled →
      Fits (a.getEach id ks) (f.getInto id found ks).2 := by
  induction ks with
  | nil => intro a f found h _; exact h
  | cons k ks ih =>
      intro a f found h hf
      obtain ⟨hget, hok⟩ := h.get hf id k
      have hsettled := hf.get id k
      unfold getEach Fabric.getInto
      cases hg : f.get id k with
      | mk result f' =>
          rw [hg] at hget hok hsettled
          rw [← hok]
          cases result with
          | error => exact hget
          | ok v =>
              cases v with
              | none => exact ih found hget hsettled
              | some v => exact ih _ hget hsettled

/-! ## Writing -/

/-- A write or a removal that the store has accepted and that is announced. -/
theorem told (h : Fits a f) (hf : f.Settled) {s : Store EndpointId} {n : Notice}
    (hs : f.Serves { f with store := s }) (ha : s.available = f.store.available)
    (hnotice : n.change.version = f.store.lastVersion + 1)
    (hcurrent : ∀ c k, s.current? c k =
      if c = n.cache ∧ k = n.key then n.change.live? else f.store.current? c k) :
    Fits { a.setValue n.cache n.key (n.change.live?.map (·.value)) with
      rows := a.rows.mapValues (·.hear n) } ({ f with store := s }.tell n) where
  started := h.started.trans (Fabric.serves_tell { f with store := s } n).started.symm
  available := by
    rw [Fabric.store_tell]
    exact h.available.trans ha.symm
  value c k := by
    rw [Fabric.store_tell]
    show (if c = n.cache ∧ k = n.key then _ else a.value? c k) = (s.current? c k).map _
    rw [hcurrent]
    split
    · rfl
    · exact h.value c k
  row id := by
    have hw := hf.wired.serves hs
    show Option.Rel _ ((a.rows.mapValues (·.hear n)).get? id) _
    rw [Table.get?_mapValues]
    rcases h.row_cases id with ⟨hr, he⟩ | ⟨r, e, hr, he, htells⟩
    · have hnone := Fabric.endpoint?_tell_eq_none (f := { f with store := s }) he n
      rw [show a.rows.get? id = none from hr, hnone]
      exact .none
    · have htell := hw.endpoint?_tell (e := e) he n
      rw [show a.rows.get? id = some r from hr, htell]
      refine .some (htells.hear fun ho hname hfront hcell => ?_)
      -- no entry is younger than the store, which has only now given the version
      have hold := (hf.coherent.cell he ho hfront n.key).old hcell
      omega

theorem storePut (h : Fits a f) (hf : f.Settled) (c : String) (k v : Bytes) :
    Fits (a.write c k v) (f.storePut c k v).2 := by
  rw [Fabric.storePut_eq]
  unfold Account.write Store.reach
  rw [h.available]
  by_cases ha : f.store.available
  · rw [if_pos ha, if_pos ha]
    exact h.told hf (n := (f.store.write c k v).1)
      (Fabric.Serves.withStore rfl rfl (.write f.store c k v)) rfl rfl
      fun c' k' => Store.current?_write f.store c c' k k' v
  · rw [if_neg ha, if_neg ha]
    exact h

theorem storeRemove (h : Fits a f) (hf : f.Settled) (c : String) (k : Bytes) :
    Fits (a.erase c k) (f.storeRemove c k).2 := by
  have hvalue := h.value c k
  rw [Fabric.storeRemove_eq]
  unfold Account.erase Store.reach
  rw [h.available]
  by_cases ha : f.store.available
  · rw [if_pos ha]
    dsimp only
    cases her : f.store.erase c k with
    | none =>
        rw [Store.erase_eq_none_iff.mp her] at hvalue
        rw [hvalue, if_neg (by simp)]
        exact h
    | some ns =>
        obtain ⟨n, s⟩ := ns
        have hcurrent := Store.current?_erase her
        have hadvances := Store.Advances.erase her
        obtain ⟨hsome, rfl, hs⟩ := Store.erase_eq_some_iff.mp her
        have hheld : (a.value? c k).isSome = true := by
          rw [hvalue, Option.isSome_map]
          exact Option.isSome_iff_ne_none.mpr hsome
        rw [if_pos (by simp [ha, hheld])]
        refine h.told hf (n := ⟨c, k, .removed (f.store.lastVersion + 1)⟩)
          (Fabric.Serves.withStore ?_ ?_ hadvances) ?_ rfl hcurrent
        · rw [hs]; rfl
        · rw [hs]; rfl
        · rw [hs]; rfl
  · rw [if_neg ha, if_neg (by simp [ha])]
    exact h

/-- A write through an endpoint. Whether it is accepted is in the book, too. -/
theorem put (h : Fits a f) (hf : f.Settled) (id : EndpointId) (k v : Bytes) :
    Fits (a.put id k v) (f.put id k v).2 ∧
      (f.put id k v).1.isOk = ((a.row? id).any (·.isOpen) && a.available) := by
  rw [Fabric.put_snd]
  unfold Account.put Fabric.put
  rcases h.serving_cases id with ⟨err, hs, hshut⟩ | ⟨r, e, hr, hs, -, -, hopen, htells⟩
  · rw [hs, hshut]
    refine ⟨?_, rfl⟩
    cases hr : a.row? id with
    | none => exact h
    | some r =>
        rw [hr] at hshut
        have hclosed : ¬ r.isOpen = true := by simpa using hshut
        dsimp only
        rw [if_neg hclosed]
        exact h
  · rw [hs, hr]
    dsimp only
    rw [if_pos hopen, htells.cache]
    refine ⟨(h.count id _).storePut (hf.count id _) e.name k v, ?_⟩
    show _ = (r.isOpen && a.available)
    rw [h.available, hopen]
    by_cases ha : f.store.available
    · simp [Store.put, Store.reach, ha, Except.map, Except.isOk, Except.toBool]
    · simp [Store.put, Store.reach, ha, Except.map, Except.isOk, Except.toBool]

theorem putEach (id : EndpointId) (entries : List (Bytes × Bytes)) :
    ∀ {a : Account} {f : Fabric}, Fits a f → f.Settled →
      Fits (a.putEach id entries) (f.putEach id entries).2 := by
  induction entries with
  | nil => intro a f h _; exact h
  | cons kv rest ih =>
      intro a f h hf
      obtain ⟨k, v⟩ := kv
      obtain ⟨hput, hok⟩ := h.put hf id k v
      have hsettled := hf.put id k v
      unfold Account.putEach Fabric.putEach
      cases hp : f.put id k v with
      | mk result f' =>
          rw [hp] at hput hok hsettled
          rw [← hok]
          cases result with
          | error => exact hput
          | ok u => exact ih hput hsettled

theorem remove (h : Fits a f) (hf : f.Settled) (id : EndpointId) (k : Bytes) :
    Fits (a.remove id k) (f.remove id k).2 := by
  rw [Fabric.remove_snd]
  unfold Account.remove
  rcases h.serving_cases id with ⟨err, hs, hshut⟩ | ⟨r, e, hr, hs, -, -, hopen, htells⟩
  · rw [hs]
    cases hr : a.row? id with
    | none => exact h
    | some r =>
        rw [hr] at hshut
        have hclosed : ¬ r.isOpen = true := by simpa using hshut
        dsimp only
        rw [if_neg hclosed]
        exact h
  · rw [hs, hr]
    dsimp only
    rw [if_pos hopen, htells.cache]
    exact (h.count id _).storeRemove (hf.count id _) e.name k

/-! ## Every use -/

theorem use (h : Fits a f) (hf : f.Settled) (u : Use) : Fits (a.use u) (f.use u) := by
  cases u with
  | start node config p => exact h.start node config p
  | close id r => exact h.close id r
  | get id k => exact (h.get hf id k).1
  | getAll id ks => exact getInto id ks ∅ h hf
  | put id k v => exact (h.put hf id k v).1
  | putAll id entries => exact putEach id entries h hf
  | remove id k => exact h.remove hf id k
  | storeGet c k =>
      show Fits a { f with store := (f.store.get c k).2 }
      unfold Store.get
      cases f.store.reach c with
      | error => exact h
      | ok => exact h.withStore rfl rfl
  | storePut c k v => exact h.storePut hf c k v
  | storeRemove c k => exact h.storeRemove hf c k
  | setAvailable b => exact ⟨h.started, rfl, h.value, h.row⟩
  | destroy c =>
      refine ⟨h.started, h.available, fun c' k => ?_, h.row⟩
      show (if c' = c then none else a.value? c' k) = ((f.store.destroy c).current? c' k).map _
      rw [Store.current?_destroy]
      split
      · rfl
      · exact h.value c' k

theorem uses (us : List Use) :
    ∀ {a : Account} {f : Fabric}, Fits a f → f.Settled → f.sparesAll us = true →
      Fits (a.uses us) (f.uses us) ∧ (f.uses us).Settled := by
  induction us with
  | nil => intro a f h hf _; exact ⟨h, hf⟩
  | cons u us ih =>
      intro a f h hf hs
      unfold Fabric.sparesAll at hs
      rw [Bool.and_eq_true] at hs
      exact ih (h.use hf u) (hf.use hs.1) hs.2

end Fits

end Account

end NearCache
