import NearCache.Proofs.Front.Entries
import NearCache.Proofs.Traffic.Keeping

/-!
# An outage leaves no trace

A read that the near cache cannot serve registers a load before it asks the store. When the store
cannot be reached, the load is taken back, and that must undo it exactly, whatever was known of the
key before. It does, since no entry is kept for nothing (`Front.finishLoad_beginLoad`); and no entry
ever is, in whatever order reads set out and come back (`neat_after`).

So all that is left of a request that the store refuses is what its endpoint has counted
(`refused_after`).
-/

namespace NearCache

namespace Front

/-! ## A load that brings nothing back -/

namespace Entry

variable {known : Option Entry}

/-- A read that sets out and brings nothing back leaves an entry as it was. -/
theorem settle_load (h : Tidy known) : (settle none (load known)).1 = known := by
  cases known with
  | none => rfl
  | some e =>
      show keep { e with loads := e.loads + 1 - 1 } = some e
      rw [Nat.add_sub_cancel]
      unfold keep
      rw [if_neg]
      rintro ⟨hval, hloads⟩
      exact h.needed rfl hval hloads

theorem isLive_load (known : Option Entry) : isLive (load known) = isLive known := by
  cases known <;> rfl

end Entry

variable {f : Front} {k : Bytes}

/-- A replacement that has not moved the count. -/
theorem recount_of_isLive_eq {known a : Option Entry} (h : Entry.isLive a = Entry.isLive known)
    (n : Nat) (b : Option Entry) : recount (recount n known a) a b = recount n known b := by
  unfold recount
  rw [h]
  cases Entry.isLive known <;> rfl

/-- A load of a key that brings nothing back leaves the near cache as it was. -/
theorem finishLoad_beginLoad (h : f.Tidy) (k : Bytes) :
    ((f.beginLoad k).finishLoad k none).2 = f := by
  show (f.beginLoad k).set k (Entry.settle none ((f.beginLoad k).cell? k)).1 = f
  have hcell : (f.beginLoad k).cell? k = Entry.load (f.cell? k) := by
    unfold beginLoad
    rw [cell?_set, if_pos rfl]
  rw [hcell, Entry.settle_load (h k)]
  unfold beginLoad
  rw [set_set (recount_of_isLive_eq (Entry.isLive_load _) _ _), set_self]

end Front

/-! ## No entry is kept for nothing -/

/-- The near cache of an endpoint keeps no entry for nothing. -/
def Endpoint.Neat (e : Endpoint) : Prop := ∀ front, e.front = some front → front.Tidy

namespace Endpoint.Neat

variable {e : Endpoint}

/-- The near cache is asked for something. -/
theorem serve (h : e.Neat) {e' : Endpoint} (c : Front.Call)
    (hf : e'.front = e.front.map fun front => (front.serve c).2) : e'.Neat := by
  intro front' hfront'
  rw [hf] at hfront'
  obtain ⟨front, hfront, rfl⟩ := Option.map_eq_some_iff.mp hfront'
  exact (h front hfront).serve c

theorem count (h : e.Neat) (g : Counters → Counters) : (e.count g).Neat := h

theorem setOut (h : e.Neat) (k : Bytes) : (e.setOut k).Neat := h.serve (.beginLoad k) rfl

theorem back (h : e.Neat) (k : Bytes) (x : Option Versioned) : (e.back k x).Neat :=
  h.serve (.finishLoad k x) rfl

theorem hear (h : e.Neat) (n : Notice) : (e.hear n).Neat := by
  have hfront := Fabric.front_hear e n
  obtain ⟨cache, key, change⟩ := n
  cases change with
  | put now => exact h.serve (.applyUpdate key now) hfront
  | removed version => exact h.serve (.applyRemoval key version) hfront

theorem shut (h : e.Neat) (r : Closing) : (e.shut r).Neat := by
  unfold Endpoint.shut
  split
  · exact h
  · exact h.serve .clear rfl

theorem opened (node : String) (config : CacheConfig) (p : Placement) (s : Nat) :
    (Endpoint.opened node config p s).Neat := by
  intro front hfront
  unfold Endpoint.opened at hfront
  cases p with
  | present =>
      cases hfront
      exact Front.tidy_empty
  | absent => cases hfront

/-- A read that brings nothing back takes back what it registered. -/
theorem load_none (h : e.Neat) (k : Bytes) : e.load k none = e := by
  have hfront : (e.front.map fun front => ((front.beginLoad k).finishLoad k none).2) = e.front := by
    cases hf : e.front with
    | none => rfl
    | some front => exact congrArg some (Front.finishLoad_beginLoad (h front hf) k)
  unfold Endpoint.load
  rw [hfront]

end Endpoint.Neat

/-- However a fabric is used, its near caches are neat. -/
theorem Endpoint.kept_neat : Kept fun o => ∀ e, o = some e → e.Neat where
  opened _ node config p s _ he := by
    cases he
    exact .opened node config p s
  shut h r _ he := by
    cases he
    exact (h _ rfl).shut r
  count _ h g _ he := by
    cases he
    exact (h _ rfl).count g
  setOut _ h k _ he := by
    cases he
    exact (h _ rfl).setOut k
  back _ h k x _ he := by
    cases he
    exact (h _ rfl).back k x
  hear _ h n _ he := by
    cases he
    exact (h _ rfl).hear n

namespace Fabric

variable {f : Fabric} {id : EndpointId} {e : Endpoint}

/-- No near cache keeps an entry for nothing. -/
def Neat (f : Fabric) : Prop := ∀ id e, f.endpoint? id = some e → e.Neat

theorem Neat.update (h : f.Neat) {g : Endpoint → Endpoint}
    (hg : ∀ e : Endpoint, e.Neat → (g e).Neat) (id : EndpointId) : (f.update id g).Neat := by
  intro j e' he'
  rw [endpoint?_update] at he'
  split at he'
  · obtain ⟨e, he, rfl⟩ := Option.map_eq_some_iff.mp he'
    exact hg e (h id e he)
  · exact h j e' he'

theorem Neat.beginGet (h : f.Neat) (id : EndpointId) (key : Bytes) :
    (f.beginGet id key).2.Neat := by
  rcases beginGet_cases f id key with ⟨err, -, hb⟩ | ⟨e, -, -, ⟨v, -, hb⟩ | ⟨-, hb⟩⟩
  · rw [hb]
    exact h
  · rw [hb]
    exact (h.update (fun e he => he.count _) id).update (fun e he => he.count _) id
  · rw [hb]
    exact (h.update (fun e he => he.count _) id).update (fun e he => he.setOut key) id

theorem Neat.endGet (h : f.Neat) (r : PendingRead) (answer : Outcome (Option Versioned)) :
    (f.endGet r answer).2.Neat := by
  cases answer with
  | error => exact h.update (fun e he => he.back r.key none) r.endpoint
  | ok x =>
      exact (h.update (fun e he => he.count _) r.endpoint).update (fun e he => he.back r.key x)
        r.endpoint

end Fabric

namespace Traffic

variable {t : Traffic}

theorem neat_step (hw : t.fabric.Wired) (h : t.fabric.Neat) (m : Move) :
    (t.step m).2.fabric.Neat := by
  have hanswer : ∀ r, (Session.answerFor t.fabric r).2.Neat := fun r id e he =>
    h id e (endpoint?_answerFor t.fabric r id ▸ he)
  cases m with
  | use u => exact fun id => Endpoint.kept_neat.use hw (h id) u
  | begin id key =>
      have hbegin := h.beginGet id key
      rw [step]
      cases hb : t.fabric.beginGet id key with
      | mk b f =>
          rw [hb] at hbegin
          cases b <;> exact hbegin
  | ask ticket =>
      rw [step]
      cases t.held.get? ticket with
      | none => exact h
      | some r => exact hanswer r
  | finish ticket =>
      rw [step]
      cases t.held.get? ticket with
      | none => exact h
      | some r => exact (hanswer r).endGet r.read _

/-- Whatever is done, and whichever reads are held, no near cache keeps an entry for nothing. -/
theorem neat_after (ms : List Move) : ∀ {t : Traffic}, t.fabric.Wired → t.fabric.Neat →
    (t.after ms).fabric.Neat := by
  induction ms with
  | nil => intro t _ h; exact h
  | cons m ms ih => intro t hw h; exact ih (wired_step hw m) (neat_step hw h m)

end Traffic

/-! ## Requests that the store refuses -/

/-- What an endpoint answers when the store cannot be reached. -/
def Endpoint.refusal (e : Endpoint) : Fault := .storeUnavailable e.name "store unreachable"

namespace Fabric

variable {f : Fabric} {id : EndpointId} {e : Endpoint}

theorem reach_of_unavailable (ha : f.store.available = false) (c : String) :
    f.store.reach c = .error (.storeUnavailable c "store unreachable") := by
  unfold Store.reach
  rw [ha]
  rfl

theorem count_count (f : Fabric) (id : EndpointId) (g h : Counters → Counters) :
    (f.count id g).count id h = f.count id (h ∘ g) :=
  update_update f id _ _

/-- A read that the store refuses is only counted. -/
theorem get_refused (h : f.Neat) (he : f.endpoint? id = some e) (ho : e.closed = none)
    (ha : f.store.available = false) {k : Bytes} (hl : e.local? k = none) :
    f.get id k = (.error e.refusal, f.count id fun c => { c with gets := c.gets + 1 }) := by
  rw [get_eq_miss he ho hl, if_neg (by rw [ha]; exact Bool.false_ne_true)]
  refine congrArg (Prod.mk _) (update_congr fun e' he' => ?_)
  rw [(h id e' he').load_none k]

/-- Of several reads those that the near cache serves are counted twice, up to the first that the
store refuses. -/
theorem getInto_refused (ks : List Bytes) :
    ∀ {f : Fabric} {e : Endpoint} {found : Table Bytes Bytes} {err : Fault}, f.Neat →
      f.endpoint? id = some e → e.closed = none → f.store.available = false →
      (f.getInto id found ks).1 = .error err →
        ∃ served k rest, ks = served ++ k :: rest ∧ (∀ j ∈ served, (e.local? j).isSome) ∧
          e.local? k = none ∧ f.getInto id found ks = (.error e.refusal, f.count id fun c =>
            { c with gets := c.gets + (served.length + 1), hits := c.hits + served.length }) := by
  induction ks with
  | nil => intro f e found err _ _ _ _ herr; cases herr
  | cons k ks ih =>
      intro f e found err h he ho ha herr
      unfold getInto at herr ⊢
      cases hl : e.local? k with
      | none =>
          rw [get_refused h he ho ha hl]
          exact ⟨[], k, ks, rfl, fun j hj => (List.not_mem_nil hj).elim, hl, rfl⟩
      | some v =>
          rw [get_eq_hit he ho hl] at herr ⊢
          obtain ⟨g, hg⟩ : ∃ g, g = f.count id fun c =>
            { c with gets := c.gets + 1, hits := c.hits + 1 } := ⟨_, rfl⟩
          rw [← hg] at herr ⊢
          have hneat : g.Neat := hg ▸ h.update (fun e he => he.count _) id
          have hend : g.endpoint? id = some (e.count fun c =>
              { c with gets := c.gets + 1, hits := c.hits + 1 }) := hg ▸ endpoint?_count he _
          have hunavailable : g.store.available = false := hg ▸ ha
          obtain ⟨served, j, rest, hks, hserved, hj, hrest⟩ :=
            ih hneat hend ho hunavailable herr
          refine ⟨k :: served, j, rest, by rw [hks]; rfl, ?_, hj, ?_⟩
          · intro i hi
            rcases List.mem_cons.mp hi with rfl | hi
            · exact Option.isSome_iff_exists.mpr ⟨v, hl⟩
            · exact hserved i hi
          · refine hrest.trans (congrArg (Prod.mk _) ?_)
            rw [hg, count_count]
            refine congrArg (f.count id) (funext fun c => ?_)
            simp only [Function.comp_apply, List.length_cons, Counters.mk.injEq, true_and, and_true]
            omega

/-- A write that the store refuses is only counted. -/
theorem put_refused (he : f.endpoint? id = some e) (ho : e.closed = none)
    (ha : f.store.available = false) (k v : Bytes) :
    f.put id k v = (.error e.refusal, f.count id fun c => { c with puts := c.puts + 1 }) := by
  rw [put_eq, serving_eq_ok_iff.mpr ⟨he, ho⟩]
  dsimp only
  rw [reach_of_unavailable ha]
  rfl

/-- A removal that the store refuses is only counted. -/
theorem remove_refused (he : f.endpoint? id = some e) (ho : e.closed = none)
    (ha : f.store.available = false) (k : Bytes) :
    f.remove id k =
      (.error e.refusal, f.count id fun c => { c with removals := c.removals + 1 }) := by
  rw [remove_eq, serving_eq_ok_iff.mpr ⟨he, ho⟩]
  dsimp only
  rw [reach_of_unavailable ha]
  rfl

/-- What is left of the requests of an endpoint that fail: what it has counted, and nothing else in
the fabric. -/
structure Refuses (f : Fabric) (id : EndpointId) (e : Endpoint) : Prop where
  get : ∀ {k err}, (f.get id k).1 = .error err →
    f.get id k = (.error e.refusal, f.count id fun c => { c with gets := c.gets + 1 })
  /-- The keys before the one that fails are served by the near cache. -/
  getAll : ∀ {ks err}, (f.getAll id ks).1 = .error err →
    ∃ served k rest, ks = served ++ k :: rest ∧ (∀ j ∈ served, (e.local? j).isSome) ∧
      e.local? k = none ∧ f.getAll id ks = (.error e.refusal, f.count id fun c =>
        { c with gets := c.gets + (served.length + 1), hits := c.hits + served.length })
  put : ∀ {k v err}, (f.put id k v).1 = .error err →
    f.put id k v = (.error e.refusal, f.count id fun c => { c with puts := c.puts + 1 })
  /-- Nothing but the first write is attempted. -/
  putEach : ∀ {entries err}, (f.putEach id entries).1 = .error err →
    f.putEach id entries = (.error e.refusal, f.count id fun c => { c with puts := c.puts + 1 })
  remove : ∀ {k err}, (f.remove id k).1 = .error err →
    f.remove id k = (.error e.refusal, f.count id fun c => { c with removals := c.removals + 1 })

end Fabric

/-- **An outage leaves no trace**: whatever was done before, and whichever reads are held, a request
that fails while the store cannot be reached is answered with the name of its cache, and all that
changes is what its endpoint has counted. -/
theorem Traffic.refused_after (ms : List Move) {id : EndpointId} {e : Endpoint}
    (he : (({} : Traffic).after ms).fabric.endpoint? id = some e) (ho : e.closed = none)
    (ha : (({} : Traffic).after ms).fabric.store.available = false) :
    (({} : Traffic).after ms).fabric.Refuses id e := by
  have hneat : (({} : Traffic).after ms).fabric.Neat :=
    neat_after ms .empty fun id e he => by cases he
  generalize (({} : Traffic).after ms).fabric = f at he ha hneat
  refine
    { get := ?_
      getAll := ?_
      put := ?_
      putEach := ?_
      remove := ?_ }
  · intro k err herr
    cases hl : e.local? k with
    | none => exact Fabric.get_refused hneat he ho ha hl
    | some v =>
        rw [Fabric.get_eq_hit he ho hl] at herr
        cases herr
  · intro ks err herr
    exact Fabric.getInto_refused ks hneat he ho ha herr
  · intro k v err _
    exact Fabric.put_refused he ho ha k v
  · intro entries err herr
    cases entries with
    | nil => cases herr
    | cons kv rest =>
        obtain ⟨k, v⟩ := kv
        unfold Fabric.putEach
        rw [Fabric.put_refused he ho ha k v]
  · intro k err _
    exact Fabric.remove_refused he ho ha k

/-- A read is on its way when its key is written and removed again, and the store becomes
unreachable. The near cache holds the mark of the removal, and a second read of the key that the
store refuses leaves it there. -/
theorem Traffic.refused_after_removal :
    let f := (({} : Traffic).after [.use (.start "a" { name := "x" } .present),
      .use (.start "b" { name := "x" } (.absent .disabled)), .begin 0 [3], .use (.put 1 [3] [7]),
      .use (.remove 1 [3]), .use (.setAvailable false)]).fabric
    ∃ e, f.endpoint? 0 = some e ∧ e.closed = none ∧ f.store.available = false ∧
      (e.front.bind (·.version? [3])) = some 2 ∧ (f.get 0 [3]).1 = .error e.refusal ∧
      f.Refuses 0 e :=
  ⟨(Fabric.endpoint? _ 0).get (by decide), (Option.some_get _).symm, by decide, by decide,
    by decide, by decide, refused_after _ (Option.some_get _).symm (by decide) (by decide)⟩

end NearCache
