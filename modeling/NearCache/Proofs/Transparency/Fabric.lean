import NearCache.Proofs.Coherence.Reading
import NearCache.Proofs.Transparency.Settings

/-!
# Two fabrics that differ in their near caches

Two fabrics are alike if their endpoints are the same without their near caches (`Endpoint.plain`)
and their stores hold the same under the same versions; who listens, what was counted and what near
caches hold may differ.

Every operation takes alike fabrics to alike fabrics. Writes are answered alike as well, and so are
reads as long as the store can be reached, for then a coherent near cache has no other answer than
the store (`Alike.get`). When the store cannot be reached, the fabric with near caches may have an
answer where the other has none, and it is the right one (`Alike.get_inactive`).
-/

namespace NearCache

/-- What is left of an endpoint without its near cache and its counters. -/
def Endpoint.plain (e : Endpoint) : Endpoint where
  node := e.node
  config := e.config.plain
  placement := .present
  front := none
  subscription := none
  closed := e.closed

namespace Endpoint

variable {e e' : Endpoint}

/-- The parts of an endpoint that are left. -/
theorem eq_of_plain_eq (h : e.plain = e'.plain) :
    e.name = e'.name ∧ e.node = e'.node ∧ e.closed = e'.closed := by
  have hname := congrArg (fun x : Endpoint => x.config.name) h
  have hnode := congrArg Endpoint.node h
  have hclosed := congrArg Endpoint.closed h
  exact ⟨hname, hnode, hclosed⟩

/-- Both serve, or neither does for the same reason. -/
theorem ensureOpen_of_plain_eq (h : e.plain = e'.plain) : e.ensureOpen = e'.ensureOpen := by
  obtain ⟨hname, hnode, hclosed⟩ := eq_of_plain_eq h
  unfold ensureOpen
  rw [hname, hnode, hclosed]

theorem plain_of_frame (h : e'.frame = e.frame) : e'.plain = e.plain := by
  obtain ⟨hnode, hconfig, -, -, -, hclosed⟩ := eq_of_frame_eq h
  unfold plain
  rw [hnode, hconfig, hclosed]

theorem plain_shut (h : e.plain = e'.plain) (r : Closing) :
    (e.shut r).plain = (e'.shut r).plain := by
  obtain ⟨-, -, hclosed⟩ := eq_of_plain_eq h
  unfold shut
  rw [hclosed]
  split
  · exact h
  · show { e.plain with closed := some r } = { e'.plain with closed := some r }
    rw [h]

theorem plain_opened {config config' : CacheConfig} (h : config.plain = config'.plain)
    (node : String) (p p' : Placement) (s s' : Nat) :
    (opened node config p s).plain = (opened node config' p' s').plain := by
  simp [plain, opened, h]

end Endpoint

/-! ## Stores -/

/-- The stores hold the same, under the same versions, and both or neither can be reached. -/
structure Store.Alike {L : Type} (s t : Store L) : Prop where
  data : s.data = t.data
  version : s.lastVersion = t.lastVersion
  available : s.available = t.available

namespace Store.Alike

variable {L : Type} {s t : Store L}

theorem current? (h : Alike s t) (c : String) (k : Bytes) : s.current? c k = t.current? c k :=
  current?_of_data h.data c k

theorem reach (h : Alike s t) (c : String) : s.reach c = t.reach c := by
  unfold Store.reach
  rw [h.available]

theorem write (h : Alike s t) (c : String) (k v : Bytes) :
    (s.write c k v).1 = (t.write c k v).1 ∧ Alike (s.write c k v).2 (t.write c k v).2 := by
  refine ⟨?_, ?_, ?_, h.available⟩
  · simp only [Store.write, h.version]
  · simp only [Store.write, setSlot, h.data, h.version]
  · simp only [Store.write, setSlot, h.version]

theorem erase (h : Alike s t) (c : String) (k : Bytes) :
    (s.erase c k = none ∧ t.erase c k = none) ∨
      ∃ n s' t', s.erase c k = some (n, s') ∧ t.erase c k = some (n, t') ∧ Alike s' t' := by
  have hcurrent := h.current? c k
  cases hs : s.erase c k with
  | none =>
      left
      rw [erase_eq_none_iff, hcurrent] at hs
      exact ⟨rfl, erase_eq_none_iff.mpr hs⟩
  | some ns =>
      cases ht : t.erase c k with
      | none =>
          rw [erase_eq_none_iff, ← hcurrent, ← erase_eq_none_iff, hs] at ht
          cases ht
      | some mt =>
          obtain ⟨n, s'⟩ := ns
          obtain ⟨m, t'⟩ := mt
          -- both removals get the next version, which is the same
          obtain ⟨-, hn, hs'⟩ := erase_eq_some_iff.mp hs
          obtain ⟨-, hm, ht'⟩ := erase_eq_some_iff.mp ht
          have hnotice : m = n := by rw [hm, hn, h.version]
          subst hnotice
          refine Or.inr ⟨m, s', t', rfl, rfl, ?_⟩
          rw [hs', ht']
          refine ⟨?_, ?_, h.available⟩
          · simp only [setSlot, h.data, h.version]
          · simp only [setSlot, h.version]

theorem destroy (h : Alike s t) (c : String) : Alike (s.destroy c) (t.destroy c) where
  data := by simp only [Store.destroy, h.data]
  version := h.version
  available := h.available

end Store.Alike

namespace Fabric

/-! ## Fabrics -/

/-- The fabrics differ only in their near caches and in what they have counted. -/
structure Alike (f g : Fabric) : Prop where
  store : f.store.Alike g.store
  started : f.started = g.started
  endpoint : ∀ id, (f.endpoint? id).map Endpoint.plain = (g.endpoint? id).map Endpoint.plain

namespace Alike

variable {f g : Fabric}

/-- Operations through endpoints only have to be compared in what they do to the store. -/
theorem serves (h : Alike f g) {f' g' : Fabric} (hf : f.Serves f') (hg : g.Serves g')
    (hs : f'.store.Alike g'.store) : Alike f' g' where
  store := hs
  started := hf.started.trans (h.started.trans hg.started.symm)
  endpoint id := by
    have hplain : ∀ {a b : Fabric}, a.Serves b →
        (b.endpoint? id).map Endpoint.plain = (a.endpoint? id).map Endpoint.plain := by
      intro a b hab
      cases ha : a.endpoint? id with
      | none =>
          have hframe := hab.frame id
          rw [ha] at hframe
          rw [Option.map_eq_none_iff.mp hframe]
      | some e =>
          obtain ⟨e', hb, hframe⟩ := hab.keeps ha
          rw [hb]
          exact congrArg some (Endpoint.plain_of_frame hframe)
    rw [hplain hf, hplain hg, h.endpoint]

/-- Reading leaves the store as it is, whatever the answers. -/
theorem reads (h : Alike f g) {f' g' : Fabric} (hf : f.Reads f') (hg : g.Reads g') :
    Alike f' g' := by
  refine h.serves hf.toServes hg.toServes ?_
  obtain ⟨m, hm⟩ := hf.store
  obtain ⟨n, hn⟩ := hg.store
  rw [hm, hn]
  exact ⟨h.store.data, h.store.version, h.store.available⟩

theorem start (h : Alike f g) {config config' : CacheConfig} (hc : config.plain = config'.plain)
    (node : String) (p p' : Placement) :
    Alike (f.start node config p).2 (g.start node config' p').2 := by
  refine ⟨?_, ?_, ?_⟩
  · obtain ⟨fs, fn, hf⟩ := f.store_start node config p
    obtain ⟨gs, gn, hg⟩ := g.store_start node config' p'
    rw [hf, hg]
    exact ⟨h.store.data, h.store.version, h.store.available⟩
  · rw [started_start, started_start, h.started]
  · intro id
    rw [endpoint?_start, endpoint?_start, h.started]
    split
    · exact congrArg some (Endpoint.plain_opened hc _ _ _ _ _)
    · exact h.endpoint id

theorem close (h : Alike f g) (id : EndpointId) (r : Closing) :
    Alike (f.close id r).2 (g.close id r).2 := by
  refine ⟨?_, ?_, ?_⟩
  · obtain ⟨fs, hf⟩ := f.store_close id r
    obtain ⟨gs, hg⟩ := g.store_close id r
    rw [hf, hg]
    exact ⟨h.store.data, h.store.version, h.store.available⟩
  · rw [started_close, started_close, h.started]
  · intro j
    rw [endpoint?_close, endpoint?_close]
    split
    · rcases map_eq_map_cases (h.endpoint id) with ⟨hf, hg⟩ | ⟨e, e', hf, hg, hplain⟩
      · rw [hf, hg]
      · rw [hf, hg]
        exact congrArg some (Endpoint.plain_shut hplain r)
    · exact h.endpoint j

theorem destroy (h : Alike f g) (c : String) : Alike (f.destroy c) (g.destroy c) :=
  ⟨h.store.destroy c, h.started, h.endpoint⟩

theorem destroyEach (names : List String) : ∀ {f g : Fabric}, Alike f g →
    Alike (names.foldl (fun f name => f.destroy name) f)
      (names.foldl (fun f name => f.destroy name) g) := by
  induction names with
  | nil => intro f g h; exact h
  | cons name names ih => intro f g h; exact ih (h.destroy name)

theorem setAvailable (h : Alike f g) (b : Bool) : Alike (f.setAvailable b) (g.setAvailable b) :=
  ⟨⟨h.store.data, h.store.version, rfl⟩, h.started, h.endpoint⟩

/-! ## Writing -/

theorem serving (h : Alike f g) (id : EndpointId) :
    (∃ err, f.serving id = .error err ∧ g.serving id = .error err) ∨
      ∃ e e', f.serving id = .ok e ∧ g.serving id = .ok e' ∧ e.name = e'.name := by
  rcases map_eq_map_cases (h.endpoint id) with ⟨hf, hg⟩ | ⟨e, e', hf, hg, hplain⟩
  · left
    refine ⟨.internal "no such endpoint", ?_, ?_⟩
    · simp [Fabric.serving, Fabric.endpoint, hf, bind, Except.bind]
    · simp [Fabric.serving, Fabric.endpoint, hg, bind, Except.bind]
  · obtain ⟨hname, -, -⟩ := Endpoint.eq_of_plain_eq hplain
    have hopen := Endpoint.ensureOpen_of_plain_eq hplain
    simp only [Fabric.serving, Fabric.endpoint, hf, hg, bind, Except.bind, ← hopen]
    cases e.ensureOpen with
    | error err => exact Or.inl ⟨err, rfl, rfl⟩
    | ok u => exact Or.inr ⟨e, e', rfl, rfl, hname⟩

/-- Writes that were told to different listeners leave the same behind. -/
theorem store_tell {s t : Store EndpointId} (h : s.Alike t) (f g : Fabric) (n : Notice) :
    ({ f with store := s }.tell n).store.Alike ({ g with store := t }.tell n).store := by
  rw [Fabric.store_tell, Fabric.store_tell]
  exact ⟨h.data, h.version, h.available⟩

theorem put (h : Alike f g) (id : EndpointId) (key value : Bytes) :
    (f.put id key value).1 = (g.put id key value).1 ∧
      Alike (f.put id key value).2 (g.put id key value).2 := by
  have hstore : (f.put id key value).1 = (g.put id key value).1 ∧
      (f.put id key value).2.store.Alike (g.put id key value).2.store := by
    rw [put_eq, put_eq]
    rcases h.serving id with ⟨err, hf, hg⟩ | ⟨e, e', hf, hg, hname⟩
    · rw [hf, hg]
      exact ⟨rfl, h.store⟩
    · rw [hf, hg]
      dsimp only
      rw [← hname, h.store.reach]
      cases g.store.reach e.name with
      | error err => exact ⟨rfl, h.store⟩
      | ok u =>
          obtain ⟨hnotice, hwrite⟩ := h.store.write e.name key value
          refine ⟨rfl, ?_⟩
          dsimp only
          rw [hnotice]
          exact store_tell hwrite _ _ _
  exact ⟨hstore.1, h.serves (serves_put f id key value) (serves_put g id key value) hstore.2⟩

theorem putEach (id : EndpointId) (entries : List (Bytes × Bytes)) :
    ∀ {f g : Fabric}, Alike f g →
      (f.putEach id entries).1 = (g.putEach id entries).1 ∧
        Alike (f.putEach id entries).2 (g.putEach id entries).2 := by
  induction entries with
  | nil => intro f g h; exact ⟨rfl, h⟩
  | cons kv rest ih =>
      intro f g h
      obtain ⟨k, v⟩ := kv
      obtain ⟨hanswer, halike⟩ := h.put id k v
      unfold Fabric.putEach
      cases hf : f.put id k v with
      | mk r f' =>
          cases hg : g.put id k v with
          | mk r' g' =>
              rw [hf, hg] at hanswer halike
              dsimp only at hanswer halike
              subst hanswer
              cases r with
              | error err => exact ⟨rfl, halike⟩
              | ok u => exact ih halike

theorem remove (h : Alike f g) (id : EndpointId) (key : Bytes) :
    (f.remove id key).1 = (g.remove id key).1 ∧
      Alike (f.remove id key).2 (g.remove id key).2 := by
  have hstore : (f.remove id key).1 = (g.remove id key).1 ∧
      (f.remove id key).2.store.Alike (g.remove id key).2.store := by
    rw [remove_eq, remove_eq]
    rcases h.serving id with ⟨err, hf, hg⟩ | ⟨e, e', hf, hg, hname⟩
    · rw [hf, hg]
      exact ⟨rfl, h.store⟩
    · rw [hf, hg]
      dsimp only
      rw [← hname, h.store.reach]
      cases g.store.reach e.name with
      | error err => exact ⟨rfl, h.store⟩
      | ok u =>
          dsimp only
          rcases h.store.erase e.name key with ⟨hs, ht⟩ | ⟨n, s', t', hs, ht, herase⟩
          · rw [hs, ht]
            exact ⟨rfl, h.store⟩
          · rw [hs, ht]
            exact ⟨rfl, store_tell herase _ _ _⟩
  exact ⟨hstore.1, h.serves (serves_remove f id key) (serves_remove g id key) hstore.2⟩

/-! ## Reading -/

section Reading

variable {held held' : Table Nat HeldRead}

/-- As long as the store can be reached it does not show who answers a read. -/
theorem get (h : Alike f g) (hf : f.Coherent held) (hg : g.Coherent held')
    (ha : f.store.available = true) (id : EndpointId) (key : Bytes) :
    (f.get id key).1 = (g.get id key).1 := by
  have ha' := h.store.available.symm.trans ha
  rcases h.serving id with ⟨err, hsf, hsg⟩ | ⟨e, e', hsf, hsg, hname⟩
  · rw [get_of_not_serving hsf, get_of_not_serving hsg]
  · rcases hf.get_open hsf key with ⟨-, hok⟩ | ⟨hno, -⟩
    · rcases hg.get_open hsg key with ⟨-, hok'⟩ | ⟨hno', -⟩
      · rw [hok, hok', h.store.current?, hname]
      · rw [ha'] at hno'
        cases hno'
    · rw [ha] at hno
      cases hno

theorem getInto {ticket ticket' : Nat} (ht : held.get? ticket = none)
    (ht' : held'.get? ticket' = none) (id : EndpointId) (keys : List Bytes) :
    ∀ {f g : Fabric} (found : Table Bytes Bytes), Alike f g → f.Coherent held → g.Coherent held' →
      f.Wired → g.Wired → f.store.available = true →
      (f.getInto id found keys).1 = (g.getInto id found keys).1 := by
  induction keys with
  | nil => intro f g found _ _ _ _ _ _; rfl
  | cons k ks ih =>
      intro f g found h hf hg hwf hwg ha
      have hanswer := h.get hf hg ha id k
      have hreadsf := reads_get f id k
      have hreadsg := reads_get g id k
      have hnext := fun found => ih (f := (f.get id k).2) (g := (g.get id k).2) found
        (h.reads hreadsf hreadsg) (hf.get hwf ht id k) (hg.get hwg ht' id k)
        (hwf.serves hreadsf.toServes) (hwg.serves hreadsg.toServes) (hreadsf.available.trans ha)
      unfold Fabric.getInto
      cases hgf : f.get id k with
      | mk r f' =>
          cases hgg : g.get id k with
          | mk r' g' =>
              rw [hgf, hgg] at hanswer hnext
              dsimp only at hanswer hnext
              subst hanswer
              cases r with
              | error err => rfl
              | ok v =>
                  cases v with
                  | none => exact hnext found
                  | some v => exact hnext _

/-- An endpoint without a near cache fails when the store cannot be reached. One with a near cache
may still have an answer, which is then what the store holds. -/
theorem get_inactive (h : Alike f g) (hf : f.Coherent held) (hg : g.Coherent held')
    {id : EndpointId} (hinactive : ∀ e, f.endpoint? id = some e → e.hasNear = false)
    (key : Bytes) :
    (∀ v, (f.get id key).1 = .ok v → (g.get id key).1 = .ok v) ∧
      ∀ c text, (f.get id key).1 = .error (.storeUnavailable c text) →
        (g.get id key).1 = .error (.storeUnavailable c text) ∨
          ∃ e, g.endpoint? id = some e ∧
            (g.get id key).1 = .ok ((g.store.current? e.name key).map (·.value)) := by
  cases ha : f.store.available with
  | true =>
      rw [← h.get hf hg ha id key]
      exact ⟨fun v hv => hv, fun c text hno => Or.inl hno⟩
  | false =>
      rcases h.serving id with ⟨err, hsf, hsg⟩ | ⟨e, e', hsf, hsg, hname⟩
      · rw [get_of_not_serving hsf, get_of_not_serving hsg]
        exact ⟨fun v hv => hv, fun c text hno => Or.inl hno⟩
      · obtain ⟨he, -⟩ := serving_eq_ok_iff.mp hsf
        obtain ⟨he', -⟩ := serving_eq_ok_iff.mp hsg
        -- without a near cache nothing can be found
        have hnone : e.local? key = none := by
          have hfront : e.front = none := by simpa [Endpoint.hasNear] using hinactive e he
          rw [Endpoint.local?, hfront]
          rfl
        have hfail : (f.get id key).1 = .error (.storeUnavailable e.name "store unreachable") := by
          rcases hf.get_open hsf key with ⟨hsome, -⟩ | ⟨-, -, hno⟩
          · rcases hsome with hsome | ⟨w, hw⟩
            · rw [ha] at hsome
              cases hsome
            · rw [hnone] at hw
              cases hw
          · exact hno
        rw [hfail]
        refine ⟨fun v hv => (by cases hv), fun c text hno => ?_⟩
        cases hno
        rcases hg.get_open hsg key with ⟨-, hok⟩ | ⟨-, -, hno⟩
        · exact Or.inr ⟨e', he', hok⟩
        · left
          rw [hno, hname]

end Reading

end Alike

end Fabric

end NearCache
