import NearCache.Proofs.Session.Sound
import NearCache.Proofs.Traffic.Basic

/-!
# What can happen to one endpoint

All that uses of a fabric do to one endpoint comes to a few changes: it starts, it is closed, and
while it is open it counts, a read sets out from it or comes back, and it hears an announcement.
A closed endpoint is left alone, because it does not serve and because the wiring lets no
announcement reach it.

So what these changes keep (`Endpoint.Kept`) stays true of an endpoint whatever the fabric is used
for: `Endpoint.Kept.use`.
-/

namespace NearCache

/-- A read of a key comes back to an endpoint. -/
def Endpoint.back (key : Bytes) (fetched : Option Versioned) (e : Endpoint) : Endpoint :=
  { e with front := e.front.map fun front => (front.finishLoad key fetched).2 }

/-- A read with nothing between sets out and comes back. -/
theorem Endpoint.load_eq (key : Bytes) (fetched : Option Versioned) (e : Endpoint) :
    e.load key fetched = (e.setOut key).back key fetched := by
  simp [load, setOut, back, Function.comp_def]

/-- What is true of an endpoint, once it is started, stays true while the fabric is in use. -/
structure Endpoint.Kept (P : Option Endpoint → Prop) : Prop where
  opened : P none → ∀ node config p s, P (some (.opened node config p s))
  shut : ∀ {e}, P (some e) → ∀ r, P (some (e.shut r))
  count : ∀ {e}, e.closed = none → P (some e) → ∀ g, P (some (e.count g))
  setOut : ∀ {e}, e.closed = none → P (some e) → ∀ k, P (some (e.setOut k))
  back : ∀ {e}, e.closed = none → P (some e) → ∀ k x, P (some (e.back k x))
  hear : ∀ {e}, e.closed = none → P (some e) → ∀ n, P (some (e.hear n))

namespace Fabric

variable {f : Fabric}

namespace Wired

theorem count (hw : Wired f) (id : EndpointId) (g : Counters → Counters) : Wired (f.count id g) :=
  hw.serves (.count f id g)

/-- However a fabric is used, it stays wired. -/
theorem use (hw : Wired f) (u : Use) : Wired (f.use u) := by
  cases u with
  | start node config p => exact hw.start node config p
  | close id r => exact hw.close id r
  | get id k => exact hw.serves (reads_get f id k).toServes
  | getAll id ks => exact hw.serves (reads_getInto id ks f ∅).toServes
  | put id k v => exact hw.serves (serves_put f id k v)
  | putAll id entries => exact hw.serves (serves_putEach id entries f)
  | remove id k => exact hw.serves (serves_remove f id k)
  | storeGet c k =>
      show Wired { f with store := (f.store.get c k).2 }
      unfold Store.get
      cases f.store.reach c with
      | error => exact hw
      | ok u => exact hw.serves (.withStore rfl rfl (.of_data rfl rfl))
  | storePut c k v => exact hw.serves (serves_storePut f c k v)
  | storeRemove c k => exact hw.serves (serves_storeRemove f c k)
  | setAvailable b => exact hw.serves (.withStore rfl rfl (.of_data rfl rfl))
  | destroy c => exact ⟨hw.started, hw.numbered, hw.listens, hw.tuned, hw.placed⟩

end Wired

end Fabric

namespace Endpoint.Kept

open Fabric

variable {P : Option Endpoint → Prop} {f : Fabric} {id : EndpointId}

theorem load (kept : Kept P) {e : Endpoint} (ho : e.closed = none) (h : P (some e)) (k : Bytes)
    (x : Option Versioned) : P (some (e.load k x)) := by
  rw [load_eq]
  exact kept.back (e := e.setOut k) ho (kept.setOut ho h k) k x

/-- An open endpoint changes, this one or another. -/
theorem update (h : P (f.endpoint? id)) {j : EndpointId} {e : Endpoint}
    (he : f.endpoint? j = some e) {g : Endpoint → Endpoint} (hg : P (some e) → P (some (g e))) :
    P ((f.update j g).endpoint? id) := by
  rw [endpoint?_update]
  split
  · next hj =>
    rw [hj, he] at h
    rw [he]
    exact hg h
  · exact h

theorem tell (kept : Kept P) (hw : Wired f) (h : P (f.endpoint? id)) (n : Notice) :
    P ((f.tell n).endpoint? id) := by
  cases he : f.endpoint? id with
  | none =>
      rw [endpoint?_tell_eq_none he]
      rwa [he] at h
  | some e =>
      rw [he] at h
      rw [hw.endpoint?_tell he]
      split
      · next hopen => exact kept.hear hopen.1 h n
      · exact h

theorem start (kept : Kept P) (hw : Wired f) (h : P (f.endpoint? id)) (node : String)
    (config : CacheConfig) (p : Placement) : P ((f.start node config p).2.endpoint? id) := by
  rw [endpoint?_start]
  split
  · next hid =>
    have hnone : f.endpoint? id = none := by
      cases he : f.endpoint? id with
      | none => rfl
      | some e => exact absurd (hw.started he) (hid ▸ Nat.lt_irrefl _)
    rw [hnone] at h
    exact kept.opened h node config p _
  · exact h

theorem close (kept : Kept P) (h : P (f.endpoint? id)) (j : EndpointId) (r : Closing) :
    P ((f.close j r).2.endpoint? id) := by
  rw [endpoint?_close]
  split
  · next hj =>
    subst hj
    cases he : f.endpoint? id with
    | none => rwa [he] at h
    | some e =>
        rw [he] at h
        exact kept.shut h r
  · exact h

/-! ## Reading -/

theorem get (kept : Kept P) (h : P (f.endpoint? id)) (j : EndpointId) (k : Bytes) :
    P ((f.get j k).2.endpoint? id) := by
  cases hs : f.serving j with
  | error err =>
      rw [get_of_not_serving hs]
      exact h
  | ok e =>
      obtain ⟨he, ho⟩ := serving_eq_ok_iff.mp hs
      cases hl : e.local? k with
      | some v =>
          rw [get_eq_hit he ho hl]
          exact update h he fun hp => kept.count ho hp _
      | none =>
          rw [get_eq_miss he ho hl]
          split
          · exact update (f := { f with store := _ }) h he fun hp =>
              kept.count (e := e.load k _) ho (kept.load ho hp k _) _
          · exact update h he fun hp => kept.count (e := e.load k none) ho (kept.load ho hp k _) _

theorem getInto (kept : Kept P) (j : EndpointId) (ks : List Bytes) :
    ∀ (f : Fabric) (found : Table Bytes Bytes), P (f.endpoint? id) →
      P ((f.getInto j found ks).2.endpoint? id) := by
  induction ks with
  | nil => intro f found h; exact h
  | cons k ks ih =>
      intro f found h
      have hget := kept.get h j k
      unfold Fabric.getInto
      cases hg : f.get j k with
      | mk r f' =>
          rw [hg] at hget
          cases r with
          | error => exact hget
          | ok v =>
              cases v with
              | none => exact ih f' found hget
              | some v => exact ih f' _ hget

/-! ## Writing -/

theorem storePut (kept : Kept P) (hw : Wired f) (h : P (f.endpoint? id)) (c : String)
    (k v : Bytes) : P ((f.storePut c k v).2.endpoint? id) := by
  rw [storePut_eq]
  cases f.store.reach c with
  | error => exact h
  | ok u =>
      have hw' : Wired { f with store := (f.store.write c k v).2 } :=
        hw.serves (.withStore rfl rfl (.write f.store c k v))
      exact kept.tell hw' h _

theorem storeRemove (kept : Kept P) (hw : Wired f) (h : P (f.endpoint? id)) (c : String)
    (k : Bytes) : P ((f.storeRemove c k).2.endpoint? id) := by
  rw [storeRemove_eq]
  cases f.store.reach c with
  | error => exact h
  | ok u =>
      dsimp only
      cases he : f.store.erase c k with
      | none => exact h
      | some ns =>
          obtain ⟨n, s⟩ := ns
          obtain ⟨-, -, hs⟩ := Store.erase_eq_some_iff.mp he
          have hw' : Wired { f with store := s } :=
            hw.serves (.withStore (by rw [hs]; rfl) (by rw [hs]; rfl) (.erase he))
          exact kept.tell hw' h n

theorem put (kept : Kept P) (hw : Wired f) (h : P (f.endpoint? id)) (j : EndpointId)
    (k v : Bytes) : P ((f.put j k v).2.endpoint? id) := by
  rw [put_snd]
  cases hs : f.serving j with
  | error => exact h
  | ok e =>
      obtain ⟨he, ho⟩ := serving_eq_ok_iff.mp hs
      exact kept.storePut (hw.count j _) (update h he fun hp => kept.count ho hp _) e.name k v

theorem putEach (kept : Kept P) (j : EndpointId) (entries : List (Bytes × Bytes)) :
    ∀ {f : Fabric}, Wired f → P (f.endpoint? id) →
      P ((f.putEach j entries).2.endpoint? id) := by
  induction entries with
  | nil => intro f _ h; exact h
  | cons kv rest ih =>
      intro f hw h
      obtain ⟨k, v⟩ := kv
      have hput := kept.put hw h j k v
      have hserves := serves_put f j k v
      unfold Fabric.putEach
      cases hp : f.put j k v with
      | mk r f' =>
          rw [hp] at hput hserves
          cases r with
          | error => exact hput
          | ok u => exact ih (hw.serves hserves) hput

theorem remove (kept : Kept P) (hw : Wired f) (h : P (f.endpoint? id)) (j : EndpointId)
    (k : Bytes) : P ((f.remove j k).2.endpoint? id) := by
  rw [remove_snd]
  cases hs : f.serving j with
  | error => exact h
  | ok e =>
      obtain ⟨he, ho⟩ := serving_eq_ok_iff.mp hs
      exact kept.storeRemove (hw.count j _) (update h he fun hp => kept.count ho hp _) e.name k

/-- What is kept is kept by every use. -/
theorem use (kept : Kept P) (hw : Wired f) (h : P (f.endpoint? id)) (u : Use) :
    P ((f.use u).endpoint? id) := by
  cases u with
  | start node config p => exact kept.start hw h node config p
  | close j r => exact kept.close h j r
  | get j k => exact kept.get h j k
  | getAll j ks => exact kept.getInto j ks f ∅ h
  | put j k v => exact kept.put hw h j k v
  | putAll j entries => exact kept.putEach j entries hw h
  | remove j k => exact kept.remove hw h j k
  | storePut c k v => exact kept.storePut hw h c k v
  | storeRemove c k => exact kept.storeRemove hw h c k
  | storeGet | setAvailable | destroy => exact h

end Endpoint.Kept

/-! ## Held reads -/

namespace Traffic

variable {t : Traffic}

/-- A held read that asks the store changes no endpoint. -/
theorem endpoint?_answerFor (f : Fabric) (h : HeldRead) (id : EndpointId) :
    (Session.answerFor f h).2.endpoint? id = f.endpoint? id := by
  rcases Session.answerFor_cases f h with ⟨answer, -, heq⟩ | heq
  · rw [heq]
  · rw [heq]
    unfold Fabric.fetch
    cases f.endpoint h.read.endpoint <;> rfl

theorem wired_step (hw : t.fabric.Wired) (m : Move) : (t.step m).2.fabric.Wired := by
  cases m with
  | use u => exact hw.use u
  | begin id key =>
      have hreads := Fabric.reads_beginGet t.fabric id key
      rw [step]
      cases hb : t.fabric.beginGet id key with
      | mk b f =>
          rw [hb] at hreads
          cases b <;> exact hw.serves hreads.toServes
  | ask ticket =>
      rw [step]
      cases t.held.get? ticket with
      | none => exact hw
      | some h => exact hw.serves (Session.reads_answerFor t.fabric h).toServes
  | finish ticket =>
      rw [step]
      cases t.held.get? ticket with
      | none => exact hw
      | some h =>
          have hreads := (Session.reads_answerFor t.fabric h).trans
            (Fabric.reads_endGet _ h.read (Session.answerFor t.fabric h).1)
          exact hw.serves hreads.toServes

theorem wired_after (ms : List Move) : ∀ {t : Traffic}, t.fabric.Wired →
    (t.after ms).fabric.Wired := by
  induction ms with
  | nil => intro t hw; exact hw
  | cons m ms ih => intro t hw; exact ih (wired_step hw m)

end Traffic

end NearCache
