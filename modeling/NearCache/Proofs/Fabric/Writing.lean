import NearCache.Proofs.Fabric.Reading
import NearCache.Table.Laws

/-!
# How data come into the store

Nobody but an open endpoint brings data into the store, and only under the name of its cache:
`Fabric.Tends f f'` says so of the fabrics before and after reads and writes. A single key gets a
value by a write of this key that an endpoint of the cache accepts (`Fabric.Accepts`), and by nothing
else: `current?_put_cases`, `current?_putEach_cases`, `current?_of_remove`.
-/

namespace NearCache

namespace Fabric

variable {f f' : Fabric}

/-- The endpoint is open and serves the cache of this name. -/
def Offers (f : Fabric) (id : EndpointId) (name : String) : Prop :=
  ∃ e, f.endpoint? id = some e ∧ e.closed = none ∧ e.name = name

/-- A write through the endpoint is a write to the cache of this name, and reaches the store. -/
def Accepts (f : Fabric) (id : EndpointId) (name : String) : Prop :=
  f.store.available = true ∧ f.Offers id name

/-- Reads and writes open nothing. -/
theorem Serves.offers (h : Serves f f') {id : EndpointId} {name : String}
    (ho : f'.Offers id name) : f.Offers id name := by
  obtain ⟨e', he', hopen, hname⟩ := ho
  obtain ⟨e, he, hframe⟩ := h.endpoint he'
  obtain ⟨-, hconfig, -, -, -, hclosed⟩ := Endpoint.eq_of_frame_eq hframe
  exact ⟨e, he, hclosed ▸ hopen, (Endpoint.name_of_config hconfig).symm.trans hname⟩

/-! ## One write -/

theorem data_tell (f : Fabric) (n : Notice) : (f.tell n).store.data = f.store.data := by
  rw [store_tell]
  rfl

/-- A write through an endpoint leaves the data alone, or it is accepted and carried out. -/
theorem put_cases (f : Fabric) (id : EndpointId) (key value : Bytes) :
    (f.put id key value).2.store.data = f.store.data ∨
      ∃ e, f.serving id = .ok e ∧ f.store.available = true ∧
        (f.put id key value).2.store.data = (f.store.write e.name key value).2.data := by
  rw [put_eq]
  cases hs : f.serving id with
  | error err => exact Or.inl rfl
  | ok e =>
      dsimp only
      cases ha : f.store.available with
      | false => exact Or.inl (by simp [Store.reach, ha])
      | true => exact Or.inr ⟨e, rfl, rfl, by simp [Store.reach, ha, data_tell]⟩

/-- A removal through an endpoint leaves the data alone, or it takes a value away. -/
theorem remove_cases (f : Fabric) (id : EndpointId) (key : Bytes) :
    (f.remove id key).2.store.data = f.store.data ∨
      ∃ e n s, f.serving id = .ok e ∧ f.store.erase e.name key = some (n, s) ∧
        (f.remove id key).2.store.data = s.data := by
  rw [remove_eq]
  cases hs : f.serving id with
  | error err => exact Or.inl rfl
  | ok e =>
      dsimp only
      cases f.store.reach e.name with
      | error err => exact Or.inl rfl
      | ok u =>
          dsimp only
          cases he : f.store.erase e.name key with
          | none => exact Or.inl rfl
          | some r => exact Or.inr ⟨e, r.1, r.2, rfl, he, data_tell _ _⟩

/-- Whoever is acknowledged a write has been accepted. -/
theorem available_of_put {id : EndpointId} {key value : Bytes}
    (hok : (f.put id key value).1 = .ok ()) : f.store.available = true := by
  rw [put_eq] at hok
  cases hs : f.serving id with
  | error err =>
      rw [hs] at hok
      cases hok
  | ok e =>
      rw [hs] at hok
      cases ha : f.store.available with
      | true => rfl
      | false =>
          simp only [Store.reach, ha, Bool.false_eq_true, if_false] at hok
          cases hok

/-- Whoever serves offers its cache. -/
theorem offers_of_serving {id : EndpointId} {e : Endpoint} (hs : f.serving id = .ok e) :
    f.Offers id e.name :=
  ⟨e, (serving_eq_ok_iff.mp hs).1, (serving_eq_ok_iff.mp hs).2, rfl⟩

/-! ## Data under a name -/

/-- `f'` is `f` after reads and writes, which bring data in only under the names of open
endpoints. -/
structure Tends (f f' : Fabric) : Prop extends Serves f f' where
  data : ∀ {name slots}, f'.store.data.get? name = some slots →
    (∃ slots, f.store.data.get? name = some slots) ∨ ∃ id, f.Offers id name

namespace Tends

theorem trans {g : Fabric} (a : Tends f f') (b : Tends f' g) : Tends f g where
  toServes := a.toServes.trans b.toServes
  data hd := by
    rcases b.data hd with ⟨slots, hd'⟩ | ⟨id, ho⟩
    · exact a.data hd'
    · exact Or.inr ⟨id, a.offers ho⟩

/-- Nothing happens to the data. -/
theorem of_data (hs : Serves f f') (hd : f'.store.data = f.store.data) : Tends f f' where
  toServes := hs
  data h := Or.inl ⟨_, by rwa [hd] at h⟩

/-- One slot is replaced in the data of a cache that an open endpoint serves. -/
theorem of_setSlot (hs : Serves f f') {s : Store EndpointId} (hd : s.data = f.store.data)
    {id : EndpointId} {name : String} (ho : f.Offers id name) {key : Bytes} {slot : Slot}
    (hd' : f'.store.data = (s.setSlot name key slot).data) : Tends f f' where
  toServes := hs
  data {name' slots} h := by
    rw [hd', Store.setSlot, hd] at h
    dsimp only at h
    rw [Table.get?_insert] at h
    split at h
    · next hname => exact Or.inr ⟨id, hname ▸ ho⟩
    · exact Or.inl ⟨slots, h⟩

end Tends

theorem Reads.tends (h : Reads f f') : Tends f f' := by
  obtain ⟨n, hn⟩ := h.store
  exact .of_data h.toServes (by rw [hn])

theorem tends_put (f : Fabric) (id : EndpointId) (key value : Bytes) :
    Tends f (f.put id key value).2 := by
  rcases f.put_cases id key value with hd | ⟨e, hs, -, hd⟩
  · exact .of_data (serves_put f id key value) hd
  · exact .of_setSlot (serves_put f id key value)
      (s := { f.store with lastVersion := f.store.lastVersion + 1, writes := f.store.writes + 1 })
      rfl (offers_of_serving hs) hd

theorem tends_remove (f : Fabric) (id : EndpointId) (key : Bytes) :
    Tends f (f.remove id key).2 := by
  rcases f.remove_cases id key with hd | ⟨e, n, s, hs, her, hd⟩
  · exact .of_data (serves_remove f id key) hd
  · obtain ⟨-, -, rfl⟩ := Store.erase_eq_some_iff.mp her
    exact .of_setSlot (serves_remove f id key)
      (s := { f.store with lastVersion := f.store.lastVersion + 1, deletes := f.store.deletes + 1 })
      rfl (offers_of_serving hs) hd

theorem tends_putEach (id : EndpointId) (entries : List (Bytes × Bytes)) :
    ∀ f : Fabric, Tends f (f.putEach id entries).2 := by
  induction entries with
  | nil => intro f; exact .of_data (.refl f) rfl
  | cons entry rest ih =>
      intro f
      obtain ⟨key, value⟩ := entry
      have hput := tends_put f id key value
      unfold putEach
      cases hp : f.put id key value with
      | mk r f' =>
          rw [hp] at hput
          cases r with
          | error => exact hput
          | ok u => exact hput.trans (ih f')

/-! ## The value of a key -/

variable {name : String} {key : Bytes}

/-- After a write only the key that was written may have a value that it did not have before. -/
theorem current?_put_cases {id : EndpointId} {k v : Bytes}
    (h : (f.put id k v).2.store.current? name key ≠ none) :
    f.store.current? name key ≠ none ∨ k = key ∧ f.Accepts id name := by
  rcases f.put_cases id k v with hd | ⟨e, hs, ha, hd⟩
  · exact Or.inl (by rwa [Store.current?_of_data hd] at h)
  · rw [Store.current?_of_data hd, Store.current?_write] at h
    split at h
    · next heq =>
      obtain ⟨rfl, rfl⟩ := heq
      exact Or.inr ⟨rfl, ha, offers_of_serving hs⟩
    · exact Or.inl h

/-- A removal gives nothing a value. -/
theorem current?_of_remove {id : EndpointId} {k : Bytes}
    (h : (f.remove id k).2.store.current? name key ≠ none) :
    f.store.current? name key ≠ none := by
  rcases f.remove_cases id k with hd | ⟨e, n, s, -, her, hd⟩
  · rwa [Store.current?_of_data hd] at h
  · rw [Store.current?_of_data hd, Store.current?_erase her] at h
    split at h
    · exact absurd rfl h
    · exact h

theorem current?_putEach_cases {id : EndpointId} (entries : List (Bytes × Bytes)) :
    ∀ {f : Fabric}, (f.putEach id entries).2.store.current? name key ≠ none →
      f.store.current? name key ≠ none ∨ key ∈ entries.map Prod.fst ∧ f.Accepts id name := by
  induction entries with
  | nil => intro f h; exact Or.inl h
  | cons entry rest ih =>
      intro f h
      obtain ⟨k, v⟩ := entry
      have hfirst : (f.put id k v).2.store.current? name key ≠ none →
          f.store.current? name key ≠ none ∨
            key ∈ ((k, v) :: rest).map Prod.fst ∧ f.Accepts id name := by
        intro hput
        rcases current?_put_cases hput with hold | ⟨rfl, ha⟩
        · exact Or.inl hold
        · exact Or.inr ⟨List.mem_cons_self, ha⟩
      have hserves := serves_put f id k v
      have hon : (f.put id k v).1 = .ok () → f.store.available = true := available_of_put
      unfold putEach at h
      cases hp : f.put id k v with
      | mk r f' =>
          rw [hp] at h hfirst hserves hon
          cases r with
          | error => exact hfirst h
          | ok u =>
              -- what the rest of the bindings needs held before the first of them, too
              rcases ih h with hput | ⟨hmem, -, ho⟩
              · exact hfirst hput
              · exact Or.inr ⟨List.mem_cons_of_mem _ hmem, hon rfl, hserves.offers ho⟩

end Fabric

end NearCache
