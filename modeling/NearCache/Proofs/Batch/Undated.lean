import NearCache.Proofs.Front.Entries
import NearCache.Session

/-!
# A session without its versions

Versions say in which order writes were accepted. `undated` takes them away from everything that is
stored under a key, in the store and in the near caches, and leaves all else as it is: the values,
the marks of removals, the reads that are counted on an entry, counters, subscriptions, and the last
version that was given out. Two sessions that are equal without their versions cannot be told apart
by values, sizes, listed keys or metrics, which `SameButVersions` spells out.
-/

namespace NearCache

namespace Table

variable {κ ν μ : Type} [LT κ] [DecidableEq κ] [DecidableLT κ] [Key κ]

theorem mapValues_alter (f : ν → μ) (t : Table κ ν) (k : κ) (a : Option ν) :
    (t.alter k fun _ => a).mapValues f = (t.mapValues f).alter k fun _ => a.map f := by
  refine ext_get? fun j => ?_
  simp only [get?_mapValues, get?_alter]
  split <;> rfl

omit [DecidableEq κ] [DecidableLT κ] [Key κ] in
/-- A test of the values that a function does not change picks the same keys. -/
theorem keys_filter_mapValues {f : ν → μ} {p : ν → Bool} {q : μ → Bool} (h : ∀ v, q (f v) = p v)
    (t : Table κ ν) :
    ((t.mapValues f).filter fun _ v => q v).keys = (t.filter fun _ v => p v).keys := by
  simp [keys, filter, mapValues, List.filter_map, Function.comp_def, h]

end Table

/-! ## Taking the versions away -/

/-- A slot without its version. -/
def Slot.undated (s : Slot) : Slot := { s with version := 0 }

/-- A store without the versions of its slots. -/
def Store.undated {L : Type} (s : Store L) : Store L :=
  { s with data := s.data.mapValues (Table.mapValues Slot.undated) }

namespace Store

variable {L : Type}

@[simp] theorem slot?_undated (s : Store L) (c : String) (k : Bytes) :
    s.undated.slot? c k = (s.slot? c k).map Slot.undated := by
  unfold slot? undated
  rw [Table.get?_mapValues]
  cases s.data.get? c with
  | none => rfl
  | some slots => exact Table.get?_mapValues _ _ _

theorem value_undated (s : Store L) (c : String) (k : Bytes) :
    (s.undated.current? c k).map (·.value) = (s.current? c k).map (·.value) := by
  unfold current?
  rw [slot?_undated]
  cases s.slot? c k with
  | none => rfl
  | some slot => cases hv : slot.value <;> simp [Slot.live?, Slot.undated, hv]

@[simp] theorem stats_undated (s : Store L) : s.undated.stats = s.stats := by
  have hcount : ∀ slots : Table Bytes Slot,
      liveCount (slots.mapValues Slot.undated) = liveCount slots := by
    intro slots
    simp [liveCount, List.filter_map, Function.comp_def, Slot.undated]
  simp [stats, undated, List.foldr_map, hcount]

end Store

namespace Front

/-- An entry without its version. -/
def Entry.undated (e : Entry) : Entry := { e with version := 0 }

/-- A near cache without the versions of its entries. -/
def undated (f : Front) : Front where
  shards := f.shards.map (Table.mapValues Entry.undated)
  live := f.live

variable {f : Front} {k : Bytes}

@[simp] theorem cell?_undated (f : Front) (k : Bytes) :
    f.undated.cell? k = (f.cell? k).map Entry.undated := by
  simp [cell?, undated]

@[simp] theorem isLive_undated (known : Option Entry) :
    Entry.isLive (known.map Entry.undated) = Entry.isLive known := by
  cases known <;> rfl

@[simp] theorem get?_undated (f : Front) (k : Bytes) : f.undated.get? k = f.get? k := by
  unfold get?
  rw [cell?_undated]
  cases f.cell? k <;> rfl

theorem undated_set (f : Front) (k : Bytes) (new : Option Entry) :
    (f.set k new).undated = f.undated.set k (new.map Entry.undated) := by
  refine congrArg₂ Front.mk ?_ ?_
  · simp [set, undated, Vector.map_set, Table.mapValues_alter]
  · show recount f.live (f.cell? k) new = recount f.live (f.undated.cell? k) (new.map Entry.undated)
    simp only [recount, cell?_undated, isLive_undated]

@[simp] theorem keys_undated (f : Front) : f.undated.keys = f.keys := by
  simp only [keys, undated, Vector.toList_map, List.flatMap_map]
  refine congrArg (List.flatMap · _) (funext fun shard => ?_)
  exact Table.keys_filter_mapValues (fun _ => rfl) shard

end Front

namespace Endpoint

/-- An endpoint whose near cache has no versions. -/
def undated (e : Endpoint) : Endpoint := { e with front := e.front.map Front.undated }

@[simp] theorem local?_undated (e : Endpoint) (k : Bytes) : e.undated.local? k = e.local? k := by
  unfold local? undated
  cases e.front with
  | none => rfl
  | some front => exact front.get?_undated k

@[simp] theorem snapshot_undated (e : Endpoint) : e.undated.snapshot = e.snapshot := by
  unfold snapshot localSize undated
  cases e.front <;> rfl

theorem keys_undated (e : Endpoint) : e.undated.front.map Front.keys = e.front.map Front.keys := by
  unfold undated
  rw [Option.map_map]
  exact congrArg (Option.map · _) (funext Front.keys_undated)

end Endpoint

/-- A fabric without versions. -/
def Fabric.undated (f : Fabric) : Fabric :=
  { f with store := f.store.undated, endpoints := f.endpoints.mapValues Endpoint.undated }

@[simp] theorem Fabric.endpoint?_undated (f : Fabric) (id : EndpointId) :
    f.undated.endpoint? id = (f.endpoint? id).map Endpoint.undated :=
  Table.get?_mapValues _ _ _

/-- A session without versions. -/
def Session.undated (s : Session) : Session := s.withFabric s.fabric.undated

/-! ## What is not told apart -/

/-- Two sessions that differ in nothing but the versions under which keys are stored. -/
structure Session.SameButVersions (s s' : Session) : Prop where
  undated : s.undated = s'.undated
  /-- The store holds the same values. -/
  values : ∀ c k, (s.fabric.store.current? c k).map (·.value) =
    (s'.fabric.store.current? c k).map (·.value)
  /-- The store counts the same. -/
  stats : s.fabric.store.stats = s'.fabric.store.stats
  /-- The near caches hold the same values. -/
  near : ∀ id k, (s.fabric.endpoint? id).map (·.local? k) =
    (s'.fabric.endpoint? id).map (·.local? k)
  /-- They list the same keys in the same order. -/
  keys : ∀ id, (s.fabric.endpoint? id).map (·.front.map Front.keys) =
    (s'.fabric.endpoint? id).map (·.front.map Front.keys)
  /-- The metrics of every endpoint are the same. -/
  metrics : ∀ id, (s.fabric.endpoint? id).map Endpoint.snapshot =
    (s'.fabric.endpoint? id).map Endpoint.snapshot

/-- Sessions that are equal without their versions differ in nothing else. -/
theorem Session.SameButVersions.of_undated {s s' : Session} (h : s.undated = s'.undated) :
    SameButVersions s s' := by
  have hstore : s.fabric.store.undated = s'.fabric.store.undated :=
    congrArg (fun s => s.fabric.store) h
  -- what does not depend on versions can be read off an endpoint without them
  have hread : ∀ {α : Type} (g : Endpoint → α) (id : EndpointId), (∀ e, g e.undated = g e) →
      (s.fabric.endpoint? id).map g = (s'.fabric.endpoint? id).map g := by
    intro α g id hg
    have hend := congrArg (fun s => (s.fabric.endpoint? id).map g) h
    have hboth : ∀ s : Session, (s.undated.fabric.endpoint? id).map g =
        (s.fabric.endpoint? id).map g := by
      intro s
      show (s.fabric.undated.endpoint? id).map g = _
      rw [Fabric.endpoint?_undated, Option.map_map]
      exact congrArg (Option.map · _) (funext hg)
    rwa [hboth, hboth] at hend
  refine ⟨h, fun c k => ?_, ?_, fun id k => ?_, fun id => ?_, fun id => ?_⟩
  · rw [← Store.value_undated, hstore, Store.value_undated]
  · rw [← Store.stats_undated, hstore, Store.stats_undated]
  · exact hread _ id fun e => e.local?_undated k
  · exact hread _ id Endpoint.keys_undated
  · exact hread _ id Endpoint.snapshot_undated

end NearCache
