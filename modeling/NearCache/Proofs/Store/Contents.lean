import Mathlib.Data.Set.Card
import NearCache.Proofs.Store.History

/-!
# What the store holds

After any requests the store holds what its history says (`Store.faithful_after`): under each key
the last put that stands, and nothing else. A removed key leaves a mark in the store and a destroyed
cache leaves nothing, but neither can be told from a key that was never written.

Versions come from one counter for all caches, and the history shows every one of them: the ones
given out, in order, are `1, 2, 3, …`.
-/

namespace NearCache.Store

variable {L : Type} {h : History L} {s s' : Store L} {x : Exchange L}

/-! ## The contents -/

/-- A write and a destruction are different exchanges. -/
theorem Exchange.destroyed?_eq_none {n : Notice} (hn : x.notice? = some n) :
    x.destroyed? = none := by
  obtain ⟨q, reply, told⟩ := x
  cases q <;> first | rfl | cases hn

/-- What is held after an exchange was just put, or was held before and is not superseded. -/
theorem Exchange.applyTo_eq_some_iff {held : Contents} {c : String} {k : Bytes} {v : Versioned} :
    x.applyTo held c k = some v ↔
      x.notice? = some ⟨c, k, .put v⟩ ∨ (held c k = some v ∧ ¬ x.Supersedes c k) := by
  unfold applyTo Supersedes
  cases hn : x.notice? with
  | some n =>
      obtain ⟨c', k', change⟩ := n
      rw [destroyed?_eq_none hn]
      by_cases here : c = c' ∧ k = k'
      · obtain ⟨rfl, rfl⟩ := here
        cases change <;> simp [Notice.applyTo, Change.live?]
      · have hne : ∀ ch, (⟨c', k', change⟩ : Notice) ≠ ⟨c, k, ch⟩ := by
          rintro ch heq
          cases heq
          exact here ⟨rfl, rfl⟩
        simp [Notice.applyTo, here, hne]
  | none =>
      cases hd : x.destroyed? with
      | none => simp
      | some d =>
          by_cases here : c = d
          · simp [here]
          · simp [here, Ne.symm here]

/-- A write puts into the store what its announcement says. -/
theorem current?_announced_write {c : String} {k v : Bytes} {n : Notice}
    (write : s.write c k v = (n, s')) : (s'.announce n).2.current? = n.applyTo s.current? := by
  cases write
  funext c' k'
  exact current?_write s c c' k k' v

/-- A removal takes out of the store what its announcement says. -/
theorem current?_announced_erase {c : String} {k : Bytes} {n : Notice}
    (erase : s.erase c k = some (n, s')) : (s'.announce n).2.current? = n.applyTo s.current? := by
  funext c' k'
  have hheld := current?_erase erase c' k'
  obtain ⟨-, rfl, rfl⟩ := erase_eq_some_iff.mp erase
  exact hheld

/-- An exchange does to the contents what can be read off it. -/
theorem current?_effect (e : Effect s x s') : s'.current? = x.applyTo s.current? := by
  cases e with
  | refused off told => cases ‹Request L› <;> cases told <;> rfl
  | put on c k v write =>
      rw [current?_announced_write write]
      cases write
      rfl
  | remove on erase =>
      rw [current?_announced_erase erase]
      obtain ⟨-, rfl, -⟩ := erase_eq_some_iff.mp erase
      rfl
  | destroy c =>
      funext c' k
      exact current?_destroy s c c' k
  | get => rfl
  | miss => rfl
  | setAvailable => rfl
  | subscribe => rfl
  | unsubscribe => rfl

/-! ## The counters -/

/-- What an exchange adds to the counters of the store, and the version that it gave out. -/
structure Counted (s : Store L) (x : Exchange L) (s' : Store L) : Prop where
  reads : s'.reads = s.reads + x.isRead.toNat
  writes : s'.writes = s.writes + x.isWrite.toNat
  deletes : s'.deletes = s.deletes + x.isDelete.toNat
  lastVersion : s'.lastVersion = s.lastVersion + (x.isWrite.toNat + x.isDelete.toNat)
  version : x.version?.toList =
    List.range' (s.lastVersion + 1) (x.isWrite.toNat + x.isDelete.toNat)
  available : s'.available = x.reachable s.available

theorem counted_effect (e : Effect s x s') : Counted s x s' := by
  cases e with
  | refused off told => cases ‹Request L› <;> cases told <;> constructor <;> rfl
  | put on c k v write =>
      cases write
      constructor <;> rfl
  | remove on erase =>
      obtain ⟨-, rfl, rfl⟩ := erase_eq_some_iff.mp erase
      constructor <;> rfl
  | get => constructor <;> rfl
  | miss => constructor <;> rfl
  | destroy => constructor <;> rfl
  | setAvailable => constructor <;> rfl
  | subscribe => constructor <;> rfl
  | unsubscribe => constructor <;> rfl

/-! ## The store and its history -/

/-- The store holds and has counted what the history says. -/
structure Mirrors (h : History L) (s : Store L) : Prop where
  contents : ∀ c k v, s.current? c k = some v ↔ h.Standing c k v
  versions : h.filterMap Exchange.version? = List.range' 1 s.lastVersion
  assigned : s.lastVersion = s.writes + s.deletes
  reads : s.reads = h.countP Exchange.isRead
  writes : s.writes = h.countP Exchange.isWrite
  deletes : s.deletes = h.countP Exchange.isDelete
  available : s.available = h.reachable

theorem mirrors_nil : Mirrors ([] : History L) {} where
  contents c k v := by
    constructor
    · intro hv
      cases hv
    · rintro ⟨before, x, later, heq, -⟩
      exact absurd heq.symm (List.append_ne_nil_of_right_ne_nil before (List.cons_ne_nil x later))
  versions := rfl
  assigned := rfl
  reads := rfl
  writes := rfl
  deletes := rfl
  available := rfl

theorem Mirrors.effect (m : Mirrors h s) (e : Effect s x s') : Mirrors (h ++ [x]) s' := by
  have hcounted := counted_effect e
  exact {
    contents := fun c k v => by
      rw [current?_effect e, Exchange.applyTo_eq_some_iff, m.contents, History.standing_snoc]
    versions := by
      rw [History.filterMap_snoc, m.versions, hcounted.version, hcounted.lastVersion,
        Nat.add_comm s.lastVersion 1, List.range'_append_1]
    assigned := by
      rw [hcounted.lastVersion, hcounted.writes, hcounted.deletes, m.assigned]
      omega
    reads := by rw [hcounted.reads, m.reads, History.countP_snoc]
    writes := by rw [hcounted.writes, m.writes, History.countP_snoc]
    deletes := by rw [hcounted.deletes, m.deletes, History.countP_snoc]
    available := by
      rw [hcounted.available, m.available, History.reachable, History.reachable, List.foldl_append]
      rfl }

theorem mirrors_after (qs : List (Request L)) :
    Mirrors (({} : Store L).history qs) (({} : Store L).after qs) :=
  run_induction Mirrors.effect qs mirrors_nil

/-! ## Keys with a value -/

/-- The keys with a value, each with its cache. Removed keys are left out. -/
def liveKeys (s : Store L) : List (String × Bytes) :=
  s.data.entries.flatMap fun b => (b.2.entries.filter (·.2.value.isSome)).map fun e => (b.1, e.1)

theorem length_liveKeys (s : Store L) : s.liveKeys.length = s.stats.objects := by
  have hbucket : ∀ slots : Table Bytes Slot,
      (slots.entries.filter (·.2.value.isSome)).length = liveCount slots := by
    intro slots
    rw [liveCount, Table.values, List.filter_map, List.length_map]
    rfl
  rw [liveKeys, List.length_flatMap, stats, Table.values, List.foldr_map, List.sum_eq_foldr,
    List.foldr_map]
  simp only [List.length_map, hbucket]

theorem nodup_liveKeys (s : Store L) : s.liveKeys.Nodup := by
  rw [liveKeys, List.nodup_flatMap]
  constructor
  · -- within a cache the keys differ
    intro b _
    have hkeys : ((b.2.entries.filter (·.2.value.isSome)).map Prod.fst).Nodup :=
      (Table.nodup_keys b.2).sublist (List.filter_sublist.map Prod.fst)
    refine List.Nodup.of_map Prod.snd ?_
    rwa [List.map_map]
  · -- keys of different caches differ in the cache
    refine s.data.increasing.imp ?_
    intro a b hab p ha hb
    obtain ⟨e, -, rfl⟩ := List.mem_map.mp ha
    obtain ⟨f, -, heq⟩ := List.mem_map.mp hb
    have hname : b.1 = a.1 := (Prod.mk.inj heq).1
    rw [hname] at hab
    exact Key.irrefl a.1 hab

theorem mem_liveKeys_iff {c : String} {k : Bytes} :
    (c, k) ∈ s.liveKeys ↔ ∃ v, s.current? c k = some v := by
  constructor
  · intro hk
    obtain ⟨⟨c', slots⟩, hslots, hk⟩ := List.mem_flatMap.mp hk
    obtain ⟨⟨k', slot⟩, hslot, heq⟩ := List.mem_map.mp hk
    obtain ⟨rfl, rfl⟩ := Prod.mk.inj heq
    obtain ⟨hslot, hsome⟩ := List.mem_filter.mp hslot
    obtain ⟨value, hvalue⟩ := Option.isSome_iff_exists.mp hsome
    refine ⟨⟨value, slot.version⟩, ?_⟩
    have hfound : s.slot? c' k' = some slot := by
      rw [slot?, (Table.mem_entries_iff s.data c' slots).mp hslots]
      exact (Table.mem_entries_iff slots k' slot).mp hslot
    have hlive : slot.live? = some ⟨value, slot.version⟩ :=
      congrArg (Option.map fun v => (⟨v, slot.version⟩ : Versioned)) hvalue
    exact (congrArg (Option.bind · Slot.live?) hfound).trans hlive
  · rintro ⟨v, hv⟩
    obtain ⟨slot, hslot, hlive⟩ := Option.bind_eq_some_iff.mp hv
    obtain ⟨slots, hslots, hslot⟩ := Option.bind_eq_some_iff.mp hslot
    obtain ⟨value, hvalue, -⟩ := Option.map_eq_some_iff.mp hlive
    refine List.mem_flatMap.mpr ⟨(c, slots), (Table.mem_entries_iff s.data c slots).mpr hslots, ?_⟩
    refine List.mem_map.mpr ⟨(k, slot), List.mem_filter.mpr ⟨?_, ?_⟩, rfl⟩
    · exact (Table.mem_entries_iff slots k slot).mpr hslot
    · exact Option.isSome_iff_exists.mpr ⟨value, hvalue⟩

/-- The reported number of objects is the number of keys with a value. -/
theorem encard_live (s : Store L) :
    Set.encard {p : String × Bytes | ∃ v, s.current? p.1 p.2 = some v} = s.stats.objects := by
  have hset : {p : String × Bytes | ∃ v, s.current? p.1 p.2 = some v} = ↑s.liveKeys.toFinset := by
    ext ⟨c, k⟩
    rw [Finset.mem_coe, List.mem_toFinset, mem_liveKeys_iff]
    rfl
  rw [hset, Set.encard_coe_eq_coe_finsetCard, List.toFinset_card_of_nodup (nodup_liveKeys s),
    length_liveKeys]

/-! ## What one can learn of a store -/

/-- The store answers as its history says.

A version is given out exactly once, also across destructions, and the last one is the number of
writes: it fits into 64 bits for as long as the number of writes does. -/
structure Faithful (h : History L) (s : Store L) : Prop where
  versions : h.filterMap Exchange.version? = List.range' 1 (s.stats.writes + s.stats.deletes)
  increasing : (h.filterMap Exchange.version?).Pairwise (· < ·)
  available : s.available = h.reachable
  /-- A read that gets through finds the last put that stands. -/
  get : h.reachable = true → ∀ c k, ∃ answer,
    (s.get c k).1 = .ok answer ∧ ∀ v, answer = some v ↔ h.Standing c k v
  /-- A put that gets through takes the next version. -/
  put : h.reachable = true → ∀ c k v,
    (s.put c k v).1 = .ok (s.stats.writes + s.stats.deletes + 1)
  /-- A removal has something to remove exactly where a read would find a value. -/
  remove : ∀ c k, (∃ n, (s.remove c k).1 = .ok (some n)) ↔ ∃ v, (s.get c k).1 = .ok (some v)
  /-- Nothing is done, and no version is used, where there is nothing to remove. -/
  miss : h.reachable = true → ∀ c k, (¬ ∃ v, h.Standing c k v) → s.remove c k = (.ok none, [], s)
  /-- A store out of reach refuses to read and to write, and stays as it is. -/
  refuse : h.reachable = false → ∀ c k v,
    s.get c k = (.error (.storeUnavailable c "store unreachable"), s) ∧
    s.put c k v = (.error (.storeUnavailable c "store unreachable"), [], s) ∧
    s.remove c k = (.error (.storeUnavailable c "store unreachable"), [], s)
  /-- A destroyed cache is empty, also if the store was out of reach when it was destroyed. -/
  destroy : ∀ c k, (({ s.destroy c with available := true } : Store L).get c k).1 = .ok none
  objects : Set.encard {p : String × Bytes | ∃ v, h.Standing p.1 p.2 v} = s.stats.objects
  reads : s.stats.reads = h.countP Exchange.isRead
  writes : s.stats.writes = h.countP Exchange.isWrite
  deletes : s.stats.deletes = h.countP Exchange.isDelete

theorem get_eq (on : s.available = true) (c : String) (k : Bytes) :
    s.get c k = (.ok (s.current? c k), { s with reads := s.reads + 1 }) := by
  rw [Store.get, reach_eq_ok on]

theorem remove_eq_miss (on : s.available = true) {c : String} {k : Bytes}
    (absent : s.current? c k = none) : s.remove c k = (.ok none, [], s) := by
  rw [Store.remove, reach_eq_ok on, erase_eq_none_iff.mpr absent]

/-- A removal that gets through yields a version exactly where there is a value. -/
theorem remove_eq_some_iff (on : s.available = true) {c : String} {k : Bytes} :
    (∃ n, (s.remove c k).1 = .ok (some n)) ↔ ∃ v, s.current? c k = some v := by
  rw [← Option.isSome_iff_exists, Store.remove, reach_eq_ok on, Store.erase]
  cases s.current? c k <;> simp

theorem Mirrors.faithful (m : Mirrors h s) : Faithful h s where
  versions := by
    rw [m.versions, m.assigned]
    rfl
  increasing := by
    rw [m.versions]
    exact List.pairwise_lt_range'
  available := m.available
  get reachable c k := by
    have on : s.available = true := m.available.trans reachable
    exact ⟨s.current? c k, by rw [get_eq on], m.contents c k⟩
  put reachable c k v := by
    rw [Store.put, reach_eq_ok (m.available.trans reachable)]
    exact congrArg (fun last => Except.ok (last + 1)) m.assigned
  remove c k := by
    rcases Bool.eq_false_or_eq_true s.available with on | off
    · rw [remove_eq_some_iff on, get_eq on]
      simp
    · simp [Store.remove, Store.get, reach_eq_error off]
  miss reachable c k hnone := by
    refine remove_eq_miss (m.available.trans reachable) ?_
    refine Option.eq_none_iff_forall_ne_some.mpr fun v hv => hnone ⟨v, ?_⟩
    exact (m.contents c k v).mp hv
  refuse unreachable c k v := by
    have off : s.available = false := m.available.trans unreachable
    simp only [Store.get, Store.put, Store.remove, reach_eq_error off, and_self]
  destroy c k := by
    rw [get_eq rfl]
    have hgone := current?_destroy s c c k
    rw [if_pos rfl] at hgone
    exact congrArg Except.ok hgone
  objects := by
    rw [← encard_live]
    congr 1
    ext p
    exact exists_congr fun v => (m.contents p.1 p.2 v).symm
  reads := m.reads
  writes := m.writes
  deletes := m.deletes

/-- **A store is what its history says**: after any requests it answers, counts and gives out
versions as the exchanges so far require, with removals, destructions and outages among them. -/
theorem faithful_after (qs : List (Request L)) :
    Faithful (({} : Store L).history qs) (({} : Store L).after qs) :=
  (mirrors_after qs).faithful

end NearCache.Store
