import NearCache.Front
import NearCache.Table.Laws

/-!
# Shards do not show

`Front.Sheet` is what a near cache would be without shards: the entries of all keys in one table,
and no count beside it. `Front.Lists f t` says that the near cache `f` has the entries of the sheet
`t`, each in the shard of its key, and counts the values right.

Whatever a near cache is asked for (`Front.Call`), it keeps to its sheet, and both reply the same up
to the order in which keys are listed: `Lists.serve`, and `lists_after` for any number of calls.
-/

namespace NearCache.Front

/-! ## Calls and replies -/

/-- What a near cache can be asked for. -/
inductive Call where
  | get (key : Bytes)
  | version (key : Bytes)
  | size
  | isEmpty
  | keys
  | beginLoad (key : Bytes)
  | finishLoad (key : Bytes) (fetched : Option Versioned)
  | applyUpdate (key : Bytes) (now : Versioned)
  | applyRemoval (key : Bytes) (version : Nat)
  | clear
  deriving DecidableEq

/-- What it replies. -/
inductive Reply where
  | done
  | value (v : Option Bytes)
  | version (n : Option Nat)
  | size (n : Nat)
  | isEmpty (b : Bool)
  | keys (ks : List Bytes)
  | changed (b : Bool)

/-- The same reply, up to the order of keys. -/
def Reply.Same : Reply → Reply → Prop
  | keys ks, keys ks' => ks.Perm ks'
  | r, r' => r = r'

/-- The key that a call is about, if it is about one. -/
def Call.key? : Call → Option Bytes
  | get k | version k | beginLoad k | finishLoad k _ | applyUpdate k _ | applyRemoval k _ => some k
  | size | isEmpty | keys | clear => none

/-- Does what a near cache is asked for. -/
def serve (f : Front) : Call → Reply × Front
  | .get k => (.value (f.get? k), f)
  | .version k => (.version (f.version? k), f)
  | .size => (.size f.size, f)
  | .isEmpty => (.isEmpty (decide (f.size = 0)), f)
  | .keys => (.keys f.keys, f)
  | .beginLoad k => (.done, f.beginLoad k)
  | .finishLoad k x => let (b, f) := f.finishLoad k x; (.changed b, f)
  | .applyUpdate k v => let (b, f) := f.applyUpdate k v; (.changed b, f)
  | .applyRemoval k n => let (b, f) := f.applyRemoval k n; (.changed b, f)
  | .clear => (.done, f.clear)

/-- The near cache after calls. -/
def after (f : Front) (cs : List Call) : Front := cs.foldl (fun f c => (f.serve c).2) f

/-- What calls are replied. -/
def replies (f : Front) : List Call → List Reply
  | [] => []
  | c :: cs => (f.serve c).1 :: (f.serve c).2.replies cs

/-! ## One table for all keys -/

/-- The entries of a near cache in one table. -/
abbrev Sheet := Table Bytes Entry

namespace Sheet

/-- The keys that have a value. -/
def liveKeys (t : Sheet) : List Bytes := (t.filter fun _ e => e.value.isSome).keys

/-- Lets an event happen to a key. -/
def step (t : Sheet) (key : Bytes) (event : Option Entry → Option Entry × Bool) : Reply × Sheet :=
  (.changed (event (t.get? key)).2, t.alter key fun known => (event known).1)

/-- Does what is asked for. -/
def serve (t : Sheet) : Call → Reply × Sheet
  | .get k => (.value ((t.get? k).bind (·.value)), t)
  | .version k => (.version ((t.get? k).map (·.version)), t)
  | .size => (.size t.liveKeys.length, t)
  | .isEmpty => (.isEmpty t.liveKeys.isEmpty, t)
  | .keys => (.keys t.liveKeys, t)
  | .beginLoad k => (.done, t.alter k Entry.load)
  | .finishLoad k x => t.step k (Entry.settle x)
  | .applyUpdate k v => t.step k (Entry.update v)
  | .applyRemoval k n => t.step k (Entry.remove n)
  | .clear => (.done, ∅)

/-- The sheet after calls. -/
def after (t : Sheet) (cs : List Call) : Sheet := cs.foldl (fun t c => (t.serve c).2) t

/-- What calls are replied. -/
def replies (t : Sheet) : List Call → List Reply
  | [] => []
  | c :: cs => (t.serve c).1 :: (t.serve c).2.replies cs

/-! ## Counting values -/

variable {t : Sheet} {k : Bytes}

theorem mem_liveKeys_iff : k ∈ t.liveKeys ↔ ((t.get? k).bind (·.value)).isSome := by
  unfold liveKeys
  rw [Table.mem_keys_iff, Table.get?_filter]
  cases t.get? k with
  | none => simp
  | some e => cases hv : e.value <;> simp [Option.filter, hv]

theorem nodup_liveKeys (t : Sheet) : t.liveKeys.Nodup := Table.nodup_keys _

theorem length_liveKeys_eq (t : Sheet) :
    t.liveKeys.length = t.entries.countP fun e => e.2.value.isSome := by
  rw [List.countP_eq_length_filter]
  exact List.length_map _

/-- A key counts as one if it has a value, and for nothing otherwise. -/
theorem length_liveKeys (t : Sheet) (k : Bytes) :
    t.liveKeys.length =
      (liveKeys (t.erase k)).length + if Entry.isLive (t.get? k) then 1 else 0 := by
  rw [length_liveKeys_eq, length_liveKeys_eq]
  cases hk : t.get? k with
  | none =>
      rw [Table.erase_eq_self hk]
      rfl
  | some e =>
      rw [(Table.entries_erase_perm hk).countP_eq, List.countP_cons]
      rfl

/-- One entry replaced changes the count as a near cache has it. -/
theorem length_liveKeys_alter (t : Sheet) (k : Bytes) (event : Option Entry → Option Entry) :
    (liveKeys (t.alter k event)).length =
      recount t.liveKeys.length (t.get? k) (event (t.get? k)) := by
  have hrest : (t.alter k event).erase k = t.erase k := by
    refine Table.ext_get? fun j => ?_
    simp only [Table.get?_erase, Table.get?_alter]
    split <;> rfl
  have hnew := length_liveKeys (t.alter k event) k
  rw [hrest, Table.get?_alter, if_pos rfl] at hnew
  have hold := length_liveKeys t k
  unfold recount
  cases ho : Entry.isLive (t.get? k) <;> cases hn : Entry.isLive (event (t.get? k)) <;>
    simp only [ho, hn, Bool.false_eq_true, if_true, if_false] at hold hnew ⊢ <;> omega

end Sheet

/-! ## A near cache and its sheet -/

/-- The near cache has the entries of the sheet. -/
structure Lists (f : Front) (t : Sheet) : Prop where
  cell : ∀ k, f.cell? k = t.get? k
  /-- An entry is in the shard of its key. -/
  placed : ∀ {i : Fin shardCount} {k e}, f.shards[i].get? k = some e → shardOf k = i
  live : f.live = t.liveKeys.length

namespace Lists

variable {f : Front} {t : Sheet}

theorem empty : Lists {} ∅ where
  cell k := cell?_clear {} k
  placed {i k e} h := by
    have hnone : ({} : Front).shards[i].get? k = none := by simp
    rw [hnone] at h
    cases h
  live := rfl

/-- One entry is replaced. -/
theorem set (h : Lists f t) (k : Bytes) (event : Option Entry → Option Entry) :
    Lists (f.set k (event (f.cell? k))) (t.alter k event) where
  cell j := by
    rw [cell?_set, Table.get?_alter, h.cell k, h.cell j]
  placed {i j e} he := by
    by_cases hi : shardOf k = i
    · subst hi
      have hshard : (f.set k (event (f.cell? k))).shards[shardOf k] =
          f.shards[shardOf k].alter k fun _ => event (f.cell? k) := by
        simp [Front.set]
      rw [hshard, Table.get?_alter] at he
      split at he
      · next hj => rw [hj]
      · exact h.placed he
    · have hother : (f.set k (event (f.cell? k))).shards[i] = f.shards[i] := by
        have hne : (shardOf k).val ≠ i.val := fun heq => hi (Fin.ext heq)
        simp [Front.set, hne]
      rw [hother] at he
      exact h.placed he
  live := by
    show recount f.live (f.cell? k) (event (f.cell? k)) = _
    rw [Sheet.length_liveKeys_alter, h.live, h.cell]

/-- A key has a value in the one exactly if it has one in the other. -/
theorem get? (h : Lists f t) (k : Bytes) : f.get? k = (t.get? k).bind (·.value) := by
  unfold Front.get?
  rw [h.cell]

/-- A key of a shard belongs there, and has a value. -/
theorem mem_shard_iff (h : Lists f t) {i : Fin shardCount} {k : Bytes} :
    k ∈ (f.shards[i].filter fun _ e => e.value.isSome).keys ↔
      shardOf k = i ∧ (f.get? k).isSome := by
  have hmem := Sheet.mem_liveKeys_iff (t := f.shards[i]) (k := k)
  unfold Sheet.liveKeys at hmem
  rw [hmem]
  constructor
  · intro hk
    obtain ⟨v, hv⟩ := Option.isSome_iff_exists.mp hk
    obtain ⟨e, he, hval⟩ := Option.bind_eq_some_iff.mp hv
    obtain rfl := h.placed he
    exact ⟨rfl, hk⟩
  · rintro ⟨rfl, hk⟩
    exact hk

theorem mem_keys_iff (h : Lists f t) {k : Bytes} : k ∈ f.keys ↔ (f.get? k).isSome := by
  unfold keys
  rw [List.mem_flatMap]
  constructor
  · rintro ⟨shard, hshard, hk⟩
    obtain ⟨i, hi, rfl⟩ := Vector.getElem_of_mem (Vector.mem_toList_iff.mp hshard)
    exact (h.mem_shard_iff (i := ⟨i, hi⟩) |>.mp hk).2
  · intro hk
    exact ⟨f.shards[shardOf k], Vector.mem_toList_iff.mpr (Vector.getElem_mem _),
      h.mem_shard_iff.mpr ⟨rfl, hk⟩⟩

/-- The keys that have a value, shard by shard, are listed once each. -/
theorem nodup_keys (h : Lists f t) : f.keys.Nodup := by
  unfold keys
  refine List.nodup_flatMap.mpr ⟨fun shard _ => Table.nodup_keys _, ?_⟩
  refine List.pairwise_iff_getElem.mpr fun i j hi hj hij => ?_
  rw [Vector.length_toList] at hi hj
  refine List.disjoint_left.mpr fun {k} hk hk' => ?_
  -- a key that two shards list would belong to both
  have hki := (h.mem_shard_iff (i := ⟨i, hi⟩)).mp hk
  have hkj := (h.mem_shard_iff (i := ⟨j, hj⟩)).mp hk'
  have heq := congrArg Fin.val (hki.1.symm.trans hkj.1)
  exact absurd heq (Nat.ne_of_lt hij)

theorem keys_perm (h : Lists f t) : f.keys.Perm t.liveKeys := by
  refine (List.perm_ext_iff_of_nodup h.nodup_keys t.nodup_liveKeys).mpr fun k => ?_
  rw [h.mem_keys_iff, Sheet.mem_liveKeys_iff, h.get?]

/-- An event happens to the same key in both. -/
theorem step (h : Lists f t) (k : Bytes) (event : Option Entry → Option Entry × Bool) :
    Reply.Same (.changed (f.step k event).1) (t.step k event).1 ∧
      Lists (f.step k event).2 (t.step k event).2 := by
  refine ⟨?_, h.set k fun known => (event known).1⟩
  show Reply.changed (event (f.cell? k)).2 = .changed (event (t.get? k)).2
  rw [h.cell]

/-- No call tells a near cache from its sheet. -/
theorem serve (h : Lists f t) (c : Call) :
    (f.serve c).1.Same (t.serve c).1 ∧ Lists (f.serve c).2 (t.serve c).2 := by
  cases c with
  | get k => exact ⟨congrArg Reply.value (h.get? k), h⟩
  | version k =>
      refine ⟨?_, h⟩
      show Reply.version ((f.cell? k).map (·.version)) = _
      rw [h.cell]
      rfl
  | size => exact ⟨congrArg Reply.size h.live, h⟩
  | isEmpty =>
      refine ⟨congrArg Reply.isEmpty ?_, h⟩
      show decide (f.live = 0) = t.liveKeys.isEmpty
      rw [h.live]
      cases t.liveKeys <;> rfl
  | keys => exact ⟨h.keys_perm, h⟩
  | beginLoad k => exact ⟨rfl, h.set k Entry.load⟩
  | finishLoad k x => exact h.step k (Entry.settle x)
  | applyUpdate k v => exact h.step k (Entry.update v)
  | applyRemoval k n => exact h.step k (Entry.remove n)
  | clear => exact ⟨rfl, .empty⟩

end Lists

/-- **Shards do not show**: whatever is asked for, and however often, one table for all keys replies
the same. -/
theorem lists_after (cs : List Call) : ∀ {f : Front} {t : Sheet}, Lists f t →
    List.Forall₂ Reply.Same (f.replies cs) (t.replies cs) ∧ Lists (f.after cs) (t.after cs) := by
  induction cs with
  | nil => intro f t h; exact ⟨.nil, h⟩
  | cons c cs ih =>
      intro f t h
      obtain ⟨hreply, hnext⟩ := h.serve c
      obtain ⟨hreplies, hlast⟩ := ih hnext
      exact ⟨.cons hreply hreplies, hlast⟩

end NearCache.Front
