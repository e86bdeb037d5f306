import Mathlib.Data.Finset.Card
import NearCache.Table.Laws
import NearCache.Workload

/-!
# The keys of the workload

Different numbers make different keys (`key_injective`), so as many bindings are written as there are
numbers, and a schedule of at least one round asks for exactly the keys that are bound, each once in
every round.
-/

namespace NearCache

namespace Bytes

/-- The bytes of an array, from a position on, behind those that were collected before. -/
theorem toList_loop (b : ByteArray) (i : Nat) (r : List UInt8) :
    ByteArray.toList.loop b i r = r.reverse ++ b.data.toList.drop i := by
  fun_induction ByteArray.toList.loop b i r with
  | case1 i r h ih =>
      have hlt : i < b.data.toList.length := by simpa using h
      have hget : b.get! i = b.data.toList[i] := by
        cases b
        simp only [ByteArray.get!, Array.getElem_toList]
        exact getElem!_pos _ i (by simpa using hlt)
      rw [ih, List.drop_eq_getElem_cons hlt, hget]
      simp
  | case2 i r h =>
      have hlength : b.data.toList.length = b.size := by simp
      have hle : b.data.toList.length ≤ i := by omega
      simp [List.drop_eq_nil_of_le hle]

/-- Different texts have different bytes. -/
theorem ofText_injective : Function.Injective ofText := by
  intro s t h
  have hlist : ∀ b : ByteArray, b.toList = b.data.toList := fun b => toList_loop b 0 []
  unfold ofText at h
  rw [hlist, hlist] at h
  exact String.toByteArray_inj.mp (ByteArray.ext (Array.toList_inj.mp h))

end Bytes

namespace Workload

theorem key_injective : Function.Injective key := by
  intro i j h
  have htext : "key-" ++ toString i = "key-" ++ toString j := Bytes.ofText_injective h
  have hdigits : Nat.toDigits 10 i = Nat.toDigits 10 j := by
    have htail := congrArg String.toList ((String.append_right_inj "key-").mp htext)
    simpa using htail
  have hread : ∀ n, Nat.ofDigitChars 10 (Nat.toDigits 10 n) 0 = n := fun n =>
    Nat.ofDigitChars_toDigits (by decide) (by decide)
  rw [← hread i, hdigits, hread]

/-- The keys that a workload of some size writes and reads. -/
def keyList (keys : Nat) : List Bytes := (List.range keys).map key

theorem nodup_keyList (keys : Nat) : (keyList keys).Nodup :=
  List.nodup_range.map key_injective

/-- The bindings bind every key once. -/
theorem keys_bindings_perm (keys : Nat) :
    ((bindings keys).entries.map Prod.fst).Perm (keyList keys) := by
  have hfirst : ((List.range keys).map fun i => (key i, value i)).map Prod.fst = keyList keys := by
    rw [List.map_map]
    rfl
  rw [← hfirst]
  exact (Table.entries_ofList_perm (by rw [hfirst]; exact nodup_keyList keys)).map Prod.fst

theorem length_bindings (keys : Nat) : (bindings keys).entries.length = keys := by
  have hlength := (keys_bindings_perm keys).length_eq
  simpa [keyList] using hlength

/-! ## What is read -/

theorem length_schedule (keys rounds : Nat) : (schedule keys rounds).length = keys * rounds := by
  simp [schedule, Nat.mul_comm]

/-- A schedule asks for the keys that are bound, and for nothing else. -/
theorem mem_schedule_iff {keys rounds : Nat} {k : Bytes} :
    k ∈ schedule keys rounds ↔ 0 < rounds ∧ k ∈ keyList keys := by
  rw [schedule, show (List.range keys).map key = keyList keys from rfl]
  simp only [List.mem_flatten, List.mem_replicate]
  constructor
  · rintro ⟨l, ⟨hne, rfl⟩, hk⟩
    exact ⟨Nat.pos_of_ne_zero hne, hk⟩
  · rintro ⟨hpos, hk⟩
    exact ⟨_, ⟨Nat.ne_of_gt hpos, rfl⟩, hk⟩

/-- How many different keys a schedule asks for. -/
theorem card_schedule (keys rounds : Nat) :
    (schedule keys rounds).toFinset.card = if 0 < rounds then keys else 0 := by
  split
  · next hpos =>
    have hset : (schedule keys rounds).toFinset = (keyList keys).toFinset := by
      ext k
      simp [mem_schedule_iff, hpos]
    rw [hset, List.toFinset_card_of_nodup (nodup_keyList keys)]
    simp [keyList]
  · next hzero =>
    have hnone : rounds = 0 := by omega
    simp [schedule, hnone]

end Workload

end NearCache
