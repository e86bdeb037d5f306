import NearCache.Exposition
import NearCache.Table.Laws

/-!
# What a family of gauges shows

A family shows one line for each of its series. When a board is filled from nothing, the lines are
the labels and numbers that were recorded, provided that two things go well (`lines_perm_iff`): no
two series have the same digest, and no number changes when it is written, `Family.InFull`. If two
series have the same digest, one of them is lost.

Numbers below `twoTo 53` are written in full (`Family.inFull_of_lt`).
-/

namespace NearCache

/-! ## Numbers -/

namespace Binary64

theorem roundDiv_one (n : Nat) : roundDiv n 1 = n := by
  simp [roundDiv, Nat.mod_one]

/-- A whole number in units of a fraction is shifted up. -/
theorem inUnits_neg (n k : Nat) : inUnits n 1 (-(k : Int)) = (n * twoTo k, 1) := by
  unfold inUnits
  by_cases hpos : k = 0
  · subst hpos
    simp [twoTo]
  · rw [if_neg (by omega), Int.neg_neg, Int.toNat_natCast]

/-- What was shifted up is taken back by the exponent. -/
theorem ratio_shifted (n k : Nat) :
    (ratio ⟨false, n * twoTo k, -(k : Int)⟩).1 / (ratio ⟨false, n * twoTo k, -(k : Int)⟩).2 = n := by
  unfold ratio
  by_cases hpos : k = 0
  · subst hpos
    simp [twoTo]
  · dsimp only
    rw [if_neg (by omega), Int.neg_neg, Int.toNat_natCast]
    exact Nat.mul_div_cancel n (Nat.two_pow_pos k)

section Shift

variable {n k : Nat}

/-- A number is shifted to 53 bits. -/
theorem le_shifted (hn : n ≠ 0) (hk : n.log2 + k = 52) : twoTo 52 ≤ n * twoTo k := by
  calc twoTo 52 = twoTo n.log2 * twoTo k := by rw [← hk]; exact Nat.pow_add 2 n.log2 k
    _ ≤ n * twoTo k := Nat.mul_le_mul_right _ (Nat.log2_self_le hn)

theorem shifted_lt (hk : n.log2 + k = 52) : n * twoTo k < twoTo 53 := by
  calc n * twoTo k < twoTo (n.log2 + 1) * twoTo k :=
        Nat.mul_lt_mul_of_pos_right Nat.lt_log2_self (Nat.two_pow_pos k)
    _ = twoTo (n.log2 + 1 + k) := (Nat.pow_add 2 (n.log2 + 1) k).symm
    _ = twoTo 53 := by rw [show n.log2 + 1 + k = 53 by omega]

theorem exponentOf_eq (hn : n ≠ 0) (hk : n.log2 + k = 52) : exponentOf n 1 = -(k : Int) := by
  have hguess : (n.log2 : Int) - (1 : Nat).log2 - 52 = -(k : Int) := by
    rw [show (1 : Nat).log2 = 0 from rfl]
    omega
  unfold exponentOf
  rw [hguess]
  dsimp only
  rw [inUnits_neg]
  dsimp only
  rw [if_neg (by rw [Nat.div_one]; exact Nat.not_lt.mpr (le_shifted hn hk))]
  omega

end Shift

/-- A small number keeps its value. -/
theorem ofNat_ratio {n : Nat} (h : n < twoTo 53) :
    ∃ x, ofNat n = some x ∧ x.ratio.1 / x.ratio.2 = n := by
  by_cases hzero : n = 0
  · refine ⟨.zero, by rw [ofNat, ofRatio, if_pos hzero], ?_⟩
    have hratio : zero.ratio.1 = 0 := rfl
    rw [hratio, hzero, Nat.zero_div]
  obtain ⟨k, hk⟩ : ∃ k, n.log2 + k = 52 := by
    have hlog : n.log2 < 53 := (Nat.log2_lt hzero).mpr h
    exact ⟨52 - n.log2, by omega⟩
  refine ⟨⟨false, n * twoTo k, -(k : Int)⟩, ?_, ratio_shifted n k⟩
  unfold ofNat ofRatio
  rw [if_neg hzero, exponentOf_eq hzero hk]
  dsimp only
  rw [inUnits_neg]
  dsimp only
  rw [roundDiv_one, if_neg (Nat.ne_of_lt (shifted_lt hk))]
  exact if_neg (by omega)

end Binary64

namespace Family

/-- A number that is written as it is. -/
def InFull (n : Nat) : Prop := valueText (min n Gauge.largest) = toString n

theorem inFull_of_lt {n : Nat} (h : n < twoTo 53) : InFull n := by
  have hmin : min n Gauge.largest = n := Nat.min_eq_left (by
    have hlargest : twoTo 53 ≤ Gauge.largest := by decide
    omega)
  obtain ⟨x, hx, hratio⟩ := Binary64.ofNat_ratio h
  rw [InFull, hmin, valueText, hx]
  dsimp only
  rw [hratio]

end Family

/-! ## Series -/

/-- Labels are told apart by their values. -/
theorem Labels.values_injective : Function.Injective Labels.values := by
  rintro ⟨cache, near, node⟩ ⟨cache', near', node'⟩ h
  simp only [values, nearText, List.cons.injEq, and_true] at h
  obtain ⟨rfl, hnear, rfl⟩ := h
  cases near <;> cases near' <;> simp at hnear ⊢

namespace Family

/-- What a family makes of the number of a snapshot. -/
def shown (g : Gauge) (s : Snapshot) : Nat := min (g.read s) Gauge.largest

/-- Records snapshots one after the other. -/
def setAll (f : Family) (live : List (Labels × Snapshot)) : Family :=
  live.foldl (fun f e => f.set e.1 e.2) f

/-- The labels of each line and the text behind them. -/
def lines (f : Family) : List (Labels × String) := f.inOrder.map fun e => (e.1, valueText e.2)

variable {f : Family} {live : List (Labels × Snapshot)}

theorem gauge_setAll (live : List (Labels × Snapshot)) :
    ∀ f : Family, (f.setAll live).gauge = f.gauge := by
  induction live with
  | nil => intro f; rfl
  | cons e live ih => intro f; exact ih (f.set e.1 e.2)

theorem series_set (f : Family) (l : Labels) (s : Snapshot) :
    ∃ l', (f.set l s).series = f.series.insert l.digest (l', shown f.gauge s) ∧
      (f.series.get? l.digest = none → l' = l) := by
  refine ⟨_, rfl, fun hnone => ?_⟩
  rw [hnone]
  rfl

/-- Whatever is recorded, a family knows no other digests than those of the labels. -/
theorem mem_of_mem_keys_setAll (live : List (Labels × Snapshot)) {d : Nat} :
    ∀ f : Family, d ∈ (f.setAll live).series.keys →
      d ∈ f.series.keys ∨ d ∈ live.map (·.1.digest) := by
  induction live with
  | nil => intro f h; exact Or.inl h
  | cons e live ih =>
      intro f h
      obtain ⟨l', hset, -⟩ := f.series_set e.1 e.2
      rcases ih (f.set e.1 e.2) h with h | h
      · rw [hset] at h
        rcases Table.mem_keys_insert.mp h with rfl | h
        · exact Or.inr List.mem_cons_self
        · exact Or.inl h
      · exact Or.inr (List.mem_cons_of_mem _ h)

/-- Labels with new and different digests get a series each. -/
theorem entries_setAll_perm (live : List (Labels × Snapshot)) :
    ∀ f : Family, (f.series.keys ++ live.map (·.1.digest)).Nodup →
      (f.setAll live).series.entries.Perm
        (f.series.entries ++ live.map fun e => (e.1.digest, e.1, shown f.gauge e.2)) := by
  induction live with
  | nil => intro f _; rw [List.map_nil, List.append_nil]; exact .refl _
  | cons e live ih =>
      intro f h
      obtain ⟨hnew, hrest⟩ := List.nodup_cons.mp (List.perm_middle.nodup h)
      have hfree : e.1.digest ∉ f.series.keys := fun hmem => hnew (List.mem_append_left _ hmem)
      have hnone := Table.get?_eq_none_iff.mpr hfree
      obtain ⟨l', hset, hl'⟩ := f.series_set e.1 e.2
      rw [hl' hnone] at hset
      have hnodup : ((f.set e.1 e.2).series.keys ++ live.map (·.1.digest)).Nodup := by
        rw [hset]
        refine ((Table.keys_insert_perm hfree _).append_right _).symm.nodup ?_
        exact List.nodup_cons.mpr ⟨hnew, hrest⟩
      refine (ih _ hnodup).trans ?_
      rw [hset]
      exact ((Table.entries_insert_perm hnone _).append_right _).trans List.perm_middle.symm

/-- A family that is filled from nothing shows what was recorded, if no two digests are the same. -/
theorem inOrder_setAll_perm (g : Gauge) (hd : (live.map (·.1.digest)).Nodup) :
    (setAll ⟨g, ∅⟩ live).inOrder.Perm (live.map fun e => (e.1, shown g e.2)) := by
  have hvalues : (setAll ⟨g, ∅⟩ live).series.values.Perm
      (live.map fun e => (e.1, shown g e.2)) := by
    have hentries := (entries_setAll_perm live ⟨g, ∅⟩ hd).map Prod.snd
    rw [List.map_append, List.map_map] at hentries
    exact hentries
  have hlabels : (live.map Prod.fst).Nodup := by
    have hmap : live.map (·.1.digest) = (live.map Prod.fst).map Labels.digest := by
      rw [List.map_map]
      rfl
    rw [hmap] at hd
    exact hd.of_map
  have hkeys : (((setAll ⟨g, ∅⟩ live).series.values.map
      fun e => (e.1.values, e)).map Prod.fst).Nodup := by
    have hperm := hvalues.map fun e : Labels × Nat => e.1.values
    rw [List.map_map] at hperm ⊢
    refine hperm.symm.nodup ?_
    have hinjective := hlabels.map Labels.values_injective
    rw [List.map_map] at hinjective
    exact hinjective
  have horder := (Table.entries_ofList_perm hkeys).map Prod.snd
  rw [List.map_map] at horder
  unfold inOrder
  refine horder.trans ?_
  show ((setAll ⟨g, ∅⟩ live).series.values.map id).Perm _
  rw [List.map_id]
  exact hvalues

/-- A family never shows more lines than it has series. -/
theorem length_inOrder_le (f : Family) : f.inOrder.length ≤ f.series.keys.length := by
  have hle := Table.length_ofList_le (f.series.values.map fun e => (e.1.values, e))
  unfold inOrder Table.values Table.keys at *
  rw [List.length_map, List.length_map] at hle
  rwa [List.length_map, List.length_map]

/-- **The lines of a family are what was recorded** if and only if no two digests are the same and
every number is written in full. -/
theorem lines_perm_iff (g : Gauge) (live : List (Labels × Snapshot)) :
    (setAll ⟨g, ∅⟩ live).lines.Perm (live.map fun e => (e.1, toString (g.read e.2))) ↔
      (live.map (·.1.digest)).Nodup ∧ ∀ e ∈ live, InFull (g.read e.2) := by
  have hlines : (live.map (·.1.digest)).Nodup →
      (setAll ⟨g, ∅⟩ live).lines.Perm (live.map fun e => (e.1, valueText (shown g e.2))) := by
    intro hd
    have hperm := (inOrder_setAll_perm g hd).map fun e : Labels × Nat => (e.1, valueText e.2)
    rw [List.map_map] at hperm
    exact hperm
  constructor
  · intro hperm
    -- as many lines as were recorded leave no room for two of the same digest
    have hd : (live.map (·.1.digest)).Nodup := by
      have hsub : List.Subperm (setAll ⟨g, ∅⟩ live).series.keys (live.map (·.1.digest)) := by
        refine List.Nodup.subperm (Table.nodup_keys _) fun d hd => ?_
        rcases mem_of_mem_keys_setAll live ⟨g, ∅⟩ hd with hnone | hmem
        · cases hnone
        · exact hmem
      have hlength := hperm.length_eq
      have hle := (setAll ⟨g, ∅⟩ live).length_inOrder_le
      rw [lines, List.length_map, List.length_map] at hlength
      rw [hlength] at hle
      refine (hsub.perm_of_length_le ?_).nodup (Table.nodup_keys _)
      rw [List.length_map]
      exact hle
    refine ⟨hd, fun e he => ?_⟩
    have hmem : (e.1, valueText (shown g e.2)) ∈
        live.map fun e => (e.1, toString (g.read e.2)) :=
      (hperm.symm.trans (hlines hd)).mem_iff.mpr (List.mem_map.mpr ⟨e, he, rfl⟩)
    obtain ⟨e', he', heq⟩ := List.mem_map.mp hmem
    obtain ⟨hlabels, htext⟩ := Prod.mk.inj heq
    have hsame : e' = e := List.inj_on_of_nodup_map hd he' he (congrArg Labels.digest hlabels)
    rw [hsame] at htext
    exact htext.symm
  · rintro ⟨hd, hfull⟩
    refine (hlines hd).trans (List.Perm.of_eq (List.map_congr_left fun e he => ?_))
    exact congrArg (Prod.mk e.1) (hfull e he)

/-! ## Text -/

/-- The page of a family: its help, its type and its lines, or nothing if there are no lines. -/
def page (g : Gauge) (lines : List (Labels × String)) : String :=
  if lines.isEmpty then ""
  else "# HELP " ++ g.name ++ " " ++ g.help ++ "\n" ++ "# TYPE " ++ g.name ++ " gauge\n" ++
    String.join (lines.map fun e => g.name ++ e.1.text ++ " " ++ e.2 ++ "\n")

theorem isEmpty_lines (f : Family) : f.lines.isEmpty = f.series.isEmpty := by
  have hkeys : f.lines = [] ↔
      (Table.ofList (f.series.values.map fun e => (e.1.values, e))).keys = [] := by
    unfold lines inOrder Table.values Table.keys
    simp only [List.map_eq_nil_iff]
  have hseries : f.series.isEmpty = true ↔ f.series.values = [] := by
    rw [Table.isEmpty, List.isEmpty_iff, Table.values, List.map_eq_nil_iff]
  rw [Bool.eq_iff_iff, hseries, List.isEmpty_iff, hkeys, List.eq_nil_iff_forall_not_mem]
  simp only [Table.mem_keys_ofList_iff, List.map_map]
  rw [← List.eq_nil_iff_forall_not_mem, List.map_eq_nil_iff]

theorem text_eq_page (f : Family) : f.text = page f.gauge f.lines := by
  unfold text page
  rw [isEmpty_lines]
  split
  · rfl
  · rw [lines, List.map_map]
    rfl

end Family

end NearCache
