import Mathlib.Data.List.Induction
import NearCache.Proofs.Front.Sheet

/-!
# Entries come and go

What a call leaves of what is known of a key is settled by the key alone (`Call.leaves`), so all
that is said of near caches here is proved of one entry and one call, and carried along by
induction.

* No entry is kept for nothing: it has a value, or a read is on its way (`Entry.Tidy`).
* While an entry stays it only moves forward in version, and its value changes only together with
  the version (`Entry.Follows`).
* An entry counts the reads of its key that are on their way (`loads_after`).

With `lists_after` this is what represents a near cache: `represented_after`.
-/

namespace NearCache.Front

/-! ## One entry -/

namespace Entry

variable {known : Option Entry}

/-- An entry without a value is there for a read on its way, and a value has a version. -/
structure Tidy (known : Option Entry) : Prop where
  needed : ∀ {e}, known = some e → e.value = none → e.loads ≠ 0
  versioned : ∀ {e}, known = some e → e.value ≠ none → e.version ≠ 0

namespace Tidy

theorem none : Tidy none where
  needed h := by cases h
  versioned h := by cases h

/-- What nothing needs is not kept. -/
theorem keep {e : Entry} (hv : e.value ≠ .none → e.version ≠ 0) : Tidy e.keep := by
  unfold Entry.keep
  split
  · exact .none
  · next hk =>
    refine ⟨?_, ?_⟩
    · rintro e' ⟨⟩ hval hloads
      exact hk ⟨hval, hloads⟩
    · rintro e' ⟨⟩ hval
      exact hv hval

theorem load (h : Tidy known) : Tidy (Entry.load known) where
  needed := by
    rintro e ⟨⟩ -
    exact Nat.succ_ne_zero _
  versioned := by
    rintro e ⟨⟩ hval
    cases known with
    | none => exact absurd rfl hval
    | some e₀ => exact h.versioned (e := e₀) rfl hval

theorem settle (h : Tidy known) (fetched : Option Versioned) :
    Tidy (Entry.settle fetched known).1 := by
  cases known with
  | none => exact h
  | some e₀ =>
      have hold : e₀.value ≠ .none → e₀.version ≠ 0 := h.versioned rfl
      cases fetched with
      | none => exact keep hold
      | some x =>
          simp only [Entry.settle]
          split
          · next hlt =>
            have hver : x.version ≠ 0 := Nat.ne_of_gt (Nat.zero_lt_of_lt hlt)
            exact keep (e := ⟨some x.value, x.version, e₀.loads - 1⟩) fun _ => hver
          · exact keep hold

theorem update (h : Tidy known) (now : Versioned) : Tidy (Entry.update now known).1 := by
  cases known with
  | none => exact h
  | some e₀ =>
      simp only [Entry.update]
      split
      · next hlt =>
        refine ⟨?_, ?_⟩
        · rintro e ⟨⟩ hval
          cases hval
        · rintro e ⟨⟩ -
          exact Nat.ne_of_gt (Nat.zero_lt_of_lt hlt)
      · exact h

theorem remove (h : Tidy known) (version : Nat) : Tidy (Entry.remove version known).1 := by
  cases known with
  | none => exact h
  | some e₀ =>
      simp only [Entry.remove]
      split
      · split
        · exact .none
        · next hloads =>
          refine ⟨?_, ?_⟩
          · rintro e ⟨⟩ -
            exact hloads
          · rintro e ⟨⟩ hval
            exact absurd rfl hval
      · exact h

end Tidy

/-- `e'` comes after `e`: the version has not fallen, and has risen if the value is another. -/
structure Follows (e e' : Entry) : Prop where
  version_le : e.version ≤ e'.version
  version_lt : e'.value ≠ e.value → e.version < e'.version

namespace Follows

theorem refl (e : Entry) : Follows e e := ⟨Nat.le_refl _, fun h => absurd rfl h⟩

/-- Only the count of reads is another. -/
theorem of_eq {e e' : Entry} (hval : e'.value = e.value) (hver : e'.version = e.version) :
    Follows e e' :=
  ⟨Nat.le_of_eq hver.symm, fun h => absurd hval h⟩

theorem of_lt {e e' : Entry} (h : e.version < e'.version) : Follows e e' :=
  ⟨Nat.le_of_lt h, fun _ => h⟩

theorem trans {e e' e'' : Entry} (h : Follows e e') (k : Follows e' e'') : Follows e e'' where
  version_le := Nat.le_trans h.version_le k.version_le
  version_lt hne := by
    by_cases heq : e'.value = e.value
    · exact Nat.lt_of_le_of_lt h.version_le (k.version_lt (heq ▸ hne))
    · exact Nat.lt_of_lt_of_le (h.version_lt heq) k.version_le

variable {e e' : Entry}

theorem keep {e₀ : Entry} (h : Follows e e₀) (hk : e₀.keep = some e') : Follows e e' := by
  unfold Entry.keep at hk
  split at hk
  · cases hk
  · cases hk
    exact h

theorem settle {fetched : Option Versioned} (h : (Entry.settle fetched (some e)).1 = some e') :
    Follows e e' := by
  have hless : Follows e { e with loads := e.loads - 1 } := of_eq rfl rfl
  cases fetched with
  | none => exact hless.keep h
  | some x =>
      simp only [Entry.settle] at h
      split at h
      · next hlt =>
        have hnew : Follows e ⟨some x.value, x.version, e.loads - 1⟩ := of_lt hlt
        exact hnew.keep h
      · exact hless.keep h

theorem update {now : Versioned} (h : (Entry.update now (some e)).1 = some e') :
    Follows e e' := by
  simp only [Entry.update] at h
  split at h
  · next hlt =>
    cases h
    exact of_lt hlt
  · cases h
    exact refl e

theorem remove {version : Nat} (h : (Entry.remove version (some e)).1 = some e') :
    Follows e e' := by
  simp only [Entry.remove] at h
  split at h
  · next hlt =>
    split at h
    · cases h
    · cases h
      exact of_lt hlt
  · cases h
    exact refl e

end Follows

/-- How many reads of a key are on their way, as far as is known. -/
def pending (known : Option Entry) : Nat := (known.map (·.loads)).getD 0

theorem pending_keep (e : Entry) : pending e.keep = e.loads := by
  unfold Entry.keep
  split
  · next hk => exact hk.2.symm
  · rfl

theorem pending_load (known : Option Entry) : pending (load known) = pending known + 1 := by
  cases known <;> rfl

theorem pending_settle (fetched : Option Versioned) (known : Option Entry) :
    pending (settle fetched known).1 = pending known - 1 := by
  cases known with
  | none => rfl
  | some e =>
      cases fetched with
      | none => exact pending_keep _
      | some x =>
          simp only [settle]
          split
          · exact pending_keep ⟨some x.value, x.version, e.loads - 1⟩
          · exact pending_keep { e with loads := e.loads - 1 }

theorem pending_update (now : Versioned) (known : Option Entry) :
    pending (update now known).1 = pending known := by
  cases known with
  | none => rfl
  | some e =>
      simp only [update]
      split <;> rfl

theorem pending_remove (version : Nat) (known : Option Entry) :
    pending (remove version known).1 = pending known := by
  cases known with
  | none => rfl
  | some e =>
      simp only [remove]
      split
      · split
        · next hloads => exact hloads.symm
        · rfl
      · rfl

end Entry

/-! ## One call -/

namespace Call

/-- What a call makes of what is known of its key. -/
def makes : Call → Option Entry → Option Entry
  | beginLoad _, known => Entry.load known
  | finishLoad _ x, known => (Entry.settle x known).1
  | applyUpdate _ v, known => (Entry.update v known).1
  | applyRemoval _ n, known => (Entry.remove n known).1
  | clear, _ => none
  | get _, known | version _, known | size, known | isEmpty, known | keys, known => known

/-- What a call leaves of what is known of a key: one that is about no key is about all. -/
def leaves (c : Call) (k : Bytes) (known : Option Entry) : Option Entry :=
  match c.key? with
  | some j => if k = j then c.makes known else known
  | none => c.makes known

/-- Whether a read of the key sets out. -/
def begins (k : Bytes) : Call → Bool
  | beginLoad j => j = k
  | _ => false

/-- Whether a read of the key comes back. -/
def ends (k : Bytes) : Call → Bool
  | finishLoad j _ => j = k
  | _ => false

variable {c : Call} {k : Bytes} {known : Option Entry}

theorem ends_of_begins (h : c.begins k = true) : c.ends k = false := by
  cases c with
  | beginLoad => rfl
  | get | version | size | isEmpty | keys | finishLoad | applyUpdate | applyRemoval | clear =>
      cases h

theorem leaves_of_ne {j : Bytes} (hc : c.key? = some j) (hk : k ≠ j) :
    c.leaves k known = known := by
  unfold leaves
  rw [hc]
  exact if_neg hk

theorem leaves_cases (c : Call) (k : Bytes) (known : Option Entry) :
    c.leaves k known = known ∨ c.leaves k known = c.makes known := by
  unfold leaves
  split
  · split
    · exact Or.inr rfl
    · exact Or.inl rfl
  · exact Or.inr rfl

/-- A query leaves everything as it is. -/
theorem leaves_eq_self (hc : ∀ known, c.makes known = known) : c.leaves k known = known := by
  rcases c.leaves_cases k known with heq | heq
  · exact heq
  · exact heq.trans (hc known)

theorem tidy_leaves (h : Entry.Tidy known) (c : Call) (k : Bytes) :
    Entry.Tidy (c.leaves k known) := by
  rcases c.leaves_cases k known with heq | heq
  · rw [heq]
    exact h
  · rw [heq]
    cases c with
    | get | version | size | isEmpty | keys => exact h
    | beginLoad j => exact h.load
    | finishLoad j x => exact h.settle x
    | applyUpdate j v => exact h.update v
    | applyRemoval j n => exact h.remove n
    | clear => exact .none

theorem follows_leaves {e e' : Entry} (h : c.leaves k (some e) = some e') : e.Follows e' := by
  rcases c.leaves_cases k (some e) with heq | heq
  · rw [heq] at h
    cases h
    exact .refl e
  · rw [heq] at h
    cases c with
    | get | version | size | isEmpty | keys =>
        cases h
        exact .refl e
    | beginLoad j =>
        cases h
        exact .of_eq rfl rfl
    | finishLoad j x => exact .settle h
    | applyUpdate j v => exact .update h
    | applyRemoval j n => exact .remove h
    | clear => cases h

/-- The count of an entry follows the reads that set out and come back. -/
theorem pending_leaves (hc : c ≠ clear) (k : Bytes) (known : Option Entry) :
    Entry.pending (c.leaves k known) =
      if c.begins k then Entry.pending known + 1
      else if c.ends k then Entry.pending known - 1
      else Entry.pending known := by
  cases c with
  | get | version | size | isEmpty | keys =>
      rw [leaves_eq_self fun _ => rfl]
      rfl
  | clear => exact absurd rfl hc
  | beginLoad j =>
      by_cases hj : k = j
      · simp [leaves, key?, makes, begins, hj, Entry.pending_load]
      · simp [leaves, key?, begins, ends, hj, Ne.symm hj]
  | finishLoad j x =>
      by_cases hj : k = j
      · simp [leaves, key?, makes, begins, ends, hj, Entry.pending_settle]
      · simp [leaves, key?, begins, ends, hj, Ne.symm hj]
  | applyUpdate j v =>
      show Entry.pending (leaves _ k known) = Entry.pending known
      rcases leaves_cases (applyUpdate j v) k known with h | h
      · rw [h]
      · rw [h]
        exact Entry.pending_update v known
  | applyRemoval j n =>
      show Entry.pending (leaves _ k known) = Entry.pending known
      rcases leaves_cases (applyRemoval j n) k known with h | h
      · rw [h]
      · rw [h]
        exact Entry.pending_remove n known

end Call

variable {f : Front} {k : Bytes}

/-- A near cache does to each key what the call leaves of it. -/
theorem cell?_serve (f : Front) (c : Call) (k : Bytes) :
    (f.serve c).2.cell? k = c.leaves k (f.cell? k) := by
  have hstep : ∀ j event, (f.step j event).2.cell? k =
      if k = j then (event (f.cell? k)).1 else f.cell? k := by
    intro j event
    rw [cell?_step]
    split
    · next hj => rw [hj]
    · rfl
  cases c with
  | get | version | size | isEmpty | keys => exact (Call.leaves_eq_self fun _ => rfl).symm
  | clear => exact cell?_clear f k
  | beginLoad j =>
      show (f.set j (Entry.load (f.cell? j))).cell? k =
        if k = j then Entry.load (f.cell? k) else f.cell? k
      rw [cell?_set]
      split
      · next hj => rw [hj]
      · rfl
  | finishLoad j x => exact hstep j (Entry.settle x)
  | applyUpdate j v => exact hstep j (Entry.update v)
  | applyRemoval j n => exact hstep j (Entry.remove n)

/-- No entry of the near cache is kept for nothing. -/
def Tidy (f : Front) : Prop := ∀ k, Entry.Tidy (f.cell? k)

theorem tidy_empty : Tidy {} := fun k => by
  rw [show ({} : Front).cell? k = none from cell?_clear {} k]
  exact .none

theorem Tidy.serve (h : f.Tidy) (c : Call) : (f.serve c).2.Tidy := fun k => by
  rw [cell?_serve]
  exact Call.tidy_leaves (h k) c k

/-! ## One entry replaced -/

/-- What is known of a key is put in its own place. -/
theorem set_self (f : Front) (k : Bytes) : f.set k (f.cell? k) = f := by
  have hshard : f.shards[shardOf k].alter k (fun _ => f.cell? k) = f.shards[shardOf k] := by
    refine Table.ext_get? fun j => ?_
    rw [Table.get?_alter]
    split
    · next hj =>
      rw [hj]
      rfl
    · rfl
  have hlive : recount f.live (f.cell? k) (f.cell? k) = f.live := by
    unfold recount
    cases Entry.isLive (f.cell? k) <;> rfl
  unfold set
  rw [hshard, hlive]
  simp

/-- The second of two replacements remains, provided that the count has not stopped at zero in
between. -/
theorem set_set {a b : Option Entry}
    (h : recount (recount f.live (f.cell? k) a) a b = recount f.live (f.cell? k) b) :
    (f.set k a).set k b = f.set k b := by
  have hcell : (f.set k a).cell? k = a := by rw [cell?_set, if_pos rfl]
  have hshard : (f.set k a).shards[shardOf k].alter k (fun _ => b) =
      f.shards[shardOf k].alter k fun _ => b := by
    refine Table.ext_get? fun j => ?_
    simp only [set, Fin.getElem_fin, Vector.getElem_set_self, Table.get?_alter]
    split <;> rfl
  refine congrArg₂ Front.mk ?_ ?_
  · rw [hshard]
    simp [set]
  · rw [hcell]
    exact h

/-! ## Many calls -/

theorem after_append (f : Front) (cs ds : List Call) : f.after (cs ++ ds) = (f.after cs).after ds :=
  List.foldl_append

theorem Tidy.after (cs : List Call) : ∀ {f : Front}, f.Tidy → (f.after cs).Tidy := by
  induction cs with
  | nil => intro f h; exact h
  | cons c cs ih => intro f h; exact ih (h.serve c)

/-- An entry that stays in its place all the time only moves forward. -/
theorem follows_after (later : List Call) : ∀ {f : Front} {e e' : Entry},
    (∀ p, p <+: later → (f.after p).cell? k ≠ none) → f.cell? k = some e →
      (f.after later).cell? k = some e' → e.Follows e' := by
  induction later with
  | nil =>
      intro f e e' _ he he'
      have hsame : some e = some e' := he.symm.trans he'
      cases hsame
      exact .refl e
  | cons c cs ih =>
      intro f e e' hstays he he'
      have hnext : ∀ p, p <+: cs → ((f.serve c).2.after p).cell? k ≠ none := fun p hp =>
        hstays (c :: p) ((List.prefix_cons_inj c).mpr hp)
      obtain ⟨e₁, he₁⟩ := Option.ne_none_iff_exists'.mp (hnext [] List.nil_prefix)
      have hfirst : e.Follows e₁ := by
        have hleaves := f.cell?_serve c k
        rw [he] at hleaves
        exact Call.follows_leaves (hleaves.symm.trans he₁)
      exact hfirst.trans (ih hnext he₁ he')

/-- Every read of the key that has come back had set out before. -/
def Matched (k : Bytes) (cs : List Call) : Prop :=
  ∀ p, p <+: cs → p.countP (·.ends k) ≤ p.countP (·.begins k)

theorem Matched.of_append {cs ds : List Call} (h : Matched k (cs ++ ds)) : Matched k cs :=
  fun p hp => h p (hp.trans (List.prefix_append cs ds))

/-- The reads on their way and those that have come back are all that have set out. -/
theorem loads_after (cs : List Call) (hm : Matched k cs) (hc : .clear ∉ cs) :
    Entry.pending ((({} : Front).after cs).cell? k) + cs.countP (·.ends k) =
      cs.countP (·.begins k) := by
  induction cs using List.reverseRecOn with
  | nil =>
      show Entry.pending (({} : Front).cell? k) + 0 = 0
      rw [show ({} : Front).cell? k = none from cell?_clear {} k]
      rfl
  | append_singleton cs c ih =>
      have hbefore := ih hm.of_append fun hmem => hc (List.mem_append_left _ hmem)
      have hall := hm _ (List.prefix_refl _)
      have hne : c ≠ .clear := by
        rintro rfl
        exact hc (List.mem_append_right _ (List.mem_singleton_self _))
      have hcell : (({} : Front).after (cs ++ [c])).cell? k =
          c.leaves k ((({} : Front).after cs).cell? k) := by
        rw [after_append]
        exact cell?_serve _ c k
      rw [hcell, Call.pending_leaves hne]
      simp only [List.countP_append, List.countP_singleton] at hall ⊢
      cases hb : c.begins k <;> cases he : c.ends k <;>
        simp only [hb, he, Bool.false_eq_true, if_true, if_false] at hall ⊢
      · exact hbefore
      · omega
      · omega
      · exact absurd he (Bool.eq_false_iff.mp (Call.ends_of_begins hb))

/-! ## What represents a near cache -/

/-- How a near cache stands after calls. -/
structure Represented (cs : List Call) (f : Front) : Prop where
  /-- One table for all keys would have replied the same. -/
  replies : List.Forall₂ Reply.Same (({} : Front).replies cs) ((∅ : Sheet).replies cs)
  nodup_keys : f.keys.Nodup
  mem_keys : ∀ {k}, k ∈ f.keys ↔ (f.get? k).isSome
  size : f.size = f.keys.length
  /-- An entry has a value, or is there for a read on its way. -/
  needed : ∀ {k e}, f.cell? k = some e → e.value.isSome ∨ 0 < e.loads
  /-- With no read on its way there are only values. -/
  quiet : (∀ {k e}, f.cell? k = some e → e.loads = 0) → ∀ k,
    (∀ {e}, f.cell? k = some e → e.value.isSome) ∧ ((f.version? k).isSome ↔ (f.get? k).isSome)
  versioned : ∀ {k e}, f.cell? k = some e → e.value.isSome → 1 ≤ e.version
  /-- A call that is about one key changes no other. -/
  others : ∀ {c : Call} {j}, c.key? = some j → ∀ {k}, k ≠ j → (f.serve c).2.cell? k = f.cell? k
  /-- An entry that stays only moves forward in version, and its value only together with it. -/
  forward : ∀ {later : List Call} {k e e'}, (∀ p, p <+: later → (f.after p).cell? k ≠ none) →
    f.cell? k = some e → (f.after later).cell? k = some e' →
      e.version ≤ e'.version ∧ (e'.value ≠ e.value → e.version < e'.version)
  /-- An entry counts the reads of its key that are on their way. -/
  loads : ∀ {k}, Matched k cs → .clear ∉ cs →
    (∀ {e}, f.cell? k = some e → e.loads + cs.countP (·.ends k) = cs.countP (·.begins k)) ∧
      (f.cell? k = none → cs.countP (·.ends k) = cs.countP (·.begins k))

/-- **A near cache is represented by its entries**: after any calls it replies like one table, its
count of values is right, and each entry is there for a value or for a read. -/
theorem represented_after (cs : List Call) : Represented cs (({} : Front).after cs) := by
  obtain ⟨hreplies, hlists⟩ := lists_after cs Lists.empty
  have htidy := Tidy.after cs tidy_empty
  generalize hf : ({} : Front).after cs = f at hlists htidy
  have hneeded : ∀ {k e}, f.cell? k = some e → e.value.isSome ∨ 0 < e.loads := by
    intro k e he
    rw [Option.isSome_iff_ne_none]
    by_cases hval : e.value = none
    · exact Or.inr (Nat.pos_of_ne_zero ((htidy k).needed he hval))
    · exact Or.inl hval
  refine
    { replies := hreplies
      nodup_keys := hlists.nodup_keys
      mem_keys := hlists.mem_keys_iff
      size := ?_
      needed := hneeded
      quiet := ?_
      versioned := ?_
      others := ?_
      forward := ?_
      loads := ?_ }
  · exact hlists.live.trans hlists.keys_perm.length_eq.symm
  · intro hzero k
    have hval : ∀ {e}, f.cell? k = some e → e.value.isSome := by
      intro e he
      rcases hneeded he with hval | hpos
      · exact hval
      · exact absurd (hzero he) (Nat.ne_of_gt hpos)
    refine ⟨hval, ?_⟩
    unfold version? get?
    cases hcell : f.cell? k with
    | none => exact Iff.rfl
    | some e => simpa using hval hcell
  · intro k e he hval
    exact Nat.one_le_iff_ne_zero.mpr ((htidy k).versioned he (Option.isSome_iff_ne_none.mp hval))
  · intro c j hc k hk
    rw [cell?_serve, Call.leaves_of_ne hc hk]
  · intro later k e e' hstays he he'
    have hfollows := follows_after later hstays he he'
    exact ⟨hfollows.version_le, hfollows.version_lt⟩
  · intro k hm hc
    have hloads := loads_after cs hm hc
    rw [hf] at hloads
    constructor
    · intro e he
      rw [he] at hloads
      exact hloads
    · intro hnone
      rw [hnone] at hloads
      exact (Nat.zero_add _).symm.trans hloads

/-- A removal that is announced while two reads are on their way leaves a mark, which goes with the
second of them. -/
example :
    let f := ({} : Front).after [.beginLoad [1], .beginLoad [1], .applyRemoval [1] 3,
      .finishLoad [1] (some ⟨[7], 2⟩)]
    f.version? [1] = some 3 ∧ f.get? [1] = none ∧ f.keys = [] ∧
      ((f.serve (.finishLoad [1] none)).2.version? [1]) = none := by
  decide

end NearCache.Front
