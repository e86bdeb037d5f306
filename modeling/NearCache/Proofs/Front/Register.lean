import NearCache.Proofs.Front.Entries

/-!
# A key that is being loaded is a register

While a read of a key is on its way, the near cache holds an entry for the key, and what is heard of
the key meanwhile is weighed by version alone: an announced write, an announced removal, and what
another read of the key has found. The latest of them counts if it is later than what was known
before, and everything else leaves no trace. So it does not matter in which order it is heard
(`Register.order`), and a notification that is repeated changes nothing (`Register.again`).

The read on its way is needed. Without it a removal drops the entry together with its version, and
an older write that is announced afterwards is not recognised as old.

`Latest` is the register, without near caches; `loading_after` says that an entry is one, by
induction on what is heard; `register_after` puts this together for every state of a near cache.
-/

namespace NearCache.Front

/-! ## The latest of several slots -/

/-- `r` is what a register with the slot `s` holds once it was offered others: the latest of them,
or still `s` if none is later. -/
structure Latest (s : Slot) (offers : List Slot) (r : Slot) : Prop where
  from_offers : r = s ∨ r ∈ offers ∧ s.version < r.version
  newest : ∀ o ∈ offers, o.version ≤ r.version

namespace Latest

variable {s r : Slot} {offers : List Slot}

theorem nil (s : Slot) : Latest s [] s := ⟨Or.inl rfl, fun _ ho => by cases ho⟩

theorem version_le (h : Latest s offers r) : s.version ≤ r.version := by
  rcases h.from_offers with rfl | ⟨-, hlt⟩
  · exact Nat.le_refl _
  · exact Nat.le_of_lt hlt

theorem append {r' : Slot} {more : List Slot} (h : Latest s offers r) (h' : Latest r more r') :
    Latest s (offers ++ more) r' where
  from_offers := by
    rcases h'.from_offers with rfl | ⟨hmem, hlt⟩
    · exact h.from_offers.imp id fun ⟨hr, hs⟩ => ⟨List.mem_append_left _ hr, hs⟩
    · exact Or.inr ⟨List.mem_append_right _ hmem, Nat.lt_of_le_of_lt h.version_le hlt⟩
  newest o ho := by
    rcases List.mem_append.mp ho with ho | ho
    · exact Nat.le_trans (h.newest o ho) h'.version_le
    · exact h'.newest o ho

/-- One slot is offered. -/
theorem single (s o : Slot) : Latest s [o] (if s.version < o.version then o else s) where
  from_offers := by
    split
    · next hlt => exact Or.inr ⟨List.mem_singleton_self o, hlt⟩
    · exact Or.inl rfl
  newest o' ho' := by
    rw [List.mem_singleton.mp ho']
    split
    · exact Nat.le_refl _
    · next hle => exact Nat.le_of_not_lt hle

/-- Nothing that is offered is later. -/
theorem eq_self (h : Latest s offers r) (hs : ∀ o ∈ offers, o.version ≤ s.version) : r = s := by
  rcases h.from_offers with rfl | ⟨hmem, hlt⟩
  · rfl
  · exact absurd (hs r hmem) (Nat.not_le.mpr hlt)

/-- The latest of what is offered is later than the slot. -/
theorem eq_of_newest (h : Latest s offers r) (distinct : (offers.map Slot.version).Nodup) {o : Slot}
    (ho : o ∈ offers) (hs : s.version < o.version)
    (hnewest : ∀ o' ∈ offers, o'.version ≤ o.version) : r = o := by
  have hle := h.newest o ho
  rcases h.from_offers with rfl | ⟨hmem, -⟩
  · exact absurd hle (Nat.not_le.mpr hs)
  · exact List.inj_on_of_nodup_map distinct hmem ho (Nat.le_antisymm (hnewest r hmem) hle)

/-- Slots of different versions may be offered in any order. -/
theorem unique {r' : Slot} {offers' : List Slot} (h : Latest s offers r) (h' : Latest s offers' r')
    (distinct : (offers.map Slot.version).Nodup) (same : ∀ o, o ∈ offers' ↔ o ∈ offers) :
    r' = r := by
  rcases h.from_offers with rfl | ⟨hmem, hlt⟩
  · exact h'.eq_self fun o ho => h.newest o ((same o).mp ho)
  · have h'' : Latest s offers r' :=
      ⟨h'.from_offers.imp id fun ⟨hr, hs⟩ => ⟨(same r').mp hr, hs⟩,
        fun o ho => h'.newest o ((same o).mpr ho)⟩
    exact h''.eq_of_newest distinct hmem hlt h.newest

end Latest

/-- What an entry holds for its key. -/
def Entry.slot (e : Entry) : Slot := ⟨e.value, e.version⟩

/-! ## What is heard of a key -/

namespace Call

/-- What a call says of its key: a value or that there is none, and the version of that. -/
def offer? : Call → Option Slot
  | finishLoad _ (some x) => some ⟨some x.value, x.version⟩
  | applyUpdate _ x => some ⟨some x.value, x.version⟩
  | applyRemoval _ n => some ⟨none, n⟩
  | _ => none

/-- Whether a write to the key, or its removal, is announced. -/
def announces (k : Bytes) : Call → Bool
  | applyUpdate j _ => j = k
  | applyRemoval j _ => j = k
  | _ => false

/-- Whether something is heard of the key: an announcement, or the end of a read. -/
def Tells (k : Bytes) (c : Call) : Prop := c.ends k = true ∨ c.announces k = true

variable {k : Bytes} {c : Call}

/-- What is heard of a key concerns this key. -/
theorem Tells.key? (h : c.Tells k) : c.key? = some k := by
  cases c with
  | finishLoad j x =>
      rcases h with h | h
      · exact congrArg some (of_decide_eq_true h)
      · cases h
  | applyUpdate j v =>
      rcases h with h | h
      · cases h
      · exact congrArg some (of_decide_eq_true h)
  | applyRemoval j n =>
      rcases h with h | h
      · cases h
      · exact congrArg some (of_decide_eq_true h)
  | get | version | size | isEmpty | keys | beginLoad | clear => rcases h with h | h <;> cases h

theorem Tells.leaves (h : c.Tells k) (known : Option Entry) : c.leaves k known = c.makes known := by
  unfold Call.leaves
  rw [h.key?]
  exact if_pos rfl

/-- Everything that is announced has a version. -/
theorem offer?_of_announces (h : c.announces k = true) : ∃ o, c.offer? = some o := by
  cases c with
  | applyUpdate j v => exact ⟨_, rfl⟩
  | applyRemoval j n => exact ⟨_, rfl⟩
  | get | version | size | isEmpty | keys | beginLoad | finishLoad | clear => cases h

end Call

/-! ## An entry that stays -/

namespace Entry

/-- An entry takes a slot over if that is later. -/
def take (o : Slot) (e : Entry) : Entry :=
  if e.version < o.version then { e with value := o.value, version := o.version } else e

variable {e : Entry}

theorem loads_take (o : Slot) (e : Entry) : (e.take o).loads = e.loads := by
  unfold take
  split <;> rfl

theorem latest_take (o : Slot) (e : Entry) : Latest e.slot [o] (e.take o).slot := by
  have hsingle := Latest.single e.slot o
  unfold take
  by_cases hlt : e.version < o.version
  · rw [if_pos (show e.slot.version < o.version from hlt)] at hsingle
    rw [if_pos hlt]
    exact hsingle
  · rw [if_neg (show ¬ e.slot.version < o.version from hlt)] at hsingle
    rw [if_neg hlt]
    exact hsingle

theorem update_eq_take (x : Versioned) (e : Entry) :
    (update x (some e)).1 = some (e.take ⟨some x.value, x.version⟩) := by
  simp only [update, take]
  split <;> rfl

/-- The mark of a removal is kept as long as a read is on its way. -/
theorem remove_eq_take (hl : e.loads ≠ 0) (n : Nat) :
    (remove n (some e)).1 = some (e.take ⟨none, n⟩) := by
  simp only [remove, take, if_neg hl]
  split <;> rfl

theorem keep_of_loading (hl : e.loads ≠ 0) : e.keep = some e := if_neg fun h => hl h.2

/-- A read that ends while another is on its way counts off, and what it has found is weighed. -/
theorem settle_eq_take (hl : 1 < e.loads) (x : Versioned) :
    (settle (some x) (some e)).1 =
      some (take ⟨some x.value, x.version⟩ { e with loads := e.loads - 1 }) := by
  have hleft : e.loads - 1 ≠ 0 := by omega
  simp only [settle, take]
  split
  · exact keep_of_loading (e := ⟨some x.value, x.version, e.loads - 1⟩) hleft
  · exact keep_of_loading (e := { e with loads := e.loads - 1 }) hleft

theorem settle_none (hl : 1 < e.loads) :
    (settle none (some e)).1 = some { e with loads := e.loads - 1 } := by
  have hleft : e.loads - 1 ≠ 0 := by omega
  exact keep_of_loading (e := { e with loads := e.loads - 1 }) hleft

end Entry

/-- What is heard of a key on which a read stays on its way leaves the entry there, as a register to
which it was offered. -/
theorem Call.Tells.makes_some {k : Bytes} {c : Call} {e : Entry} (h : c.Tells k)
    (hl : (if c.ends k then 1 else 0) < e.loads) :
    ∃ e', c.makes (some e) = some e' ∧ Latest e.slot c.offer?.toList e'.slot ∧
      e'.loads + (if c.ends k then 1 else 0) = e.loads := by
  cases c with
  | finishLoad j x =>
      have hends : (Call.finishLoad j x).ends k = true := by
        rcases h with h | h
        · exact h
        · cases h
      rw [if_pos hends] at hl ⊢
      cases x with
      | none => exact ⟨_, Entry.settle_none hl, .nil _, Nat.sub_add_cancel (Nat.le_of_lt hl)⟩
      | some x =>
          refine ⟨_, Entry.settle_eq_take hl x, ?_, ?_⟩
          · exact Entry.latest_take _ { e with loads := e.loads - 1 }
          · rw [Entry.loads_take]
            exact Nat.sub_add_cancel (Nat.le_of_lt hl)
  | applyUpdate j v =>
      exact ⟨_, Entry.update_eq_take v e, Entry.latest_take _ _, Entry.loads_take _ _⟩
  | applyRemoval j n =>
      refine ⟨_, Entry.remove_eq_take (Nat.ne_of_gt hl) n, Entry.latest_take _ _, ?_⟩
      exact Entry.loads_take _ _
  | get | version | size | isEmpty | keys | beginLoad | clear => rcases h with h | h <;> cases h

/-- As long as a read of the key is on its way, its entry is a register: it holds the latest of what
was heard. -/
theorem loading_after {k : Bytes} (cs : List Call) : ∀ {f : Front} {e : Entry},
    f.cell? k = some e → (∀ c ∈ cs, c.Tells k) → cs.countP (·.ends k) < e.loads →
      ∃ r, Latest e.slot (cs.filterMap Call.offer?) r ∧
        (f.after cs).cell? k = some ⟨r.value, r.version, e.loads - cs.countP (·.ends k)⟩ := by
  induction cs with
  | nil => intro f e he _ _; exact ⟨e.slot, .nil _, he⟩
  | cons c cs ih =>
      intro f e he htells hloading
      have hc := htells c List.mem_cons_self
      rw [List.countP_cons] at hloading ⊢
      -- one read at least is left behind the first call, so it leaves the entry there
      obtain ⟨e₁, hmakes, hlatest₁, hloads₁⟩ := hc.makes_some (e := e) (by omega)
      have he₁ : (f.serve c).2.cell? k = some e₁ := by
        rw [cell?_serve, hc.leaves, he, hmakes]
      obtain ⟨r, hlatest, hcell⟩ :=
        ih he₁ (fun d hd => htells d (List.mem_cons_of_mem c hd)) (by omega)
      refine ⟨r, ?_, ?_⟩
      · have happend := hlatest₁.append hlatest
        rw [List.filterMap_cons]
        cases ho : c.offer? <;> rw [ho] at happend <;> exact happend
      · have hcount : e₁.loads - cs.countP (·.ends k) =
            e.loads - (cs.countP (·.ends k) + if c.ends k then 1 else 0) := by omega
        rw [← hcount]
        exact hcell

/-! ## Nothing but the entry -/

/-- A count may be brought up to date once for several changes of an entry, if it has counted the
entry in the first place. -/
theorem recount_recount {n : Nat} {a : Option Entry} (ha : Entry.isLive a = true → 0 < n)
    (b c : Option Entry) : recount (recount n a b) b c = recount n a c := by
  unfold recount
  cases hva : Entry.isLive a <;> cases Entry.isLive b <;> cases Entry.isLive c <;> dsimp only
  · omega
  · have hpos := ha hva
    omega

/-- What is heard of a key replaces its entry. -/
theorem Call.Tells.serve {k : Bytes} {c : Call} (h : c.Tells k) (f : Front) :
    (f.serve c).2 = f.set k ((f.serve c).2.cell? k) := by
  have hset : ∃ new, (f.serve c).2 = f.set k new := by
    cases c with
    | finishLoad j x =>
        obtain rfl := Option.some.inj h.key?
        exact ⟨_, rfl⟩
    | applyUpdate j v =>
        obtain rfl := Option.some.inj h.key?
        exact ⟨_, rfl⟩
    | applyRemoval j n =>
        obtain rfl := Option.some.inj h.key?
        exact ⟨_, rfl⟩
    | get | version | size | isEmpty | keys | beginLoad | clear => rcases h with h | h <;> cases h
  obtain ⟨new, hnew⟩ := hset
  rw [hnew, cell?_set, if_pos rfl]

/-- The near cache has counted the value of a key. -/
def Counts (f : Front) (k : Bytes) : Prop := Entry.isLive (f.cell? k) = true → 0 < f.live

theorem Counts.set {f : Front} {k : Bytes} (h : f.Counts k) (new : Option Entry) :
    (f.set k new).Counts k := by
  intro hnew
  rw [cell?_set, if_pos rfl] at hnew
  show 0 < recount f.live (f.cell? k) new
  unfold recount
  cases hold : Entry.isLive (f.cell? k) <;> rw [hnew] <;> dsimp only
  · exact Nat.succ_pos _
  · exact h hold

/-- Whatever is heard of one key, the near cache is what it was but for this entry. -/
theorem after_eq_set {k : Bytes} (cs : List Call) : ∀ {f : Front}, f.Counts k →
    (∀ c ∈ cs, c.Tells k) → f.after cs = f.set k ((f.after cs).cell? k) := by
  induction cs with
  | nil => intro f _ _; exact (f.set_self k).symm
  | cons c cs ih =>
      intro f hcounts htells
      have hserve := (htells c List.mem_cons_self).serve f
      have hcounts₁ : (f.serve c).2.Counts k := by
        rw [hserve]
        exact hcounts.set _
      have hrest := ih hcounts₁ fun d hd => htells d (List.mem_cons_of_mem c hd)
      show (f.serve c).2.after cs = f.set k (((f.serve c).2.after cs).cell? k)
      generalize ((f.serve c).2.after cs).cell? k = last at hrest
      rw [hrest, hserve]
      exact set_set (recount_recount hcounts _ _)

theorem Lists.counts {f : Front} {t : Sheet} (h : Lists f t) (k : Bytes) : f.Counts k := by
  intro hlive
  have hvalue : ((t.get? k).bind (·.value)).isSome := by
    rw [h.cell] at hlive
    cases hk : t.get? k with
    | none =>
        rw [hk] at hlive
        cases hlive
    | some e =>
        rw [hk] at hlive
        exact hlive
  rw [h.live]
  exact List.length_pos_of_mem (Sheet.mem_liveKeys_iff.mpr hvalue)

/-! ## What a key that is being loaded is -/

variable {f : Front} {k : Bytes} {e : Entry}

/-- How a near cache stands once something was heard of a key on which a read stays on its way. -/
structure Register (f : Front) (k : Bytes) (e : Entry) (cs : List Call) : Prop where
  /-- Nothing later is heard: value and version stay. -/
  kept : (∀ o ∈ cs.filterMap Call.offer?, o.version ≤ e.version) →
    (f.after cs).cell? k = some ⟨e.value, e.version, e.loads - cs.countP (·.ends k)⟩
  /-- The latest of what is heard counts. -/
  taken : ∀ o ∈ cs.filterMap Call.offer?, e.version < o.version →
    (∀ o' ∈ cs.filterMap Call.offer?, o'.version ≤ o.version) →
      (f.after cs).cell? k = some ⟨o.value, o.version, e.loads - cs.countP (·.ends k)⟩
  /-- Everything else is as it was, and the count of values follows the entry. -/
  others : f.after cs = f.set k ((f.after cs).cell? k)
  order : ∀ {ds}, ds.Perm cs → f.after ds = f.after cs
  /-- A notification that is repeated at any later moment is not taken, and changes nothing. -/
  again : ∀ {ps qs c}, cs = ps ++ qs → c ∈ ps → c.announces k = true →
    (f.after ps).serve c = (.changed false, f.after ps)

/-- An event that an entry is not changed by changes nothing. -/
theorem step_eq_self (he : f.cell? k = some e) (event : Option Entry → Option Entry × Bool)
    (h : event (some e) = (some e, false)) : f.step k event = (false, f) := by
  have hset : f.set k (some e) = f := by rw [← he, set_self]
  simp only [step, he, h, hset]

/-- An announcement that is no later than the entry is not taken. -/
theorem serve_of_le {c : Call} {o : Slot} (hc : c.announces k = true) (ho : c.offer? = some o)
    (he : f.cell? k = some e) (hle : o.version ≤ e.version) :
    f.serve c = (.changed false, f) := by
  have hkey : c.key? = some k := Call.Tells.key? (Or.inr hc)
  cases c with
  | applyUpdate j v =>
      obtain rfl := Option.some.inj hkey
      cases ho
      have hold : Entry.update v (some e) = (some e, false) := if_neg (Nat.not_lt.mpr hle)
      simp only [serve, applyUpdate, step_eq_self he (Entry.update v) hold]
  | applyRemoval j n =>
      obtain rfl := Option.some.inj hkey
      cases ho
      have hold : Entry.remove n (some e) = (some e, false) := if_neg (Nat.not_lt.mpr hle)
      simp only [serve, applyRemoval, step_eq_self he (Entry.remove n) hold]
  | get | version | size | isEmpty | keys | beginLoad | finishLoad | clear => cases hc

/-- **A key that is being loaded is a register in which the last version wins**: in every state of a
near cache, as long as a read of the key is on its way, neither the order in which writes, removals
and the answers to other reads arrive nor their repetition makes a difference. -/
theorem register_after (past cs : List Call) {k : Bytes} {e : Entry}
    (held : (({} : Front).after past).cell? k = some e) (about : ∀ c ∈ cs, c.Tells k)
    (loading : cs.countP (·.ends k) < e.loads)
    (distinct : ((cs.filterMap Call.offer?).map Slot.version).Nodup) :
    Register (({} : Front).after past) k e cs := by
  have hcounts := (lists_after past Lists.empty).2.counts k
  generalize ({} : Front).after past = f at held hcounts
  have hsame := after_eq_set cs hcounts about
  obtain ⟨r, hlatest, hcell⟩ := loading_after cs held about loading
  refine
    { kept := fun hold => ?_
      taken := fun o ho hlt hnewest => ?_
      others := hsame
      order := fun {ds} hperm => ?_
      again := fun {ps qs c} hsplit hc hannounces => ?_ }
  · rw [hcell, hlatest.eq_self hold]
    rfl
  · rw [hcell, hlatest.eq_of_newest distinct ho hlt hnewest]
  · have habout : ∀ c ∈ ds, c.Tells k := fun c hc => about c (hperm.mem_iff.mp hc)
    have hcount := hperm.countP_eq (·.ends k)
    obtain ⟨r', hlatest', hcell'⟩ := loading_after ds held habout (hcount ▸ loading)
    have hr : r' = r := hlatest.unique hlatest' distinct fun o => (hperm.filterMap _).mem_iff
    rw [after_eq_set ds hcounts habout, hsame, hcell, hcell', hr, hcount]
  · -- the entry has heard of this version before, so it is no earlier
    subst hsplit
    obtain ⟨o, ho⟩ := Call.offer?_of_announces hannounces
    have hfirst : ps.countP (·.ends k) < e.loads := by
      rw [List.countP_append] at loading
      omega
    obtain ⟨r₁, hlatest₁, hcell₁⟩ :=
      loading_after ps held (fun d hd => about d (List.mem_append_left qs hd)) hfirst
    exact serve_of_le hannounces ho hcell₁ (hlatest₁.newest o (List.mem_filterMap.mpr ⟨c, hc, ho⟩))

/-- Three reads are on their way when a removal, an earlier write and an even earlier answer arrive:
in both orders the mark of the removal is left. -/
theorem register_after_removal :
    let past := [.beginLoad [1], .beginLoad [1], .beginLoad [1], .applyUpdate [1] ⟨[7], 2⟩]
    let cs : List Call := [.applyRemoval [1] 5, .applyUpdate [1] ⟨[8], 4⟩,
      .finishLoad [1] (some ⟨[9], 3⟩), .finishLoad [1] none]
    (({} : Front).after past).cell? [1] = some ⟨some [7], 2, 3⟩ ∧
      (({} : Front).after (past ++ cs)).cell? [1] = some ⟨none, 5, 1⟩ ∧
      (({} : Front).after (past ++ cs.reverse)).cell? [1] = some ⟨none, 5, 1⟩ ∧
      Register (({} : Front).after past) [1] ⟨some [7], 2, 3⟩ cs :=
  ⟨by decide, by decide, by decide,
    register_after _ _ (by decide) (by simp [Call.Tells, Call.ends, Call.announces]) (by decide)
      (by decide)⟩

end NearCache.Front
