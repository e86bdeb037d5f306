import NearCache.Proofs.Race.Basic

/-!
# When late notifications do no harm

Announcements that arrive out of order do not always lead a near cache back to what the store
holds. An unknown key forgets the version it had reached, so a removal that arrives while the key is
unknown leaves no mark. If a read sets out afterwards and an earlier write is announced before the
read comes back, the key takes that write's value; and the read, which has found nothing, brings no
version that could take it away again. The value then stays although the key has been removed.

`converges_iff` says exactly when this can happen: the last write is a removal, and some write is
announced after which no newer removal is (`Outlasting`). In every other order of arrival the key
ends up unknown or with the last write, whatever reads run in between.
-/

namespace NearCache

open Front.Entry (Tracks Settled)

/-- Some write arrives after which no newer removal arrives. -/
def Outlasting (order : List Change) : Prop :=
  ∃ x before after, order = before ++ .put x :: after ∧ 0 < x.version ∧
    ∀ m, .removed m ∈ after → m < x.version

namespace Race

/-! ## Histories -/

section History

variable {history : List Change}

theorem last_mem {last : Change} (h : history.getLast? = some last) : last ∈ history :=
  List.mem_of_getLast? h

theorem version_le_last (increasing : history.Pairwise (·.version < ·.version)) {last : Change}
    (h : history.getLast? = some last) : ∀ c ∈ history, c.version ≤ last.version := by
  obtain ⟨init, rfl⟩ := List.getLast?_eq_some_iff.mp h
  intro c hc
  rcases List.mem_append.mp hc with hc | hc
  · exact Nat.le_of_lt ((List.pairwise_append.mp increasing).2.2 c hc last List.mem_cons_self)
  · exact Nat.le_of_eq (congrArg Change.version (List.mem_singleton.mp hc))

/-- A version tells the write. -/
theorem eq_of_version_eq (increasing : history.Pairwise (·.version < ·.version)) {c d : Change}
    (hc : c ∈ history) (hd : d ∈ history) (h : c.version = d.version) : c = d := by
  have hnodup : (history.map Change.version).Nodup :=
    List.pairwise_map.mpr (increasing.imp Nat.ne_of_lt)
  exact List.inj_on_of_nodup_map hnodup hc hd h

end History

/-! ## What every run keeps -/

/-- The key follows the writes; once the last of them has arrived, reads bring nothing older; and if
the last is a removal, any value that the key still has outlasts all removals. -/
structure Follows (key : Bytes) (r : Race) : Prop where
  increasing : r.written.Pairwise (·.version < ·.version)
  due : ∀ {c}, c ∈ r.told → c ∈ r.written
  tracks : Tracks r.written r.loads (r.front.cell? key)
  settled : ∀ {last}, r.written.getLast? = some last → last ∈ r.told →
    Settled last r.loads (r.front.cell? key)
  outlasts : ∀ {n en v}, r.written.getLast? = some (.removed n) → .removed n ∈ r.told →
    r.front.cell? key = some en → en.value = some v →
    ∃ before after, r.told = before ++ .put ⟨v, en.version⟩ :: after ∧ 0 < en.version ∧
      ∀ m, .removed m ∈ after → m < en.version

namespace Follows

variable {key : Bytes} {r : Race}

theorem start {front : Front} (h : front.cell? key = none) : Follows key { front } where
  increasing := .nil
  due h := by cases h
  tracks := by
    show Tracks [] [] (front.cell? key)
    rw [h]
    exact .unknown
  settled h := by cases h
  outlasts h := by cases h

theorem write (f : Follows key r) {c : Change} (newer : ∀ d ∈ r.written, d.version < c.version) :
    Follows key { r with written := r.written ++ [c] } := by
  -- the new write is the last one and has not arrived yet
  have hearly : ∀ {last}, (r.written ++ [c]).getLast? = some last → last ∉ r.told := by
    intro last hlast htold
    rw [List.getLast?_concat] at hlast
    cases hlast
    exact Nat.lt_irrefl _ (newer _ (f.due htold))
  refine ⟨?_, fun hc => List.mem_append_left _ (f.due hc), f.tracks.write c, ?_, ?_⟩
  · refine List.pairwise_append.mpr ⟨f.increasing, List.pairwise_singleton _ _, ?_⟩
    intro d hd e he
    rw [List.mem_singleton.mp he]
    exact newer d hd
  · intro last hlast htold
    exact absurd htold (hearly hlast)
  · intro n en v hlast htold
    exact absurd htold (hearly hlast)

/-- A removal and a put of the same key never have the same version. -/
theorem removed_ne (f : Follows key r) {m : Nat} (hm : .removed m ∈ r.written) {en : Front.Entry}
    {v : Bytes} (hcell : r.front.cell? key = some en) (hv : en.value = some v) :
    m ≠ en.version := by
  intro heq
  have := eq_of_version_eq f.increasing hm (f.tracks.value hcell hv) heq
  cases this

theorem tell (f : Follows key r) {c : Change} (due : c ∈ r.written) :
    Follows key { r with told := r.told ++ [c], front := (r.front.apply key c).2 } := by
  have hcell : ∀ front, front = (r.front.apply key c).2 →
      front.cell? key = (Front.Entry.apply c (r.front.cell? key)).1 := by
    rintro front rfl
    rw [Front.apply, Front.cell?_step, if_pos rfl]
  refine ⟨f.increasing, ?_, ?_, ?_, ?_⟩
  · intro d hd
    rcases List.mem_append.mp hd with hd | hd
    · exact f.due hd
    · rw [List.mem_singleton.mp hd]
      exact due
  · show Tracks r.written r.loads _
    rw [hcell _ rfl]
    exact f.tracks.apply due
  · intro last hlast htold
    show Settled last r.loads _
    rw [hcell _ rfl]
    have hmax := version_le_last f.increasing hlast
    by_cases hc : c = last
    · rw [hc]
      exact .arrive f.tracks hmax
    · have hold : last ∈ r.told := by
        rcases List.mem_append.mp htold with h | h
        · exact h
        · exact absurd (List.mem_singleton.mp h).symm hc
      refine (f.settled hlast hold).apply (Nat.lt_of_le_of_ne (hmax c due) fun heq => hc ?_)
      exact eq_of_version_eq f.increasing due (last_mem hlast) heq
  · intro n en' v hlast htold hcell' hv
    replace hcell' := (hcell _ rfl).symm.trans hcell'
    cases hold : r.front.cell? key with
    | none =>
        rw [hold, Front.Entry.apply_none] at hcell'
        cases hcell'
    | some en =>
        rw [hold] at hcell'
        rcases Nat.lt_or_ge en.version c.version with hlt | hge
        · cases c with
          | put x =>
              -- the write that has just arrived
              rw [Front.Entry.apply_put hlt] at hcell'
              cases hcell'
              cases hv
              have hpos := Nat.lt_of_le_of_lt (Nat.zero_le _) hlt
              exact ⟨r.told, [], rfl, hpos, fun m hm => by cases hm⟩
          | removed m =>
              rw [Front.Entry.apply_removed (m := m) hlt] at hcell'
              split at hcell'
              · cases hcell'
              · cases hcell'
                cases hv
        · rw [Front.Entry.apply_eq_self hge] at hcell'
          cases hcell'
          by_cases hc : c = .removed n
          · -- the last removal cannot leave a value behind
            exfalso
            subst hc
            have hle := f.tracks.version_le (version_le_last f.increasing hlast) hold
            exact f.removed_ne due hold hv (Nat.le_antisymm hge hle)
          · have htold' : .removed n ∈ r.told := by
              rcases List.mem_append.mp htold with h | h
              · exact h
              · exact absurd (List.mem_singleton.mp h).symm hc
            obtain ⟨before, after, hsplit, hpos, hafter⟩ := f.outlasts hlast htold' hold hv
            refine ⟨before, after ++ [c], by rw [hsplit]; simp, hpos, ?_⟩
            intro m hm
            rcases List.mem_append.mp hm with hm | hm
            · exact hafter m hm
            · have heq := List.mem_singleton.mp hm
              subst heq
              exact Nat.lt_of_le_of_ne hge (f.removed_ne due hold hv)

theorem begin (f : Follows key r) :
    Follows key { r with loads := none :: r.loads, front := r.front.beginLoad key } := by
  have hcell : (r.front.beginLoad key).cell? key = Front.Entry.load (r.front.cell? key) := by
    rw [Front.beginLoad, Front.cell?_set, if_pos rfl]
  refine ⟨f.increasing, f.due, ?_, ?_, ?_⟩
  · show Tracks r.written (none :: r.loads) ((r.front.beginLoad key).cell? key)
    rw [hcell]
    exact f.tracks.load
  · intro last hlast htold
    show Settled last (none :: r.loads) ((r.front.beginLoad key).cell? key)
    rw [hcell]
    exact .load f.tracks (f.settled hlast htold)
  · intro n en v hlast htold hcell' hv
    replace hcell' := hcell.symm.trans hcell'
    cases hold : r.front.cell? key with
    | none =>
        rw [hold] at hcell'
        cases hcell'
        cases hv
    | some en₀ =>
        rw [hold] at hcell'
        cases hcell'
        have houtlasts := f.outlasts hlast htold hold hv
        exact houtlasts

/-- A read finds the last write, if that is not a removal. -/
theorem now_mem (x : Versioned) (h : r.now = some x) : .put x ∈ r.written := by
  obtain ⟨c, hlast, hlive⟩ := Option.bind_eq_some_iff.mp h
  cases c with
  | put y =>
      cases hlive
      exact last_mem hlast
  | removed m => cases hlive

theorem ask (f : Follows key r) {before after : List (Option (Option Versioned))}
    (split : r.loads = before ++ none :: after) :
    Follows key { r with loads := before ++ some r.now :: after } := by
  refine ⟨f.increasing, f.due, ?_, ?_, f.outlasts⟩
  · have htracks := f.tracks
    rw [split] at htracks
    exact htracks.ask now_mem
  · intro last hlast htold
    have hsettled := f.settled hlast htold
    rw [split] at hsettled
    have hnow : r.now = last.live? := by
      unfold now
      rw [show r.written.getLast? = some last from hlast]
      rfl
    show Settled last (before ++ some r.now :: after) (r.front.cell? key)
    rw [hnow]
    exact hsettled.ask

theorem finish (f : Follows key r) {before after : List (Option (Option Versioned))}
    {x : Option Versioned} (split : r.loads = before ++ some x :: after) :
    Follows key
      { r with loads := before ++ after, front := (r.front.finishLoad key x).2 } := by
  have hcell : (r.front.finishLoad key x).2.cell? key =
      (Front.Entry.settle x (r.front.cell? key)).1 := by
    rw [Front.finishLoad, Front.cell?_step, if_pos rfl]
  have htracks := f.tracks
  rw [split] at htracks
  refine ⟨f.increasing, f.due, ?_, ?_, ?_⟩
  · show Tracks r.written (before ++ after) ((r.front.finishLoad key x).2.cell? key)
    rw [hcell]
    exact htracks.finish
  · intro last hlast htold
    have hsettled := f.settled hlast htold
    rw [split] at hsettled
    show Settled last (before ++ after) ((r.front.finishLoad key x).2.cell? key)
    rw [hcell]
    exact .finish htracks (version_le_last f.increasing hlast) hsettled
  · intro n en' v hlast htold hcell' hv
    replace hcell' := hcell.symm.trans hcell'
    cases hold : r.front.cell? key with
    | none =>
        rw [hold] at hcell'
        cases hcell'
    | some en =>
        rw [hold] at hcell'
        have hmax := version_le_last f.increasing hlast
        -- either the entry knows of the last removal, or the read has found nothing
        have holder : ∀ y, x = some y → y.version ≤ en.version := by
          rintro y rfl
          by_cases heq : en.version = n
          · have := hmax _ (htracks.found (List.mem_append_right _ List.mem_cons_self))
            exact heq ▸ this
          · obtain ⟨hfound, -⟩ := f.settled hlast htold en hold heq
            rw [split] at hfound
            rcases hfound _ (List.mem_append_right _ List.mem_cons_self) with h | h
            · cases h
            · cases h
        rw [Front.Entry.settle_eq_keep holder] at hcell'
        obtain ⟨rfl, -⟩ := Front.Entry.keep_eq_some hcell'
        have houtlasts := f.outlasts hlast htold hold hv
        exact houtlasts

theorem step {r' : Race} (f : Follows key r) (hs : Step key r r') : Follows key r' := by
  cases hs with
  | write newer => exact f.write newer
  | tell due once => exact f.tell due
  | begin => exact f.begin
  | ask split => exact f.ask split
  | finish split => exact f.finish split

end Follows

theorem Reach.follows {key : Bytes} {r : Race} (h : Reach key r) : Follows key r := by
  obtain ⟨front, hfront, hsteps⟩ := h
  induction hsteps with
  | refl => exact .start hfront
  | tail _ hlast ih => exact ih.step hlast

/-! ## A run that keeps a value -/

theorem steps_write (key : Bytes) (ws : List Change) :
    ∀ r : Race, (r.written ++ ws).Pairwise (·.version < ·.version) →
      Relation.ReflTransGen (Step key) r { r with written := r.written ++ ws } := by
  induction ws with
  | nil =>
      intro r _
      rw [List.append_nil]
  | cons c ws ih =>
      intro r increasing
      have hnewer : ∀ d ∈ r.written, d.version < c.version := fun d hd =>
        (List.pairwise_append.mp increasing).2.2 d hd c List.mem_cons_self
      have hrest := ih { r with written := r.written ++ [c] } (by simpa using increasing)
      have hfirst : Step key r { r with written := r.written ++ [c] } := .write r hnewer
      rw [List.append_assoc] at hrest
      exact (Relation.ReflTransGen.single hfirst).trans hrest

/-- Announcements of an unknown key are not heard. -/
theorem steps_tell_unknown (key : Bytes) (cs : List Change) :
    ∀ r : Race, r.front.cell? key = none → (∀ c ∈ cs, c ∈ r.written) → (r.told ++ cs).Nodup →
      ∃ front : Front, front.cell? key = none ∧
        Relation.ReflTransGen (Step key) r { r with told := r.told ++ cs, front } := by
  induction cs with
  | nil =>
      intro r hcell _ _
      exact ⟨r.front, hcell, by rw [List.append_nil]⟩
  | cons c cs ih =>
      intro r hcell due once
      have hcell' : (r.front.apply key c).2.cell? key = none := by
        rw [Front.apply, Front.cell?_step, if_pos rfl, hcell]
        exact Front.Entry.apply_none c
      have honce : c ∉ r.told := fun h =>
        (List.nodup_append.mp once).2.2 c h c List.mem_cons_self rfl
      have hfirst : Step key r { r with told := r.told ++ [c], front := (r.front.apply key c).2 } :=
        .tell r (due c List.mem_cons_self) honce
      obtain ⟨front, hfront, hrest⟩ := ih
        { r with told := r.told ++ [c], front := (r.front.apply key c).2 } hcell'
        (fun d hd => due d (List.mem_cons_of_mem _ hd)) (by simpa using once)
      rw [List.append_assoc] at hrest
      exact ⟨front, hfront, (Relation.ReflTransGen.single hfirst).trans hrest⟩

/-- A value is not taken away by older removals, nor by writes. -/
theorem steps_tell_live (key : Bytes) (cs : List Change) :
    ∀ (r : Race) (en : Front.Entry), r.front.cell? key = some en → en.value ≠ none →
      (∀ m, .removed m ∈ cs → m ≤ en.version) → (∀ c ∈ cs, c ∈ r.written) →
      (r.told ++ cs).Nodup →
      ∃ front : Front, front.get? key ≠ none ∧
        Relation.ReflTransGen (Step key) r { r with told := r.told ++ cs, front } := by
  induction cs with
  | nil =>
      intro r en hcell hv _ _ _
      refine ⟨r.front, ?_, by rw [List.append_nil]⟩
      unfold Front.get?
      rw [hcell]
      exact hv
  | cons c cs ih =>
      intro r en hcell hv holder due once
      -- the entry keeps a value and does not become older
      have hnext : ∃ en', (Front.Entry.apply c (some en)).1 = some en' ∧ en'.value ≠ none ∧
          en.version ≤ en'.version := by
        rcases Nat.lt_or_ge en.version c.version with hlt | hge
        · cases c with
          | put x =>
              rw [Front.Entry.apply_put hlt]
              exact ⟨_, rfl, by simp, Nat.le_of_lt hlt⟩
          | removed m =>
              exact absurd (holder m List.mem_cons_self) (Nat.not_le.mpr hlt)
        · rw [Front.Entry.apply_eq_self hge]
          exact ⟨en, rfl, hv, Nat.le_refl _⟩
      obtain ⟨en', happly, hv', hle⟩ := hnext
      have hcell' : (r.front.apply key c).2.cell? key = some en' := by
        rw [Front.apply, Front.cell?_step, if_pos rfl, hcell]
        exact happly
      have honce : c ∉ r.told := fun h =>
        (List.nodup_append.mp once).2.2 c h c List.mem_cons_self rfl
      have hfirst : Step key r { r with told := r.told ++ [c], front := (r.front.apply key c).2 } :=
        .tell r (due c List.mem_cons_self) honce
      obtain ⟨front, hfront, hrest⟩ := ih
        { r with told := r.told ++ [c], front := (r.front.apply key c).2 } en' hcell' hv'
        (fun m hm => Nat.le_trans (holder m (List.mem_cons_of_mem _ hm)) hle)
        (fun d hd => due d (List.mem_cons_of_mem _ hd)) (by simpa using once)
      rw [List.append_assoc] at hrest
      exact ⟨front, hfront, (Relation.ReflTransGen.single hfirst).trans hrest⟩

/-- When a write outlasts all removals, a read can set out just before its announcement and come
back just after it, with nothing. -/
theorem exists_run {history order : List Change} (key : Bytes)
    (increasing : history.Pairwise (·.version < ·.version)) (arrival : order.Perm history) {n : Nat}
    (removed : history.getLast? = some (.removed n)) (outlasting : Outlasting order) :
    ∃ r, Reach key r ∧ r.written = history ∧ r.told = order ∧ r.loads = [] ∧ r.now = none ∧
      r.front.get? key ≠ none := by
  obtain ⟨x, before, after, rfl, hpos, hafter⟩ := outlasting
  have hdue : ∀ c ∈ before ++ .put x :: after, c ∈ history := fun c hc => arrival.mem_iff.mp hc
  have hnodup : (before ++ .put x :: after).Nodup := by
    refine arrival.nodup_iff.mpr (increasing.imp ?_)
    rintro a b hab rfl
    exact Nat.lt_irrefl _ hab
  have hnow : history.getLast?.bind Change.live? = none := by
    rw [removed]
    rfl
  -- all writes are made, and the first announcements find the key unknown
  have hwrite := steps_write key history { front := {} } (by simpa using increasing)
  obtain ⟨front₁, hcell₁, htell⟩ := steps_tell_unknown key before
    { written := history, front := {} } (Front.cell?_clear {} key)
    (fun c hc => hdue c (List.mem_append_left _ hc))
    (by simpa using (List.nodup_append.mp hnodup).1)
  -- a read sets out and finds nothing
  have hbegin : Step key { written := history, told := before, front := front₁ }
      { written := history, told := before, loads := [none], front := front₁.beginLoad key } :=
    .begin _
  have hask : Step key
      { written := history, told := before, loads := [none], front := front₁.beginLoad key }
      { written := history, told := before, loads := [some none],
        front := front₁.beginLoad key } := by
    have h : Step key _ _ := .ask
      { written := history, told := before, loads := [none], front := front₁.beginLoad key }
      (show [none] = [] ++ none :: [] from rfl)
    rw [now, hnow] at h
    exact h
  -- the write that outlasts the removals arrives, and the read comes back
  have htellx : Step key
      { written := history, told := before, loads := [some none], front := front₁.beginLoad key }
      { written := history, told := before ++ [.put x], loads := [some none],
        front := ((front₁.beginLoad key).apply key (.put x)).2 } := by
    refine .tell _ (hdue _ (List.mem_append_right _ List.mem_cons_self)) fun h => ?_
    exact (List.nodup_append.mp hnodup).2.2 _ h _ List.mem_cons_self rfl
  have hfinish : Step key
      { written := history, told := before ++ [.put x], loads := [some none],
        front := ((front₁.beginLoad key).apply key (.put x)).2 }
      { written := history, told := before ++ [.put x],
        front := (((front₁.beginLoad key).apply key (.put x)).2.finishLoad key none).2 } := by
    have h : Step key _ _ := .finish
      { written := history, told := before ++ [.put x], loads := [some none],
        front := ((front₁.beginLoad key).apply key (.put x)).2 }
      (show [some none] = [] ++ some none :: [] from rfl)
    exact h
  have hcell : (((front₁.beginLoad key).apply key (.put x)).2.finishLoad key none).2.cell? key =
      some { value := some x.value, version := x.version, loads := 0 } := by
    rw [Front.finishLoad, Front.cell?_step, if_pos rfl, Front.apply, Front.cell?_step, if_pos rfl,
      Front.beginLoad, Front.cell?_set, if_pos rfl, hcell₁]
    show (Front.Entry.settle none (Front.Entry.apply (.put x) (some ⟨none, 0, 1⟩)).1).1 = _
    rw [Front.Entry.apply_put hpos]
    rfl
  -- no later announcement takes the value away
  obtain ⟨front, hlive, hrest⟩ := steps_tell_live key after
    { written := history, told := before ++ [.put x],
      front := (((front₁.beginLoad key).apply key (.put x)).2.finishLoad key none).2 } _ hcell
    (by simp) (fun m hm => Nat.le_of_lt (hafter m hm))
    (fun c hc => hdue c (List.mem_append_right _ (List.mem_cons_of_mem _ hc)))
    (by simpa using hnodup)
  refine ⟨{ written := history, told := before ++ .put x :: after, front },
    ⟨{}, Front.cell?_clear {} key, ?_⟩,
    rfl, rfl, rfl, hnow, hlive⟩
  rw [show before ++ [Change.put x] ++ after = before ++ .put x :: after by simp] at hrest
  exact (((((hwrite.trans htell).tail hbegin).tail hask).tail htellx).tail hfinish).trans hrest

/-! ## Convergence -/

/-- **Late announcements lead the key back to the last write, whatever reads overlap with them,
unless this is a removal and some write outlasts it on arrival.** In that case some run ends with a
value of a key that has been removed. -/
theorem converges_iff {history order : List Change} (key : Bytes)
    (increasing : history.Pairwise (·.version < ·.version)) (arrival : order.Perm history) :
    (∀ r, Reach key r → r.written = history → r.told = order → r.loads = [] → r.Converged key) ↔
      ¬ ((∃ n, history.getLast? = some (.removed n)) ∧ Outlasting order) := by
  constructor
  · rintro hall ⟨⟨n, removed⟩, outlasting⟩
    obtain ⟨r, hreach, hwritten, htold, hloads, hnow, hlive⟩ :=
      exists_run key increasing arrival removed outlasting
    exact hlive ((hall r hreach hwritten htold hloads).2 hnow)
  · intro hnot r hreach hwritten htold hloads
    have f := hreach.follows
    cases hcell : r.front.cell? key with
    | none => exact ⟨Or.inl hcell, fun _ => by rw [Front.get?, hcell]; rfl⟩
    | some en =>
        have hcount := f.tracks.count
        rw [hcell, hloads] at hcount
        -- without reads on their way the entry has a value, and this value was written
        obtain ⟨v, hv⟩ : ∃ v, en.value = some v := by
          cases hv : en.value with
          | some v => exact ⟨v, rfl⟩
          | none => exact absurd hcount (f.tracks.needed hcell hv)
        have hput := f.tracks.value hcell hv
        obtain ⟨last, hlast⟩ : ∃ last, r.written.getLast? = some last := by
          cases hl : r.written.getLast? with
          | some last => exact ⟨last, rfl⟩
          | none =>
              rw [List.getLast?_eq_none_iff.mp hl] at hput
              cases hput
        have harrived : last ∈ r.told := by
          rw [htold, arrival.mem_iff, ← hwritten]
          exact last_mem hlast
        have hnow : r.now = last.live? := by
          rw [now, hlast]
          rfl
        cases last with
        | removed n =>
            refine absurd ⟨⟨n, hwritten ▸ hlast⟩, ?_⟩ hnot
            obtain ⟨before, after, hsplit, hpos, hafter⟩ := f.outlasts hlast harrived hcell hv
            exact ⟨⟨v, en.version⟩, before, after, htold ▸ hsplit, hpos, hafter⟩
        | put x =>
            have hversion : en.version = x.version := by
              refine Classical.byContradiction fun hne => ?_
              exact (f.settled hlast harrived en hcell hne).2 (by simp [Change.live?]) hloads
            have heq := eq_of_version_eq f.increasing hput (last_mem hlast) hversion
            cases heq
            refine ⟨Or.inr ⟨en, _, hcell, hnow, hv, rfl⟩, fun h => ?_⟩
            rw [hnow] at h
            cases h

/-- A removal whose announcement arrives before that of the write it removes: a read that sets out
between the two leaves the removed value in the near cache. -/
theorem removal_overtakes_write : ∃ r, Reach [1] r ∧ r.written = [.put ⟨[2], 1⟩, .removed 2] ∧
    r.told = [.removed 2, .put ⟨[2], 1⟩] ∧ r.loads = [] ∧ ¬ r.Converged [1] := by
  have increasing : [Change.put ⟨[2], 1⟩, .removed 2].Pairwise (·.version < ·.version) := by
    simp [Change.version]
  obtain ⟨r, hreach, hwritten, htold, hloads, hnow, hlive⟩ :=
    exists_run [1] increasing (.swap _ _ []) rfl
      ⟨⟨[2], 1⟩, [.removed 2], [], rfl, Nat.one_pos, fun m hm => by cases hm⟩
  exact ⟨r, hreach, hwritten, htold, hloads, fun h => hlive (h.2 hnow)⟩

/-- Two writes that are announced the wrong way round. -/
theorem swapped_writes_converge :
    (¬ ∃ n, [Change.put ⟨[2], 1⟩, .put ⟨[3], 2⟩].getLast? = some (.removed n)) ∧
      ∀ r, Reach [1] r → r.written = [.put ⟨[2], 1⟩, .put ⟨[3], 2⟩] →
        r.told = [.put ⟨[3], 2⟩, .put ⟨[2], 1⟩] → r.loads = [] → r.Converged [1] := by
  have increasing : [Change.put ⟨[2], 1⟩, .put ⟨[3], 2⟩].Pairwise (·.version < ·.version) := by
    simp [Change.version]
  have hlast : ¬ ∃ n, [Change.put ⟨[2], 1⟩, .put ⟨[3], 2⟩].getLast? = some (.removed n) := by
    rintro ⟨n, hn⟩
    cases hn
  exact ⟨hlast, (converges_iff [1] increasing (.swap _ _ [])).mpr fun h => hlast h.1⟩

end Race

end NearCache
