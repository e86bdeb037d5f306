import NearCache.Proofs.Exposition.Board

/-!
# A board keeps its families in step

A board remembers labels twice: once in each family, by their digests, and once on its own, by
their values. As long as the labels that are recorded are told apart by their digests, the two stay
in step (`Board.InStep`), and a family is a map from labels to numbers: recording sets one label and
leaves the others alone (`InStep.shows_record`), dropping takes one away (`InStep.shows_drop`), and
observing leaves what is live and nothing else (`InStep.observe`).
-/

namespace NearCache

/-- No two of these labels have the same digest. -/
def Labels.ToldApart (S : List Labels) : Prop :=
  ∀ l ∈ S, ∀ l' ∈ S, l.digest = l'.digest → l = l'

instance (S : List Labels) : Decidable (Labels.ToldApart S) :=
  inferInstanceAs (Decidable (∀ l ∈ S, ∀ l' ∈ S, l.digest = l'.digest → l = l'))

namespace Board

variable {b : Board} {S : List Labels}

/-- The family of a gauge. -/
def family (b : Board) (g : Gauge) : Family :=
  (b.families.find? fun f => f.gauge = g).getD ⟨g, ∅⟩

/-- What the family of a gauge shows: labels and numbers. -/
def shown (b : Board) (g : Gauge) : List (Labels × Nat) := (b.family g).series.values

/-- The family of a gauge has a number for these labels. -/
def Shows (b : Board) (g : Gauge) (l : Labels) (n : Nat) : Prop :=
  (b.family g).series.get? l.digest = some (l, n)

/-- The families and the labels in use agree. All labels are from `S`. -/
structure InStep (S : List Labels) (b : Board) : Prop where
  gauges : b.families.map (·.gauge) = Gauge.all
  /-- A series is known by the digest of its labels. -/
  keyed : ∀ {g d l n}, (b.family g).series.get? d = some (l, n) → l ∈ S ∧ l.digest = d
  named : ∀ {key l}, b.series.get? key = some l → key = l.values
  inUse : ∀ {g l}, b.series.get? l.values = some l ↔ ∃ n, b.Shows g l n

/-! ## The family of a gauge -/

/-- A change of every family is a change of the family of each gauge. -/
theorem family_map (hg : b.families.map (·.gauge) = Gauge.all) {F : Family → Family}
    (hF : ∀ f, (F f).gauge = f.gauge) {b' : Board} (hb : b'.families = b.families.map F)
    (g : Gauge) : b'.family g = F (b.family g) := by
  have hfind : (b.families.map F).find? (fun f => f.gauge = g) =
      (b.families.find? fun f => f.gauge = g).map F := by
    rw [List.find?_map]
    congr 2
    funext f
    exact decide_eq_decide.mpr (by rw [hF])
  have hsome : (b.families.find? fun f => f.gauge = g).isSome := by
    rw [List.find?_isSome]
    have hmem : g ∈ b.families.map (·.gauge) := by
      rw [hg]
      cases g <;> decide
    obtain ⟨f, hf, hfg⟩ := List.mem_map.mp hmem
    exact ⟨f, hf, decide_eq_true hfg⟩
  unfold family
  rw [hb, hfind]
  obtain ⟨f, hf⟩ := Option.isSome_iff_exists.mp hsome
  rw [hf]
  rfl

theorem gauge_family (b : Board) (g : Gauge) : (b.family g).gauge = g := by
  unfold family
  cases hf : b.families.find? fun f => f.gauge = g with
  | none => rfl
  | some f => simpa using List.find?_some hf

theorem family_record (hg : b.families.map (·.gauge) = Gauge.all) (e : Endpoint) (g : Gauge) :
    (b.record e).family g = (b.family g).set (.ofEndpoint e) e.snapshot :=
  family_map (F := (·.set (.ofEndpoint e) e.snapshot)) hg (fun _ => rfl) rfl g

theorem family_drop (hg : b.families.map (·.gauge) = Gauge.all) (l : Labels) (g : Gauge) :
    (b.drop l).family g = (b.family g).drop l :=
  family_map (F := (·.drop l)) hg (fun _ => rfl) rfl g

namespace InStep

theorem empty (S : List Labels) : InStep S {} where
  gauges := rfl
  keyed {g d l n} h := by cases g <;> cases h
  named h := by cases h
  inUse {g l} := by
    constructor
    · intro h; cases h
    · rintro ⟨n, h⟩; cases g <;> cases h

/-- Labels in use are from `S`. -/
theorem mem_of_get? (h : InStep S b) {key : List String} {l : Labels}
    (hl : b.series.get? key = some l) : l ∈ S := by
  obtain ⟨n, hn⟩ := h.inUse (g := .gets).mp (h.named hl ▸ hl)
  exact (h.keyed hn).1

/-! ## Recording -/

/-- The series of labels from `S` is theirs alone. -/
theorem get?_record (h : InStep S b) (apart : Labels.ToldApart S) {e : Endpoint}
    (he : Labels.ofEndpoint e ∈ S) (g : Gauge) (d : Nat) :
    ((b.record e).family g).series.get? d =
      if d = (Labels.ofEndpoint e).digest then
        some (.ofEndpoint e, Family.shown g e.snapshot)
      else (b.family g).series.get? d := by
  have hlabels : ((((b.family g).series.get? (Labels.ofEndpoint e).digest).map (·.1)).getD
      (.ofEndpoint e)) = .ofEndpoint e := by
    cases hold : (b.family g).series.get? (Labels.ofEndpoint e).digest with
    | none => rfl
    | some x =>
        obtain ⟨hx, hdigest⟩ := h.keyed (l := x.1) (n := x.2) hold
        exact apart _ hx _ he hdigest
  rw [family_record h.gauges]
  unfold Family.set
  rw [Table.get?_alter, hlabels, gauge_family]
  rfl

/-- Recording an endpoint sets the number of its labels and leaves all others alone. -/
theorem shows_record (h : InStep S b) (apart : Labels.ToldApart S) {e : Endpoint}
    (he : Labels.ofEndpoint e ∈ S) {g : Gauge} {l : Labels} {n : Nat} :
    (b.record e).Shows g l n ↔
      if l = .ofEndpoint e then n = Family.shown g e.snapshot else b.Shows g l n := by
  unfold Shows
  rw [h.get?_record apart he]
  by_cases hl : l = .ofEndpoint e
  · subst hl
    simp [eq_comm]
  · rw [if_neg hl]
    by_cases hd : l.digest = (Labels.ofEndpoint e).digest
    · rw [if_pos hd]
      constructor
      · intro heq
        cases heq
        exact absurd rfl hl
      · intro hshows
        exact absurd (apart _ (h.keyed hshows).1 _ he hd) hl
    · rw [if_neg hd]

theorem record (h : InStep S b) (apart : Labels.ToldApart S) {e : Endpoint}
    (he : Labels.ofEndpoint e ∈ S) : InStep S (b.record e) where
  gauges := by
    show (b.families.map (·.set (.ofEndpoint e) e.snapshot)).map (·.gauge) = _
    rw [List.map_map]
    exact h.gauges
  keyed {g d l n} hd := by
    rw [h.get?_record apart he] at hd
    split at hd
    · next hdigest =>
      cases hd
      exact ⟨he, hdigest.symm⟩
    · exact h.keyed hd
  named {key l} hl := by
    change (b.series.insert (Labels.ofEndpoint e).values (.ofEndpoint e)).get? key = some l at hl
    rw [Table.get?_insert] at hl
    split at hl
    · next hkey =>
      cases hl
      exact hkey
    · exact h.named hl
  inUse {g l} := by
    show (b.series.insert (Labels.ofEndpoint e).values (.ofEndpoint e)).get? l.values = some l ↔ _
    rw [Table.get?_insert]
    simp only [h.shows_record apart he]
    by_cases hl : l = .ofEndpoint e
    · subst hl
      simp
    · rw [if_neg (Labels.values_injective.ne hl)]
      simp only [if_neg hl]
      exact h.inUse

/-! ## Dropping -/

/-- Dropping labels takes away their number and leaves all others alone. -/
theorem shows_drop (h : InStep S b) (apart : Labels.ToldApart S) {k : Labels} (hk : k ∈ S)
    {g : Gauge} {l : Labels} {n : Nat} : (b.drop k).Shows g l n ↔ l ≠ k ∧ b.Shows g l n := by
  unfold Shows
  rw [family_drop h.gauges, Family.drop, Table.get?_erase]
  constructor
  · intro hl
    split at hl
    · cases hl
    · next hd => exact ⟨fun heq => hd (congrArg Labels.digest heq), hl⟩
  · rintro ⟨hne, hl⟩
    rw [if_neg fun hd => hne (apart _ (h.keyed hl).1 _ hk hd)]
    exact hl

theorem drop (h : InStep S b) (apart : Labels.ToldApart S) {k : Labels} (hk : k ∈ S) :
    InStep S (b.drop k) where
  gauges := by
    show (b.families.map (·.drop k)).map (·.gauge) = _
    rw [List.map_map]
    exact h.gauges
  keyed {g d l n} hd := by
    rw [family_drop h.gauges, Family.drop, Table.get?_erase] at hd
    split at hd
    · cases hd
    · exact h.keyed hd
  named {key l} hl := by
    change (b.series.erase k.values).get? key = some l at hl
    rw [Table.get?_erase] at hl
    split at hl
    · cases hl
    · exact h.named hl
  inUse {g l} := by
    show (b.series.erase k.values).get? l.values = some l ↔ _
    rw [Table.get?_erase]
    simp only [h.shows_drop apart hk]
    by_cases hl : l = k
    · subst hl
      simp
    · rw [if_neg (Labels.values_injective.ne hl)]
      simpa [hl] using h.inUse

/-! ## Observing -/

/-- After endpoints were recorded, their labels have their numbers. An endpoint is known by its
labels. -/
theorem recordAll (live : List Endpoint) : ∀ {b : Board}, InStep S b → Labels.ToldApart S →
    (∀ e ∈ live, Labels.ofEndpoint e ∈ S) →
      (∀ e ∈ live, ∀ e' ∈ live, Labels.ofEndpoint e = .ofEndpoint e' → e = e') →
        InStep S (live.foldl Board.record b) ∧ ∀ {g l n}, (live.foldl Board.record b).Shows g l n ↔
          (∃ e ∈ live, Labels.ofEndpoint e = l ∧ n = Family.shown g e.snapshot) ∨
            l ∉ live.map Labels.ofEndpoint ∧ b.Shows g l n := by
  induction live with
  | nil =>
      intro b h _ _ _
      refine ⟨h, fun {g l n} => ?_⟩
      simp
  | cons e live ih =>
      intro b h apart hS known
      have he := hS e List.mem_cons_self
      obtain ⟨hstep, hshows⟩ := ih (h.record apart he) apart
        (fun e' he' => hS e' (List.mem_cons_of_mem _ he'))
        (fun e' he' e'' he'' => known e' (List.mem_cons_of_mem _ he') e''
          (List.mem_cons_of_mem _ he''))
      refine ⟨hstep, fun {g l n} => hshows.trans ?_⟩
      rw [h.shows_record apart he]
      by_cases hl : l = .ofEndpoint e
      · rw [if_pos hl]
        constructor
        · rintro (⟨e', he', hlabels, hn⟩ | ⟨-, hn⟩)
          · exact Or.inl ⟨e', List.mem_cons_of_mem _ he', hlabels, hn⟩
          · exact Or.inl ⟨e, List.mem_cons_self, hl.symm, hn⟩
        · rintro (⟨e', he', hlabels, hn⟩ | ⟨hnot, -⟩)
          · -- the last endpoint of these labels counts, and it is the same
            obtain rfl := known e' he' e List.mem_cons_self (hlabels.trans hl)
            by_cases hlive : e' ∈ live
            · exact Or.inl ⟨e', hlive, hlabels, hn⟩
            · refine Or.inr ⟨fun hmem => ?_, hn⟩
              obtain ⟨e'', he'', hsame⟩ := List.mem_map.mp hmem
              have heq := known e'' (List.mem_cons_of_mem _ he'') e' List.mem_cons_self
                (hsame.trans hl)
              exact hlive (heq ▸ he'')
          · exact absurd (hl ▸ List.mem_cons_self) hnot
      · simp [hl, Ne.symm hl]

/-- Labels that are dropped one after the other are gone. -/
theorem dropAll (stale : List Labels) : ∀ {b : Board}, InStep S b → Labels.ToldApart S →
    (∀ k ∈ stale, k ∈ S) → InStep S (stale.foldl Board.drop b) ∧
      ∀ {g l n}, (stale.foldl Board.drop b).Shows g l n ↔ l ∉ stale ∧ b.Shows g l n := by
  induction stale with
  | nil =>
      intro b h _ _
      refine ⟨h, fun {g l n} => ?_⟩
      simp
  | cons k stale ih =>
      intro b h apart hS
      have hk := hS k List.mem_cons_self
      obtain ⟨hstep, hshows⟩ := ih (h.drop apart hk) apart
        fun k' hk' => hS k' (List.mem_cons_of_mem _ hk')
      refine ⟨hstep, fun {g l n} => hshows.trans ?_⟩
      rw [h.shows_drop apart hk, List.mem_cons, not_or, and_left_comm, and_assoc]

/-- After an observation the labels of live endpoints have their numbers, and no others are left. -/
theorem observe (h : InStep S b) (apart : Labels.ToldApart S) {c : Cluster}
    (hS : ∀ e ∈ liveEndpoints c, Labels.ofEndpoint e ∈ S)
    (known : ∀ e ∈ liveEndpoints c, ∀ e' ∈ liveEndpoints c,
      Labels.ofEndpoint e = .ofEndpoint e' → e = e') :
    InStep S (b.observe c) ∧ ∀ {g l n}, (b.observe c).Shows g l n ↔
      ∃ e ∈ liveEndpoints c, Labels.ofEndpoint e = l ∧ n = Family.shown g e.snapshot := by
  obtain ⟨hrecorded, hshows⟩ := recordAll (liveEndpoints c) h apart hS known
  obtain ⟨recorded, hb⟩ : ∃ b', b' = (liveEndpoints c).foldl Board.record b := ⟨_, rfl⟩
  rw [← hb] at hrecorded
  simp only [← hb] at hshows
  obtain ⟨stale, hstale⟩ : ∃ stale, stale = recorded.series.values.filter fun l =>
    decide (l ∉ (liveEndpoints c).map Labels.ofEndpoint) := ⟨_, rfl⟩
  have hfrom : ∀ k ∈ stale, k ∈ S := by
    intro k hk
    rw [hstale, List.mem_filter, Table.mem_values_iff] at hk
    obtain ⟨key, hkey⟩ := hk.1
    exact hrecorded.mem_of_get? hkey
  obtain ⟨hdropped, hleft⟩ := dropAll stale hrecorded apart hfrom
  have hobserve : b.observe c = stale.foldl Board.drop recorded := by
    rw [hstale, hb]
    rfl
  rw [hobserve]
  refine ⟨hdropped, fun {g l n} => hleft.trans ?_⟩
  rw [hshows]
  constructor
  · rintro ⟨hkept, hlive | ⟨hnot, hold⟩⟩
    · exact hlive
    · -- labels in use that are not live are stale
      have hrec : recorded.Shows g l n := hshows.mpr (Or.inr ⟨hnot, hold⟩)
      have huse := hrecorded.inUse.mpr ⟨n, hrec⟩
      refine absurd ?_ hkept
      rw [hstale, List.mem_filter, Table.mem_values_iff]
      exact ⟨⟨_, huse⟩, decide_eq_true hnot⟩
  · rintro ⟨e, he, rfl, hn⟩
    refine ⟨?_, Or.inl ⟨e, he, rfl, hn⟩⟩
    rw [hstale, List.mem_filter]
    rintro ⟨-, hnot⟩
    exact of_decide_eq_true hnot (List.mem_map_of_mem he)

/-! ## Lists of series -/

/-- What a family shows are its series. -/
theorem mem_shown_iff (h : InStep S b) {g : Gauge} {l : Labels} {n : Nat} :
    (l, n) ∈ b.shown g ↔ b.Shows g l n := by
  unfold shown
  rw [Table.mem_values_iff]
  constructor
  · rintro ⟨d, hd⟩
    obtain ⟨-, rfl⟩ := h.keyed hd
    exact hd
  · intro hl
    exact ⟨_, hl⟩

/-- A family shows labels once. -/
theorem nodup_shown (h : InStep S b) (g : Gauge) : ((b.shown g).map Prod.fst).Nodup := by
  unfold shown Table.values
  rw [List.map_map]
  refine List.Nodup.map_on ?_ (Table.nodup_entries _)
  rintro ⟨d, l, n⟩ hd ⟨d', l', n'⟩ hd' hlabels
  obtain rfl : l = l' := hlabels
  rw [Table.mem_entries_iff] at hd hd'
  obtain ⟨-, rfl⟩ := h.keyed hd
  obtain ⟨-, rfl⟩ := h.keyed hd'
  rw [hd] at hd'
  cases hd'
  rfl

theorem nodup_inUse (h : InStep S b) : b.series.values.Nodup := by
  unfold Table.values
  refine List.Nodup.map_on ?_ (Table.nodup_entries _)
  rintro ⟨key, l⟩ hl ⟨key', l'⟩ hl' rfl
  rw [Table.mem_entries_iff] at hl hl'
  rw [h.named hl, h.named hl']

/-- The labels in use are those that a family shows. -/
theorem labels_perm (h : InStep S b) (g : Gauge) :
    ((b.shown g).map Prod.fst).Perm b.series.values := by
  refine (List.perm_ext_iff_of_nodup (h.nodup_shown g) h.nodup_inUse).mpr fun l => ?_
  have huse : l ∈ b.series.values ↔ b.series.get? l.values = some l := by
    rw [Table.mem_values_iff]
    constructor
    · rintro ⟨key, hkey⟩
      rwa [h.named hkey] at hkey
    · intro hl
      exact ⟨_, hl⟩
  rw [huse, h.inUse (g := g), List.mem_map]
  constructor
  · rintro ⟨⟨l, n⟩, hmem, rfl⟩
    exact ⟨n, h.mem_shown_iff.mp hmem⟩
  · rintro ⟨n, hn⟩
    exact ⟨(l, n), h.mem_shown_iff.mpr hn, rfl⟩

end InStep

end Board

end NearCache
