import Mathlib.Data.List.Infix
import Mathlib.Data.List.Nodup
import NearCache.Config

/-!
# Which of its listed caches a node starts with

A node's list of caches is sorted in one pass that remembers the valid names it has met. What comes
of it can be said entry by entry and without a memory: an entry is accepted if it is valid and no
entry before it, valid or not, bears its name (`Leads`); any other entry is objected to, for its
blank name or else for being a repetition (`objection`).

The two agree because only valid names are remembered and only valid names are looked up: as long as
the memory and the entries passed so far have the same valid names (`Recalls`), it does not matter
that the memory leaves out the others. `sortCaches_sorted` says so, and what follows of it: every
valid name is accepted exactly once, no entry is lost, and the accepted entries pass a second sorting
unchanged.
-/

namespace NearCache

namespace NodeConfig

/-! ## Entries among those before them -/

/-- The entry is valid and the first of its name. -/
def Leads (earlier : List CacheConfig) (c : CacheConfig) : Prop :=
  c.check = .ok () ∧ c.name ∉ earlier.map CacheConfig.name

instance (earlier : List CacheConfig) (c : CacheConfig) : Decidable (Leads earlier c) :=
  inferInstanceAs (Decidable (_ ∧ _))

/-- What is wrong with an entry that is not accepted: a valid one can only be a repetition. -/
def objection (node : String) (c : CacheConfig) : Fault :=
  match c.check with
  | .error e => e
  | .ok () => .config (.repeatedCache c.name node)

/-- The entries of a list, each with all that come before it, in another list or in this one. -/
def inContext (before cs : List CacheConfig) : List (List CacheConfig × CacheConfig) :=
  (cs.inits.map (before ++ ·)).zip cs

/-- The entries that are the first of their names. -/
def leaders (before cs : List CacheConfig) : List CacheConfig :=
  ((inContext before cs).filter fun e => Leads e.1 e.2).map Prod.snd

/-- What is wrong with the other entries. -/
def objections (node : String) (before cs : List CacheConfig) : List Fault :=
  ((inContext before cs).filter fun e => ¬ Leads e.1 e.2).map fun e => objection node e.2

/-- What is made of a node's list of caches. -/
structure SortedOut (n : NodeConfig) (accepted : List CacheConfig) (rejected : List Fault) :
    Prop where
  /-- The accepted entries are those that are the first of their names. -/
  accepts : accepted =
    ((n.caches.inits.zip n.caches).filter fun e => Leads e.1 e.2).map Prod.snd
  /-- To every other entry there is one objection. -/
  rejects : rejected =
    ((n.caches.inits.zip n.caches).filter fun e => ¬ Leads e.1 e.2).map
      fun e => objection n.name e.2
  distinct : (accepted.map CacheConfig.name).Nodup
  /-- A valid name that is listed is accepted once. -/
  once : ∀ c ∈ n.caches, c.check = .ok () →
    (accepted.map CacheConfig.name).count c.name = 1
  /-- No entry is lost. -/
  total : accepted.length + rejected.length = n.caches.length
  /-- Whichever node lists the accepted entries, all of them are accepted. -/
  again : ∀ m : NodeConfig, { m with caches := accepted }.sortCaches = (accepted, [])

variable {node : String} {before cs : List CacheConfig} {c : CacheConfig}

theorem inContext_cons (before : List CacheConfig) (c : CacheConfig) (cs : List CacheConfig) :
    inContext before (c :: cs) = (before, c) :: inContext (before ++ [c]) cs := by
  have hnext : (before ++ ·) ∘ (c :: ·) = (before ++ [c] ++ · : List CacheConfig → _) := by
    funext later
    simp
  unfold inContext
  rw [List.inits_cons, List.map_cons, List.map_map, hnext, List.append_nil, List.zip_cons_cons]

theorem leaders_of_leads (h : Leads before c) :
    leaders before (c :: cs) = c :: leaders (before ++ [c]) cs := by
  simp [leaders, inContext_cons, h]

theorem leaders_of_not_leads (h : ¬ Leads before c) :
    leaders before (c :: cs) = leaders (before ++ [c]) cs := by
  simp [leaders, inContext_cons, h]

theorem objections_of_leads (h : Leads before c) :
    objections node before (c :: cs) = objections node (before ++ [c]) cs := by
  simp [objections, inContext_cons, h]

theorem objections_of_not_leads (h : ¬ Leads before c) :
    objections node before (c :: cs) =
      objection node c :: objections node (before ++ [c]) cs := by
  simp [objections, inContext_cons, h]

/-! ## The pass -/

/-- The remembered names are the valid ones among the entries passed. -/
def Recalls (seen : List String) (before : List CacheConfig) : Prop :=
  ∀ c : CacheConfig, c.check = .ok () → (c.name ∈ seen ↔ c.name ∈ before.map CacheConfig.name)

theorem recalls_nil : Recalls [] [] := fun _ _ => Iff.rfl

/-- Validity is a matter of the name. -/
theorem check_eq_of_name_eq {d : CacheConfig} (h : c.name = d.name) : c.check = d.check := by
  rw [CacheConfig.check, CacheConfig.check, h]

/-- An invalid name need not be remembered, for no valid entry bears it. -/
theorem Recalls.invalid {seen : List String} (h : Recalls seen before) {e : Fault}
    (hc : c.check = .error e) : Recalls seen (before ++ [c]) := by
  intro d hd
  have hne : d.name ≠ c.name := by
    intro heq
    rw [check_eq_of_name_eq heq, hc] at hd
    cases hd
  rw [h d hd, List.map_append, List.mem_append, List.map_singleton, List.mem_singleton]
  exact (or_iff_left hne).symm

theorem Recalls.known {seen : List String} (h : Recalls seen before) (hc : c.name ∈ seen) :
    Recalls seen (before ++ [c]) := by
  intro d hd
  rw [List.map_append, List.mem_append, ← h d hd, List.map_singleton, List.mem_singleton]
  refine ⟨Or.inl, ?_⟩
  rintro (hseen | heq)
  · exact hseen
  · exact heq ▸ hc

theorem Recalls.new {seen : List String} (h : Recalls seen before) :
    Recalls (c.name :: seen) (before ++ [c]) := by
  intro d hd
  rw [List.map_append, List.mem_append, ← h d hd, List.map_singleton, List.mem_singleton,
    List.mem_cons, or_comm]

/-- The pass accepts the first entry of each valid name, and objects to the others. -/
theorem sortFrom_eq (node : String) (cs : List CacheConfig) :
    ∀ {seen : List String} {before : List CacheConfig}, Recalls seen before →
      sortFrom node seen cs = (leaders before cs, objections node before cs) := by
  induction cs with
  | nil => intro seen before _; rfl
  | cons c cs ih =>
      intro seen before h
      unfold sortFrom
      cases hc : c.check with
      | error e =>
          have hleads : ¬ Leads before c := fun hl => by rw [hl.1] at hc; cases hc
          have hobjection : objection node c = e := by rw [objection, hc]
          dsimp only
          rw [ih (h.invalid hc), leaders_of_not_leads hleads, objections_of_not_leads hleads,
            hobjection]
      | ok u =>
          dsimp only
          by_cases hseen : c.name ∈ seen
          · have hleads : ¬ Leads before c := fun hl => hl.2 ((h c hc).mp hseen)
            have hobjection : objection node c = .config (.repeatedCache c.name node) := by
              rw [objection, hc]
            rw [if_pos hseen, ih (h.known hseen), leaders_of_not_leads hleads,
              objections_of_not_leads hleads, hobjection]
          · have hleads : Leads before c := ⟨hc, fun hname => hseen ((h c hc).mpr hname)⟩
            rw [if_neg hseen, ih h.new, leaders_of_leads hleads, objections_of_leads hleads]

theorem sortCaches_eq (n : NodeConfig) :
    n.sortCaches = (leaders [] n.caches, objections n.name [] n.caches) :=
  sortFrom_eq n.name n.caches recalls_nil

/-! ## What follows -/

theorem mem_leaders (cs : List CacheConfig) : ∀ {before : List CacheConfig},
    c ∈ leaders before cs → c ∈ cs ∧ Leads before c := by
  induction cs with
  | nil => intro before h; cases h
  | cons d cs ih =>
      intro before h
      have hrest : c ∈ leaders (before ++ [d]) cs → c ∈ d :: cs ∧ Leads before c := by
        intro hc
        obtain ⟨hmem, hvalid, hname⟩ := ih hc
        rw [List.map_append, List.mem_append, not_or] at hname
        exact ⟨List.mem_cons_of_mem _ hmem, hvalid, hname.1⟩
      by_cases hd : Leads before d
      · rw [leaders_of_leads hd, List.mem_cons] at h
        rcases h with rfl | hc
        · exact ⟨List.mem_cons_self, hd⟩
        · exact hrest hc
      · rw [leaders_of_not_leads hd] at h
        exact hrest h

/-- A valid name that is new in a list is the name of an accepted entry. -/
theorem name_mem_leaders (hc : c.check = .ok ()) (cs : List CacheConfig) :
    ∀ {before : List CacheConfig}, c.name ∈ cs.map CacheConfig.name →
      c.name ∉ before.map CacheConfig.name →
        c.name ∈ (leaders before cs).map CacheConfig.name := by
  induction cs with
  | nil => intro before h _; cases h
  | cons d cs ih =>
      intro before h hnew
      by_cases hname : c.name = d.name
      · have hd : Leads before d := ⟨check_eq_of_name_eq hname ▸ hc, hname ▸ hnew⟩
        rw [leaders_of_leads hd, hname]
        exact List.mem_cons_self
      · have hmem : c.name ∈ (leaders (before ++ [d]) cs).map CacheConfig.name := by
          refine ih ((List.mem_cons.mp h).resolve_left hname) ?_
          rw [List.map_append, List.mem_append, not_or]
          exact ⟨hnew, fun heq => hname (List.mem_singleton.mp heq)⟩
        by_cases hd : Leads before d
        · rw [leaders_of_leads hd]
          exact List.mem_cons_of_mem _ hmem
        · rwa [leaders_of_not_leads hd]

theorem nodup_leaders (cs : List CacheConfig) : ∀ before : List CacheConfig,
    ((leaders before cs).map CacheConfig.name).Nodup := by
  induction cs with
  | nil => intro before; exact List.nodup_nil
  | cons c cs ih =>
      intro before
      by_cases hc : Leads before c
      · rw [leaders_of_leads hc, List.map_cons, List.nodup_cons]
        refine ⟨fun hmem => ?_, ih _⟩
        obtain ⟨d, hd, hname⟩ := List.mem_map.mp hmem
        refine (mem_leaders cs hd).2.2 ?_
        rw [hname, List.map_append, List.mem_append]
        exact Or.inr List.mem_cons_self
      · rw [leaders_of_not_leads hc]
        exact ih _

/-- Every entry is accepted or objected to, and none is both. -/
theorem length_leaders_add (node : String) (before cs : List CacheConfig) :
    (leaders before cs).length + (objections node before cs).length = cs.length := by
  have hlength : (inContext before cs).length = cs.length := by
    simp [inContext]
  have hsplit := List.length_eq_length_filter_add (l := inContext before cs)
    fun e => decide (Leads e.1 e.2)
  rw [hlength] at hsplit
  rw [leaders, objections, List.length_map, List.length_map, hsplit]
  simp

/-- A list of valid entries with names of their own is accepted as it is. -/
theorem sortFrom_eq_self (node : String) (cs : List CacheConfig) : ∀ seen : List String,
    (∀ c ∈ cs, c.check = .ok ()) → (cs.map CacheConfig.name).Nodup →
      (∀ c ∈ cs, c.name ∉ seen) → sortFrom node seen cs = (cs, []) := by
  induction cs with
  | nil => intro seen _ _ _; rfl
  | cons c cs ih =>
      intro seen hvalid hdistinct hnew
      rw [List.map_cons, List.nodup_cons] at hdistinct
      have hrest : sortFrom node (c.name :: seen) cs = (cs, []) := by
        refine ih _ (fun d hd => hvalid d (List.mem_cons_of_mem _ hd)) hdistinct.2 fun d hd => ?_
        rw [List.mem_cons, not_or]
        refine ⟨fun heq => hdistinct.1 ?_, hnew d (List.mem_cons_of_mem _ hd)⟩
        exact heq ▸ List.mem_map_of_mem hd
      unfold sortFrom
      rw [hvalid c List.mem_cons_self]
      dsimp only
      rw [if_neg (hnew c List.mem_cons_self), hrest]

/-- **Of each valid name exactly the first entry is accepted, and every other entry is objected
to**, both in the order of the list. So the accepted names are distinct, every valid name is among
them, accepted and rejected are as many as there are entries, and sorting what was accepted once
more rejects nothing. -/
theorem sortCaches_sorted (n : NodeConfig) : SortedOut n n.sortCaches.1 n.sortCaches.2 := by
  have hcontext : inContext [] n.caches = n.caches.inits.zip n.caches := by
    simp [inContext]
  rw [sortCaches_eq]
  refine ⟨?_, ?_, nodup_leaders n.caches [], fun c hc hvalid => ?_,
    length_leaders_add n.name [] n.caches, fun m => ?_⟩
  · rw [← hcontext]
    rfl
  · rw [← hcontext]
    rfl
  · have hname : c.name ∈ (leaders [] n.caches).map CacheConfig.name :=
      name_mem_leaders hvalid n.caches (List.mem_map_of_mem hc) List.not_mem_nil
    exact List.count_eq_one_of_mem (nodup_leaders n.caches []) hname
  · refine sortFrom_eq_self m.name _ [] (fun c hc => ?_) (nodup_leaders n.caches [])
      fun c _ => List.not_mem_nil
    exact (mem_leaders n.caches hc).2.1

/-- A blank entry, and two entries of one name with different settings. -/
example :
    let first : CacheConfig := { name := "x", backups := 1 }
    sortCaches { name := "a", caches := [first, { name := " " }, { name := "x", backups := 2 },
        { name := "y" }] } =
      ([first, { name := "y" }],
        [.config .blankCacheName, .config (.repeatedCache "x" "a")]) := by decide

end NodeConfig

end NearCache
