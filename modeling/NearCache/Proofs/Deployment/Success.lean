import NearCache.Proofs.Deployment.Additions
import NearCache.Proofs.Session.Outcomes

/-!
# When a deployment succeeds

A deployment needs what its check asks for, names of its own that do not get in each other's way
(`Deployment.Apart`), and names that the cluster has not given away (`Cluster.Free`). Nothing else
can stop it (`Agrees.apply_ok_iff`).

Both loops of a deployment are taken apart in the same way: either all goes well, or there is a
first item that fails, all items before it went well, and it is known for what reason one fails
(`Agrees.startNodes_cases`, `Agrees.createLate_cases`).
-/

namespace NearCache

/-- A check of several things succeeds if it succeeds for each. -/
theorem Outcome.forM_eq_ok_iff {α : Type} {f : α → Outcome Unit} (xs : List α) :
    xs.forM f = .ok () ↔ ∀ x ∈ xs, f x = .ok () := by
  induction xs with
  | nil => simp [pure, Except.pure]
  | cons x xs ih =>
      show (do f x; xs.forM f) = .ok () ↔ _
      rw [List.forall_mem_cons, ← ih]
      cases f x <;> simp [bind, Except.bind]

namespace Deployment

/-- The names of a deployment do not get in each other's way. -/
structure Apart (d : Deployment) : Prop where
  nodes : (d.nodes.map NodeConfig.name).Nodup
  lates : (d.lates.map CacheConfig.name).Nodup
  statics : ∀ config ∈ d.statics, ∀ late ∈ d.lates, config.name ≠ late.name

/-- What a deployment needs to pass its check. -/
theorem check_eq_ok_iff (d : Deployment) :
    d.check = .ok () ↔ (∀ n ∈ d.nodes, n.check = .ok ()) ∧
      ∀ l ∈ d.lateCaches, l.cache.check = .ok () ∧ l.creator ∈ d.nodes.map NodeConfig.name := by
  have hlate : ∀ l, d.checkLate l = .ok () ↔
      l.cache.check = .ok () ∧ l.creator ∈ d.nodes.map NodeConfig.name := by
    intro l
    have hany : d.nodes.any (·.name = l.creator) = true ↔
        l.creator ∈ d.nodes.map NodeConfig.name := by
      simp [List.any_eq_true]
    unfold checkLate
    rw [← hany]
    cases l.cache.check with
    | error e => simp [bind, Except.bind]
    | ok u => cases d.nodes.any (·.name = l.creator) <;> simp [bind, Except.bind]
  unfold check
  rw [← Outcome.forM_eq_ok_iff]
  simp only [← hlate]
  rw [← Outcome.forM_eq_ok_iff]
  cases d.nodes.forM NodeConfig.check <;> simp [bind, Except.bind]

/-- The first nodes of a deployment pass its check by themselves. -/
theorem check_nodes {d : Deployment} (check : d.check = .ok ()) {before rest : List NodeConfig}
    (parts : d.nodes = before ++ rest) : ({ nodes := before } : Deployment).check = .ok () := by
  refine (check_eq_ok_iff _).mpr ⟨fun n hn => ?_, fun _ hmem => by cases hmem⟩
  refine (d.check_eq_ok_iff.mp check).1 n ?_
  rw [parts]
  exact List.mem_append_left _ hn

/-- A deployment passes its check without its last late caches. -/
theorem check_lates {d : Deployment} (check : d.check = .ok ()) {before rest : List LateCache}
    (parts : d.lateCaches = before ++ rest) :
    ({ d with lateCaches := before } : Deployment).check = .ok () := by
  obtain ⟨hnodes, hlates⟩ := d.check_eq_ok_iff.mp check
  refine (check_eq_ok_iff _).mpr ⟨hnodes, fun l hl => hlates l ?_⟩
  rw [parts]
  exact List.mem_append_left _ hl

end Deployment

namespace Cluster

variable {c c' : Cluster}

/-- A cluster has not given away the names of a deployment. -/
structure Free (c : Cluster) (d : Deployment) : Prop where
  nodes : ∀ n ∈ d.nodes, ¬ c.Bears n.name
  lates : ∀ late ∈ d.lates, c.registry.get? late.name = none

/-! ## Nodes -/

/-- The names in use are those on the roster. -/
theorem Linked.bears_iff_mem (l : Linked c) {name : String} :
    c.Bears name ↔ name ∈ c.roster.map Member.name := by
  rw [← l.bears_iff]
  simp [List.any_eq_true]

theorem names_of_became {ns : List NodeConfig} {ms : List Member}
    (h : List.Forall₂ Became ns ms) : ms.map Member.name = ns.map NodeConfig.name := by
  induction h with
  | nil => rfl
  | cons hbecame _ ih =>
      rw [List.map_cons, List.map_cons, ih, hbecame]
      rfl

/-- The nodes that started bear their names beside those that ran before. -/
theorem startNodes_names {ns : List NodeConfig} {ids : List MemberId}
    (h : c.startNodes ns = (.ok ids, c')) :
    c'.roster.map Member.name = c.roster.map Member.name ++ ns.map NodeConfig.name := by
  obtain ⟨ms, hroster, -, hbecame⟩ := startNodes_ok ns h
  rw [hroster, List.map_append, names_of_became hbecame]

/-- Why a node cannot enrol. -/
theorem Linked.enrol_eq_error (l : Linked c) {n : NodeConfig} {err : Fault}
    (h : c.enrol n = .error err) :
    n.check = .error err ∨ c.Bears n.name ∧ err = .nodeNameTaken n.name := by
  rw [enrol_eq] at h
  cases hcheck : n.check with
  | error err' =>
      rw [hcheck] at h
      cases h
      exact Or.inl rfl
  | ok u =>
      rw [hcheck] at h
      dsimp only at h
      split at h
      · next htaken =>
        cases h
        exact Or.inr ⟨l.bears_iff.mp htaken, rfl⟩
      · cases h

theorem startNodes_cons {n : NodeConfig} {id : MemberId} (h : c.startNode n = (.ok id, c'))
    (rest : List NodeConfig) :
    c.startNodes (n :: rest) =
      ((c'.startNodes rest).1.map (id :: ·), (c'.startNodes rest).2) := by
  rw [startNodes, h]

/-- Nodes all start, or up to one that cannot enrol. -/
theorem Agrees.startNodes_cases (ns : List NodeConfig) :
    ∀ {c : Cluster}, Agrees c none none → Linked c →
      (∃ ids c', c.startNodes ns = (.ok ids, c')) ∨
      ∃ before n rest ids c' err, ns = before ++ n :: rest ∧
        c.startNodes before = (.ok ids, c') ∧ c'.enrol n = .error err ∧
        c.startNodes ns = (.error err, c') := by
  induction ns with
  | nil => exact fun {c} _ _ => Or.inl ⟨[], c, rfl⟩
  | cons n rest ih =>
      intro c a l
      have hstart := a.startNode l n
      have hlinked := l.deeds (l.deeds_startNode n)
      rcases hstart with ⟨a₁, ⟨err, henrol, hs⟩ | ⟨id, hs⟩⟩
      · exact Or.inr ⟨[], n, rest, [], c, err, rfl, rfl, henrol, by rw [Cluster.startNodes, hs]⟩
      · -- the rest starts on what the first node leaves, which agrees again
        cases hc : c.startNode n with
        | mk r c₁ =>
            rw [hc] at a₁ hlinked hs
            cases hs
            rcases ih a₁ hlinked with ⟨ids, c', hrest⟩ |
              ⟨before, n', rest', ids, c', err, rfl, hbefore, henrol, hrest⟩
            · refine Or.inl ⟨id :: ids, c', ?_⟩
              rw [startNodes_cons hc, hrest]
              rfl
            · refine Or.inr ⟨n :: before, n', rest', id :: ids, c', err, rfl, ?_, henrol, ?_⟩
              · rw [startNodes_cons hc, hbefore]
                rfl
              · rw [startNodes_cons hc, hrest]
                rfl

/-! ## Late caches -/

/-- A running node is found by its name. -/
theorem Linked.node_of_running (l : Linked c) {id : MemberId} {h : Host}
    (hr : c.running.get? id = some h) : c.node h.member.name = .ok id := by
  rw [l.node_eq (l.member_mem hr), l.own (running_eq_some_iff.mp hr).1]

theorem createLate_cons {late : LateCache} {id : MemberId} {i : EndpointId}
    (found : c.node late.creator = .ok id) (h : c.createFrom id late.cache = (.ok i, c'))
    (rest : List LateCache) : c.createLate (late :: rest) = c'.createLate rest := by
  rw [createLate, found]
  dsimp only
  rw [h]

/-- Late caches of running creators are all created, or up to one whose name is registered. -/
theorem Agrees.createLate_cases (ls : List LateCache) :
    ∀ {c : Cluster}, Agrees c none none → Linked c →
      (∀ l ∈ ls, l.cache.check = .ok () ∧ c.Bears l.creator) →
      (∃ c', c.createLate ls = (.ok (), c')) ∨
      ∃ before late rest c', ls = before ++ late :: rest ∧
        c.createLate before = (.ok (), c') ∧ c'.registry.contains late.cache.name = true ∧
        c.createLate ls = (.error (.cacheExists late.cache.name), c') := by
  induction ls with
  | nil => exact fun {c} _ _ _ => Or.inl ⟨c, rfl⟩
  | cons late rest ih =>
      intro c a l hlates
      obtain ⟨hcheck, id, h, hr, hname⟩ := hlates late List.mem_cons_self
      have hnode : c.node late.creator = .ok id := hname ▸ l.node_of_running hr
      rcases a.createFrom_cases l hr late.cache with
        ⟨hblank, -⟩ | ⟨-, hregistered, hcreate⟩ | ⟨-, -, i, hcreate, -⟩
      · rw [CacheConfig.check, if_pos hblank] at hcheck
        cases hcheck
      · refine Or.inr ⟨[], late, rest, c, rfl, rfl, hregistered, ?_⟩
        rw [Cluster.createLate, hnode]
        dsimp only
        rw [hcreate]
      · have a₁ := a.createFrom l id late.cache
        have l₁ := l.deeds (deeds_createFrom c id late.cache)
        have hroster := congrArg Prod.fst (staff_createFrom c id late.cache)
        cases hc : c.createFrom id late.cache with
        | mk r c₁ =>
            rw [hc] at hcreate a₁ l₁ hroster
            cases hcreate
            have hunfold := createLate_cons hnode hc
            -- whoever ran before still runs
            have hlates₁ : ∀ l' ∈ rest, l'.cache.check = .ok () ∧ c₁.Bears l'.creator := by
              intro l' hl'
              rw [l₁.bears_iff_mem, show c₁.roster = c.roster from hroster, ← l.bears_iff_mem]
              exact hlates l' (List.mem_cons_of_mem _ hl')
            rcases ih a₁ l₁ hlates₁ with ⟨c', hrest⟩ |
              ⟨before, late', rest', c', rfl, hbefore, hregistered, hrest⟩
            · exact Or.inl ⟨c', (hunfold rest).trans hrest⟩
            · exact Or.inr ⟨late :: before, late', rest', c', rfl,
                (hunfold before).trans hbefore, hregistered, (hunfold _).trans hrest⟩

/-- Late caches need different names that are free. -/
theorem createLate_free (ls : List LateCache) :
    ∀ {c : Cluster}, c.createLate ls = (.ok (), c') →
      ((ls.map LateCache.cache).map CacheConfig.name).Nodup ∧
        ∀ late ∈ ls.map LateCache.cache, c.registry.get? late.name = none := by
  induction ls with
  | nil => exact fun _ => ⟨List.nodup_nil, fun _ hmem => by cases hmem⟩
  | cons l rest ih =>
      intro c h
      obtain ⟨id, i, c₁, -, hcreate, hrest⟩ := createLate_cons_eq_ok h
      obtain ⟨free, hgains⟩ := gains_createFrom hcreate
      obtain ⟨hnodup, hfree⟩ := ih hrest
      have hrest' : ∀ late ∈ rest.map LateCache.cache,
          c.registry.get? late.name = none ∧ l.cache.name ≠ late.name := by
        intro late hmem
        simpa using (hgains.get?_eq_none_iff late.name).mp (hfree late hmem)
      refine ⟨?_, ?_⟩
      · rw [List.map_cons, List.map_cons, List.nodup_cons]
        refine ⟨fun hmem => ?_, hnodup⟩
        obtain ⟨late, hlate, hname⟩ := List.mem_map.mp hmem
        exact (hrest' late hlate).2 hname.symm
      · rw [List.map_cons, List.forall_mem_cons]
        exact ⟨free, fun late hmem => (hrest' late hmem).1⟩

/-! ## Deployments -/

theorem apply_of_check {d : Deployment} (check : d.check = .ok ()) {ids : List MemberId}
    {c₁ : Cluster} (started : c.startNodes d.nodes = (.ok ids, c₁)) :
    c.apply d = ((c₁.createLate d.lateCaches).1.map fun _ => ids,
      (c₁.createLate d.lateCaches).2) := by
  rw [Cluster.apply, check]
  dsimp only
  rw [started]

/-- A deployment that has passed its check stops at a name that is given away: `c'` is what the part
before it has made of `c`. -/
inductive Stops (c : Cluster) (d : Deployment) : Fault → Cluster → Prop where
  | node {before rest : List NodeConfig} {n : NodeConfig} {ids : List MemberId} {c' : Cluster}
      (parts : d.nodes = before ++ n :: rest)
      (done : c.apply { nodes := before } = (.ok ids, c')) (taken : c'.Bears n.name) :
      Stops c d (.nodeNameTaken n.name) c'
  | late {before rest : List LateCache} {late : LateCache} {ids : List MemberId} {c' : Cluster}
      (parts : d.lateCaches = before ++ late :: rest)
      (done : c.apply { d with lateCaches := before } = (.ok ids, c'))
      (taken : c'.registry.contains late.cache.name = true) :
      Stops c d (.cacheExists late.cache.name) c'

theorem Linked.stops_node (l : Linked c) {d : Deployment} (check : d.check = .ok ())
    {before rest : List NodeConfig} {n : NodeConfig} {ids : List MemberId} {err : Fault}
    (parts : d.nodes = before ++ n :: rest) (started : c.startNodes before = (.ok ids, c'))
    (refused : c'.enrol n = .error err) : Stops c d err c' := by
  have done : c.apply { nodes := before } = (.ok ids, c') := by
    rw [apply_of_check (Deployment.check_nodes check parts) started]
    rfl
  have l' := l.deeds (Linked.deeds_startNodes before l)
  rw [started] at l'
  rcases l'.enrol_eq_error refused with hinvalid | ⟨taken, rfl⟩
  · have hn : n ∈ d.nodes := by
      rw [parts]
      exact List.mem_append_right _ List.mem_cons_self
    rw [(d.check_eq_ok_iff.mp check).1 n hn] at hinvalid
    cases hinvalid
  · exact .node parts done taken

theorem stops_late {d : Deployment} (check : d.check = .ok ()) {ids : List MemberId}
    {c₁ : Cluster} (started : c.startNodes d.nodes = (.ok ids, c₁))
    {before rest : List LateCache} {late : LateCache}
    (parts : d.lateCaches = before ++ late :: rest)
    (created : c₁.createLate before = (.ok (), c'))
    (taken : c'.registry.contains late.cache.name = true) :
    Stops c d (.cacheExists late.cache.name) c' := by
  have done : c.apply { d with lateCaches := before } = (.ok ids, c') := by
    rw [apply_of_check (Deployment.check_lates check parts) started, created]
    rfl
  exact .late parts done taken

/-- A deployment that has passed its check succeeds or stops at a name. -/
theorem Agrees.apply_cases (a : Agrees c none none) (l : Linked c) {d : Deployment}
    (check : d.check = .ok ()) :
    (∃ ids c', c.apply d = (.ok ids, c')) ∨
      ∃ err c', c.apply d = (.error err, c') ∧ Stops c d err c' := by
  rcases a.startNodes_cases d.nodes l with
    ⟨ids, c₁, hstart⟩ | ⟨before, n, rest, ids, c', err, hparts, hbefore, hrefused, hstart⟩
  · have a₁ := Agrees.startNodes d.nodes a l
    have l₁ := l.deeds (Linked.deeds_startNodes d.nodes l)
    rw [hstart] at a₁ l₁
    -- all nodes run now, so every late cache finds its creator
    have hcreators : ∀ late ∈ d.lateCaches,
        late.cache.check = .ok () ∧ c₁.Bears late.creator := by
      intro late hlate
      obtain ⟨hcheck, hcreator⟩ := (d.check_eq_ok_iff.mp check).2 late hlate
      rw [l₁.bears_iff_mem, startNodes_names hstart]
      exact ⟨hcheck, List.mem_append_right _ hcreator⟩
    rcases a₁.createLate_cases d.lateCaches l₁ hcreators with
      ⟨c', hlate⟩ | ⟨before, late, rest, c', hparts, hbefore, htaken, hlate⟩
    · refine Or.inl ⟨ids, c', ?_⟩
      rw [apply_of_check check hstart, hlate]
      rfl
    · refine Or.inr ⟨_, c', ?_, stops_late check hstart hparts hbefore htaken⟩
      rw [apply_of_check check hstart, hlate]
      rfl
  · refine Or.inr ⟨err, c', ?_, l.stops_node check hparts hbefore hrefused⟩
    rw [Cluster.apply, check]
    dsimp only
    rw [hstart]

/-- The names in use after a deployment are those of before and those of its nodes. -/
theorem Linked.bears_apply (l : Linked c) {d : Deployment} {ids : List MemberId}
    (h : c.apply d = (.ok ids, c')) {name : String} :
    c'.Bears name ↔ c.Bears name ∨ name ∈ d.nodes.map NodeConfig.name := by
  have l' := l.deeds (l.deeds_apply d)
  rw [h] at l'
  obtain ⟨ms, hroster, -, hbecame⟩ := apply_ok h
  rw [l'.bears_iff_mem, hroster, List.map_append, List.mem_append, names_of_became hbecame,
    l.bears_iff_mem]

/-- When the nodes of a deployment have different names, a name that is in use when a node is to
start was in use before the deployment. -/
theorem Linked.bears_of_parts (l : Linked c) {ns before rest : List NodeConfig} {n : NodeConfig}
    {ids : List MemberId} (distinct : (ns.map NodeConfig.name).Nodup)
    (parts : ns = before ++ n :: rest) (done : c.apply { nodes := before } = (.ok ids, c'))
    (taken : c'.Bears n.name) : c.Bears n.name := by
  refine ((l.bears_apply done).mp taken).resolve_right fun hmem => ?_
  rw [parts, List.map_append, List.map_cons] at distinct
  exact List.disjoint_of_nodup_append distinct hmem List.mem_cons_self

/-- When a deployment keeps its caches apart, a name that is registered when a late cache is to be
created was registered before the deployment. -/
theorem registered_of_parts {d : Deployment} (apart : d.Apart) {before rest : List LateCache}
    {late : LateCache} {ids : List MemberId} (parts : d.lateCaches = before ++ late :: rest)
    (done : c.apply { d with lateCaches := before } = (.ok ids, c'))
    (taken : c'.registry.contains late.cache.name = true) :
    c.registry.contains late.cache.name = true := by
  have hlates := apart.lates
  rw [Deployment.lates, parts, List.map_append, List.map_append, List.map_cons, List.map_cons]
    at hlates
  by_contra hfree
  rw [Bool.not_eq_true, Table.contains_eq_false_iff] at hfree
  rw [← Bool.not_eq_false, Table.contains_eq_false_iff,
    (gains_apply done).get?_eq_none_iff] at taken
  refine taken ⟨hfree, fun config hconfig hname => ?_⟩
  rcases List.mem_append.mp hconfig with hstatic | hbefore
  · refine apart.statics config hstatic late.cache ?_ hname
    rw [Deployment.lates, parts, List.map_append]
    exact List.mem_append_right _ List.mem_cons_self
  · exact List.disjoint_of_nodup_append hlates (List.mem_map.mpr ⟨config, hbefore, hname⟩)
      List.mem_cons_self

/-- When a deployment keeps its names apart, the name at which it stops was not free. -/
theorem Stops.not_free {d : Deployment} {err : Fault} (h : Stops c d err c') (l : Linked c)
    (apart : d.Apart) : ¬ c.Free d := by
  intro free
  cases h with
  | node parts done taken =>
      refine free.nodes _ ?_ (l.bears_of_parts apart.nodes parts done taken)
      rw [parts]
      exact List.mem_append_right _ List.mem_cons_self
  | late parts done taken =>
      rename_i before rest late ids
      have hregistered := registered_of_parts apart parts done taken
      have hlate : late.cache ∈ d.lates := by
        rw [Deployment.lates, parts, List.map_append]
        exact List.mem_append_right _ List.mem_cons_self
      rw [Table.contains_eq_false_iff.mpr (free.lates _ hlate)] at hregistered
      cases hregistered

/-- A deployment that succeeds keeps its names apart, and they were free. -/
theorem Linked.apart_of_apply (l : Linked c) {d : Deployment} {ids : List MemberId}
    (h : c.apply d = (.ok ids, c')) : d.Apart ∧ c.Free d := by
  obtain ⟨c₁, hstart, hlate⟩ := apply_eq_ok h
  have l₁ := l.deeds (Linked.deeds_startNodes d.nodes l)
  rw [hstart] at l₁
  have hnames := l₁.names
  rw [startNodes_names hstart] at hnames
  obtain ⟨hnodup, hfree⟩ := createLate_free d.lateCaches hlate
  have hgains := gains_startNodes d.nodes hstart
  have hlates : ∀ late ∈ d.lates, c.registry.get? late.name = none ∧
      ∀ config ∈ d.statics, config.name ≠ late.name := fun late hmem =>
    (hgains.get?_eq_none_iff late.name).mp (hfree late hmem)
  refine ⟨⟨(List.nodup_append.mp hnames).2.1, hnodup, ?_⟩, ⟨?_, ?_⟩⟩
  · exact fun config hconfig late hmem => (hlates late hmem).2 config hconfig
  · intro n hn hbears
    rw [l.bears_iff_mem] at hbears
    exact List.disjoint_of_nodup_append hnames hbears (List.mem_map_of_mem hn)
  · exact fun late hmem => (hlates late hmem).1

/-- A deployment succeeds exactly if it passes its check, its names are apart, and the cluster has
not given them away. -/
theorem Agrees.apply_ok_iff (a : Agrees c none none) (l : Linked c) (d : Deployment) :
    (∃ ids, (c.apply d).1 = .ok ids) ↔ d.check = .ok () ∧ d.Apart ∧ c.Free d := by
  constructor
  · rintro ⟨ids, hids⟩
    have h : c.apply d = (.ok ids, (c.apply d).2) := Prod.ext hids rfl
    refine ⟨?_, l.apart_of_apply h⟩
    rw [Cluster.apply] at hids
    cases hcheck : d.check with
    | ok u => rfl
    | error err =>
        rw [hcheck] at hids
        cases hids
  · rintro ⟨check, apart, free⟩
    rcases a.apply_cases l check with ⟨ids, c', h⟩ | ⟨err, c', -, hstops⟩
    · exact ⟨ids, by rw [h]⟩
    · exact absurd free (hstops.not_free l apart)

end Cluster

end NearCache
