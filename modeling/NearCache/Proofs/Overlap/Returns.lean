import NearCache.Proofs.Overlap.Meeting

/-!
# What overlapping calls return

Calls that start nodes and create caches, made at once. No start fails as long as the names of the
nodes are fit and free, for whatever the node starts is registered and the node runs; the creation of
a cache is refused for the reasons that it is refused for anyway (`Refusal`). `Job.OnTrack` says so of
a call at any time, and every turn keeps it.

When all calls have returned, this and the meeting of nodes and caches say what they have come to
(`Concluded`).
-/

namespace NearCache

/-- Why the creation of a cache is refused: `c` is the cluster before the call, and `c'` is one after
it. -/
inductive Refusal (c c' : Cluster) (creator : MemberId) (config : CacheConfig) : Fault → Prop where
  | invalid {e : Fault} (check : config.check = .error e) : Refusal c c' creator config e
  | stranger (absent : ∀ m ∈ c.roster, m.id ≠ creator) :
      Refusal c c' creator config (.nodeNotFound (.id creator))
  | taken {current : CacheConfig} (registered : c'.registry.get? config.name = some current) :
      Refusal c c' creator config (.cacheExists config.name)

/-- In a cluster that agrees, each node has one endpoint of a registered cache, leaving aside those
that had been closed before. -/
theorem Cluster.Agrees.existsUnique_start {c c' : Cluster} (a : c'.Agrees none none)
    (l : c'.Linked) (since : c.Extends c') {id : MemberId} {h : Host} {name : String}
    (hr : c'.running.get? id = some h) (hc : c'.registry.contains name = true) :
    ∃! i, ∃ e, c'.fabric.endpoint? i = some e ∧ e.node = h.member.name ∧ e.name = name ∧
      ∀ e₀, c.fabric.endpoint? i = some e₀ → e₀.closed = none := by
  obtain ⟨config, hc⟩ := Table.contains_iff.mp hc
  obtain ⟨h', i, hr', hi⟩ := a.hosts hr hc
  rw [hr] at hr'
  cases hr'
  obtain ⟨e, he, ho, hname, hnode, -⟩ := l.hosted (running_eq_some_iff.mp hr).1 hi
  refine ⟨i, ⟨e, he, hnode, hname, ?_⟩, ?_⟩
  · intro e₀ he₀
    have hsame := since.endpoints he₀
    rw [he] at hsame
    cases hsame
    exact ho
  · rintro i' ⟨e', he', hnode', hname', hopen⟩
    have ho' : e'.closed = none := by
      by_contra hclosed
      exact hclosed (hopen e' (since.closed he' hclosed))
    obtain ⟨id', k', hk', hi'⟩ := l.hosting he' ho'
    obtain ⟨e'', he'', -, -, hnode'', -⟩ := l.hosted hk' hi'
    rw [he'] at he''
    cases he''
    obtain ⟨rfl, rfl⟩ := l.eq_of_name_eq hr (l.runs hk' hi') (hnode'.symm.trans hnode'')
    rw [hname', hi] at hi'
    exact (Option.some.inj hi').symm

/-- A call starts a node whose name is fit and new, or it creates a cache. -/
def Call.Builds (c : Cluster) : Call → Prop
  | start n => n.check = .ok () ∧ ∀ m ∈ c.roster, m.name ≠ n.name
  | create _ _ => True
  | destroy _ => False

instance (c : Cluster) : DecidablePred (Call.Builds c)
  | .start n => inferInstanceAs (Decidable (n.check = .ok () ∧ ∀ m ∈ c.roster, m.name ≠ n.name))
  | .create _ _ => inferInstanceAs (Decidable True)
  | .destroy _ => inferInstanceAs (Decidable False)

namespace Job

/-- A node that a call starts runs, and the caches that it brings along are registered or to be
registered. -/
def Starts (c : Cluster) (n : NodeConfig) (j : Job) : Prop :=
  j.fault = none ∧ ∃ id h, c.running.get? id = some h ∧
    h.member = Member.enrolled id n.name n.role n.attributes ∧
    ∀ config ∈ n.staticCaches, .register id config ∈ j.stages ∨
      ∃ current, c.registry.get? config.name = some current

/-- A cache that a call creates is registered, or the call has been refused. -/
def Creates (c c' : Cluster) (creator : MemberId) (config : CacheConfig) (j : Job) : Prop :=
  (j.fault = none ∧ c'.registry.get? config.name = some config) ∨
    ∃ e, j.fault = some e ∧ Refusal c c' creator config e

/-- A call has not begun, or it has done so far what it is to do. -/
def OnTrack (c c' : Cluster) (j : Job) : Prop :=
  j = .ofCall j.call ∨
    match j.call with
    | .start n => j.Starts c' n
    | .create creator config => j.Creates c c' creator config
    | .destroy _ => True

variable {c c' c'' : Cluster} {j : Job} {place : Option Nat} {t : Stage}

/-- Other calls do not undo what a call has done. -/
theorem OnTrack.extends (h : j.OnTrack c c') (e : c'.Extends c'') : j.OnTrack c c'' := by
  refine h.imp_right fun h => ?_
  cases hcall : j.call with
  | start n =>
      rw [hcall] at h
      obtain ⟨hfault, id, k, hr, hm, hstatic⟩ := h
      obtain ⟨k', hr', hm'⟩ := e.running hr
      refine ⟨hfault, id, k', hr', hm'.trans hm, ?_⟩
      intro config hconfig
      exact (hstatic config hconfig).imp_right fun ⟨current, hc⟩ => ⟨current, e.registry hc⟩
  | create creator config =>
      rw [hcall] at h
      rcases h with ⟨hfault, hc⟩ | ⟨err, hfault, hrefusal⟩
      · exact Or.inl ⟨hfault, e.registry hc⟩
      · refine Or.inr ⟨err, hfault, ?_⟩
        cases hrefusal with
        | invalid check => exact .invalid check
        | stranger absent => exact .stranger absent
        | taken registered => exact .taken (e.registry registered)
  | destroy => trivial

/-- A call begins with its first stage. -/
theorem stage?_ofCall {call : Call} (ht : (ofCall call).stage? place = some t) :
    place = none ∧ t = call.entry := by
  rcases stage?_cases ht with ⟨k, rest, -, hk⟩ | ⟨rest, hplace, -, hm⟩
  · cases hk
  · cases hm
    exact ⟨hplace, rfl⟩

theorem fault_proceed (j : Job) (place : Option Nat) (s : Sequel) :
    (j.proceed place (.ok s)).fault = j.fault := by
  cases place <;> rfl

end Job

namespace Overlap

variable {o : Overlap} {c : Cluster} {j : Job} {place : Option Nat} {t : Stage}

/-- A node whose name is fit and free enrols. -/
theorem starts_enrol {n : NodeConfig} (hj : j = .ofCall (.start n)) (ht : j.stage? place = some t)
    (fit : n.check = .ok ()) (free : ∀ m ∈ o.cluster.roster, m.name ≠ n.name) :
    (j.proceed place (t.perform o.cluster).1).Starts (t.perform o.cluster).2 n := by
  subst hj
  obtain ⟨rfl, rfl⟩ := Job.stage?_ofCall ht
  have henrol : o.cluster.enrol n = .ok (o.cluster.memberIds o.cluster.joined,
      (o.cluster.enrolling n).publish (.nodeJoined n.name n.role.isClient)) := by
    rw [Cluster.enrol_eq, fit]
    dsimp only
    rw [if_neg]
    intro htaken
    obtain ⟨m, hm, hname⟩ := List.any_eq_true.mp htaken
    exact free m hm (of_decide_eq_true hname)
  show (Job.proceed _ none (Stage.perform _ (.enrol n)).1).Starts (Stage.perform _ (.enrol n)).2 n
  simp only [Stage.perform, henrol]
  refine ⟨rfl, o.cluster.memberIds o.cluster.joined, _,
    (Cluster.running_enrolling o.cluster n _).trans (if_pos rfl), rfl, ?_⟩
  intro config hconfig
  left
  show _ ∈ [].flatten ++ (n.staticCaches.map _ ++ [_] ++ [])
  rw [List.flatten_nil, List.nil_append, List.append_nil]
  exact List.mem_append_left _ (List.mem_map.mpr ⟨config, hconfig, rfl⟩)

/-- A cache is registered unless its creation is refused. -/
theorem creates_create {creator : MemberId} {config : CacheConfig}
    (hj : j = .ofCall (.create creator config)) (ht : j.stage? place = some t)
    (since : c.Extends o.cluster) :
    (j.proceed place (t.perform o.cluster).1).Creates c (t.perform o.cluster).2 creator config := by
  subst hj
  obtain ⟨rfl, rfl⟩ := Job.stage?_ofCall ht
  show (Job.proceed _ none (Stage.perform _ (.create creator config)).1).Creates c
    (Stage.perform _ (.create creator config)).2 creator config
  simp only [Stage.perform]
  cases hcheck : config.check with
  | error e => exact Or.inr ⟨e, rfl, .invalid hcheck⟩
  | ok u =>
      dsimp only
      split
      · next habsent =>
        refine Or.inr ⟨_, rfl, .stranger fun m hm hid => ?_⟩
        rw [Option.isNone_iff_eq_none] at habsent
        exact List.find?_eq_none.mp habsent m (since.members hm) (decide_eq_true hid)
      · split
        · next htaken =>
          obtain ⟨current, hc⟩ := Table.contains_iff.mp htaken
          exact Or.inr ⟨_, rfl, .taken hc⟩
        · exact Or.inl ⟨rfl, Table.get?_insert_self _ _ _⟩

/-- A call that has its turn stays on track. -/
theorem Orderly.onTrack (h : Orderly o) (hmeeting : Meeting o) (since : c.Extends o.cluster)
    (hj : j ∈ o.jobs) (ht : j.stage? place = some t) (track : j.OnTrack c o.cluster)
    (fit : ∀ {n}, j = .ofCall (.start n) →
      n.check = .ok () ∧ ∀ m ∈ o.cluster.roster, m.name ≠ n.name) :
    (j.proceed place (t.perform o.cluster).1).OnTrack c (t.perform o.cluster).2 := by
  right
  rw [Job.call_proceed]
  have hdue : t ∈ j.stages := Job.mem_of_stage? ht
  cases hentry : t.isEntry with
  | true =>
      have hnew := h.entries hj hdue hentry
      cases hcall : j.call with
      | start n =>
          rw [hcall] at hnew
          exact starts_enrol hnew ht (fit hnew).1 (fit hnew).2
      | create creator config =>
          rw [hcall] at hnew
          exact creates_create hnew ht since
      | destroy => trivial
  | false =>
      -- the call has begun, and its stages do not fail any more
      have hbegun : j ≠ .ofCall j.call := by
        intro hnew
        rw [hnew] at ht
        rw [(Job.stage?_ofCall ht).2] at hentry
        cases hcall : j.call <;> rw [hcall] at hentry <;> cases hentry
      obtain ⟨next, heffect, hperm⟩ := h.proceed hj ht
      have hextends := heffect.keeps h.linked (hmeeting.fits ⟨j, hj, hdue⟩)
      have hfault : (j.proceed place (t.perform o.cluster).1).fault = j.fault := by
        rcases Stage.effect_perform (h.starts ⟨j, hj, hdue⟩) with ⟨s, hok, -⟩ | ⟨e, -, he, -⟩
        · rw [hok, Job.fault_proceed]
        · rw [hentry] at he
          cases he
      have htrack := ((track.extends hextends).resolve_left hbegun)
      cases hcall : j.call with
      | start n =>
          rw [hcall] at htrack
          obtain ⟨hnone, id, k, hr, hm, hstatic⟩ := htrack
          refine ⟨hfault.trans hnone, id, k, hr, hm, ?_⟩
          intro config hconfig
          rcases hstatic config hconfig with hregister | hc
          · by_cases heq : .register id config = t
            · right
              subst heq
              generalize (Stage.perform o.cluster _).2 = c' at heffect
              cases heffect with
              | refused entry => cases entry
              | adopt known => exact ⟨_, known⟩
              | register free => exact ⟨_, Table.get?_insert_self _ _ _⟩
            · left
              rw [hperm.mem_iff]
              exact List.mem_append_right _ ((List.mem_erase_of_ne heq).mpr hregister)
          · exact Or.inr hc
      | create creator config =>
          rw [hcall] at htrack
          rcases htrack with ⟨hnone, hc⟩ | ⟨e, hsome, hrefusal⟩
          · exact Or.inl ⟨hfault.trans hnone, hc⟩
          · exact Or.inr ⟨e, hfault.trans hsome, hrefusal⟩
      | destroy => trivial

/-- Calls that start nodes of different names and create caches. -/
structure Constructive (c : Cluster) (calls : List Call) : Prop where
  builds : ∀ call ∈ calls, call.Builds c
  names : (calls.filterMap Call.nodeName?).Nodup

theorem Constructive.ne_of_ne {calls : List Call} (f : Constructive c calls) {i k : Nat}
    (hik : i ≠ k) {n n' : NodeConfig} (hi : calls[i]? = some (.start n))
    (hk : calls[k]? = some (.start n')) : n.name ≠ n'.name := by
  have hpairs := List.pairwise_iff_getElem.mp (List.pairwise_filterMap.mp f.names)
  obtain ⟨hilen, hi⟩ := List.getElem?_eq_some_iff.mp hi
  obtain ⟨hklen, hk⟩ := List.getElem?_eq_some_iff.mp hk
  rcases Nat.lt_or_gt_of_ne hik with hlt | hgt
  · exact hpairs i k hilen hklen hlt n.name (by rw [hi]; rfl) n'.name (by rw [hk]; rfl)
  · exact (hpairs k i hklen hilen hgt n'.name (by rw [hk]; rfl) n.name (by rw [hi]; rfl)).symm

/-- Such calls are under way, `c` being the cluster before them. -/
structure Underway (c : Cluster) (calls : List Call) (o : Overlap) : Prop where
  order : Orderly o
  meeting : Meeting o
  since : c.Extends o.cluster
  calls : o.jobs.map Job.call = calls
  track : ∀ {j}, j ∈ o.jobs → j.OnTrack c o.cluster
  free : ∀ {n}, .ofCall (.start n) ∈ o.jobs → ∀ m ∈ o.cluster.roster, m.name ≠ n.name

theorem underway_ofCalls {calls : List Call} (f : Constructive c calls) (l : c.Linked)
    (a : c.Agrees none none) : Underway c calls (ofCalls c calls) where
  order := orderly_ofCalls l calls
  meeting := meeting_ofCalls a fun h => f.builds _ h
  since := .refl c
  calls := by
    show (calls.map Job.ofCall).map Job.call = calls
    rw [List.map_map]
    exact List.map_id calls
  track hj := by
    obtain ⟨call, -, rfl⟩ := List.mem_map.mp hj
    exact Or.inl rfl
  free hn := by
    obtain ⟨call, hcall, heq⟩ := List.mem_map.mp hn
    cases heq
    exact (f.builds _ hcall).2

theorem Underway.advance {calls : List Call} (f : Constructive c calls) (h : Underway c calls o)
    (turn : Turn) : Underway c calls (o.advance turn) := by
  have hcalls : ∀ {i : Nat} {k : Job}, o.jobs[i]? = some k → calls[i]? = some k.call := by
    intro i k hk
    rw [← h.calls, List.getElem?_map, hk]
    rfl
  rcases h.order.advance turn with ⟨-, hsame⟩ | ⟨t, next, hstage, m, horder⟩
  · rw [hsame]
    exact h
  obtain ⟨hmeeting, hextends⟩ := h.meeting.moves h.order.linked m
  rcases advance_cases o turn with ⟨hnone, -⟩ | ⟨j, t', hstage', hj, ht, heq⟩
  · rw [hstage] at hnone
    cases hnone
  rw [hstage] at hstage'
  cases hstage'
  have hmem := List.mem_of_getElem? hj
  have hcluster : (o.advance turn).cluster = (t.perform o.cluster).2 := by rw [heq]
  have hjobs : (o.advance turn).jobs =
      o.jobs.set turn.1 (j.proceed turn.2 (t.perform o.cluster).1) := by rw [heq]
  refine ⟨horder, hmeeting, h.since.trans hextends, ?_, ?_, ?_⟩
  · rw [calls_advance, h.calls]
  · intro k hk
    rw [hjobs] at hk
    rcases List.mem_or_eq_of_mem_set hk with hk | rfl
    · exact (h.track hk).extends hextends
    · rw [hcluster]
      refine h.order.onTrack h.meeting h.since hmem ht (h.track hmem) fun {n} hn => ?_
      have hcall : .start n ∈ calls := by
        have := List.mem_of_getElem? (hcalls hj)
        rwa [hn] at this
      exact ⟨(f.builds _ hcall).1, h.free (hn ▸ hmem)⟩
  · intro n hn m' hm'
    obtain ⟨i, hi⟩ := List.getElem?_of_mem hn
    have hne : i ≠ turn.1 := by
      -- the job that had the turn has begun
      rintro rfl
      have hlen := (List.getElem?_eq_some_iff.mp hj).1
      rw [hjobs, List.getElem?_set_self hlen] at hi
      have hentry := h.order.isEntry_eq_false hmem ht (x := .enrol n) (by
        rw [Option.some.inj hi]
        exact List.mem_cons_self)
      cases hentry
    rw [hjobs, List.getElem?_set_ne (Ne.symm hne)] at hi
    rcases m.effect.enrolled (h.meeting.fits m.due) hm' with hold | ⟨n', rfl, hname⟩
    · exact h.free (List.mem_of_getElem? hi) m' hold
    · have hnew := h.order.entries hmem (Job.mem_of_stage? ht) rfl
      rw [hnew] at ht
      have hentry := (Job.stage?_ofCall ht).2
      have hcall : j.call = .start n' := by
        cases hcall : j.call <;> rw [hcall] at hentry <;> cases hentry
        rfl
      rw [hname]
      exact (f.ne_of_ne hne (hcalls hi) (hcall ▸ hcalls hj)).symm

theorem Underway.after {calls : List Call} (f : Constructive c calls) (schedule : List Turn) :
    ∀ {o : Overlap}, Underway c calls o → Underway c calls (o.after schedule) := by
  induction schedule with
  | nil => intro o h; exact h
  | cons turn rest ih => intro o h; exact ih (h.advance f turn)

/-- How calls have ended that start nodes and create caches, `c` being the cluster before them. -/
structure Concluded (c : Cluster) (o : Overlap) : Prop where
  uniform : o.cluster.Uniform
  /-- What was there before is still there. -/
  since : c.Extends o.cluster
  starts : ∀ {j n}, j ∈ o.jobs → j.call = .start n → j.fault = none ∧
    ∃ id h, o.cluster.running.get? id = some h ∧
      h.member = Member.enrolled id n.name n.role n.attributes ∧
      ∀ config ∈ n.staticCaches, ∃ current, o.cluster.registry.get? config.name = some current
  creates : ∀ {j creator config}, j ∈ o.jobs → j.call = .create creator config →
    j.Creates c o.cluster creator config
  /-- Leaving aside what had been closed before, a cache has started once on each node. -/
  once : ∀ {id h name}, o.cluster.running.get? id = some h →
    o.cluster.registry.contains name = true → ∃! i, ∃ e, o.cluster.fabric.endpoint? i = some e ∧
      e.node = h.member.name ∧ e.name = name ∧
      ∀ e₀, c.fabric.endpoint? i = some e₀ → e₀.closed = none

theorem Underway.concluded {calls : List Call} (h : Underway c calls o)
    (hreturned : o.returned = true) : Concluded c o := by
  have l := h.order.linked
  have hagrees := h.meeting.agrees l hreturned
  -- a call that has returned has begun
  have hbegun : ∀ {j}, j ∈ o.jobs → j ≠ .ofCall j.call := by
    intro j hj hnew
    refine pending_eq_false hreturned j.call.entry ⟨j, hj, ?_⟩
    rw [hnew]
    exact List.mem_cons_self
  refine ⟨hagrees.uniform l, h.since, ?_, ?_, ?_⟩
  · intro j n hj hcall
    have htrack := (h.track hj).resolve_left (hbegun hj)
    rw [hcall] at htrack
    obtain ⟨hnone, id, k, hr, hm, hstatic⟩ := htrack
    refine ⟨hnone, id, k, hr, hm, fun config hconfig => ?_⟩
    refine (hstatic config hconfig).resolve_left fun hregister => ?_
    exact pending_eq_false hreturned _ ⟨j, hj, hregister⟩
  · intro j creator config hj hcall
    have htrack := (h.track hj).resolve_left (hbegun hj)
    rw [hcall] at htrack
    exact htrack
  · exact hagrees.existsUnique_start l h.since

/-- **Nodes that start and caches that are created at the same time do not miss each other.** After
whatever users have done before, let any number of such calls overlap, in any order of their stages.
When all have returned, every node has every registered cache as it is registered, each has started
once, and no node has failed to start. -/
theorem concluded_after {memberIds : Nat → MemberId} (distinct : Function.Injective memberIds)
    (publisher : Fanout) (cs : List Command) {calls : List Call} (schedule : List Turn) :
    let c := ((Session.fresh memberIds publisher).after cs).cluster
    Constructive c calls → ((ofCalls c calls).after schedule).returned = true →
      Concluded c ((ofCalls c calls).after schedule) := by
  intro c f hreturned
  have hsound := Session.Sound.fresh distinct publisher
  have hagrees := Session.agrees_after cs hsound (Cluster.Agrees.empty memberIds publisher)
  have hunderway := underway_ofCalls f (hsound.after cs).sound.linked hagrees
  exact (hunderway.after f schedule).concluded hreturned

/-- While node `b` starts and brings along a cache `x` of its own, node `a`, which runs, creates a
cache `x` too. The creation comes first, and reads the running nodes before `b` has enrolled. -/
theorem concluded_after_crossing :
    let c := ((Session.fresh id {}).after [.start { name := "a" }]).cluster
    let created : CacheConfig := { name := "x", near := some { enabled := false } }
    let calls : List Call :=
      [.start { name := "b", caches := [{ name := "x" }] }, .create 0 created]
    let o := (ofCalls c calls).after
      [(1, none), (1, none), (0, none), (0, none), (1, some 0), (0, none), (0, none), (0, none),
        (0, some 0), (1, some 0), (0, some 0), (0, none), (0, none), (0, none)]
    o.returned = true ∧ o.cluster.registry.get? "x" = some created ∧ Concluded c o :=
  ⟨by decide, by decide, concluded_after Function.injective_id {} [.start { name := "a" }] _
    ⟨by decide, by decide⟩ (by decide)⟩

end Overlap

end NearCache
