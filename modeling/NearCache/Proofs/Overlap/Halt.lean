import NearCache.Proofs.Overlap.Course

/-!
# Starts that are cut short

While a start waits, somebody else may stop the node. The start then goes on, and what it still
does for other nodes succeeds. The first stage that is to start a cache on the node fails, and with
it the start.

If that stage belongs to a cache which the node brings along, the cache has just been registered,
and it is spread to the other nodes only in the stage after. So it stays registered without having
started anywhere. This happens if and only if such a cache is still to be registered when the node
stops and the name of the next one is free then (`Overlap.forgotten?`); all other caches are where
they should be (`halted_after`).

A start that goes on without its node is `Halting`: it is on its course, on the brink, or at its
end. As long as it is on its course, nodes and caches meet as they do anyway (`Meeting`), for what
is still to come for the stopped node would see to nothing but this node.
-/

namespace NearCache

namespace Cluster

variable {c : Cluster} {id : MemberId} {h : Host}

/-- A node has run under a number and a name and has stopped; these are the others. -/
structure Gone (c : Cluster) (id : MemberId) (name : String) (others : Roster) : Prop where
  linked : c.Linked
  halted : ∃ h, c.host? id = some h ∧ h.stopped = true ∧ h.member.name = name
  members : c.roster = others
  free : ∀ m ∈ others, m.name ≠ name

theorem gone_stopNode (l : c.Linked) (hr : c.running.get? id = some h) :
    (c.stopNode id).2.Gone id h.member.name (c.roster.leave id).2 where
  linked := l.steps (steps_stopNode c id)
  halted := by
    rw [stopNode_eq_stopping hr]
    exact ⟨_, Table.get?_insert_self _ _ _, rfl, rfl⟩
  members := by
    rw [stopNode_eq_stopping hr]
    rfl
  free m hm hname := by
    obtain ⟨hm, hne⟩ := (Roster.mem_leave_iff l.ids).mp hm
    rw [List.inj_on_of_nodup_map l.names hm (l.member_mem hr) hname] at hne
    exact hne (l.own (running_eq_some_iff.mp hr).1)

namespace Gone

variable {name : String} {others : Roster}

theorem running (g : c.Gone id name others) : c.running.get? id = none := by
  obtain ⟨h, hh, hs, -⟩ := g.halted
  cases hr : c.running.get? id with
  | none => rfl
  | some k =>
      obtain ⟨hk, hks⟩ := running_eq_some_iff.mp hr
      rw [hh] at hk
      cases hk
      rw [hs] at hks
      cases hks

/-- What is open is another node's. -/
theorem closed (g : c.Gone id name others) {i : EndpointId} {e : Endpoint}
    (he : c.fabric.endpoint? i = some e) (hnode : e.node = name) : e.closed ≠ none := by
  intro ho
  obtain ⟨j, k, hk, hi⟩ := g.linked.hosting he ho
  obtain ⟨e', he', -, -, hnode', -⟩ := g.linked.hosted hk hi
  rw [he] at he'
  cases he'
  refine g.free k.member ?_ (by rw [← hnode', hnode])
  rw [← g.members]
  exact g.linked.member_mem (g.linked.runs hk hi)

/-- Only another node listens. -/
theorem silent (g : c.Gone id name others) {cache : String} {i : EndpointId} {e : Endpoint}
    (hi : i ∈ c.fabric.store.listeners cache) (he : c.fabric.endpoint? i = some e) :
    e.node ≠ name := by
  intro hnode
  obtain ⟨e', he', ⟨ho, -⟩, -⟩ := g.linked.wired.mem_listeners_iff.mp hi
  rw [he] at he'
  cases he'
  exact g.closed he hnode ho

end Gone

/-- What is left of a start that ends because its node has stopped: with the registry as it was when
the node stopped, all agree, and at most one cache has been registered since. -/
structure Left (c : Cluster) (registry : Table String CacheConfig)
    (forgotten? : Option CacheConfig) : Prop where
  agrees : Agrees { c with registry } none none
  registry : c.registry = forgotten?.elim registry fun config => registry.insert config.name config

end Cluster

namespace Stage

variable {c c' : Cluster} {t : Stage} {next : List Stage} {id : MemberId}

/-- Who starts a cache on a node that has stopped learns that. -/
theorem perform_gone {name : String} {others : Roster} (g : c.Gone id name others)
    (config : CacheConfig) (trigger : Trigger) :
    (activate id config trigger).perform c = (.error (.nodeStopped name), c) := by
  obtain ⟨h, hh, hs, rfl⟩ := g.halted
  unfold perform
  dsimp only
  rw [Cluster.activateOn_eq_stopped hh hs]

/-- On the way nobody joins, and a node that has stopped is left alone. -/
theorem Effect.gone {name : String} {others : Roster} (h : t.Effect c next c')
    (g : c.Gone id name others) (fits : t.Fits c.registry) (entry : t.isEntry = false) :
    c'.Gone id name others := by
  have hkept : c'.roster = c.roster ∧ c'.host? id = c.host? id := by
    cases h with
    | refused entry' =>
        rw [entry] at entry'
        cases entry'
    | enrol | create => cases entry
    | adopt | register | again | confirm | spread | join => exact ⟨rfl, rfl⟩
    | @activate j config _ k runs new es =>
        have hne : id ≠ j := by
          rintro rfl
          rw [g.running] at runs
          cases runs
        refine ⟨rfl, ?_⟩
        show (c.starting j k config).host? id = _
        unfold Cluster.starting
        rw [Cluster.host?_setHost, if_neg hne]
    | withdraw gone => exact absurd gone fits.registered
    | unregister | sweep | deactivate | drop => exact fits.elim
  refine ⟨h.linked g.linked, ?_, hkept.1.trans g.members, g.free⟩
  rw [hkept.2]
  exact g.halted

/-- On the way the registry changes only where a cache is registered. -/
theorem Effect.registry_eq (h : t.Effect c next c') (fits : t.Fits c.registry)
    (entry : t.isEntry = false) (other : t.brought? = none) :
    c'.registry = c.registry := by
  cases h with
  | refused | enrol | again | activate | confirm | spread | join | sweep | drop => rfl
  | adopt | register => cases other
  | create => cases entry
  | withdraw gone => exact absurd gone fits.registered
  | unregister | deactivate => exact fits.elim

/-- Where something happens on the node, the rest of the start sees to the node alone. -/
theorem Course.home {todo : List CacheConfig} {tail : List Stage} (h : Course id todo (t :: tail))
    (hnode : t.node? = some id) {x : Stage} (hx : x ∈ t :: tail) {j : MemberId}
    {config : CacheConfig} (hb : x.Brings j config) : j = id := by
  generalize hmain : t :: tail = main at h hx
  cases h with
  | statics =>
      rcases List.mem_append.mp hx with hx | hx
      · obtain ⟨A, -, rfl⟩ := List.mem_map.mp hx
        exact hb.elim
      · rw [List.mem_singleton.mp hx] at hb
        exact hb.symm
  | started | confirmed =>
      cases hmain
      cases hnode
  | joining joins =>
      cases joins x hx with
      | activate A => exact hb.1.symm
      | confirm => exact hb.elim

end Stage

namespace Job

variable {id : MemberId} {todo : List CacheConfig} {j : Job} {place : Option Nat} {t : Stage}

/-- What happens on the node is a stage of the start itself, when nothing goes on beside it. -/
theorem OnCourse.main_eq (h : j.OnCourse id todo) (ht : j.stage? place = some t)
    (hnode : t.node? = some id) :
    place = none ∧ j.strands.flatten = [] ∧ ∃ rest, j.main = t :: rest := by
  rcases stage?_cases ht with ⟨k, rest, -, hk⟩ | ⟨rest, hplace, hflat, hm⟩
  · have hspreads := h.beside t
      (List.mem_flatten.mpr ⟨t :: rest, List.mem_of_getElem? hk, List.mem_cons_self⟩)
    cases hspreads with
    | activate other config => exact absurd (Option.some.inj hnode) other
    | confirm => cases hnode
  · exact ⟨hplace, hflat, rest, hm⟩

/-- Where something happens on the node, all that is to come sees to the node alone. -/
theorem OnCourse.home (h : j.OnCourse id todo) (ht : j.stage? place = some t)
    (hnode : t.node? = some id) {x : Stage} (hx : x ∈ j.stages) {k : MemberId}
    {config : CacheConfig} (hb : x.Brings k config) : k = id := by
  obtain ⟨-, hflat, rest, hm⟩ := h.main_eq ht hnode
  unfold stages at hx
  rw [hflat, List.nil_append, hm] at hx
  exact (hm ▸ h.main).home hnode hx hb

/-- Caches start on the node when all that it brings along have been registered. -/
theorem OnCourse.todo_eq_nil (h : j.OnCourse id todo) {config : CacheConfig} {trigger : Trigger}
    (ht : j.stage? place = some (.activate id config trigger)) : todo = [] := by
  obtain ⟨-, -, rest, hm⟩ := h.main_eq ht rfl
  have hmain := h.main
  generalize j.main = main at hmain hm
  cases hmain with
  | statics =>
      cases todo with
      | nil => rfl
      | cons => cases hm
  | started | confirmed => cases hm
  | joining => rfl

/-- When the start has returned, nothing is left to be registered. -/
theorem OnCourse.todo_eq_nil_of_isDone (h : j.OnCourse id todo) (hdone : j.isDone = true) :
    todo = [] := by
  have hmain := h.main
  rw [(List.append_eq_nil_iff.mp (stages_eq_nil hdone)).2] at hmain
  generalize hnil : ([] : List Stage) = main at hmain
  cases hmain with
  | statics => exact absurd hnil.symm (List.append_ne_nil_of_right_ne_nil _ (List.cons_ne_nil _ _))
  | started | confirmed => cases hnil
  | joining => rfl

/-- The cache that is registered next is the first of those to be registered. -/
theorem OnCourse.findSome?_brought? (h : j.OnCourse id todo) :
    j.stages.findSome? Stage.brought? = todo.head? := by
  have hahead : ∀ todo, (Stage.ahead id todo).findSome? Stage.brought? = todo.head? := by
    intro todo
    cases todo <;> rfl
  have hbeside : j.strands.flatten.findSome? Stage.brought? = none := by
    refine List.findSome?_eq_none_iff.mpr fun x hx => ?_
    cases h.beside x hx <;> rfl
  have hmain := h.main
  unfold stages
  rw [List.findSome?_append, hbeside, Option.none_or]
  generalize j.main = main at hmain
  cases hmain with
  | statics | started | confirmed => exact hahead todo
  | joining joins =>
      refine List.findSome?_eq_none_iff.mpr fun x hx => ?_
      cases joins x hx <;> rfl

end Job

namespace Overlap

/-- The cache that is to be registered next for a node that brings it along, if its name is
free. -/
def forgotten? (o : Overlap) : Option CacheConfig :=
  ((o.jobs.flatMap Job.stages).findSome? Stage.brought?).filter fun config =>
    !o.cluster.registry.contains config.name

/-- The cluster when a node has stopped while calls wait. -/
def stop (o : Overlap) (id : MemberId) : Overlap :=
  { o with cluster := (o.cluster.stopNode id).2 }

section

variable {o : Overlap} {id : MemberId}

/-- Nodes and caches that are about to meet are not kept from it by a node that stops. -/
theorem Meeting.stop (h : Meeting o) (l : o.cluster.Linked) (id : MemberId) :
    Meeting (o.stop id) := by
  have hrun := Cluster.running_stopNode o.cluster id
  have hregistry := Cluster.registry_stopNode o.cluster id
  refine ⟨?_, ?_, ?_⟩
  · rintro j name i config ⟨k, e, hr, hi, he, rfl⟩
    have hr' := (hrun j).symm.trans hr
    split at hr'
    · cases hr'
    · show (o.cluster.stopNode id).2.registry.get? name = _
      rw [hregistry]
      exact h.current (l.carried (Cluster.steps_stopNode o.cluster id) hr' hi he)
  · intro t ht
    show t.Fits (o.cluster.stopNode id).2.registry
    rw [hregistry]
    exact h.fits ht
  · intro j k config hr hc
    have hr' := (hrun j).symm.trans hr
    have hc' : (o.cluster.stopNode id).2.registry.get? config.name = some config := hc
    rw [hregistry] at hc'
    split at hr'
    · cases hr'
    · next hj =>
      refine (h.met hr' hc').imp_left ?_
      rintro ⟨k', i, hk', hi⟩
      exact ⟨k', i, (hrun j).trans ((if_neg hj).trans hk'), hi⟩

/-- A start is on its course without its node, which stopped when these were the other members and
this was the registry. -/
structure Going (id : MemberId) (name : String) (others : Roster)
    (registry : Table String CacheConfig) (forgotten? : Option CacheConfig)
    (todo : List CacheConfig) (c : Cluster) (j : Job) : Prop where
  gone : c.Gone id name others
  meeting : Meeting ⟨c, [j]⟩
  course : j.OnCourse id todo
  runs : ∀ {k}, k ≠ id → ∀ {t}, Pending ⟨c, [j]⟩ t → t.node? = some k →
    ∃ h, c.running.get? k = some h
  next : forgotten? = todo.head?.filter fun config => !registry.contains config.name
  same : c.registry = registry

/-- A start goes on without its node. -/
inductive Halting (id : MemberId) (name : String) (others : Roster)
    (registry : Table String CacheConfig) (forgotten? : Option CacheConfig) : Overlap → Prop where
  | going {c : Cluster} {j : Job} {todo : List CacheConfig}
      (going : Going id name others registry forgotten? todo c j) :
      Halting id name others registry forgotten? ⟨c, [j]⟩
  | brink {c : Cluster} {j : Job} {todo : List CacheConfig} (gone : c.Gone id name others)
      (brink : j.OnBrink id todo) (left : c.Left registry forgotten?) :
      Halting id name others registry forgotten? ⟨c, [j]⟩
  | ended {c : Cluster} {j : Job} (gone : c.Gone id name others) (done : j.isDone = true)
      (fault : j.fault = some (.nodeStopped name)) (left : c.Left registry forgotten?) :
      Halting id name others registry forgotten? ⟨c, [j]⟩

variable {name : String} {others : Roster} {registry : Table String CacheConfig}
  {forgotten : Option CacheConfig}

/-- A single job gives one stage for those that it leads to, and its end comes nearer. -/
theorem moves_single {c : Cluster} {j : Job} {place : Option Nat} {t : Stage} {s : Sequel}
    (ht : j.stage? place = some t) (heffect : t.Effect c s.stages (t.perform c).2) :
    Moves ⟨c, [j]⟩ t s.stages ⟨(t.perform c).2, [j.proceed place (.ok s)]⟩ ∧
      Relation.CutExpand Stage.Lower (due ⟨(t.perform c).2, [j.proceed place (.ok s)]⟩)
        (due ⟨c, [j]⟩) := by
  have hjob : (Overlap.mk c [j]).jobs[0]? = some j := rfl
  have hdue := Job.mem_of_stage? ht
  have hperm := Job.perm_proceed_erase ht s
  refine ⟨moves_set hjob hdue heffect fun {x} => ?_, cutExpand_set hjob hdue heffect.lower hperm⟩
  rw [hperm.mem_iff, List.mem_append]

/-- A cache that is registered last is the one that is left, if it is new. -/
theorem left_register {c c' : Cluster} (a : c.Agrees none none) {config : CacheConfig}
    {next : List Stage} (h : (Stage.register id config).Effect c next c') :
    c'.Left c.registry ((some config).filter fun config => !c.registry.contains config.name) := by
  cases h with
  | refused entry => cases entry
  | adopt known =>
      have hcontains := Table.contains_iff.mpr ⟨_, known⟩
      rw [Option.filter_some, hcontains]
      exact ⟨a, rfl⟩
  | register free =>
      rw [Option.filter_some, Table.contains_eq_false_iff.mpr free]
      exact ⟨⟨a.current, a.complete⟩, rfl⟩

namespace Going

variable {todo : List CacheConfig} {c : Cluster} {j : Job} {place : Option Nat} {t : Stage}

/-- Where something is to happen on the node that has stopped, the others agree already. -/
theorem agrees (h : Going id name others registry forgotten todo c j)
    (ht : j.stage? place = some t) (hnode : t.node? = some id) : c.Agrees none none := by
  refine h.meeting.agrees_of_idle h.gone.linked fun {k r config x} hr hx hb => ?_
  obtain ⟨j', hj', hx⟩ := hx
  rw [List.mem_singleton.mp hj'] at hx
  have hr' : c.running.get? k = some r := hr
  rw [h.course.home ht hnode hx hb, h.gone.running] at hr'
  cases hr'

/-- When all caches that the node brings along have been spread, all agree on the registry as it
was. -/
theorem left (h : Going id name others registry forgotten [] c j) (a : c.Agrees none none) :
    c.Left registry forgotten := by
  rw [h.next, ← h.same]
  exact ⟨a, rfl⟩

/-- A stage that does not need the node leads on, to the brink if it registers a cache. -/
theorem proceed (h : Going id name others registry forgotten todo c j)
    (ht : j.stage? place = some t) {s : Sequel} (hok : (t.perform c).1 = .ok s)
    (heffect : t.Effect c s.stages (t.perform c).2) :
    Halting id name others registry forgotten
      ⟨(t.perform c).2, [j.proceed place (.ok s)]⟩ := by
  have hdue := Job.mem_of_stage? ht
  have hfits : t.Fits c.registry := h.meeting.fits ⟨j, List.mem_singleton_self j, hdue⟩
  have hentry := h.course.isEntry_eq_false hdue
  have hgone := heffect.gone h.gone hfits hentry
  obtain ⟨hmoves, -⟩ := moves_single ht heffect
  rcases h.course.proceed ht hok with ⟨config, todo', rfl, rfl, hbrink⟩ | ⟨hother, hcourse⟩
  · have hleft := left_register (h.agrees ht rfl) heffect
    rw [h.same] at hleft
    exact .brink hgone hbrink (h.next ▸ hleft)
  · exact .going ⟨hgone, (h.meeting.moves h.gone.linked hmoves).1, hcourse,
      fun hk _ hx => hmoves.runs h.gone.linked (h.runs hk) hx, h.next,
      (heffect.registry_eq hfits hentry hother).trans h.same⟩

end Going

/-- A turn does nothing, or the start has returned, or its end has come nearer. -/
theorem Halting.advance (h : Halting id name others registry forgotten o) (turn : Turn) :
    Halting id name others registry forgotten (o.advance turn) ∧
      (o.stage? turn = none ∨ (o.advance turn).returned = true ∨
        Relation.CutExpand Stage.Lower (o.advance turn).due o.due) := by
  cases h with
  | ended gone done fault left =>
      rcases advance_single _ _ turn with ⟨hnone, hidle⟩ | ⟨t, -, -, ht, -⟩
      · rw [hidle]
        exact ⟨.ended gone done fault left, Or.inl hnone⟩
      · have hdue := Job.mem_of_stage? ht
        rw [Job.stages_eq_nil done] at hdue
        cases hdue
  | @brink c j todo gone brink left =>
      rcases advance_single c j turn with ⟨hnone, hidle⟩ | ⟨t, -, -, ht, heq⟩
      · rw [hidle]
        exact ⟨.brink gone brink left, Or.inl hnone⟩
      · obtain ⟨hplace, ⟨config, rfl⟩, -⟩ := brink.stage? ht
        rw [heq, Stage.perform_gone gone, hplace]
        exact ⟨.ended gone rfl rfl left, Or.inr (Or.inl rfl)⟩
  | @going c j todo going =>
      rcases advance_single c j turn with ⟨hnone, hidle⟩ | ⟨t, -, -, ht, heq⟩
      · rw [hidle]
        exact ⟨.going going, Or.inl hnone⟩
      have hdue := Job.mem_of_stage? ht
      by_cases hown : ∃ config trigger, t = .activate id config trigger
      · -- the node was to start a registered cache, which all others have already
        obtain ⟨config, trigger, rfl⟩ := hown
        obtain ⟨hplace, -⟩ := going.course.main_eq ht rfl
        obtain rfl := going.course.todo_eq_nil ht
        have hleft := going.left (going.agrees ht rfl)
        rw [heq, Stage.perform_gone going.gone, hplace]
        exact ⟨.ended going.gone rfl rfl hleft, Or.inr (Or.inl rfl)⟩
      have hstarts : ∀ {k config trigger}, t = .activate k config trigger →
          ∃ r, c.running.get? k = some r := by
        rintro k config trigger rfl
        exact going.runs (fun hk => hown ⟨config, trigger, hk ▸ rfl⟩)
          ⟨j, List.mem_singleton_self j, hdue⟩ rfl
      rcases Stage.effect_perform hstarts with ⟨s, hok, heffect⟩ | ⟨e, -, hentry, -⟩
      · rw [heq, hok]
        exact ⟨going.proceed ht hok heffect, Or.inr (Or.inr (moves_single ht heffect).2)⟩
      · rw [going.course.isEntry_eq_false hdue] at hentry
        cases hentry

theorem Halting.after (schedule : List Turn) :
    ∀ {o : Overlap}, Halting id name others registry forgotten o →
      Halting id name others registry forgotten (o.after schedule) := by
  induction schedule with
  | nil => intro o h; exact h
  | cons turn rest ih => intro o h; exact ih (h.advance turn).1

/-- However far the start is, it can still return. -/
theorem Halting.can_return : ∀ {o : Overlap}, Halting id name others registry forgotten o →
    ∃ schedule, (o.after schedule).returned = true := by
  have hwf := InvImage.wf due Stage.wellFounded_lower.cutExpand
  intro o
  induction o using hwf.induction with
  | _ o ih =>
      intro h
      cases hbusy : o.returned with
      | true => exact ⟨[], hbusy⟩
      | false =>
          obtain ⟨turn, t, ht⟩ := exists_stage? hbusy
          obtain ⟨hhalting, hnone | hreturned | hnearer⟩ := h.advance turn
          · rw [ht] at hnone
            cases hnone
          · exact ⟨[turn], hreturned⟩
          · obtain ⟨schedule, hreturned⟩ := ih _ hnearer hhalting
            exact ⟨turn :: schedule, hreturned⟩

/-- How a start ends whose node has been stopped: `o` is where it waited, `o'` where it has
returned. -/
structure Halted (id : MemberId) (name : String) (o o' : Overlap) : Prop where
  /-- The start succeeds, or fails because the node has stopped. -/
  fault : ∀ j ∈ o'.jobs, j.fault = none ∨ j.fault = some (.nodeStopped name)
  /-- The other members are those of before. -/
  roster : o'.cluster.roster = (o.cluster.roster.leave id).2
  stopped : o'.cluster.running.get? id = none
  /-- Nothing of the node is open. -/
  closed : ∀ {i e}, o'.cluster.fabric.endpoint? i = some e → e.node = name → e.closed ≠ none
  /-- Nothing of it is told of any write. -/
  silent : ∀ {cache i e}, i ∈ o'.cluster.fabric.store.listeners cache →
    o'.cluster.fabric.endpoint? i = some e → e.node ≠ name
  /-- At most the forgotten cache has been registered since. -/
  registry : o'.cluster.registry = o.forgotten?.elim o.cluster.registry fun config =>
    o.cluster.registry.insert config.name config
  /-- No node has started it. -/
  missing : ∀ {config k h}, o.forgotten? = some config → o'.cluster.running.get? k = some h →
    h.caches.get? config.name = none
  /-- All others are where they should be. -/
  rest : Cluster.Uniform { o'.cluster with registry := o.cluster.registry }
  /-- So nothing is amiss if and only if nothing was forgotten or nobody is left to miss it. -/
  uniform : o'.cluster.Uniform ↔ o.forgotten? = none ∨ o'.cluster.roster = []

/-- A start that has returned has left what it leaves. -/
theorem Halting.left (h : Halting id name others registry forgotten o)
    (hreturned : o.returned = true) :
    o.cluster.Gone id name others ∧ o.cluster.Left registry forgotten ∧
      ∀ j ∈ o.jobs, j.fault = none ∨ j.fault = some (.nodeStopped name) := by
  cases h with
  | @going c j todo going =>
      have hagrees := going.meeting.agrees going.gone.linked hreturned
      have hdone := List.all_eq_true.mp hreturned j (List.mem_singleton_self j)
      obtain rfl := going.course.todo_eq_nil_of_isDone hdone
      refine ⟨going.gone, going.left hagrees, fun j' hj' => ?_⟩
      rw [List.mem_singleton.mp hj']
      exact Or.inl going.course.fault
  | @brink c j todo gone brink left =>
      have hdone := List.all_eq_true.mp hreturned j (List.mem_singleton_self j)
      have hmain := (List.append_eq_nil_iff.mp (Job.stages_eq_nil hdone)).2
      cases hmain ▸ brink.main
  | @ended c j gone done fault left =>
      refine ⟨gone, left, fun j' hj' => ?_⟩
      rw [List.mem_singleton.mp hj']
      exact Or.inr fault

theorem forgotten?_free {config : CacheConfig} (h : o.forgotten? = some config) :
    o.cluster.registry.get? config.name = none := by
  have hfree := (Option.filter_eq_some_iff.mp h).2
  rw [Bool.not_eq_true'] at hfree
  exact Table.contains_eq_false_iff.mp hfree

/-- What a start has left is complete if it has forgotten nothing or nobody is there to miss it. -/
theorem uniform_of_left {c : Cluster} (gone : c.Gone id name others)
    (left : c.Left registry forgotten) (rest : Cluster.Uniform { c with registry })
    (h : forgotten = none ∨ c.roster = []) : c.Uniform := by
  rcases h with rfl | hempty
  · have hsame : { c with registry } = c := by
      rw [← Option.elim_none registry, ← left.registry]
    rwa [hsame] at rest
  · have hnobody : ∀ {k h}, c.running.get? k ≠ some h := fun hr => by
      have hm := gone.linked.member_mem hr
      rw [hempty] at hm
      cases hm
    have hagrees : c.Agrees none none :=
      ⟨fun hr => absurd hr hnobody, fun _ _ hr => absurd hr hnobody⟩
    exact hagrees.uniform gone.linked

/-- A member misses the cache that a start has forgotten. -/
theorem roster_eq_nil_of_missing {c : Cluster} (gone : c.Gone id name others)
    (left : c.Left registry forgotten) {config : CacheConfig} (hf : forgotten = some config)
    (missing : ∀ {k h}, c.running.get? k = some h → h.caches.get? config.name = none)
    (u : c.Uniform) : c.roster = [] := by
  refine List.eq_nil_iff_forall_not_mem.mpr fun m hm => ?_
  obtain ⟨h, hr, -⟩ := gone.linked.present.mp hm
  have hname : config.name ∈ c.registry.keys := by
    rw [left.registry, hf]
    exact Table.mem_keys_iff.mpr ⟨config, Table.get?_insert_self _ _ _⟩
  rw [← u.started hr] at hname
  obtain ⟨i, hi⟩ := Table.mem_keys_iff.mp hname
  have hi' : h.caches.get? config.name = some i := hi
  rw [missing hr] at hi'
  cases hi'

theorem halted_of_left {o' : Overlap} (l : o.cluster.Linked)
    (gone : o'.cluster.Gone id name (o.cluster.roster.leave id).2)
    (left : o'.cluster.Left o.cluster.registry o.forgotten?)
    (fault : ∀ j ∈ o'.jobs, j.fault = none ∨ j.fault = some (.nodeStopped name)) :
    Halted id name o o' := by
  have hrest : Cluster.Uniform { o'.cluster with registry := o.cluster.registry } :=
    left.agrees.uniform (gone.linked.withRegistry (fun hc => l.keyed hc) o'.cluster.publisher)
  have hmissing : ∀ {config k h}, o.forgotten? = some config →
      o'.cluster.running.get? k = some h → h.caches.get? config.name = none := by
    intro config k h hf hr
    cases hi : h.caches.get? config.name with
    | none => rfl
    | some i =>
        have hname : config.name ∈ h.cacheNames := Table.mem_keys_iff.mpr ⟨i, hi⟩
        rw [hrest.started hr] at hname
        obtain ⟨current, hc⟩ := Table.mem_keys_iff.mp hname
        have hc' : o.cluster.registry.get? config.name = some current := hc
        rw [forgotten?_free hf] at hc'
        cases hc'
  refine ⟨fault, gone.members, gone.running, gone.closed, gone.silent, left.registry, hmissing,
    hrest, fun u => ?_, uniform_of_left gone left hrest⟩
  cases hf : o.forgotten? with
  | none => exact Or.inl rfl
  | some config =>
      exact Or.inr (roster_eq_nil_of_missing gone left hf (fun hr => hmissing hf hr) u)

/-- Where a start waits, its node can be stopped, and the start goes on without it. -/
theorem halting_stop {c : Cluster} {n : NodeConfig} (hcalm : Calm c n o) (order : Orderly o)
    (meeting : Meeting o) (l : c.Linked)
    (hstop : (o.cluster.stopNode (c.memberIds c.joined)).1 = .ok ()) :
    Halting (c.memberIds c.joined) n.name (o.cluster.roster.leave (c.memberIds c.joined)).2
      o.cluster.registry o.forgotten? (o.stop (c.memberIds c.joined)) := by
  have hstranger : c.stopNode (c.memberIds c.joined) =
      (.error (.nodeNotFound (.id (c.memberIds c.joined))), c) :=
    Cluster.stopNode_eq_self l.running_next
  cases hcalm with
  | fresh =>
      have hstop' : (c.stopNode (c.memberIds c.joined)).1 = .ok () := hstop
      rw [hstranger] at hstop'
      cases hstop'
  | refused done =>
      rw [hstranger] at hstop
      cases hstop
  | @course c' j todo boards course =>
      obtain ⟨k, hr, hname⟩ := boards
      have hgone := hname ▸ Cluster.gone_stopNode order.linked hr
      refine .going ⟨hgone, meeting.stop order.linked _, course, ?_, ?_,
        Cluster.registry_stopNode c' _⟩
      · intro i hi t ht hnode
        obtain ⟨r, hr⟩ := order.runs ht hnode
        exact ⟨r, (Cluster.running_stopNode c' _ i).trans ((if_neg hi).trans hr)⟩
      · unfold forgotten?
        dsimp only
        rw [List.flatMap_singleton, course.findSome?_brought?]

end

/-- **A start that is cut short leaves at most one cache unfinished.** Let a start have come to a
stage after which it waits, and let its node be stopped there. The start can go on and return, and
when it has, nothing of the node is open or listens. If a cache that the node brings along was to be
registered next and its name was free, this cache is registered now and no node has it. With that
exception every node has every registered cache as it is registered. -/
theorem halted_after {c : Cluster} (l : c.Linked) (a : c.Agrees none none) (n : NodeConfig)
    (before : List Turn) (turn : Turn) {t : Stage}
    (ht : ((ofCalls c [.start n]).after before).stage? turn = some t) (waits : t.waits = true) :
    let id := c.memberIds c.joined
    let o := (ofCalls c [.start n]).after (before ++ [turn])
    (o.cluster.stopNode id).1 = .ok () → ∀ later,
      (∃ rest, (((o.stop id).after later).after rest).returned = true) ∧
        (((o.stop id).after later).returned = true →
          Halted id n.name o ((o.stop id).after later)) := by
  intro id o hstop later
  have horder : Orderly o := (orderly_ofCalls l [.start n]).after (before ++ [turn])
  have hmeeting : Meeting o := by
    refine Meeting.after _ (orderly_ofCalls l [.start n]) (meeting_ofCalls a fun {name} h => ?_)
    cases List.mem_singleton.mp h
  have hcalm : Calm c n o := by
    have hlast : o = ((ofCalls c [.start n]).after before).advance turn := List.foldl_append
    rw [hlast]
    exact calm_of_waits l ht waits
  have hhalting := (halting_stop hcalm horder hmeeting l hstop).after later
  refine ⟨hhalting.can_return, fun hreturned => ?_⟩
  obtain ⟨gone, left, hfault⟩ := hhalting.left hreturned
  exact halted_of_left horder.linked gone left hfault

/-- Node `a` starts beside node `b` and is stopped after `x`, the first of the two caches that it
brings along, has started on it. -/
theorem halted_after_first_cache :
    let c := ((Session.fresh id {}).after [.start { name := "b" }]).cluster
    let n : NodeConfig := { name := "a", caches := [{ name := "x" }, { name := "y" }] }
    let before := [(0, none), (0, none)]
    let o := (ofCalls c [.start n]).after (before ++ [(0, none)])
    let o' := (o.stop 1).after
      [(0, none), (0, none), (0, some 0), (0, some 0), (0, none), (0, none)]
    ((ofCalls c [.start n]).after before).stage? (0, none) =
        some (.activate 1 { name := "x" } .static) ∧
      (o.cluster.stopNode 1).1 = .ok () ∧ o'.returned = true ∧
      o.forgotten? = some { name := "y" } ∧ Halted 1 "a" o o' := by
  intro c n before o o'
  have hsound := Session.Sound.fresh Function.injective_id {}
  have hlinked := (hsound.after [.start { name := "b" }]).sound.linked
  have hagrees := Session.agrees_after [.start { name := "b" }] hsound (.empty id {})
  have hstage : ((ofCalls c [.start n]).after before).stage? (0, none) =
      some (.activate 1 { name := "x" } .static) := by decide
  have hstop : (o.cluster.stopNode 1).1 = .ok () := by decide
  have hreturned : o'.returned = true := by decide
  exact ⟨hstage, hstop, hreturned, by decide,
    (halted_after hlinked hagrees n before (0, none) hstage rfl hstop _).2 hreturned⟩

/-- In the end `y` is registered, but `b` has only `x`, and the start has failed. -/
theorem second_cache_missing :
    let c := ((Session.fresh id {}).after [.start { name := "b" }]).cluster
    let o := (ofCalls c
      [.start { name := "a", caches := [{ name := "x" }, { name := "y" }] }]).after
        [(0, none), (0, none), (0, none)]
    let o' := (o.stop 1).after
      [(0, none), (0, none), (0, some 0), (0, some 0), (0, none), (0, none)]
    (o.cluster.stopNode 1).1 = .ok () ∧ o'.returned = true ∧
      o'.jobs.map Job.fault = [some (.nodeStopped "a")] ∧
      o'.cluster.registry.keys = ["x", "y"] ∧
      (o'.cluster.running.get? 0).map Host.cacheNames = some ["x"] := by
  decide

end Overlap

end NearCache
