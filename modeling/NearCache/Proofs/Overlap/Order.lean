import NearCache.Proofs.Cluster.Agreement
import NearCache.Proofs.Overlap.Basic

/-!
# What overlapping calls have in common

Whatever an invariant says of overlapping calls, it has to be kept by one turn. `Stage.Effect` lists
what a turn can do to the cluster, and `Overlap.Moves` what it does to the stages to come; which job
had the turn does not matter beyond that.

The list is short because no stage fails on the way: nodes do not stop here, so a node that something
starts on still runs (`Orderly.runs`). Only the first stage of a call is ever refused, and then
nothing else of that call is to come.
-/

namespace NearCache

namespace Cluster

/-! ## What a node carries -/

/-- A running node has started a cache, as an endpoint under a configuration. -/
def Carries (c : Cluster) (id : MemberId) (name : String) (i : EndpointId)
    (config : CacheConfig) : Prop :=
  ∃ h e, c.running.get? id = some h ∧ h.caches.get? name = some i ∧
    c.fabric.endpoint? i = some e ∧ e.config = config

variable {c : Cluster} {id : MemberId} {name : String} {i : EndpointId} {config : CacheConfig}

theorem Linked.carries (l : Linked c) {h : Host} (hr : c.running.get? id = some h)
    (hi : h.caches.get? name = some i) : ∃ config, c.Carries id name i config := by
  obtain ⟨e, he, -⟩ := l.hosted (running_eq_some_iff.mp hr).1 hi
  exact ⟨e.config, h, e, hr, hi, he, rfl⟩

/-- An endpoint is carried by one node, under one name and one configuration. -/
theorem Carries.unique (l : Linked c) (h : c.Carries id name i config) {id' : MemberId}
    {name' : String} {config' : CacheConfig} (h' : c.Carries id' name' i config') :
    id = id' ∧ name = name' ∧ config = config' := by
  obtain ⟨k, e, hr, hi, he, rfl⟩ := h
  obtain ⟨k', e', hr', hi', he', rfl⟩ := h'
  obtain ⟨rfl, rfl⟩ :=
    l.unshared (running_eq_some_iff.mp hr).1 hi (running_eq_some_iff.mp hr').1 hi'
  rw [he] at he'
  cases he'
  exact ⟨rfl, rfl, rfl⟩

/-- An endpoint has the configuration that it had before, if it was there before. -/
theorem Linked.carried (l : Linked c) {c' : Cluster} (hs : Steps c c') {h : Host} {e : Endpoint}
    (hr : c.running.get? id = some h) (hi : h.caches.get? name = some i)
    (he : c'.fabric.endpoint? i = some e) : c.Carries id name i e.config := by
  obtain ⟨e₀, he₀, -⟩ := l.hosted (running_eq_some_iff.mp hr).1 hi
  obtain ⟨e', he', hconfig⟩ := (hs.precedes l).config he₀
  rw [he] at he'
  cases he'
  exact ⟨h, e₀, hr, hi, he₀, hconfig.symm⟩

/-- A cache that is taken from a node is not there any more, and nothing else has changed. -/
theorem Linked.carries_deactivateOn (l : Linked c) {j : MemberId} {n : String}
    (h : (c.deactivateOn j n).Carries id name i config) :
    c.Carries id name i config ∧ ¬ (id = j ∧ name = n) := by
  obtain ⟨k, e, hr, hi, he, rfl⟩ := h
  obtain ⟨hk, hs⟩ := running_eq_some_iff.mp hr
  have hsteps := steps_deactivateOn c j n
  rw [host?_deactivateOn] at hk
  split at hk
  · next hid =>
    obtain ⟨k₀, hk₀, rfl⟩ := Option.map_eq_some_iff.mp hk
    rw [Table.get?_erase] at hi
    split at hi
    · cases hi
    · next hne =>
      have hr₀ : c.running.get? id = some k₀ := running_eq_some_iff.mpr ⟨hid ▸ hk₀, hs⟩
      exact ⟨l.carried hsteps hr₀ hi he, fun heq => hne heq.2⟩
  · next hid =>
    exact ⟨l.carried hsteps (running_eq_some_iff.mpr ⟨hk, hs⟩) hi he, fun heq => hid heq.1⟩

/-- A cache that starts on a node is there, under the next number; all else was there before. -/
theorem Linked.carries_starting (l : Linked c) {j : MemberId} {k : Host}
    (runs : c.running.get? j = some k) {A : CacheConfig} (new : k.caches.get? A.name = none)
    (h : (c.starting j k A).Carries id name i config) :
    c.Carries id name i config ∨
      (id = j ∧ name = A.name ∧ i = c.fabric.started ∧ config = A) := by
  obtain ⟨k', e, hr, hi, he, rfl⟩ := h
  have hsteps : Steps c (c.starting j k A) := .single (.start c runs new)
  rw [running_starting runs] at hr
  split at hr
  · next hid =>
    subst hid
    cases hr
    rw [Table.get?_insert] at hi
    split at hi
    · next hname =>
      cases hi
      have he' : (c.fabric.start _ _ _).2.endpoint? c.fabric.started = some e := he
      rw [Fabric.endpoint?_start, if_pos rfl] at he'
      cases he'
      exact Or.inr ⟨rfl, hname, rfl, rfl⟩
    · exact Or.inl (l.carried hsteps runs hi he)
  · exact Or.inl (l.carried hsteps hr hi he)

end Cluster

namespace Stage

/-! ## What a stage can do -/

/-- The node on which a stage starts something. -/
def node? : Stage → Option MemberId
  | register id _ => some id
  | activate id _ _ => some id
  | join id => some id
  | _ => none

/-- What a stage can do to a cluster in which its node runs, and the stages that it leads to. -/
inductive Effect (c : Cluster) : Stage → List Stage → Cluster → Prop where
  /-- A call is refused, or there is nothing for it to do. -/
  | refused {t : Stage} (entry : t.isEntry = true) : Effect c t [] c
  | enrol {n : NodeConfig} (free : ∀ m ∈ c.roster, m.name ≠ n.name) :
      Effect c (.enrol n)
        (n.staticCaches.map (register (c.memberIds c.joined)) ++ [.join (c.memberIds c.joined)])
        ((c.enrolling n).publish (.nodeJoined n.name n.role.isClient))
  /-- A cache that a node brings along gives way to the one that is registered. -/
  | adopt {id : MemberId} {config first : CacheConfig}
      (known : c.registry.get? config.name = some first) :
      Effect c (.register id config) [.activate id first .static, .spread first (some id)] c
  | register {id : MemberId} {config : CacheConfig}
      (free : c.registry.get? config.name = none) :
      Effect c (.register id config) [.activate id config .static, .spread config (some id)]
        { c with registry := c.registry.insert config.name config }
  | create {creator : MemberId} {config : CacheConfig}
      (free : c.registry.get? config.name = none) :
      Effect c (.create creator config) [.spread config none]
        { c with registry := c.registry.insert config.name config }
  /-- The cache has started on the node before. -/
  | again {id : MemberId} {config : CacheConfig} {t : Trigger} {h : Host} {i : EndpointId}
      (runs : c.running.get? id = some h) (started : h.caches.get? config.name = some i) :
      Effect c (.activate id config t) [.confirm id config.name] c
  | activate {id : MemberId} {config : CacheConfig} {t : Trigger} {h : Host}
      (runs : c.running.get? id = some h) (new : h.caches.get? config.name = none)
      (es : List Event) :
      Effect c (.activate id config t) [.confirm id config.name]
        ((c.starting id h config).publishAll es)
  | confirm {id : MemberId} {name : String} {config : CacheConfig}
      (registered : c.registry.get? name = some config) : Effect c (.confirm id name) [] c
  | withdraw {id : MemberId} {name : String} (gone : c.registry.get? name = none) :
      Effect c (.confirm id name) [] (c.deactivateOn id name)
  | spread (config : CacheConfig) (skip : Option MemberId) :
      Effect c (.spread config skip)
        ((c.running.keys.filter fun id => some id ≠ skip).map fun id => .activate id config .dynamic)
        c
  | join (id : MemberId) :
      Effect c (.join id) (c.registry.values.map fun config => .activate id config .join) c
  | unregister {name : String} (registered : c.registry.contains name = true) :
      Effect c (.unregister name) [.sweep name, .drop name]
        { c with registry := c.registry.erase name }
  | sweep (name : String) :
      Effect c (.sweep name) (c.running.keys.map fun id => .deactivate id name) c
  | deactivate (id : MemberId) (name : String) :
      Effect c (.deactivate id name) [] (c.deactivateOn id name)
  | drop (name : String) :
      Effect c (.drop name) []
        ({ c with fabric := c.fabric.destroy name }.publish (.cacheDestroyed name))

private theorem flatten_singletons (ids : List MemberId) (f : MemberId → Stage) :
    (ids.map fun id => [f id]).flatten = ids.map f := by
  rw [← List.flatMap_def, ← List.map_eq_flatMap]

variable {c : Cluster} {t : Stage}

/-- A stage has one of the effects, if the node on which it starts a cache runs. It fails only if a
call begins with it, and then it leaves the cluster alone. -/
theorem effect_perform
    (runs : ∀ {id config trigger}, t = .activate id config trigger →
      ∃ h, c.running.get? id = some h) :
    (∃ s, (t.perform c).1 = .ok s ∧ t.Effect c s.stages (t.perform c).2) ∨
      ∃ e, (t.perform c).1 = .error e ∧ t.isEntry = true ∧ (t.perform c).2 = c := by
  cases t with
  | enrol n =>
      unfold perform
      dsimp only
      cases he : c.enrol n with
      | error e => exact Or.inr ⟨e, rfl, rfl, rfl⟩
      | ok r =>
          obtain ⟨id, c'⟩ := r
          obtain ⟨rfl, free, rfl⟩ := Cluster.enrol_eq_ok he
          refine Or.inl ⟨_, rfl, ?_⟩
          rw [Sequel.stages, List.flatten_nil, List.append_nil]
          exact .enrol free
  | register id config =>
      unfold perform Cluster.registerStatic
      dsimp only
      cases hr : c.registry.get? config.name with
      | some first => exact Or.inl ⟨_, rfl, .adopt hr⟩
      | none => exact Or.inl ⟨_, rfl, .register hr⟩
  | create creator config =>
      unfold perform
      dsimp only
      cases config.check with
      | error e => exact Or.inr ⟨e, rfl, rfl, rfl⟩
      | ok u =>
          dsimp only
          split
          · exact Or.inr ⟨_, rfl, rfl, rfl⟩
          · split
            · exact Or.inr ⟨_, rfl, rfl, rfl⟩
            · next free =>
              rw [Bool.not_eq_true, Table.contains_eq_false_iff] at free
              exact Or.inl ⟨_, rfl, .create free⟩
  | activate id config trigger =>
      obtain ⟨h, hr⟩ := runs rfl
      unfold perform
      dsimp only
      cases hi : h.caches.get? config.name with
      | some i =>
          rw [Cluster.activateOn_eq_self hr hi trigger]
          exact Or.inl ⟨_, rfl, .again hr hi⟩
      | none =>
          rw [Cluster.activateOn_eq_starting hr hi trigger]
          exact Or.inl ⟨_, rfl, .activate hr hi _⟩
  | confirm id name =>
      refine Or.inl ⟨_, rfl, ?_⟩
      show Effect c (.confirm id name) [] (c.confirm id name)
      cases hc : c.registry.get? name with
      | some config =>
          rw [Cluster.confirm_eq_self hc]
          exact .confirm hc
      | none =>
          unfold Cluster.confirm
          rw [if_neg (by rw [Table.contains_eq_false_iff.mpr hc]; exact Bool.false_ne_true)]
          exact .withdraw hc
  | spread config skip =>
      refine Or.inl ⟨_, rfl, ?_⟩
      rw [Sequel.stages, List.nil_append, flatten_singletons]
      exact .spread config skip
  | join id =>
      refine Or.inl ⟨_, rfl, ?_⟩
      rw [Sequel.stages, List.flatten_nil, List.append_nil]
      exact .join id
  | unregister name =>
      unfold perform
      dsimp only
      split
      · next hc => exact Or.inl ⟨_, rfl, .unregister hc⟩
      · exact Or.inl ⟨_, rfl, .refused rfl⟩
  | sweep name =>
      refine Or.inl ⟨_, rfl, ?_⟩
      rw [Sequel.stages, List.nil_append, flatten_singletons]
      exact .sweep name
  | deactivate id name => exact Or.inl ⟨_, rfl, .deactivate id name⟩
  | drop name => exact Or.inl ⟨_, rfl, .drop name⟩

namespace Effect

variable {next : List Stage} {c' : Cluster}

theorem linked (l : c.Linked) (h : t.Effect c next c') : c'.Linked := by
  cases h with
  | refused | adopt | again | confirm | spread | join | sweep => exact l
  | enrol free =>
      have henrol : Cluster.Step c (c.enrolling _) := .enrol c rfl free
      exact (l.step henrol).step (.publish _ _)
  | register free => exact l.step (.register c free)
  | create free => exact l.step (.register c free)
  | activate runs new es => exact (l.step (.start c runs new)).step (.publish _ _)
  | withdraw => exact l.steps (Cluster.steps_deactivateOn c _ _)
  | deactivate id name => exact l.steps (Cluster.steps_deactivateOn c id name)
  | unregister =>
      refine l.step (.unregister c fun hn => ?_)
      rw [Table.get?_erase] at hn
      split at hn
      · cases hn
      · exact hn
  | drop name =>
      -- other nodes may have started a cache of the same name meanwhile
      have hdropped : Cluster.Linked { c with fabric := c.fabric.destroy name } :=
        l.withFabric (Fabric.Serves.withStore rfl rfl (.destroy _ _))
      exact hdropped.step (.publish _ _)

/-- No stage takes an endpoint away or gives it another configuration. -/
theorem precedes (l : c.Linked) (h : t.Effect c next c') : c.fabric.Precedes c'.fabric := by
  cases h with
  | refused | enrol | adopt | register | create | again | confirm | spread | join | unregister
  | sweep => exact .refl _
  | activate runs new => exact (Cluster.Step.start c runs new).precedes l
  | withdraw => exact (Cluster.steps_deactivateOn c _ _).precedes l
  | deactivate => exact (Cluster.steps_deactivateOn c _ _).precedes l
  | drop => exact ⟨fun he => ⟨_, he, rfl⟩, .destroy _ _⟩

/-- No stage leads to the beginning of a call. -/
theorem isEntry_eq_false (h : t.Effect c next c') {x : Stage} (hx : x ∈ next) :
    x.isEntry = false := by
  cases h <;> simp at hx
  case enrol => rcases hx with ⟨config, -, rfl⟩ | rfl <;> rfl
  case adopt | register => rcases hx with rfl | rfl <;> rfl
  case create | again | activate => rw [hx]; rfl
  case spread | join | sweep => obtain ⟨_, -, rfl⟩ := hx; rfl
  case unregister => rcases hx with rfl | rfl <;> rfl

/-- Who runs goes on running. -/
theorem runs (l : c.Linked) (h : t.Effect c next c') {id : MemberId} {k : Host}
    (hr : c.running.get? id = some k) :
    ∃ k', c'.running.get? id = some k' ∧ k'.member = k.member := by
  have htaken : ∀ j name, ∃ k', (c.deactivateOn j name).running.get? id = some k' ∧
      k'.member = k.member := by
    intro j name
    obtain ⟨hk, hs⟩ := Cluster.running_eq_some_iff.mp hr
    by_cases hj : id = j
    · refine ⟨{ k with caches := k.caches.erase name },
        Cluster.running_eq_some_iff.mpr ⟨?_, hs⟩, rfl⟩
      rw [Cluster.host?_deactivateOn, if_pos hj, ← hj, hk]
      rfl
    · refine ⟨k, Cluster.running_eq_some_iff.mpr ⟨?_, hs⟩, rfl⟩
      rw [Cluster.host?_deactivateOn, if_neg hj, hk]
  cases h with
  | refused | adopt | register | create | again | confirm | spread | join | unregister | sweep
  | drop => exact ⟨k, hr, rfl⟩
  | enrol free => exact ⟨k, l.running_enrolling _ hr, rfl⟩
  | @activate j config _ _ runs new es =>
      have hrun := Cluster.running_starting runs config id
      by_cases hj : id = j
      · subst hj
        rw [runs] at hr
        cases hr
        exact ⟨_, hrun.trans (if_pos rfl), rfl⟩
      · exact ⟨k, hrun.trans ((if_neg hj).trans hr), rfl⟩
  | withdraw => exact htaken _ _
  | deactivate id name => exact htaken _ _

/-- What a node carries was there before, or it has just started there. -/
theorem carries (l : c.Linked) (h : t.Effect c next c') {id : MemberId} {name : String}
    {i : EndpointId} {config : CacheConfig} (hc : c'.Carries id name i config) :
    c.Carries id name i config ∨
      (i = c.fabric.started ∧ name = config.name ∧ ∃ trigger, t = .activate id config trigger) := by
  cases h with
  | refused | adopt | register | create | again | confirm | spread | join | unregister | sweep
  | drop => exact Or.inl hc
  | @enrol n free =>
      obtain ⟨k, e, hr, hi, he, rfl⟩ := hc
      have hr' := (Cluster.running_enrolling c n id).symm.trans hr
      split at hr'
      · cases hr'
        cases hi
      · exact Or.inl ⟨k, e, hr', hi, he, rfl⟩
  | @activate j A trigger k runs new es =>
      rcases l.carries_starting runs new hc with hc | ⟨rfl, rfl, rfl, rfl⟩
      · exact Or.inl hc
      · exact Or.inr ⟨rfl, rfl, trigger, rfl⟩
  | withdraw => exact Or.inl (l.carries_deactivateOn hc).1
  | deactivate => exact Or.inl (l.carries_deactivateOn hc).1

/-- A registered cache stays registered under its configuration, unless it is destroyed. -/
theorem registered (h : t.Effect c next c') {name : String} {config : CacheConfig}
    (hc : c.registry.get? name = some config) :
    c'.registry.get? name = some config ∨ (t = .unregister name ∧ .sweep name ∈ next) := by
  have hinsert : ∀ {A : CacheConfig}, c.registry.get? A.name = none →
      (c.registry.insert A.name A).get? name = some config := by
    intro A free
    rw [Table.get?_insert, if_neg, hc]
    intro hname
    rw [hname, free] at hc
    cases hc
  cases h with
  | refused | enrol | adopt | again | activate | confirm | spread | join | sweep | drop =>
      exact Or.inl hc
  | register free => exact Or.inl (hinsert free)
  | create free => exact Or.inl (hinsert free)
  | withdraw => exact Or.inl ((Cluster.registry_deactivateOn c _ _).symm ▸ hc)
  | deactivate => exact Or.inl ((Cluster.registry_deactivateOn c _ _).symm ▸ hc)
  | @unregister n _ =>
      by_cases hname : name = n
      · subst hname
        exact Or.inr ⟨rfl, List.mem_cons_self⟩
      · left
        show (c.registry.erase n).get? name = some config
        rw [Table.get?_erase, if_neg hname, hc]

/-- What a stage leads to happens on nodes that run. -/
theorem node_runs (h : t.Effect c next c') {x : Stage} (hx : x ∈ next) {id : MemberId}
    (hid : x.node? = some id) (ht : t.node? = some id → ∃ k, c.running.get? id = some k) :
    ∃ k, c'.running.get? id = some k := by
  cases h <;> simp at hx
  case enrol n free =>
      have hnode : id = c.memberIds c.joined := by
        rcases hx with ⟨config, -, rfl⟩ | rfl <;> exact (Option.some.inj hid).symm
      exact ⟨_, (Cluster.running_enrolling c n id).trans (if_pos hnode)⟩
  case adopt | register =>
      rcases hx with rfl | rfl
      · exact ht hid
      · cases hid
  case create | again | activate => rw [hx] at hid; cases hid
  case spread config skip =>
      obtain ⟨j, ⟨hj, -⟩, rfl⟩ := hx
      cases hid
      exact Table.mem_keys_iff.mp hj
  case join j =>
      obtain ⟨config, -, rfl⟩ := hx
      exact ht hid
  case sweep => obtain ⟨_, -, rfl⟩ := hx; cases hid
  case unregister => rcases hx with rfl | rfl <;> cases hid

end Effect

end Stage

namespace Overlap

/-! ## What a turn does -/

variable {o : Overlap}

/-- What a turn comes to. -/
structure Moves (o : Overlap) (t : Stage) (next : List Stage) (o' : Overlap) : Prop where
  effect : t.Effect o.cluster next o'.cluster
  due : o.Pending t
  kept : ∀ {x}, o.Pending x → x = t ∨ o'.Pending x
  added : ∀ {x}, x ∈ next → o'.Pending x
  only : ∀ {x}, o'.Pending x → o.Pending x ∨ x ∈ next

/-- If a node runs as long as something is to happen on it, it does so after a turn. -/
theorem Moves.runs {o' : Overlap} {t : Stage} {next : List Stage} (m : Moves o t next o')
    (l : o.cluster.Linked) {id : MemberId}
    (runs : ∀ {x}, o.Pending x → x.node? = some id → ∃ h, o.cluster.running.get? id = some h)
    {x : Stage} (hx : o'.Pending x) (hid : x.node? = some id) :
    ∃ h, o'.cluster.running.get? id = some h := by
  rcases m.only hx with hx | hx
  · obtain ⟨k, hk⟩ := runs hx hid
    obtain ⟨k', hk', -⟩ := m.effect.runs l hk
    exact ⟨k', hk'⟩
  · exact m.effect.node_runs hx hid (runs m.due)

/-- What every overlap of calls keeps. -/
structure Orderly (o : Overlap) : Prop where
  linked : o.cluster.Linked
  /-- As long as a call has not begun, its job is as it was made. -/
  entries : ∀ {j t}, j ∈ o.jobs → t ∈ j.stages → t.isEntry = true → j = .ofCall j.call
  runs : ∀ {t id}, o.Pending t → t.node? = some id → ∃ h, o.cluster.running.get? id = some h

theorem orderly_ofCalls {c : Cluster} (l : c.Linked) (calls : List Call) :
    Orderly (ofCalls c calls) where
  linked := l
  entries {j t} hj _ _ := by
    obtain ⟨call, -, rfl⟩ := List.mem_map.mp hj
    rfl
  runs {t id} ht hid := by
    obtain ⟨j, hj, ht⟩ := ht
    obtain ⟨call, -, rfl⟩ := List.mem_map.mp hj
    have ht' : t ∈ [call.entry] := ht
    rw [List.mem_singleton.mp ht'] at hid
    cases call <;> cases hid

/-- A cache starts only on nodes that run. -/
theorem Orderly.starts (h : Orderly o) {t : Stage} (ht : o.Pending t) {id : MemberId}
    {config : CacheConfig} {trigger : Trigger} (heq : t = .activate id config trigger) :
    ∃ k, o.cluster.running.get? id = some k :=
  h.runs ht (heq ▸ rfl)

/-- A call that has not begun has its first stage to come and no other. -/
theorem Orderly.stages_eq (h : Orderly o) {j : Job} {t : Stage} (hj : j ∈ o.jobs)
    (ht : t ∈ j.stages) (hentry : t.isEntry = true) : j.stages = [t] := by
  have hnew := h.entries hj ht hentry
  rw [hnew] at ht ⊢
  have ht' : t ∈ [j.call.entry] := ht
  rw [List.mem_singleton.mp ht']
  rfl

/-- A job gives one stage for those that it leads to. -/
theorem Orderly.proceed (h : Orderly o) {j : Job} (hj : j ∈ o.jobs) {place : Option Nat}
    {t : Stage} (ht : j.stage? place = some t) :
    ∃ next, t.Effect o.cluster next (t.perform o.cluster).2 ∧
      (j.proceed place (t.perform o.cluster).1).stages.Perm (next ++ j.stages.erase t) := by
  have hdue : t ∈ j.stages := Job.mem_of_stage? ht
  rcases Stage.effect_perform (h.starts ⟨j, hj, hdue⟩) with
    ⟨s, hok, heffect⟩ | ⟨e, herr, hentry, hsame⟩
  · refine ⟨s.stages, heffect, ?_⟩
    rw [hok]
    exact Job.perm_proceed_erase ht s
  · have hlone := h.stages_eq hj hdue hentry
    refine ⟨[], hsame.symm ▸ .refused hentry, ?_⟩
    rw [herr, Job.stages_proceed_error ht hlone, hlone, List.erase_cons_head]
    exact .refl _

/-- A job that has had a turn has begun. -/
theorem Orderly.isEntry_eq_false (h : Orderly o) {j : Job} (hj : j ∈ o.jobs) {place : Option Nat}
    {t : Stage} (ht : j.stage? place = some t) {x : Stage}
    (hx : x ∈ (j.proceed place (t.perform o.cluster).1).stages) : x.isEntry = false := by
  obtain ⟨next, heffect, hperm⟩ := h.proceed hj ht
  rw [hperm.mem_iff, List.mem_append] at hx
  rcases hx with hx | hx
  · exact heffect.isEntry_eq_false hx
  · by_contra hentry
    rw [Bool.not_eq_false] at hentry
    -- a job that has not begun has no stage beside its first
    have hlone := h.stages_eq hj (List.mem_of_mem_erase hx) hentry
    have hdue : t ∈ j.stages := Job.mem_of_stage? ht
    rw [hlone] at hdue hx
    rw [List.mem_singleton.mp hdue, List.erase_cons_head] at hx
    cases hx

/-- What becomes of the stages when a job has had its turn. -/
theorem moves_set {turn : Nat} {j j' : Job} {t : Stage} {next : List Stage} {c' : Cluster}
    (hj : o.jobs[turn]? = some j) (hdue : t ∈ j.stages) (heffect : t.Effect o.cluster next c')
    (hstages : ∀ {x}, x ∈ j'.stages ↔ x ∈ next ∨ x ∈ j.stages.erase t) :
    Moves o t next ⟨c', o.jobs.set turn j'⟩ := by
  have hmem : j ∈ o.jobs := List.mem_of_getElem? hj
  have hmem' : j' ∈ o.jobs.set turn j' := List.mem_set (List.getElem?_eq_some_iff.mp hj).1 _
  refine ⟨heffect, ⟨j, hmem, hdue⟩, ?_, ?_, ?_⟩
  · rintro x ⟨k, hk, hx⟩
    by_cases hxt : x = t
    · exact Or.inl hxt
    · obtain ⟨n, hn⟩ := List.getElem?_of_mem hk
      by_cases hturn : turn = n
      · subst hturn
        rw [hj] at hn
        cases hn
        exact Or.inr ⟨j', hmem', hstages.mpr (Or.inr ((List.mem_erase_of_ne hxt).mpr hx))⟩
      · refine Or.inr ⟨k, List.mem_of_getElem? (i := n) ?_, hx⟩
        rw [List.getElem?_set_ne hturn, hn]
  · intro x hx
    exact ⟨j', hmem', hstages.mpr (Or.inl hx)⟩
  · rintro x ⟨k, hk, hx⟩
    rcases List.mem_or_eq_of_mem_set hk with hk | rfl
    · exact Or.inl ⟨k, hk, hx⟩
    · exact (hstages.mp hx).symm.imp_left fun hx => ⟨j, hmem, List.mem_of_mem_erase hx⟩

/-- A turn does nothing, or it does what a stage can do and keeps order. -/
theorem Orderly.advance (h : Orderly o) (turn : Turn) :
    (o.stage? turn = none ∧ o.advance turn = o) ∨ ∃ t next,
      o.stage? turn = some t ∧ Moves o t next (o.advance turn) ∧ Orderly (o.advance turn) := by
  rcases advance_cases o turn with hidle | ⟨j, t, hstage, hj, ht, heq⟩
  · exact Or.inl hidle
  have hmem : j ∈ o.jobs := List.mem_of_getElem? hj
  obtain ⟨next, heffect, hperm⟩ := h.proceed hmem ht
  generalize hproceed : j.proceed turn.2 (t.perform o.cluster).1 = j' at heq hperm
  rw [heq]
  have hmoves : Moves o t next ⟨(t.perform o.cluster).2, o.jobs.set turn.1 j'⟩ := by
    refine moves_set hj (Job.mem_of_stage? ht) heffect fun {x} => ?_
    rw [← List.mem_append]
    exact hperm.mem_iff
  refine Or.inr ⟨t, next, hstage, hmoves, heffect.linked h.linked, ?_, ?_⟩
  · intro k x hk hx hentry
    rcases List.mem_or_eq_of_mem_set hk with hk | rfl
    · exact h.entries hk hx hentry
    · rw [← hproceed] at hx
      rw [h.isEntry_eq_false hmem ht hx] at hentry
      cases hentry
  · intro x id hx hid
    exact hmoves.runs h.linked h.runs hx hid

end Overlap

end NearCache
