import NearCache.Proofs.Overlap.Progress
import NearCache.Proofs.Overlap.Returns

/-!
# The course of a start

What the job of a start looks like on its way. The node enrols. Each cache that it brings along is
registered, starts on the node, is confirmed, and is spread to the other nodes; then the registered
caches start on the node. `Stage.Course` lists the stages that may be to come where other calls can
come between, with the caches that are still to be registered.

One moment is not among them, for nothing can come between there: a cache has been registered and
has not been started yet (`Stage.Brink`). A turn leads there if and only if it registers a cache,
and the next turn leads on (`OnCourse.proceed`, `OnBrink.proceed`). As long as the node runs,
nothing fails on the way (`Calm.advance`, `Poised.advance`), and so wherever a start waits it is
between two stages (`calm_of_waits`).
-/

namespace NearCache

namespace Stage

/-- A stage in which a cache of the node is brought to another node. -/
inductive Spreads (id : MemberId) : Stage → Prop where
  | activate {j : MemberId} (other : j ≠ id) (config : CacheConfig) :
      Spreads id (.activate j config .dynamic)
  | confirm (j : MemberId) (name : String) : Spreads id (.confirm j name)

/-- A stage in which a registered cache is brought to the node. -/
inductive Joins (id : MemberId) : Stage → Prop where
  | activate (config : CacheConfig) : Joins id (.activate id config .join)
  | confirm (name : String) : Joins id (.confirm id name)

/-- The caches are still to be registered and the registry is to be read. -/
def ahead (id : MemberId) (todo : List CacheConfig) : List Stage :=
  todo.map (.register id) ++ [.join id]

/-- The stages of a start between two stages, with the caches that are still to be registered. -/
inductive Course (id : MemberId) : List CacheConfig → List Stage → Prop where
  | statics (todo : List CacheConfig) : Course id todo (ahead id todo)
  | started (name : String) (config : CacheConfig) (todo : List CacheConfig) :
      Course id todo (.confirm id name :: .spread config (some id) :: ahead id todo)
  | confirmed (config : CacheConfig) (todo : List CacheConfig) :
      Course id todo (.spread config (some id) :: ahead id todo)
  | joining {main : List Stage} (joins : ∀ t ∈ main, t.Joins id) : Course id [] main

/-- A cache has just been registered. -/
inductive Brink (id : MemberId) (todo : List CacheConfig) : List Stage → Prop where
  | mk (config : CacheConfig) :
      Brink id todo (.activate id config .static :: .spread config (some id) :: ahead id todo)

/-- The cache that a stage registers for a node that brings it along. -/
def brought? : Stage → Option CacheConfig
  | register _ config => some config
  | _ => none

variable {c : Cluster} {id : MemberId} {todo : List CacheConfig} {t : Stage} {tail : List Stage}
  {s : Sequel}

/-- A cache that starts is to be confirmed. -/
theorem perform_activate_ok {config : CacheConfig} {trigger : Trigger}
    (h : ((activate id config trigger).perform c).1 = .ok s) :
    s = { next := [.confirm id config.name] } := by
  unfold perform at h
  dsimp only at h
  cases ha : c.activateOn id config trigger with
  | mk r c' =>
      rw [ha] at h
      cases r <;> cases h
      rfl

/-- What a start goes on with. -/
theorem Course.perform (h : Course id todo (t :: tail)) (hok : (t.perform c).1 = .ok s) :
    (∀ x ∈ s.beside.flatten, x.Spreads id) ∧
      ((∃ config todo', t = .register id config ∧ todo = config :: todo' ∧ s.beside = [] ∧
          Brink id todo' (s.next ++ tail)) ∨
        t.brought? = none ∧ Course id todo (s.next ++ tail)) := by
  have hnone : ∀ x ∈ ([] : List (List Stage)).flatten, x.Spreads id := fun x hx => by cases hx
  generalize hmain : t :: tail = main at h
  cases h with
  | statics =>
      cases todo with
      | nil =>
          -- the registry is read
          cases hmain
          cases hok
          refine ⟨hnone, Or.inr ⟨rfl, ?_⟩⟩
          refine .joining fun x hx => ?_
          rw [List.append_nil] at hx
          obtain ⟨config, -, rfl⟩ := List.mem_map.mp hx
          exact .activate config
      | cons config todo' =>
          cases hmain
          cases hok
          exact ⟨hnone, Or.inl ⟨config, todo', rfl, rfl, rfl, .mk _⟩⟩
  | started name config =>
      cases hmain
      cases hok
      exact ⟨hnone, Or.inr ⟨rfl, .confirmed config todo⟩⟩
  | confirmed config =>
      cases hmain
      cases hok
      refine ⟨fun x hx => ?_, Or.inr ⟨rfl, .statics todo⟩⟩
      obtain ⟨strand, hstrand, hx⟩ := List.mem_flatten.mp hx
      obtain ⟨j, hj, rfl⟩ := List.mem_map.mp hstrand
      have hskip := of_decide_eq_true (List.mem_filter.mp hj).2
      rw [List.mem_singleton.mp hx]
      exact .activate (fun h => hskip (congrArg some h)) config
  | joining joins =>
      subst hmain
      have htail : ∀ x ∈ tail, x.Joins id := fun x hx => joins x (List.mem_cons_of_mem t hx)
      cases joins t List.mem_cons_self with
      | activate config =>
          rw [perform_activate_ok hok]
          refine ⟨hnone, Or.inr ⟨rfl, .joining ?_⟩⟩
          intro x hx
          rcases List.mem_cons.mp hx with rfl | hx
          · exact .confirm config.name
          · exact htail x hx
      | confirm name =>
          cases hok
          exact ⟨hnone, Or.inr ⟨rfl, .joining htail⟩⟩

/-- After the registration of a cache comes its start. -/
theorem Brink.perform (h : Brink id todo (t :: tail)) (hok : (t.perform c).1 = .ok s) :
    s.beside = [] ∧ t.brought? = none ∧ Course id todo (s.next ++ tail) := by
  cases h with
  | mk config =>
      rw [perform_activate_ok hok]
      exact ⟨rfl, rfl, .started config.name config todo⟩

/-- A cache that is spread is confirmed where it has started. -/
theorem Spreads.perform (h : t.Spreads id) (hok : (t.perform c).1 = .ok s) :
    s.beside = [] ∧ t.brought? = none ∧ ∀ x ∈ s.next, x.Spreads id := by
  cases h with
  | @activate j other config =>
      rw [perform_activate_ok hok]
      refine ⟨rfl, rfl, fun x hx => ?_⟩
      rw [List.mem_singleton.mp hx]
      exact .confirm j config.name
  | confirm j name =>
      cases hok
      exact ⟨rfl, rfl, fun x hx => by cases hx⟩

/-- No stage on the way is the beginning of a call. -/
theorem Course.isEntry_eq_false (h : Course id todo tail) (ht : t ∈ tail) : t.isEntry = false := by
  have hahead : ∀ {todo}, t ∈ ahead id todo → t.isEntry = false := by
    intro todo ht
    rcases List.mem_append.mp ht with ht | ht
    · obtain ⟨config, -, rfl⟩ := List.mem_map.mp ht
      rfl
    · rw [List.mem_singleton.mp ht]
      rfl
  cases h with
  | statics => exact hahead ht
  | started =>
      rcases List.mem_cons.mp ht with rfl | ht
      · rfl
      rcases List.mem_cons.mp ht with rfl | ht
      · rfl
      · exact hahead ht
  | confirmed =>
      rcases List.mem_cons.mp ht with rfl | ht
      · rfl
      · exact hahead ht
  | joining joins => cases joins t ht <;> rfl

theorem Spreads.isEntry_eq_false (h : t.Spreads id) : t.isEntry = false := by
  cases h <;> rfl

theorem Brink.isEntry_eq_false (h : Brink id todo (t :: tail)) : t.isEntry = false := by
  cases h
  rfl

end Stage

namespace Job

/-- The job of a start between two stages: beside it goes on what was spread last. -/
structure OnCourse (id : MemberId) (todo : List CacheConfig) (j : Job) : Prop where
  main : Stage.Course id todo j.main
  beside : ∀ t ∈ j.strands.flatten, t.Spreads id
  fault : j.fault = none

/-- The job of a start that has just registered a cache. -/
structure OnBrink (id : MemberId) (todo : List CacheConfig) (j : Job) : Prop where
  main : Stage.Brink id todo j.main
  beside : j.strands.flatten = []
  fault : j.fault = none

variable {c : Cluster} {id : MemberId} {todo : List CacheConfig} {j : Job} {place : Option Nat}
  {t : Stage} {s : Sequel}

/-- A turn leads to the brink if it registers a cache, and goes on otherwise. -/
theorem OnCourse.proceed (h : j.OnCourse id todo) (ht : j.stage? place = some t)
    (hok : (t.perform c).1 = .ok s) :
    (∃ config todo', t = .register id config ∧ todo = config :: todo' ∧
        (j.proceed place (.ok s)).OnBrink id todo') ∨
      t.brought? = none ∧ (j.proceed place (.ok s)).OnCourse id todo := by
  rcases stage?_cases ht with ⟨k, rest, rfl, hk⟩ | ⟨rest, rfl, hflat, hm⟩
  · have hmem : ∀ x ∈ t :: rest, x.Spreads id := fun x hx =>
      h.beside x (List.mem_flatten.mpr ⟨t :: rest, List.mem_of_getElem? hk, hx⟩)
    obtain ⟨hbeside, hother, hnext⟩ := (hmem t List.mem_cons_self).perform hok
    refine Or.inr ⟨hother, h.main, fun x hx => ?_, h.fault⟩
    obtain ⟨strand, hstrand, hx⟩ := List.mem_flatten.mp hx
    simp only [Job.proceed, hk, hbeside, List.append_nil, Option.getD_some, List.tail_cons]
      at hstrand
    rcases List.mem_or_eq_of_mem_set hstrand with hold | rfl
    · exact h.beside x (List.mem_flatten.mpr ⟨strand, hold, hx⟩)
    · rcases List.mem_append.mp hx with hx | hx
      · exact hnext x hx
      · exact hmem x (List.mem_cons_of_mem t hx)
  · have hmain : (j.proceed none (.ok s)).main = s.next ++ rest := by
      show s.next ++ j.main.tail = _
      rw [hm, List.tail_cons]
    obtain ⟨hbeside, hcourse⟩ := (hm ▸ h.main).perform hok
    rcases hcourse with ⟨config, todo', rfl, rfl, hnil, hbrink⟩ | ⟨hother, hcourse⟩
    · refine Or.inl ⟨config, todo', rfl, rfl, hmain ▸ hbrink, ?_, h.fault⟩
      show s.beside.flatten = []
      rw [hnil]
      rfl
    · exact Or.inr ⟨hother, hmain ▸ hcourse, hbeside, h.fault⟩

/-- On the brink there is one stage that can be next. -/
theorem OnBrink.stage? (h : j.OnBrink id todo) (ht : j.stage? place = some t) :
    place = none ∧ (∃ config, t = .activate id config .static) ∧
      Stage.Brink id todo (t :: j.main.tail) := by
  rcases stage?_cases ht with ⟨k, rest, rfl, hk⟩ | ⟨rest, rfl, -, hm⟩
  · have hmem : t ∈ j.strands.flatten :=
      List.mem_flatten.mpr ⟨t :: rest, List.mem_of_getElem? hk, List.mem_cons_self⟩
    rw [h.beside] at hmem
    cases hmem
  · have hmain := h.main
    rw [hm] at hmain ⊢
    refine ⟨rfl, ?_, hmain⟩
    cases hmain with
    | mk config => exact ⟨config, rfl⟩

theorem OnBrink.proceed (h : j.OnBrink id todo) (ht : j.stage? place = some t)
    (hok : (t.perform c).1 = .ok s) : (j.proceed place (.ok s)).OnCourse id todo := by
  obtain ⟨rfl, -, hbrink⟩ := h.stage? ht
  obtain ⟨hbeside, -, hcourse⟩ := hbrink.perform hok
  refine ⟨hcourse, fun x hx => ?_, h.fault⟩
  have hx' : x ∈ s.beside.flatten := hx
  rw [hbeside] at hx'
  cases hx'

theorem OnCourse.isEntry_eq_false (h : j.OnCourse id todo) (ht : t ∈ j.stages) :
    t.isEntry = false := by
  rcases List.mem_append.mp ht with ht | ht
  · exact (h.beside t ht).isEntry_eq_false
  · exact h.main.isEntry_eq_false ht

end Job

/-- The node that enrols in the cluster `c` runs in a later cluster. -/
def Cluster.Boards (c : Cluster) (n : NodeConfig) (c' : Cluster) : Prop :=
  ∃ h, c'.running.get? (c.memberIds c.joined) = some h ∧ h.member.name = n.name

theorem Stage.Effect.boards {c c' c'' : Cluster} {n : NodeConfig} {t : Stage} {next : List Stage}
    (h : t.Effect c' next c'') (l : c'.Linked) (hb : c.Boards n c') : c.Boards n c'' := by
  obtain ⟨k, hr, hname⟩ := hb
  obtain ⟨k', hr', hm⟩ := h.runs l hr
  exact ⟨k', hr', by rw [hm, hname]⟩

namespace Overlap

/-- A start from the cluster `c` to which other calls can come next. -/
inductive Calm (c : Cluster) (n : NodeConfig) : Overlap → Prop where
  | fresh : Calm c n (ofCalls c [.start n])
  | refused {j : Job} (done : j.isDone = true) : Calm c n ⟨c, [j]⟩
  | course {c' : Cluster} {j : Job} {todo : List CacheConfig} (boards : c.Boards n c')
      (course : j.OnCourse (c.memberIds c.joined) todo) : Calm c n ⟨c', [j]⟩

/-- A start from the cluster `c` to which no other call can come next. -/
inductive Poised (c : Cluster) (n : NodeConfig) : Overlap → Prop where
  | brink {c' : Cluster} {j : Job} {todo : List CacheConfig} (boards : c.Boards n c')
      (brink : j.OnBrink (c.memberIds c.joined) todo) : Poised c n ⟨c', [j]⟩

variable {c c' : Cluster} {n : NodeConfig} {o : Overlap}

/-- A job that is alone has its turn. -/
theorem advance_single (c : Cluster) (j : Job) (turn : Turn) :
    (stage? ⟨c, [j]⟩ turn = none ∧ advance ⟨c, [j]⟩ turn = ⟨c, [j]⟩) ∨
      ∃ t, turn.1 = 0 ∧ stage? ⟨c, [j]⟩ turn = some t ∧ j.stage? turn.2 = some t ∧
        advance ⟨c, [j]⟩ turn =
          ⟨(t.perform c).2, [j.proceed turn.2 (t.perform c).1]⟩ := by
  rcases advance_cases ⟨c, [j]⟩ turn with hidle | ⟨j', t, hstage, hj, ht, heq⟩
  · exact Or.inl hidle
  · obtain ⟨i, place⟩ := turn
    cases i with
    | succ i => cases hj
    | zero =>
        cases hj
        exact Or.inr ⟨t, rfl, hstage, ht, heq⟩

/-- The first turn enrols the node, or the start is refused. -/
theorem calm_enrol (c : Cluster) (n : NodeConfig) (turn : Turn) :
    Calm c n ((ofCalls c [.start n]).advance turn) := by
  rcases advance_single c (.ofCall (.start n)) turn with ⟨-, hidle⟩ | ⟨t, -, -, ht, heq⟩
  · exact hidle ▸ .fresh
  obtain ⟨hplace, rfl⟩ := Job.stage?_ofCall ht
  have heq' : (ofCalls c [.start n]).advance turn = _ := heq
  rw [heq', hplace]
  show Calm c n ⟨((Stage.enrol n).perform c).2, [Job.proceed _ none ((Stage.enrol n).perform c).1]⟩
  unfold Stage.perform
  dsimp only
  cases he : c.enrol n with
  | error err => exact .refused rfl
  | ok r =>
      obtain ⟨id, c'⟩ := r
      obtain ⟨rfl, -, rfl⟩ := Cluster.enrol_eq_ok he
      have hcourse : Stage.Course (c.memberIds c.joined) n.staticCaches
          (Stage.ahead (c.memberIds c.joined) n.staticCaches ++ []) := by
        rw [List.append_nil]
        exact .statics n.staticCaches
      refine .course ⟨_, (Cluster.running_enrolling c n _).trans (if_pos rfl), rfl⟩
        ⟨hcourse, fun x hx => ?_, rfl⟩
      cases hx

/-- A start goes on, and leads to the brink if it registers a cache. -/
theorem Calm.advance (h : Calm c n o) (order : Orderly o) (turn : Turn) :
    (∃ id config, o.stage? turn = some (.register id config) ∧ Poised c n (o.advance turn)) ∨
      Calm c n (o.advance turn) := by
  cases h with
  | fresh => exact Or.inr (calm_enrol c n turn)
  | @refused j done =>
      rcases advance_single c j turn with ⟨-, hidle⟩ | ⟨t, -, -, ht, -⟩
      · rw [hidle]
        exact Or.inr (.refused done)
      · have hdue := Job.mem_of_stage? ht
        rw [Job.stages_eq_nil done] at hdue
        cases hdue
  | @course c' j todo boards course =>
      rcases advance_single c' j turn with ⟨-, hidle⟩ | ⟨t, -, hstage, ht, heq⟩
      · rw [hidle]
        exact Or.inr (.course boards course)
      have hdue := Job.mem_of_stage? ht
      rcases Stage.effect_perform (order.starts ⟨j, List.mem_singleton_self j, hdue⟩) with
        ⟨s, hok, heffect⟩ | ⟨e, -, hentry, -⟩
      · have hboards := heffect.boards order.linked boards
        rw [heq, hok]
        rcases course.proceed ht hok with ⟨config, todo', rfl, -, hbrink⟩ | ⟨-, hcourse⟩
        · exact Or.inl ⟨_, config, hstage, .brink hboards hbrink⟩
        · exact Or.inr (.course hboards hcourse)
      · rw [course.isEntry_eq_false hdue] at hentry
        cases hentry

/-- The cache that has been registered starts. -/
theorem Poised.advance (h : Poised c n o) (order : Orderly o) (turn : Turn) :
    (o.stage? turn = none ∧ Poised c n (o.advance turn)) ∨ Calm c n (o.advance turn) := by
  cases h with
  | @brink c' j todo boards brink =>
      rcases advance_single c' j turn with ⟨hnone, hidle⟩ | ⟨t, -, -, ht, heq⟩
      · rw [hidle]
        exact Or.inl ⟨hnone, .brink boards brink⟩
      rcases Stage.effect_perform
        (order.starts ⟨j, List.mem_singleton_self j, Job.mem_of_stage? ht⟩) with
        ⟨s, hok, heffect⟩ | ⟨e, -, hentry, -⟩
      · rw [heq, hok]
        exact Or.inr (.course (heffect.boards order.linked boards) (brink.proceed ht hok))
      · obtain ⟨-, -, hbrink⟩ := brink.stage? ht
        rw [hbrink.isEntry_eq_false] at hentry
        cases hentry

/-- Wherever a start is, it is calm or on the brink. -/
theorem calm_or_poised (l : c.Linked) (n : NodeConfig) (schedule : List Turn) :
    Calm c n ((ofCalls c [.start n]).after schedule) ∨
      Poised c n ((ofCalls c [.start n]).after schedule) := by
  induction schedule using List.reverseRecOn with
  | nil => exact Or.inl .fresh
  | append_singleton schedule turn ih =>
      have order := (orderly_ofCalls l [.start n]).after schedule
      have hlast : (ofCalls c [.start n]).after (schedule ++ [turn]) =
          ((ofCalls c [.start n]).after schedule).advance turn := List.foldl_append
      rw [hlast]
      rcases ih with hcalm | hpoised
      · rcases hcalm.advance order turn with ⟨-, -, -, hpoised⟩ | hcalm
        · exact Or.inr hpoised
        · exact Or.inl hcalm
      · exact (hpoised.advance order turn).symm.imp id And.right

end Overlap

/-- After this stage its call waits, and others may come before it goes on. -/
def Stage.waits : Stage → Bool
  | enrol _ => true
  | activate .. => true
  | _ => false

namespace Overlap

variable {c : Cluster} {n : NodeConfig}

/-- Where a start waits, it is calm. -/
theorem calm_of_waits (l : c.Linked) {schedule : List Turn} {turn : Turn} {t : Stage}
    (ht : ((ofCalls c [.start n]).after schedule).stage? turn = some t) (waits : t.waits = true) :
    Calm c n (((ofCalls c [.start n]).after schedule).advance turn) := by
  have order := (orderly_ofCalls l [.start n]).after schedule
  rcases calm_or_poised l n schedule with hcalm | hpoised
  · refine (hcalm.advance order turn).resolve_left ?_
    rintro ⟨id, config, hregister, -⟩
    rw [ht] at hregister
    cases hregister
    cases waits
  · refine (hpoised.advance order turn).resolve_left ?_
    rintro ⟨hnone, -⟩
    rw [ht] at hnone
    cases hnone

end Overlap

end NearCache
