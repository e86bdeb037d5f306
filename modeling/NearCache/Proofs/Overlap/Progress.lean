import Mathlib.Logic.Hydra
import NearCache.Proofs.Overlap.Order

/-!
# Overlapping calls return

No call waits for another: as long as one has not returned, some stage can come next
(`exists_stage?`). And the stages run out. A stage may lead to many others, one for each node or each
cache, but these are always of a lesser kind (`Stage.height`), so the stages to come decrease in the
order of multisets. Hence there is no schedule that keeps calls busy for ever, and whatever the order
has been so far, all calls can still return.
-/

namespace NearCache

namespace Stage

/-- How far a stage is from the end of its call, counted by kinds of stages. -/
def height : Stage → Nat
  | confirm .. | deactivate .. | drop _ => 0
  | activate .. | sweep _ => 1
  | spread .. | join _ | unregister _ => 2
  | register .. | create .. => 3
  | enrol _ => 4

/-- A stage is lower than another. -/
def Lower (t t' : Stage) : Prop := t.height < t'.height

theorem wellFounded_lower : WellFounded Lower := InvImage.wf height Nat.lt_wfRel.wf

theorem Effect.lower {c c' : Cluster} {t : Stage} {next : List Stage} (h : t.Effect c next c')
    {x : Stage} (hx : x ∈ next) : x.Lower t := by
  cases h <;> simp at hx
  case enrol => rcases hx with ⟨config, -, rfl⟩ | rfl <;> simp [Lower, height]
  case adopt | register => rcases hx with rfl | rfl <;> simp [Lower, height]
  case create | again | activate => rw [hx]; simp [Lower, height]
  case spread | join | sweep => obtain ⟨_, -, rfl⟩ := hx; simp [Lower, height]
  case unregister => rcases hx with rfl | rfl <;> simp [Lower, height]

end Stage

namespace Overlap

variable {o : Overlap}

/-- The stages to come in all jobs. -/
def due (o : Overlap) : Multiset Stage := ((o.jobs.map Job.stages).flatten : List Stage)

/-- A job that exchanges a stage for lower ones brings the end nearer. -/
theorem cutExpand_set {turn : Nat} {j j' : Job} {t : Stage} {next : List Stage} {c' : Cluster}
    (hj : o.jobs[turn]? = some j) (hdue : t ∈ j.stages) (lower : ∀ {x}, x ∈ next → x.Lower t)
    (hperm : j'.stages.Perm (next ++ j.stages.erase t)) :
    Relation.CutExpand Stage.Lower (due ⟨c', o.jobs.set turn j'⟩) o.due := by
  refine ⟨(next : List Stage), t, fun x hx => lower (Multiset.mem_coe.mp hx), ?_⟩
  have hset : (j.stages ++ ((o.jobs.map Job.stages).set turn j'.stages).flatten).Perm
      (j'.stages ++ (o.jobs.map Job.stages).flatten) := by
    refine Job.perm_set_flatten j'.stages ?_
    rw [List.getElem?_map, hj]
    rfl
  have hgone := List.perm_cons_erase hdue
  rw [due, due, List.map_set, ← Multiset.coe_singleton, Multiset.coe_add, Multiset.coe_add,
    Multiset.coe_eq_coe]
  refine List.perm_iff_count.mpr fun x => ?_
  have hcount := hperm.count_eq x
  have hcount' := hset.count_eq x
  have hcount'' := hgone.count_eq x
  simp only [List.count_append, List.count_cons, List.count_nil] at hcount hcount' hcount'' ⊢
  omega

/-- Every turn with a stage brings the end nearer. -/
theorem Orderly.cutExpand_advance (h : Orderly o) {turn : Turn} {t : Stage}
    (ht : o.stage? turn = some t) : Relation.CutExpand Stage.Lower (o.advance turn).due o.due := by
  rcases advance_cases o turn with ⟨hnone, -⟩ | ⟨j, t', hstage, hj, hjt, heq⟩
  · rw [ht] at hnone
    cases hnone
  rw [ht] at hstage
  cases hstage
  obtain ⟨next, heffect, hperm⟩ := h.proceed (List.mem_of_getElem? hj) hjt
  rw [heq]
  exact cutExpand_set hj (Job.mem_of_stage? hjt) heffect.lower hperm

/-- As long as a call has not returned, some stage can come next. -/
theorem exists_stage? (hbusy : o.returned = false) : ∃ turn t, o.stage? turn = some t := by
  have hjob : ∃ j ∈ o.jobs, j.isDone = false := by
    by_contra hall
    push Not at hall
    have hdone : o.returned = true :=
      List.all_eq_true.mpr fun j hj => Bool.not_eq_false _ ▸ hall j hj
    rw [hbusy] at hdone
    cases hdone
  obtain ⟨j, hj, hdone⟩ := hjob
  obtain ⟨i, hi⟩ := List.getElem?_of_mem hj
  cases hstrands : j.strands.all List.isEmpty with
  | true =>
      cases hm : j.main with
      | nil => simp [Job.isDone, hstrands, hm] at hdone
      | cons t rest =>
          refine ⟨(i, none), t, ?_⟩
          unfold stage?
          rw [hi]
          show (if j.strands.all List.isEmpty then j.main.head? else none) = some t
          rw [if_pos hstrands, hm]
          rfl
  | false =>
      obtain ⟨s, hs, hne⟩ := List.all_eq_false.mp hstrands
      obtain ⟨k, hk⟩ := List.getElem?_of_mem hs
      cases s with
      | nil => exact absurd rfl hne
      | cons t rest =>
          refine ⟨(i, some k), t, ?_⟩
          simp [stage?, hi, Job.stage?, hk]

theorem Orderly.after (schedule : List Turn) :
    ∀ {o : Overlap}, Orderly o → Orderly (o.after schedule) := by
  induction schedule with
  | nil => intro o h; exact h
  | cons turn rest ih =>
      intro o h
      rcases h.advance turn with ⟨-, hsame⟩ | ⟨t, next, -, -, horder⟩
      · exact ih (hsame.symm ▸ h)
      · exact ih horder

/-- **No schedule keeps calls busy for ever**: sooner or later there is a turn without a stage. -/
theorem Orderly.idles (h : Orderly o) (turns : Nat → Turn) :
    ∃ n, (o.after ((List.range n).map turns)).stage? (turns n) = none := by
  by_contra hbusy
  push Not at hbusy
  have hwf : IsWellFounded _ (Relation.CutExpand Stage.Lower) := ⟨Stage.wellFounded_lower.cutExpand⟩
  obtain ⟨n, hn⟩ := WellFounded.not_rel_apply_succ (r := Relation.CutExpand Stage.Lower)
    fun n => (o.after ((List.range n).map turns)).due
  refine hn ?_
  obtain ⟨t, ht⟩ := Option.ne_none_iff_exists'.mp (hbusy n)
  have hcut := (h.after ((List.range n).map turns)).cutExpand_advance ht
  rwa [List.range_succ, List.map_append, Overlap.after, List.foldl_append]

/-- Whatever calls are under way, and however far they are, all can still return. -/
theorem Orderly.can_return : ∀ {o : Overlap}, Orderly o →
    ∃ schedule, (o.after schedule).returned = true := by
  have hwf := InvImage.wf due Stage.wellFounded_lower.cutExpand
  intro o
  induction o using hwf.induction with
  | _ o ih =>
      intro h
      cases hbusy : o.returned with
      | true => exact ⟨[], hbusy⟩
      | false =>
          obtain ⟨turn, t, ht⟩ := exists_stage? hbusy
          rcases h.advance turn with ⟨hnone, -⟩ | ⟨t', next, -, -, horder⟩
          · rw [ht] at hnone
            cases hnone
          · obtain ⟨schedule, hreturned⟩ := ih _ (h.cutExpand_advance ht) horder
            exact ⟨turn :: schedule, hreturned⟩

end Overlap

end NearCache
