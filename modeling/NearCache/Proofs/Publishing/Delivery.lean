import Mathlib.Data.List.Forall2
import Mathlib.Algebra.BigOperators.Group.List.Basic
import NearCache.Proofs.Journal.Indexes
import NearCache.Publishing

/-!
# Every sink gets every event

A fan-out passes events on in two ways. One event goes to all targets before the next one does; a
batch goes to the first target as a whole before the second target sees any of it. Both leave in each
sink the same events, `Sink.take`, and differ for a sink that is listed several times only: there a
batch comes several times in a row, and single events come several times each. A sink that fails
stops neither way, and what is reported is the first failure of the list.

Everything rests on two facts about one sink. What it takes it puts behind what it has, so that
taking twice is taking once what comes to both (`Sink.take_append`). And whether it fails is a matter
of what it is and not of what it has taken (`Sink.fault?_take`), so that no delivery changes who
fails. `delivered` joins what follows for the fan-out.
-/

namespace NearCache

/-- What a record in a log of some level says of an event. -/
structure LogRecord.Tells (level : LogLevel) (e : Event) (r : LogRecord) : Prop where
  kind : r.kind = e.kind
  node : r.node = e.node?.getD "-"
  cache : r.cache = e.cache?.getD "-"
  /-- A selector that failed is a warning and gives its reason, whatever the level of the log. -/
  failed : ∀ {node cache reason}, e = .selectorFailed node cache reason →
    r.level = .warn ∧ r.reason = some reason ∧ r.timed = false
  other : (∀ node cache reason, e ≠ .selectorFailed node cache reason) →
    r.level = level ∧ r.reason = none ∧ r.timed = true

theorem LogRecord.tells_ofEvent (level : LogLevel) (e : Event) :
    Tells level e (ofEvent level e) := by
  cases e with
  | selectorFailed node cache reason =>
      refine ⟨rfl, rfl, rfl, fun h => ?_, fun h => absurd rfl (h node cache reason)⟩
      cases h
      exact ⟨rfl, rfl, rfl⟩
  | nodeJoined | nodeLeft | cacheStarted | nearActivated | cacheDestroyed =>
      exact ⟨rfl, rfl, rfl, fun h => Event.noConfusion h, fun _ => ⟨rfl, rfl, rfl⟩⟩

namespace Sink

/-! ## One sink -/

/-- A sink after it was passed some events. -/
def take (s : Sink) (es : List Event) : Sink := (s.publishAll es).2

/-- The failure of a sink that fails. -/
def fault? : Sink → Option Fault
  | failing fault => some fault
  | _ => none

/-- A sink, before and after some events have reached it. -/
inductive Took (es : List Event) : Sink → Sink → Prop where
  | journal (j : Journal) (events : (j.append es).events.toList = j.events.toList ++ es) :
      Took es (.journal j) (.journal (j.append es))
  | log (level : LogLevel) (records : List LogRecord) {more : List LogRecord}
      (tells : List.Forall₂ (LogRecord.Tells level) es more) :
      Took es (.log level records) (.log level (records ++ more))
  | failing (fault : Fault) : Took es (.failing fault) (.failing fault)

variable (s : Sink) (e : Event) (es es' : List Event)

theorem took_take : s.Took es (s.take es) := by
  cases s with
  | journal j => exact .journal j (Journal.toList_append es j)
  | log level records =>
      refine .log level records ?_
      rw [List.forall₂_map_right_iff]
      exact List.forall₂_same.mpr fun e _ => LogRecord.tells_ofEvent level e
  | failing fault => exact .failing fault

@[simp] theorem take_nil : s.take [] = s := by
  cases s with
  | journal j => rfl
  | log level records => simp [take, publishAll]
  | failing fault => rfl

theorem take_append : s.take (es ++ es') = (s.take es).take es' := by
  cases s with
  | journal j => simp [take, publishAll, Journal.append]
  | log level records => simp [take, publishAll]
  | failing fault => rfl

@[simp] theorem fault?_take : (s.take es).fault? = s.fault? := by
  cases s <;> rfl

/-- One event is a batch of one. -/
theorem publish_eq_publishAll : s.publish e = s.publishAll [e] := by
  cases s <;> rfl

/-- A sink answers with its failure if it fails. -/
theorem publishAll_eq :
    s.publishAll es = (s.fault?.elim (.ok ()) .error, s.take es) := by
  cases s <;> rfl

end Sink

namespace Fanout

/-! ## All targets in turn -/

/-- The failure of the first target that fails. -/
def firstFault (targets : List Nat) (sinks : List Sink) : Option Fault :=
  targets.findSome? fun i => sinks[i]?.bind Sink.fault?

/-- Who fails does not depend on what the sinks have taken. -/
theorem firstFault_congr {targets : List Nat} {sinks sinks' : List Sink}
    (h : ∀ i : Nat, sinks'[i]?.bind Sink.fault? = sinks[i]?.bind Sink.fault?) :
    firstFault targets sinks' = firstFault targets sinks := by
  unfold firstFault
  congr 1
  funext i
  exact h i

/-- A sink that takes something at its place. -/
theorem getElem?_set_take {sinks : List Sink} {i : Nat} {s : Sink} (hs : sinks[i]? = some s)
    (es : List Event) (k : Nat) :
    (sinks.set i (s.take es))[k]? =
      if k = i then some (s.take es) else sinks[k]? := by
  obtain ⟨hi, -⟩ := List.getElem?_eq_some_iff.mp hs
  rw [List.getElem?_set]
  by_cases hk : k = i
  · simp [hk, hi]
  · rw [if_neg hk, if_neg fun h => hk h.symm]

/-- A batch reaches each sink as often as it is listed, and the first failure is reported. -/
theorem each_publishAll (es : List Event) (targets : List Nat) : ∀ sinks : List Sink,
    (each (·.publishAll es) targets sinks).1 =
        (firstFault targets sinks).elim (.ok ()) .error ∧
      ∀ k : Nat, (each (·.publishAll es) targets sinks).2[k]? =
        sinks[k]?.map fun s => s.take (List.replicate (targets.count k) es).flatten := by
  induction targets with
  | nil => intro sinks; simp [each, firstFault]
  | cons i rest ih =>
      intro sinks
      unfold each
      cases hs : sinks[i]? with
      | none =>
          obtain ⟨houtcome, hsinks⟩ := ih sinks
          dsimp only
          constructor
          · rw [houtcome]
            simp [firstFault, hs]
          · intro k
            rw [hsinks k]
            by_cases hk : k = i
            · simp [hk, hs]
            · rw [List.count_cons_of_ne fun h => hk h.symm]
      | some s =>
          obtain ⟨houtcome, hsinks⟩ := ih (sinks.set i (s.take es))
          have hfaults : firstFault rest (sinks.set i (s.take es)) = firstFault rest sinks := by
            refine firstFault_congr fun k => ?_
            rw [getElem?_set_take hs]
            by_cases hk : k = i
            · simp [hk, hs]
            · rw [if_neg hk]
          dsimp only
          rw [Sink.publishAll_eq]
          dsimp only
          constructor
          · rw [houtcome, hfaults]
            cases hf : s.fault? <;> simp [firstFault, hs, hf, firstFailure]
          · intro k
            rw [hsinks k, getElem?_set_take hs]
            by_cases hk : k = i
            · subst hk
              simp [hs, List.replicate_succ, Sink.take_append]
            · rw [if_neg hk, List.count_cons_of_ne fun h => hk h.symm]

/-- Events that come so many times each. -/
theorem count_flatMap_replicate (m : Nat) (e : Event) (es : List Event) :
    (es.flatMap (List.replicate m)).count e = m * es.count e := by
  induction es with
  | nil => rfl
  | cons e' es ih =>
      rw [List.flatMap_cons, List.count_append, ih, List.count_cons, List.count_replicate,
        Nat.mul_add, Nat.add_comm]
      by_cases h : e' = e <;> simp [h]

/-- Passes events one at a time; the answers are those to each of them. -/
def publishEach (f : Fanout) : List Event → List (Outcome Unit) × Fanout
  | [] => ([], f)
  | e :: es =>
    let (r, f) := f.publish e
    let (rs, f) := f.publishEach es
    (r :: rs, f)

/-- Some events have reached all sinks of a fan-out; `copies` says what of them reaches a sink that
is listed so often. -/
structure Delivered (f f' : Fanout) (es : List Event) (copies : Nat → List Event) : Prop where
  targets : f'.targets = f.targets
  size : f'.sinks.length = f.sinks.length
  took : ∀ {i : Nat} {s}, f.sinks[i]? = some s →
    ∃ s', f'.sinks[i]? = some s' ∧ s.Took (copies (f.targets.count i)) s'
  /-- A sink that is listed once gets the events as they are. -/
  once : copies 1 = es
  /-- A sink that is listed several times gets each of the events so often. -/
  often : ∀ m e, (copies m).count e = m * es.count e

/-- What a fan-out answers is decided by its first target that fails. -/
structure Answers (f : Fanout) (r : Outcome Unit) : Prop where
  fails : ∀ fault, r = .error fault ↔
    ∃ earlier, ∃ i : Nat, ∃ later, f.targets = earlier ++ i :: later ∧
      f.sinks[i]? = some (.failing fault) ∧
        ∀ k ∈ earlier, ∀ other, f.sinks[k]? ≠ some (.failing other)
  succeeds : r = .ok () ↔ ∀ i ∈ f.targets, ∀ fault, f.sinks[i]? ≠ some (.failing fault)

variable (f : Fanout) (e : Event) (es : List Event)

/-- One event is a batch of one for the whole fan-out too. -/
theorem publish_eq_publishAll : f.publish e = f.publishAll [e] := by
  have hact : (fun s : Sink => s.publish e) = fun s => s.publishAll [e] :=
    funext fun s => s.publish_eq_publishAll e
  rw [publish, publishAll, hact]

theorem publishAll_fst :
    (f.publishAll es).1 = (firstFault f.targets f.sinks).elim (.ok ()) .error :=
  (each_publishAll es f.targets f.sinks).1

theorem getElem?_publishAll (k : Nat) :
    (f.publishAll es).2.sinks[k]? =
      f.sinks[k]?.map fun s => s.take (List.replicate (f.targets.count k) es).flatten :=
  (each_publishAll es f.targets f.sinks).2 k

theorem firstFault_publishAll :
    firstFault f.targets (f.publishAll es).2.sinks = firstFault f.targets f.sinks := by
  refine firstFault_congr fun k => ?_
  rw [getElem?_publishAll]
  cases f.sinks[k]? <;> simp

/-- Single events reach each sink as often as it is listed, one after the other. -/
theorem publishEach_eq (es : List Event) : ∀ f : Fanout,
    (f.publishEach es).1 =
        List.replicate es.length ((firstFault f.targets f.sinks).elim (.ok ()) .error) ∧
      (f.publishEach es).2.targets = f.targets ∧
      ∀ k : Nat, (f.publishEach es).2.sinks[k]? =
        f.sinks[k]?.map fun s => s.take (es.flatMap (List.replicate (f.targets.count k))) := by
  induction es with
  | nil => intro f; simp [publishEach]
  | cons e es ih =>
      intro f
      obtain ⟨hanswers, htargets, hsinks⟩ := ih (f.publish e).2
      have hkept : (f.publish e).2.targets = f.targets := rfl
      have hfirst : (f.publish e).1 = (firstFault f.targets f.sinks).elim (.ok ()) .error := by
        rw [publish_eq_publishAll, publishAll_fst]
      have hfaults : firstFault f.targets (f.publish e).2.sinks = firstFault f.targets f.sinks := by
        rw [publish_eq_publishAll, firstFault_publishAll]
      refine ⟨?_, htargets, fun k => ?_⟩
      · show (f.publish e).1 :: ((f.publish e).2.publishEach es).1 = _
        rw [hanswers, hfirst, hkept, hfaults]
        rfl
      · show ((f.publish e).2.publishEach es).2.sinks[k]? = _
        rw [hsinks k, hkept, publish_eq_publishAll, getElem?_publishAll, Option.map_map]
        congr 1
        funext s
        simp [Sink.take_append]

theorem answers_firstFault :
    f.Answers ((firstFault f.targets f.sinks).elim (.ok ()) .error) := by
  have hfault : ∀ (i : Nat) fault, f.sinks[i]?.bind Sink.fault? = some fault ↔
      f.sinks[i]? = some (.failing fault) := by
    intro i fault
    cases f.sinks[i]? with
    | none => simp
    | some s => cases s <;> simp [Sink.fault?]
  have hnone : ∀ i : Nat, f.sinks[i]?.bind Sink.fault? = none ↔
      ∀ fault, f.sinks[i]? ≠ some (.failing fault) := by
    intro i
    rw [Option.eq_none_iff_forall_ne_some]
    exact forall_congr' fun fault => not_congr (hfault i fault)
  constructor
  · intro fault
    have helim : (firstFault f.targets f.sinks).elim (.ok ()) .error = Except.error fault ↔
        firstFault f.targets f.sinks = some fault := by
      cases firstFault f.targets f.sinks <;> simp
    rw [helim, firstFault, List.findSome?_eq_some_iff]
    simp only [hfault, hnone]
  · have helim : (firstFault f.targets f.sinks).elim (.ok ()) .error = Except.ok () ↔
        firstFault f.targets f.sinks = none := by
      cases firstFault f.targets f.sinks <;> simp
    rw [helim, firstFault, List.findSome?_eq_none_iff]
    simp only [hnone]

/-- What every sink has taken, told from its place. -/
theorem delivered_of_take {f f' : Fanout} {es : List Event} {copies : Nat → List Event}
    (targets : f'.targets = f.targets)
    (sinks : ∀ k : Nat, f'.sinks[k]? = f.sinks[k]?.map fun s => s.take (copies (f.targets.count k)))
    (once : copies 1 = es) (often : ∀ m e, (copies m).count e = m * es.count e) :
    Delivered f f' es copies where
  targets := targets
  size := by
    have hend : ∀ k, f'.sinks.length ≤ k ↔ f.sinks.length ≤ k := by
      intro k
      rw [← List.getElem?_eq_none_iff, sinks k, Option.map_eq_none_iff, List.getElem?_eq_none_iff]
    exact Nat.le_antisymm ((hend _).mpr (Nat.le_refl _)) ((hend _).mp (Nat.le_refl _))
  took {i s} hs := by
    refine ⟨s.take (copies (f.targets.count i)), ?_, s.took_take _⟩
    rw [sinks i, hs]
    rfl
  once := once
  often := often

/-- **Everything is delivered to everyone.** Whether events are passed to a fan-out as a batch or one
at a time, each of its sinks gets all of them in order, as often as it is listed, and no sink that
fails takes anything away from another. Every answer, to the batch as to each single event, is the
failure of the first target that fails, if there is one. -/
theorem delivered :
    Delivered f (f.publishAll es).2 es (fun m => (List.replicate m es).flatten) ∧
      f.Answers (f.publishAll es).1 ∧
      Delivered f (f.publishEach es).2 es (fun m => es.flatMap (List.replicate m)) ∧
      (f.publishEach es).1.length = es.length ∧ ∀ r ∈ (f.publishEach es).1, f.Answers r := by
  obtain ⟨hanswers, htargets, hsinks⟩ := publishEach_eq es f
  have hall := f.answers_firstFault
  refine ⟨?_, ?_, ?_, ?_, fun r hr => ?_⟩
  · refine delivered_of_take rfl (f.getElem?_publishAll es) (by simp) fun m e => ?_
    rw [List.count_flatten, List.map_replicate, List.sum_replicate, Nat.nsmul_eq_mul]
  · rw [publishAll_fst]
    exact hall
  · exact delivered_of_take htargets hsinks (List.flatMap_singleton' es) fun m e =>
      count_flatMap_replicate m e es
  · rw [hanswers, List.length_replicate]
  · rw [hanswers] at hr
    rw [List.eq_of_mem_replicate hr]
    exact hall

/-- A journal that is listed twice, around a sink that fails, gets the batch twice and each single
event twice. -/
example :
    let f : Fanout := ⟨[.journal {}, .failing (.internal "down")], [0, 1, 0]⟩
    let es := [Event.nodeLeft "a", .cacheDestroyed "x"]
    (f.publishAll es).2.journals.map (fun j => j.events.toList) = [es ++ es] ∧
      (f.publishEach es).2.journals.map (fun j => j.events.toList) =
        [[.nodeLeft "a", .nodeLeft "a", .cacheDestroyed "x", .cacheDestroyed "x"]] ∧
      (f.publishEach es).1 = [.error (.internal "down"), .error (.internal "down")] := by decide

end Fanout

end NearCache
