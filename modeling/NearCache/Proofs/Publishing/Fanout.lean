import Mathlib.Data.List.Basic
import NearCache.Publishing

/-!
# Sinks that fail beside one that does not

A fan-out over sinks that are listed once each passes every event to each of them, whatever the
others answer (`publish_ofSinks`, `publishAll_ofSinks`). So failing sinks before and behind a journal
make the fan-out fail and change nothing in the journal: `publish_among`, `publishAll_among`.
-/

namespace NearCache

namespace Fanout

/-- Passing something on from sink to sink: each gets it in its turn, and the first failure is
reported. -/
theorem each_range' (act : Sink → Outcome Unit × Sink) (sinks : List Sink) :
    ∀ served : List Sink,
      each act (List.range' served.length sinks.length) (served ++ sinks) =
        (sinks.foldr (fun s r => firstFailure (act s).1 r) (.ok ()),
          served ++ sinks.map fun s => (act s).2) := by
  induction sinks with
  | nil => intro served; simp [each]
  | cons s sinks ih =>
      intro served
      have hnext : (served ++ s :: sinks)[served.length]? = some s := by simp
      have hset : (served ++ s :: sinks).set served.length (act s).2 =
          (served ++ [(act s).2]) ++ sinks := by simp
      have hlength : (served ++ [(act s).2]).length = served.length + 1 := by simp
      rw [List.length_cons, List.range'_succ, each, hnext]
      dsimp only
      rw [hset, ← hlength, ih]
      simp

theorem each_range (act : Sink → Outcome Unit × Sink) (sinks : List Sink) :
    each act (List.range sinks.length) sinks =
      (sinks.foldr (fun s r => firstFailure (act s).1 r) (.ok ()),
        sinks.map fun s => (act s).2) := by
  rw [List.range_eq_range']
  exact each_range' act sinks []

theorem publish_ofSinks (sinks : List Sink) (e : Event) :
    (ofSinks sinks).publish e =
      (sinks.foldr (fun s r => firstFailure (s.publish e).1 r) (.ok ()),
        ofSinks (sinks.map fun s => (s.publish e).2)) := by
  unfold publish
  rw [show (ofSinks sinks).targets = List.range sinks.length from rfl,
    show (ofSinks sinks).sinks = sinks from rfl, each_range]
  simp [ofSinks]

theorem publishAll_ofSinks (sinks : List Sink) (es : List Event) :
    (ofSinks sinks).publishAll es =
      (sinks.foldr (fun s r => firstFailure (s.publishAll es).1 r) (.ok ()),
        ofSinks (sinks.map fun s => (s.publishAll es).2)) := by
  unfold publishAll
  rw [show (ofSinks sinks).targets = List.range sinks.length from rfl,
    show (ofSinks sinks).sinks = sinks from rfl, each_range]
  simp [ofSinks]

/-- A journal with sinks before and behind it that fail whatever they are passed. -/
def among (before behind : List Fault) (j : Journal) : Fanout :=
  ofSinks (before.map .failing ++ .journal j :: behind.map .failing)

theorem journals_among (before behind : List Fault) (j : Journal) :
    (among before behind j).journals = [j] := by
  have hnone : ∀ faults : List Fault,
      (faults.map Sink.failing).filterMap Sink.journal? = [] := by
    intro faults
    rw [List.filterMap_eq_nil_iff]
    intro s hs
    obtain ⟨fault, -, rfl⟩ := List.mem_map.mp hs
    rfl
  show (before.map Sink.failing ++ Sink.journal j :: behind.map Sink.failing).filterMap _ = _
  rw [List.filterMap_append, hnone, List.nil_append, List.filterMap_cons, hnone]
  rfl

/-- The first of the faults, if there is any. -/
def firstOf : List Fault → Outcome Unit
  | [] => .ok ()
  | fault :: _ => .error fault

/-- An action that a journal takes and failing sinks refuse fails with the first of them, and the
journal is as if it were alone. -/
theorem among_act (act : Sink → Outcome Unit × Sink) (j j' : Journal)
    (hjournal : act (.journal j) = (.ok (), .journal j'))
    (hfailing : ∀ fault, act (.failing fault) = (.error fault, .failing fault))
    (before behind : List Fault) :
    let sinks := before.map .failing ++ .journal j :: behind.map .failing
    sinks.foldr (fun s r => firstFailure (act s).1 r) (.ok ()) = firstOf (before ++ behind) ∧
      sinks.map (fun s => (act s).2) =
        before.map .failing ++ .journal j' :: behind.map .failing := by
  have hrefuse : ∀ (faults : List Fault) (r : Outcome Unit),
      (faults.map Sink.failing).foldr (fun s r => firstFailure (act s).1 r) r =
        match faults with
        | [] => r
        | fault :: _ => .error fault := by
    intro faults r
    cases faults with
    | nil => rfl
    | cons fault rest => simp [hfailing, firstFailure]
  constructor
  · rw [List.foldr_append, List.foldr_cons, hrefuse behind, hjournal, hrefuse before]
    cases before with
    | nil => cases behind <;> rfl
    | cons fault rest => rfl
  · simp [hjournal, hfailing, Function.comp_def]

/-- An event reaches the journal whoever refuses it. -/
theorem publish_among (before behind : List Fault) (j : Journal) (e : Event) :
    (among before behind j).publish e =
      (firstOf (before ++ behind), among before behind (j.push e)) := by
  obtain ⟨houtcome, hsinks⟩ :=
    among_act (·.publish e) j (j.push e) rfl (fun _ => rfl) before behind
  rw [among, publish_ofSinks, houtcome, hsinks]
  rfl

theorem publishAll_among (before behind : List Fault) (j : Journal) (es : List Event) :
    (among before behind j).publishAll es =
      (firstOf (before ++ behind), among before behind (j.append es)) := by
  obtain ⟨houtcome, hsinks⟩ :=
    among_act (·.publishAll es) j (j.append es) rfl (fun _ => rfl) before behind
  rw [among, publishAll_ofSinks, houtcome, hsinks]
  rfl

end Fanout

end NearCache
