import Mathlib.Data.List.Induction
import NearCache.Host
import NearCache.Table.Laws

/-!
# Reading a log of events

A reader of the log who knows nothing else can keep a table of the nodes that run and of the caches
that each of them has started (`lineup`). This module is about logs alone: what the reader makes of
them, when an event of a node comes at its time (`InOrder`), and what a log is made of.

A log is written in chapters. A node that comes or goes and a cache that is destroyed take one event
each; a cache that starts on a node takes one or two, first what became of the near cache, if that
is worth telling, and then the start. `Chapter.prior_eq` says that a reader who looks for the last
thing told of a node before a start never mistakes one start for another.
-/

namespace NearCache

/-! ## What the reader knows -/

/-- The nodes that run, and for each the caches that it has started, with whether it has a near cache
there. -/
abbrev Lineup := Table String (Table String Bool)

/-- The line-up after one more event. -/
def Lineup.after (s : Lineup) : Event → Lineup
  | .nodeJoined node _ => s.insert node ∅
  | .nodeLeft node => s.erase node
  | .cacheStarted node cache _ near => s.alter node (·.map (·.insert cache near))
  | .nearActivated .. => s
  | .selectorFailed .. => s
  | .cacheDestroyed cache => s.mapValues (·.erase cache)

/-- The line-up that a log leads to. -/
def lineup (log : List Event) : Lineup := log.foldl Lineup.after ∅

@[simp] theorem lineup_append (log es : List Event) :
    lineup (log ++ es) = es.foldl Lineup.after (lineup log) :=
  List.foldl_append

namespace Event

/-- Whether a node arrives. -/
def isArrival : Event → Bool
  | nodeJoined .. => true
  | _ => false

/-- Whether the event is about what became of a near cache. -/
def isVerdict : Event → Bool
  | nearActivated .. => true
  | selectorFailed .. => true
  | _ => false

end Event

/-- The event comes at its time: a node arrives while it is away, and all else that concerns it
happens while it is there. -/
def Lineup.Expects (s : Lineup) (e : Event) : Prop :=
  ∀ node, e.node? = some node → s.contains node = !e.isArrival

/-- Every event of the log comes at its time. -/
def InOrder (log : List Event) : Prop :=
  ∀ before e after, log = before ++ e :: after → (lineup before).Expects e

theorem InOrder.nil : InOrder [] := by
  intro before e after h
  exact absurd h.symm (List.append_ne_nil_of_right_ne_nil before (List.cons_ne_nil e after))

/-- One more event. -/
theorem InOrder.snoc {log : List Event} (h : InOrder log) {e : Event}
    (he : (lineup log).Expects e) : InOrder (log ++ [e]) := by
  intro before e' after heq
  rcases List.eq_nil_or_concat after with rfl | ⟨after', x, rfl⟩
  · obtain ⟨rfl, hlast⟩ := List.append_inj' heq rfl
    cases hlast
    exact he
  · rw [List.concat_eq_append, ← List.cons_append, ← List.append_assoc] at heq
    obtain ⟨rfl, -⟩ := List.append_inj' heq rfl
    exact h before e' after' rfl

/-! ## Chapters -/

/-- What is told at once. -/
inductive Chapter where
  | joined (node : String) (client : Bool)
  | left (node : String)
  | started (node cache : String) (t : Trigger) (p : Placement)
  | destroyed (cache : String)

/-- A start of a cache on a node, without what made it start. -/
structure Start where
  node : String
  cache : String
  placement : Placement
  deriving DecidableEq

namespace Chapter

/-- What is told of the near cache before the start: that there is one, or that its selector cannot
be meant or cannot be tested. That there is none because it is disabled or not selected goes without
saying. -/
def verdict (node cache : String) (t : Trigger) : Placement → List Event
  | .present => [.nearActivated node cache t.name]
  | .absent .disabled => []
  | .absent .notSelected => []
  | .absent (.badSelector text) => [.selectorFailed node cache text]
  | .absent (.testFailed text) => [.selectorFailed node cache text]

/-- The events of a chapter. -/
def events : Chapter → List Event
  | joined node client => [.nodeJoined node client]
  | left node => [.nodeLeft node]
  | started node cache t p => verdict node cache t p ++ [.cacheStarted node cache t.name p.isPresent]
  | destroyed cache => [.cacheDestroyed cache]

/-- The start that a chapter tells of. -/
def start? : Chapter → Option Start
  | started node cache _ p => some ⟨node, cache, p⟩
  | _ => none

/-- A host tells of a start in one chapter. -/
theorem events_started (node cache : String) (t : Trigger) (p : Placement) :
    (started node cache t p).events = Host.startEvents node cache t p := by
  rcases p with _ | ⟨_ | _ | text | text⟩ <;> rfl

end Chapter

/-- The events of chapters. -/
def story (chapters : List Chapter) : List Event := chapters.flatMap Chapter.events

theorem story_append (chapters : List Chapter) (ch : Chapter) :
    story (chapters ++ [ch]) = story chapters ++ ch.events := by
  unfold story
  rw [List.flatMap_append, List.flatMap_singleton]

/-- The starts that chapters tell of, in order. -/
def startsIn (chapters : List Chapter) : List Start := chapters.filterMap Chapter.start?

theorem startsIn_append (chapters : List Chapter) (ch : Chapter) :
    startsIn (chapters ++ [ch]) = startsIn chapters ++ ch.start?.toList := by
  unfold startsIn
  rw [List.filterMap_append]
  cases hs : ch.start? <;> simp [hs]

/-- A chapter that tells of no start. -/
theorem startsIn_append_of_none (chapters : List Chapter) {ch : Chapter} (h : ch.start? = none) :
    startsIn (chapters ++ [ch]) = startsIn chapters := by
  rw [startsIn_append, h]
  exact List.append_nil _

/-! ## A start in the log -/

/-- After a start the reader knows one cache more. -/
theorem lineup_started (log : List Event) (node cache : String) (t : Trigger) (p : Placement) :
    lineup (log ++ (Chapter.started node cache t p).events) =
      (lineup log).alter node (·.map (·.insert cache p.isPresent)) := by
  rw [lineup_append]
  rcases p with _ | ⟨_ | _ | text | text⟩ <;> rfl

/-- A start comes at its time while the node is there. -/
theorem InOrder.started {log : List Event} (h : InOrder log) {node : String}
    (hn : (lineup log).contains node = true) (cache : String) (t : Trigger) (p : Placement) :
    InOrder (log ++ (Chapter.started node cache t p).events) := by
  have hexpects : ∀ {s : Lineup} {e : Event}, s.contains node = true → e.node? = some node →
      e.isArrival = false → s.Expects e := by
    intro s e hs he ha node' hnode
    rw [he] at hnode
    cases hnode
    rw [hs, ha]
    rfl
  -- what is told of the near cache does not change the line-up
  have hpair : ∀ {v : Event}, v.node? = some node → v.isArrival = false →
      (lineup log).after v = lineup log → InOrder (log ++ [v] ++
        [.cacheStarted node cache t.name p.isPresent]) := by
    intro v hv ha hsame
    have hfirst := h.snoc (hexpects hn hv ha)
    refine hfirst.snoc (hexpects ?_ rfl rfl)
    rw [lineup_append]
    show Table.contains ((lineup log).after v) node = true
    rw [hsame, hn]
  have hsingle : InOrder (log ++ [.cacheStarted node cache t.name p.isPresent]) :=
    h.snoc (hexpects hn rfl rfl)
  unfold Chapter.events Chapter.verdict
  cases p with
  | present =>
      have hmade := hpair (v := .nearActivated node cache t.name) rfl rfl rfl
      rwa [List.append_assoc] at hmade
  | absent reason =>
      cases reason with
      | disabled => exact hsingle
      | notSelected => exact hsingle
      | badSelector text =>
          have hfailed := hpair (v := .selectorFailed node cache text) rfl rfl rfl
          rwa [List.append_assoc] at hfailed
      | testFailed text =>
          have hfailed := hpair (v := .selectorFailed node cache text) rfl rfl rfl
          rwa [List.append_assoc] at hfailed

/-! ## The last event of a node -/

/-- The last event of a log that concerns a node. -/
def lastOf (log : List Event) (node : String) : Option Event :=
  (log.filter fun e => e.node? = some node).getLast?

theorem lastOf_append (log es : List Event) (node : String) :
    lastOf (log ++ es) node = (lastOf es node).or (lastOf log node) := by
  unfold lastOf
  rw [List.filter_append, List.getLast?_append]

namespace Chapter

/-- No chapter ends with what became of a near cache. -/
theorem lastOf_events (ch : Chapter) {node : String} {e : Event}
    (h : lastOf ch.events node = some e) : e.isVerdict = false := by
  -- all events of a chapter are of one node, so the last event of the chapter is the last of the node
  have hlast : ∀ (es : List Event) {x : Event}, x.isVerdict = false →
      (∀ y ∈ es, y.node? = x.node?) → lastOf (es ++ [x]) node = some e → e.isVerdict = false := by
    intro es x hx hes hlast
    rw [lastOf_append] at hlast
    by_cases hn : x.node? = some node
    · have hself : lastOf [x] node = some x := by simp [lastOf, hn]
      rw [hself] at hlast
      cases hlast
      exact hx
    · have hnone : lastOf (es ++ [x]) node = none := by
        unfold lastOf
        rw [List.getLast?_eq_none_iff, List.filter_eq_nil_iff]
        intro y hy
        rcases List.mem_append.mp hy with hy | hy
        · simpa [hes y hy] using hn
        · simpa [List.mem_singleton.mp hy] using hn
      rw [← lastOf_append, hnone] at hlast
      cases hlast
  cases ch with
  | joined n client => exact hlast [] rfl (by simp) h
  | left n => exact hlast [] rfl (by simp) h
  | destroyed c => exact hlast [] rfl (by simp) h
  | started n c t p =>
      refine hlast (verdict n c t p) rfl (fun y hy => ?_) h
      rcases p with _ | ⟨_ | _ | text | text⟩ <;> simp [verdict] at hy <;> rw [hy] <;> rfl

theorem lastOf_story (chapters : List Chapter) {node : String} {e : Event}
    (h : lastOf (story chapters) node = some e) : e.isVerdict = false := by
  induction chapters using List.reverseRecOn with
  | nil => cases h
  | append_singleton chapters ch ih =>
      rw [story_append, lastOf_append] at h
      cases hch : lastOf ch.events node with
      | none => rw [hch] at h; exact ih h
      | some e' =>
          rw [hch] at h
          cases h
          exact ch.lastOf_events hch

/-- The last thing told of a node before a start on it. -/
def prior (earlier : List Chapter) (node cache : String) (t : Trigger) (p : Placement) :
    Option Event :=
  lastOf (story earlier ++ verdict node cache t p) node

/-- The last thing told of a node before a start is that there is a near cache, exactly if there is
one, and that its selector failed, exactly if it did. -/
theorem prior_eq (earlier : List Chapter) (node cache : String) (t : Trigger) (p : Placement) :
    (prior earlier node cache t p = some (.nearActivated node cache t.name) ↔ p = .present) ∧
      ∀ text, prior earlier node cache t p = some (.selectorFailed node cache text) ↔
        p = .absent (.badSelector text) ∨ p = .absent (.testFailed text) := by
  -- where nothing is told of the near cache, an earlier chapter is the last
  have hsilent : ∀ {e : Event}, e.isVerdict = true → lastOf (story earlier) node ≠ some e := by
    intro e he h
    rw [lastOf_story earlier h] at he
    cases he
  have hmade : ∀ text, lastOf (story earlier) node ≠ some (.nearActivated node cache text) :=
    fun _ => hsilent rfl
  have hfailed : ∀ text, lastOf (story earlier) node ≠ some (.selectorFailed node cache text) :=
    fun _ => hsilent rfl
  have htold : ∀ {e : Event}, e.node? = some node →
      lastOf (story earlier ++ [e]) node = some e := by
    intro e he
    rw [lastOf_append]
    simp [lastOf, he]
  unfold prior
  cases p with
  | present => simp [verdict, htold (e := .nearActivated node cache t.name) rfl]
  | absent reason =>
      cases reason with
      | disabled => simp [verdict, hmade, hfailed]
      | notSelected => simp [verdict, hmade, hfailed]
      | badSelector text => simp [verdict, htold (e := .selectorFailed node cache text) rfl]
      | testFailed text => simp [verdict, htold (e := .selectorFailed node cache text) rfl]

end Chapter

end NearCache
