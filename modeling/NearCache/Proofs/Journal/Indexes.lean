import Mathlib.Data.List.Induction
import NearCache.Journal
import NearCache.Table.Laws

/-!
# The indexes of a journal

A journal answers questions about one cache or one node from an index of positions, and never looks
through all its events. Both indexes are filled in the same way, from a function that says what an
event is about, and `Index.Covers` says what a filled index is: under each name it lists the
positions of the events about that name, in ascending order, all of them and no others. An event at
the end of the journal keeps both indexes so (`Covers.note`), and reading the events at such
positions is filtering the journal (`filterMap_places`).

The nodes with a near cache are told from the events about one cache alone. That is enough, since
whatever makes a near cache or ends it is about its cache (`mem_tracked_iff`).

`indexed_after` says so of a journal after any calls, with the events since it was last cleared.
-/

namespace NearCache

/-! ## Positions of events -/

/-- The positions of the events that are about a name. -/
def places (about : Event → Option String) (name : String) (es : List Event) : List Nat :=
  (List.range es.length).filter fun i => es[i]?.bind about = some name

section

variable (about : Event → Option String) (name : String) (es : List Event) (e : Event)

/-- An event at the end comes after all positions that there were. -/
theorem places_snoc :
    places about name (es ++ [e]) =
      places about name es ++ if about e = some name then [es.length] else [] := by
  have hold : ∀ i ∈ List.range es.length, (es ++ [e])[i]? = es[i]? := fun i hi =>
    List.getElem?_append_left (List.mem_range.mp hi)
  have hnew : (es ++ [e])[es.length]? = some e := List.getElem?_concat_length
  unfold places
  rw [List.length_append, List.length_singleton, List.range_succ, List.filter_append]
  congr 1
  · refine List.filter_congr fun i hi => ?_
    rw [hold i hi]
  · rw [List.filter_singleton, hnew]
    by_cases h : about e = some name <;> simp [h]

/-- No position lies behind the end. -/
theorem lt_of_mem_places {i : Nat} (h : i ∈ places about name es) : i < es.length :=
  List.mem_range.mp (List.mem_filter.mp h).1

/-- The events at the positions for a name are those about it, in their order. -/
theorem filterMap_places :
    (places about name es).filterMap (fun i => es[i]?) =
      es.filter fun e => about e = some name := by
  induction es using List.reverseRecOn with
  | nil => rfl
  | append_singleton es e ih =>
      have hold : (places about name es).filterMap (fun i => (es ++ [e])[i]?) =
          (places about name es).filterMap fun i => es[i]? := by
        refine List.filterMap_congr fun i hi => ?_
        exact List.getElem?_append_left (lt_of_mem_places about name es hi)
      rw [places_snoc, List.filterMap_append, hold, ih, List.filter_append]
      congr 1
      by_cases h : about e = some name <;> simp [h]

end

/-! ## Indexes -/

namespace Index

variable {ix : Index} {about : Event → Option String} {es : List Event}

/-- The index lists, under each name, the positions of the events about it. -/
def Covers (ix : Index) (about : Event → Option String) (es : List Event) : Prop :=
  ∀ name, ix.positions name = places about name es

theorem covers_empty (about : Event → Option String) : Covers ∅ about [] := fun _ => rfl

theorem positions_note (ix : Index) (about : Option String) (position : Nat) (name : String) :
    (ix.note about position).positions name =
      ix.positions name ++ if about = some name then [position] else [] := by
  cases about with
  | none => exact (List.append_nil _).symm
  | some n =>
      show ((ix.insert n _).get? name).getD [] = _
      rw [Table.get?_insert]
      by_cases h : name = n
      · subst h
        rw [if_pos rfl, if_pos rfl]
        rfl
      · rw [if_neg h, if_neg fun hn => h (Option.some.inj hn).symm, List.append_nil]
        rfl

/-- An event at the end is noted under the name that it is about. -/
theorem Covers.note (h : ix.Covers about es) (e : Event) :
    (ix.note (about e) es.length).Covers about (es ++ [e]) := by
  intro name
  rw [positions_note, h name, places_snoc]

end Index

/-! ## The nodes with a near cache -/

/-- The last that has happened between a node and a cache is that the node has activated a near
cache: the cache has not been destroyed since. -/
def Standing (es : List Event) (node cache : String) : Prop :=
  ∃ before trigger later, es = before ++ .nearActivated node cache trigger :: later ∧
    .cacheDestroyed cache ∉ later

/-- The last event decides, or else it is as it was before. -/
theorem standing_snoc {es : List Event} {e : Event} {node cache : String} :
    Standing (es ++ [e]) node cache ↔
      (∃ trigger, e = .nearActivated node cache trigger) ∨
        Standing es node cache ∧ e ≠ .cacheDestroyed cache := by
  constructor
  · rintro ⟨before, trigger, later, heq, hlater⟩
    rcases List.eq_nil_or_concat later with rfl | ⟨init, last, rfl⟩
    · obtain ⟨-, hlast⟩ := List.append_inj' heq rfl
      exact Or.inl ⟨trigger, (List.cons.inj hlast).1⟩
    · right
      rw [List.concat_eq_append, ← List.cons_append, ← List.append_assoc] at heq
      obtain ⟨hinit, hlast⟩ := List.append_inj' heq rfl
      rw [List.concat_eq_append, List.mem_append, not_or] at hlater
      refine ⟨⟨before, trigger, init, hinit, hlater.1⟩, ?_⟩
      rw [(List.cons.inj hlast).1]
      exact fun he => hlater.2 (List.mem_singleton.mpr he.symm)
  · rintro (⟨trigger, rfl⟩ | ⟨⟨before, trigger, later, rfl, hlater⟩, hne⟩)
    · exact ⟨es, trigger, [], rfl, List.not_mem_nil⟩
    · refine ⟨before, trigger, later ++ [e], by simp, ?_⟩
      rw [List.mem_append, List.mem_singleton, not_or]
      exact ⟨hlater, Ne.symm hne⟩

namespace Journal

/-- The nodes with a near cache for a cache, told from the events about the cache. -/
def tracked (cache : String) (es : List Event) : Table String Unit :=
  (es.filter fun e => e.cache? = some cache).foldl track ∅

theorem tracked_snoc (cache : String) (es : List Event) (e : Event) :
    tracked cache (es ++ [e]) =
      if e.cache? = some cache then track (tracked cache es) e else tracked cache es := by
  unfold tracked
  rw [List.filter_append, List.foldl_append, List.filter_singleton]
  by_cases h : e.cache? = some cache <;> simp [h]

/-- The nodes that are told from the events about a cache are those that have activated a near cache
since it was last destroyed. -/
theorem mem_tracked_iff {cache node : String} (es : List Event) :
    node ∈ (tracked cache es).keys ↔ Standing es node cache := by
  induction es using List.reverseRecOn with
  | nil =>
      refine iff_of_false List.not_mem_nil ?_
      rintro ⟨before, trigger, later, heq, -⟩
      simp at heq
  | append_singleton es e ih =>
      rw [tracked_snoc, standing_snoc, ← ih]
      cases e with
      | nodeJoined | nodeLeft => simp [Event.cache?]
      | cacheStarted n c | selectorFailed n c =>
          by_cases h : c = cache <;> simp [Event.cache?, track, h]
      | nearActivated n c trigger =>
          by_cases h : c = cache
          · simp [Event.cache?, track, h, Table.mem_keys_insert, eq_comm]
          · simp [Event.cache?, h]
      | cacheDestroyed c =>
          by_cases h : c = cache
          · simp only [Event.cache?, h, if_true, track]
            simp [Table.keys, show (∅ : Table String Unit).entries = [] from rfl]
          · simp [Event.cache?, h]

/-! ## Calls -/

/-- Events that a journal takes stand at its end. -/
theorem toList_append (es : List Event) :
    ∀ j : Journal, (j.append es).events.toList = j.events.toList ++ es := by
  induction es with
  | nil => intro j; exact (List.append_nil _).symm
  | cons e es ih =>
      intro j
      refine (ih (j.push e)).trans ?_
      simp [push]

/-- What a journal is asked to do. -/
inductive Call where
  | publish (e : Event)
  | publishAll (es : List Event)
  | clear

/-- The journal after a call. -/
def serve (j : Journal) : Call → Journal
  | .publish e => j.push e
  | .publishAll es => j.append es
  | .clear => j.clear

/-- The journal after calls. -/
def after (j : Journal) (calls : List Call) : Journal := calls.foldl serve j

/-- The events that have arrived since the last clearing, after one more call. -/
def arrive (es : List Event) : Call → List Event
  | .publish e => es ++ [e]
  | .publishAll more => es ++ more
  | .clear => []

/-- The events that have arrived since the last clearing, in their order. -/
def arrivals (calls : List Call) : List Event := calls.foldl arrive []

/-- The journal has these events, and its indexes cover them. -/
structure Indexed (j : Journal) (es : List Event) : Prop where
  events : j.events.toList = es
  byCache : j.byCache.Covers Event.cache? es
  byNode : j.byNode.Covers Event.node? es

namespace Indexed

variable {j : Journal} {es : List Event}

theorem empty : Indexed {} [] where
  events := rfl
  byCache := Index.covers_empty _
  byNode := Index.covers_empty _

theorem push (h : j.Indexed es) (e : Event) : (j.push e).Indexed (es ++ [e]) := by
  have hsize : j.events.size = es.length := by rw [← h.events, Array.length_toList]
  constructor
  · show (j.events.push e).toList = es ++ [e]
    rw [Array.toList_push, h.events]
  · show (j.byCache.note e.cache? j.events.size).Covers _ _
    rw [hsize]
    exact h.byCache.note e
  · show (j.byNode.note e.node? j.events.size).Covers _ _
    rw [hsize]
    exact h.byNode.note e

theorem append (more : List Event) :
    ∀ {j : Journal} {es : List Event}, j.Indexed es → (j.append more).Indexed (es ++ more) := by
  induction more with
  | nil =>
      intro j es h
      rw [List.append_nil]
      exact h
  | cons e more ih =>
      intro j es h
      rw [List.append_cons]
      exact ih (h.push e)

theorem serve (h : j.Indexed es) (call : Call) : (j.serve call).Indexed (arrive es call) := by
  cases call with
  | publish e => exact h.push e
  | publishAll more => exact append more h
  | clear => exact empty

theorem after (calls : List Call) :
    ∀ {j : Journal} {es : List Event}, j.Indexed es →
      (j.after calls).Indexed (calls.foldl arrive es) := by
  induction calls with
  | nil => intro j es h; exact h
  | cons call calls ih => intro j es h; exact ih (h.serve call)

/-- Reading through an index is filtering. -/
theorem select_positions (h : j.Indexed es) {ix : Index} {about : Event → Option String}
    (hix : ix.Covers about es) (name : String) :
    j.select (ix.positions name) = es.filter fun e => about e = some name := by
  unfold select
  rw [hix name, ← filterMap_places]
  refine List.filterMap_congr fun i _ => ?_
  rw [← h.events, Array.getElem?_toList]

theorem forCache (h : j.Indexed es) (cache : String) :
    j.forCache cache = es.filter fun e => e.cache? = some cache :=
  h.select_positions h.byCache cache

theorem forNode (h : j.Indexed es) (node : String) :
    j.forNode node = es.filter fun e => e.node? = some node :=
  h.select_positions h.byNode node

theorem nearNodes (h : j.Indexed es) (cache : String) :
    j.nearNodes cache = (tracked cache es).keys := by
  unfold Journal.nearNodes
  rw [h.forCache]
  rfl

end Indexed

/-- Events at once are the same events one by one. -/
theorem after_publishAll (j : Journal) (es : List Event) :
    j.after [.publishAll es] = j.after (es.map .publish) := by
  unfold after
  rw [List.foldl_map]
  rfl

/-- **A journal answers from its indexes as if it looked through all its events.** After any calls,
it has the events since it was last cleared; those about a cache or a node are exactly the ones that
it finds under that name, in the order of arrival; and the nodes that it names for a cache are, each
once and in order, those with an activation that no destruction of the cache has followed. Whether
events come at once or one by one makes no difference to it. -/
theorem indexed_after (calls : List Call) :
    let j := Journal.after {} calls
    let es := arrivals calls
    j.events.toList = es ∧
      (∀ cache, j.forCache cache = es.filter fun e => e.cache? = some cache) ∧
      (∀ node, j.forNode node = es.filter fun e => e.node? = some node) ∧
      (∀ cache, (j.nearNodes cache).Pairwise (· < ·) ∧
        ∀ node, node ∈ j.nearNodes cache ↔ Standing es node cache) ∧
      ∀ more, j.after [.publishAll more] = j.after (more.map .publish) := by
  intro j es
  have h : j.Indexed es := Indexed.empty.after calls
  refine ⟨h.events, h.forCache, h.forNode, fun cache => ?_, j.after_publishAll⟩
  rw [h.nearNodes]
  refine ⟨List.pairwise_map.mpr (tracked cache es).increasing, fun node => ?_⟩
  exact mem_tracked_iff es

/-- Two nodes activate a near cache, the cache is destroyed, and one of them activates it again. -/
example :
    (Journal.after {} [.publish (.cacheDestroyed "y"), .clear,
      .publishAll [.nearActivated "a" "x" "static", .nearActivated "b" "x" "dynamic"],
      .publish (.cacheDestroyed "x"), .publish (.nearActivated "b" "x" "static")]).nearNodes "x" =
        ["b"] := by decide

end Journal

end NearCache
