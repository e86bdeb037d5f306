import NearCache.Proofs.Store.Contents

/-!
# Who is told what

The history of a store shows which subscriptions are open: those that were opened and not yet
closed. Each write is announced once to each open subscription of its cache, in the order in which
they were opened, and nothing else is ever announced. So what a listener heard of a cache over some
stretch of a run is what was written to the cache meanwhile, and who replays it on top of the
contents at the beginning has the contents at the end (`Store.informed_after`).
-/

namespace NearCache.Store

variable {L : Type} {h ds : History L} {s s' : Store L} {x : Exchange L}

/-! ## Subscriptions in a history -/

namespace Exchange

/-- The subscription that was opened, under its number. -/
def opened? (x : Exchange L) : Option (Nat × Subscription L) :=
  match x.request, x.reply with
  | .subscribe c l, .subscribed id => some (id, ⟨c, l⟩)
  | _, _ => none

/-- The number of the subscription that was closed. -/
def closed? (x : Exchange L) : Option Nat :=
  match x.request, x.reply with
  | .unsubscribe id, .unsubscribed true => some id
  | _, _ => none

end Exchange

namespace History

/-- The subscriptions that were opened, in order. -/
def opened (h : History L) : List (Nat × Subscription L) := h.filterMap Exchange.opened?

/-- The numbers under which subscriptions were closed, in order. -/
def closed (h : History L) : List Nat := h.filterMap Exchange.closed?

/-- The subscriptions that are open: opened and not yet closed. -/
def subscribers (h : History L) : List (Nat × Subscription L) :=
  h.opened.filter (·.1 ∉ h.closed)

/-- The open subscriptions of a cache. -/
def subscribersOf (h : History L) (c : String) : List (Nat × Subscription L) :=
  h.subscribers.filter (·.2.cache = c)

/-- What an exchange after the history has to announce. -/
def due (h : History L) (x : Exchange L) : List (Delivery L) :=
  match x.notice? with
  | none => []
  | some n => (h.subscribersOf n.cache).map fun e => ⟨e.2.listener, n⟩

/-- Something holds at each point of a stretch that follows a history. -/
def Throughout (P : History L → Prop) (h ds : History L) : Prop :=
  ∀ before later, ds = before ++ later → P (h ++ before)

theorem Throughout.head {P : History L → Prop} (t : Throughout P h ds) : P h := by
  have hp := t [] ds rfl
  rwa [List.append_nil] at hp

theorem Throughout.tail {P : History L → Prop} (t : Throughout P h (x :: ds)) :
    Throughout P (h ++ [x]) ds := by
  intro before later heq
  have hp := t (x :: before) later (congrArg (x :: ·) heq)
  rwa [List.append_cons] at hp

end History

/-! ## The table of subscriptions -/

/-- The table of subscriptions holds the open ones, and the counters fit the history. -/
structure Attends (h : History L) (s : Store L) : Prop where
  subscriptions : s.subscriptions.entries = h.subscribers
  /-- The numbers given out are `1, 2, 3, …`. -/
  opened : h.opened.map (·.1) = List.range' 1 s.lastSubscription
  closed : ∀ id ∈ h.closed, id ∈ h.opened.map (·.1)
  once : h.closed.Nodup
  notifications : s.notifications = (h.map (·.told.length)).sum

theorem attends_nil : Attends ([] : History L) {} where
  subscriptions := rfl
  opened := rfl
  closed := by
    intro id hid
    cases hid
  once := List.nodup_nil
  notifications := rfl

/-- What is announced is counted. -/
theorem notifications_effect (e : Effect s x s') :
    s'.notifications = s.notifications + x.told.length := by
  cases e with
  | put on c k v write =>
      cases write
      exact congrArg _ (List.length_map _).symm
  | remove on erase =>
      obtain ⟨-, rfl, rfl⟩ := erase_eq_some_iff.mp erase
      exact congrArg _ (List.length_map _).symm
  | refused => rfl
  | get => rfl
  | miss => rfl
  | destroy => rfl
  | setAvailable => rfl
  | subscribe => rfl
  | unsubscribe => rfl

/-- A subscription is opened, or one is closed, or the subscriptions stay as they are. -/
theorem subscriptions_effect (e : Effect s x s') :
    (∃ c l, x = ⟨.subscribe c l, .subscribed (s.lastSubscription + 1), []⟩ ∧
      s' = (s.subscribe c l).2) ∨
    (∃ id, x = ⟨.unsubscribe id, .unsubscribed (s.subscriptions.contains id), []⟩ ∧
      s' = (s.unsubscribe id).2) ∨
    (x.opened? = none ∧ x.closed? = none ∧ s'.subscriptions = s.subscriptions ∧
      s'.lastSubscription = s.lastSubscription) := by
  cases e with
  | subscribe c l => exact Or.inl ⟨c, l, rfl, rfl⟩
  | unsubscribe id => exact Or.inr (Or.inl ⟨id, rfl, rfl⟩)
  | refused off told =>
      cases ‹Request L› <;> cases told <;> exact Or.inr (Or.inr ⟨rfl, rfl, rfl, rfl⟩)
  | put on c k v write =>
      cases write
      exact Or.inr (Or.inr ⟨rfl, rfl, rfl, rfl⟩)
  | remove on erase =>
      obtain ⟨-, -, rfl⟩ := erase_eq_some_iff.mp erase
      exact Or.inr (Or.inr ⟨rfl, rfl, rfl, rfl⟩)
  | get => exact Or.inr (Or.inr ⟨rfl, rfl, rfl, rfl⟩)
  | miss => exact Or.inr (Or.inr ⟨rfl, rfl, rfl, rfl⟩)
  | destroy => exact Or.inr (Or.inr ⟨rfl, rfl, rfl, rfl⟩)
  | setAvailable => exact Or.inr (Or.inr ⟨rfl, rfl, rfl, rfl⟩)

theorem History.opened_snoc : (h ++ [x]).opened = h.opened ++ x.opened?.toList :=
  filterMap_snoc Exchange.opened?

theorem History.closed_snoc : (h ++ [x]).closed = h.closed ++ x.closed?.toList :=
  filterMap_snoc Exchange.closed?

/-- Only an open subscription is closed. -/
theorem contains_of_closed {id : Nat} (e : Effect s x s') (hc : x.closed? = some id) :
    s.subscriptions.contains id = true := by
  rcases subscriptions_effect e with ⟨c, l, rfl, -⟩ | ⟨id', rfl, -⟩ | ⟨-, hnone, -⟩
  · cases hc
  · cases hknown : s.subscriptions.contains id' with
    | true =>
        rw [hknown] at hc
        cases hc
        exact hknown
    | false =>
        rw [hknown] at hc
        cases hc
  · cases hnone.symm.trans hc

namespace Attends

theorem contains_iff (a : Attends h s) {id : Nat} :
    s.subscriptions.contains id = true ↔ id ∈ h.opened.map (·.1) ∧ id ∉ h.closed := by
  rw [Table.contains_iff, ← Table.mem_keys_iff, Table.keys, a.subscriptions, History.subscribers]
  simp only [List.mem_map, List.mem_filter, decide_eq_true_eq]
  constructor
  · rintro ⟨e, ⟨he, hopen⟩, rfl⟩
    exact ⟨⟨e, he, rfl⟩, hopen⟩
  · rintro ⟨⟨e, he, rfl⟩, hopen⟩
    exact ⟨e, ⟨he, hopen⟩, rfl⟩

theorem le_last (a : Attends h s) {id : Nat} (hid : id ∈ h.opened.map (·.1)) :
    id ≤ s.lastSubscription := by
  rw [a.opened] at hid
  have := List.mem_range'_1.mp hid
  omega

/-- A new subscription comes last. -/
theorem subscribers_subscribe (a : Attends h s) (c : String) (l : L) :
    (h ++ [(s.serve (.subscribe c l)).1]).subscribers =
      h.subscribers ++ [(s.lastSubscription + 1, ⟨c, l⟩)] := by
  have hfresh : s.lastSubscription + 1 ∉ h.closed := by
    intro hmem
    have := a.le_last (a.closed _ hmem)
    omega
  rw [History.subscribers, History.opened_snoc, History.closed_snoc]
  simp [Exchange.opened?, Exchange.closed?, serve, subscribe, History.subscribers, hfresh]

/-- Closing a subscription leaves the others open. -/
theorem subscribers_unsubscribe (a : Attends h s) (id : Nat) :
    (h ++ [(s.serve (.unsubscribe id)).1]).subscribers = h.subscribers.filter (·.1 ≠ id) := by
  rw [History.subscribers, History.opened_snoc, History.closed_snoc]
  cases hknown : s.subscriptions.contains id with
  | true =>
      simp [Exchange.opened?, Exchange.closed?, serve, unsubscribe, hknown, History.subscribers,
        List.filter_filter, Bool.and_comm]
  | false =>
      have hnone : ∀ e ∈ h.subscribers, e.1 ≠ id := by
        rintro e he rfl
        obtain ⟨hopened, hopen⟩ := List.mem_filter.mp he
        have hopen := a.contains_iff.mpr ⟨List.mem_map_of_mem hopened, of_decide_eq_true hopen⟩
        rw [hknown] at hopen
        cases hopen
      have hkeep : h.subscribers.filter (·.1 ≠ id) = h.subscribers :=
        List.filter_eq_self.mpr fun e he => decide_eq_true (hnone e he)
      rw [hkeep]
      simp [Exchange.opened?, Exchange.closed?, serve, unsubscribe, hknown, History.subscribers]

theorem effect (a : Attends h s) (e : Effect s x s') : Attends (h ++ [x]) s' where
  subscriptions := by
    rcases subscriptions_effect e with ⟨c, l, rfl, rfl⟩ | ⟨id, rfl, rfl⟩ | ⟨ho, hc, hs, -⟩
    · have hlast : ∀ e ∈ s.subscriptions.entries, e.1 < s.lastSubscription + 1 := by
        intro e he
        rw [a.subscriptions] at he
        exact Nat.lt_succ_of_le (a.le_last (List.mem_map_of_mem (List.mem_filter.mp he).1))
      rw [subscribe, Table.entries_insert_last hlast, a.subscriptions]
      exact (a.subscribers_subscribe c l).symm
    · refine Eq.trans ?_ (a.subscribers_unsubscribe id).symm
      rw [← a.subscriptions]
      rfl
    · rw [hs, a.subscriptions, History.subscribers, History.subscribers, History.opened_snoc,
        History.closed_snoc, ho, hc]
      simp
  opened := by
    rw [History.opened_snoc, List.map_append, a.opened]
    rcases subscriptions_effect e with ⟨c, l, rfl, rfl⟩ | ⟨id, rfl, rfl⟩ | ⟨ho, -, -, hlast⟩
    · rw [subscribe, List.range'_1_concat, Nat.add_comm 1]
      rfl
    · exact List.append_nil _
    · rw [ho, hlast]
      exact List.append_nil _
  closed := by
    intro id hid
    rw [History.opened_snoc, List.map_append]
    rw [History.closed_snoc] at hid
    refine List.mem_append_left _ ?_
    rcases List.mem_append.mp hid with hid | hid
    · exact a.closed id hid
    · exact (a.contains_iff.mp (contains_of_closed e (Option.mem_toList.mp hid))).1
  once := by
    rw [History.closed_snoc]
    cases hc : x.closed? with
    | none => simpa using a.once
    | some id =>
        have hopen := (a.contains_iff.mp (contains_of_closed e hc)).2
        rw [Option.toList_some, ← List.concat_eq_append]
        exact List.Nodup.concat hopen a.once
  notifications := by
    rw [notifications_effect e, a.notifications]
    simp

end Attends

theorem attends_after (qs : List (Request L)) :
    Attends (({} : Store L).history qs) (({} : Store L).after qs) :=
  run_induction Attends.effect qs attends_nil

/-! ## Announcements -/

/-- Writes are announced, and nothing else is. -/
theorem told_effect (e : Effect s x s') :
    x.told = x.notice?.toList.flatMap s.deliveries := by
  cases e with
  | refused off told => cases ‹Request L› <;> cases told <;> rfl
  | put on c k v write =>
      cases write
      exact (List.append_nil _).symm
  | remove on erase =>
      obtain ⟨-, rfl, -⟩ := erase_eq_some_iff.mp erase
      exact (List.append_nil _).symm
  | get => rfl
  | miss => rfl
  | destroy => rfl
  | setAvailable => rfl
  | subscribe => rfl
  | unsubscribe => rfl

/-- A write is announced once to each open subscription of its cache. -/
theorem Attends.deliveries (a : Attends h s) (n : Notice) :
    s.deliveries n = (h.subscribersOf n.cache).map fun e => ⟨e.2.listener, n⟩ := by
  rw [Store.deliveries, listeners, Table.values, a.subscriptions, List.filter_map, List.map_map,
    List.map_map]
  rfl

theorem Attends.told (a : Attends h s) (e : Effect s x s') : x.told = h.due x := by
  rw [told_effect e, History.due]
  cases hn : x.notice? with
  | none => rfl
  | some n => exact (List.append_nil _).trans (a.deliveries n)

/-! ## What a listener hears -/

section Listening

variable [DecidableEq L]

namespace History

/-- How many open subscriptions of a cache a listener has. -/
def timesOpen (l : L) (c : String) (h : History L) : Nat :=
  (h.subscribersOf c).countP (·.2.listener = l)

/-- What a listener was told of a cache, in order. -/
def heard (l : L) (c : String) (ds : History L) : List Notice :=
  ((ds.flatMap (·.told)).filter fun d => d.listener = l ∧ d.notice.cache = c).map (·.notice)

/-- What was written to a cache, in order. -/
def writesTo (c : String) (ds : History L) : List Notice := ds.writes.filter (·.cache = c)

theorem heard_cons (l : L) (c : String) :
    heard l c (x :: ds) = heard l c [x] ++ heard l c ds := by
  simp [heard]

omit [DecidableEq L] in
theorem writesTo_cons (c : String) :
    writesTo c (x :: ds) = writesTo c [x] ++ writesTo c ds := by
  rw [writesTo, writesTo, writesTo, writes, writes, writes, ← List.filter_append,
    ← List.filterMap_append, List.singleton_append]

/-- Every open subscription of a listener brings it what is announced. -/
theorem heard_due (l : L) (c : String) (due : x.told = h.due x) :
    heard l c [x] = (writesTo c [x]).flatMap (List.replicate (h.timesOpen l c)) := by
  have htold : heard l c [x] =
      ((h.due x).filter fun d => d.listener = l ∧ d.notice.cache = c).map (·.notice) := by
    simp [heard, due]
  rw [htold, History.due, writesTo, writes]
  cases hn : x.notice? with
  | none => simp [hn]
  | some n =>
      dsimp only
      rw [List.filter_map, List.map_map]
      by_cases hc : n.cache = c
      · subst hc
        have hwrites : ([x].filterMap Exchange.notice?).filter (·.cache = n.cache) = [n] := by
          simp [hn]
        rw [hwrites, List.flatMap_singleton, timesOpen, List.countP_eq_length_filter]
        simp [Function.comp_def, List.map_const']
      · simp [Function.comp_def, hn, hc]

end History

/-- What a listener hears of a cache is what is written to it, once for each of its subscriptions,
for as long as their number stays the same. -/
theorem heard_history {l : L} {c : String} {m : Nat} (rs : List (Request L)) :
    ∀ {h : History L} {s : Store L}, Attends h s →
      h.Throughout (·.timesOpen l c = m) (s.history rs) →
      (s.history rs).heard l c = ((s.history rs).writesTo c).flatMap (List.replicate m) := by
  induction rs with
  | nil =>
      intro h s _ _
      rfl
  | cons q rs ih =>
      intro h s a stays
      have e := effect_serve s q
      rw [history, History.heard_cons, History.writesTo_cons, List.flatMap_append,
        ih (a.effect e) stays.tail, History.heard_due l c (a.told e), stays.head]

/-- The contents after writes that were announced, in order. -/
def replay (ns : List Notice) (held : Contents) : Contents :=
  ns.foldl (fun held n => n.applyTo held) held

omit [DecidableEq L] in
/-- What an exchange leaves in a cache, unless it destroys it, is what it writes to it. -/
theorem replay_effect {c : String} {held : Contents} (e : Effect s x s')
    (intact : x.destroyed? ≠ some c) (same : ∀ k, held c k = s.current? c k) (k : Bytes) :
    replay (History.writesTo c [x]) held c k = s'.current? c k := by
  rw [current?_effect e, Exchange.applyTo, History.writesTo, History.writes]
  cases hn : x.notice? with
  | some n =>
      by_cases hc : n.cache = c
      · simp [hn, hc, replay, Notice.applyTo, same]
      · simp [hn, hc, Ne.symm hc, replay, Notice.applyTo, same]
  | none =>
      cases hd : x.destroyed? with
      | none => simpa [hn, replay] using same k
      | some d =>
          have hne : c ≠ d := fun heq => intact (heq ▸ hd)
          simpa [hn, replay, hne] using same k

omit [DecidableEq L] in
/-- Replaying the writes to a cache keeps up with the store until the cache is destroyed. -/
theorem replay_history {c : String} (rs : List (Request L)) :
    ∀ {s : Store L} {held : Contents}, (∀ x ∈ s.history rs, x.destroyed? ≠ some c) →
      (∀ k, held c k = s.current? c k) →
      ∀ k, replay ((s.history rs).writesTo c) held c k = (s.after rs).current? c k := by
  induction rs with
  | nil =>
      intro s held _ same
      exact same
  | cons q rs ih =>
      intro s held intact same
      rw [history, History.writesTo_cons, replay, List.foldl_append]
      refine ih (fun x hx => intact x (List.mem_cons_of_mem _ hx)) ?_
      exact replay_effect (effect_serve s q) (intact _ List.mem_cons_self) same

omit [DecidableEq L] in
/-- Writes are announced in the order of their versions. -/
theorem increasing_writes {n : Nat} (hv : (h ++ ds).filterMap Exchange.version? = List.range' 1 n) :
    (ds.writes.map (·.change.version)).Pairwise (· < ·) := by
  have hversions : ds.writes.map (·.change.version) = ds.filterMap Exchange.version? := by
    rw [History.writes, List.map_filterMap]
    rfl
  rw [List.filterMap_append] at hv
  rw [hversions]
  refine List.Pairwise.sublist (List.sublist_append_right (h.filterMap Exchange.version?) _) ?_
  rw [hv]
  exact List.pairwise_lt_range'

/-! ## Who is told what -/

/-- What a store announces and to whom, at a point of a run and over a stretch `ds` that follows.

The number of subscriptions that a listener has to a cache is one as long as it listens and none as
long as it does not. -/
structure Informed (h : History L) (s : Store L) (ds : History L) (s' : Store L) : Prop where
  /-- A write is announced once to each open subscription of its cache, and nothing else is. -/
  told : ∀ q, (s.serve q).1.told = h.due (s.serve q).1
  heard : ∀ l c m, h.Throughout (·.timesOpen l c = m) ds →
    ds.heard l c = (ds.writesTo c).flatMap (List.replicate m)
  ordered : ∀ l c, h.Throughout (·.timesOpen l c = 1) ds →
    ((ds.heard l c).map (·.change.version)).Pairwise (· < ·)
  /-- Who held what the cache holds and applies what it hears still holds what the cache holds. -/
  replayed : ∀ l c, h.Throughout (·.timesOpen l c = 1) ds →
    (∀ x ∈ ds, x.destroyed? ≠ some c) →
    ∀ held : Contents, (∀ k, held c k = s.current? c k) →
      ∀ k, replay (ds.heard l c) held c k = s'.current? c k
  notifications : s.stats.notifications = (h.map (·.told.length)).sum
  subscriptions : s.stats.subscriptions = h.subscribers.length
  /-- No number is given out twice. -/
  numbers : (h.opened.map (·.1)).Pairwise (· < ·)
  /-- A subscription is closed at most once, and can be closed until it is. -/
  once : h.closed.Nodup
  unsubscribe : ∀ id, (s.unsubscribe id).1 = true ↔ id ∈ h.opened.map (·.1) ∧ id ∉ h.closed
  /-- The other subscriptions stay open. -/
  others : ∀ id, History.subscribers (h ++ [(s.serve (.unsubscribe id)).1]) =
    h.subscribers.filter (·.1 ≠ id)

/-- **Announcements are complete and can be replayed**: over any stretch of any run a listener hears
exactly what is written to the caches that it listens to, in order, and can follow their contents
from it. -/
theorem informed_after (qs rs : List (Request L)) :
    Informed (({} : Store L).history qs) (({} : Store L).after qs)
      ((({} : Store L).after qs).history rs) ((({} : Store L).after qs).after rs) := by
  have a := attends_after qs
  have single : ∀ {l : L} {c : String},
      (({} : Store L).history qs).Throughout (·.timesOpen l c = 1)
        ((({} : Store L).after qs).history rs) →
      ((({} : Store L).after qs).history rs).heard l c =
        ((({} : Store L).after qs).history rs).writesTo c := by
    intro l c stays
    exact (heard_history rs a stays).trans (List.flatMap_singleton' _)
  refine ⟨?told, ?heard, ?ordered, ?replayed, a.notifications, ?subscriptions, ?numbers, a.once,
    fun id => a.contains_iff, a.subscribers_unsubscribe⟩
  case told => exact fun q => a.told (effect_serve _ q)
  case heard => exact fun l c m stays => heard_history rs a stays
  case ordered =>
    intro l c stays
    have hversions := (mirrors_after (qs ++ rs)).versions
    rw [history_append] at hversions
    rw [single stays]
    exact (increasing_writes hversions).sublist (List.filter_sublist.map _)
  case replayed =>
    intro l c stays intact held same k
    rw [single stays]
    exact replay_history rs intact same k
  case subscriptions =>
    rw [← a.subscriptions]
    rfl
  case numbers =>
    rw [a.opened]
    exact List.pairwise_lt_range'

end Listening

end NearCache.Store
