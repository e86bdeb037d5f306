import NearCache.Proofs.Store.Progress

/-!
# The history of a store

A store serves one request after another. Each leaves an exchange: what was asked, what was replied,
and what was announced to whom. The exchanges of a run are its history. What a store ought to hold,
to count and to announce can be said of the history alone, with no look at slots, marks of removals
and tables, and that is what this module is for.

`Store.Effect` lists what serving a request can come to. Whatever holds of every run is proved from
it.
-/

namespace NearCache

/-- The contents of all caches: the value of each key, with its version. -/
abbrev Contents := String → Bytes → Option Versioned

/-- The contents after a write. -/
def Notice.applyTo (n : Notice) (held : Contents) : Contents := fun c k =>
  if c = n.cache ∧ k = n.key then n.change.live? else held c k

namespace Store

variable {L : Type}

/-! ## Requests and exchanges -/

/-- What a store can be asked for. -/
inductive Request (L : Type) where
  | get (cache : String) (key : Bytes)
  | put (cache : String) (key value : Bytes)
  | remove (cache : String) (key : Bytes)
  | destroy (cache : String)
  | setAvailable (available : Bool)
  | subscribe (cache : String) (listener : L)
  | unsubscribe (id : Nat)

/-- What a store replies. -/
inductive Reply where
  | done
  | found (r : Outcome (Option Versioned))
  | written (r : Outcome Nat)
  | removed (r : Outcome (Option Nat))
  | subscribed (id : Nat)
  | unsubscribed (known : Bool)

/-- A request that was served. -/
structure Exchange (L : Type) where
  request : Request L
  reply : Reply
  /-- What was announced before the reply. -/
  told : List (Delivery L)

/-- The exchanges of a run, in order. -/
abbrev History (L : Type) := List (Exchange L)

/-- Serves a request. -/
def serve (s : Store L) (q : Request L) : Exchange L × Store L :=
  match q with
  | .get c k =>
    let (r, s) := s.get c k
    (⟨q, .found r, []⟩, s)
  | .put c k v =>
    let (r, ds, s) := s.put c k v
    (⟨q, .written r, ds⟩, s)
  | .remove c k =>
    let (r, ds, s) := s.remove c k
    (⟨q, .removed r, ds⟩, s)
  | .destroy c => (⟨q, .done, []⟩, s.destroy c)
  | .setAvailable b => (⟨q, .done, []⟩, { s with available := b })
  | .subscribe c l =>
    let (id, s) := s.subscribe c l
    (⟨q, .subscribed id, []⟩, s)
  | .unsubscribe id =>
    let (known, s) := s.unsubscribe id
    (⟨q, .unsubscribed known, []⟩, s)

/-- The store after requests. -/
def after (s : Store L) : List (Request L) → Store L
  | [] => s
  | q :: qs => (s.serve q).2.after qs

/-- The exchanges that requests lead to. -/
def history (s : Store L) : List (Request L) → History L
  | [] => []
  | q :: qs => (s.serve q).1 :: (s.serve q).2.history qs

/-! ## What a history says -/

namespace Exchange

/-- The write that was made: a put that was accepted, or a removal that had something to remove. -/
def notice? (x : Exchange L) : Option Notice :=
  match x.request, x.reply with
  | .put c k v, .written (.ok n) => some ⟨c, k, .put ⟨v, n⟩⟩
  | .remove c k, .removed (.ok (some n)) => some ⟨c, k, .removed n⟩
  | _, _ => none

/-- The version that was given out. -/
def version? (x : Exchange L) : Option Nat := x.notice?.map (·.change.version)

/-- The cache that was destroyed. -/
def destroyed? (x : Exchange L) : Option String :=
  match x.request with
  | .destroy c => some c
  | _ => none

/-- A read that the store answered, with a value or with none. -/
def isRead (x : Exchange L) : Bool :=
  match x.reply with
  | .found (.ok _) => true
  | _ => false

/-- A put that was accepted. -/
def isWrite (x : Exchange L) : Bool :=
  match x.reply with
  | .written (.ok _) => true
  | _ => false

/-- A removal that had something to remove. -/
def isDelete (x : Exchange L) : Bool :=
  match x.reply with
  | .removed (.ok (some _)) => true
  | _ => false

/-- Whether the store can be reached after the exchange, if it could before. -/
def reachable (before : Bool) (x : Exchange L) : Bool :=
  match x.request with
  | .setAvailable b => b
  | _ => before

/-- An earlier put of a key counts no more: the key was written anew or removed, or its cache was
destroyed. -/
def Supersedes (x : Exchange L) (c : String) (k : Bytes) : Prop :=
  (∃ change, x.notice? = some ⟨c, k, change⟩) ∨ x.destroyed? = some c

/-- The contents of all caches after an exchange. -/
def applyTo (x : Exchange L) (held : Contents) : Contents :=
  match x.notice?, x.destroyed? with
  | some n, _ => n.applyTo held
  | none, some c => fun c' k => if c' = c then none else held c' k
  | none, none => held

end Exchange

namespace History

variable {h : History L} {x : Exchange L}

/-- The last put of a key, which nothing has superseded since. -/
def Standing (h : History L) (c : String) (k : Bytes) (v : Versioned) : Prop :=
  ∃ before x after, h = before ++ x :: after ∧ x.notice? = some ⟨c, k, .put v⟩ ∧
    ∀ y ∈ after, ¬ y.Supersedes c k

/-- What was written, in order. -/
def writes (h : History L) : List Notice := h.filterMap Exchange.notice?

/-- Whether the store can be reached in the end. It can at first. -/
def reachable (h : History L) : Bool := h.foldl Exchange.reachable true

/-- What is collected from a history grows by what the last exchange brings. -/
theorem filterMap_snoc {α : Type} (f : Exchange L → Option α) :
    (h ++ [x]).filterMap f = h.filterMap f ++ (f x).toList := by
  rw [List.filterMap_append]
  cases hx : f x <;> simp [hx]

theorem countP_snoc (p : Exchange L → Bool) :
    (h ++ [x]).countP p = h.countP p + (p x).toNat := by
  rw [List.countP_append, List.countP_singleton]
  cases p x <;> rfl

/-- After one more exchange a put stands if it was just made, or if it stood before and was not
superseded. -/
theorem standing_snoc {c : String} {k : Bytes} {v : Versioned} :
    Standing (h ++ [x]) c k v ↔
      x.notice? = some ⟨c, k, .put v⟩ ∨ (Standing h c k v ∧ ¬ x.Supersedes c k) := by
  constructor
  · rintro ⟨before, y, later, heq, hput, hlater⟩
    rcases List.eq_nil_or_concat later with rfl | ⟨later', z, rfl⟩
    · obtain ⟨-, hlast⟩ := List.append_inj' heq rfl
      cases hlast
      exact Or.inl hput
    · rw [List.concat_eq_append] at heq hlater
      rw [← List.cons_append, ← List.append_assoc] at heq
      obtain ⟨rfl, hlast⟩ := List.append_inj' heq rfl
      cases hlast
      exact Or.inr ⟨⟨before, y, later', rfl, hput, fun z hz =>
        hlater z (List.mem_append_left _ hz)⟩, hlater x List.mem_concat_self⟩
  · rintro (hput | ⟨⟨before, y, later, rfl, hput, hlater⟩, hkept⟩)
    · exact ⟨h, x, [], rfl, hput, fun z hz => by cases hz⟩
    · refine ⟨before, y, later ++ [x], by simp, hput, fun z hz => ?_⟩
      rcases List.mem_append.mp hz with hz | hz
      · exact hlater z hz
      · rw [List.mem_singleton.mp hz]
        exact hkept

end History

/-! ## What a request can come to -/

/-- What a request is told while the store cannot be reached, if that matters to it. -/
def Request.refusal? : Request L → Option Reply
  | .get c _ => some (.found (.error (.storeUnavailable c "store unreachable")))
  | .put c _ _ => some (.written (.error (.storeUnavailable c "store unreachable")))
  | .remove c _ => some (.removed (.error (.storeUnavailable c "store unreachable")))
  | _ => none

/-- The announcements of a write. -/
def deliveries (s : Store L) (n : Notice) : List (Delivery L) := (s.listeners n.cache).map (⟨·, n⟩)

/-- What serving a request can come to: the exchange and the store after it. -/
inductive Effect (s : Store L) : Exchange L → Store L → Prop where
  | refused (off : s.available = false) {q : Request L} {reply : Reply}
      (told : q.refusal? = some reply) : Effect s ⟨q, reply, []⟩ s
  | get (on : s.available = true) (c : String) (k : Bytes) :
      Effect s ⟨.get c k, .found (.ok (s.current? c k)), []⟩ { s with reads := s.reads + 1 }
  | put (on : s.available = true) (c : String) (k v : Bytes) {n : Notice} {s' : Store L}
      (write : s.write c k v = (n, s')) :
      Effect s ⟨.put c k v, .written (.ok n.change.version), s.deliveries n⟩ (s'.announce n).2
  | miss (on : s.available = true) {c : String} {k : Bytes} (absent : s.current? c k = none) :
      Effect s ⟨.remove c k, .removed (.ok none), []⟩ s
  | remove (on : s.available = true) {c : String} {k : Bytes} {n : Notice} {s' : Store L}
      (erase : s.erase c k = some (n, s')) :
      Effect s ⟨.remove c k, .removed (.ok (some n.change.version)), s.deliveries n⟩
        (s'.announce n).2
  | destroy (c : String) : Effect s ⟨.destroy c, .done, []⟩ (s.destroy c)
  | setAvailable (b : Bool) : Effect s ⟨.setAvailable b, .done, []⟩ { s with available := b }
  | subscribe (c : String) (l : L) :
      Effect s ⟨.subscribe c l, .subscribed (s.lastSubscription + 1), []⟩ (s.subscribe c l).2
  | unsubscribe (id : Nat) :
      Effect s ⟨.unsubscribe id, .unsubscribed (s.subscriptions.contains id), []⟩
        (s.unsubscribe id).2

theorem reach_eq_error {s : Store L} (off : s.available = false) (c : String) :
    s.reach c = .error (.storeUnavailable c "store unreachable") := by
  simp [reach, off]

theorem reach_eq_ok {s : Store L} (on : s.available = true) (c : String) : s.reach c = .ok () := by
  simp [reach, on]

theorem effect_serve (s : Store L) (q : Request L) : Effect s (s.serve q).1 (s.serve q).2 := by
  cases q with
  | get c k =>
      show Effect s ⟨.get c k, .found (s.get c k).1, []⟩ (s.get c k).2
      unfold Store.get
      rcases Bool.eq_false_or_eq_true s.available with on | off
      · rw [reach_eq_ok on]
        exact .get on c k
      · rw [reach_eq_error off]
        exact .refused off rfl
  | put c k v =>
      show Effect s ⟨.put c k v, .written (s.put c k v).1, (s.put c k v).2.1⟩ (s.put c k v).2.2
      unfold Store.put
      rcases Bool.eq_false_or_eq_true s.available with on | off
      · rw [reach_eq_ok on]
        exact .put on c k v rfl
      · rw [reach_eq_error off]
        exact .refused off rfl
  | remove c k =>
      show Effect s ⟨.remove c k, .removed (s.remove c k).1, (s.remove c k).2.1⟩ (s.remove c k).2.2
      unfold Store.remove
      rcases Bool.eq_false_or_eq_true s.available with on | off
      · rw [reach_eq_ok on]
        cases he : s.erase c k with
        | none => exact .miss on (erase_eq_none_iff.mp he)
        | some ns =>
            obtain ⟨n, s'⟩ := ns
            -- a removal leaves the subscriptions as they are
            have htold : (s'.announce n).1 = s.deliveries n := by
              obtain ⟨-, -, rfl⟩ := erase_eq_some_iff.mp he
              rfl
            have heffect := Effect.remove on he
            rw [← htold] at heffect
            exact heffect
      · rw [reach_eq_error off]
        exact .refused off rfl
  | destroy c => exact .destroy c
  | setAvailable b => exact .setAvailable b
  | subscribe c l => exact .subscribe c l
  | unsubscribe id => exact .unsubscribe id

/-! ## Runs -/

theorem history_append (qs rs : List (Request L)) :
    ∀ s : Store L, s.history (qs ++ rs) = s.history qs ++ (s.after qs).history rs := by
  induction qs with
  | nil => intro s; rfl
  | cons q qs ih => intro s; exact congrArg _ (ih (s.serve q).2)

/-- What every exchange keeps, a run keeps. -/
theorem run_induction {P : History L → Store L → Prop}
    (step : ∀ {h s x s'}, P h s → Effect s x s' → P (h ++ [x]) s') (qs : List (Request L)) :
    ∀ {h : History L} {s : Store L}, P h s → P (h ++ s.history qs) (s.after qs) := by
  induction qs with
  | nil =>
      intro h s hp
      rw [history, List.append_nil]
      exact hp
  | cons q qs ih =>
      intro h s hp
      have hnext := ih (step hp (effect_serve s q))
      rwa [List.append_assoc] at hnext

end Store

end NearCache
