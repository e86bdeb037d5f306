import NearCache.Proofs.Cluster.Ownership
import NearCache.Proofs.Fabric.Writing
import NearCache.Proofs.Session.Agreement
import NearCache.Proofs.Session.Freshness

/-!
# A cache starts from nothing

The store holds data only for registered caches (`owned_step`), so a name that is not registered has
none, and nothing is open under it either. When it is registered, all that is open under it has just
started: the near caches are empty, the counters zero, and no read that is held is on its way to any
of them. From there on a key has a value only if it was written meanwhile
(`given_of_current`), and near caches are coherent, so no read of whatever age brings an old value
back.

`anew_after` says this of every name that any command registers, whether for the first time, after it
was destroyed, or after everything was stopped, and whatever was stored, cached, or still being read
under it before.
-/

namespace NearCache

/-- The command gives a key of a cache a value: a write of the key, through an open endpoint of the
cache, that reaches the store. -/
def Command.Gives (f : Fabric) (name : String) (key : Bytes) : Command → Prop
  | put id k _ => k = key ∧ f.Accepts id name
  | putAll id entries => key ∈ entries.map Prod.fst ∧ f.Accepts id name
  | _ => False

namespace Session

variable {s : Session}

/-! ## One command -/

/-- A command for endpoints brings data in only under the names of open endpoints. -/
theorem tends_step (s : Session) {command : Command} (h : command.isAccess = true) :
    s.fabric.Tends (s.step command).2.fabric := by
  cases hread : command.isRead with
  | true =>
      obtain ⟨f, hreads, heq⟩ := reads_step s hread
      show s.fabric.Tends (s.step command).2.cluster.fabric
      rw [heq]
      exact hreads.tends
  | false =>
      cases command with
      | start | apply | create | createFrom | getOrCreate | cache | destroy | destroyFrom | stop
      | stopAll => cases h
      | get | getAll | peek | beginGet | endGet => cases hread
      | put id key value => exact Fabric.tends_put _ id key value
      | putAll id entries => exact Fabric.tends_putEach id entries _
      | remove id key => exact Fabric.tends_remove _ id key
      | setAvailable b =>
          exact .of_data (Fabric.Serves.withStore rfl rfl (.of_data rfl rfl)) rfl

/-- Whatever is open under a name, the name is registered. -/
theorem registered_of_offers (h : Sound s) (a : s.cluster.Agrees none none) {id : EndpointId}
    {name : String} (ho : s.fabric.Offers id name) :
    ∃ config, s.cluster.registry.get? name = some config := by
  obtain ⟨e, he, hopen, rfl⟩ := ho
  obtain ⟨node, host, hh, hi⟩ := h.linked.hosting he hopen
  obtain ⟨e', -, hc⟩ := a.current (h.linked.runs hh hi) hi
  exact ⟨e'.config, hc⟩

/-- After every command the store holds data only for registered caches. -/
theorem owned_step (h : Sound s) (a : s.cluster.Agrees none none) (o : s.cluster.Owned)
    (command : Command) : (s.step command).2.cluster.Owned := by
  cases haccess : command.isAccess with
  | false =>
      obtain ⟨c, hd, heq⟩ := h.deeds_step haccess
      rw [heq]
      exact o.deeds h.linked hd
  | true =>
      intro name slots hdata
      have hregistry : (s.step command).2.cluster.registry = s.cluster.registry := by
        obtain ⟨f, -, heq⟩ := serves_step s haccess
        rw [heq]
      rw [hregistry]
      rcases (tends_step s haccess).data hdata with ⟨slots', hold⟩ | ⟨id, ho⟩
      · exact o hold
      · exact registered_of_offers h a ho

theorem owned_after (cs : List Command) :
    ∀ {s : Session}, Sound s → s.cluster.Agrees none none → s.cluster.Owned →
      (s.after cs).cluster.Owned := by
  induction cs with
  | nil => intro s _ _ o; exact o
  | cons c cs ih =>
      intro s h a o
      exact ih (h.step c).sound (agrees_step h a c) (owned_step h a o c)

/-- A key has no value after a command that it did not have before, unless the command gives it
one. -/
theorem gives_of_current (h : Sound s) (command : Command) {name : String} {key : Bytes}
    (hx : (s.step command).2.fabric.store.current? name key ≠ none) :
    s.fabric.store.current? name key ≠ none ∨ command.Gives s.fabric name key := by
  cases haccess : command.isAccess with
  | false =>
      obtain ⟨c, hd, heq⟩ := h.deeds_step haccess
      rw [heq] at hx
      obtain ⟨x, hx⟩ := Option.ne_none_iff_exists'.mp hx
      exact Or.inl (Option.ne_none_iff_exists'.mpr ⟨x, (hd.steps h.linked).current? hx⟩)
  | true =>
      cases hread : command.isRead with
      | true =>
          obtain ⟨f, hreads, heq⟩ := reads_step s hread
          have hf : (s.step command).2.fabric = f := congrArg Cluster.fabric heq
          rw [hf, hreads.current?] at hx
          exact Or.inl hx
      | false =>
          cases command with
          | start | apply | create | createFrom | getOrCreate | cache | destroy | destroyFrom
          | stop | stopAll => cases haccess
          | get | getAll | peek | beginGet | endGet => cases hread
          | put id k v => exact Fabric.current?_put_cases hx
          | putAll id entries => exact Fabric.current?_putEach_cases entries hx
          | remove id k => exact Or.inl (Fabric.current?_of_remove hx)
          | setAvailable b => exact Or.inl hx

/-! ## A run of commands -/

/-- One of the commands gives the key a value, in the session in which its turn comes. -/
def Given (s : Session) (name : String) (key : Bytes) (cs : List Command) : Prop :=
  ∃ before c later, cs = before ++ c :: later ∧ c.Gives (s.after before).fabric name key

theorem Given.append {name : String} {key : Bytes} {cs : List Command}
    (g : Given s name key cs) (ds : List Command) : Given s name key (cs ++ ds) := by
  obtain ⟨before, c, later, rfl, hgives⟩ := g
  exact ⟨before, c, later ++ ds, by simp, hgives⟩

theorem Given.cons {name : String} {key : Bytes} {c : Command} {cs : List Command}
    (g : Given (s.step c).2 name key cs) : Given s name key (c :: cs) := by
  obtain ⟨before, c', later, rfl, hgives⟩ := g
  exact ⟨c :: before, c', later, rfl, hgives⟩

/-- A key that had no value has one only if it was given one. -/
theorem given_of_current (cs : List Command) {name : String} {key : Bytes} :
    ∀ {s : Session}, Sound s → (s.after cs).fabric.store.current? name key ≠ none →
      s.fabric.store.current? name key ≠ none ∨ Given s name key cs := by
  induction cs with
  | nil => intro s _ hx; exact Or.inl hx
  | cons c cs ih =>
      intro s h hx
      rcases ih (h.step c).sound hx with hnow | hlater
      · rcases gives_of_current h c hnow with hold | hgives
        · exact Or.inl hold
        · exact Or.inr ⟨[], c, cs, rfl, hgives⟩
      · exact Or.inr hlater.cons

/-! ## Names that have just been registered -/

/-- Nothing is left of what was stored, cached or counted under a name, and nothing comes back. -/
structure Renewed (s : Session) (name : String) : Prop where
  /-- Every running node serves the cache. -/
  served : ∀ {id h}, s.cluster.running.get? id = some h →
    ∃ i, h.caches.get? name = some i ∧ s.fabric.Offers i name
  /-- Whoever serves it has counted nothing and has an empty near cache. -/
  zero : ∀ {i e}, s.fabric.endpoint? i = some e → e.closed = none → e.name = name →
    e.snapshot = ({} : Counters).snapshot 0 ∧ ∀ key, e.local? key = none
  /-- No read that is held is through an endpoint that serves it now. -/
  unread : ∀ {t r}, s.held.get? t = some r → ¬ s.fabric.Offers r.read.endpoint name
  /-- As long as a key has not been given a value, it has none, it is in no near cache, and it is
  absent for whoever asks; a read fails only when the store cannot be reached. -/
  absent : ∀ {cs key}, ¬ Given s name key cs →
    let t := s.after cs
    t.fabric.store.current? name key = none ∧
      ∀ {i}, t.fabric.Offers i name →
        (t.step (.peek i key)).1 = .peeked (.ok none) ∧
          (t.step (.get i key)).1 = .value
            (if t.fabric.store.available then .ok none
              else .error (.storeUnavailable name "store unreachable"))
  /-- A read that finds a value, whatever came before it and while it was held, comes after a command
  that gave the key a value. -/
  found : ∀ {cs i e key v s'}, (s.after cs).fabric.endpoint? i = some e → e.name = name →
    Reads i key (s.after cs) (.ok (some v)) s' → ∃ ds, s' = s.after ds ∧ Given s name key ds

/-- A key without a value is absent for whoever asks an open endpoint. -/
theorem Sound.absent (h : Sound s) {i : EndpointId} {e : Endpoint} {key : Bytes}
    (he : s.fabric.endpoint? i = some e) (hopen : e.closed = none)
    (hnone : s.fabric.store.current? e.name key = none) :
    (s.step (.peek i key)).1 = .peeked (.ok none) ∧
      (s.step (.get i key)).1 = .value
        (if s.fabric.store.available then .ok none
          else .error (.storeUnavailable e.name "store unreachable")) := by
  have hlocal : e.local? key = none := by
    cases hv : e.local? key with
    | none => rfl
    | some v =>
        obtain ⟨n, hn⟩ := h.coherent.current_of_local he hopen hv
        rw [hnone] at hn
        cases hn
  have hget : (s.fabric.get i key).1 = if s.fabric.store.available then .ok none
      else .error (.storeUnavailable e.name "store unreachable") := by
    rcases h.coherent.get_open (Fabric.serving_eq_ok_iff.mpr ⟨he, hopen⟩) key with
      ⟨hon | ⟨v, hv⟩, hans⟩ | ⟨hoff, -, hans⟩
    · rw [hans, hnone, if_pos hon]
      rfl
    · rw [hlocal] at hv
      cases hv
    · rw [hans, if_neg (by simp [hoff])]
  exact ⟨congrArg Answer.peeked (Fabric.peek_eq_ok_iff.mpr ⟨e, he, hopen, hlocal⟩),
    congrArg Answer.value hget⟩

/-- A name without data and without used endpoints is renewed when it is registered. -/
theorem Renewed.of_blank (h : Sound s) (a : s.cluster.Agrees none none) {name : String} {n : Nat}
    (b : s.fabric.Blank name n) (registered : ∃ config, s.cluster.registry.get? name = some config)
    (hheld : ∀ {t r}, s.held.get? t = some r → r.read.endpoint < n) : Renewed s name := by
  have hgiven : ∀ {cs key}, (s.after cs).fabric.store.current? name key ≠ none →
      Given s name key cs := by
    intro cs key hx
    rcases given_of_current cs h hx with hold | hgiven
    · exact absurd (b.current? key) hold
    · exact hgiven
  refine ⟨?_, ?_, ?_, ?_, ?_⟩
  · intro id host hr
    obtain ⟨config, hc⟩ := registered
    obtain ⟨host', i, hr', hi⟩ := a.hosts hr hc
    rw [hr] at hr'
    cases hr'
    obtain ⟨e, he, hopen, hname, -⟩ := h.linked.hosted (Cluster.running_eq_some_iff.mp hr).1 hi
    exact ⟨i, hi, e, he, hopen, hname⟩
  · intro i e he hopen hname
    obtain ⟨-, hunused⟩ := b.of_open he hname hopen
    exact ⟨hunused.snapshot, hunused.local?⟩
  · rintro t r hr ⟨e, he, hopen, hname⟩
    obtain ⟨hn, -⟩ := b.of_open he hname hopen
    exact absurd (hheld hr) (Nat.not_lt.mpr hn)
  · intro cs key hno
    have ht := (h.after cs).sound
    have hcurrent : (s.after cs).fabric.store.current? name key = none := by
      by_contra hx
      exact hno (hgiven hx)
    refine ⟨hcurrent, ?_⟩
    rintro i ⟨e, he, hopen, rfl⟩
    exact ht.absent he hopen hcurrent
  · intro cs i e key v s' he hname hreads
    obtain ⟨e', t, he', ⟨before, later, rfl, rfl⟩, hvalue⟩ := hreads.current (h.after cs).sound
    rw [he] at he'
    cases he'
    refine ⟨cs ++ before ++ later, by rw [after_append, after_append], Given.append ?_ later⟩
    apply hgiven
    rw [after_append]
    intro hno
    rw [hname, hno] at hvalue
    cases hvalue

/-- There is neither data nor an open endpoint under a name that is not registered. -/
theorem blank_of_unregistered (h : Sound s) (a : s.cluster.Agrees none none) (o : s.cluster.Owned)
    {name : String} (hfree : s.cluster.registry.get? name = none) :
    s.fabric.Blank name s.fabric.started := by
  refine ⟨Nat.le_refl _, ?_, ?_, ?_⟩
  · cases hdata : s.fabric.store.data.get? name with
    | none => rfl
    | some slots =>
        obtain ⟨config, hc⟩ := o hdata
        rw [hfree] at hc
        cases hc
  · intro i e he hname _ hopen
    obtain ⟨config, hc⟩ := registered_of_offers h a ⟨e, he, hopen, hname⟩
    rw [hfree] at hc
    cases hc
  · intro i e he _ hi
    exact absurd (h.linked.wired.started he) (Nat.not_lt.mpr hi)

/-- What users may rely on when they use a name again. -/
structure Anew (s : Session) : Prop where
  /-- The store holds data only for registered caches. -/
  owned : s.cluster.Owned
  /-- A name that a command registers starts from nothing. -/
  renewed : ∀ {command name config}, s.cluster.registry.get? name = none →
    (s.step command).2.cluster.registry.get? name = some config → Renewed (s.step command).2 name
  /-- To stop nodes, if need be all of them, changes neither the registry nor the data. -/
  kept : ∀ nodes : List MemberId,
    (s.after (nodes.map .stop)).cluster.registry = s.cluster.registry ∧
      (s.after (nodes.map .stop)).fabric.store.data = s.fabric.store.data

theorem stop_keeps (nodes : List MemberId) :
    ∀ s : Session, (s.after (nodes.map .stop)).cluster.registry = s.cluster.registry ∧
      (s.after (nodes.map .stop)).fabric.store.data = s.fabric.store.data := by
  induction nodes with
  | nil => intro s; exact ⟨rfl, rfl⟩
  | cons node nodes ih =>
      intro s
      obtain ⟨hregistry, hdata⟩ := s.cluster.stopNode_keeps node
      obtain ⟨hregistry', hdata'⟩ := ih (s.step (.stop node)).2
      exact ⟨hregistry'.trans hregistry, hdata'.trans hdata⟩

/-- **A cache name starts from nothing each time.** -/
theorem anew_after {memberIds : Nat → MemberId} (distinct : Function.Injective memberIds)
    (publisher : Fanout) (cs : List Command) : Anew ((fresh memberIds publisher).after cs) := by
  have hfresh := Sound.fresh distinct publisher
  have hempty := Cluster.Agrees.empty memberIds publisher
  have h := (hfresh.after cs).sound
  have a := agrees_after cs hfresh hempty
  have o := owned_after cs hfresh hempty (fun _ _ hd => by cases hd)
  generalize (fresh memberIds publisher).after cs = s at h a o
  refine ⟨o, ?_, fun nodes => stop_keeps nodes s⟩
  intro command name config hfree hregistered
  -- commands for endpoints register nothing
  have hcluster : command.isAccess = false := by
    cases haccess : command.isAccess with
    | false => rfl
    | true =>
        obtain ⟨f, -, heq⟩ := serves_step s haccess
        rw [heq, hfree] at hregistered
        cases hregistered
  obtain ⟨c, hd, heq⟩ := h.deeds_step hcluster
  have hnext : (s.step command).2.fabric.Blank name s.fabric.started := by
    rw [heq]
    exact (hd.steps h.linked).blank (blank_of_unregistered h a o hfree)
  refine .of_blank (h.step command).sound (agrees_step h a command) hnext ⟨config, hregistered⟩ ?_
  intro t r hr
  rw [heq] at hr
  exact h.coherent.issued hr

/-- A value is written and cached, a read of another key is held, and everything is stopped. The
cache that comes with the next node is a new one. -/
theorem anew_after_stopAll :
    let x : NodeConfig := { name := "a", caches := [{ name := "x" }] }
    let s := (fresh id {}).after
      [.start x, .put 0 [1] [2], .get 0 [1], .beginGet 0 [3] true, .stopAll]
    s.cluster.registry.get? "x" = none ∧ s.held.size = 1 ∧
      (s.step (.start x)).2.cluster.registry.get? "x" = some { name := "x" } ∧ Anew s :=
  ⟨by decide, by decide, by decide, anew_after Function.injective_id {} _⟩

end Session

end NearCache
