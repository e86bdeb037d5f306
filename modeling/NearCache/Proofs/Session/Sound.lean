import NearCache.Proofs.Cluster.Deeds
import NearCache.Proofs.Coherence.Reading

/-!
# Sound sessions

`Session.Sound` joins the two invariants of a cluster in use: roster, hosts and endpoints fit
together (`Cluster.Linked`), and the near caches agree with the store while reads are held
(`Fabric.Coherent`). Every command keeps it, whatever it is answered: a command for the cluster is a
sequence of deeds (`Cluster.Deeds`), a command for an endpoint leaves the endpoints in place
(`Fabric.Serves`).

`Session.Next s s'` says this of a session `s'` that comes after `s`, and what else every command
has in common: the fabric only goes on, and a held read stays what it was until it ends.
-/

namespace NearCache

/-- Whether a command is for endpoints or the store. -/
def Command.isAccess : Command → Bool
  | get .. | getAll .. | peek .. | put .. | putAll .. | remove .. | setAvailable _ | beginGet ..
  | endGet _ => true
  | start _ | apply _ | create .. | createFrom .. | getOrCreate .. | cache .. | destroy _
  | destroyFrom .. | stop _ | stopAll => false

/-- Whether a command reads and does nothing else. -/
def Command.isRead : Command → Bool
  | get .. | getAll .. | peek .. | beginGet .. | endGet _ => true
  | _ => false

namespace Session

/-- The cluster holds together, its near caches are coherent, and no held read has a ticket that is
still to be given out. -/
structure Sound (s : Session) : Prop where
  linked : s.cluster.Linked
  coherent : s.fabric.Coherent s.held
  issued : ∀ {t h}, s.held.get? t = some h → t < s.nextTicket

/-- `s'` comes after `s`. -/
structure Next (s s' : Session) : Prop where
  sound : Sound s'
  precedes : s.fabric.Precedes s'.fabric
  tickets : s.nextTicket ≤ s'.nextTicket
  held : ∀ {t h}, t < s.nextTicket → s'.held.get? t = some h → s.held.get? t = some h

theorem Next.trans {s s' s'' : Session} (a : Next s s') (b : Next s' s'') : Next s s'' where
  sound := b.sound
  precedes := a.precedes.trans b.precedes
  tickets := Nat.le_trans a.tickets b.tickets
  held ht hh := a.held ht (b.held (Nat.lt_of_lt_of_le ht a.tickets) hh)

/-- A held read that has asked the store keeps to what it was told, and the others ask now. -/
theorem answerFor_cases (f : Fabric) (h : HeldRead) :
    (∃ answer, h.answer = some answer ∧ answerFor f h = (answer, f)) ∨
      answerFor f h = f.fetch h.read := by
  unfold answerFor
  cases h.answer with
  | some answer => exact Or.inl ⟨answer, rfl, rfl⟩
  | none => exact Or.inr rfl

theorem reads_answerFor (f : Fabric) (h : HeldRead) : f.Reads (answerFor f h).2 := by
  rcases answerFor_cases f h with ⟨answer, -, heq⟩ | heq
  · rw [heq]
    exact .refl f
  · rw [heq]
    exact Fabric.reads_fetch f h.read

/-- A command that reads does nothing else. -/
theorem reads_step (s : Session) {command : Command} (h : command.isRead = true) :
    ∃ f, s.fabric.Reads f ∧ (s.step command).2.cluster = { s.cluster with fabric := f } := by
  cases command with
  | start | apply | create | createFrom | getOrCreate | cache | destroy | destroyFrom | stop
  | stopAll | put | putAll | remove | setAvailable => cases h
  | get id key => exact ⟨_, Fabric.reads_get _ id key, rfl⟩
  | getAll id keys => exact ⟨_, Fabric.reads_getInto id keys _ ∅, rfl⟩
  | peek => exact ⟨_, Fabric.Reads.refl _, rfl⟩
  | beginGet id key early =>
      have hreads := Fabric.reads_beginGet s.fabric id key
      show ∃ f, _ ∧ (s.beginGet id key early).2.cluster = _
      unfold Session.beginGet
      cases hb : s.fabric.beginGet id key with
      | mk b f =>
          rw [hb] at hreads
          cases b with
          | done r => exact ⟨_, hreads, rfl⟩
          | pending r =>
              cases early with
              | false => exact ⟨_, hreads, rfl⟩
              | true => exact ⟨_, hreads.trans (Fabric.reads_fetch f r), rfl⟩
  | endGet ticket =>
      show ∃ f, _ ∧ (s.endGet ticket).2.cluster = _
      unfold Session.endGet
      cases s.held.get? ticket with
      | none => exact ⟨_, Fabric.Reads.refl _, rfl⟩
      | some r =>
          have hanswer := reads_answerFor s.fabric r
          exact ⟨_, hanswer.trans (Fabric.reads_endGet _ _ _), rfl⟩

/-- A command that is for endpoints or the store leaves everything else alone. -/
theorem serves_step (s : Session) {command : Command} (h : command.isAccess = true) :
    ∃ f, s.fabric.Serves f ∧ (s.step command).2.cluster = { s.cluster with fabric := f } := by
  cases hread : command.isRead with
  | true =>
      obtain ⟨f, hreads, heq⟩ := reads_step s hread
      exact ⟨f, hreads.toServes, heq⟩
  | false =>
      cases command with
      | start | apply | create | createFrom | getOrCreate | cache | destroy | destroyFrom | stop
      | stopAll => cases h
      | get | getAll | peek | beginGet | endGet => cases hread
      | put id key value => exact ⟨_, Fabric.serves_put _ id key value, rfl⟩
      | putAll id entries => exact ⟨_, Fabric.serves_putEach id entries _, rfl⟩
      | remove id key => exact ⟨_, Fabric.serves_remove _ id key, rfl⟩
      | setAvailable b =>
          exact ⟨s.fabric.setAvailable b, Fabric.Serves.withStore rfl rfl (.of_data rfl rfl), rfl⟩

namespace Sound

variable {s : Session}

theorem fresh {memberIds : Nat → MemberId} (hd : Function.Injective memberIds)
    (publisher : Fanout) : Sound (Session.fresh memberIds publisher) where
  linked := Cluster.Linked.empty hd publisher
  coherent := Fabric.Coherent.empty
  issued h := by cases h

/-- The next ticket is held by nobody. -/
theorem next_free (h : Sound s) : s.held.get? s.nextTicket = none := by
  cases ht : s.held.get? s.nextTicket with
  | none => rfl
  | some r => exact absurd (h.issued ht) (Nat.lt_irrefl _)

theorem refl (h : Sound s) : Next s s := ⟨h, .refl _, Nat.le_refl _, fun _ hh => hh⟩

theorem withCluster (h : Sound s) {c : Cluster} (hd : s.cluster.Deeds c) :
    Next s (s.withCluster c) where
  sound := ⟨h.linked.deeds hd, (hd.steps h.linked).coherent h.coherent, h.issued⟩
  precedes := (hd.steps h.linked).precedes h.linked
  tickets := Nat.le_refl _
  held _ hh := hh

theorem withFabric (h : Sound s) {f : Fabric} (hs : s.fabric.Serves f)
    (hc : f.Coherent s.held) : Next s (s.withFabric f) where
  sound := ⟨h.linked.withFabric hs, hc, h.issued⟩
  precedes := hs.precedes
  tickets := Nat.le_refl _
  held _ hh := hh

theorem hold (h : Sound s) {f : Fabric} (hs : s.fabric.Serves f) {r : PendingRead}
    {answer : Option (Outcome (Option Versioned))}
    (hc : f.Coherent (s.held.insert s.nextTicket ⟨r, answer⟩)) :
    Next s ((s.withFabric f).hold r answer) where
  sound := by
    refine ⟨h.linked.withFabric hs, hc, fun {t r'} ht => ?_⟩
    have ht' : (s.held.insert s.nextTicket ⟨r, answer⟩).get? t = some r' := ht
    rw [Table.get?_insert] at ht'
    split at ht'
    · next heq => exact heq ▸ Nat.lt_succ_self _
    · exact Nat.lt_succ_of_lt (h.issued ht')
  precedes := hs.precedes
  tickets := Nat.le_succ _
  held {t r'} ht hh := by
    have hh' : (s.held.insert s.nextTicket ⟨r, answer⟩).get? t = some r' := hh
    rwa [Table.get?_insert, if_neg (Nat.ne_of_lt ht)] at hh'

theorem beginGet (h : Sound s) (id : EndpointId) (key : Bytes) (early : Bool) :
    Next s (s.beginGet id key early).2 := by
  have hreads := Fabric.reads_beginGet s.fabric id key
  unfold Session.beginGet
  cases hb : s.fabric.beginGet id key with
  | mk b f =>
      rw [hb] at hreads
      cases b with
      | done r => exact h.withFabric hreads.toServes (h.coherent.beginGet_done hb)
      | pending r =>
          have hpending := h.coherent.beginGet_pending h.linked.wired hb h.next_free
          cases early with
          | false => exact h.hold hreads.toServes (hpending none fun x hx => by cases hx)
          | true =>
              refine h.hold (hreads.trans (Fabric.reads_fetch f r)).toServes ?_
              refine (hpending _ fun x hx => ?_).fetch r
              rw [← hreads.due]
              exact Fabric.fetch_ok (Option.some.inj hx)

theorem endGet (h : Sound s) (ticket : Nat) : Next s (s.endGet ticket).2 := by
  unfold Session.endGet
  cases ht : s.held.get? ticket with
  | none => exact h.refl
  | some r =>
      dsimp only
      have hreads := reads_answerFor s.fabric r
      have hanswer : (answerFor s.fabric r).2.Coherent s.held ∧
          ∀ x, (answerFor s.fabric r).1 = .ok (some x) → r.answer = some (.ok (some x)) ∨
            (answerFor s.fabric r).2.due r.read = some x := by
        rcases answerFor_cases s.fabric r with ⟨answer, hr, heq⟩ | heq
        · rw [heq, hr]
          exact ⟨h.coherent, fun x hx => Or.inl (congrArg some hx)⟩
        · rw [hreads.due, heq]
          exact ⟨h.coherent.fetch r.read, fun x hx => Or.inr (Fabric.fetch_ok hx)⟩
      obtain ⟨hc, hx⟩ := hanswer
      have hend := (hreads.trans (Fabric.reads_endGet _ r.read (answerFor s.fabric r).1)).toServes
      have hless : ∀ {t r'}, (s.held.erase ticket).get? t = some r' → s.held.get? t = some r' := by
        intro t r' hr'
        rw [Table.get?_erase] at hr'
        split at hr'
        · cases hr'
        · exact hr'
      exact ⟨⟨h.linked.withFabric hend, hc.endGet ht _ hx, fun hr' => h.issued (hless hr')⟩,
        hend.precedes, Nat.le_refl _, fun _ hr' => hless hr'⟩

/-- A command for the cluster is a sequence of deeds, and leaves the held reads alone. -/
theorem deeds_step (h : Sound s) {command : Command} (hc : command.isAccess = false) :
    ∃ c, s.cluster.Deeds c ∧ (s.step command).2 = s.withCluster c := by
  cases command with
  | start n => exact ⟨_, h.linked.deeds_startNode n, rfl⟩
  | apply d => exact ⟨_, h.linked.deeds_apply d, rfl⟩
  | create id config => exact ⟨_, s.cluster.deeds_createCache id config, rfl⟩
  | createFrom id config => exact ⟨_, s.cluster.deeds_createFrom id config, rfl⟩
  | getOrCreate id config => exact ⟨_, s.cluster.deeds_getOrCreate id config, rfl⟩
  | cache => exact ⟨_, .refl, rfl⟩
  | destroy name => exact ⟨_, .single (.destroy s.cluster name), rfl⟩
  | destroyFrom id name => exact ⟨_, s.cluster.deeds_destroyFrom id name, rfl⟩
  | stop id => exact ⟨_, .single (.stop s.cluster id), rfl⟩
  | stopAll => exact ⟨_, h.linked.deeds_stopAll, rfl⟩
  | get | getAll | peek | put | putAll | remove | setAvailable | beginGet | endGet => cases hc

/-- No command breaks it. -/
theorem step (h : Sound s) (command : Command) : Next s (s.step command).2 := by
  have hw := h.linked.wired
  cases haccess : command.isAccess with
  | false =>
      obtain ⟨c, hd, heq⟩ := h.deeds_step haccess
      rw [heq]
      exact h.withCluster hd
  | true =>
      cases command with
      | start | apply | create | createFrom | getOrCreate | cache | destroy | destroyFrom | stop
      | stopAll => cases haccess
      | get id key =>
          exact h.withFabric (Fabric.reads_get _ id key).toServes
            (h.coherent.get hw h.next_free id key)
      | getAll id keys =>
          exact h.withFabric (Fabric.reads_getInto id keys _ ∅).toServes
            (Fabric.Coherent.getInto id keys h.next_free ∅ h.coherent hw)
      | peek => exact h.refl
      | put id key value =>
          exact h.withFabric (Fabric.serves_put _ id key value) (h.coherent.put hw id key value)
      | putAll id entries =>
          exact h.withFabric (Fabric.serves_putEach id entries _)
            (Fabric.Coherent.putEach id entries h.coherent hw)
      | remove id key =>
          exact h.withFabric (Fabric.serves_remove _ id key) (h.coherent.remove hw id key)
      | setAvailable b =>
          exact h.withFabric (Fabric.Serves.withStore rfl rfl (.of_data rfl rfl))
            (h.coherent.withStore rfl rfl)
      | beginGet id key early => exact h.beginGet id key early
      | endGet ticket => exact h.endGet ticket

theorem after (h : Sound s) (cs : List Command) : Next s (s.after cs) := by
  induction cs generalizing s with
  | nil => exact h.refl
  | cons c cs ih => exact (h.step c).trans (ih (h.step c).sound)

end Sound

end Session

end NearCache
