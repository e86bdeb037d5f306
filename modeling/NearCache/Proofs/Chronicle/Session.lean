import NearCache.Proofs.Chronicle.Cluster
import NearCache.Proofs.Session.Sound

/-!
# What the journal tells of a session

Whatever users do is a sequence of deeds, or it concerns the endpoints and is not told
(`chronicle_step`), so the chronicle of the cluster is kept through every session. `chronicle_after`
says what a journal that was there from the beginning is good for: it determines which nodes run and
what each of them has started.
-/

namespace NearCache

/-- A journal, written in these chapters, that can be relied on. -/
structure Cluster.Recorded (c : Cluster) (j : Journal) (chapters : List Chapter) : Prop where
  written : j.events.toList = story chapters
  /-- The line-up is that of the nodes that run, with what each has started and whether it has a near
  cache for it. -/
  lineup : ∀ {node caches}, (lineup j.events.toList).get? node = some caches ↔
    ∃ id h, c.running.get? id = some h ∧ h.member.name = node ∧
      caches = h.caches.mapValues fun i => (c.fabric.endpoint? i).any Endpoint.hasNear
  /-- Each endpoint that ever started has its chapter, and no other start is told of. -/
  starts : (startsIn chapters).map some = c.fabric.starts
  /-- The last thing told of the node before a start is what became of the near cache, if that is
  worth telling. -/
  prior : ∀ {earlier later node cache t p},
    chapters = earlier ++ Chapter.started node cache t p :: later →
      (Chapter.prior earlier node cache t p = some (.nearActivated node cache t.name) ↔
          p = .present) ∧
        ∀ text, Chapter.prior earlier node cache t p = some (.selectorFailed node cache text) ↔
          p = .absent (.badSelector text) ∨ p = .absent (.testFailed text)
  /-- To start again what has started does nothing and tells nothing. -/
  again : ∀ {id h config i}, c.running.get? id = some h → h.caches.get? config.name = some i →
    ∀ t, c.activateOn id config t = (.ok i, c)
  /-- No event of a node comes before it joined or after it left. -/
  inOrder : InOrder j.events.toList

namespace Session

variable {s : Session}

/-- Every command is told. -/
theorem chronicle_step (h : Sound s) {chapters : List Chapter} (hc : s.cluster.Chronicle chapters)
    (command : Command) : ∃ more, (s.step command).2.cluster.Chronicle (chapters ++ more) := by
  cases haccess : command.isAccess with
  | true =>
      obtain ⟨f, hserves, heq⟩ := serves_step s haccess
      refine ⟨[], ?_⟩
      rw [heq, List.append_nil]
      exact hc.withFabric hserves
  | false =>
      obtain ⟨c, hd, heq⟩ := h.deeds_step haccess
      rw [heq]
      exact hc.deeds h.linked hd

theorem chronicle_steps (cs : List Command) :
    ∀ {s : Session} {chapters : List Chapter}, Sound s → s.cluster.Chronicle chapters →
      ∃ more, (s.after cs).cluster.Chronicle (chapters ++ more) := by
  induction cs with
  | nil => intro s chapters _ hc; exact ⟨[], by rwa [List.append_nil]⟩
  | cons c cs ih =>
      intro s chapters h hc
      obtain ⟨first, hfirst⟩ := chronicle_step h hc c
      obtain ⟨more, hmore⟩ := ih (h.step c).sound hfirst
      exact ⟨first ++ more, by rwa [← List.append_assoc]⟩

/-- **The journal determines what runs where.** After any commands, a journal that was the sink from
the beginning consists of chapters, one for each node that came or went, each cache that was
destroyed and each start of a cache on a node, and its line-up is the nodes that run with what they
have started. -/
theorem chronicle_after {memberIds : Nat → MemberId} (distinct : Function.Injective memberIds)
    (cs : List Command) :
    let c := ((fresh memberIds (.ofSinks [.journal {}])).after cs).cluster
    ∃ j chapters, c.publisher = .ofSinks [.journal j] ∧ c.Recorded j chapters := by
  intro c
  have hsound := Sound.fresh distinct (.ofSinks [.journal {}])
  have hlinked := (hsound.after cs).sound.linked
  obtain ⟨chapters, h⟩ := chronicle_steps cs hsound (Cluster.Chronicle.empty memberIds)
  obtain ⟨j, hp, hj⟩ := h.journal
  rw [List.nil_append] at h hj
  -- a near cache is never given or taken after the start
  have hnear : c.fabric.isNear = fun i => (c.fabric.endpoint? i).any Endpoint.hasNear := by
    funext i
    unfold Fabric.isNear
    cases he : c.fabric.endpoint? i with
    | none => rfl
    | some e => exact (hlinked.wired.placed he).symm
  refine ⟨j, chapters, hp, hj, ?_, h.starts, ?_, ?_, ?_⟩
  · intro node caches
    rw [hj, h.lineup, hnear]
  · intro earlier later node cache t p _
    exact Chapter.prior_eq earlier node cache t p
  · intro id k config i hr hi t
    exact Cluster.activateOn_eq_self hr hi t
  · rw [hj]
    exact h.inOrder

/-- A node leaves and another of its name joins, which takes over a cache. Another cache is created
without near caches, and the first is destroyed. -/
theorem chronicle_after_rejoin :
    let off : NearConfig := { enabled := false }
    let c := ((fresh id (.ofSinks [.journal {}])).after
      [.start { name := "a", caches := [{ name := "x" }] }, .stop 0, .start { name := "a" },
        .create 1 { name := "y", near := some off }, .destroy "x"]).cluster
    c.publisher.journals.map (fun j => lineup j.events.toList) =
        [(∅ : Lineup).insert "a" ((∅ : Table String Bool).insert "y" false)] ∧
      ∃ j chapters, c.publisher = .ofSinks [.journal j] ∧ c.Recorded j chapters :=
  ⟨by decide, chronicle_after Function.injective_id _⟩

end Session

end NearCache
