import NearCache.Proofs.Overlap.Basic

/-!
# Calls that are alone

The stages of a call, carried out with nothing between them, are the operation of the cluster that
the call asks for: the same cluster comes out, and the call fails if the operation does
(`exists_alone`). So the stages do not describe another program, and what holds of every schedule
holds of calls that come one after the other.

The proofs follow the operations. `Alone` is for stages of the call itself, `Strand` for those of one
strand, and `Side` for strands that are carried out one after the other.
-/

namespace NearCache

/-- The operation that a call asks for. -/
def Call.carryOut (c : Cluster) : Call → Outcome Unit × Cluster
  | start n => ((c.startNode n).1.map fun _ => (), (c.startNode n).2)
  | create creator config => c.createCache creator config
  | destroy name => (.ok (), (c.destroyCache name).2)

namespace Overlap

/-- Some turns lead from one to the other. -/
def Reaches (o o' : Overlap) : Prop := ∃ schedule, o.after schedule = o'

namespace Reaches

theorem refl (o : Overlap) : Reaches o o := ⟨[], rfl⟩

theorem trans {o o' o'' : Overlap} (h : Reaches o o') (h' : Reaches o' o'') : Reaches o o'' := by
  obtain ⟨s, rfl⟩ := h
  obtain ⟨s', rfl⟩ := h'
  exact ⟨s ++ s', List.foldl_append⟩

theorem single (o : Overlap) (turn : Turn) : Reaches o (o.advance turn) := ⟨[turn], rfl⟩

end Reaches

/-- A call is under way alone. -/
def lone (c : Cluster) (call : Call) (strands : List (List Stage)) (main : List Stage) : Overlap :=
  ⟨c, [⟨call, strands, main, none⟩]⟩

variable {c c' c'' : Cluster} {t : Stage} {ts us : List Stage}

/-! ## Stages of a strand -/

/-- The stages of a strand lead from one cluster to the other. -/
def Strand (c : Cluster) (ts : List Stage) (c' : Cluster) : Prop :=
  ∀ call before after main, Reaches (lone c call (before ++ ts :: after) main)
    (lone c' call (before ++ [] :: after) main)

theorem Strand.nil (c : Cluster) : Strand c [] c := fun _ _ _ _ => .refl _

theorem advance_strand (t : Stage) (call : Call) (before after : List (List Stage))
    (main : List Stage) :
    (lone c call (before ++ (t :: ts) :: after) main).advance (0, some before.length) =
      match t.perform c with
      | (.ok s, c') => lone c' call (before ++ (s.next ++ ts) :: after ++ s.beside) main
      | (.error _, c') => lone c' call (before ++ [] :: after) main := by
  cases h : t.perform c with
  | mk r c' => cases r <;> simp [lone, advance, Job.stage?, Job.proceed, h]

/-- A stage of a strand is followed by those that it leads to. -/
theorem Strand.step {next : List Stage} (h : t.perform c = (.ok { next }, c'))
    (hrest : Strand c' (next ++ ts) c'') : Strand c (t :: ts) c'' := by
  intro call before after main
  have hturn := Reaches.single (lone c call (before ++ (t :: ts) :: after) main)
    (0, some before.length)
  rw [advance_strand, h] at hturn
  dsimp only at hturn
  rw [List.append_nil] at hturn
  exact hturn.trans (hrest call before after main)

theorem Strand.fail {e : Fault} (h : t.perform c = (.error e, c')) : Strand c (t :: ts) c' := by
  intro call before after main
  refine (Reaches.single _ (0, some before.length)).trans ?_
  rw [advance_strand, h]
  exact .refl _

/-- Strands, one after the other, lead from one cluster to the other. -/
def Side (c : Cluster) (ss : List (List Stage)) (c' : Cluster) : Prop :=
  ∀ call before main, before.all List.isEmpty = true → ∃ strands,
    strands.all List.isEmpty = true ∧
      Reaches (lone c call (before ++ ss) main) (lone c' call strands main)

theorem Side.nil (c : Cluster) : Side c [] c :=
  fun _ before _ hbefore => ⟨before ++ [], by simpa using hbefore, .refl _⟩

theorem Side.cons {ss : List (List Stage)} (h : Strand c ts c') (hrest : Side c' ss c'') :
    Side c (ts :: ss) c'' := by
  intro call before main hbefore
  obtain ⟨strands, hstrands, hreach⟩ := hrest call (before ++ [[]]) main (by simpa using hbefore)
  refine ⟨strands, hstrands, (h call before ss main).trans ?_⟩
  rw [List.append_assoc] at hreach
  exact hreach

/-! ## Stages of the call itself -/

/-- The stages lead from one cluster to the other, and then what comes after them is next; or they
fail, and that is the end of the call. -/
def Alone (c : Cluster) (ts : List Stage) : Outcome Unit → Cluster → Prop
  | .ok (), c' => ∀ call strands rest, strands.all List.isEmpty = true →
    ∃ strands', strands'.all List.isEmpty = true ∧
      Reaches (lone c call strands (ts ++ rest)) (lone c' call strands' rest)
  | .error e, c' => ∀ call strands rest, strands.all List.isEmpty = true →
    Reaches (lone c call strands (ts ++ rest)) ⟨c', [⟨call, [], [], some e⟩]⟩

theorem advance_main (t : Stage) (call : Call) {strands : List (List Stage)}
    (hstrands : strands.all List.isEmpty = true) (rest : List Stage) :
    (lone c call strands (t :: rest)).advance (0, none) =
      match t.perform c with
      | (.ok s, c') => lone c' call s.beside (s.next ++ rest)
      | (.error e, c') => ⟨c', [⟨call, [], [], some e⟩]⟩ := by
  unfold lone advance Job.stage?
  simp only [List.getElem?_cons_zero, hstrands, if_true, List.head?_cons]
  cases h : t.perform c with
  | mk r c' => cases r <;> rfl

namespace Alone

theorem nil (c : Cluster) : Alone c [] (.ok ()) c :=
  fun _ strands _ hstrands => ⟨strands, hstrands, .refl _⟩

theorem append {r : Outcome Unit} (h : Alone c ts (.ok ()) c') (h' : Alone c' us r c'') :
    Alone c (ts ++ us) r c'' := by
  cases r with
  | error e =>
      intro call strands rest hstrands
      obtain ⟨strands', hstrands', hreach⟩ := h call strands (us ++ rest) hstrands
      rw [List.append_assoc]
      exact hreach.trans (h' call strands' rest hstrands')
  | ok u =>
      intro call strands rest hstrands
      obtain ⟨strands', hstrands', hreach⟩ := h call strands (us ++ rest) hstrands
      obtain ⟨strands'', hstrands'', hreach'⟩ := h' call strands' rest hstrands'
      rw [List.append_assoc]
      exact ⟨strands'', hstrands'', hreach.trans hreach'⟩

theorem append_error {e : Fault} (h : Alone c ts (.error e) c') (us : List Stage) :
    Alone c (ts ++ us) (.error e) c' := by
  intro call strands rest hstrands
  rw [List.append_assoc]
  exact h call strands (us ++ rest) hstrands

/-- A stage is followed by those that it leads to. -/
theorem step {next : List Stage} {r : Outcome Unit} (h : t.perform c = (.ok { next }, c'))
    (hnext : Alone c' next r c'') : Alone c [t] r c'' := by
  have hturn : ∀ call strands rest, strands.all List.isEmpty = true →
      Reaches (lone c call strands (t :: rest)) (lone c' call [] (next ++ rest)) := by
    intro call strands rest hstrands
    have hturn := Reaches.single (lone c call strands (t :: rest)) (0, none)
    rwa [advance_main t call hstrands, h] at hturn
  cases r with
  | error e =>
      intro call strands rest hstrands
      exact (hturn call strands rest hstrands).trans (hnext call [] rest rfl)
  | ok u =>
      intro call strands rest hstrands
      obtain ⟨strands', hstrands', hreach⟩ := hnext call [] rest rfl
      exact ⟨strands', hstrands', (hturn call strands rest hstrands).trans hreach⟩

theorem fail {e : Fault} (h : t.perform c = (.error e, c')) : Alone c [t] (.error e) c' := by
  intro call strands rest hstrands
  have hturn := Reaches.single (lone c call strands (t :: rest)) (0, none)
  rw [advance_main t call hstrands, h] at hturn
  exact hturn

/-- A stage is followed by strands. -/
theorem side {ss : List (List Stage)} (h : t.perform c = (.ok { beside := ss }, c'))
    (hside : Side c' ss c'') : Alone c [t] (.ok ()) c'' := by
  intro call strands rest hstrands
  have hturn := Reaches.single (lone c call strands (t :: rest)) (0, none)
  rw [advance_main t call hstrands, h] at hturn
  obtain ⟨strands', hstrands', hreach⟩ := hside call [] rest rfl
  exact ⟨strands', hstrands', hturn.trans hreach⟩

end Alone

/-! ## The parts of the operations -/

/-- Activating a cache and confirming it. -/
theorem perform_activate (c : Cluster) (id : MemberId) (config : CacheConfig) (trigger : Trigger) :
    (∃ c₁, (Stage.activate id config trigger).perform c =
        (.ok { next := [.confirm id config.name] }, c₁) ∧
      c.activateRegistered id config trigger = (.ok (), c₁.confirm id config.name)) ∨
    ∃ e c₁, (Stage.activate id config trigger).perform c = (.error e, c₁) ∧
      c.activateRegistered id config trigger = (.error e, c₁) := by
  simp only [Stage.perform, Cluster.activateRegistered]
  cases c.activateOn id config trigger with
  | mk r c₁ =>
      cases r with
      | error e => exact Or.inr ⟨e, c₁, rfl, rfl⟩
      | ok i => exact Or.inl ⟨c₁, rfl, rfl⟩

theorem alone_activate (c : Cluster) (id : MemberId) (config : CacheConfig) (trigger : Trigger) :
    Alone c [.activate id config trigger] (c.activateRegistered id config trigger).1
      (c.activateRegistered id config trigger).2 := by
  rcases perform_activate c id config trigger with ⟨c₁, hperform, heq⟩ | ⟨e, c₁, hperform, heq⟩
  · rw [heq]
    exact .step hperform (.step rfl (.nil _))
  · rw [heq]
    exact .fail hperform

theorem strand_activate (c : Cluster) (id : MemberId) (config : CacheConfig) :
    Strand c [.activate id config .dynamic] (c.activateRegistered id config .dynamic).2 := by
  rcases perform_activate c id config .dynamic with ⟨c₁, hperform, heq⟩ | ⟨e, c₁, hperform, heq⟩
  · rw [heq]
    exact .step hperform (.step rfl (.nil _))
  · rw [heq]
    exact .fail hperform

theorem side_activateEach (config : CacheConfig) (ids : List MemberId) :
    ∀ c : Cluster, Side c (ids.map fun id => [.activate id config .dynamic])
      (c.activateEach config ids) := by
  induction ids with
  | nil => intro c; exact .nil c
  | cons id ids ih => intro c; exact .cons (strand_activate c id config) (ih _)

theorem alone_spread (c : Cluster) (config : CacheConfig) (skip : Option MemberId) :
    Alone c [.spread config skip] (.ok ()) (c.propagate config skip) :=
  .side rfl (side_activateEach config _ c)

theorem side_deactivateEach (name : String) (ids : List MemberId) :
    ∀ c : Cluster, Side c (ids.map fun id => [.deactivate id name]) (c.deactivateEach name ids) := by
  induction ids with
  | nil => intro c; exact .nil c
  | cons id ids ih =>
      intro c
      have hstrand : Strand c [.deactivate id name] (c.deactivateOn id name) :=
        .step rfl (.nil _)
      exact .cons hstrand (ih _)

theorem alone_startStatic (id : MemberId) (configs : List CacheConfig) :
    ∀ c : Cluster, Alone c (configs.map (.register id)) (c.startStatic id configs).1
      (c.startStatic id configs).2 := by
  induction configs with
  | nil => intro c; exact .nil c
  | cons config rest ih =>
      intro c
      unfold Cluster.startStatic
      cases hregister : c.registerStatic config with
      | mk effective c₁ =>
          have hperform : (Stage.register id config).perform c =
              (.ok { next := [.activate id effective .static, .spread effective (some id)] }, c₁) := by
            simp only [Stage.perform, hregister]
          have hactivate := alone_activate c₁ id effective .static
          dsimp only
          cases ha : c₁.activateRegistered id effective .static with
          | mk r c₂ =>
              rw [ha] at hactivate
              cases r with
              | error e =>
                  have hfirst : Alone c [.register id config] (.error e) c₂ :=
                    .step hperform (hactivate.append_error _)
                  exact hfirst.append_error _
              | ok u =>
                  have hfirst : Alone c [.register id config] (.ok ())
                      (c₂.propagate effective (some id)) :=
                    .step hperform (hactivate.append (alone_spread c₂ effective (some id)))
                  exact hfirst.append (ih _)

theorem alone_startJoined (id : MemberId) (configs : List CacheConfig) :
    ∀ c : Cluster, Alone c (configs.map fun config => .activate id config .join)
      (c.startJoined id configs).1 (c.startJoined id configs).2 := by
  induction configs with
  | nil => intro c; exact .nil c
  | cons config rest ih =>
      intro c
      have hactivate := alone_activate c id config .join
      unfold Cluster.startJoined
      cases ha : c.activateRegistered id config .join with
      | mk r c₁ =>
          rw [ha] at hactivate
          cases r with
          | error e => exact hactivate.append_error _
          | ok u => exact hactivate.append (ih c₁)

/-! ## The operations -/

theorem alone_startNode (c : Cluster) (n : NodeConfig) :
    Alone c [.enrol n] ((c.startNode n).1.map fun _ => ()) (c.startNode n).2 := by
  unfold Cluster.startNode
  cases he : c.enrol n with
  | error e =>
      have hperform : (Stage.enrol n).perform c = (.error e, c) := by simp only [Stage.perform, he]
      exact .fail hperform
  | ok r =>
      obtain ⟨id, c₁⟩ := r
      have hperform : (Stage.enrol n).perform c =
          (.ok { next := n.staticCaches.map (.register id) ++ [.join id] }, c₁) := by
        simp only [Stage.perform, he]
      have hstatic := alone_startStatic id n.staticCaches c₁
      dsimp only
      cases hs : c₁.startStatic id n.staticCaches with
      | mk r c₂ =>
          rw [hs] at hstatic
          cases r with
          | error e => exact .step hperform (hstatic.append_error _)
          | ok u =>
              have hjoined : Alone c₂ [.join id] _ _ :=
                .step rfl (alone_startJoined id c₂.registry.values c₂)
              dsimp only
              cases hj : c₂.startJoined id c₂.registry.values with
              | mk r c₃ =>
                  rw [hj] at hjoined
                  cases r <;> exact .step hperform (hstatic.append hjoined)

theorem alone_createCache (c : Cluster) (creator : MemberId) (config : CacheConfig) :
    Alone c [.create creator config] (c.createCache creator config).1
      (c.createCache creator config).2 := by
  have hfail : ∀ {e : Fault}, (Stage.create creator config).perform c = (.error e, c) →
      Alone c [.create creator config] (.error e) c := fun h => .fail h
  unfold Cluster.createCache
  simp only [Stage.perform] at hfail
  cases hcheck : config.check with
  | error e => exact hfail (by rw [hcheck])
  | ok u =>
      rw [hcheck] at hfail
      dsimp only at hfail ⊢
      split
      · next habsent => exact hfail (if_pos habsent)
      · next hpresent =>
        rw [if_neg hpresent] at hfail
        split
        · next htaken => exact hfail (if_pos htaken)
        · next hfree =>
          have hperform : (Stage.create creator config).perform c =
              (.ok { next := [.spread config none] },
                { c with registry := c.registry.insert config.name config }) := by
            simp only [Stage.perform, hcheck, if_neg hpresent, if_neg hfree]
          exact .step hperform (alone_spread _ config none)

theorem alone_destroyCache (c : Cluster) (name : String) :
    Alone c [.unregister name] (.ok ()) (c.destroyCache name).2 := by
  unfold Cluster.destroyCache
  split
  · next hknown =>
    have hperform : (Stage.unregister name).perform c =
        (.ok { next := [.sweep name, .drop name] },
          { c with registry := c.registry.erase name }) := by
      simp only [Stage.perform, if_pos hknown]
    have hsweep : Alone { c with registry := c.registry.erase name } [.sweep name] (.ok ()) _ :=
      .side rfl (side_deactivateEach name c.running.keys _)
    exact .step hperform (hsweep.append (.step rfl (.nil _)))
  · next hunknown =>
    have hperform : (Stage.unregister name).perform c = (.ok {}, c) := by
      simp only [Stage.perform, if_neg hunknown]
    exact .step hperform (.nil c)

theorem alone_carryOut (c : Cluster) (call : Call) :
    Alone c [call.entry] (call.carryOut c).1 (call.carryOut c).2 := by
  cases call with
  | start n => exact alone_startNode c n
  | create creator config => exact alone_createCache c creator config
  | destroy name => exact alone_destroyCache c name

/-- **A call that is alone does what the operation does.** -/
theorem exists_alone (c : Cluster) (call : Call) : ∃ schedule j,
    (ofCalls c [call]).after schedule = ⟨(call.carryOut c).2, [j]⟩ ∧ j.isDone = true ∧
      (call.carryOut c).1 = match j.fault with
        | none => .ok ()
        | some e => .error e := by
  have halone := alone_carryOut c call
  cases hr : call.carryOut c with
  | mk r c' =>
      rw [hr] at halone
      cases r with
      | error e =>
          obtain ⟨schedule, hafter⟩ := halone call [] [] rfl
          exact ⟨schedule, _, hafter, rfl, rfl⟩
      | ok u =>
          obtain ⟨strands, hstrands, schedule, hafter⟩ := halone call [] [] rfl
          refine ⟨schedule, _, hafter, ?_, rfl⟩
          unfold Job.isDone
          rw [hstrands]
          rfl

end Overlap

end NearCache
