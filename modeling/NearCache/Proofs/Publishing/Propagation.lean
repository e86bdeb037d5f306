import NearCache.Proofs.Cluster.Deeds
import NearCache.Proofs.Journal.Indexes
import NearCache.Proofs.Numbering.Cluster
import NearCache.Proofs.Publishing.Fanout
import NearCache.Proofs.Publishing.Retelling

/-!
# Two clusters with other numbers and other listeners

`Cluster.Beside` relates two clusters whose members and endpoints are numbered differently and whose
journals stand among different sinks that fail. They are the same up to their numbers
(`Cluster.Renumbered`), and one journal retells the other (`Retold`).

The one operation in which numbers matter is propagation, which visits the running nodes in the order
of their numbers. Nodes of the same rank do the same (`Beside.activateEach`), and the order in which
they do it can be changed two neighbours at a time (`Beside.activateEach_perm`). So propagation makes no
difference but the order in which starts are told, and none at all if members come in the same order:
`Beside.propagate`.
-/

namespace NearCache

/-- What a run is given: the numbers for the members, and the sinks before and behind its journal,
which fail. -/
structure Setting where
  memberIds : Nat → MemberId
  before : List Fault
  behind : List Fault

namespace Setting

variable {S T : Setting} {es es' : List Event}

/-- The sinks, when the journal among them has been told some events. -/
def publisher (S : Setting) (es : List Event) : Fanout :=
  .among S.before S.behind (({} : Journal).append es)

theorem publishAll_publisher (S : Setting) (es more : List Event) :
    (S.publisher es).publishAll more =
      (Fanout.firstOf (S.before ++ S.behind), S.publisher (es ++ more)) := by
  unfold publisher
  rw [Fanout.publishAll_among, Journal.append, Journal.append, Journal.append, List.foldl_append]

theorem publish_publisher (S : Setting) (es : List Event) (e : Event) :
    (S.publisher es).publish e =
      (Fanout.firstOf (S.before ++ S.behind), S.publisher (es ++ [e])) := by
  unfold publisher
  rw [Fanout.publish_among, Journal.append, Journal.append, List.foldl_append]
  rfl

theorem publisher_injective (h : S.publisher es = S.publisher es') : es = es' := by
  have hjournals := congrArg Fanout.journals h
  rw [publisher, publisher, Fanout.journals_among, Fanout.journals_among] at hjournals
  have hevents := congrArg (fun j => j.events.toList) (List.cons.inj hjournals).1
  simp only [Journal.toList_append] at hevents
  exact hevents

/-- Members are numbered in the same order. -/
def SameOrder (S T : Setting) : Prop :=
  ∀ n k, S.memberIds n < S.memberIds k ↔ T.memberIds n < T.memberIds k

end Setting

namespace Cluster

/-! ## Answers -/

/-- The same failure, in which a node that is not found bears its number. -/
inductive SameFault (c d : Cluster) : Fault → Fault → Prop where
  | same (fault : Fault) : SameFault c d fault fault
  | nodeNotFound {a b : MemberId} (rank : d.rank? b = c.rank? a) :
      SameFault c d (.nodeNotFound (.id a)) (.nodeNotFound (.id b))

/-- Both succeed, with the same result up to numbers, or both fail for the same reason. -/
inductive SameOutcome (c d : Cluster) {α : Type} (same : α → α → Prop) :
    Outcome α → Outcome α → Prop where
  | ok {x y : α} (h : same x y) : SameOutcome c d same (.ok x) (.ok y)
  | error {fault fault' : Fault} (h : SameFault c d fault fault') :
      SameOutcome c d same (.error fault) (.error fault')

theorem SameOutcome.of_eq {c d : Cluster} {α : Type} {r r' : Outcome α} (h : r' = r) :
    SameOutcome c d Eq r r' := by
  subst h
  cases r' with
  | error fault => exact .error (.same fault)
  | ok x => exact .ok rfl

/-- The same member of both clusters. -/
def SameMember (c d : Cluster) (a b : MemberId) : Prop :=
  ∃ n, c.rank? a = some n ∧ d.rank? b = some n

/-- The same endpoint of both clusters. -/
def SameEndpoint (c d : Cluster) (i j : EndpointId) : Prop :=
  ∃ p, c.fabric.place? i = some p ∧ d.fabric.place? j = some p

/-! ## Clusters -/

/-- `d` is `c` with other numbers, other failing sinks and a journal that tells its events in another
order. If the order is `kept`, it is the same. -/
structure Beside (S T : Setting) (kept : Prop) (c d : Cluster) : Prop where
  linked : c.Linked
  linked' : d.Linked
  ids : c.memberIds = S.memberIds
  ids' : d.memberIds = T.memberIds
  renumbered : c.Renumbered d
  told : ∃ es es', c.publisher = S.publisher es ∧ d.publisher = T.publisher es' ∧
    Retold es es' ∧ (kept → es' = es)
  order : kept → S.SameOrder T

variable {S T U : Setting} {kept kept' : Prop} {c c' d d' e : Cluster} {a b : MemberId}

/-- The same answer, up to numbers, from clusters that are still beside each other. -/
def BesideWith (S T : Setting) (kept : Prop) {α : Type} (same : Cluster → Cluster → α → α → Prop)
    (r r' : α × Cluster) : Prop :=
  Beside S T kept r.2 r'.2 ∧ same r.2 r'.2 r.1 r'.1

/-- The answers and the clusters that they come with. -/
theorem BesideWith.cases {α : Type} {same : Cluster → Cluster → α → α → Prop} {r r' : α × Cluster}
    (h : BesideWith S T kept same r r') :
    ∃ x y c d, r = (x, c) ∧ r' = (y, d) ∧ Beside S T kept c d ∧ same c d x y := by
  obtain ⟨x, c⟩ := r
  obtain ⟨y, d⟩ := r'
  exact ⟨x, y, c, d, rfl, rfl, h.1, h.2⟩

namespace Beside

theorem right (h : Beside S T kept c d) : Beside T T False d d where
  linked := h.linked'
  linked' := h.linked'
  ids := h.ids'
  ids' := h.ids'
  renumbered := .refl h.linked'
  told := by
    obtain ⟨-, es', -, hd, -⟩ := h.told
    exact ⟨es', es', hd, hd, .refl, False.elim⟩
  order := False.elim

theorem trans (h : Beside S T kept c d) (h' : Beside T U kept' d e) :
    Beside S U False c e where
  linked := h.linked
  linked' := h'.linked'
  ids := h.ids
  ids' := h'.ids'
  renumbered := h.renumbered.trans h'.renumbered h.linked'.distinct
  told := by
    obtain ⟨es, es₁, hc, hd, hretold, -⟩ := h.told
    obtain ⟨es₂, es', hd', he, hretold', -⟩ := h'.told
    rw [hd] at hd'
    cases Setting.publisher_injective hd'
    exact ⟨es, es', hc, he, hretold.trans hretold', False.elim⟩
  order := False.elim

theorem imp (h : Beside S T kept c d) (himp : kept' → kept) : Beside S T kept' c d :=
  { h with
    told := by
      obtain ⟨es, es', hc, hd, hretold, hsame⟩ := h.told
      exact ⟨es, es', hc, hd, hretold, hsame ∘ himp⟩
    order := h.order ∘ himp }

/-- Changes of which nobody is told. -/
theorem steps (h : Beside S T kept c d) (hc : Steps c c') (hd : Steps d d')
    (renumbered : c'.Renumbered d') (hp : c'.publisher = c.publisher)
    (hp' : d'.publisher = d.publisher) : Beside S T kept c' d' where
  linked := h.linked.steps hc
  linked' := h.linked'.steps hd
  ids := hc.memberIds.trans h.ids
  ids' := hd.memberIds.trans h.ids'
  renumbered := renumbered
  told := by
    rw [hp, hp']
    exact h.told
  order := h.order

/-- Reads and writes, of which nobody is told. -/
theorem withFabric (h : Beside S T kept c d) {f g : Fabric} (hs : c.fabric.Serves f)
    (hs' : d.fabric.Serves g) (hfg : f.Renumbered g) :
    Beside S T kept { c with fabric := f } { d with fabric := g } :=
  { h with
    linked := h.linked.withFabric hs
    linked' := h.linked'.withFabric hs'
    renumbered := h.renumbered.withFabric h.linked h.linked' hfg (.of_eq hs.place?)
      (.of_eq hs'.place?) }

theorem publishAll (h : Beside S T kept c d) (es : List Event) :
    Beside S T kept (c.publishAll es) (d.publishAll es) where
  linked := h.linked.steps (steps_publishAll c es)
  linked' := h.linked'.steps (steps_publishAll d es)
  ids := h.ids
  ids' := h.ids'
  renumbered := h.renumbered.withPublisher _ _
  told := by
    obtain ⟨es₁, es₂, hc, hd, hretold, hsame⟩ := h.told
    refine ⟨es₁ ++ es, es₂ ++ es, ?_, ?_, hretold.append es, fun hkept => by rw [hsame hkept]⟩
    · show (c.publisher.publishAll es).2 = _
      rw [hc, Setting.publishAll_publisher]
    · show (d.publisher.publishAll es).2 = _
      rw [hd, Setting.publishAll_publisher]
  order := h.order

theorem publish (h : Beside S T kept c d) (e : Event) :
    Beside S T kept (c.publish e) (d.publish e) := by
  obtain ⟨es₁, es₂, hc, hd, -⟩ := h.told
  have hsingle : ∀ {S : Setting} {es : List Event} {c : Cluster}, c.publisher = S.publisher es →
      c.publish e = c.publishAll [e] := by
    intro S es c hc
    unfold Cluster.publish Cluster.publishAll
    rw [hc, Setting.publish_publisher, Setting.publishAll_publisher]
  rw [hsingle hc, hsingle hd]
  exact h.publishAll [e]

/-- Who has the same rank has it as long as nobody joins. -/
theorem rank?_eq (h : Beside S T kept c d) (h' : Beside S T kept' c' d')
    (hj : c'.joined = c.joined) (hab : d.rank? b = c.rank? a) : d'.rank? b = c'.rank? a := by
  rw [rank?_congr (h'.ids.trans h.ids.symm) hj, rank?_congr (h'.ids'.trans h.ids'.symm) ?_, hab]
  rw [h'.renumbered.joined, h.renumbered.joined, hj]

/-! ## Starting a cache on a node -/

theorem activateOn (h : Beside S T kept c d) (hab : d.rank? b = c.rank? a) (config : CacheConfig)
    (t : Trigger) :
    BesideWith S T kept (fun c d => SameOutcome c d (SameEndpoint c d)) (c.activateOn a config t)
      (d.activateOn b config t) := by
  have hr := h.renumbered
  rcases hr.host_cases hab with ⟨ha, hb⟩ | ⟨k, k', ha, hb, hsame⟩
  · unfold Cluster.activateOn
    rw [ha, hb]
    exact ⟨h, .error (.nodeNotFound hab)⟩
  obtain ⟨hmember, -, hstopped⟩ := Host.unnumbered_eq_iff.mp hsame
  have hname := Member.name_eq_of_unnumbered_eq hmember
  cases hs : k.stopped with
  | true =>
      rw [activateOn_eq_stopped ha hs, activateOn_eq_stopped hb (hstopped.trans hs), hname]
      exact ⟨h, .error (.same _)⟩
  | false =>
      have hra := running_eq_some_iff.mpr ⟨ha, hs⟩
      have hrb := running_eq_some_iff.mpr ⟨hb, hstopped.trans hs⟩
      rcases Renumbered.cache_cases hsame config.name with ⟨hi, hj⟩ | ⟨i, j, hi, hj, hplace⟩
      · rw [activateOn_eq_starting hra hi, activateOn_eq_starting hrb hj, hname,
          Placement.decide_eq_of_unnumbered_eq hmember]
        have hstart := h.steps (.single (.start c hra hi)) (.single (.start d hrb hj))
          (hr.starting h.linked h.linked' hab ha hb hsame config) rfl rfl
        refine ⟨hstart.publishAll _, .ok ⟨_, h.linked.wired.place?_started _ _ _, ?_⟩⟩
        refine (h.linked'.wired.place?_started _ _ _).trans ?_
        rw [hname, hr.fabric.lineup]
      · rw [activateOn_eq_self hra hi, activateOn_eq_self hrb hj]
        obtain ⟨e, he, -⟩ := h.linked.hosted ha hi
        have hp := Fabric.place?_of_endpoint he
        exact ⟨h, .ok ⟨_, hp, hplace.trans hp⟩⟩

theorem activateRegistered (h : Beside S T kept c d) (hab : d.rank? b = c.rank? a)
    {config : CacheConfig} (hc : c.registry.get? config.name = some config) (t : Trigger) :
    BesideWith S T kept (fun c d => SameOutcome c d Eq) (c.activateRegistered a config t)
      (d.activateRegistered b config t) := by
  obtain ⟨x, y, c', d', hrc, hrd, h', hsame⟩ := (h.activateOn hab config t).cases
  have hreg := registry_activateOn c a config t
  have hreg' := registry_activateOn d b config t
  rw [hrc] at hreg
  rw [hrd] at hreg'
  unfold Cluster.activateRegistered
  rw [hrc, hrd]
  cases hsame with
  | error hfault => exact ⟨h', .error hfault⟩
  | ok =>
      dsimp only at hreg hreg' ⊢
      rw [confirm_eq_self (hreg.symm ▸ hc),
        confirm_eq_self (hreg'.symm ▸ h.renumbered.registry.symm ▸ hc)]
      exact ⟨h', .ok rfl⟩

/-- A cache starts on the same nodes in the same order. -/
theorem activateEach {config : CacheConfig} {as bs : List MemberId} : ∀ {c d : Cluster},
    Beside S T kept c d → c.registry.get? config.name = some config →
      List.Forall₂ (fun a b => d.rank? b = c.rank? a) as bs →
        Beside S T kept (c.activateEach config as) (d.activateEach config bs) := by
  induction as generalizing bs with
  | nil =>
      intro c d h _ hranks
      cases hranks
      exact h
  | cons a as ih =>
      intro c d h hc hranks
      obtain ⟨b, bs', hab, hrest, rfl⟩ := List.forall₂_cons_left_iff.mp hranks
      have hfirst := (h.activateRegistered hab hc .dynamic).1
      show Beside S T kept ((c.activateRegistered a config .dynamic).2.activateEach config as)
        ((d.activateRegistered b config .dynamic).2.activateEach config bs')
      refine ih hfirst ?_ (hrest.imp fun x y hxy => ?_)
      · rw [registry_activateRegistered, hc]
      · exact h.rank?_eq hfirst (congrArg Prod.snd (staff_activateRegistered c a config _)) hxy

end Beside

/-! ## Either of two nodes comes first -/

/-- A node on which a cache has nothing to start: it does not run, or has the cache. -/
def Idle (c : Cluster) (a : MemberId) (config : CacheConfig) : Prop :=
  ∀ k, c.running.get? a = some k → ∃ i, k.caches.get? config.name = some i

theorem exists_new_of_not_idle {config : CacheConfig} (hi : ¬ c.Idle a config) :
    ∃ k, c.running.get? a = some k ∧ k.caches.get? config.name = none := by
  simp only [Idle, not_forall, not_exists] at hi
  obtain ⟨k, hr, hnew⟩ := hi
  exact ⟨k, hr, Option.eq_none_iff_forall_ne_some.mpr hnew⟩

theorem activateRegistered_of_idle {config : CacheConfig}
    (hc : c.registry.get? config.name = some config) (hi : c.Idle a config) (t : Trigger) :
    (c.activateRegistered a config t).2 = c := by
  unfold activateRegistered
  cases hr : c.running.get? a with
  | none =>
      obtain ⟨err, he⟩ := activateOn_eq_error hr config t
      rw [he]
  | some k =>
      obtain ⟨i, hk⟩ := hi k hr
      rw [activateOn_eq_self hr hk]
      exact confirm_eq_self hc a

theorem activateRegistered_of_new {config : CacheConfig} {k : Host}
    (hc : c.registry.get? config.name = some config) (hr : c.running.get? a = some k)
    (hnew : k.caches.get? config.name = none) (t : Trigger) :
    (c.activateRegistered a config t).2 = (c.starting a k config).publishAll
      (Host.startEvents k.member.name config.name t (Placement.decide config k.member)) := by
  unfold activateRegistered
  rw [activateOn_eq_starting hr hnew]
  have hreg : ∀ es, ((c.starting a k config).publishAll es).registry.get? config.name =
      some config := fun _ => hc
  exact confirm_eq_self (hreg _) a

/-- The other nodes are not touched. -/
theorem running_activateRegistered {config : CacheConfig}
    (hc : c.registry.get? config.name = some config) (hab : b ≠ a) (t : Trigger) :
    (c.activateRegistered a config t).2.running.get? b = c.running.get? b := by
  by_cases hi : c.Idle a config
  · rw [activateRegistered_of_idle hc hi]
  · obtain ⟨k, hr, hnew⟩ := exists_new_of_not_idle hi
    rw [activateRegistered_of_new hc hr hnew]
    exact (running_starting hr config b).trans (if_neg hab)

namespace Beside

/-- A cache starts on two nodes, on either first. -/
theorem swap_of_new (h : Beside T T False d d) {config : CacheConfig}
    (hc : d.registry.get? config.name = some config) (hab : a ≠ b) {k k' : Host}
    (ha : d.running.get? a = some k) (hb : d.running.get? b = some k')
    (hnew : k.caches.get? config.name = none) (hnew' : k'.caches.get? config.name = none) :
    Beside T T False
      ((d.activateRegistered a config .dynamic).2.activateRegistered b config .dynamic).2
      ((d.activateRegistered b config .dynamic).2.activateRegistered a config .dynamic).2 := by
  have hreg : ∀ x, (d.activateRegistered x config .dynamic).2.registry.get? config.name =
      some config := fun x => by rw [registry_activateRegistered, hc]
  have hone := fun x => (h.activateRegistered (a := x) rfl hc .dynamic).1
  have hleft := ((hone a).activateRegistered (b := b) rfl (hreg a) .dynamic).1
  have hright := ((hone b).activateRegistered (b := a) rfl (hreg b) .dynamic).1
  have ha' := (running_activateRegistered hc hab .dynamic).trans ha
  have hb' := (running_activateRegistered hc hab.symm .dynamic).trans hb
  rw [activateRegistered_of_new (hreg a) hb' hnew', activateRegistered_of_new hc ha hnew]
    at hleft ⊢
  rw [activateRegistered_of_new (hreg b) ha' hnew, activateRegistered_of_new hc hb hnew']
    at hright ⊢
  obtain ⟨es, -, hd, -⟩ := h.told
  have apart : k.member.name ≠ k'.member.name := fun hname =>
    hab ((h.linked.name_eq_iff hb ha).mp hname)
  have hswap := Swapped.starts es [] apart config.name (Placement.decide config k.member)
    (Placement.decide config k'.member)
  simp only [List.append_nil, ← List.append_assoc] at hswap
  have htold : ∀ A B : List Event,
      ((d.publisher.publishAll A).2.publishAll B).2 = T.publisher (es ++ A ++ B) := by
    intro A B
    rw [hd, Setting.publishAll_publisher, Setting.publishAll_publisher]
  exact {
    linked := hleft.linked
    linked' := hright.linked
    ids := hleft.ids
    ids' := hright.ids
    renumbered := (h.linked.renumbered_swap ha hb hab hnew hnew').withPublisher _ _
    told := ⟨_, _, htold _ _, htold _ _, .single hswap, False.elim⟩
    order := False.elim }

/-- Two nodes are asked to start a cache, either first. -/
theorem swap (h : Beside T T False d d) {config : CacheConfig}
    (hc : d.registry.get? config.name = some config) (a b : MemberId) :
    Beside T T False
      ((d.activateRegistered a config .dynamic).2.activateRegistered b config .dynamic).2
      ((d.activateRegistered b config .dynamic).2.activateRegistered a config .dynamic).2 := by
  have hreg : ∀ x, (d.activateRegistered x config .dynamic).2.registry.get? config.name =
      some config := fun x => by rw [registry_activateRegistered, hc]
  have hone := fun x => (h.activateRegistered (a := x) rfl hc .dynamic).1
  have hidle : ∀ {a b}, a ≠ b → d.Idle a config →
      (d.activateRegistered b config .dynamic).2.Idle a config := by
    intro a b hab ha
    unfold Idle
    rw [running_activateRegistered hc hab]
    exact ha
  by_cases hab : a = b
  · subst hab
    exact ((hone a).activateRegistered rfl (hreg a) .dynamic).1
  -- a node that has nothing to start has nothing to start later either
  by_cases ha : d.Idle a config
  · rw [activateRegistered_of_idle hc ha, activateRegistered_of_idle (hreg b) (hidle hab ha)]
    exact hone b
  by_cases hb : d.Idle b config
  · rw [activateRegistered_of_idle hc hb,
      activateRegistered_of_idle (hreg a) (hidle (Ne.symm hab) hb)]
    exact hone a
  obtain ⟨k, hra, hnew⟩ := exists_new_of_not_idle ha
  obtain ⟨k', hrb, hnew'⟩ := exists_new_of_not_idle hb
  exact h.swap_of_new hc hab hra hrb hnew hnew'

/-- A cache starts on the same nodes in another order. -/
theorem activateEach_perm {config : CacheConfig} {ids ids' : List MemberId}
    (hp : ids.Perm ids') : ∀ {d : Cluster}, Beside T T False d d →
      d.registry.get? config.name = some config →
        Beside T T False (d.activateEach config ids) (d.activateEach config ids') := by
  induction hp with
  | nil => intro d h _; exact h
  | cons a _ ih =>
      intro d h hc
      exact ih (h.activateRegistered rfl hc .dynamic).1 (by rw [registry_activateRegistered, hc])
  | swap a b ids =>
      intro d h hc
      have hswap := h.swap hc b a
      refine hswap.activateEach ?_ (List.forall₂_same.mpr fun x _ => ?_)
      · rw [registry_activateRegistered, registry_activateRegistered, hc]
      · exact rank?_congr (hswap.ids'.trans hswap.ids.symm) hswap.renumbered.joined x
  | trans _ _ ih ih' =>
      intro d h hc
      exact (ih h hc).trans (ih' h hc)

/-! ## Propagation -/

/-- A running node of one cluster runs in the other. -/
theorem running_twin (h : Beside S T kept c d) (ha : a ∈ c.running.keys) :
    ∃ n, c.rank? a = some n ∧ d.rank? (c.twin d a) = some n ∧ c.twin d a ∈ d.running.keys := by
  obtain ⟨k, hk⟩ := Table.mem_keys_iff.mp ha
  obtain ⟨n, hn⟩ := h.linked.exists_rank? (running_eq_some_iff.mp hk).1
  have hn' := h.renumbered.rank?_twin h.linked'.distinct hn
  refine ⟨n, hn, hn', ?_⟩
  rcases h.renumbered.running_cases (hn'.trans hn.symm) with ⟨hnone, -⟩ | ⟨-, k', -, hk', -⟩
  · rw [hk] at hnone
    cases hnone
  · exact Table.mem_keys_iff.mpr ⟨k', hk'⟩

/-- Every running node is the twin of one. -/
theorem exists_twin (h : Beside S T kept c d) (hb : b ∈ d.running.keys) :
    ∃ a ∈ c.running.keys, c.twin d a = b := by
  obtain ⟨k', hk'⟩ := Table.mem_keys_iff.mp hb
  obtain ⟨n, hn⟩ := h.linked'.exists_rank? (running_eq_some_iff.mp hk').1
  have hn' : c.rank? (c.memberIds n) = some n :=
    rank?_memberIds h.linked.distinct (h.renumbered.joined ▸ (of_rank?_eq_some hn).1)
  rcases h.renumbered.running_cases (hn.trans hn'.symm) with ⟨-, hnone⟩ | ⟨k, -, hk, -, -⟩
  · rw [hk'] at hnone
    cases hnone
  · exact ⟨c.memberIds n, Table.mem_keys_iff.mpr ⟨k, hk⟩,
      eq_of_rank?_eq_some (h.renumbered.rank?_twin h.linked'.distinct hn') hn⟩

/-- The same nodes run, each cluster listing them in the order of its own numbers. -/
theorem running_perm (h : Beside S T kept c d) {skip skip' : Option MemberId}
    (hskip : ∀ {a b}, SameMember c d a b → (some a = skip ↔ some b = skip')) :
    ((c.running.keys.filter fun a => some a ≠ skip).map (c.twin d)).Perm
      (d.running.keys.filter fun b => some b ≠ skip') := by
  refine (List.perm_ext_iff_of_nodup ?_ ((Table.nodup_keys _).filter _)).mpr fun b => ?_
  · refine ((Table.nodup_keys _).filter _).map_on fun a ha a' ha' heq => ?_
    obtain ⟨n, hn, htwin, -⟩ := h.running_twin (List.mem_of_mem_filter ha)
    obtain ⟨n', hn', htwin', -⟩ := h.running_twin (List.mem_of_mem_filter ha')
    rw [heq, htwin'] at htwin
    cases htwin
    exact eq_of_rank?_eq_some hn hn'
  · simp only [List.mem_map, List.mem_filter, decide_eq_true_eq]
    constructor
    · rintro ⟨a, ⟨ha, hne⟩, rfl⟩
      obtain ⟨n, hn, htwin, hb⟩ := h.running_twin ha
      exact ⟨hb, fun heq => hne ((hskip ⟨n, hn, htwin⟩).mpr heq)⟩
    · rintro ⟨hb, hne⟩
      obtain ⟨a, ha, rfl⟩ := h.exists_twin hb
      obtain ⟨n, hn, htwin, -⟩ := h.running_twin ha
      exact ⟨a, ⟨ha, fun heq => hne ((hskip ⟨n, hn, htwin⟩).mp heq)⟩, rfl⟩

/-- If the order is kept, one list is sorted as the other is. -/
theorem pairwise_twin (h : Beside S T kept c d) (hkept : kept) (skip : Option MemberId) :
    ((c.running.keys.filter fun a => some a ≠ skip).map (c.twin d)).Pairwise (· < ·) := by
  refine List.pairwise_map.mpr (List.Pairwise.imp_of_mem (fun {a a'} ha ha' hlt => ?_)
    (List.Pairwise.filter _ (List.pairwise_map.mpr c.running.increasing)))
  obtain ⟨n, hn, htwin, -⟩ := h.running_twin (List.mem_of_mem_filter ha)
  obtain ⟨n', hn', htwin', -⟩ := h.running_twin (List.mem_of_mem_filter ha')
  rw [(of_rank?_eq_some htwin).2, (of_rank?_eq_some htwin').2, h.ids']
  rw [(of_rank?_eq_some hn).2, (of_rank?_eq_some hn').2, h.ids] at hlt
  exact (h.order hkept n n').mp hlt

theorem propagate (h : Beside S T kept c d) {config : CacheConfig}
    (hc : c.registry.get? config.name = some config) (skip skip' : Option MemberId)
    (hskip : ∀ {a b}, SameMember c d a b → (some a = skip ↔ some b = skip')) :
    Beside S T kept (c.propagate config skip) (d.propagate config skip') := by
  have hperm := h.running_perm hskip
  have hc' : d.registry.get? config.name = some config := h.renumbered.registry.symm ▸ hc
  -- first `d` follows the order of `c`, then the nodes change places
  have hsame : Beside S T kept (c.propagate config skip) (d.activateEach config
      ((c.running.keys.filter fun a => some a ≠ skip).map (c.twin d))) := by
    refine h.activateEach hc (List.forall₂_map_right_iff.mpr (List.forall₂_same.mpr fun a ha => ?_))
    obtain ⟨n, hn, htwin, -⟩ := h.running_twin (List.mem_of_mem_filter ha)
    exact htwin.trans hn.symm
  by_cases hkept : kept
  · have heq : (c.running.keys.filter fun a => some a ≠ skip).map (c.twin d) =
        d.running.keys.filter fun b => some b ≠ skip' := by
      refine hperm.eq_of_pairwise (fun x y _ _ hxy hyx => ?_) (h.pairwise_twin hkept skip)
        (List.Pairwise.filter _ (List.pairwise_map.mpr d.running.increasing))
      exact absurd hyx (Nat.lt_asymm hxy)
    rw [heq] at hsame
    exact hsame
  · exact (hsame.trans (h.right.activateEach_perm hperm hc')).imp hkept

end Beside

end Cluster

end NearCache
