import NearCache.Proofs.Publishing.Cluster
import NearCache.Proofs.Session.Sound

/-!
# Who fails to listen does not matter

The same commands are given to two sessions. In one the events go to a journal, in the other to a
journal among sinks that fail, and members are numbered otherwise. A command that names a member or
an endpoint by its number is the same if it names the member of the same rank, or the endpoint in the
same place (`Session.SameWay`).

`undisturbed_after` says that all answers are the same, that after every command the sessions differ in
numbers and failing sinks and in nothing else, and that the journals have the same events. The failing
sinks do not change the order of events. The numbers may: a cache is propagated to the nodes in the
order of their numbers, and which starts first is told first (`retold_after_create`).
-/

namespace NearCache

/-- A held read, whatever the number of its endpoint. -/
def HeldRead.unnumbered (f : Fabric) (h : HeldRead) :
    Bytes × Option (String × Nat) × Option (Outcome (Option Versioned)) :=
  (h.read.key, f.place? h.read.endpoint, h.answer)

namespace Session

/-- The numbers of the same node, or of nobody in both sessions. -/
def SameNode (s t : Session) (a b : MemberId) : Prop := t.cluster.rank? b = s.cluster.rank? a

/-- The numbers of the same endpoint, or of none in both sessions. -/
def SamePlace (s t : Session) (i j : EndpointId) : Prop := t.fabric.place? j = s.fabric.place? i

/-- The same command, where both sessions number members and endpoints in their own way. -/
inductive SameCommand (s t : Session) : Command → Command → Prop where
  | start (n : NodeConfig) : SameCommand s t (.start n) (.start n)
  | apply (d : Deployment) : SameCommand s t (.apply d) (.apply d)
  | create {a b : MemberId} (node : SameNode s t a b) (config : CacheConfig) :
      SameCommand s t (.create a config) (.create b config)
  | createFrom {a b : MemberId} (node : SameNode s t a b) (config : CacheConfig) :
      SameCommand s t (.createFrom a config) (.createFrom b config)
  | getOrCreate {a b : MemberId} (node : SameNode s t a b) (config : CacheConfig) :
      SameCommand s t (.getOrCreate a config) (.getOrCreate b config)
  | cache {a b : MemberId} (node : SameNode s t a b) (name : String) :
      SameCommand s t (.cache a name) (.cache b name)
  | destroy (name : String) : SameCommand s t (.destroy name) (.destroy name)
  | destroyFrom {a b : MemberId} (node : SameNode s t a b) (name : String) :
      SameCommand s t (.destroyFrom a name) (.destroyFrom b name)
  | stop {a b : MemberId} (node : SameNode s t a b) : SameCommand s t (.stop a) (.stop b)
  | stopAll : SameCommand s t .stopAll .stopAll
  | get {i j : EndpointId} (place : SamePlace s t i j) (key : Bytes) :
      SameCommand s t (.get i key) (.get j key)
  | getAll {i j : EndpointId} (place : SamePlace s t i j) (keys : List Bytes) :
      SameCommand s t (.getAll i keys) (.getAll j keys)
  | peek {i j : EndpointId} (place : SamePlace s t i j) (key : Bytes) :
      SameCommand s t (.peek i key) (.peek j key)
  | put {i j : EndpointId} (place : SamePlace s t i j) (key value : Bytes) :
      SameCommand s t (.put i key value) (.put j key value)
  | putAll {i j : EndpointId} (place : SamePlace s t i j) (entries : List (Bytes × Bytes)) :
      SameCommand s t (.putAll i entries) (.putAll j entries)
  | remove {i j : EndpointId} (place : SamePlace s t i j) (key : Bytes) :
      SameCommand s t (.remove i key) (.remove j key)
  | setAvailable (b : Bool) : SameCommand s t (.setAvailable b) (.setAvailable b)
  | beginGet {i j : EndpointId} (place : SamePlace s t i j) (key : Bytes) (early : Bool) :
      SameCommand s t (.beginGet i key early) (.beginGet j key early)
  | endGet (ticket : Nat) : SameCommand s t (.endGet ticket) (.endGet ticket)

/-- The same commands one after the other, each as the sessions number things by then. -/
inductive SameWay : Session → Session → List Command → List Command → Prop where
  | nil (s t : Session) : SameWay s t [] []
  | cons {s t : Session} {c d : Command} {cs ds : List Command} (same : SameCommand s t c d)
      (rest : SameWay (s.step c).2 (t.step d).2 cs ds) : SameWay s t (c :: cs) (d :: ds)

/-- The same answer, up to the numbers of members and endpoints. -/
inductive SameAnswer (s t : Session) : Answer → Answer → Prop where
  | nothing : SameAnswer s t .nothing .nothing
  | member {r r' : Outcome MemberId}
      (same : s.cluster.SameOutcome t.cluster (s.cluster.SameMember t.cluster) r r') :
      SameAnswer s t (.member r) (.member r')
  | members {r r' : Outcome (List MemberId)}
      (same : s.cluster.SameOutcome t.cluster
        (List.Forall₂ (s.cluster.SameMember t.cluster)) r r') :
      SameAnswer s t (.members r) (.members r')
  | done {r r' : Outcome Unit} (same : s.cluster.SameOutcome t.cluster Eq r r') :
      SameAnswer s t (.done r) (.done r')
  | endpoint {r r' : Outcome EndpointId}
      (same : s.cluster.SameOutcome t.cluster (s.cluster.SameEndpoint t.cluster) r r') :
      SameAnswer s t (.endpoint r) (.endpoint r')
  | found {r r' : Outcome Bool} (same : s.cluster.SameOutcome t.cluster Eq r r') :
      SameAnswer s t (.found r) (.found r')
  | value {r r' : Outcome (Option Bytes)} (same : r' = r) : SameAnswer s t (.value r) (.value r')
  | values {r r' : Outcome (Table Bytes Bytes)} (same : r' = r) :
      SameAnswer s t (.values r) (.values r')
  | peeked {r r' : Outcome (Option Bytes)} (same : r' = r) : SameAnswer s t (.peeked r) (.peeked r')
  | held {ticket ticket' : Nat} (same : ticket' = ticket) :
      SameAnswer s t (.held ticket) (.held ticket')

/-- The sessions differ only in the numbers of members, endpoints and subscriptions. -/
structure Renumbered (s t : Session) : Prop where
  cluster : s.cluster.Renumbered t.cluster
  held : t.held.mapValues (HeldRead.unnumbered t.fabric) =
    s.held.mapValues (HeldRead.unnumbered s.fabric)
  nextTicket : t.nextTicket = s.nextTicket

/-- `t` goes along with `s`: same up to numbers, beside it with its own numbers, sinks and journal. -/
structure Beside (S T : Setting) (kept : Prop) (s t : Session) : Prop extends
    Renumbered s t where
  sound : Sound s
  sound' : Sound t
  clusters : s.cluster.Beside S T kept t.cluster
  /-- A held read waits at an endpoint that has started. -/
  known : ∀ {ticket h}, s.held.get? ticket = some h →
    ∃ p, s.fabric.place? h.read.endpoint = some p

variable {S T : Setting} {kept : Prop} {s t : Session}

theorem Sound.keepsPlaces_step (h : Sound s) (command : Command) :
    s.fabric.KeepsPlaces (s.step command).2.fabric := by
  cases haccess : command.isAccess with
  | true =>
      obtain ⟨f, hs, heq⟩ := serves_step s haccess
      show s.fabric.KeepsPlaces (s.step command).2.cluster.fabric
      rw [heq]
      exact .of_eq hs.place?
  | false =>
      obtain ⟨c, hd, heq⟩ := h.deeds_step haccess
      rw [heq]
      exact (hd.steps h.linked).keepsPlaces h.linked

namespace Beside

/-- Held reads wait at the same endpoints. -/
theorem held_cases (h : Beside S T kept s t) (ticket : Nat) :
    (s.held.get? ticket = none ∧ t.held.get? ticket = none) ∨
      ∃ r r', s.held.get? ticket = some r ∧ t.held.get? ticket = some r' ∧
        r'.unnumbered t.fabric = r.unnumbered s.fabric := by
  have hget := congrArg (fun held => held.get? ticket) h.held
  simp only [Table.get?_mapValues] at hget
  rcases map_eq_map_cases hget with ⟨ht, hs⟩ | ⟨r', r, ht, hs, hsame⟩
  · exact Or.inl ⟨hs, ht⟩
  · exact Or.inr ⟨r, r', hs, ht, hsame⟩

/-- Held reads look the same as long as endpoints keep their places. -/
theorem held_keeps (h : Beside S T kept s t) {f g : Fabric} (keeps : s.fabric.KeepsPlaces f)
    (keeps' : t.fabric.KeepsPlaces g) :
    s.held.mapValues (HeldRead.unnumbered f) = s.held.mapValues (HeldRead.unnumbered s.fabric) ∧
      t.held.mapValues (HeldRead.unnumbered g) =
        s.held.mapValues (HeldRead.unnumbered s.fabric) := by
  constructor
  · refine Table.mapValues_congr fun ticket r hr => ?_
    obtain ⟨p, hp⟩ := h.known hr
    simp only [HeldRead.unnumbered, hp, keeps _ _ hp]
  · rw [← h.held]
    refine Table.mapValues_congr fun ticket r' hr' => ?_
    rcases h.held_cases ticket with ⟨-, hnone⟩ | ⟨r, r₀, hr, hr₀, hsame⟩
    · rw [hr'] at hnone
      cases hnone
    · rw [hr'] at hr₀
      cases hr₀
      obtain ⟨p, hp⟩ := h.known hr
      have hp' : t.fabric.place? r'.read.endpoint = some p :=
        (congrArg (fun r => r.2.1) hsame).trans hp
      simp only [HeldRead.unnumbered, hp', keeps' _ _ hp']

/-- The held reads are left alone. -/
theorem withCluster (h : Beside S T kept s t) {c d : Cluster} (clusters : c.Beside S T kept d)
    (keeps : s.fabric.KeepsPlaces c.fabric) (keeps' : t.fabric.KeepsPlaces d.fabric)
    (sound : Sound (s.withCluster c)) (sound' : Sound (t.withCluster d)) :
    Beside S T kept (s.withCluster c) (t.withCluster d) where
  cluster := clusters.renumbered
  held := by
    obtain ⟨hs, ht⟩ := h.held_keeps keeps keeps'
    exact ht.trans hs.symm
  nextTicket := h.nextTicket
  sound := sound
  sound' := sound'
  clusters := clusters
  known hr := (h.known hr).imp fun p hp => keeps _ p hp

/-- A command that leaves the held reads alone. -/
theorem move (h : Beside S T kept s t) {command command' : Command} {c d : Cluster}
    (clusters : c.Beside S T kept d) (hc : (s.step command).2 = s.withCluster c)
    (hd : (t.step command').2 = t.withCluster d) :
    Beside S T kept (s.step command).2 (t.step command').2 := by
  have hkeeps := h.sound.keepsPlaces_step command
  have hkeeps' := h.sound'.keepsPlaces_step command'
  have hsound := (h.sound.step command).sound
  have hsound' := (h.sound'.step command').sound
  rw [hc] at hkeeps hsound ⊢
  rw [hd] at hkeeps' hsound' ⊢
  exact h.withCluster clusters hkeeps hkeeps' hsound hsound'

/-- A read is held in both sessions. -/
theorem hold (h : Beside S T kept s t) {i j : EndpointId} (place : SamePlace s t i j)
    (known : s.fabric.endpoint? i ≠ none) {f g : Fabric} (hs : s.fabric.Serves f)
    (hs' : t.fabric.Serves g) (hfg : f.Renumbered g) {key : Bytes}
    {answer : Option (Outcome (Option Versioned))}
    (sound : Sound ((s.withFabric f).hold ⟨i, key⟩ answer))
    (sound' : Sound ((t.withFabric g).hold ⟨j, key⟩ answer)) :
    Beside S T kept ((s.withFabric f).hold ⟨i, key⟩ answer)
      ((t.withFabric g).hold ⟨j, key⟩ answer) where
  cluster := (h.clusters.withFabric hs hs' hfg).renumbered
  held := by
    obtain ⟨heq, heq'⟩ := h.held_keeps (.of_eq hs.place?) (.of_eq hs'.place?)
    have hplace : g.place? j = f.place? i := by rw [hs.place?, hs'.place?, place]
    show (t.held.insert t.nextTicket ⟨⟨j, key⟩, answer⟩).mapValues (HeldRead.unnumbered g) =
      (s.held.insert s.nextTicket ⟨⟨i, key⟩, answer⟩).mapValues (HeldRead.unnumbered f)
    rw [Table.mapValues_insert, Table.mapValues_insert, heq, heq', h.nextTicket]
    simp only [HeldRead.unnumbered, hplace]
  nextTicket := congrArg (· + 1) h.nextTicket
  sound := sound
  sound' := sound'
  clusters := h.clusters.withFabric hs hs' hfg
  known {ticket r} hr := by
    have hr' : (s.held.insert s.nextTicket ⟨⟨i, key⟩, answer⟩).get? ticket = some r := hr
    show ∃ p, f.place? r.read.endpoint = some p
    rw [hs.place?]
    rw [Table.get?_insert] at hr'
    split at hr'
    · cases hr'
      obtain ⟨e, he⟩ := Option.ne_none_iff_exists'.mp known
      exact ⟨_, Fabric.place?_of_endpoint he⟩
    · exact h.known hr'

/-- A held read is let go in both sessions. -/
theorem release (h : Beside S T kept s t) (ticket : Nat) {f g : Fabric} (hs : s.fabric.Serves f)
    (hs' : t.fabric.Serves g) (hfg : f.Renumbered g)
    (sound : Sound { s.withFabric f with held := s.held.erase ticket })
    (sound' : Sound { t.withFabric g with held := t.held.erase ticket }) :
    Beside S T kept { s.withFabric f with held := s.held.erase ticket }
      { t.withFabric g with held := t.held.erase ticket } where
  cluster := (h.clusters.withFabric hs hs' hfg).renumbered
  held := by
    obtain ⟨heq, heq'⟩ := h.held_keeps (.of_eq hs.place?) (.of_eq hs'.place?)
    show (t.held.erase ticket).mapValues (HeldRead.unnumbered g) =
      (s.held.erase ticket).mapValues (HeldRead.unnumbered f)
    rw [Table.mapValues_erase, Table.mapValues_erase, heq, heq']
  nextTicket := h.nextTicket
  sound := sound
  sound' := sound'
  clusters := h.clusters.withFabric hs hs' hfg
  known {n r} hr := by
    have hr' : (s.held.erase ticket).get? n = some r := hr
    show ∃ p, f.place? r.read.endpoint = some p
    rw [Table.get?_erase] at hr'
    rw [hs.place?]
    split at hr'
    · cases hr'
    · exact h.known hr'

/-- A read begins, and is held in both sessions or in none. -/
theorem beginGet (h : Beside S T kept s t) {i j : EndpointId} (place : SamePlace s t i j)
    (key : Bytes) (early : Bool) :
    Beside S T kept (s.beginGet i key early).2 (t.beginGet j key early).2 ∧
      SameAnswer (s.beginGet i key early).2 (t.beginGet j key early).2
        (s.beginGet i key early).1 (t.beginGet j key early).1 := by
  have hf : s.fabric.Renumbered t.fabric := h.cluster.fabric
  obtain ⟨hafter, hcases⟩ := hf.beginGet place key
  have hreads := (Fabric.reads_beginGet s.fabric i key).toServes
  have hreads' := (Fabric.reads_beginGet t.fabric j key).toServes
  have hsound := (h.sound.beginGet i key early).sound
  have hsound' := (h.sound'.beginGet j key early).sound
  unfold Session.beginGet at hsound hsound' ⊢
  cases hb : s.fabric.beginGet i key with
  | mk b f =>
      cases hb' : t.fabric.beginGet j key with
      | mk b' g =>
          rw [hb] at hafter hcases hreads hsound
          rw [hb'] at hafter hcases hreads' hsound'
          rcases hcases with ⟨r, rfl, rfl⟩ | ⟨rfl, rfl, hknown⟩
          · -- a hit or a refusal, and nothing is held
            exact ⟨h.withCluster (h.clusters.withFabric hreads hreads' hafter)
              (.of_eq hreads.place?) (.of_eq hreads'.place?) hsound hsound', .value rfl⟩
          · cases early with
            | false =>
                exact ⟨h.hold place hknown hreads hreads' hafter hsound hsound',
                  .held h.nextTicket⟩
            | true =>
                -- the store is asked before the read is held
                have hplace : g.place? j = f.place? i := by
                  rw [hreads.place?, hreads'.place?]
                  exact place
                obtain ⟨hanswer, hasked⟩ := hafter.fetch ⟨i, key⟩ ⟨j, key⟩ rfl hplace
                have hserves := hreads.trans (Fabric.reads_fetch f ⟨i, key⟩).toServes
                have hserves' := hreads'.trans (Fabric.reads_fetch g ⟨j, key⟩).toServes
                dsimp only [if_true] at hsound hsound' ⊢
                rw [hanswer] at hsound' ⊢
                exact ⟨h.hold place hknown hserves hserves' hasked hsound hsound',
                  .held h.nextTicket⟩

/-- The store answers the same to a read that is held in both sessions. -/
theorem answerFor_same {f g : Fabric} (hf : f.Renumbered g) {r r' : HeldRead}
    (same : r'.unnumbered g = r.unnumbered f) :
    (answerFor g r').1 = (answerFor f r).1 ∧
      (answerFor f r).2.Renumbered (answerFor g r').2 := by
  have hanswer : r'.answer = r.answer := congrArg (fun r => r.2.2) same
  unfold answerFor
  rw [hanswer]
  cases r.answer with
  | some answer => exact ⟨rfl, hf⟩
  | none =>
      exact hf.fetch r.read r'.read (congrArg Prod.fst same) (congrArg (fun r => r.2.1) same)

/-- A held read ends. -/
theorem endGet (h : Beside S T kept s t) (ticket : Nat) :
    Beside S T kept (s.endGet ticket).2 (t.endGet ticket).2 ∧
      SameAnswer (s.endGet ticket).2 (t.endGet ticket).2
        (s.endGet ticket).1 (t.endGet ticket).1 := by
  have hf : s.fabric.Renumbered t.fabric := h.cluster.fabric
  have hsound := (h.sound.endGet ticket).sound
  have hsound' := (h.sound'.endGet ticket).sound
  unfold Session.endGet at hsound hsound' ⊢
  rcases h.held_cases ticket with ⟨hs, ht⟩ | ⟨r, r', hs, ht, hsame⟩
  · rw [hs, ht]
    exact ⟨h, .nothing⟩
  rw [hs] at hsound ⊢
  rw [ht] at hsound' ⊢
  have hreads := reads_answerFor s.fabric r
  have hreads' := reads_answerFor t.fabric r'
  have hserves := (hreads.trans (Fabric.reads_endGet _ r.read (answerFor s.fabric r).1)).toServes
  have hserves' := (hreads'.trans (Fabric.reads_endGet _ r'.read (answerFor t.fabric r').1)).toServes
  obtain ⟨hanswer, hasked⟩ := answerFor_same hf hsame
  have hplace : (answerFor t.fabric r').2.place? r'.read.endpoint =
      (answerFor s.fabric r).2.place? r.read.endpoint := by
    rw [hreads.toServes.place?, hreads'.toServes.place?]
    exact congrArg (fun r => r.2.1) hsame
  obtain ⟨hvalue, hafter⟩ := hasked.endGet r.read r'.read (congrArg Prod.fst hsame) hplace
    (answerFor s.fabric r).1
  dsimp only at hsound hsound' ⊢
  rw [hanswer] at hserves' hsound' ⊢
  exact ⟨h.release ticket hserves hserves' hafter hsound hsound', .value hvalue⟩

/-- One command, given to both. -/
theorem step (h : Beside S T kept s t) {c d : Command} (same : SameCommand s t c d) :
    Beside S T kept (s.step c).2 (t.step d).2 ∧
      SameAnswer (s.step c).2 (t.step d).2 (s.step c).1 (t.step d).1 := by
  have hc := h.clusters
  have hf := h.cluster.fabric
  have hw := h.sound.linked.wired
  have hw' := h.sound'.linked.wired
  cases same with
  | start n =>
      obtain ⟨hafter, hanswer⟩ := hc.startNode n
      exact ⟨h.move hafter rfl rfl, .member hanswer⟩
  | apply p =>
      obtain ⟨hafter, hanswer⟩ := hc.apply p
      exact ⟨h.move hafter rfl rfl, .members hanswer⟩
  | create node config =>
      obtain ⟨hafter, hanswer⟩ := hc.createCache node config
      exact ⟨h.move hafter rfl rfl, .done hanswer⟩
  | createFrom node config =>
      obtain ⟨hafter, hanswer⟩ := hc.createFrom node config
      exact ⟨h.move hafter rfl rfl, .endpoint hanswer⟩
  | getOrCreate node config =>
      obtain ⟨hafter, hanswer⟩ := hc.getOrCreate node config
      exact ⟨h.move hafter rfl rfl, .endpoint hanswer⟩
  | cache node name => exact ⟨h.move hc rfl rfl, .endpoint (hc.cacheOn node name)⟩
  | destroy name =>
      obtain ⟨hafter, hanswer⟩ := hc.destroyCache name
      exact ⟨h.move hafter rfl rfl, .found (.ok hanswer)⟩
  | destroyFrom node name =>
      obtain ⟨hafter, hanswer⟩ := hc.destroyFrom node name
      exact ⟨h.move hafter rfl rfl, .found hanswer⟩
  | stop node =>
      obtain ⟨hafter, hanswer⟩ := hc.stopNode node
      exact ⟨h.move hafter rfl rfl, .done hanswer⟩
  | stopAll => exact ⟨h.move hc.stopAll rfl rfl, .nothing⟩
  | @get i j place key =>
      obtain ⟨hanswer, hafter⟩ := hf.get place key
      exact ⟨h.move (hc.withFabric (Fabric.reads_get _ i key).toServes
        (Fabric.reads_get _ j key).toServes hafter) rfl rfl, .value hanswer⟩
  | @getAll i j place keys =>
      obtain ⟨hanswer, hafter⟩ := Fabric.Renumbered.getInto keys ∅ hf place
      exact ⟨h.move (hc.withFabric (Fabric.reads_getInto i keys _ ∅).toServes
        (Fabric.reads_getInto j keys _ ∅).toServes hafter) rfl rfl, .values hanswer⟩
  | peek place key => exact ⟨h.move hc rfl rfl, .peeked (hf.peek place key)⟩
  | @put i j place key value =>
      obtain ⟨hanswer, hafter⟩ := hf.put hw hw' place key value
      exact ⟨h.move (hc.withFabric (Fabric.serves_put _ i key value)
        (Fabric.serves_put _ j key value) hafter) rfl rfl, .done (.of_eq hanswer)⟩
  | @putAll i j place entries =>
      obtain ⟨hanswer, hafter⟩ := Fabric.Renumbered.putEach entries hf hw hw' place
      exact ⟨h.move (hc.withFabric (Fabric.serves_putEach i entries _)
        (Fabric.serves_putEach j entries _) hafter) rfl rfl, .done (.of_eq hanswer)⟩
  | @remove i j place key =>
      obtain ⟨hanswer, hafter⟩ := hf.remove hw hw' place key
      exact ⟨h.move (hc.withFabric (Fabric.serves_remove _ i key)
        (Fabric.serves_remove _ j key) hafter) rfl rfl, .found (.of_eq hanswer)⟩
  | setAvailable b =>
      have hserves : ∀ f : Fabric, f.Serves (f.setAvailable b) :=
        fun f => .withStore rfl rfl (.of_data rfl rfl)
      exact ⟨h.move (hc.withFabric (hserves _) (hserves _) (hf.setAvailable b)) rfl rfl,
        .nothing⟩
  | beginGet place key early => exact h.beginGet place key early
  | endGet ticket => exact h.endGet ticket

/-! ## One run after the other -/

/-- Nothing has happened yet. -/
theorem fresh {memberIds memberIds' : Nat → MemberId} (distinct : Function.Injective memberIds)
    (distinct' : Function.Injective memberIds') (before behind : List Fault) :
    Beside ⟨memberIds, [], []⟩ ⟨memberIds', before, behind⟩
      (∀ n k, memberIds n < memberIds k ↔ memberIds' n < memberIds' k)
      (Session.fresh memberIds (.ofSinks [.journal {}]))
      (Session.fresh memberIds'
        (.ofSinks (before.map .failing ++ .journal {} :: behind.map .failing))) := by
  have hsound := Sound.fresh distinct (.ofSinks [.journal {}])
  have hsound' := Sound.fresh distinct'
    (.ofSinks (before.map .failing ++ .journal {} :: behind.map .failing))
  have hcluster : Cluster.Renumbered
      { memberIds, publisher := .ofSinks [.journal {}] }
      { memberIds := memberIds'
        publisher := .ofSinks (before.map .failing ++ .journal {} :: behind.map .failing) } :=
    ⟨.refl _, rfl, rfl, rfl, fun _ => rfl⟩
  exact
    { cluster := hcluster
      held := rfl
      nextTicket := rfl
      sound := hsound
      sound' := hsound'
      clusters := ⟨hsound.linked, hsound'.linked, rfl, rfl, hcluster,
        ⟨[], [], rfl, rfl, .refl, fun _ => rfl⟩, id⟩
      known := fun h => by cases h }

theorem after {cs ds : List Command} (same : SameWay s t cs ds) : Beside S T kept s t → ∀ n,
    Beside S T kept (s.after (cs.take n)) (t.after (ds.take n)) := by
  induction same with
  | nil =>
      intro h n
      rw [List.take_nil]
      exact h
  | cons same rest ih =>
      intro h n
      cases n with
      | zero => exact h
      | succ n => exact ih (h.step same).1 n

theorem answers {cs ds : List Command} (same : SameWay s t cs ds) : Beside S T kept s t → ∀ n,
    Option.Rel (SameAnswer (s.after (cs.take (n + 1))) (t.after (ds.take (n + 1))))
      (s.answers cs)[n]? (t.answers ds)[n]? := by
  induction same with
  | nil => exact fun _ _ => .none
  | cons same rest ih =>
      intro h n
      cases n with
      | zero => exact .some (h.step same).2
      | succ n => exact ih (h.step same).1 n

end Beside

end Session

end NearCache
