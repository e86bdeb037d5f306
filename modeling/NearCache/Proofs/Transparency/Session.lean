import NearCache.Proofs.Session.Sound
import NearCache.Proofs.Transparency.Cluster

/-!
# Near caches do not show

Two users give the same commands, one to a cluster with near caches set up in one way, the other to
a cluster with near caches set up in another way or not at all. `transparent_after` says that
neither can tell from the answers which cluster is whose, as long as the store can be reached. When
the store cannot be reached, the only difference is that a near cache may have an answer, and then
it is the value that the store holds.

The two sessions are run side by side. One step takes alike clusters to alike clusters
(`alike_step`); that the answers are alike as well needs the near caches of both to be coherent, so
both sessions have to be sound (`Session.Sound`).
-/

namespace NearCache

/-- The commands differ at most in the near-cache settings of caches and in the attributes of
nodes. -/
inductive Command.Alike : Command → Command → Prop where
  | same (c : Command) : Alike c c
  | start {n n' : NodeConfig} (h : n.plain = n'.plain) : Alike (.start n) (.start n')
  | apply {d d' : Deployment} (h : d.plain = d'.plain) : Alike (.apply d) (.apply d')
  | create (creator : MemberId) {config config' : CacheConfig} (h : config.plain = config'.plain) :
      Alike (.create creator config) (.create creator config')
  | createFrom (node : MemberId) {config config' : CacheConfig}
      (h : config.plain = config'.plain) :
      Alike (.createFrom node config) (.createFrom node config')
  | getOrCreate (node : MemberId) {config config' : CacheConfig}
      (h : config.plain = config'.plain) :
      Alike (.getOrCreate node config) (.getOrCreate node config')

/-- The command is not a part of a read that is held. -/
def Command.isWhole : Command → Bool
  | .beginGet .. => false
  | .endGet _ => false
  | _ => true

/-- The command may be answered from a near cache. -/
def Command.reads : Command → Bool
  | .get .. => true
  | .getAll .. => true
  | _ => false

/-- The answers are the same; only what is found without asking the store may differ. -/
inductive Answer.Alike : Answer → Answer → Prop where
  | same (a : Answer) : Alike a a
  | peeked (v v' : Option Bytes) : Alike (.peeked (.ok v)) (.peeked (.ok v'))

theorem Answer.Alike.of_eq {a b : Answer} (h : a = b) : a.Alike b := h ▸ .same a

/-- What is left in a near cache may differ, but not whether the endpoint can be asked. -/
theorem Fabric.Alike.peek {f g : Fabric} (h : f.Alike g) (id : EndpointId) (key : Bytes) :
    (Answer.peeked (f.peek id key)).Alike (.peeked (g.peek id key)) := by
  have hpeek : ∀ a : Fabric, a.peek id key = (a.serving id).map (·.local? key) := by
    intro a
    unfold Fabric.peek Fabric.serving Endpoint.peek
    cases a.endpoint id with
    | error err => rfl
    | ok e =>
        show (e.ensureOpen >>= fun _ => _) = Except.map _ (e.ensureOpen >>= fun _ => _)
        cases e.ensureOpen <;> rfl
  rw [hpeek, hpeek]
  rcases h.serving id with ⟨err, hf, hg⟩ | ⟨e, e', hf, hg, -⟩
  · rw [hf, hg]
    exact .same _
  · rw [hf, hg]
    exact .peeked _ _

namespace Session

/-- The commands `ds` given to `t` cannot be told from the commands `cs` given to `s`. -/
structure Transparent (s t : Session) (cs ds : List Command) : Prop where
  /-- While the store can be reached, every command gets the same answer. -/
  answers : (∀ n, (s.after (cs.take n)).fabric.store.available = true) →
    List.Forall₂ Answer.Alike (s.answers cs) (t.answers ds)
  /-- Commands that do not read get the same answer also when the store cannot be reached. -/
  unread : ∀ n a b, cs[n]? = some a → ds[n]? = some b → a.reads = false →
    ((s.after (cs.take n)).step a).1.Alike ((t.after (ds.take n)).step b).1
  /-- After every command the stores hold the same values under the same versions. -/
  current : ∀ n cache key, (s.after (cs.take n)).fabric.store.current? cache key =
    (t.after (ds.take n)).fabric.store.current? cache key
  /-- A read through an endpoint without a near cache finds nothing that the other does not find. -/
  found : ∀ n id key,
    (∀ e, (s.after (cs.take n)).fabric.endpoint? id = some e → e.hasNear = false) →
    ∀ v, ((s.after (cs.take n)).step (.get id key)).1 = .value (.ok v) →
      ((t.after (ds.take n)).step (.get id key)).1 = .value (.ok v)
  /-- If it cannot reach the store, the other cannot either or has what the store holds. -/
  unavailable : ∀ n id key,
    (∀ e, (s.after (cs.take n)).fabric.endpoint? id = some e → e.hasNear = false) →
    ∀ c text,
      ((s.after (cs.take n)).step (.get id key)).1 = .value (.error (.storeUnavailable c text)) →
        ((t.after (ds.take n)).step (.get id key)).1 = .value (.error (.storeUnavailable c text)) ∨
          ∃ e, (t.after (ds.take n)).fabric.endpoint? id = some e ∧
            ((t.after (ds.take n)).step (.get id key)).1 =
              .value (.ok (((t.after (ds.take n)).fabric.store.current? e.name key).map (·.value)))

variable {s t : Session}

/-- What the cluster answers is what the user is told. -/
theorem alike_told {α : Type} (tell : α → Answer) {r r' : α × Cluster} (h : Cluster.AlikeWith r r')
    {p : Prop} :
    (s.withCluster r.2).cluster.Alike (t.withCluster r'.2).cluster ∧
      (p → (tell r.1).Alike (tell r'.1)) :=
  ⟨h.2, fun _ => .of_eq (congrArg tell h.1)⟩

/-- One command given to both. The store has to be reached only where a near cache could answer. -/
theorem alike_step (hs : Sound s) (ht : Sound t) (h : s.cluster.Alike t.cluster) {a b : Command}
    (hab : a.Alike b) (whole : a.isWhole = true) :
    (s.step a).2.cluster.Alike (t.step b).2.cluster ∧
      ((a.reads = true → s.fabric.store.available = true) → (s.step a).1.Alike (t.step b).1) := by
  cases hab with
  | start hn => exact alike_told .member (h.startNode hn)
  | apply hd => exact alike_told .members (h.apply hd)
  | create id hc => exact alike_told .done (h.createCache id hc)
  | createFrom id hc => exact alike_told .endpoint (h.createFrom id hc)
  | getOrCreate id hc => exact alike_told .endpoint (h.getOrCreate id hc)
  | same =>
      cases a with
      | start n => exact alike_told .member (h.startNode rfl)
      | apply d => exact alike_told .members (h.apply rfl)
      | create id config => exact alike_told .done (h.createCache id rfl)
      | createFrom id config => exact alike_told .endpoint (h.createFrom id rfl)
      | getOrCreate id config => exact alike_told .endpoint (h.getOrCreate id rfl)
      | cache id name => exact ⟨h, fun _ => .of_eq (congrArg Answer.endpoint (h.cacheOn id name))⟩
      | destroy name => exact alike_told (fun b => .found (.ok b)) (h.destroyCache name)
      | destroyFrom id name => exact alike_told .found (h.destroyFrom id name)
      | stop id => exact alike_told .done (h.stopNode id)
      | stopAll => exact ⟨h.stopAll, fun _ => .same _⟩
      | get id key =>
          refine ⟨h.withFabric (h.fabric.reads (Fabric.reads_get _ id key)
            (Fabric.reads_get _ id key)), fun ha => ?_⟩
          have hanswer := h.fabric.get hs.coherent ht.coherent (ha rfl) id key
          exact .of_eq (congrArg Answer.value hanswer)
      | getAll id keys =>
          refine ⟨h.withFabric (h.fabric.reads (Fabric.reads_getInto id keys _ ∅)
            (Fabric.reads_getInto id keys _ ∅)), fun ha => ?_⟩
          have hanswer := Fabric.Alike.getInto hs.next_free ht.next_free id keys ∅ h.fabric
            hs.coherent ht.coherent hs.linked.wired ht.linked.wired (ha rfl)
          exact .of_eq (congrArg Answer.values hanswer)
      | peek id key => exact ⟨h, fun _ => h.fabric.peek id key⟩
      | put id key value =>
          obtain ⟨hanswer, halike⟩ := h.fabric.put id key value
          exact ⟨h.withFabric halike, fun _ => .of_eq (congrArg Answer.done hanswer)⟩
      | putAll id entries =>
          obtain ⟨hanswer, halike⟩ := Fabric.Alike.putEach id entries h.fabric
          exact ⟨h.withFabric halike, fun _ => .of_eq (congrArg Answer.done hanswer)⟩
      | remove id key =>
          obtain ⟨hanswer, halike⟩ := h.fabric.remove id key
          exact ⟨h.withFabric halike, fun _ => .of_eq (congrArg Answer.found hanswer)⟩
      | setAvailable b => exact ⟨h.withFabric (h.fabric.setAvailable b), fun _ => .same _⟩
      | beginGet => cases whole
      | endGet => cases whole

theorem alike_after {cs ds : List Command} (alike : List.Forall₂ Command.Alike cs ds) :
    ∀ {s t : Session}, Sound s → Sound t → s.cluster.Alike t.cluster →
      (∀ c ∈ cs, c.isWhole = true) → (s.after cs).cluster.Alike (t.after ds).cluster := by
  induction alike with
  | nil => intro s t _ _ h _; exact h
  | @cons a b cs ds hab _ ih =>
      intro s t hs ht h whole
      have hstep := alike_step hs ht h hab (whole a List.mem_cons_self)
      exact ih (hs.step a).sound (ht.step b).sound hstep.1
        fun c hc => whole c (List.mem_cons_of_mem a hc)

theorem alike_answers {cs ds : List Command} (alike : List.Forall₂ Command.Alike cs ds) :
    ∀ {s t : Session}, Sound s → Sound t → s.cluster.Alike t.cluster →
      (∀ c ∈ cs, c.isWhole = true) →
      (∀ n, (s.after (cs.take n)).fabric.store.available = true) →
        List.Forall₂ Answer.Alike (s.answers cs) (t.answers ds) := by
  induction alike with
  | nil => intro s t _ _ _ _ _; exact .nil
  | @cons a b cs ds hab _ ih =>
      intro s t hs ht h whole available
      have hstep := alike_step hs ht h hab (whole a List.mem_cons_self)
      refine .cons (hstep.2 fun _ => available 0) ?_
      exact ih (hs.step a).sound (ht.step b).sound hstep.1
        (fun c hc => whole c (List.mem_cons_of_mem a hc)) fun n => available (n + 1)

/-- **Near caches do not show.** Whichever caches have near caches, whichever nodes are selected,
and whether or not the selectors make sense: users get the same answers, and the store holds the
same. -/
theorem transparent_after {memberIds : Nat → MemberId} (distinct : Function.Injective memberIds)
    (p q : Fanout) {cs ds : List Command} (alike : List.Forall₂ Command.Alike cs ds)
    (whole : ∀ c ∈ cs, c.isWhole = true) :
    Transparent (fresh memberIds p) (fresh memberIds q) cs ds := by
  have hs := Sound.fresh distinct p
  have ht := Sound.fresh distinct q
  have hstart : (fresh memberIds p).cluster.Alike (fresh memberIds q).cluster :=
    .empty memberIds p q
  have hafter : ∀ n, Cluster.Alike ((fresh memberIds p).after (cs.take n)).cluster
      ((fresh memberIds q).after (ds.take n)).cluster := by
    intro n
    refine alike_after (List.forall₂_take n alike) hs ht hstart ?_
    exact fun c hc => whole c (List.mem_of_mem_take hc)
  have hget : ∀ n id key,
      (∀ e, ((fresh memberIds p).after (cs.take n)).fabric.endpoint? id = some e →
        e.hasNear = false) → _ := fun n id key hinactive =>
    (hafter n).fabric.get_inactive (hs.after (cs.take n)).sound.coherent
      (ht.after (ds.take n)).sound.coherent hinactive key
  refine ⟨alike_answers alike hs ht hstart whole, ?_, ?_, ?_, ?_⟩
  · intro n a b ha hb hread
    obtain ⟨hn, ha'⟩ := List.getElem?_eq_some_iff.mp ha
    obtain ⟨hm, hb'⟩ := List.getElem?_eq_some_iff.mp hb
    have hab : a.Alike b := by
      have hget := alike.get hn hm
      rw [← ha', ← hb']
      exact hget
    have hstep := alike_step (hs.after (cs.take n)).sound (ht.after (ds.take n)).sound (hafter n) hab
      (whole a (List.mem_of_getElem? ha))
    exact hstep.2 fun h => by rw [hread] at h; cases h
  · exact fun n cache key => (hafter n).fabric.store.current? cache key
  · intro n id key hinactive v hv
    exact congrArg Answer.value ((hget n id key hinactive).1 v (Answer.value.inj hv))
  · intro n id key hinactive c text hno
    rcases (hget n id key hinactive).2 c text (Answer.value.inj hno) with hno' | ⟨e, he, hok⟩
    · exact Or.inl (congrArg Answer.value hno')
    · exact Or.inr ⟨e, he, congrArg Answer.value hok⟩

/-- A node without near caches, and the same node with an attribute and a near cache, when the store
has become unreachable. -/
theorem transparent_after_outage :
    let use := [Command.put 0 [1] [2], .get 0 [1], .setAvailable false]
    let off : NearConfig := { enabled := false }
    let east := (∅ : Attributes).insert "zone" (.text "east")
    let cs := .start { name := "a", caches := [{ name := "x", near := some off }] } :: use
    let ds := .start { name := "a", attributes := east, caches := [{ name := "x" }] } :: use
    let s := (fresh id {}).after cs
    let t := (fresh id {}).after ds
    (s.fabric.get 0 [1]).1.toOption = none ∧ (t.fabric.get 0 [1]).1.toOption = some (some [2]) ∧
      Transparent (fresh id {}) (fresh id {}) cs ds := by
  refine ⟨by decide, by decide, transparent_after Function.injective_id {} {} ?_ (by decide)⟩
  exact .cons (.start rfl) (List.forall₂_same.mpr fun c _ => .same c)

end Session

end NearCache
