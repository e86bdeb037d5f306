import NearCache.Proofs.Overlap.Order
import NearCache.Proofs.Session.Agreement

/-!
# Nodes and caches that enter at the same time

Nodes that start and caches that are created all publish before they read: a node runs before it
reads the registry, a cache is registered before the running nodes are read. So of a node and a cache
that enter at the same time, at least one sees the other.

As an invariant (`Meeting`): whenever a node runs and a cache is registered, the node has started the
cache, or some stage is to come that will see to it (`Stage.Brings`). This says nothing of who has
read what and when. A node that enrols has its reading of the registry before it, a cache that is
registered has its spreading before it, and each of the two readings passes the duty on to the
activations that it leads to.

What the calls return, and what users get from all this, is in `NearCache.Proofs.Overlap.Returns`.
-/

namespace NearCache

namespace Stage

/-- A stage takes nothing away, and starts only what is registered, as it is registered. -/
def Fits (registry : Table String CacheConfig) : Stage → Prop
  | activate _ config _ => registry.get? config.name = some config
  | spread config _ => registry.get? config.name = some config
  | confirm _ name => ∃ config, registry.get? name = some config
  | unregister _ | sweep _ | deactivate _ _ | drop _ => False
  | enrol _ | register _ _ | create _ _ | join _ => True

/-- A stage sees to it that a node has a registered cache. -/
def Brings (id : MemberId) (config : CacheConfig) : Stage → Prop
  | activate j other _ => j = id ∧ other = config
  | spread other skip => other = config ∧ some id ≠ skip
  | join j => j = id
  | _ => False

/-- A cache that is to be confirmed is registered. -/
theorem Fits.registered {registry : Table String CacheConfig} {id : MemberId} {name : String}
    (h : (confirm id name).Fits registry) : registry.get? name ≠ none := by
  obtain ⟨config, hc⟩ := h
  rw [hc]
  exact Option.some_ne_none config

theorem Fits.mono {registry registry' : Table String CacheConfig} {t : Stage}
    (h : t.Fits registry)
    (hr : ∀ {name config}, registry.get? name = some config → registry'.get? name = some config) :
    t.Fits registry' := by
  cases t with
  | enrol | register | create | join => trivial
  | activate id config trigger => exact hr h
  | spread config skip => exact hr h
  | confirm id name => exact h.imp fun _ hc => hr hc
  | unregister | sweep | deactivate | drop => exact h.elim

end Stage

/-- A later cluster in which nothing has been taken away. -/
structure Cluster.Extends (c c' : Cluster) : Prop where
  members : ∀ {m}, m ∈ c.roster → m ∈ c'.roster
  registry : ∀ {name config}, c.registry.get? name = some config →
    c'.registry.get? name = some config
  running : ∀ {id h}, c.running.get? id = some h →
    ∃ h', c'.running.get? id = some h' ∧ h'.member = h.member
  hosts : ∀ {id name}, c.Hosts id name → c'.Hosts id name
  /-- Every endpoint is as it was. -/
  endpoints : ∀ {i e}, c.fabric.endpoint? i = some e → c'.fabric.endpoint? i = some e
  /-- A new endpoint is open. -/
  opened : ∀ {i e}, c'.fabric.endpoint? i = some e → c.fabric.endpoint? i = none → e.closed = none

namespace Cluster.Extends

theorem refl (c : Cluster) : Extends c c where
  members h := h
  registry h := h
  running hr := ⟨_, hr, rfl⟩
  hosts h := h
  endpoints he := he
  opened he hn := by
    rw [hn] at he
    cases he

theorem trans {a b c : Cluster} (h : Extends a b) (h' : Extends b c) : Extends a c where
  members hm := h'.members (h.members hm)
  registry hc := h'.registry (h.registry hc)
  running hr := by
    obtain ⟨k, hk, hm⟩ := h.running hr
    obtain ⟨k', hk', hm'⟩ := h'.running hk
    exact ⟨k', hk', hm'.trans hm⟩
  hosts hh := h'.hosts (h.hosts hh)
  endpoints he := h'.endpoints (h.endpoints he)
  opened {i e} he hn := by
    cases he' : b.fabric.endpoint? i with
    | none => exact h'.opened he he'
    | some e' =>
        have hsame := h'.endpoints he'
        rw [he] at hsame
        cases hsame
        exact h.opened he' hn

/-- No endpoint has been closed. -/
theorem closed {c c' : Cluster} (h : Extends c c') {i : EndpointId} {e : Endpoint}
    (he : c'.fabric.endpoint? i = some e) (hc : e.closed ≠ none) :
    c.fabric.endpoint? i = some e := by
  cases he₀ : c.fabric.endpoint? i with
  | none => exact absurd (h.opened he he₀) hc
  | some e₀ => rw [← he, h.endpoints he₀]

end Cluster.Extends

namespace Stage.Effect

variable {c c' : Cluster} {t : Stage} {next : List Stage}

/-- A stage that fits takes nothing away. -/
theorem keeps (l : c.Linked) (h : t.Effect c next c') (fits : t.Fits c.registry) :
    c.Extends c' := by
  have hregistry : ∀ {name config}, c.registry.get? name = some config →
      c'.registry.get? name = some config := by
    intro name config hc
    refine (h.registered hc).resolve_right ?_
    rintro ⟨rfl, -⟩
    exact fits
  refine ⟨?_, hregistry, h.runs l, ?_, ?_, ?_⟩
  · intro m hm
    cases h with
    | enrol => exact List.mem_append_left _ hm
    | refused | adopt | register | create | again | activate | confirm | spread | join => exact hm
    | withdraw gone => exact absurd gone fits.registered
    | unregister | sweep | deactivate | drop => exact fits.elim
  · intro id name hh
    cases h with
    | refused | adopt | register | create | again | confirm | spread | join => exact hh
    | @enrol n free =>
        obtain ⟨k, i, hr, hi⟩ := hh
        exact ⟨k, i, l.running_enrolling n hr, hi⟩
    | @activate j config _ _ runs new es => exact (Cluster.grows_starting runs config).hosts hh
    | withdraw gone => exact absurd gone fits.registered
    | unregister | sweep | deactivate | drop => exact fits.elim
  · intro i e he
    cases h with
    | refused | enrol | adopt | register | create | again | confirm | spread | join => exact he
    | activate runs new es =>
        show (c.fabric.start _ _ _).2.endpoint? i = some e
        rw [Fabric.endpoint?_start, if_neg (Nat.ne_of_lt (l.wired.started he)), he]
    | withdraw gone => exact absurd gone fits.registered
    | unregister | sweep | deactivate | drop => exact fits.elim
  · intro i e he hn
    cases h with
    | refused | enrol | adopt | register | create | again | confirm | spread | join =>
        have hsome : c.fabric.endpoint? i = some e := he
        rw [hn] at hsome
        cases hsome
    | activate runs new es =>
        have hsome : (c.fabric.start _ _ _).2.endpoint? i = some e := he
        rw [Fabric.endpoint?_start] at hsome
        split at hsome
        · cases hsome
          rfl
        · rw [hn] at hsome
          cases hsome
    | withdraw gone => exact absurd gone fits.registered
    | unregister | sweep | deactivate | drop => exact fits.elim

/-- What a fitting stage leads to fits. -/
theorem fits (l : c.Linked) (h : t.Effect c next c') (ht : t.Fits c.registry) {x : Stage}
    (hx : x ∈ next) : x.Fits c'.registry := by
  have hkeyed : ∀ {name : String} {config : CacheConfig}, c.registry.get? name = some config →
      c.registry.get? config.name = some config := by
    intro name config hc
    rw [l.keyed hc]
    exact hc
  have hself : ∀ config : CacheConfig,
      (c.registry.insert config.name config).get? config.name = some config :=
    fun config => Table.get?_insert_self _ _ _
  cases h <;> simp at hx
  case enrol => rcases hx with ⟨config, -, rfl⟩ | rfl <;> trivial
  case adopt known => rcases hx with rfl | rfl <;> exact hkeyed known
  case register => rcases hx with rfl | rfl <;> exact hself _
  case create => rw [hx]; exact hself _
  case again | activate => rw [hx]; exact ⟨_, ht⟩
  case spread => obtain ⟨id, -, rfl⟩ := hx; exact ht
  case join =>
      obtain ⟨config, hc, rfl⟩ := hx
      obtain ⟨name, hname⟩ := Table.mem_values_iff.mp hc
      exact hkeyed hname
  case unregister | sweep => exact ht.elim

/-- A node that runs has run before, or it has just enrolled and is to read the registry. -/
theorem ran (h : t.Effect c next c') (ht : t.Fits c.registry) {id : MemberId} {k : Host}
    (hr : c'.running.get? id = some k) :
    (∃ k₀, c.running.get? id = some k₀) ∨ .join id ∈ next := by
  cases h with
  | refused | adopt | register | create | again | confirm | spread | join => exact Or.inl ⟨k, hr⟩
  | @enrol n free =>
      have hr' := (Cluster.running_enrolling c n id).symm.trans hr
      split at hr'
      · next hid =>
        rw [hid]
        exact Or.inr (List.mem_append_right _ List.mem_cons_self)
      · exact Or.inl ⟨k, hr'⟩
  | @activate j config _ _ runs new es =>
      have hr' := (Cluster.running_starting runs config id).symm.trans hr
      split at hr'
      · next hid => exact Or.inl ⟨_, hid ▸ runs⟩
      · exact Or.inl ⟨k, hr'⟩
  | withdraw gone => exact absurd gone ht.registered
  | unregister | sweep | deactivate | drop => exact ht.elim

/-- A member was on the roster before, or it has just enrolled. -/
theorem enrolled (h : t.Effect c next c') (ht : t.Fits c.registry) {m : Member}
    (hm : m ∈ c'.roster) : m ∈ c.roster ∨ ∃ n, t = .enrol n ∧ m.name = n.name := by
  cases h with
  | refused | adopt | register | create | again | activate | confirm | spread | join =>
      exact Or.inl hm
  | @enrol n free =>
      rcases List.mem_append.mp hm with hm | hm
      · exact Or.inl hm
      · exact Or.inr ⟨n, rfl, by rw [List.mem_singleton.mp hm]; rfl⟩
  | withdraw gone => exact absurd gone ht.registered
  | unregister | sweep | deactivate | drop => exact ht.elim

/-- A registered cache was registered before, or it is new and is to be brought to every node. -/
theorem wasRegistered (h : t.Effect c next c') {name : String} {config : CacheConfig}
    (hc : c'.registry.get? name = some config) (id : MemberId) :
    c.registry.get? name = some config ∨ ∃ x ∈ next, x.Brings id config := by
  cases h with
  | refused | enrol | adopt | again | activate | confirm | spread | join | sweep | drop =>
      exact Or.inl hc
  | @register j A free =>
      have hc' : (c.registry.insert A.name A).get? name = some config := hc
      rw [Table.get?_insert] at hc'
      split at hc'
      · cases hc'
        -- the node itself starts the cache, and the others are told
        by_cases hid : id = j
        · exact Or.inr ⟨.activate j config .static, List.mem_cons_self, hid.symm, rfl⟩
        · refine Or.inr ⟨.spread config (some j), List.mem_cons_of_mem _ List.mem_cons_self, rfl, ?_⟩
          exact fun h => hid (Option.some.inj h)
      · exact Or.inl hc'
  | @create creator A free =>
      have hc' : (c.registry.insert A.name A).get? name = some config := hc
      rw [Table.get?_insert] at hc'
      split at hc'
      · cases hc'
        exact Or.inr ⟨.spread config none, List.mem_cons_self, rfl, fun h => by cases h⟩
      · exact Or.inl hc'
  | withdraw => exact Or.inl ((Cluster.registry_deactivateOn c _ _).symm ▸ hc)
  | deactivate => exact Or.inl ((Cluster.registry_deactivateOn c _ _).symm ▸ hc)
  | @unregister n _ =>
      have hc' : (c.registry.erase n).get? name = some config := hc
      rw [Table.get?_erase] at hc'
      split at hc'
      · cases hc'
      · exact Or.inl hc'

/-- A stage that is to bring a cache to a node does so, or leads to one that is to. -/
theorem brings (h : t.Effect c next c') {id : MemberId} {k : Host}
    (hr : c.running.get? id = some k) {config : CacheConfig}
    (hc : c.registry.get? config.name = some config) (hb : t.Brings id config) :
    c'.Hosts id config.name ∨ ∃ x ∈ next, x.Brings id config := by
  cases h with
  | refused entry =>
      cases t with
      | enrol | create | unregister => exact hb.elim
      | register | activate | confirm | spread | join | sweep | deactivate | drop => cases entry
  | enrol | adopt | register | create | confirm | withdraw | unregister | sweep | deactivate
  | drop => exact hb.elim
  | again runs started =>
      obtain ⟨rfl, rfl⟩ := hb
      exact Or.inl ⟨_, _, runs, started⟩
  | @activate j A _ _ runs new es =>
      obtain ⟨rfl, rfl⟩ := hb
      refine Or.inl ⟨_, c.fabric.started, (Cluster.running_starting runs A j).trans (if_pos rfl), ?_⟩
      exact Table.get?_insert_self _ _ _
  | spread A skip =>
      obtain ⟨rfl, hskip⟩ := hb
      refine Or.inr ⟨.activate id A .dynamic, List.mem_map.mpr ⟨id, ?_, rfl⟩, rfl, rfl⟩
      exact List.mem_filter.mpr ⟨Table.mem_keys_iff.mpr ⟨k, hr⟩, decide_eq_true hskip⟩
  | join j =>
      have hj : j = id := hb
      subst hj
      refine Or.inr ⟨.activate j config .join, List.mem_map.mpr ⟨config, ?_, rfl⟩, rfl, rfl⟩
      exact Table.mem_values_iff.mpr ⟨config.name, hc⟩

end Stage.Effect

namespace Overlap

variable {o o' : Overlap} {t : Stage} {next : List Stage}

/-- Nodes and registered caches have met or are about to. -/
structure Meeting (o : Overlap) : Prop where
  /-- What a node carries is registered as the node carries it. -/
  current : ∀ {id name i config}, o.cluster.Carries id name i config →
    o.cluster.registry.get? name = some config
  fits : ∀ {t}, o.Pending t → t.Fits o.cluster.registry
  met : ∀ {id h config}, o.cluster.running.get? id = some h →
    o.cluster.registry.get? config.name = some config →
    o.cluster.Hosts id config.name ∨ ∃ t, o.Pending t ∧ t.Brings id config

theorem meeting_ofCalls {c : Cluster} (a : c.Agrees none none) {calls : List Call}
    (building : ∀ {name}, Call.destroy name ∉ calls) : Meeting (ofCalls c calls) where
  current := by
    rintro id name i config ⟨h, e, hr, hi, he, rfl⟩
    obtain ⟨e', he', hc⟩ := a.current hr hi
    have heq : some e = some e' := he.symm.trans he'
    cases heq
    exact hc
  fits := by
    rintro t ⟨j, hj, ht⟩
    obtain ⟨call, hcall, rfl⟩ := List.mem_map.mp hj
    have ht' : t ∈ [call.entry] := ht
    rw [List.mem_singleton.mp ht']
    cases call with
    | start | create => trivial
    | destroy name => exact building hcall
  met hr hc := Or.inl (a.hosts hr hc)

theorem Meeting.moves (h : Meeting o) (l : o.cluster.Linked) (m : Moves o t next o') :
    Meeting o' ∧ o.cluster.Extends o'.cluster := by
  have hfits := h.fits m.due
  have hextends := m.effect.keeps l hfits
  refine ⟨⟨?_, ?_, ?_⟩, hextends⟩
  · intro id name i config hc
    rcases m.effect.carries l hc with hold | ⟨-, rfl, trigger, rfl⟩
    · exact hextends.registry (h.current hold)
    · exact hextends.registry hfits
  · intro x hx
    rcases m.only hx with hx | hx
    · exact (h.fits hx).mono hextends.registry
    · exact m.effect.fits l hfits hx
  · intro id k config hr hc
    rcases m.effect.ran hfits hr with ⟨k₀, hr₀⟩ | hjoin
    · rcases m.effect.wasRegistered hc id with hc₀ | ⟨x, hx, hb⟩
      · rcases h.met hr₀ hc₀ with hh | ⟨x, hx, hb⟩
        · exact Or.inl (hextends.hosts hh)
        · rcases m.kept hx with rfl | hx
          · refine (m.effect.brings hr₀ hc₀ hb).imp_right ?_
            rintro ⟨x, hx, hb⟩
            exact ⟨x, m.added hx, hb⟩
          · exact Or.inr ⟨x, hx, hb⟩
      · exact Or.inr ⟨x, m.added hx, hb⟩
    · exact Or.inr ⟨.join id, m.added hjoin, rfl⟩

theorem Meeting.after (schedule : List Turn) :
    ∀ {o : Overlap}, Orderly o → Meeting o → Meeting (o.after schedule) := by
  induction schedule with
  | nil => intro o _ h; exact h
  | cons turn rest ih =>
      intro o order h
      rcases order.advance turn with ⟨-, hsame⟩ | ⟨t, next, -, m, horder⟩
      · exact ih (hsame.symm ▸ order) (hsame.symm ▸ h)
      · exact ih horder (h.moves order.linked m).1

/-- All have met when nothing to come sees to a node that runs. -/
theorem Meeting.agrees_of_idle (h : Meeting o) (l : o.cluster.Linked)
    (idle : ∀ {id k config t}, o.cluster.running.get? id = some k → o.Pending t →
      ¬ t.Brings id config) : o.cluster.Agrees none none where
  current {id k name i} hr hi := by
    obtain ⟨e, he, -⟩ := l.hosted (Cluster.running_eq_some_iff.mp hr).1 hi
    exact ⟨e, he, h.current ⟨k, e, hr, hi, he, rfl⟩⟩
  complete {id k name config} _ _ hr hc := by
    have hname := l.keyed hc
    rw [← hname] at hc ⊢
    refine (h.met hr hc).resolve_right ?_
    rintro ⟨t, ht, hb⟩
    exact idle hr ht hb

/-- When all calls have returned, all have met. -/
theorem Meeting.agrees (h : Meeting o) (l : o.cluster.Linked) (hreturned : o.returned = true) :
    o.cluster.Agrees none none :=
  h.agrees_of_idle l fun _ ht _ => pending_eq_false hreturned _ ht

end Overlap

end NearCache
