import Mathlib.Data.List.Perm.Basic
import NearCache.Proofs.Numbering.Places

/-!
# Two fabrics that differ in their numbers

`Fabric.Renumbered f g` says that `g` is `f` with other numbers: each node has started as many
endpoints in both, endpoints that stand in the same place are the same but for the number of their
subscriptions, and the stores are the same but for the order in which they know their subscribers.

An operation that is asked of both, each time through the endpoint in the same place, gets the same
answer from both and leaves them so. What makes two fabrics differ in the first place is that
endpoints start on the same nodes in another order: `Wired.renumbered_swap`.
-/

namespace NearCache

/-- An endpoint without the number of its subscription. -/
def Endpoint.unnumbered (e : Endpoint) : Endpoint :=
  { e with subscription := e.subscription.map fun _ => 0 }

/-- A store without the numbers of those who listen. -/
def Store.unnumbered {L : Type} (s : Store L) : Store L := { s with subscriptions := ∅ }

namespace Endpoint

variable {e e' : Endpoint}

/-- Only the number of a subscription is left out. -/
theorem eq_of_unnumbered_eq (h : e'.unnumbered = e.unnumbered) :
    e' = { e with subscription := e'.subscription } ∧
      e'.subscription.isSome = e.subscription.isSome := by
  obtain ⟨node, config, placement, front, subscription, counters, closed⟩ := e
  obtain ⟨node', config', placement', front', subscription', counters', closed'⟩ := e'
  simp only [unnumbered, mk.injEq] at h
  obtain ⟨rfl, rfl, rfl, rfl, hsubscription, rfl, rfl⟩ := h
  refine ⟨rfl, ?_⟩
  have hsome := congrArg Option.isSome hsubscription
  rwa [Option.isSome_map, Option.isSome_map] at hsome

theorem name_eq_of_unnumbered_eq (h : e'.unnumbered = e.unnumbered) : e'.name = e.name := by
  rw [(eq_of_unnumbered_eq h).1]
  rfl

theorem closed_eq_of_unnumbered_eq (h : e'.unnumbered = e.unnumbered) :
    e'.closed = e.closed := by
  rw [(eq_of_unnumbered_eq h).1]

theorem unnumbered_shut (reason : Closing) (e : Endpoint) :
    (e.shut reason).unnumbered = e.unnumbered.shut reason := by
  unfold shut
  show _ = if e.closed.isSome then _ else _
  split <;> rfl

theorem unnumbered_opened (node : String) (config : CacheConfig) (p : Placement) (k l : Nat) :
    (opened node config p k).unnumbered = (opened node config p l).unnumbered := by
  unfold opened unnumbered
  dsimp only
  split <;> rfl

theorem unnumbered_hear (n : Notice) (e : Endpoint) :
    (e.hear n).unnumbered = e.unnumbered.hear n := by
  obtain ⟨node, config, placement, front, subscription, counters, closed⟩ := e
  unfold hear unnumbered
  cases front with
  | none => rfl
  | some f =>
      dsimp only
      split <;> rfl

end Endpoint

namespace Fabric

theorem unnumbered_start (f : Fabric) (name : String) (config : CacheConfig) (p : Placement) :
    (f.start name config p).2.store.unnumbered =
      { f.store.unnumbered with
        lastSubscription :=
          if p.isPresent then f.store.lastSubscription + 1 else f.store.lastSubscription } := by
  cases p <;> rfl

/-- The fabrics differ only in the numbers of endpoints and subscriptions. -/
structure Renumbered (f g : Fabric) : Prop where
  store : g.store.unnumbered = f.store.unnumbered
  /-- Each node has started as many endpoints. -/
  lineup : ∀ node, (g.startedBy node).length = (f.startedBy node).length
  /-- In the same place stands the same endpoint. -/
  endpoint : ∀ {i j}, g.place? j = f.place? i →
    (g.endpoint? j).map Endpoint.unnumbered = (f.endpoint? i).map Endpoint.unnumbered

namespace Renumbered

variable {f f' g g' k : Fabric} {i j i' j' : EndpointId}

theorem refl (f : Fabric) : Renumbered f f where
  store := rfl
  lineup _ := rfl
  endpoint {i j} h := by
    cases hi : f.place? i with
    | none =>
        rw [hi] at h
        rw [place?_eq_none_iff.mp hi, place?_eq_none_iff.mp h]
    | some p =>
        rw [hi] at h
        rw [eq_of_place?_eq_some h hi]

theorem symm (h : Renumbered f g) : Renumbered g f where
  store := h.store.symm
  lineup node := (h.lineup node).symm
  endpoint hplace := (h.endpoint hplace.symm).symm

/-- Every place is taken in both. -/
theorem exists_place (h : Renumbered f g) {p : String × Nat} (hi : f.place? i = some p) :
    ∃ j, g.place? j = some p := by
  obtain ⟨node, n⟩ := p
  obtain ⟨hn, -⟩ := List.getElem?_eq_some_iff.mp (place?_eq_some_iff.mp hi)
  have hn' : n < (g.startedBy node).length := (h.lineup node).symm ▸ hn
  exact ⟨(g.startedBy node)[n], place?_eq_some_iff.mpr (List.getElem?_eq_getElem hn')⟩

theorem trans (h : Renumbered f g) (h' : Renumbered g k) : Renumbered f k where
  store := h'.store.trans h.store
  lineup node := (h'.lineup node).trans (h.lineup node)
  endpoint {i j} hplace := by
    cases hi : f.place? i with
    | none =>
        rw [hi] at hplace
        rw [place?_eq_none_iff.mp hi, place?_eq_none_iff.mp hplace]
    | some p =>
        obtain ⟨m, hm⟩ := h.exists_place hi
        exact (h'.endpoint (hplace.trans (hi.trans hm.symm))).trans
          (h.endpoint (hm.trans hi.symm))

/-- In the same place, there is an endpoint in both or in neither. -/
theorem endpoint_cases (h : Renumbered f g) (hij : g.place? j = f.place? i) :
    (f.endpoint? i = none ∧ g.endpoint? j = none) ∨
      ∃ e e', f.endpoint? i = some e ∧ g.endpoint? j = some e' ∧
        e'.unnumbered = e.unnumbered := by
  rcases map_eq_map_cases (h.endpoint hij) with ⟨hj, hi⟩ | ⟨e', e, hj, hi, hsame⟩
  · exact Or.inl ⟨hi, hj⟩
  · exact Or.inr ⟨e, e', hi, hj, hsame⟩

/-- An endpoint that stands somewhere is met in both fabrics or in neither. -/
theorem eq_iff_eq {e : Endpoint} (he : f.endpoint? i = some e) (hij : g.place? j = f.place? i)
    (hij' : g.place? j' = f.place? i') : i' = i ↔ j' = j := by
  rw [place?_of_endpoint he] at hij
  constructor
  · rintro rfl
    rw [place?_of_endpoint he] at hij'
    exact eq_of_place?_eq_some hij' hij
  · rintro rfl
    exact eq_of_place?_eq_some (hij'.symm.trans hij) (place?_of_endpoint he)

/-- Endpoints that are told apart by what they are, not by their numbers, stand in the same places. -/
theorem perm_places (h : Renumbered f g) {P : Endpoint → Prop}
    (hP : ∀ {e e'}, e'.unnumbered = e.unnumbered → P e → P e') {l l' : List EndpointId}
    (hl : l.Nodup) (hmem : ∀ {i}, i ∈ l ↔ ∃ e, f.endpoint? i = some e ∧ P e)
    (hl' : l'.Nodup) (hmem' : ∀ {j}, j ∈ l' ↔ ∃ e, g.endpoint? j = some e ∧ P e) :
    (l'.map g.place?).Perm (l.map f.place?) := by
  have hnodup : ∀ {f : Fabric} {l : List EndpointId}, l.Nodup →
      (∀ {i}, i ∈ l ↔ ∃ e, f.endpoint? i = some e ∧ P e) → (l.map f.place?).Nodup := by
    intro f l hl hmem
    refine hl.map_on fun i hi j _ hij => ?_
    obtain ⟨e, he, -⟩ := hmem.mp hi
    have hplace := place?_of_endpoint he
    exact eq_of_place?_eq_some hplace (hij ▸ hplace)
  have hsub : ∀ {f g : Fabric} {l l' : List EndpointId}, Renumbered f g →
      (∀ {i}, i ∈ l ↔ ∃ e, f.endpoint? i = some e ∧ P e) →
      (∀ {j}, j ∈ l' ↔ ∃ e, g.endpoint? j = some e ∧ P e) →
      ∀ {p}, p ∈ l.map f.place? → p ∈ l'.map g.place? := by
    intro f g l l' h hmem hmem' p hp
    obtain ⟨i, hi, rfl⟩ := List.mem_map.mp hp
    obtain ⟨e, he, hPe⟩ := hmem.mp hi
    obtain ⟨j, hj⟩ := h.exists_place (place?_of_endpoint he)
    have hij : g.place? j = f.place? i := hj.trans (place?_of_endpoint he).symm
    rcases h.endpoint_cases hij with ⟨hnone, -⟩ | ⟨e₀, e', he₀, he', hsame⟩
    · rw [he] at hnone
      cases hnone
    · rw [he] at he₀
      cases he₀
      exact List.mem_map.mpr ⟨j, hmem'.mpr ⟨e', he', hP hsame hPe⟩, hij⟩
  rw [List.perm_ext_iff_of_nodup (hnodup hl' hmem') (hnodup hl hmem)]
  exact fun p => ⟨hsub h.symm hmem' hmem, hsub h hmem hmem'⟩

/-- The listeners of a cache are the same. -/
theorem listeners_perm (h : Renumbered f g) (hf : f.Wired) (hg : g.Wired) (c : String) :
    ((g.store.listeners c).map g.place?).Perm ((f.store.listeners c).map f.place?) := by
  refine h.perm_places (fun {e e'} hsame hlistens => ?_) (hf.nodup_listeners c)
    hf.mem_listeners_iff (hg.nodup_listeners c) hg.mem_listeners_iff
  rw [(Endpoint.eq_of_unnumbered_eq hsame).1]
  exact hlistens

theorem subscribers_perm (h : Renumbered f g) (hf : f.Wired) (hg : g.Wired) :
    ((g.store.subscriptions.values.map Subscription.listener).map g.place?).Perm
      ((f.store.subscriptions.values.map Subscription.listener).map f.place?) := by
  refine h.perm_places (fun {e e'} hsame hlistens => ?_) hf.nodup_subscribers
    hf.mem_subscribers_iff hg.nodup_subscribers hg.mem_subscribers_iff
  rw [(Endpoint.eq_of_unnumbered_eq hsame).1]
  exact hlistens

/-! ## Stores -/

theorem current? (h : Renumbered f g) (c : String) (key : Bytes) :
    g.store.current? c key = f.store.current? c key :=
  Store.current?_of_data (congrArg Store.data h.store) c key

theorem available (h : Renumbered f g) : g.store.available = f.store.available := by
  have hstore := congrArg Store.available h.store
  exact hstore

theorem lastVersion (h : Renumbered f g) : g.store.lastVersion = f.store.lastVersion := by
  have hstore := congrArg Store.lastVersion h.store
  exact hstore

theorem reach (h : Renumbered f g) (c : String) : g.store.reach c = f.store.reach c := by
  unfold Store.reach
  rw [h.available]

/-- Nothing that the stores count depends on the numbers. -/
theorem stats (h : Renumbered f g) (hf : f.Wired) (hg : g.Wired) :
    g.store.stats = f.store.stats := by
  have hsize : g.store.subscriptions.size = f.store.subscriptions.size := by
    have hlength := (h.subscribers_perm hf hg).length_eq
    simp only [Table.values, List.length_map] at hlength
    exact hlength
  have hstats : ∀ s : Store EndpointId, s.stats =
      { s.unnumbered.stats with subscriptions := s.subscriptions.size } := fun _ => rfl
  rw [hstats, hstats f.store, h.store, hsize]

/-- A removal finds the same in both stores. -/
theorem erase_cases (h : Renumbered f g) (c : String) (key : Bytes) :
    (f.store.erase c key = none ∧ g.store.erase c key = none) ∨
      ∃ n s t, f.store.erase c key = some (n, s) ∧ g.store.erase c key = some (n, t) ∧
        t.unnumbered = s.unnumbered := by
  unfold Store.erase
  rw [h.current?, h.lastVersion]
  cases f.store.current? c key with
  | none => exact Or.inl ⟨rfl, rfl⟩
  | some v =>
      have herase : ∀ s : Store EndpointId,
          ({ s with lastVersion := f.store.lastVersion + 1, deletes := s.deletes + 1 }.setSlot c key
            ⟨none, f.store.lastVersion + 1⟩).unnumbered =
          { s.unnumbered with
            lastVersion := f.store.lastVersion + 1
            deletes := s.unnumbered.deletes + 1 }.setSlot c key
              ⟨none, f.store.lastVersion + 1⟩ := fun _ => rfl
      refine Or.inr ⟨_, _, _, rfl, rfl, ?_⟩
      rw [herase, herase, h.store]

/-! ## Reads and writes -/

/-- Nothing moves, so only what has become of endpoints and stores must be compared. -/
theorem serves (h : Renumbered f g) (hf : f.Serves f') (hg : g.Serves g')
    (hs : g'.store.unnumbered = f'.store.unnumbered)
    (he : ∀ {i j}, g.place? j = f.place? i →
      (g'.endpoint? j).map Endpoint.unnumbered = (f'.endpoint? i).map Endpoint.unnumbered) :
    Renumbered f' g' where
  store := hs
  lineup node := by rw [hf.startedBy, hg.startedBy, h.lineup]
  endpoint hplace := he (by rwa [hf.place?, hg.place?] at hplace)

/-- A change of the stores. -/
theorem withStore (h : Renumbered f g) {s t : Store EndpointId}
    (hs : t.unnumbered = s.unnumbered) :
    Renumbered { f with store := s } { g with store := t } :=
  ⟨hs, h.lineup, h.endpoint⟩

/-- A change of the endpoint in one place that does not depend on the number of its subscription. -/
theorem update (h : Renumbered f g) (hij : g.place? j = f.place? i) {F : Endpoint → Endpoint}
    (hframe : ∀ e, (F e).frame = e.frame) (hF : ∀ e, (F e).unnumbered = F e.unnumbered) :
    Renumbered (f.update i F) (g.update j F) := by
  refine h.serves (.update fun e _ => hframe e) (.update fun e _ => hframe e) h.store
    fun {i' j'} hij' => ?_
  rw [endpoint?_update, endpoint?_update]
  rcases h.endpoint_cases hij with ⟨hi, hj⟩ | ⟨e, e', hi, hj, hsame⟩
  · -- there is nothing to change
    have hleft : (if i' = i then (f.endpoint? i).map F else f.endpoint? i') = f.endpoint? i' := by
      split
      · next heq => rw [heq, hi]; rfl
      · rfl
    have hright : (if j' = j then (g.endpoint? j).map F else g.endpoint? j') = g.endpoint? j' := by
      split
      · next heq => rw [heq, hj]; rfl
      · rfl
    rw [hleft, hright]
    exact h.endpoint hij'
  · have heq := eq_iff_eq hi hij hij'
    by_cases hi' : i' = i
    · rw [if_pos hi', if_pos (heq.mp hi'), hi, hj]
      show some (F e').unnumbered = some (F e).unnumbered
      rw [hF, hF, hsame]
    · rw [if_neg hi', if_neg fun hj' => hi' (heq.mpr hj')]
      exact h.endpoint hij'

theorem count (h : Renumbered f g) (hij : g.place? j = f.place? i) (F : Counters → Counters) :
    Renumbered (f.count i F) (g.count j F) :=
  h.update hij (fun e => e.frame_count F) fun _ => rfl

/-- Both endpoints serve, or neither does for the same reason. -/
theorem serving (h : Renumbered f g) (hij : g.place? j = f.place? i) :
    (∃ err, f.serving i = .error err ∧ g.serving j = .error err) ∨
      ∃ e e', f.endpoint? i = some e ∧ e.closed = none ∧ g.endpoint? j = some e' ∧
        e'.closed = none ∧ e'.unnumbered = e.unnumbered := by
  unfold Fabric.serving Fabric.endpoint
  rcases h.endpoint_cases hij with ⟨hi, hj⟩ | ⟨e, e', hi, hj, hsame⟩
  · left
    rw [hi, hj]
    exact ⟨_, rfl, rfl⟩
  · obtain ⟨heq, -⟩ := Endpoint.eq_of_unnumbered_eq hsame
    have hopen : e'.ensureOpen = e.ensureOpen := by
      rw [heq]
      rfl
    have hclosed := Endpoint.closed_eq_of_unnumbered_eq hsame
    rw [hi, hj]
    simp only [bind, Except.bind, hopen]
    cases hc : e.closed with
    | none => exact Or.inr ⟨e, e', rfl, hc, rfl, hclosed.trans hc, hsame⟩
    | some r =>
        left
        cases r with
        | cacheDestroyed => exact ⟨.cacheNotFound e.name, by simp [Endpoint.ensureOpen, hc]⟩
        | nodeStopped => exact ⟨.nodeStopped e.node, by simp [Endpoint.ensureOpen, hc]⟩

theorem peek (h : Renumbered f g) (hij : g.place? j = f.place? i) (key : Bytes) :
    g.peek j key = f.peek i key := by
  unfold Fabric.peek Fabric.endpoint
  rcases h.endpoint_cases hij with ⟨hi, hj⟩ | ⟨e, e', hi, hj, hsame⟩
  · rw [hi, hj]
  · obtain ⟨heq, -⟩ := Endpoint.eq_of_unnumbered_eq hsame
    rw [hi, hj, heq]
    rfl

/-- The question that is put to the store is the same, and so is its answer. -/
theorem fetch (h : Renumbered f g) (r r' : PendingRead) (hkey : r'.key = r.key)
    (hij : g.place? r'.endpoint = f.place? r.endpoint) :
    (g.fetch r').1 = (f.fetch r).1 ∧ Renumbered (f.fetch r).2 (g.fetch r').2 := by
  rcases h.endpoint_cases hij with ⟨hi, hj⟩ | ⟨e, e', hi, hj, hsame⟩
  · rw [fetch_eq_of_none hi, fetch_eq_of_none hj]
    exact ⟨rfl, h⟩
  · have hname := Endpoint.name_eq_of_unnumbered_eq hsame
    rw [fetch_eq hi, fetch_eq hj, h.available, hname, hkey, h.current?]
    split
    · refine ⟨rfl, h.withStore ?_⟩
      have hreads := congrArg Store.reads h.store
      show { g.store.unnumbered with reads := g.store.unnumbered.reads + 1 } =
        { f.store.unnumbered with reads := f.store.unnumbered.reads + 1 }
      rw [h.store]
    · exact ⟨rfl, h⟩

theorem settle (h : Renumbered f g) (r r' : PendingRead) (hkey : r'.key = r.key)
    (hij : g.place? r'.endpoint = f.place? r.endpoint) (fetched : Option Versioned) :
    Renumbered (f.settle r fetched) (g.settle r' fetched) := by
  unfold Fabric.settle
  rw [hkey]
  exact h.update hij (fun e => e.frame_mapFront _) fun _ => rfl

theorem endGet (h : Renumbered f g) (r r' : PendingRead) (hkey : r'.key = r.key)
    (hij : g.place? r'.endpoint = f.place? r.endpoint) (answer : Outcome (Option Versioned)) :
    (g.endGet r' answer).1 = (f.endGet r answer).1 ∧
      Renumbered (f.endGet r answer).2 (g.endGet r' answer).2 := by
  rw [endGet_eq, endGet_eq]
  refine ⟨rfl, ?_⟩
  cases answer with
  | error err => exact h.settle r r' hkey hij none
  | ok x =>
      refine (h.count hij _).settle r r' hkey ?_ x
      rw [(Serves.count g _ _).place?, (Serves.count f _ _).place?, hij]

/-- A read begins in the same way: it is done with the same answer, or it is pending in both. -/
theorem beginGet (h : Renumbered f g) (hij : g.place? j = f.place? i) (key : Bytes) :
    Renumbered (f.beginGet i key).2 (g.beginGet j key).2 ∧
      ((∃ r, (f.beginGet i key).1 = .done r ∧ (g.beginGet j key).1 = .done r) ∨
        (f.beginGet i key).1 = .pending ⟨i, key⟩ ∧ (g.beginGet j key).1 = .pending ⟨j, key⟩ ∧
          f.endpoint? i ≠ none) := by
  have hcount := h.count hij fun c => { c with gets := c.gets + 1 }
  have hij₁ : (g.count j fun c => { c with gets := c.gets + 1 }).place? j =
      (f.count i fun c => { c with gets := c.gets + 1 }).place? i := by
    rw [(Serves.count g _ _).place?, (Serves.count f _ _).place?, hij]
  rcases h.serving hij with ⟨err, hf, hg⟩ | ⟨e, e', he, ho, he', ho', hsame⟩
  · have hbegin : ∀ {f : Fabric} {i}, f.serving i = .error err →
        f.beginGet i key = (.done (.error err), f) := by
      intro f i hs
      simp [Fabric.beginGet, hs]
    rw [hbegin hf, hbegin hg]
    exact ⟨h, Or.inl ⟨_, rfl, rfl⟩⟩
  · obtain ⟨heq, -⟩ := Endpoint.eq_of_unnumbered_eq hsame
    have hlocal : e'.local? key = e.local? key := by rw [heq]; rfl
    rcases beginGet_cases f i key with ⟨err, hs, -⟩ | ⟨e₀, he₀, -, hf⟩
    · rw [serving_eq_ok_iff.mpr ⟨he, ho⟩] at hs
      cases hs
    · rw [he] at he₀
      cases he₀
      rcases beginGet_cases g j key with ⟨err, hs, -⟩ | ⟨e₀, he₀, -, hg⟩
      · rw [serving_eq_ok_iff.mpr ⟨he', ho'⟩] at hs
        cases hs
      · rw [he'] at he₀
        cases he₀
        rw [hlocal] at hg
        rcases hf with ⟨v, hv, hf⟩ | ⟨hv, hf⟩
        · rcases hg with ⟨w, hw, hg⟩ | ⟨hw, -⟩
          · rw [hv] at hw
            cases hw
            rw [hf, hg]
            exact ⟨hcount.count hij₁ _, Or.inl ⟨_, rfl, rfl⟩⟩
          · rw [hv] at hw
            cases hw
        · rcases hg with ⟨w, hw, -⟩ | ⟨-, hg⟩
          · rw [hv] at hw
            cases hw
          · rw [hf, hg]
            refine ⟨hcount.update hij₁ (fun e => e.frame_mapFront _) fun _ => rfl,
              Or.inr ⟨rfl, rfl, by rw [he]; simp⟩⟩

theorem get (h : Renumbered f g) (hij : g.place? j = f.place? i) (key : Bytes) :
    (g.get j key).1 = (f.get i key).1 ∧ Renumbered (f.get i key).2 (g.get j key).2 := by
  obtain ⟨hbegun, hanswer⟩ := h.beginGet hij key
  have hplace := (reads_beginGet f i key).toServes.place? i
  have hplace' := (reads_beginGet g j key).toServes.place? j
  unfold Fabric.get
  cases hf : f.beginGet i key with
  | mk b f₁ =>
      cases hg : g.beginGet j key with
      | mk b' g₁ =>
          rw [hf, hg] at hbegun hanswer
          rw [hf] at hplace
          rw [hg] at hplace'
          rcases hanswer with ⟨r, rfl, rfl⟩ | ⟨rfl, rfl, -⟩
          · exact ⟨rfl, hbegun⟩
          · have hij₁ : g₁.place? j = f₁.place? i := hplace'.trans (hij.trans hplace.symm)
            obtain ⟨hfetched, hfetch⟩ := hbegun.fetch ⟨i, key⟩ ⟨j, key⟩ rfl hij₁
            have hij₂ : (g₁.fetch ⟨j, key⟩).2.place? j = (f₁.fetch ⟨i, key⟩).2.place? i := by
              rw [(reads_fetch g₁ ⟨j, key⟩).toServes.place?,
                (reads_fetch f₁ ⟨i, key⟩).toServes.place?, hij₁]
            have hend := hfetch.endGet ⟨i, key⟩ ⟨j, key⟩ rfl hij₂ (f₁.fetch ⟨i, key⟩).1
            dsimp only
            rw [hfetched]
            exact hend

theorem getInto (keys : List Bytes) : ∀ {f g : Fabric} (found : Table Bytes Bytes),
    Renumbered f g → g.place? j = f.place? i →
      (g.getInto j found keys).1 = (f.getInto i found keys).1 ∧
        Renumbered (f.getInto i found keys).2 (g.getInto j found keys).2 := by
  induction keys with
  | nil => intro f g found h _; exact ⟨rfl, h⟩
  | cons key keys ih =>
      intro f g found h hij
      obtain ⟨hanswer, hget⟩ := h.get hij key
      have hplace := (reads_get f i key).toServes.place? i
      have hplace' := (reads_get g j key).toServes.place? j
      unfold Fabric.getInto
      cases hf : f.get i key with
      | mk r f₁ =>
          cases hg : g.get j key with
          | mk r' g₁ =>
              rw [hf] at hanswer hget hplace
              rw [hg] at hanswer hget hplace'
              dsimp only at hanswer hget hplace hplace'
              subst hanswer
              have hij₁ : g₁.place? j = f₁.place? i := hplace'.trans (hij.trans hplace.symm)
              cases r' with
              | error err => exact ⟨rfl, hget⟩
              | ok v =>
                  cases v with
                  | none => exact ih found hget hij₁
                  | some v => exact ih _ hget hij₁

/-! ## Writing -/

/-- What is announced is heard in the same places. -/
theorem tell (h : Renumbered f g) (hf : f.Wired) (hg : g.Wired) (n : Notice) :
    Renumbered (f.tell n) (g.tell n) := by
  refine h.serves (serves_tell f n) (serves_tell g n) ?_ fun {i j} hij => ?_
  · have htold : (g.store.listeners n.cache).length = (f.store.listeners n.cache).length := by
      have hlength := (h.listeners_perm hf hg n.cache).length_eq
      rwa [List.length_map, List.length_map] at hlength
    rw [store_tell, store_tell]
    show { g.store.unnumbered with
        notifications := g.store.unnumbered.notifications +
          (g.store.listeners n.cache).length } =
      { f.store.unnumbered with
        notifications := f.store.unnumbered.notifications +
          (f.store.listeners n.cache).length }
    rw [h.store, htold]
  · rcases h.endpoint_cases hij with ⟨hi, hj⟩ | ⟨e, e', hi, hj, hsame⟩
    · rw [endpoint?_tell_eq_none hi, endpoint?_tell_eq_none hj]
    · rw [hf.endpoint?_tell hi, hg.endpoint?_tell hj, Endpoint.closed_eq_of_unnumbered_eq hsame,
        Endpoint.name_eq_of_unnumbered_eq hsame, Option.map_some, Option.map_some]
      split
      · rw [Endpoint.unnumbered_hear, Endpoint.unnumbered_hear, hsame]
      · rw [hsame]

theorem write (h : Renumbered f g) (hf : f.Wired) (hg : g.Wired) (c : String)
    (key value : Bytes) :
    Renumbered ({ f with store := (f.store.write c key value).2 }.tell
        (f.store.write c key value).1)
      ({ g with store := (g.store.write c key value).2 }.tell
        (g.store.write c key value).1) := by
  have hnotice : (g.store.write c key value).1 = (f.store.write c key value).1 := by
    simp only [Store.write, h.lastVersion]
  have hwrite : ∀ s : Store EndpointId, (s.write c key value).2.unnumbered =
      (s.unnumbered.write c key value).2 := fun _ => rfl
  have hwired : ∀ {f : Fabric}, f.Wired →
      Wired { f with store := (f.store.write c key value).2 } := fun hw =>
    hw.serves (.withStore rfl rfl (.write _ c key value))
  rw [hnotice]
  refine (h.withStore ?_).tell (hwired hf) (hwired hg) _
  rw [hwrite, hwrite, h.store]

theorem put (h : Renumbered f g) (hf : f.Wired) (hg : g.Wired)
    (hij : g.place? j = f.place? i) (key value : Bytes) :
    (g.put j key value).1 = (f.put i key value).1 ∧
      Renumbered (f.put i key value).2 (g.put j key value).2 := by
  rw [put_eq, put_eq]
  rcases h.serving hij with ⟨err, hs, hs'⟩ | ⟨e, e', he, ho, he', ho', hsame⟩
  · rw [hs, hs']
    exact ⟨rfl, h⟩
  · have hname := Endpoint.name_eq_of_unnumbered_eq hsame
    have hcount := h.count hij fun c => { c with puts := c.puts + 1 }
    rw [serving_eq_ok_iff.mpr ⟨he, ho⟩, serving_eq_ok_iff.mpr ⟨he', ho'⟩]
    dsimp only
    rw [hname, h.reach]
    cases f.store.reach e.name with
    | error err => exact ⟨rfl, hcount⟩
    | ok u =>
        exact ⟨rfl, hcount.write (hf.serves (.count f i _)) (hg.serves (.count g j _)) e.name key
          value⟩

theorem putEach (entries : List (Bytes × Bytes)) : ∀ {f g : Fabric}, Renumbered f g →
    f.Wired → g.Wired → g.place? j = f.place? i →
      (g.putEach j entries).1 = (f.putEach i entries).1 ∧
        Renumbered (f.putEach i entries).2 (g.putEach j entries).2 := by
  induction entries with
  | nil => intro f g h _ _ _; exact ⟨rfl, h⟩
  | cons entry rest ih =>
      intro f g h hf hg hij
      obtain ⟨key, value⟩ := entry
      obtain ⟨hanswer, hput⟩ := h.put hf hg hij key value
      have hserves := serves_put f i key value
      have hserves' := serves_put g j key value
      unfold Fabric.putEach
      cases hp : f.put i key value with
      | mk r f₁ =>
          cases hq : g.put j key value with
          | mk r' g₁ =>
              rw [hp] at hanswer hput hserves
              rw [hq] at hanswer hput hserves'
              dsimp only at hanswer hput hserves hserves'
              subst hanswer
              cases r' with
              | error err => exact ⟨rfl, hput⟩
              | ok u =>
                  refine ih hput (hf.serves hserves) (hg.serves hserves') ?_
                  rw [hserves'.place?, hserves.place?, hij]

theorem remove (h : Renumbered f g) (hf : f.Wired) (hg : g.Wired)
    (hij : g.place? j = f.place? i) (key : Bytes) :
    (g.remove j key).1 = (f.remove i key).1 ∧
      Renumbered (f.remove i key).2 (g.remove j key).2 := by
  rw [remove_eq, remove_eq]
  rcases h.serving hij with ⟨err, hs, hs'⟩ | ⟨e, e', he, ho, he', ho', hsame⟩
  · rw [hs, hs']
    exact ⟨rfl, h⟩
  · have hname := Endpoint.name_eq_of_unnumbered_eq hsame
    have hcount := h.count hij fun c => { c with removals := c.removals + 1 }
    rw [serving_eq_ok_iff.mpr ⟨he, ho⟩, serving_eq_ok_iff.mpr ⟨he', ho'⟩]
    dsimp only
    rw [hname, h.reach]
    cases f.store.reach e.name with
    | error err => exact ⟨rfl, hcount⟩
    | ok u =>
        dsimp only
        rcases h.erase_cases e.name key with ⟨hs, ht⟩ | ⟨n, s, t, hs, ht, hstores⟩
        · rw [hs, ht]
          exact ⟨rfl, hcount⟩
        · have hwired : ∀ {f : Fabric} {n s}, f.Wired → f.store.erase e.name key = some (n, s) →
              Wired { f with store := s } := by
            intro f n s hw hs
            obtain ⟨-, -, heq⟩ := Store.erase_eq_some_iff.mp hs
            exact hw.serves (.withStore (by rw [heq]; rfl) (by rw [heq]; rfl) (.erase hs))
          rw [hs, ht]
          exact ⟨rfl, (hcount.withStore hstores).tell (hwired (hf.serves (.count f i _)) hs)
            (hwired (hg.serves (.count g j _)) ht) n⟩

/-! ## Starting, closing, dropping -/

theorem start (h : Renumbered f g) (hf : f.Wired) (hg : g.Wired) (name : String)
    (config : CacheConfig) (p : Placement) :
    Renumbered (f.start name config p).2 (g.start name config p).2 where
  store := by
    have hlast : g.store.lastSubscription = f.store.lastSubscription := by
      have hstore := congrArg Store.lastSubscription h.store
      exact hstore
    rw [unnumbered_start, unnumbered_start, h.store, hlast]
  lineup node := by
    rw [hf.startedBy_start, hg.startedBy_start, List.length_append, List.length_append, h.lineup]
    split <;> rfl
  endpoint {i j} hij := by
    have hnew := hf.place?_started name config p
    have hnew' := hg.place?_started name config p
    rw [h.lineup] at hnew'
    rw [endpoint?_start, endpoint?_start]
    by_cases hi : i = f.started
    · subst hi
      -- both new endpoints stand behind the others of their node
      have hj : j = g.started := eq_of_place?_eq_some (hij.trans hnew) hnew'
      rw [if_pos rfl, if_pos hj, Option.map_some, Option.map_some, Endpoint.unnumbered_opened]
    · have hj : j ≠ g.started := by
        rintro rfl
        exact hi (eq_of_place?_eq_some (hij.symm.trans hnew') hnew)
      rw [hf.place?_start_of_ne hi, hg.place?_start_of_ne hj] at hij
      rw [if_neg hi, if_neg hj]
      exact h.endpoint hij

/-- Endpoints in the same places are asked to close. -/
theorem shuts (h : Renumbered f g) {reason : Closing} {chosen chosen' : EndpointId → Prop}
    (hf : f.Shuts reason chosen f') (hg : g.Shuts reason chosen' g')
    (hchosen : ∀ {i j}, g.place? j = f.place? i → f.endpoint? i ≠ none →
      (chosen i ↔ chosen' j)) : Renumbered f' g' where
  store := by
    obtain ⟨subscriptions, hs⟩ := hf.store
    obtain ⟨subscriptions', hs'⟩ := hg.store
    rw [hs, hs']
    exact h.store
  lineup node := by rw [hf.startedBy, hg.startedBy, h.lineup]
  endpoint {i j} hij := by
    rw [hf.place?, hg.place?] at hij
    have hsame := h.endpoint hij
    rcases h.endpoint_cases hij with ⟨hi, hj⟩ | ⟨e, e', hi, hj, heq⟩
    · rw [hf.endpoint?_eq_none hi, hg.endpoint?_eq_none hj]
    · have hiff := hchosen hij (by rw [hi]; exact Option.some_ne_none e)
      by_cases hc : chosen i
      · rw [(hf.endpoint i).1 hc, (hg.endpoint j).1 (hiff.mp hc), hi, hj]
        show some (e'.shut reason).unnumbered = some (e.shut reason).unnumbered
        rw [Endpoint.unnumbered_shut, Endpoint.unnumbered_shut, heq]
      · rw [(hf.endpoint i).2 hc, (hg.endpoint j).2 fun hc' => hc (hiff.mpr hc')]
        exact hsame

theorem destroy (h : Renumbered f g) (c : String) : Renumbered (f.destroy c) (g.destroy c) := by
  have hdestroy : ∀ s : Store EndpointId, (s.destroy c).unnumbered = s.unnumbered.destroy c :=
    fun _ => rfl
  exact h.withStore (by rw [hdestroy, hdestroy, h.store])

theorem destroyEach (names : List String) : ∀ {f g : Fabric}, Renumbered f g →
    Renumbered (names.foldl (fun f name => f.destroy name) f)
      (names.foldl (fun f name => f.destroy name) g) := by
  induction names with
  | nil => intro f g h; exact h
  | cons name names ih => intro f g h; exact ih (h.destroy name)

theorem setAvailable (h : Renumbered f g) (b : Bool) :
    Renumbered (f.setAvailable b) (g.setAvailable b) := by
  have hset : ∀ s : Store EndpointId, { s with available := b }.unnumbered =
      { s.unnumbered with available := b } := fun _ => rfl
  exact h.withStore (by rw [hset, hset, h.store])

end Renumbered

/-- Endpoints that start on different nodes may start in either order. -/
theorem Wired.renumbered_swap {f : Fabric} (hw : f.Wired) {a b : String} (hab : a ≠ b)
    (config config' : CacheConfig) (p q : Placement) :
    Renumbered ((f.start a config p).2.start b config' q).2
      ((f.start b config' q).2.start a config p).2 := by
  have hwa := hw.start a config p
  have hwb := hw.start b config' q
  obtain ⟨ha, ha'⟩ := hw.place?_either hab config config' p q
  obtain ⟨hb', hb⟩ := hw.place?_either hab.symm config' config q p
  constructor
  · rw [unnumbered_start, unnumbered_start, unnumbered_start, unnumbered_start,
      lastSubscription_start, lastSubscription_start]
    split <;> split <;> rfl
  · intro node
    simp only [hw.startedBy_start, hwa.startedBy_start, hwb.startedBy_start, List.length_append]
    split <;> split <;> simp only [List.length_cons, List.length_nil]
  · intro i j hij
    rw [endpoint?_start, endpoint?_start, endpoint?_start, endpoint?_start, started_start,
      started_start]
    have hne : f.started ≠ f.started + 1 := Nat.ne_of_lt (Nat.lt_succ_self _)
    by_cases hi : i = f.started
    · have hj : j = f.started + 1 := eq_of_place?_eq_some (hij.trans (hi ▸ ha)) ha'
      rw [if_pos hj, if_neg (hi.symm ▸ hne), if_pos hi, Option.map_some, Option.map_some,
        Endpoint.unnumbered_opened]
    by_cases hi' : i = f.started + 1
    · have hj : j = f.started := eq_of_place?_eq_some (hij.trans (hi' ▸ hb)) hb'
      rw [if_neg (hj.symm ▸ hne), if_pos hj, if_pos hi', Option.map_some, Option.map_some,
        Endpoint.unnumbered_opened]
    -- all others keep their numbers and places
    have hj : j ≠ f.started := by
      rintro rfl
      exact hi' (eq_of_place?_eq_some (hij.symm.trans hb') hb)
    have hj' : j ≠ f.started + 1 := by
      rintro rfl
      exact hi (eq_of_place?_eq_some (hij.symm.trans ha') ha)
    rw [hwb.place?_start_of_ne (by rwa [started_start]), hw.place?_start_of_ne hj,
      hwa.place?_start_of_ne (by rwa [started_start]), hw.place?_start_of_ne hi] at hij
    rw [if_neg hj', if_neg hj, if_neg hi', if_neg hi]
    exact (Renumbered.refl f).endpoint hij

end Fabric

end NearCache
