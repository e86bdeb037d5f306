import NearCache.Proofs.Fabric.Reading

/-!
# Where an endpoint stands

Endpoints are numbered in the order in which they start, whichever nodes they start on. So the number
of an endpoint depends on the order in which nodes were visited, and says nothing of the endpoint
itself. What does not depend on it is the place of an endpoint: its node, and how many endpoints nodes
of this name had started before (`Fabric.place?`).

No two endpoints have the same place (`eq_of_place?_eq_some`). An endpoint keeps its place for good,
through reads and writes (`Serves.place?`), when others close (`Fabric.Shuts`) and when others start
(`Wired.keepsPlaces_start`).
-/

namespace NearCache

namespace Fabric

/-- The endpoints that nodes of a name have started, in order. -/
def startedBy (f : Fabric) (node : String) : List EndpointId :=
  (f.endpoints.filter fun _ e => e.node = node).keys

/-- The node of an endpoint, and how many endpoints nodes of this name had started before. -/
def place? (f : Fabric) (i : EndpointId) : Option (String × Nat) :=
  (f.endpoint? i).map fun e => (e.node, (f.startedBy e.node).idxOf i)

variable {f f' : Fabric} {i j : EndpointId} {e : Endpoint}

theorem mem_startedBy_iff {node : String} :
    i ∈ f.startedBy node ↔ ∃ e, f.endpoint? i = some e ∧ e.node = node := by
  rw [startedBy, Table.mem_keys_iff]
  simp only [Table.get?_filter, Option.filter_eq_some_iff, decide_eq_true_eq]
  rfl

theorem nodup_startedBy (f : Fabric) (node : String) : (f.startedBy node).Nodup :=
  Table.nodup_keys _

theorem place?_of_endpoint (he : f.endpoint? i = some e) :
    f.place? i = some (e.node, (f.startedBy e.node).idxOf i) := by
  rw [place?, he]
  rfl

theorem place?_eq_none_iff : f.place? i = none ↔ f.endpoint? i = none :=
  Option.map_eq_none_iff

/-- An endpoint has a place if it stands there in the line of its node. -/
theorem place?_eq_some_iff {node : String} {n : Nat} :
    f.place? i = some (node, n) ↔ (f.startedBy node)[n]? = some i := by
  constructor
  · intro h
    obtain ⟨e, he, hplace⟩ := Option.map_eq_some_iff.mp h
    obtain ⟨rfl, rfl⟩ := Prod.mk.inj hplace
    exact List.getElem?_idxOf (mem_startedBy_iff.mpr ⟨e, he, rfl⟩)
  · intro h
    obtain ⟨e, he, rfl⟩ := mem_startedBy_iff.mp (List.mem_of_getElem? h)
    obtain ⟨hn, hi⟩ := List.getElem?_eq_some_iff.mp h
    rw [place?_of_endpoint he, ← hi, (nodup_startedBy f e.node).idxOf_getElem n hn]

/-- No two endpoints have the same place. -/
theorem eq_of_place?_eq_some {p : String × Nat} (hi : f.place? i = some p)
    (hj : f.place? j = some p) : i = j := by
  obtain ⟨node, n⟩ := p
  rw [place?_eq_some_iff] at hi hj
  rw [hi] at hj
  exact Option.some.inj hj

/-- An endpoint with a place is found by its place. -/
theorem some_mem_map_place?_iff {p : String × Nat} {l : List EndpointId}
    (hi : f.place? i = some p) : some p ∈ l.map f.place? ↔ i ∈ l := by
  rw [List.mem_map]
  constructor
  · rintro ⟨k, hk, hplace⟩
    rwa [eq_of_place?_eq_some hi hplace]
  · exact fun h => ⟨i, h, hi⟩

/-- Places depend on nothing but the nodes of the endpoints. -/
theorem startedBy_congr
    (h : ∀ i, (f'.endpoint? i).map Endpoint.node = (f.endpoint? i).map Endpoint.node)
    (node : String) : f'.startedBy node = f.startedBy node := by
  refine Table.keys_eq_of_contains fun i => ?_
  rw [Bool.eq_iff_iff, Table.contains_iff, Table.contains_iff]
  have hnode := h i
  simp only [Table.get?_filter, Option.filter_eq_some_iff, decide_eq_true_eq]
  show (∃ e, f'.endpoint? i = some e ∧ e.node = node) ↔ ∃ e, f.endpoint? i = some e ∧ e.node = node
  have hmap : ∀ g : Fabric, (∃ e, g.endpoint? i = some e ∧ e.node = node) ↔
      (g.endpoint? i).map Endpoint.node = some node := by
    intro g
    rw [Option.map_eq_some_iff]
  rw [hmap, hmap, hnode]

theorem place?_congr
    (h : ∀ i, (f'.endpoint? i).map Endpoint.node = (f.endpoint? i).map Endpoint.node)
    (i : EndpointId) : f'.place? i = f.place? i := by
  have hplace : ∀ g : Fabric, g.place? i =
      ((g.endpoint? i).map Endpoint.node).map fun node => (node, (g.startedBy node).idxOf i) := by
    intro g
    rw [Option.map_map]
    rfl
  rw [hplace, hplace f, h]
  simp only [startedBy_congr h]

/-! ## What leaves places alone -/

/-- Every endpoint stands where it stood before; there may be new ones. -/
def KeepsPlaces (f f' : Fabric) : Prop := ∀ i p, f.place? i = some p → f'.place? i = some p

theorem KeepsPlaces.of_eq (h : ∀ i, f'.place? i = f.place? i) : KeepsPlaces f f' :=
  fun i _ hi => (h i).trans hi

theorem KeepsPlaces.trans {g : Fabric} (h : KeepsPlaces f f') (h' : KeepsPlaces f' g) :
    KeepsPlaces f g :=
  fun i p hi => h' i p (h i p hi)

theorem Serves.node (h : f.Serves f') (i : EndpointId) :
    (f'.endpoint? i).map Endpoint.node = (f.endpoint? i).map Endpoint.node := by
  have hframe := congrArg (Option.map Endpoint.node) (h.frame i)
  rwa [Option.map_map, Option.map_map] at hframe

/-- Reads and writes move nothing. -/
theorem Serves.place? (h : f.Serves f') (i : EndpointId) : f'.place? i = f.place? i :=
  place?_congr h.node i

theorem Serves.startedBy (h : f.Serves f') (node : String) : f'.startedBy node = f.startedBy node :=
  startedBy_congr h.node node

/-- `f'` is `f` after some endpoints were asked to close. -/
structure Shuts (reason : Closing) (chosen : EndpointId → Prop) (f f' : Fabric) : Prop where
  endpoint : ∀ i, (chosen i → f'.endpoint? i = (f.endpoint? i).map (Endpoint.shut reason)) ∧
    (¬ chosen i → f'.endpoint? i = f.endpoint? i)
  /-- In the store subscriptions have ended, and that is all. -/
  store : ∃ subscriptions, f'.store = { f.store with subscriptions }

variable {reason : Closing} {chosen : EndpointId → Prop}

theorem Shuts.node (h : Shuts reason chosen f f') (i : EndpointId) :
    (f'.endpoint? i).map Endpoint.node = (f.endpoint? i).map Endpoint.node := by
  have hshut : Endpoint.node ∘ Endpoint.shut reason = Endpoint.node := by
    funext e
    show (e.shut reason).node = e.node
    unfold Endpoint.shut
    split <;> rfl
  by_cases hi : chosen i
  · rw [(h.endpoint i).1 hi, Option.map_map, hshut]
  · rw [(h.endpoint i).2 hi]

theorem Shuts.place? (h : Shuts reason chosen f f') (i : EndpointId) : f'.place? i = f.place? i :=
  place?_congr h.node i

theorem Shuts.startedBy (h : Shuts reason chosen f f') (node : String) :
    f'.startedBy node = f.startedBy node :=
  startedBy_congr h.node node

theorem Shuts.endpoint?_eq_none (h : Shuts reason chosen f f') (hi : f.endpoint? i = none) :
    f'.endpoint? i = none := by
  have hnode := h.node i
  rw [hi] at hnode
  exact Option.map_eq_none_iff.mp hnode

theorem Shuts.keepsPlaces (h : Shuts reason chosen f f') : KeepsPlaces f f' := .of_eq h.place?

theorem Shuts.refl (reason : Closing) (f : Fabric) : Shuts reason (fun _ => False) f f where
  endpoint _ := ⟨False.elim, fun _ => rfl⟩
  store := ⟨_, rfl⟩

/-- Who is asked to close twice closes once. -/
theorem Shuts.trans {chosen' : EndpointId → Prop} {g : Fabric} (h : Shuts reason chosen f f')
    (h' : Shuts reason chosen' f' g) : Shuts reason (fun i => chosen i ∨ chosen' i) f g where
  endpoint i := by
    obtain ⟨hpos, hneg⟩ := h.endpoint i
    obtain ⟨hpos', hneg'⟩ := h'.endpoint i
    refine ⟨fun hi => ?_, fun hi => ?_⟩
    · by_cases hc : chosen i
      · by_cases hc' : chosen' i
        · rw [hpos' hc', hpos hc]
          cases f.endpoint? i <;> simp
        · rw [hneg' hc', hpos hc]
      · rw [hpos' (hi.resolve_left hc), hneg hc]
    · rw [hneg' fun hc => hi (Or.inr hc), hneg fun hc => hi (Or.inl hc)]
  store := by
    obtain ⟨_, hs⟩ := h.store
    obtain ⟨_, hs'⟩ := h'.store
    rw [hs', hs]
    exact ⟨_, rfl⟩

theorem Shuts.congr {chosen' : EndpointId → Prop} (h : Shuts reason chosen f f')
    (hiff : ∀ i, chosen' i ↔ chosen i) : Shuts reason chosen' f f' := by
  rwa [show chosen' = chosen from funext fun i => propext (hiff i)]

theorem shuts_close (f : Fabric) (i : EndpointId) (reason : Closing) :
    Shuts reason (· = i) f (f.close i reason).2 where
  endpoint j := by
    rw [endpoint?_close]
    exact ⟨fun hj => by rw [if_pos hj, hj], fun hj => if_neg hj⟩
  store := f.store_close i reason

theorem keepsPlaces_destroyEach (names : List String) : ∀ f : Fabric,
    KeepsPlaces f (names.foldl (fun f name => f.destroy name) f) := by
  induction names with
  | nil => intro f; exact .of_eq fun _ => rfl
  | cons name names ih => intro f; exact ih (f.destroy name)

/-! ## Starting -/

/-- An endpoint that starts is the last in the line of its node. -/
theorem Wired.startedBy_start (hw : f.Wired) (name : String) (config : CacheConfig) (p : Placement)
    (node : String) :
    (f.start name config p).2.startedBy node =
      f.startedBy node ++ if name = node then [f.started] else [] := by
  obtain ⟨fresh, hends⟩ : ∃ fresh : Endpoint, fresh.node = name ∧
      (f.start name config p).2.endpoints = f.endpoints.insert f.started fresh := by
    cases p <;> exact ⟨_, rfl, rfl⟩
  have hlast : ∀ e ∈ f.endpoints.entries, e.1 < f.started := by
    rintro ⟨j, e⟩ hj
    exact hw.started ((Table.mem_entries_iff _ _ _).mp hj)
  have hline : ∀ g : Fabric, g.startedBy node =
      (g.endpoints.entries.filter fun e => decide (e.2.node = node)).map Prod.fst := fun _ => rfl
  rw [hline, hline, hends.2, Table.entries_insert_last hlast, List.filter_append, List.map_append,
    ← hends.1]
  by_cases hnode : fresh.node = node <;> simp [hnode]

/-- Endpoints keep their places when another one starts. -/
theorem Wired.keepsPlaces_start (hw : f.Wired) (name : String) (config : CacheConfig)
    (p : Placement) : KeepsPlaces f (f.start name config p).2 := by
  rintro i ⟨node, n⟩ hi
  rw [place?_eq_some_iff] at hi ⊢
  rw [hw.startedBy_start, List.getElem?_append_left (List.getElem?_eq_some_iff.mp hi).1, hi]

theorem Wired.place?_start_of_ne (hw : f.Wired) {name : String} {config : CacheConfig}
    {p : Placement} (hi : i ≠ f.started) : (f.start name config p).2.place? i = f.place? i := by
  cases hplace : f.place? i with
  | none =>
      rw [place?_eq_none_iff, endpoint?_start, if_neg hi]
      exact place?_eq_none_iff.mp hplace
  | some q => exact hw.keepsPlaces_start name config p i q hplace

theorem Wired.place?_started (hw : f.Wired) (name : String) (config : CacheConfig)
    (p : Placement) :
    (f.start name config p).2.place? f.started = some (name, (f.startedBy name).length) := by
  rw [place?_eq_some_iff, hw.startedBy_start, if_pos rfl]
  exact List.getElem?_concat_length

theorem Wired.keepsPlaces_start_start (hw : f.Wired) (a b : String) (config config' : CacheConfig)
    (p q : Placement) : f.KeepsPlaces ((f.start a config p).2.start b config' q).2 :=
  (hw.keepsPlaces_start a config p).trans ((hw.start a config p).keepsPlaces_start b config' q)

/-- Of two endpoints that start on different nodes, each has the same place whichever starts first. -/
theorem Wired.place?_either (hw : f.Wired) {a b : String} (hab : a ≠ b) (config config' : CacheConfig)
    (p q : Placement) :
    ((f.start a config p).2.start b config' q).2.place? f.started =
        some (a, (f.startedBy a).length) ∧
      ((f.start b config' q).2.start a config p).2.place? (f.started + 1) =
        some (a, (f.startedBy a).length) := by
  constructor
  · exact (hw.start a config p).keepsPlaces_start b config' q _ _ (hw.place?_started a config p)
  · have hlast := (hw.start b config' q).place?_started a config p
    rwa [hw.startedBy_start, if_neg hab.symm, List.append_nil, started_start] at hlast

end Fabric

end NearCache
