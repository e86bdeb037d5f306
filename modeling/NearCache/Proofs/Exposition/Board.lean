import NearCache.Proofs.Exposition.Family
import NearCache.Proofs.Session.Agreement
import NearCache.Workload

/-!
# What a board shows

A new board that observes a cluster has recorded every cache of every running node and drops
nothing (`observe_families`): its text is a page for each family, in the order of the families
(`render_observe`). In a cluster whose nodes agree with its registry these are the members of the
roster, each with all registered caches (`Cluster.Agrees.liveEndpoints_map`).
-/

namespace NearCache

namespace Board

/-- The lines of one family. -/
def lines (b : Board) (g : Gauge) : List (Labels × String) :=
  (b.families.filter fun f => f.gauge = g).flatMap Family.lines

/-- What is recorded of an endpoint. -/
def sample (e : Endpoint) : Labels × Snapshot := (.ofEndpoint e, e.snapshot)

theorem families_recordAll (live : List Endpoint) :
    ∀ b : Board, (live.foldl record b).families = b.families.map (·.setAll (live.map sample)) := by
  induction live with
  | nil =>
      intro b
      exact (List.map_id b.families).symm
  | cons e live ih =>
      intro b
      rw [List.foldl_cons, ih]
      show (b.families.map (·.set (.ofEndpoint e) e.snapshot)).map _ = _
      rw [List.map_map]
      rfl

/-- The labels that are in use are those that were recorded. -/
theorem mem_series_recordAll (live : List Endpoint) {l : Labels} :
    ∀ b : Board, l ∈ (live.foldl record b).series.values →
      l ∈ b.series.values ∨ l ∈ live.map Labels.ofEndpoint := by
  induction live with
  | nil => intro b h; exact Or.inl h
  | cons e live ih =>
      intro b h
      rcases ih (b.record e) h with h | h
      · obtain ⟨key, hget⟩ := Table.mem_values_iff.mp h
        have hget' : (b.series.insert (Labels.ofEndpoint e).values (.ofEndpoint e)).get? key =
            some l := hget
        rw [Table.get?_insert] at hget'
        split at hget'
        · cases hget'
          exact Or.inr List.mem_cons_self
        · exact Or.inl (Table.mem_values_iff.mpr ⟨key, hget'⟩)
      · exact Or.inr (List.mem_cons_of_mem _ h)

/-- A new board drops nothing when it observes a cluster. -/
theorem observe_families (c : Cluster) :
    (({} : Board).observe c).families =
      Gauge.all.map fun g => Family.setAll ⟨g, ∅⟩ ((liveEndpoints c).map sample) := by
  have hstale : ((liveEndpoints c).foldl record {}).series.values.filter
      (fun l => decide (l ∉ (liveEndpoints c).map Labels.ofEndpoint)) = [] := by
    refine List.filter_eq_nil_iff.mpr fun l hl => ?_
    rcases mem_series_recordAll (liveEndpoints c) {} hl with hnone | hmem
    · cases hnone
    · simpa using hmem
  unfold observe
  dsimp only
  rw [hstale]
  show ((liveEndpoints c).foldl record {}).families = _
  rw [families_recordAll]
  exact List.map_map

theorem lines_observe (c : Cluster) (g : Gauge) :
    (({} : Board).observe c).lines g =
      (Family.setAll ⟨g, ∅⟩ ((liveEndpoints c).map sample)).lines := by
  have hgauge : ∀ g', (Family.setAll ⟨g', ∅⟩ ((liveEndpoints c).map sample)).gauge = g' :=
    fun g' => Family.gauge_setAll _ _
  unfold lines
  rw [observe_families, List.filter_map]
  have hone : Gauge.all.filter ((fun f : Family => decide (f.gauge = g)) ∘ fun g' =>
      Family.setAll ⟨g', ∅⟩ ((liveEndpoints c).map sample)) = [g] := by
    have hsame : ((fun f : Family => decide (f.gauge = g)) ∘ fun g' =>
        Family.setAll ⟨g', ∅⟩ ((liveEndpoints c).map sample)) = fun g' => decide (g' = g) := by
      funext g'
      show decide (_ = g) = _
      rw [hgauge]
    rw [hsame]
    cases g <;> rfl
  rw [hone]
  exact List.append_nil _

/-- What a new board prints of a cluster is a page for each family. -/
theorem render_observe (c : Cluster) :
    (({} : Board).observe c).render =
      String.join (Gauge.all.map fun g => Family.page g ((({} : Board).observe c).lines g)) := by
  unfold render
  rw [observe_families, List.map_map]
  congr 1
  refine List.map_congr_left fun g _ => ?_
  rw [lines_observe]
  show (Family.setAll ⟨g, ∅⟩ _).text = _
  rw [Family.text_eq_page, Family.gauge_setAll]

end Board

/-! ## The endpoints that are live -/

/-- Two lists of bindings with the same keys, bound to things that belong together. -/
theorem filterMap_eq_map_of_keys {κ α β γ : Type} {F : α → Option γ} {G : β → γ} :
    ∀ {l : List (κ × α)} {m : List (κ × β)}, l.map Prod.fst = m.map Prod.fst →
      (∀ k a b, (k, a) ∈ l → (k, b) ∈ m → F a = some (G b)) →
      l.filterMap (fun e => F e.2) = m.map (fun e => G e.2) := by
  intro l
  induction l with
  | nil =>
      intro m hkeys _
      rw [List.map_nil, eq_comm, List.map_eq_nil_iff] at hkeys
      rw [hkeys]
      rfl
  | cons x l ih =>
      intro m hkeys hpoint
      cases m with
      | nil => cases hkeys
      | cons y m =>
          obtain ⟨hfirst, hrest⟩ := List.cons.inj hkeys
          have hx : F x.2 = some (G y.2) := by
            refine hpoint x.1 x.2 y.2 List.mem_cons_self ?_
            rw [hfirst]
            exact List.mem_cons_self
          rw [List.filterMap_cons, hx, List.map_cons]
          dsimp only
          rw [ih hrest fun k a b ha hb =>
            hpoint k a b (List.mem_cons_of_mem _ ha) (List.mem_cons_of_mem _ hb)]

namespace Cluster

variable {c : Cluster}

/-- Where all agree, the live endpoints are those of the registered caches on the members, one
member after the other. -/
theorem Agrees.liveEndpoints_map (a : Agrees c none none) (l : Linked c) {α : Type}
    {F : Endpoint → α} {G : Member → CacheConfig → α}
    (hpoint : ∀ {h name i e}, h.member ∈ c.roster → c.running.get? h.member.id = some h →
      h.caches.get? name = some i → c.fabric.endpoint? i = some e → e.node = h.member.name →
      e.placement = Placement.decide e.config h.member → e.hasNear = e.placement.isPresent →
      F e = G h.member e.config) :
    (Board.liveEndpoints c).map F = c.roster.flatMap fun m => c.registry.values.map (G m) := by
  unfold Board.liveEndpoints
  rw [List.map_flatMap]
  refine List.flatMap_congr fun m hm => ?_
  obtain ⟨h, hr, rfl⟩ := l.present.mp hm
  rw [l.node_eq hm]
  dsimp only
  have hentries : c.endpointsOf h.member.id = h.caches.entries := by
    rw [endpointsOf, (running_eq_some_iff.mp hr).1]
  have hvalues : c.registry.values.map (G h.member) =
      c.registry.entries.map fun x => G h.member x.2 :=
    List.map_map
  have hkeys : h.caches.entries.map Prod.fst = c.registry.entries.map Prod.fst :=
    (a.uniform l).started hr
  rw [hentries, hvalues, List.map_filterMap]
  refine filterMap_eq_map_of_keys (F := fun i => (c.fabric.endpoint? i).map F) (G := G h.member)
    hkeys fun name i config hi hc => ?_
  rw [Table.mem_entries_iff] at hi hc
  obtain ⟨e, he, -, hnode, hreg, -, hplacement, hnear⟩ := (a.uniform l).endpoints hr hi
  obtain rfl := Option.some.inj (hc.symm.trans hreg)
  rw [he, Option.map_some]
  exact congrArg some (hpoint hm hr hi he hnode hplacement hnear)

end Cluster

end NearCache
