import Mathlib.Data.Fintype.EquivFin
import NearCache.Proofs.Cluster.Roster
import NearCache.Proofs.Numbering.Fabric

/-!
# Two clusters that differ in their numbers

Members are numbered by whoever calls the cluster, and nodes are visited in the order of their
numbers. What does not depend on the numbers is the rank of a member: how many had joined before it
(`Cluster.rank?`).

`Cluster.Renumbered c d` says that `d` is `c` with other numbers for members, endpoints and
subscriptions: who joined as the n-th in one is the same member as who joined as the n-th in the
other, with the same caches started in the same places. Each change that happens to the members of
the same rank in both leaves them so.
-/

namespace NearCache

/-- A member without its number. -/
def Member.unnumbered (m : Member) : Member := { m with id := 0 }

/-- A host without numbers: its member, where the endpoints of its caches stand, and whether it has
stopped. -/
def Host.unnumbered (f : Fabric) (h : Host) :
    Member × Table String (Option (String × Nat)) × Bool :=
  (h.member.unnumbered, h.caches.mapValues f.place?, h.stopped)

/-- The host with one cache more. -/
def Host.having (h : Host) (name : String) (i : EndpointId) : Host :=
  { h with caches := h.caches.insert name i }

/-- The number of a member does not count when a cache is placed. -/
theorem Placement.decide_unnumbered (config : CacheConfig) (m : Member) :
    decide config m.unnumbered = decide config m := by
  have htest : ∀ s : Selector, s.test m.unnumbered = s.test m := by
    intro s
    cases s <;> rfl
  unfold decide
  simp only [htest]

theorem Placement.decide_eq_of_unnumbered_eq {m m' : Member} (h : m'.unnumbered = m.unnumbered)
    (config : CacheConfig) : decide config m' = decide config m := by
  rw [← decide_unnumbered, h, decide_unnumbered]

theorem Member.name_eq_of_unnumbered_eq {m m' : Member} (h : m'.unnumbered = m.unnumbered) :
    m'.name = m.name := by
  have hname := congrArg Member.name h
  exact hname

namespace Host

variable {f g : Fabric} {h k : Host}

theorem unnumbered_eq_iff : k.unnumbered g = h.unnumbered f ↔
    k.member.unnumbered = h.member.unnumbered ∧
      k.caches.mapValues g.place? = h.caches.mapValues f.place? ∧ k.stopped = h.stopped := by
  rw [unnumbered, unnumbered, Prod.mk.injEq, Prod.mk.injEq]

end Host

theorem Host.shuts_closeAll (ids : List EndpointId) : ∀ f : Fabric,
    f.Shuts .nodeStopped (· ∈ ids) (Host.closeAll f ids) := by
  induction ids with
  | nil =>
      intro f
      exact (Fabric.Shuts.refl _ f).congr fun i => by simp
  | cons i ids ih =>
      intro f
      exact ((f.shuts_close i _).trans (ih _)).congr fun j => List.mem_cons

namespace Cluster

/-! ## Ranks -/

/-- How many had joined before the member with a number, if there ever was such a member. -/
def rank? (c : Cluster) (id : MemberId) : Option Nat :=
  (List.range c.joined).find? fun n => c.memberIds n = id

variable {c c' d e : Cluster} {a b : MemberId} {n : Nat}

theorem rank?_congr (hids : c'.memberIds = c.memberIds) (hjoined : c'.joined = c.joined)
    (id : MemberId) : c'.rank? id = c.rank? id := by
  unfold rank?
  rw [hids, hjoined]

theorem of_rank?_eq_some (h : c.rank? a = some n) : n < c.joined ∧ a = c.memberIds n := by
  have hid := List.find?_some h
  exact ⟨List.mem_range.mp (List.mem_of_find?_eq_some h), (of_decide_eq_true hid).symm⟩

theorem eq_of_rank?_eq_some (ha : c.rank? a = some n) (hb : c.rank? b = some n) : a = b :=
  (of_rank?_eq_some ha).2.trans (of_rank?_eq_some hb).2.symm

theorem rank?_memberIds (hd : Function.Injective c.memberIds) (hn : n < c.joined) :
    c.rank? (c.memberIds n) = some n := by
  cases hr : c.rank? (c.memberIds n) with
  | none =>
      have hnone := List.find?_eq_none.mp hr n (List.mem_range.mpr hn)
      simp at hnone
  | some m => rw [hd (of_rank?_eq_some hr).2]

/-- Nobody has had the number of the next member. -/
theorem rank?_next (hd : Function.Injective c.memberIds) :
    c.rank? (c.memberIds c.joined) = none := by
  cases hr : c.rank? (c.memberIds c.joined) with
  | none => rfl
  | some m =>
      obtain ⟨hm, hid⟩ := of_rank?_eq_some hr
      exact absurd (hd hid) (Nat.ne_of_gt hm)

theorem rank?_enrolling (hd : Function.Injective c.memberIds) (config : NodeConfig)
    (id : MemberId) : (c.enrolling config).rank? id =
      if id = c.memberIds c.joined then some c.joined else c.rank? id := by
  show (List.range (c.joined + 1)).find? (fun n => c.memberIds n = id) = _
  rw [List.range_succ, List.find?_append]
  show (c.rank? id).or _ = _
  split
  · next hid =>
    rw [hid, rank?_next hd]
    simp
  · next hid =>
    have hnone : [c.joined].find? (fun n => c.memberIds n = id) = none := by simp [Ne.symm hid]
    rw [hnone, Option.or_none]

/-- The member of another cluster that has the same rank. -/
def twin (c d : Cluster) (a : MemberId) : MemberId := d.memberIds ((c.rank? a).getD 0)

/-- There is always a number that nobody has. -/
theorem exists_rank?_eq_none (c : Cluster) : ∃ a, c.rank? a = none := by
  obtain ⟨a, ha⟩ := Infinite.exists_notMem_finset ((Finset.range c.joined).image c.memberIds)
  refine ⟨a, List.find?_eq_none.mpr fun n hn => ?_⟩
  rw [decide_eq_true_eq]
  rintro rfl
  exact ha (Finset.mem_image_of_mem _ (Finset.mem_range.mpr (List.mem_range.mp hn)))

namespace Linked

variable (l : c.Linked)
include l

/-- Every host has a rank. -/
theorem exists_rank? {k : Host} (hk : c.host? a = some k) : ∃ n, c.rank? a = some n := by
  obtain ⟨n, hn, rfl⟩ := l.numbered hk
  exact ⟨n, rank?_memberIds l.distinct hn⟩

theorem host?_eq_none (ha : c.rank? a = none) : c.host? a = none := by
  cases hk : c.host? a with
  | none => rfl
  | some k =>
      obtain ⟨n, hn⟩ := l.exists_rank? hk
      rw [ha] at hn
      cases hn

theorem exists_rank?_of_mem {m : Member} (hm : m ∈ c.roster) : ∃ n, c.rank? m.id = some n := by
  obtain ⟨k, hr, -⟩ := l.present.mp hm
  exact l.exists_rank? (running_eq_some_iff.mp hr).1

theorem isNone_byId?_eq (id : MemberId) :
    (c.roster.byId? id).isNone = (c.running.get? id).isNone := by
  cases hr : c.running.get? id with
  | some k => exact l.isNone_byId? hr
  | none =>
      rw [Option.isNone_none, Option.isNone_iff_eq_none, Roster.byId?, List.find?_eq_none]
      intro m hm
      rw [decide_eq_true_eq]
      rintro rfl
      obtain ⟨k, hk, -⟩ := l.present.mp hm
      rw [hr] at hk
      cases hk

/-- A host looks the same as long as its endpoints keep their places. -/
theorem unnumbered_host {k : Host} (hk : c.host? a = some k) {f : Fabric}
    (keeps : c.fabric.KeepsPlaces f) :
    k.unnumbered f = k.unnumbered c.fabric := by
  refine Host.unnumbered_eq_iff.mpr ⟨rfl, Table.mapValues_congr fun name i hi => ?_, rfl⟩
  obtain ⟨e, he, -⟩ := l.hosted hk hi
  rw [Fabric.place?_of_endpoint he, keeps _ _ (Fabric.place?_of_endpoint he)]

/-- A host with one cache more, when endpoints have started and none has moved. -/
theorem unnumbered_having {k : Host} (hk : c.host? a = some k) {f : Fabric}
    (keeps : c.fabric.KeepsPlaces f) (name : String) (i : EndpointId) :
    (k.having name i).unnumbered f =
      (k.member.unnumbered, (k.caches.mapValues c.fabric.place?).insert name (f.place? i),
        k.stopped) := by
  obtain ⟨-, hcaches, -⟩ := Host.unnumbered_eq_iff.mp (l.unnumbered_host hk keeps)
  show (_, (k.caches.insert name i).mapValues f.place?, _) = _
  rw [Table.mapValues_insert, hcaches]
  rfl

theorem having_congr {k : Host} (hk : c.host? a = some k) {f g : Fabric}
    (keeps : c.fabric.KeepsPlaces f) (keeps' : c.fabric.KeepsPlaces g) (name : String)
    {i j : EndpointId} (hij : g.place? j = f.place? i) :
    (k.having name j).unnumbered g = (k.having name i).unnumbered f := by
  rw [l.unnumbered_having hk keeps, l.unnumbered_having hk keeps', hij]

end Linked

/-! ## Clusters -/

/-- What a cluster knows of a member, whatever the numbers. -/
def entry (c : Cluster) (m : Member) : Option Nat × Member := (c.rank? m.id, m.unnumbered)

theorem entry_congr (hids : c'.memberIds = c.memberIds) (hjoined : c'.joined = c.joined) :
    c'.entry = c.entry := by
  funext m
  exact congrArg (·, m.unnumbered) (rank?_congr hids hjoined m.id)

/-- Whoever joins has the next rank, and nobody who was there before gets another one. -/
theorem Linked.entries_enrolling (l : c.Linked) (n : NodeConfig) :
    (c.enrolling n).roster.map (c.enrolling n).entry =
      c.roster.map c.entry ++
        [(some c.joined, Member.enrolled 0 n.name n.role n.attributes)] := by
  have hthere : c.roster.map (c.enrolling n).entry = c.roster.map c.entry := by
    refine List.map_congr_left fun m hm => congrArg (·, m.unnumbered) ?_
    obtain ⟨m', hm'⟩ := l.exists_rank?_of_mem hm
    rw [rank?_enrolling l.distinct, if_neg]
    intro hid
    rw [hid, rank?_next l.distinct] at hm'
    cases hm'
  show (c.roster ++ [_]).map _ = _
  rw [List.map_append, hthere]
  exact congrArg (fun r => c.roster.map c.entry ++ [(r, _)])
    ((rank?_enrolling l.distinct n _).trans (if_pos rfl))

/-- The member of a rank leaves. -/
theorem entries_leave (ha : c.rank? a = some n) : (c.roster.leave a).2.map c.entry =
    (c.roster.map c.entry).eraseP (·.1 = some n) := by
  have hsame : (fun m : Member => decide (m.id = a)) =
      fun m => decide (c.rank? m.id = some n) :=
    funext fun m => decide_eq_decide.mpr
      ⟨fun hm => hm ▸ ha, fun hm => eq_of_rank?_eq_some hm ha⟩
  rw [List.eraseP_map]
  show (c.roster.eraseP fun m => decide (m.id = a)).map c.entry = _
  rw [hsame]
  rfl

/-- The clusters differ only in the numbers of members, endpoints and subscriptions. -/
structure Renumbered (c d : Cluster) : Prop where
  fabric : c.fabric.Renumbered d.fabric
  registry : d.registry = c.registry
  joined : d.joined = c.joined
  roster : d.roster.map d.entry = c.roster.map c.entry
  /-- Members of the same rank have the same host. -/
  hosts : ∀ {a b}, d.rank? b = c.rank? a →
    (d.host? b).map (Host.unnumbered d.fabric) = (c.host? a).map (Host.unnumbered c.fabric)

namespace Renumbered

/-- Clusters with the same numbers for their members are compared member by member. -/
theorem of_same_ids (l : c.Linked) (l' : d.Linked) (hids : d.memberIds = c.memberIds)
    (hjoined : d.joined = c.joined) (fabric : c.fabric.Renumbered d.fabric)
    (registry : d.registry = c.registry) (roster : d.roster = c.roster)
    (hosts : ∀ a, (d.host? a).map (Host.unnumbered d.fabric) =
      (c.host? a).map (Host.unnumbered c.fabric)) : Renumbered c d where
  fabric := fabric
  registry := registry
  joined := hjoined
  roster := by rw [entry_congr hids hjoined, roster]
  hosts {a b} hab := by
    cases ha : c.rank? a with
    | none =>
        rw [ha] at hab
        rw [l.host?_eq_none ha, l'.host?_eq_none hab]
        rfl
    | some n =>
        rw [rank?_congr hids hjoined, ha] at hab
        rw [eq_of_rank?_eq_some hab ha, hosts]

theorem refl (l : c.Linked) : Renumbered c c :=
  of_same_ids l l rfl rfl (.refl _) rfl rfl fun _ => rfl

theorem symm (h : Renumbered c d) : Renumbered d c where
  fabric := h.fabric.symm
  registry := h.registry.symm
  joined := h.joined.symm
  roster := h.roster.symm
  hosts hab := (h.hosts hab.symm).symm

theorem rank?_twin (h : Renumbered c d) (hd : Function.Injective d.memberIds)
    (ha : c.rank? a = some n) : d.rank? (c.twin d a) = some n := by
  unfold twin
  rw [ha]
  exact rank?_memberIds hd (h.joined ▸ (of_rank?_eq_some ha).1)

/-- Whoever is asked for in one cluster can be asked for in the other. -/
theorem exists_rank?_eq (h : Renumbered c d) (hd : Function.Injective d.memberIds)
    (a : MemberId) : ∃ b, d.rank? b = c.rank? a := by
  cases ha : c.rank? a with
  | none => exact d.exists_rank?_eq_none
  | some n => exact ⟨c.twin d a, h.rank?_twin hd ha⟩

theorem trans (h : Renumbered c d) (h' : Renumbered d e) (hd : Function.Injective d.memberIds) :
    Renumbered c e where
  fabric := h.fabric.trans h'.fabric
  registry := h'.registry.trans h.registry
  joined := h'.joined.trans h.joined
  roster := h'.roster.trans h.roster
  hosts {a b} hab := by
    obtain ⟨x, hx⟩ := h.exists_rank?_eq hd a
    exact (h'.hosts (hab.trans hx.symm)).trans (h.hosts hx)

/-! ## What can be seen -/

/-- Both members have a host, or neither has. -/
theorem host_cases (h : Renumbered c d) (hab : d.rank? b = c.rank? a) :
    (c.host? a = none ∧ d.host? b = none) ∨
      ∃ k k', c.host? a = some k ∧ d.host? b = some k' ∧
        k'.unnumbered d.fabric = k.unnumbered c.fabric := by
  rcases map_eq_map_cases (h.hosts hab) with ⟨hb, ha⟩ | ⟨k', k, hb, ha, hsame⟩
  · exact Or.inl ⟨ha, hb⟩
  · exact Or.inr ⟨k, k', ha, hb, hsame⟩

theorem running_cases (h : Renumbered c d) (hab : d.rank? b = c.rank? a) :
    (c.running.get? a = none ∧ d.running.get? b = none) ∨
      ∃ k k', c.running.get? a = some k ∧ d.running.get? b = some k' ∧
        k'.unnumbered d.fabric = k.unnumbered c.fabric := by
  have hrunning : ∀ (c : Cluster) id,
      c.running.get? id = (c.host? id).filter fun k => !k.stopped := by
    intro c id
    exact Table.get?_filter c.hosts (fun _ k => !k.stopped) id
  rw [hrunning, hrunning]
  rcases h.host_cases hab with ⟨ha, hb⟩ | ⟨k, k', ha, hb, hsame⟩
  · rw [ha, hb]
    exact Or.inl ⟨rfl, rfl⟩
  · obtain ⟨-, -, hstopped⟩ := Host.unnumbered_eq_iff.mp hsame
    rw [ha, hb]
    cases hs : k.stopped with
    | true => exact Or.inl ⟨by simp [hs], by simp [hstopped, hs]⟩
    | false => exact Or.inr ⟨k, k', by simp [hs], by simp [hstopped, hs], hsame⟩

/-- Who is met in one cluster is met in the other. -/
theorem eq_iff_eq {x y : MemberId} (ha : c.rank? a = some n) (hab : d.rank? b = c.rank? a)
    (hxy : d.rank? y = c.rank? x) : x = a ↔ y = b := by
  constructor
  · rintro rfl
    exact eq_of_rank?_eq_some (hxy.trans ha) (hab.trans ha)
  · rintro rfl
    exact eq_of_rank?_eq_some (hxy.symm.trans (hab.trans ha)) ha

/-- A cache has started on both members, in the same place, or on neither. -/
theorem cache_cases {k k' : Host} {f g : Fabric} (hsame : k'.unnumbered g = k.unnumbered f)
    (name : String) :
    (k.caches.get? name = none ∧ k'.caches.get? name = none) ∨
      ∃ i j, k.caches.get? name = some i ∧ k'.caches.get? name = some j ∧
        g.place? j = f.place? i := by
  obtain ⟨-, hcaches, -⟩ := Host.unnumbered_eq_iff.mp hsame
  have hget := congrArg (fun t => t.get? name) hcaches
  simp only [Table.get?_mapValues] at hget
  rcases map_eq_map_cases hget with ⟨hj, hi⟩ | ⟨j, i, hj, hi, hplace⟩
  · exact Or.inl ⟨hi, hj⟩
  · exact Or.inr ⟨i, j, hi, hj, hplace⟩

theorem isNone_byId? (h : Renumbered c d) (l : c.Linked) (l' : d.Linked)
    (hab : d.rank? b = c.rank? a) :
    (d.roster.byId? b).isNone = (c.roster.byId? a).isNone := by
  rw [l.isNone_byId?_eq, l'.isNone_byId?_eq]
  rcases h.running_cases hab with ⟨ha, hb⟩ | ⟨k, k', ha, hb, -⟩
  · rw [ha, hb]
  · rw [ha, hb]
    rfl

theorem any_name (h : Renumbered c d) (name : String) :
    d.roster.any (·.name = name) = c.roster.any (·.name = name) := by
  have hany : ∀ c : Cluster, c.roster.any (·.name = name) =
      (c.roster.map c.entry).any (·.2.name = name) := by
    intro c
    rw [List.any_map]
    rfl
  rw [hany, hany, h.roster]

/-- A name finds members of the same rank, or nobody. -/
theorem node_cases (h : Renumbered c d) (l : c.Linked) (l' : d.Linked) (name : String) :
    (c.node name = .error (.nodeNotFound (.name name)) ∧
        d.node name = .error (.nodeNotFound (.name name))) ∨
      ∃ a b n, c.node name = .ok a ∧ d.node name = .ok b ∧ c.rank? a = some n ∧
        d.rank? b = some n := by
  have hfind : ∀ c : Cluster, (c.roster.byName? name).map c.entry =
      (c.roster.map c.entry).find? (·.2.name = name) := by
    intro c
    rw [List.find?_map]
    rfl
  have hsame : (d.roster.byName? name).map d.entry = (c.roster.byName? name).map c.entry := by
    rw [hfind, hfind, h.roster]
  rcases map_eq_map_cases hsame with ⟨hb, ha⟩ | ⟨m', m, hb, ha, hentry⟩
  · left
    unfold Cluster.node
    rw [ha, hb]
    exact ⟨rfl, rfl⟩
  · right
    have hmem := List.mem_of_find?_eq_some ha
    have hmem' := List.mem_of_find?_eq_some hb
    have hname : m.name = name := by simpa using List.find?_some ha
    have hname' : m'.name = name := by simpa using List.find?_some hb
    obtain ⟨n, hn⟩ := l.exists_rank?_of_mem hmem
    have hrank : d.rank? m'.id = c.rank? m.id := congrArg Prod.fst hentry
    refine ⟨m.id, m'.id, n, ?_, ?_, hn, hrank.trans hn⟩
    · rw [← hname, l.node_eq hmem]
    · rw [← hname', l'.node_eq hmem']

/-! ## Changes -/

theorem withRegistry (h : Renumbered c d) (registry : Table String CacheConfig) :
    Renumbered { c with registry } { d with registry } :=
  ⟨h.fabric, rfl, h.joined, h.roster, h.hosts⟩

theorem withPublisher (h : Renumbered c d) (p q : Fanout) :
    Renumbered { c with publisher := p } { d with publisher := q } :=
  ⟨h.fabric, h.registry, h.joined, h.roster, h.hosts⟩

/-- A change of the fabrics in which every endpoint keeps its place. -/
theorem withFabric (h : Renumbered c d) (l : c.Linked) (l' : d.Linked) {f g : Fabric}
    (hfg : f.Renumbered g) (keeps : c.fabric.KeepsPlaces f) (keeps' : d.fabric.KeepsPlaces g) :
    Renumbered { c with fabric := f } { d with fabric := g } := by
  refine ⟨hfg, h.registry, h.joined, h.roster, fun {a b} hab => ?_⟩
  show (d.host? b).map (Host.unnumbered g) = (c.host? a).map (Host.unnumbered f)
  rcases h.host_cases hab with ⟨ha, hb⟩ | ⟨k, k', ha, hb, hsame⟩
  · rw [ha, hb]
    rfl
  · rw [ha, hb, Option.map_some, Option.map_some, l.unnumbered_host ha keeps,
      l'.unnumbered_host hb keeps', hsame]

/-- Members of the same rank change. -/
theorem setHost (h : Renumbered c d) (l : c.Linked) (l' : d.Linked)
    (ha : c.rank? a = some n) (hab : d.rank? b = c.rank? a) {f g : Fabric}
    (hfg : f.Renumbered g) (keeps : c.fabric.KeepsPlaces f) (keeps' : d.fabric.KeepsPlaces g)
    {k k' : Host} (hsame : k'.unnumbered g = k.unnumbered f) :
    Renumbered (c.setHost a k f) (d.setHost b k' g) := by
  have hothers := h.withFabric l l' hfg keeps keeps'
  refine ⟨hfg, h.registry, h.joined, h.roster, fun {x y} hxy => ?_⟩
  -- `x` is the one that changes if and only if `y` is
  have heq := eq_iff_eq ha hab hxy
  rw [host?_setHost, host?_setHost]
  by_cases hx : x = a
  · rw [if_pos hx, if_pos (heq.mp hx)]
    exact congrArg some hsame
  · rw [if_neg hx, if_neg fun hy => hx (heq.mpr hy)]
    exact hothers.hosts hxy

theorem starting (h : Renumbered c d) (l : c.Linked) (l' : d.Linked)
    (hab : d.rank? b = c.rank? a) {k k' : Host} (ha : c.host? a = some k)
    (hb : d.host? b = some k') (hsame : k'.unnumbered d.fabric = k.unnumbered c.fabric)
    (config : CacheConfig) : Renumbered (c.starting a k config) (d.starting b k' config) := by
  obtain ⟨hmember, hcaches, hstopped⟩ := Host.unnumbered_eq_iff.mp hsame
  obtain ⟨n, hn⟩ := l.exists_rank? ha
  have hname := Member.name_eq_of_unnumbered_eq hmember
  have hplacement := Placement.decide_eq_of_unnumbered_eq hmember config
  unfold Cluster.starting
  rw [hname, hplacement]
  have keeps := l.wired.keepsPlaces_start k.member.name config (Placement.decide config k.member)
  have keeps' := l'.wired.keepsPlaces_start k.member.name config (Placement.decide config k.member)
  refine h.setHost l l' hn hab (h.fabric.start l.wired l'.wired _ _ _) keeps keeps' ?_
  have hhaving := l.unnumbered_having ha keeps config.name c.fabric.started
  have hhaving' := l'.unnumbered_having hb keeps' config.name d.fabric.started
  rw [l.wired.place?_started] at hhaving
  rw [l'.wired.place?_started, h.fabric.lineup, hmember, hcaches, hstopped] at hhaving'
  exact hhaving'.trans hhaving.symm

theorem stopping (h : Renumbered c d) (l : c.Linked) (l' : d.Linked)
    (hab : d.rank? b = c.rank? a) {k k' : Host} (ha : c.host? a = some k)
    (hsame : k'.unnumbered d.fabric = k.unnumbered c.fabric) :
    Renumbered (c.stopping a k) (d.stopping b k') := by
  obtain ⟨hmember, hcaches, -⟩ := Host.unnumbered_eq_iff.mp hsame
  obtain ⟨n, hn⟩ := l.exists_rank? ha
  have hshut := Host.shuts_closeAll k.caches.values c.fabric
  have hshut' := Host.shuts_closeAll k'.caches.values d.fabric
  have hvalues := congrArg Table.values hcaches
  simp only [Table.values_mapValues] at hvalues
  have hfabric := h.fabric.shuts hshut hshut' fun {i j} hij hi => by
    obtain ⟨e, he⟩ := Option.ne_none_iff_exists'.mp hi
    have hplace := Fabric.place?_of_endpoint he
    rw [← Fabric.some_mem_map_place?_iff hplace, ← hvalues,
      Fabric.some_mem_map_place?_iff (hij.trans hplace)]
  have hstopped : ∀ f g : Fabric,
      Host.unnumbered g { k' with caches := ∅, stopped := true } =
        Host.unnumbered f { k with caches := ∅, stopped := true } :=
    fun _ _ => Host.unnumbered_eq_iff.mpr ⟨hmember, rfl, rfl⟩
  have hset := h.setHost l l' hn hab hfabric hshut.keepsPlaces hshut'.keepsPlaces (hstopped _ _)
  refine ⟨hfabric, h.registry, h.joined, ?_, hset.hosts⟩
  show (d.roster.leave b).2.map d.entry = (c.roster.leave a).2.map c.entry
  rw [entries_leave hn, entries_leave (hab.trans hn), h.roster]

/-- The next node enrols in both. -/
theorem enrolling (h : Renumbered c d) (l : c.Linked) (l' : d.Linked) (n : NodeConfig) :
    Renumbered (c.enrolling n) (d.enrolling n) where
  fabric := h.fabric
  registry := h.registry
  joined := congrArg (· + 1) h.joined
  roster := by
    rw [l.entries_enrolling, l'.entries_enrolling, h.roster, h.joined]
  hosts {x y} hxy := by
    have hnext : ∀ {c : Cluster}, c.Linked → (c.enrolling n).rank?
        (c.memberIds c.joined) = some c.joined := fun l =>
      (rank?_enrolling l.distinct n _).trans (if_pos rfl)
    have hhost : ∀ (c : Cluster) id, (c.enrolling n).host? id =
        if id = c.memberIds c.joined then
          some { member := .enrolled (c.memberIds c.joined) n.name n.role n.attributes }
        else c.host? id := fun c id => Table.get?_insert c.hosts _ id _
    have heq := eq_iff_eq (hnext l) ((hnext l').trans (h.joined ▸ (hnext l).symm)) hxy
    rw [hhost, hhost]
    by_cases hx : x = c.memberIds c.joined
    · rw [if_pos hx, if_pos (heq.mp hx)]
      rfl
    · have hy : y ≠ d.memberIds d.joined := fun hy => hx (heq.mpr hy)
      rw [if_neg hx, if_neg hy]
      rw [rank?_enrolling l.distinct, rank?_enrolling l'.distinct, if_neg hx, if_neg hy] at hxy
      exact h.hosts hxy

end Renumbered

/-! ## A cache is taken from everybody -/

theorem Step.memberIds (hs : Step c c') : c'.memberIds = c.memberIds := by
  cases hs <;> rfl

theorem Steps.memberIds (hs : Steps c c') : c'.memberIds = c.memberIds := by
  induction hs with
  | refl => rfl
  | tail _ hlast ih => exact hlast.memberIds.trans ih

/-- No change moves an endpoint. -/
theorem Step.keepsPlaces (hs : Step c c') (l : c.Linked) : c.fabric.KeepsPlaces c'.fabric := by
  cases hs with
  | enrol | register | unregister | drop | publish => exact .of_eq fun _ => rfl
  | start => exact l.wired.keepsPlaces_start _ _ _
  | close => exact (Fabric.shuts_close _ _ _).keepsPlaces
  | stop => exact (Host.shuts_closeAll _ _).keepsPlaces

theorem Steps.keepsPlaces (hs : Steps c c') (l : c.Linked) : c.fabric.KeepsPlaces c'.fabric := by
  induction hs with
  | refl => exact .of_eq fun _ => rfl
  | tail hfirst hlast ih => exact ih.trans (hlast.keepsPlaces (l.steps hfirst))

/-- The endpoint of a cache on a node from which it is taken, if it is there, is asked to close. -/
theorem shuts_deactivateOn (c : Cluster) (a : MemberId) (name : String) :
    c.fabric.Shuts .cacheDestroyed
      (fun i => ∃ k, c.host? a = some k ∧ k.caches.get? name = some i)
      (c.deactivateOn a name).fabric := by
  by_cases hn : ∃ k i, c.host? a = some k ∧ k.caches.get? name = some i
  · obtain ⟨k, i, hk, hi⟩ := hn
    rw [deactivateOn_eq_closing hk hi]
    refine (c.fabric.shuts_close i _).congr fun j => ?_
    simp [hk, hi, eq_comm]
  · rw [deactivateOn_eq_self]
    · refine (Fabric.Shuts.refl _ _).congr fun j => iff_of_false ?_ id
      rintro ⟨k, hk, hi⟩
      exact hn ⟨k, j, hk, hi⟩
    · intro k hk
      cases hi : k.caches.get? name with
      | none => rfl
      | some i => exact absurd ⟨k, i, hk, hi⟩ hn

/-- The endpoints of a cache on nodes from which it is taken are asked to close. -/
theorem shuts_deactivateEach (name : String) (ids : List MemberId) : ∀ c : Cluster,
    c.fabric.Shuts .cacheDestroyed
      (fun i => ∃ a ∈ ids, ∃ k, c.host? a = some k ∧ k.caches.get? name = some i)
      (c.deactivateEach name ids).fabric := by
  induction ids with
  | nil => intro c; exact (Fabric.Shuts.refl _ _).congr fun i => by simp
  | cons a ids ih =>
      intro c
      have hrest := ih (c.deactivateOn a name)
      have hhost : ∀ {x i}, (∃ k, (c.deactivateOn a name).host? x = some k ∧
          k.caches.get? name = some i) ↔
            x ≠ a ∧ ∃ k, c.host? x = some k ∧ k.caches.get? name = some i := by
        intro x i
        rw [host?_deactivateOn]
        by_cases hx : x = a
        · rw [if_pos hx]
          refine iff_of_false ?_ fun h => h.1 hx
          rintro ⟨k, hk, hi⟩
          obtain ⟨k₀, -, rfl⟩ := Option.map_eq_some_iff.mp hk
          simp [Table.get?_erase] at hi
        · rw [if_neg hx]
          exact ⟨fun h => ⟨hx, h⟩, fun h => h.2⟩
      refine ((c.shuts_deactivateOn a name).trans hrest).congr fun i => ?_
      simp only [hhost, List.mem_cons]
      constructor
      · rintro ⟨x, hx, hk⟩
        by_cases hxa : x = a
        · exact Or.inl (hxa ▸ hk)
        · exact Or.inr ⟨x, hx.resolve_left hxa, hxa, hk⟩
      · rintro (hk | ⟨x, hx, -, hk⟩)
        · exact ⟨a, Or.inl rfl, hk⟩
        · exact ⟨x, Or.inr hx, hk⟩

/-- Whoever has a cache runs, so a cache that is taken from all who run is nowhere any more. -/
theorem Linked.host?_deactivateEach (l : c.Linked) (name : String) (a : MemberId) :
    (c.deactivateEach name c.running.keys).host? a =
      (c.host? a).map fun k => { k with caches := k.caches.erase name } := by
  rw [Cluster.host?_deactivateEach]
  split
  · rfl
  · next hmem =>
    cases hk : c.host? a with
    | none => rfl
    | some k =>
        have hnone : k.caches.get? name = none := by
          cases hi : k.caches.get? name with
          | none => rfl
          | some i => exact absurd (Table.mem_keys_iff.mpr ⟨k, l.runs hk hi⟩) hmem
        rw [Option.map_some, Table.erase_eq_self hnone]

/-- An endpoint of a cache on a running node stands where one of the cache stands on the node of the
same rank. -/
theorem Renumbered.exists_running (h : Renumbered c d) (l : c.Linked) (l' : d.Linked)
    {name : String} {i j : EndpointId} (hij : d.fabric.place? j = c.fabric.place? i)
    (hi : ∃ a ∈ c.running.keys, ∃ k, c.host? a = some k ∧ k.caches.get? name = some i) :
    ∃ b ∈ d.running.keys, ∃ k, d.host? b = some k ∧ k.caches.get? name = some j := by
  obtain ⟨a, -, k, hk, hi⟩ := hi
  obtain ⟨e, he, -⟩ := l.hosted hk hi
  obtain ⟨b, hab⟩ := h.exists_rank?_eq l'.distinct a
  rcases h.host_cases hab with ⟨hnone, -⟩ | ⟨k₀, k', hk₀, hk', hsame⟩
  · rw [hk] at hnone
    cases hnone
  · rw [hk] at hk₀
    cases hk₀
    rcases cache_cases hsame name with ⟨hnone, -⟩ | ⟨i₀, j₀, hi₀, hj₀, hplace⟩
    · rw [hi] at hnone
      cases hnone
    · rw [hi] at hi₀
      cases hi₀
      have hp := Fabric.place?_of_endpoint he
      have hj : j = j₀ := Fabric.eq_of_place?_eq_some (hij.trans hp) (hplace.trans hp)
      exact ⟨b, Table.mem_keys_iff.mpr ⟨k', l'.runs hk' hj₀⟩, k', hk', hj ▸ hj₀⟩

theorem Renumbered.deactivateEach (h : Renumbered c d) (l : c.Linked) (l' : d.Linked)
    (name : String) : Renumbered (c.deactivateEach name c.running.keys)
      (d.deactivateEach name d.running.keys) := by
  have hshut := shuts_deactivateEach name c.running.keys c
  have hshut' := shuts_deactivateEach name d.running.keys d
  have hids := (steps_deactivateEach name c.running.keys c).memberIds
  have hids' := (steps_deactivateEach name d.running.keys d).memberIds
  have hstaff := staff_deactivateEach name c.running.keys c
  have hstaff' := staff_deactivateEach name d.running.keys d
  have hjoined := congrArg Prod.snd hstaff
  have hjoined' := congrArg Prod.snd hstaff'
  refine ⟨?_, ?_, hjoined'.trans (h.joined.trans hjoined.symm), ?_, fun {a b} hab => ?_⟩
  · exact h.fabric.shuts hshut hshut' fun hij _ =>
      ⟨h.exists_running l l' hij, h.symm.exists_running l' l hij.symm⟩
  · rw [registry_deactivateEach, registry_deactivateEach, h.registry]
  · have hroster := congrArg Prod.fst hstaff
    have hroster' := congrArg Prod.fst hstaff'
    simp only [staff] at hroster hroster'
    rw [entry_congr hids hjoined, entry_congr hids' hjoined', hroster, hroster', h.roster]
  · rw [rank?_congr hids hjoined, rank?_congr hids' hjoined'] at hab
    rw [l.host?_deactivateEach, l'.host?_deactivateEach]
    rcases h.host_cases hab with ⟨ha, hb⟩ | ⟨k, k', ha, hb, hsame⟩
    · rw [ha, hb]
      rfl
    · obtain ⟨hmember, hcaches, hstopped⟩ := Host.unnumbered_eq_iff.mp hsame
      rw [ha, hb]
      refine congrArg some (Host.unnumbered_eq_iff.mpr ⟨hmember, ?_, hstopped⟩)
      rw [Table.mapValues_erase, Table.mapValues_erase, funext hshut.place?, funext hshut'.place?,
        hcaches]

/-! ## Either of two nodes comes first -/

theorem host?_starting_starting (c : Cluster) (a b : MemberId) (k k' : Host) (config : CacheConfig)
    (x : MemberId) : ((c.starting a k config).starting b k' config).host? x =
      if x = b then some (k'.having config.name (c.fabric.started + 1))
      else if x = a then some (k.having config.name c.fabric.started)
      else c.host? x := by
  unfold Cluster.starting
  rw [host?_setHost, host?_setHost]
  show (if x = b then some (k'.having config.name
    (c.fabric.start k.member.name config _).2.started) else _) = _
  rw [Fabric.started_start]
  rfl

theorem Linked.starting_starting (l : c.Linked) {k k' : Host} (ha : c.running.get? a = some k)
    (hb : c.running.get? b = some k') (hab : a ≠ b) {config : CacheConfig}
    (hnew : k.caches.get? config.name = none) (hnew' : k'.caches.get? config.name = none) :
    Linked ((c.starting a k config).starting b k' config) := by
  refine (l.starting ha hnew).starting ?_ hnew'
  rw [running_starting ha, if_neg hab.symm, hb]

/-- A cache that starts on two nodes may start on either of them first. -/
theorem Linked.renumbered_swap (l : c.Linked) {k k' : Host} (ha : c.running.get? a = some k)
    (hb : c.running.get? b = some k') (hab : a ≠ b) {config : CacheConfig}
    (hnew : k.caches.get? config.name = none) (hnew' : k'.caches.get? config.name = none) :
    Renumbered ((c.starting a k config).starting b k' config)
      ((c.starting b k' config).starting a k config) := by
  have hname : k.member.name ≠ k'.member.name := fun h => hab ((l.name_eq_iff hb ha).mp h)
  obtain ⟨hplace, hplace'⟩ := l.wired.place?_either hname config config
    (Placement.decide config k.member) (Placement.decide config k'.member)
  obtain ⟨hother', hother⟩ := l.wired.place?_either hname.symm config config
    (Placement.decide config k'.member) (Placement.decide config k.member)
  have keeps := l.wired.keepsPlaces_start_start k.member.name k'.member.name config config
    (Placement.decide config k.member) (Placement.decide config k'.member)
  have keeps' := l.wired.keepsPlaces_start_start k'.member.name k.member.name config config
    (Placement.decide config k'.member) (Placement.decide config k.member)
  have hka := (running_eq_some_iff.mp ha).1
  have hkb := (running_eq_some_iff.mp hb).1
  refine .of_same_ids (l.starting_starting ha hb hab hnew hnew')
    (l.starting_starting hb ha hab.symm hnew' hnew) rfl rfl
    (l.wired.renumbered_swap hname config config _ _) rfl rfl fun x => ?_
  rw [host?_starting_starting, host?_starting_starting]
  by_cases hxa : x = a
  · rw [if_pos hxa, if_neg fun hxb => hab (hxa.symm.trans hxb), if_pos hxa]
    exact congrArg some (l.having_congr hka keeps keeps' config.name (hplace'.trans hplace.symm))
  by_cases hxb : x = b
  · rw [if_neg hxa, if_pos hxb, if_pos hxb]
    exact congrArg some (l.having_congr hkb keeps keeps' config.name (hother'.trans hother.symm))
  · rw [if_neg hxa, if_neg hxb, if_neg hxb, if_neg hxa]
    cases hx : c.host? x with
    | none => rfl
    | some h =>
        exact congrArg some ((l.unnumbered_host hx keeps').trans (l.unnumbered_host hx keeps).symm)

end Cluster

end NearCache
