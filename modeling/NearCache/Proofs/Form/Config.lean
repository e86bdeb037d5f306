import NearCache.Proofs.Form.Selector

/-!
# Configurations keep their meaning in JSON

Near-cache settings, caches, nodes and deployments are told by what fills the slots of their shapes;
the slots with a default may be left out where the default is meant.

`Faithful a`: the compact JSON text of `a`, and every text that tells `a`, is read as `a`.
-/

namespace NearCache

open Document
open Document.Tree (named)

/-! ## Slots -/

namespace NearConfig

/-- The slots of near-cache settings. -/
def slots (c : NearConfig) : List Slot :=
  [.of "enabled" c.enabled (c.enabled = true), .ofOption "node_filter" c.selector]

/-- What is known of near-cache settings once the fields with some names were taken in. -/
def known (c : NearConfig) (seen : List String) : Parts where
  enabled := heard "enabled" seen c.enabled
  selector := heard "node_filter" seen c.selector

theorem follows (c : NearConfig) : shape.Follows c.slots c.known c where
  fields := rfl
  blank := rfl
  take slot hslot o v seen htells := by
    simp only [slots, List.mem_cons, List.not_mem_nil, or_false] at hslot
    rcases hslot with rfl | rfl
    · exact take_of_read (Telling.read_eq htells o) (by simp [known, heard_cons_of_ne])
    · exact take_of_read (readOptionOf_of_tells htells) (by simp [known, heard_cons_of_ne])
  finish seen h := by
    simp only [slots, List.forall_mem_cons, Slot.name_of, Slot.optional_of,
      Slot.name_ofOption, Slot.optional_ofOption] at h
    obtain ⟨henabled, hselector, -⟩ := h
    show Except.ok (NearConfig.mk ((heard "enabled" seen c.enabled).getD true)
      ((heard "node_filter" seen c.selector).getD none)) = _
    rw [getD_heard henabled, getD_heard hselector]

instance : Telling NearConfig :=
  .ofSlots shape slots known follows (by decide) (fun _ _ => rfl) fun _ => rfl

end NearConfig

namespace CacheConfig

/-- The slots of a cache. -/
def slots (c : CacheConfig) : List Slot :=
  [.of "name" c.name False, .of "mode" c.layout (c.layout = .partitioned),
   .of "backups" c.backups (c.backups = 0), .ofOption "platform_cache" c.near]

/-- What is known of a cache once the fields with some names were taken in. -/
def known (c : CacheConfig) (seen : List String) : Parts where
  name := heard "name" seen c.name
  layout := heard "mode" seen c.layout
  backups := heard "backups" seen c.backups
  near := heard "platform_cache" seen c.near

theorem follows (c : CacheConfig) : shape.Follows c.slots c.known c where
  fields := rfl
  blank := rfl
  take slot hslot o v seen htells := by
    simp only [slots, List.mem_cons, List.not_mem_nil, or_false] at hslot
    rcases hslot with rfl | rfl | rfl | rfl
    · exact take_of_read (Telling.read_eq htells o) (by simp [known, heard_cons_of_ne])
    · exact take_of_read (Telling.read_eq htells o) (by simp [known, heard_cons_of_ne])
    · exact take_of_read (Telling.read_eq htells o) (by simp [known, heard_cons_of_ne])
    · exact take_of_read (readOptionOf_of_tells htells) (by simp [known, heard_cons_of_ne])
  finish seen h := by
    simp only [slots, List.forall_mem_cons, Slot.name_of, Slot.optional_of,
      Slot.name_ofOption, Slot.optional_ofOption] at h
    obtain ⟨hname, hlayout, hbackups, hnear, -⟩ := h
    show (do
      let name ← need "name" (heard "name" seen c.name)
      return CacheConfig.mk name ((heard "mode" seen c.layout).getD .partitioned)
        ((heard "backups" seen c.backups).getD 0)
        ((heard "platform_cache" seen c.near).getD none)) = _
    rw [need_heard hname, getD_heard hlayout, getD_heard hbackups, getD_heard hnear]
    rfl

instance : Telling CacheConfig :=
  .ofSlots shape slots known follows (by decide) (fun _ _ => rfl) fun _ => rfl

end CacheConfig

namespace NodeConfig

/-- The slots of a node. -/
def slots (n : NodeConfig) : List Slot :=
  [.of "instance_name" n.name False, .of "client_mode" n.client (n.client = false),
   .of "user_attributes" n.attributes (n.attributes = ∅),
   .ofList "caches" n.caches (n.caches = [])]

/-- What is known of a node once the fields with some names were taken in. -/
def known (n : NodeConfig) (seen : List String) : Parts where
  name := heard "instance_name" seen n.name
  client := heard "client_mode" seen n.client
  attributes := heard "user_attributes" seen n.attributes
  caches := heard "caches" seen n.caches

theorem follows (n : NodeConfig) : shape.Follows n.slots n.known n where
  fields := rfl
  blank := rfl
  take slot hslot o v seen htells := by
    simp only [slots, List.mem_cons, List.not_mem_nil, or_false] at hslot
    rcases hslot with rfl | rfl | rfl | rfl
    · exact take_of_read (Telling.read_eq htells o) (by simp [known, heard_cons_of_ne])
    · exact take_of_read (Telling.read_eq htells o) (by simp [known, heard_cons_of_ne])
    · exact take_of_read (Telling.read_eq htells o) (by simp [known, heard_cons_of_ne])
    · exact take_of_read (readListOf_of_tells htells) (by simp [known, heard_cons_of_ne])
  finish seen h := by
    simp only [slots, List.forall_mem_cons, Slot.name_of, Slot.optional_of,
      Slot.name_ofList, Slot.optional_ofList] at h
    obtain ⟨hname, hclient, hattributes, hcaches, -⟩ := h
    show (do
      let name ← need "instance_name" (heard "instance_name" seen n.name)
      return NodeConfig.mk name ((heard "client_mode" seen n.client).getD false)
        ((heard "user_attributes" seen n.attributes).getD ∅)
        ((heard "caches" seen n.caches).getD [])) = _
    rw [need_heard hname, getD_heard hclient, getD_heard hattributes, getD_heard hcaches]
    rfl

instance : Telling NodeConfig :=
  .ofSlots shape slots known follows (by decide) (fun _ _ => rfl) fun _ => rfl

end NodeConfig

namespace LateCache

/-- The slots of a late cache. -/
def slots (l : LateCache) : List Slot :=
  [.of "created_by" l.creator False, .of "cache" l.cache False]

/-- What is known of a late cache once the fields with some names were taken in. -/
def known (l : LateCache) (seen : List String) : Parts where
  creator := heard "created_by" seen l.creator
  cache := heard "cache" seen l.cache

theorem follows (l : LateCache) : shape.Follows l.slots l.known l where
  fields := rfl
  blank := rfl
  take slot hslot o v seen htells := by
    simp only [slots, List.mem_cons, List.not_mem_nil, or_false] at hslot
    rcases hslot with rfl | rfl
    · exact take_of_read (Telling.read_eq htells o) (by simp [known, heard_cons_of_ne])
    · exact take_of_read (Telling.read_eq htells o) (by simp [known, heard_cons_of_ne])
  finish seen h := by
    simp only [slots, List.forall_mem_cons, Slot.name_of, Slot.optional_of] at h
    obtain ⟨hcreator, hcache, -⟩ := h
    show (do
      let creator ← need "created_by" (heard "created_by" seen l.creator)
      let cache ← need "cache" (heard "cache" seen l.cache)
      return LateCache.mk creator cache) = _
    rw [need_heard hcreator, need_heard hcache]
    rfl

instance : Telling LateCache :=
  .ofSlots shape slots known follows (by decide) (fun _ _ => rfl) fun _ => rfl

end LateCache

namespace Deployment

/-- The slots of a deployment. -/
def slots (d : Deployment) : List Slot :=
  [.ofList "nodes" d.nodes False, .ofList "dynamic_caches" d.lateCaches (d.lateCaches = [])]

/-- What is known of a deployment once the fields with some names were taken in. -/
def known (d : Deployment) (seen : List String) : Parts where
  nodes := heard "nodes" seen d.nodes
  lateCaches := heard "dynamic_caches" seen d.lateCaches

theorem follows (d : Deployment) : shape.Follows d.slots d.known d where
  fields := rfl
  blank := rfl
  take slot hslot o v seen htells := by
    simp only [slots, List.mem_cons, List.not_mem_nil, or_false] at hslot
    rcases hslot with rfl | rfl
    · exact take_of_read (readListOf_of_tells htells) (by simp [known, heard_cons_of_ne])
    · exact take_of_read (readListOf_of_tells htells) (by simp [known, heard_cons_of_ne])
  finish seen h := by
    simp only [slots, List.forall_mem_cons, Slot.name_ofList, Slot.optional_ofList] at h
    obtain ⟨hnodes, hlate, -⟩ := h
    show (do
      let nodes ← need "nodes" (heard "nodes" seen d.nodes)
      return Deployment.mk nodes ((heard "dynamic_caches" seen d.lateCaches).getD [])) = _
    rw [need_heard hnodes, getD_heard hlate]
    rfl

instance : Telling Deployment :=
  .ofSlots shape slots known follows (by decide) (fun _ _ => rfl) fun _ => rfl

end Deployment

/-! ## Nesting

A value's own tree does not go deep. -/

section Nesting

theorem nestingAll_le {ts : List Tree} {n : Nat} (h : ∀ t ∈ ts, t.nesting ≤ n) :
    Tree.nestingAll ts ≤ n := by
  induction ts with
  | nil => exact Nat.zero_le n
  | cons t ts ih =>
      rw [List.forall_mem_cons] at h
      exact Nat.max_le.mpr ⟨h.1, ih h.2⟩

theorem nesting_record_le {fs : List (String × Tree)} {n : Nat} (h : ∀ f ∈ fs, f.2.nesting ≤ n) :
    (Tree.record (named fs)).nesting ≤ n + 1 := by
  show Tree.nestingFields (named fs) + 1 ≤ n + 1
  refine Nat.succ_le_succ ?_
  induction fs with
  | nil => exact Nat.zero_le n
  | cons f fs ih =>
      rw [List.forall_mem_cons] at h
      exact Nat.max_le.mpr ⟨h.1, ih h.2⟩

theorem nesting_slots_le {slots : List Slot} {n : Nat} (h : ∀ s ∈ slots, s.own.nesting ≤ n) :
    (Tree.record (named (slots.map fun s => (s.name, s.own)))).nesting ≤ n + 1 := by
  refine nesting_record_le fun f hf => ?_
  obtain ⟨s, hs, rfl⟩ := List.mem_map.mp hf
  exact h s hs

theorem nesting_list_le {α : Type} [Form α] {as : List α} {n : Nat}
    (h : ∀ a ∈ as, (Form.tree a).nesting ≤ n) :
    (Tree.list (as.map Form.tree)).nesting ≤ n + 1 := by
  show Tree.nestingAll (as.map Form.tree) + 1 ≤ n + 1
  refine Nat.succ_le_succ (nestingAll_le fun t ht => ?_)
  obtain ⟨a, ha, rfl⟩ := List.mem_map.mp ht
  exact h a ha

theorem nesting_optionTree_le {α : Type} [Form α] {x : Option α} {n : Nat}
    (h : ∀ a, x = some a → (Form.tree a).nesting ≤ n) : (optionTree x).nesting ≤ n := by
  cases x with
  | none => exact Nat.zero_le n
  | some a => exact h a rfl

theorem nesting_attrValue (v : AttrValue) : v.tree.nesting = 0 := by
  cases v <;> rfl

theorem nesting_attributes (a : Attributes) : (Form.tree a).nesting ≤ 1 := by
  have htree : Form.tree a = .record (named (Telling.attributeFields a.entries)) := by
    show Tree.record _ = Tree.record _
    rw [Telling.attributeFields, named, List.map_map]
    rfl
  rw [htree]
  refine nesting_record_le fun f hf => ?_
  obtain ⟨e, -, rfl⟩ := List.mem_map.mp hf
  exact Nat.le_of_eq (nesting_attrValue e.2)

theorem nesting_selector (s : Selector) : (Form.tree s).nesting ≤ 2 := by
  show s.tree.nesting ≤ 2
  rw [s.tree_eq]
  refine nesting_slots_le (List.forall_mem_cons.mpr ⟨Nat.zero_le _, ?_⟩)
  cases s with
  | everyone => nofun
  | named names => exact List.forall_mem_singleton.mpr (nesting_list_le fun _ _ => Nat.zero_le _)
  | withAttribute key value =>
      have hvalue : (Form.tree value).nesting ≤ 1 :=
        Nat.le_trans (Nat.le_of_eq (nesting_attrValue value)) (by decide)
      exact List.forall_mem_cons.mpr ⟨Nat.zero_le _, List.forall_mem_singleton.mpr hvalue⟩
  | withAttributes attributes => exact List.forall_mem_singleton.mpr (nesting_attributes attributes)

theorem nesting_nearConfig (c : NearConfig) : (Form.tree c).nesting ≤ 3 := by
  show (Tree.record (named (c.slots.map fun s => (s.name, s.own)))).nesting ≤ 3
  refine nesting_slots_le ?_
  simp only [NearConfig.slots, List.forall_mem_cons]
  exact ⟨Nat.zero_le _, nesting_optionTree_le fun s _ => nesting_selector s, nofun⟩

theorem nesting_cacheConfig (c : CacheConfig) : (Form.tree c).nesting ≤ 4 := by
  show (Tree.record (named (c.slots.map fun s => (s.name, s.own)))).nesting ≤ 4
  refine nesting_slots_le ?_
  simp only [CacheConfig.slots, List.forall_mem_cons]
  exact ⟨Nat.zero_le _, Nat.zero_le _, Nat.zero_le _,
    nesting_optionTree_le fun s _ => nesting_nearConfig s, nofun⟩

theorem nesting_nodeConfig (n : NodeConfig) : (Form.tree n).nesting ≤ 6 := by
  show (Tree.record (named (n.slots.map fun s => (s.name, s.own)))).nesting ≤ 6
  refine nesting_slots_le ?_
  simp only [NodeConfig.slots, List.forall_mem_cons]
  exact ⟨Nat.zero_le _, Nat.zero_le _, Nat.le_trans (nesting_attributes n.attributes) (by decide),
    nesting_list_le fun c _ => nesting_cacheConfig c, nofun⟩

theorem nesting_lateCache (l : LateCache) : (Form.tree l).nesting ≤ 5 := by
  show (Tree.record (named (l.slots.map fun s => (s.name, s.own)))).nesting ≤ 5
  refine nesting_slots_le ?_
  simp only [LateCache.slots, List.forall_mem_cons]
  exact ⟨Nat.zero_le _, nesting_cacheConfig l.cache, nofun⟩

theorem nesting_deployment (d : Deployment) : (Form.tree d).nesting ≤ 8 := by
  show (Tree.record (named (d.slots.map fun s => (s.name, s.own)))).nesting ≤ 8
  refine nesting_slots_le ?_
  simp only [Deployment.slots, List.forall_mem_cons]
  exact ⟨nesting_list_le fun n _ => nesting_nodeConfig n,
    Nat.le_trans (nesting_list_le fun l _ => nesting_lateCache l) (by decide), nofun⟩

end Nesting

/-! ## Reading configurations -/

/-- JSON keeps a value, however it is told. -/
structure Faithful {α : Type} [Form α] [Telling α] (a : α) : Prop where
  /-- The compact text of the value is read as the value. -/
  own : Form.ofJson (Form.json a) = .ok a
  /-- So is the compact text of any tree that tells the value, if no more than 127 containers stand
  within each other. -/
  compact (t : Tree) (tells : Telling.Tells a t) (shallow : t.nesting ≤ 127) :
    Form.ofJson t.json = .ok a
  /-- So is any other text of such a tree, with blanks between its parts, or with other escapes. -/
  spelled (t : Tree) (tells : Telling.Tells a t) (s : String)
    (spells : Json.read (s.toList.map some) = (t, true)) : Form.ofJson s = .ok a

theorem faithful_of_nesting_le {α : Type} [Form α] [Telling α] {a : α} {n : Nat}
    (h : (Form.tree a).nesting ≤ n) (hn : n ≤ 127) : Faithful a where
  own := Form.ofJson_json_of_tells (Telling.tells_tree a) (Nat.le_trans h hn)
  compact _ tells shallow := Form.ofJson_json_of_tells tells shallow
  spelled _ tells _ spells := Form.ofJson_of_tells tells spells

/-- **Configurations are read back from JSON**, and field by field. Every selector, and near-cache
settings, a cache, a node and a deployment, is read from its own compact text. It is also read from
any text in which the fields of its records stand in another order, the kind of a selector anywhere;
in which fields that have a default are left out where they hold it; and in which there are unknown
fields with plain values. -/
theorem configurations_faithful :
    (∀ s : Selector, Faithful s) ∧ (∀ c : NearConfig, Faithful c) ∧
      (∀ c : CacheConfig, Faithful c) ∧ (∀ n : NodeConfig, Faithful n) ∧
      ∀ d : Deployment, Faithful d :=
  ⟨fun s => faithful_of_nesting_le (nesting_selector s) (by decide),
    fun c => faithful_of_nesting_le (nesting_nearConfig c) (by decide),
    fun c => faithful_of_nesting_le (nesting_cacheConfig c) (by decide),
    fun n => faithful_of_nesting_le (nesting_nodeConfig n) (by decide),
    fun d => faithful_of_nesting_le (nesting_deployment d) (by decide)⟩

/-! A cache for the members of a rack, told in another order, without its defaults, and with a
remark in its selector. -/

namespace RackCache

/-- The members of the third rack. -/
def selector : Selector := .withAttribute "rack" (.int 3)

/-- Their near caches. -/
def near : NearConfig := { selector := some selector }

/-- The cache. -/
def cache : CacheConfig := { name := "c", near := some near }

/-- The selector, backwards, and with a remark. -/
def selectorTree : Tree := .record (named
  [("value", .integer 3), ("key", .text "rack"), ("kind", .text "match_attribute"),
   ("remark", .list [.null])])

/-- The near-cache settings without their switch. -/
def nearTree : Tree := .record (named [("node_filter", selectorTree)])

/-- The cache without layout and backups, backwards. -/
def cacheTree : Tree := .record (named [("platform_cache", nearTree), ("name", .text "c")])

theorem tells_selectorTree : Telling.Tells selector selectorTree := by
  have hnew : "remark" ∉ (selector.kindSlot :: selector.slots).map (·.name) := by
    simp [selector, Selector.slots, Selector.kindSlot]
  have hplain : (Tree.list [.null]).Plain := .list (List.forall_mem_singleton.mpr .null)
  have hown := Lists.own selector.distinct_slots
  exact ⟨_, (hown.add (f := ("remark", .list [.null])) hnew hplain).perm (List.reverse_perm _).symm,
    rfl⟩

theorem tells_nearTree : Telling.Tells near nearTree := by
  have hvalues : ∀ s ∈ near.slots,
      s.tells (if s.name = "node_filter" then selectorTree else s.own) := by
    simp only [NearConfig.slots, List.forall_mem_cons]
    exact ⟨rfl, tells_selectorTree, nofun⟩
  have henabled : ∀ s ∈ near.slots, s.name = "enabled" → s.optional := by
    simp only [NearConfig.slots, List.forall_mem_cons]
    exact ⟨fun _ => rfl, nofun, nofun⟩
  exact ⟨_, (Lists.ofValues (by decide) hvalues).drop henabled, rfl⟩

theorem tells_cacheTree : Telling.Tells cache cacheTree := by
  have hvalues : ∀ s ∈ cache.slots,
      s.tells (if s.name = "platform_cache" then nearTree else s.own) := by
    simp only [CacheConfig.slots, List.forall_mem_cons]
    exact ⟨rfl, rfl, rfl, tells_nearTree, nofun⟩
  have hmode : ∀ s ∈ cache.slots, s.name = "mode" → s.optional := by
    simp only [CacheConfig.slots, List.forall_mem_cons]
    exact ⟨nofun, fun _ => rfl, nofun, nofun, nofun⟩
  have hbackups : ∀ s ∈ cache.slots, s.name = "backups" → s.optional := by
    simp only [CacheConfig.slots, List.forall_mem_cons]
    exact ⟨nofun, nofun, fun _ => rfl, nofun, nofun⟩
  have hlists := ((Lists.ofValues (by decide) hvalues).drop hmode).drop hbackups
  exact ⟨_, hlists.perm (List.reverse_perm _).symm, rfl⟩

end RackCache

/-- The cache is read from what is left of it. -/
theorem configurations_faithful_rackCache :
    RackCache.cacheTree.nesting ≤ 127 ∧
      Form.ofJson RackCache.cacheTree.json = .ok RackCache.cache :=
  ⟨by decide, (configurations_faithful.2.2.1 RackCache.cache).compact RackCache.cacheTree
    RackCache.tells_cacheTree (by decide)⟩

end NearCache
