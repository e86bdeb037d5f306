import NearCache.Proofs.Form.Telling

/-!
# Trees that tell a selector

A selector is told by the slot of its kind and the slots of its sort. The field with the kind may
stand anywhere; the other fields are held until it is found.
-/

namespace NearCache.Selector

open Document
open Document.Tree (named)

/-- The name of the sort of a selector. -/
def kind : Selector → String
  | everyone => "match_all"
  | named _ => "match_names"
  | withAttribute _ _ => "match_attribute"
  | withAttributes _ => "match_attributes"

/-- The slot of the kind. -/
def kindSlot (s : Selector) : Slot := .of "kind" s.kind False

/-- The slots of the sort of a selector. -/
def slots : Selector → List Slot
  | everyone => []
  | named names => [.ofList "names" names.keys False]
  | withAttribute key value => [.of "key" key False, .of "value" value False]
  | withAttributes attributes => [.of "attributes" attributes False]

theorem kind_mem_kinds (s : Selector) : s.kind ∈ kinds := by
  cases s <;> simp [kind, kinds]

theorem kind_notMem_slots (s : Selector) : s.kindSlot.name ∉ s.slots.map (·.name) := by
  cases s <;> simp [kindSlot, slots]

theorem distinct_slots (s : Selector) : ((s.kindSlot :: s.slots).map (·.name)).Nodup := by
  cases s <;> simp [kindSlot, slots]

/-- A selector is written as what is written in its slots. -/
theorem tree_eq (s : Selector) :
    s.tree = .record (Tree.named ((s.kindSlot :: s.slots).map fun f => (f.name, f.own))) := by
  cases s <;> rfl

/-! ## The sorts -/

theorem readNames_of_tells {names : Names} {t : Tree} (h : TellsList names.keys t) :
    readNames t = pure names := by
  have hkeys : (readListOf .held t : Reading (List String)) = pure names.keys :=
    readListOf_of_tells h
  have hread : readNames t = (readListOf .held t : Reading (List String)) >>= fun l =>
      pure (Table.ofList (l.map fun n => (n, ()))) := by
    rw [readListOf, bind_assoc]
    rfl
  have hentries : names.keys.map (fun n => (n, ())) = names.entries := by
    rw [Table.keys, List.map_map]
    exact List.map_id _
  rw [hread, hkeys, pure_bind, hentries, Table.ofList_eq_of_perm (.refl _)]

theorem follows_named (names : Names) :
    namedShape.Follows (named names).slots (fun seen => heard "names" seen names) (named names) where
  fields := rfl
  blank := rfl
  take slot hslot o v seen htells := by
    obtain rfl := List.mem_singleton.mp hslot
    show some <$> readNames v = _
    rw [readNames_of_tells htells, map_pure]
    exact congrArg pure heard_self.symm
  finish seen h := by
    simp only [slots, List.forall_mem_singleton, Slot.name_ofList, Slot.optional_ofList] at h
    show named <$> need "names" (heard "names" seen names) = _
    rw [need_heard h]
    rfl

theorem follows_withAttribute (key : String) (value : AttrValue) :
    attributeShape.Follows (withAttribute key value).slots
      (fun seen => ⟨heard "key" seen key, heard "value" seen value⟩) (withAttribute key value) where
  fields := rfl
  blank := rfl
  take slot hslot o v seen htells := by
    simp only [slots, List.mem_cons, List.not_mem_nil, or_false] at hslot
    rcases hslot with rfl | rfl
    · exact take_of_read (Telling.read_eq htells o) (by simp [heard_cons_of_ne])
    · exact take_of_read (Telling.read_eq htells o) (by simp [heard_cons_of_ne])
  finish seen h := by
    simp only [slots, List.forall_mem_cons, Slot.name_of, Slot.optional_of] at h
    show (do
      let key ← need "key" (heard "key" seen key)
      let value ← need "value" (heard "value" seen value)
      return withAttribute key value) = _
    rw [need_heard h.1, need_heard h.2.1]
    rfl

theorem follows_withAttributes (attributes : Attributes) :
    attributesShape.Follows (withAttributes attributes).slots
      (fun seen => heard "attributes" seen attributes) (withAttributes attributes) where
  fields := rfl
  blank := rfl
  take slot hslot o v seen htells := by
    obtain rfl := List.mem_singleton.mp hslot
    have hread : Form.read o v = pure attributes := Telling.read_eq htells o
    show some <$> Form.read o v = _
    rw [hread, map_pure]
    exact congrArg pure heard_self.symm
  finish seen h := by
    simp only [slots, List.forall_mem_singleton, Slot.name_of, Slot.optional_of] at h
    show withAttributes <$> need "attributes" (heard "attributes" seen attributes) = _
    rw [need_heard h]
    rfl

/-- Fields that fill the slots of a selector are read as the selector. -/
theorem ofTree_of_lists {s : Selector} {l : List (String × Tree)}
    (h : Lists (s.kindSlot :: s.slots) l) : ofTree (.record (Tree.named l)) = pure s := by
  have htail : Lists s.slots _ := h.tail s.kind_notMem_slots
  have htag := readTagged_lists "internally tagged enum NodeFilter" s.kind_mem_kinds
    (fun v (hv : v = .text s.kind) => hv) id h
  rw [ofTree, show "kind" = s.kindSlot.name from rfl, htag, pure_bind]
  -- what is held is read by the shape of its sort; for everyone the fields mean nothing
  cases s with
  | everyone => rfl
  | named names => exact (follows_named names).read htail
  | withAttribute key value => exact (follows_withAttribute key value).read htail
  | withAttributes attributes => exact (follows_withAttributes attributes).read htail

instance : Telling Selector where
  Tells s t := ∃ l, Lists (s.kindSlot :: s.slots) l ∧ t = .record (Tree.named l)
  tells_tree s := ⟨_, Lists.own s.distinct_slots, s.tree_eq⟩
  plain := by
    rintro s t ⟨l, hl, rfl⟩
    exact .record fun f hf => hl.plain hf
  ne_null := by
    rintro s t ⟨l, -, rfl⟩ h
    cases h
  read_eq := by
    rintro s t ⟨l, hl, rfl⟩ o
    exact ofTree_of_lists hl

end NearCache.Selector
