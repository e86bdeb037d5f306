import NearCache.Form.Config
import NearCache.Proofs.Form.Fields
import NearCache.Table.Laws

/-!
# Trees that tell a value

The same value may be told by several trees: the fields of a record may stand in another order,
fields with a default may be left out, and fields that mean nothing may be there as well.
`Telling.Tells a t`: the tree `t` tells the value `a`. Whatever tells a value is read as this value
(`Telling.read_eq`), and is a plain tree, so that its compact text is read as this value too
(`Form.ofJson_json_of_tells`).

Texts, truth values, counts and attributes are told by their own trees only, apart from the order of
the attributes. A record type is told by what fills its slots (`Telling.ofSlots`).
-/

namespace NearCache

open Document
open Document.Tree (named)

/-- How trees tell the values of a type. -/
class Telling (α : Type) [Form α] where
  Tells : α → Tree → Prop
  tells_tree (a : α) : Tells a (Form.tree a)
  plain {a : α} {t : Tree} : Tells a t → t.Plain
  ne_null {a : α} {t : Tree} : Tells a t → t ≠ .null
  read_eq {a : α} {t : Tree} : Tells a t → ∀ o, Form.read o t = pure a

namespace Form

variable {α : Type} [Form α] [Telling α] {a : α} {t : Tree}

/-- A text whose tree tells a value is read as the value. -/
theorem ofJson_of_tells (h : Telling.Tells a t) {s : String}
    (hread : Json.read (s.toList.map some) = (t, true)) : ofJson s = .ok a := by
  rw [ofJson, ofJsonPieces, hread]
  simp only [Telling.read_eq h, pure_bind]
  rfl

/-- The compact text of a tree that tells a value is read as the value. -/
theorem ofJson_json_of_tells (h : Telling.Tells a t) (hn : t.nesting ≤ Json.deepest + 1) :
    ofJson t.json = .ok a := by
  refine ofJson_of_tells h ?_
  rw [Tree.json, String.toList_ofList]
  exact Json.read_jsonChars (Telling.plain h) hn

end Form

/-! ## Values told in one way -/

namespace Telling

variable {α : Type} [Form α]

/-- Values that only their own trees tell. -/
abbrev exact (plain : ∀ a : α, (Form.tree a).Plain) (ne_null : ∀ a : α, Form.tree a ≠ .null)
    (read_eq : ∀ (a : α) o, Form.read o (Form.tree a) = pure a) : Telling α where
  Tells a t := t = Form.tree a
  tells_tree _ := rfl
  plain h := h ▸ plain _
  ne_null h := h ▸ ne_null _
  read_eq h := h ▸ read_eq _

instance : Telling String := exact (fun s => .text s) (fun _ h => nomatch h) fun _ _ => rfl

instance : Telling Bool := exact (fun b => .bool b) (fun _ h => nomatch h) fun _ _ => rfl

instance : Telling Layout :=
  exact (fun l => .text l.name) (fun _ h => nomatch h) fun l o => by cases l <;> cases o <;> rfl

theorem plain_toNat (n : UInt32) : (Tree.integer n.toNat).Plain := by
  have hlt : n.toNat < twoTo 63 := Nat.lt_trans n.toNat_lt (by decide)
  exact .integer (by omega) (by omega)

theorem readCount_toNat (n : UInt32) : (Tree.integer n.toNat).readCount = pure n := by
  have hlt : (n.toNat : Int) < twoTo 32 := Int.ofNat_lt.mpr n.toNat_lt
  have hread : (Tree.integer n.toNat).readCount = Tree.count32 n.toNat := by
    simp only [Tree.readCount, Tree.resolve, Tree.untagged, pure_bind]
  rw [hread, Tree.count32, if_pos ⟨Int.natCast_nonneg _, hlt⟩, Int.toNat_natCast,
    UInt32.ofNat_toNat]

instance : Telling UInt32 :=
  exact plain_toNat (fun _ h => nomatch h) fun n _ => readCount_toNat n

/-! ## Attributes -/

theorem plain_attrValue (v : AttrValue) : v.tree.Plain := by
  cases v with
  | bool b => exact .bool b
  | int n => exact .integer n.le_toInt n.toInt_lt
  | text s => exact .text s

theorem ofHeld_tree (v : AttrValue) : AttrValue.ofHeld v.tree = pure v := by
  cases v with
  | bool b => rfl
  | int n =>
      have hholds : AttrValue.holds n.toInt = true := by
        have hlow := n.le_toInt
        have hhigh := n.toInt_lt
        simp only [AttrValue.holds, Bool.and_eq_true, decide_eq_true_eq]
        exact ⟨hlow, hhigh⟩
      rw [AttrValue.tree, AttrValue.ofHeld, if_pos hholds, Int64.ofInt_toInt]
  | text s => rfl

theorem read_attrValue (v : AttrValue) (o : Origin) : Form.read o v.tree = pure v := by
  show (v.tree.hold >>= AttrValue.ofHeld) = pure v
  rw [(plain_attrValue v).hold, pure_bind, ofHeld_tree]

instance : Telling AttrValue :=
  exact plain_attrValue (fun v h => by cases v <;> cases h) read_attrValue

/-- The fields of some attributes. -/
def attributeFields (l : List (String × AttrValue)) : List (String × Tree) :=
  l.map fun e => (e.1, e.2.tree)

/-- Attributes are taken in one after the other. -/
theorem readEntries_attributeFields {o : Origin} (l : List (String × AttrValue)) :
    ∀ got : Attributes, Tree.readEntries o (Form.read o) got (named (attributeFields l)) =
      pure (l.foldl (fun t e => t.insert e.1 e.2) got) := by
  induction l with
  | nil => intro got; rfl
  | cons e l ih =>
      intro got
      have hkey : Tree.readKey o (.text e.1) = pure e.1 := by cases o <;> rfl
      show Tree.readEntries o (Form.read o) got
        ((.text e.1, e.2.tree) :: named (attributeFields l)) = _
      rw [Tree.readEntries, hkey, pure_bind, read_attrValue, pure_bind, ih]
      rfl

/-- Attributes are told by their fields in any order. -/
instance : Telling Attributes where
  Tells a t := ∃ l : List (String × AttrValue), l.Perm a.entries ∧
    t = .record (named (attributeFields l))
  tells_tree a := by
    refine ⟨a.entries, .refl _, ?_⟩
    show Tree.record _ = Tree.record _
    rw [attributeFields, named, List.map_map]
    rfl
  plain := by
    rintro a t ⟨l, -, rfl⟩
    refine .record fun f hf => ?_
    obtain ⟨e, -, rfl⟩ := List.mem_map.mp hf
    exact plain_attrValue e.2
  ne_null := by
    rintro a t ⟨l, -, rfl⟩ h
    cases h
  read_eq := by
    rintro a t ⟨l, hl, rfl⟩ o
    have hread : (Form.read o (.record (named (attributeFields l))) : Reading Attributes) =
        Tree.readEntries o (Form.read o) ∅ (named (attributeFields l)) := rfl
    rw [hread, readEntries_attributeFields]
    exact congrArg pure (Table.ofList_eq_of_perm hl)

end Telling

/-! ## Options and lists -/

section Containers

variable {α : Type} [Form α] [Telling α] {o : Origin}

/-- A tree tells a value that may be absent. -/
def TellsOption : Option α → Tree → Prop
  | none, t => t = .null
  | some a, t => Telling.Tells a t

/-- A tree lists trees that tell some values. -/
def TellsList (as : List α) (t : Tree) : Prop :=
  ∃ ts, List.Forall₂ Telling.Tells as ts ∧ t = .list ts

theorem isAbsent_of_plain {t : Tree} (h : t.Plain) (hne : t ≠ .null) : t.isAbsent = pure false := by
  cases h with
  | null => exact absurd rfl hne
  | _ => rfl

theorem readOptionOf_of_tells {x : Option α} {t : Tree} (h : TellsOption x t) :
    readOptionOf o t = pure x := by
  cases x with
  | none =>
      obtain rfl : t = .null := h
      rfl
  | some a =>
      -- a tree that tells a value is not null, so it is not taken for an absent value
      have htells : Telling.Tells a t := h
      have hplain := Telling.plain htells
      rw [readOptionOf, Tree.readOptional, hplain.resolve, pure_bind,
        isAbsent_of_plain hplain (Telling.ne_null htells), pure_bind]
      show some <$> Form.read o t = _
      rw [Telling.read_eq htells o, map_pure]

theorem mapM_read_of_tells {as : List α} {ts : List Tree} (h : List.Forall₂ Telling.Tells as ts) :
    ts.mapM (Form.read o) = (pure as : Reading (List α)) := by
  induction h with
  | nil => rfl
  | cons ha _ ih => rw [List.mapM_cons, Telling.read_eq ha o, pure_bind, ih, pure_bind]

theorem readListOf_of_tells {as : List α} {t : Tree} (h : TellsList as t) :
    readListOf o t = pure as := by
  obtain ⟨ts, hts, rfl⟩ := h
  exact mapM_read_of_tells hts

theorem plain_of_tellsList {as : List α} {t : Tree} (h : TellsList as t) : t.Plain := by
  obtain ⟨ts, hts, rfl⟩ := h
  refine .list ?_
  induction hts with
  | nil => nofun
  | cons ha _ ih => exact List.forall_mem_cons.mpr ⟨Telling.plain ha, ih⟩

theorem tellsList_tree (as : List α) : TellsList as (.list (as.map Form.tree)) := by
  refine ⟨_, ?_, rfl⟩
  induction as with
  | nil => exact .nil
  | cons a as ih => exact .cons (Telling.tells_tree a) ih

end Containers

/-! ## Slots -/

namespace Document.Slot

variable {α : Type} [Form α] [Telling α]

/-- The slot of a value. -/
def of (name : String) (a : α) (optional : Prop) : Slot where
  name := name
  own := Form.tree a
  tells := Telling.Tells a
  tells_own := Telling.tells_tree a
  plain := Telling.plain
  optional := optional

/-- The slot of a value that may be absent, in which case nothing has to stand there. -/
def ofOption (name : String) (x : Option α) : Slot where
  name := name
  own := optionTree x
  tells := TellsOption x
  tells_own := by
    cases x with
    | none => rfl
    | some a => exact Telling.tells_tree a
  plain h := by
    cases x with
    | none => obtain rfl : _ = Tree.null := h; exact .null
    | some a => exact Telling.plain h
  optional := x = none

/-- The slot of a list. -/
def ofList (name : String) (as : List α) (optional : Prop) : Slot where
  name := name
  own := .list (as.map Form.tree)
  tells := TellsList as
  tells_own := tellsList_tree as
  plain := plain_of_tellsList
  optional := optional

variable {name : String} {a : α} {x : Option α} {as : List α} {optional : Prop}

@[simp] theorem name_of : (of name a optional).name = name := rfl

@[simp] theorem name_ofOption : (ofOption name x).name = name := rfl

@[simp] theorem name_ofList : (ofList name as optional).name = name := rfl

@[simp] theorem optional_of : (of name a optional).optional = optional := rfl

@[simp] theorem optional_ofOption : (ofOption name x).optional = (x = none) := rfl

@[simp] theorem optional_ofList : (ofList name as optional).optional = optional := rfl

end Document.Slot

/-- What is known of a field once the fields with some names were taken in. -/
def heard {α : Type} (name : String) (seen : List String) (a : α) : Option α :=
  if name ∈ seen then some a else none

section Heard

variable {α : Type} {name : String} {seen : List String} {a : α}

@[simp] theorem heard_self : heard name (name :: seen) a = some a := if_pos List.mem_cons_self

theorem heard_cons_of_ne {other : String} (h : name ≠ other) :
    heard name (other :: seen) a = heard name seen a := by
  simp [heard, h]

theorem getD_heard {d : α} (h : a = d ∨ name ∈ seen) : (heard name seen a).getD d = a := by
  unfold heard
  split
  · rfl
  · next hn => exact (h.resolve_right hn).symm

theorem need_heard {key : String} (h : False ∨ name ∈ seen) : need key (heard name seen a) = .ok a := by
  rw [heard, if_pos (h.resolve_left id)]
  rfl

/-- A field is taken in as what is read from it. -/
theorem take_of_read {σ : Type} {read : Reading α} {f : α → σ} {x : σ} (hread : read = pure a)
    (hx : f a = x) : (do return f (← read)) = (pure x : Reading σ) := by
  rw [hread, pure_bind, hx]

end Heard

/-- A record type is told by what fills the slots of its shape. -/
abbrev Telling.ofSlots {α σ : Type} [Form α] (shape : Shape σ α) (slots : α → List Slot)
    (known : α → List String → σ) (follows : ∀ a, shape.Follows (slots a) (known a) a)
    (distinct : shape.fields.Nodup) (read_eq : ∀ o t, Form.read o t = shape.read o t)
    (tree_eq : ∀ a, Form.tree a = .record (named ((slots a).map fun s => (s.name, s.own)))) :
    Telling α where
  Tells a t := ∃ l, Lists (slots a) l ∧ t = .record (named l)
  tells_tree a := ⟨_, Lists.own ((follows a).fields ▸ distinct), tree_eq a⟩
  plain := by
    rintro a t ⟨l, hl, rfl⟩
    exact .record fun f hf => hl.plain hf
  ne_null := by
    rintro a t ⟨l, -, rfl⟩ h
    cases h
  read_eq := by
    rintro a t ⟨l, hl, rfl⟩ o
    rw [read_eq]
    exact (follows a).read hl

end NearCache
