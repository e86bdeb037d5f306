import NearCache.Form.Basic
/-!
# How attributes are written

The value of an attribute is written as what it is, a truth value, a whole number or a text, and
nothing says which of them is meant.  Attributes are a table from keys to values.
-/

namespace NearCache

open Document

/-- The smallest and the largest number that an attribute may hold. -/
def AttrValue.holds (n : Int) : Bool := -(twoTo 63 : Int) ≤ n && n < twoTo 63

/-- The tree that an attribute's value is written as. -/
def AttrValue.tree : AttrValue → Tree
  | bool b => .bool b
  | int n => .integer n.toInt
  | text s => .text s

/-- The value that a held tree is read as: the first kind that fits. -/
def AttrValue.ofHeld : Tree → Reading AttrValue
  | .bool b => return bool b
  | .integer n => if holds n then return int (Int64.ofInt n) else throw (.noForm "AttributeValue")
  | .text s => return text s
  | _ => throw (.noForm "AttributeValue")

instance : Form AttrValue where
  tree := AttrValue.tree
  read _ t := do AttrValue.ofHeld (← t.hold)

/-- The record that a table from texts is written as. -/
def Table.tree {α : Type} (f : α → Tree) (t : Table String α) : Tree :=
  .record (t.entries.map fun (k, v) => (.text k, f v))

instance : Form Attributes where
  tree := Table.tree AttrValue.tree
  read o t := t.readTable o (Form.read o)

end NearCache
