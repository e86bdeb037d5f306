import NearCache.Form.Attributes
import NearCache.Selector
/-!
# How selectors are written

A selector is a record with the field `kind`, which says what sort of selector it is, and the fields
of that sort.
-/

namespace NearCache

open Document

namespace Selector

/-- The names of the sorts of selectors. -/
def kinds : List String := ["match_all", "match_names", "match_attribute", "match_attributes"]

/-- The tree that a selector is written as. -/
def tree : Selector → Tree
  | everyone => .record [(.text "kind", .text "match_all")]
  | named names => .record
    [(.text "kind", .text "match_names"),
     (.text "names", .list (names.keys.map .text))]
  | withAttribute key value => .record
    [(.text "kind", .text "match_attribute"),
     (.text "key", .text key),
     (.text "value", value.tree)]
  | withAttributes attributes => .record
    [(.text "kind", .text "match_attributes"),
     (.text "attributes", Form.tree attributes)]

/-- A list of names, in which order and repetition do not matter. -/
def readNames (t : Tree) : Reading Names := do
  let names ← (← t.readList).mapM Tree.readText
  return Table.ofList (names.map fun n => (n, ()))

/-- The record of a selector by names. -/
def namedShape : Shape (Option Names) Selector where
  title := "struct variant NodeFilter::MatchNames"
  fields := ["names"]
  blank := none
  take _ _ t _ := some <$> readNames t
  finish x := named <$> need "names" x

/-- What is known of a selector by one attribute. -/
structure AttributeParts where
  key : Option String := none
  value : Option AttrValue := none

/-- The record of a selector by one attribute. -/
def attributeShape : Shape AttributeParts Selector where
  title := "struct variant NodeFilter::MatchAttribute"
  fields := ["key", "value"]
  blank := {}
  take o name t x :=
    match name with
    | "key" => do return { x with key := some (← t.readText) }
    | _ => do return { x with value := some (← Form.read o t) }
  finish x := do
    let key ← need "key" x.key
    let value ← need "value" x.value
    return withAttribute key value

/-- The record of a selector by several attributes. -/
def attributesShape : Shape (Option Attributes) Selector where
  title := "struct variant NodeFilter::MatchAttributes"
  fields := ["attributes"]
  blank := none
  take o _ t _ := some <$> Form.read o t
  finish x := withAttributes <$> need "attributes" x

/-- The selector that a tree is read as. -/
def ofTree (t : Tree) : Reading Selector := do
  let (kind, rest) ← readTagged "internally tagged enum NodeFilter" "kind" kinds t
  match kind with
  | "match_names" => namedShape.read .held rest
  | "match_attribute" => attributeShape.read .held rest
  | "match_attributes" => attributesShape.read .held rest
  | _ =>
    readEmpty rest
    return everyone

instance : Form Selector where
  tree := tree
  read _ := ofTree

end Selector

end NearCache
