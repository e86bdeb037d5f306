import NearCache.Document.Yaml.Layout
import NearCache.Document.Yaml.Node
import NearCache.Table
/-!
# Anchors and aliases

An alias stands for the node under the anchor that it names.  `read?` makes a tree of a document, in
which an alias leads on to the tree of that node.

Anchors are numbered, and an alias means a number.  The number of an anchor is how many names there
were before it, and the last anchor with a number has it; so a name that is used again may share its
number with the next new name.

A tree is bounded: a container within `deepest` others has no value, and aliases may be followed a
hundred times for every part of the document.
-/

namespace NearCache.Document.Yaml

/-- A node in which aliases mean numbers. -/
abbrev LinkedNode := Node Nat

/-- What is known of the anchors so far. -/
structure Anchors where
  /-- The numbers of the names. -/
  numbers : Table String Nat := ∅
  /-- How many anchors there were. -/
  count : Nat := 0
  /-- How many parts the document has so far: scalars, aliases, and both ends of containers. -/
  parts : Nat := 0
  /-- For each number the latest anchor that has it, and its node. -/
  nodes : Table Nat (Nat × LinkedNode) := ∅

namespace Anchors

/-- Counts parts of the document. -/
def add (a : Anchors) (parts : Nat) : Anchors := { a with parts := a.parts + parts }

/-- The number of an anchor, and its place in the order of anchors. -/
abbrev Place := Option (Nat × Nat)

/-- An anchor begins here, if there is a name. -/
def enter (a : Anchors) (name : Option String) : Place × Anchors :=
  match name with
  | none => (none, a)
  | some name =>
    let number := a.numbers.size
    (some (number, a.count),
      { a with numbers := a.numbers.insert name number, count := a.count + 1 })

/-- The node of an anchor is complete. -/
def leave (a : Anchors) (place : Place) (n : LinkedNode) : Anchors :=
  match place with
  | none => a
  | some (number, order) =>
    if (a.nodes.get? number).all (·.1 ≤ order) then
      { a with nodes := a.nodes.insert number (order, n) }
    else a

mutual

/-- Numbers the aliases of a node; an alias without an anchor in front of it is an error. -/
def link (a : Anchors) : TextNode → Option (LinkedNode × Anchors)
  | .alias name => do return (.alias (← a.numbers.get? name), a.add 1)
  | .scalar p style s =>
    let (place, a) := (a.add 1).enter p.anchor
    let n := .scalar p style s
    some (n, a.leave place n)
  | .list p items => do
    let (place, a) := (a.add 2).enter p.anchor
    let (items, a) ← a.linkAll items
    let n := .list p items
    return (n, a.leave place n)
  | .record p fields => do
    let (place, a) := (a.add 2).enter p.anchor
    let (fields, a) ← a.linkFields fields
    let n := .record p fields
    return (n, a.leave place n)

/-- Numbers the aliases of nodes. -/
def linkAll (a : Anchors) : List TextNode → Option (List LinkedNode × Anchors)
  | [] => some ([], a)
  | n :: ns => do
    let (n, a) ← a.link n
    let (ns, a) ← a.linkAll ns
    return (n :: ns, a)

/-- Numbers the aliases of fields. -/
def linkFields (a : Anchors) :
    List (TextNode × TextNode) → Option (List (LinkedNode × LinkedNode) × Anchors)
  | [] => some ([], a)
  | (k, v) :: rest => do
    let (k, a) ← a.link k
    let (v, a) ← a.link v
    let (rest, a) ← a.linkFields rest
    return ((k, v) :: rest, a)

end

end Anchors

/-! ## Following aliases -/

/-- How many containers may stand around another one. -/
def deepest : Nat := 127

/-- How often an alias may be followed for every part of a document. -/
def aliasesPerPart : Nat := 100

/-- A tree under its tag. -/
def withTag (p : Props) (t : Tree) : Tree :=
  match p.tag with
  | some tag => .tagged tag t
  | none => t

/-- The tree of a node that is no alias, where `inner` makes trees of the nodes in it, if there may be
any. -/
def bareTree (inner : Option (LinkedNode → Tree)) : LinkedNode → Tree
  | .scalar p style s => withTag p (.written style s)
  | .list p items =>
    match inner with
    | some f => withTag p (.list (items.map f))
    | none => .unreadable
  | .record p fields =>
    match inner with
    | some f => withTag p (.record (fields.map fun (k, v) => (f k, f v)))
    | none => .unreadable
  | .alias _ => .unreadable

/-- The tree of a node; an alias leads on to the tree of the node with its number. -/
def nodeTree (nodes : Table Nat (Nat × LinkedNode)) (inner : Option (LinkedNode → Tree)) :
    LinkedNode → Tree
  | .alias number =>
    match nodes.get? number with
    | some (_, n) => .alias fun _ => bareTree inner n
    | none => .unreadable
  | n => bareTree inner n

/-- The tree of a node in which containers may stand `room` deep. -/
def treeOf (nodes : Table Nat (Nat × LinkedNode)) : Nat → LinkedNode → Tree
  | 0 => nodeTree nodes none
  | room + 1 => nodeTree nodes (some (treeOf nodes room))

/-- The tree that a text says, and how often aliases in it may be followed, unless the text is not
exactly one document. -/
def read? (s : String) : Option (Tree × Nat) := do
  let n ← TextNode.document? (← tokens? s)
  let (n, anchors) ← Anchors.link {} n
  return (treeOf anchors.nodes (deepest + 1) n, anchors.parts * aliasesPerPart)

end NearCache.Document.Yaml
