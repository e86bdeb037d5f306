import NearCache.Document.Reading
/-!
# Records of known fields

A `Shape` says how a type is written as a record: its fields in their order, how each is taken in,
and which must be there.  Fields may stand in any order, and unknown ones are passed over.  The
record may also be written as the list of its fields, of which the last ones may be left out.

Faults are met in the order of the document; what is missing shows at the end.
-/

namespace NearCache.Document

/-- How a type `α` is written as a record, read field by field into a `σ`. -/
structure Shape (σ α : Type) where
  /-- What the record is called where something else is found. -/
  title : String
  fields : List String
  /-- What is known before the first field. -/
  blank : σ
  /-- Takes in the value of a field. -/
  take : Origin → String → Tree → σ → Reading σ
  /-- The value, or the name of the first field that is missing. -/
  finish : σ → Except String α

/-- What a field that must be there holds, or its name if it is missing. -/
def need {α : Type} (name : String) (x : Option α) : Except String α :=
  match x with
  | some a => .ok a
  | none => .error name

/-- A number of elements in words. -/
def elements (n : Nat) : String := toString n ++ (if n = 1 then " element" else " elements")

namespace Shape

variable {σ α : Type}

/-- The name of the field that a key means.  A held key may be the position of the field. -/
def fieldName (s : Shape σ α) (o : Origin) (k : Tree) : Reading String := do
  match o, (← k.resolve).untagged with
  | _, .text name | _, .written _ name => return name
  | .held, .integer n =>
    if 0 ≤ n then return s.fields[n.toNat]?.getD "" else throw (k.mismatch "field identifier")
  | .held, k => throw (k.mismatch "field identifier")
  | _, _ => throw .malformed

/-- Takes in fields one after the other; those in `seen` were there before. -/
def takeFields (s : Shape σ α) (o : Origin) (seen : List String) (x : σ) :
    List (Tree × Tree) → Reading σ
  | [] => return x
  | (k, v) :: rest => do
    let name ← s.fieldName o k
    if name ∈ s.fields then
      if name ∈ seen then throw (.repeatedField name)
      let x ← s.take o name v x
      s.takeFields o (name :: seen) x rest
    else
      v.skip
      s.takeFields o seen x rest

/-- Takes in fields by their positions. -/
def takeItems (s : Shape σ α) (o : Origin) (x : σ) : List (String × Tree) → Reading σ
  | [] => return x
  | (name, v) :: rest => do
    let x ← s.take o name v x
    s.takeItems o x rest

/-- A value from a record. -/
def ofFields (s : Shape σ α) (o : Origin) (fields : List (Tree × Tree)) : Reading α := do
  match s.finish (← s.takeFields o [] s.blank fields) with
  | .ok a => return a
  | .error name => throw (.missingField name)

/-- The mismatch of a list with too many items. -/
def surplus (s : Shape σ α) (o : Origin) (length : Nat) : Mismatch :=
  match o with
  | .value => .wrongLength length "fewer elements in array"
  | .held => .wrongLength length (elements s.fields.length ++ " in sequence")
  | _ => .malformed

/-- A value from the list of its fields. -/
def ofItems (s : Shape σ α) (o : Origin) (items : List Tree) : Reading α := do
  match s.finish (← s.takeItems o s.blank (s.fields.zip items)) with
  | .ok a =>
    if items.length ≤ s.fields.length then return a else throw (s.surplus o items.length)
  | .error _ =>
    throw (.wrongLength items.length (s.title ++ " with " ++ elements s.fields.length))

/-- Takes a tree for a record of the shape. -/
def read (s : Shape σ α) (o : Origin) (t : Tree) : Reading α := do
  match o, (← t.resolve).untagged with
  | _, .record fields => s.ofFields o fields
  | .yaml, .written .plain "" => s.ofFields o []
  | .yaml, t => throw (t.mismatch s.title)
  | _, .list items => s.ofItems o items
  | _, t => throw (t.mismatch s.title)

end Shape

/-! ## Records that say what they are -/

/-- Takes the value of the tag field for one of some names. -/
def tagName (names : List String) (t : Tree) : Reading String :=
  t.readName (names.map fun n => (n, n))

/-- Splits fields into the value of the tag field, if it was there, and the other fields, held. -/
def splitTag (tag : String) (names : List String) (found : Option String) :
    List (Tree × Tree) → Reading (Option String × List (Tree × Tree))
  | [] => return (found, [])
  | (k, v) :: rest => do
    match ← k.hold with
    | .text name =>
      if name = tag then
        if found.isSome then throw (.repeatedField tag)
        let found ← tagName names v
        splitTag tag names (some found) rest
      else
        let v ← v.hold
        let (found, rest) ← splitTag tag names found rest
        return (found, (.text name, v) :: rest)
    | k =>
      let v ← v.hold
      let (found, rest) ← splitTag tag names found rest
      return (found, (k, v) :: rest)

/-- Takes a tree for a record with a tag field, or a list that begins with the tag: the tag, and the
rest of the tree, held. -/
def readTagged (title tag : String) (names : List String) (t : Tree) : Reading (String × Tree) := do
  match ← t.resolve with
  | .tagged own t => if (Tag.choice? own).isSome then throw .malformed else go t
  | t => go t
where
  /-- Reads a tree that has no tag of its own. -/
  go : Tree → Reading (String × Tree)
    | .record fields => do
      match ← splitTag tag names none fields with
      | (some name, rest) => return (name, .record rest)
      | (none, _) => throw (.missingField tag)
    | .list [] => throw (.missingField tag)
    | .list (t :: rest) => do
      let name ← tagName names t
      return (name, .list (← Tree.holdAll rest))
    | t => throw (t.mismatch title)

/-- Takes the rest of a tagged tree for nothing: fields are passed over, items are too many. -/
def readEmpty : Tree → Reading Unit
  | .list (t :: rest) => throw (.wrongLength (t :: rest).length (elements 0 ++ " in sequence"))
  | _ => return

end NearCache.Document
