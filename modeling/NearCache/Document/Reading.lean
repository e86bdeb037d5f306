import NearCache.Document.Mismatch
import NearCache.Document.Scalar
import NearCache.Table
/-!
# Reading values from trees

How a tree is taken for a text, a truth value, a count, a list, a table, or a choice.  A written
scalar is taken for whatever is expected, if it can be.  An alias is followed where something is taken
from its place, and not where it is passed over; it may be followed only so often.

A tree is *held* where its meaning is decided before it is known what is expected of it: `hold`
settles what every scalar in it means, and fails where something has no value.
-/

namespace NearCache.Document

/-- Where a tree comes from, which decides small liberties of reading. -/
inductive Origin where
  /-- A JSON text. -/
  | json
  /-- A JSON value that was read before. -/
  | value
  /-- A YAML text. -/
  | yaml
  /-- A tree that was held. -/
  | held
  deriving DecidableEq, Repr

/-- Reading a value from trees, while aliases may still be followed a number of times. -/
abbrev Reading (α : Type) := StateT Nat (Except Mismatch) α

/-- Follows an alias. -/
def follow : Reading Unit := do
  match ← get with
  | 0 => throw .malformed
  | n + 1 => set n

namespace Tree

/-- What a tree is found to be where something else was expected. -/
def found? : Tree → Option Found
  | null => some .null
  | bool b => some (.bool b)
  | integer n => some (.integer n)
  | fraction x => some (.fraction x)
  | text s | written _ s => some (.text s)
  | list _ => some .list
  | record _ => some .record
  | tagged _ t => t.found?
  | .alias _ | unreadable | broken => none

/-- The mismatch of a tree with what was expected. -/
def mismatch (t : Tree) (expected : String) : Mismatch :=
  match t.found? with
  | some f => .wrongType f expected
  | none => .malformed

/-- A tree without its tag. -/
def untagged : Tree → Tree
  | tagged _ t => t
  | t => t

/-- The tag of a tree. -/
def tag? : Tree → Option Tag
  | tagged tag _ => some tag
  | _ => none

/-- Passes over a tree. -/
def skip (t : Tree) : Reading Unit := if t.isWhole then return else throw .malformed

/-- What stands at a place. -/
def resolve : Tree → Reading Tree
  | .alias target => do
    follow
    return target ()
  | t => return t

/-! ## Holding -/

/-- A tree that is no container, if it has a value. -/
def leaf : Tree → Reading Tree
  | unreadable | broken => throw .malformed
  | t => return t

/-- Settles what a scalar under a tag means.  A tag of the document's own names a choice, and no
choice is expected here. -/
def holdTagged (tag : Tag) (style : Style) (s : String) : Reading Tree :=
  if (Tag.choice? tag).isSome then throw .malformed
  else if Tag.isOwn tag then if style = .plain then (Scalar.plain s).leaf else return text s
  else (Scalar.tagged tag s).leaf

mutual

/-- Settles what every scalar in a tree means. -/
def hold : Tree → Reading Tree
  | written .plain s => (Scalar.plain s).leaf
  | written _ s => return text s
  | tagged tag (written style s) => holdTagged tag style s
  | tagged tag t => if (Tag.choice? tag).isSome then throw .malformed else t.hold
  | .alias target => do
    follow
    (target ()).hold
  | list items => list <$> holdAll items
  | record fields => record <$> holdFields fields
  | t => t.leaf

/-- Settles the scalars in all trees of a list. -/
def holdAll : List Tree → Reading (List Tree)
  | [] => return []
  | t :: ts => do
    let t ← t.hold
    let ts ← holdAll ts
    return t :: ts

/-- Settles the scalars in all fields of a record. -/
def holdFields : List (Tree × Tree) → Reading (List (Tree × Tree))
  | [] => return []
  | (k, v) :: rest => do
    let k ← k.hold
    let v ← v.hold
    let rest ← holdFields rest
    return (k, v) :: rest

end

/-! ## Scalars -/

/-- Takes a tree for a text, a scalar in whatever style and under whatever tag. -/
def readText (t : Tree) : Reading String := do
  match (← t.resolve).untagged with
  | text s | written _ s => return s
  | t => throw (t.mismatch "a string")

/-- Whether a scalar in a style and under a tag may be taken for something else than a text: a plain
one always, a literal one if its tag says what is expected. -/
def isOpen (style : Style) (tag : Option Tag) (core : String) : Bool :=
  match style with
  | .plain => true
  | .literal => tag = some (Tag.core core)
  | .quoted => false

/-- Takes a tree for a truth value. -/
def readBool (t : Tree) : Reading Bool := do
  let t ← t.resolve
  match t.untagged with
  | bool b => return b
  | written style s =>
    match if isOpen style t.tag? "bool" then Scalar.bool? s else none with
    | some b => return b
    | none => throw (t.mismatch "a boolean")
  | t => throw (t.mismatch "a boolean")

/-- A number as a count of 32 bits. -/
def count32 (n : Int) : Reading UInt32 :=
  if 0 ≤ n ∧ n < twoTo 32 then return UInt32.ofNat n.toNat
  else throw (.wrongValue (.integer n) "u32")

/-- Takes a tree for a count of 32 bits.  A scalar with a minus is none, not even minus zero. -/
def readCount (t : Tree) : Reading UInt32 := do
  let t ← t.resolve
  match t.untagged with
  | integer n => count32 n
  | written style s =>
    match if isOpen style t.tag? "int" && !s.startsWith "-" then Scalar.integer? s.toList else none with
    | some n => count32 n
    | none => throw (t.mismatch "u32")
  | t => throw (t.mismatch "u32")

/-- Whether a tree stands for the absence of a value. -/
def isAbsent (t : Tree) : Reading Bool :=
  match t with
  | null => return true
  | written .plain s => return Scalar.isNull s
  | tagged tag (written .plain s) =>
    if tag = Tag.core "null" then
      if Scalar.isNullWord s then return true else throw .malformed
    else return false
  | _ => return false

/-- Takes a tree for a value that may be absent. -/
def readOptional {α : Type} (read : Tree → Reading α) (t : Tree) : Reading (Option α) := do
  let t ← t.resolve
  if ← t.isAbsent then return none else some <$> read t

/-! ## Lists and tables -/

/-- Takes a tree for a list.  An empty plain scalar is an empty list. -/
def readList (t : Tree) : Reading (List Tree) := do
  match (← t.resolve).untagged with
  | list items => return items
  | written .plain "" => return []
  | t => throw (t.mismatch "a sequence")

/-- Takes a tree for a record.  An empty plain scalar is an empty record. -/
def readRecord (expected : String) (t : Tree) : Reading (List (Tree × Tree)) := do
  match (← t.resolve).untagged with
  | record fields => return fields
  | written .plain "" => return []
  | t => throw (t.mismatch expected)

/-- Takes a key for a text.  In JSON any other key is a fault of the text. -/
def readKey (o : Origin) (k : Tree) : Reading String := do
  match o, (← k.resolve).untagged with
  | _, text s | _, written _ s => return s
  | .held, k => throw (k.mismatch "a string")
  | _, _ => throw .malformed

/-- Takes fields for a table from texts; of equal keys the last one counts. -/
def readEntries {α : Type} (o : Origin) (read : Tree → Reading α) (got : Table String α) :
    List (Tree × Tree) → Reading (Table String α)
  | [] => return got
  | (k, v) :: rest => do
    let key ← readKey o k
    let value ← read v
    readEntries o read (got.insert key value) rest

/-- Takes a tree for a table from texts. -/
def readTable {α : Type} (o : Origin) (read : Tree → Reading α) (t : Tree) :
    Reading (Table String α) := do
  readEntries o read ∅ (← t.readRecord "a map")

/-! ## Choices -/

/-- A choice by its name. -/
def chosen {α : Type} (choices : List (String × α)) (name : String) : Reading α :=
  match choices.find? (·.1 = name) with
  | some (_, a) => return a
  | none => throw (.unknownVariant name (choices.map (·.1)))

/-- Takes a tree for the name of a choice. -/
def readName {α : Type} (choices : List (String × α)) (t : Tree) : Reading α := do
  match (← t.resolve).untagged with
  | text s | written _ s => chosen choices s
  | t => throw (t.mismatch "variant identifier")

/-- Takes what stands behind a choice for nothing at all. -/
def readNothing : Tree → Reading Unit
  | null => return
  | t => throw (t.mismatch "unit")

/-- Takes a tree for a choice, which is a name, or a record of one field whose key is the name and
whose value is null.  In YAML the name may instead be a tag on nothing, but not a key. -/
def readChoice {α : Type} (o : Origin) (choices : List (String × α)) (t : Tree) : Reading α := do
  match o, ← t.resolve with
  | _, text s => chosen choices s
  | .yaml, written _ s => chosen choices s
  | .yaml, tagged tag (written style s) =>
    match Tag.choice? tag with
    | some name => do
      let a ← chosen choices name
      if style = .plain ∧ Scalar.isNull s then return a else throw .malformed
    | none => chosen choices s
  | .yaml, _ => throw .malformed
  | .json, record ((text name, v) :: rest) => do
    let a ← chosen choices name
    v.readNothing
    if rest.isEmpty then return a else throw .malformed
  | .json, _ => throw .malformed
  | _, record [(k, v)] => do
    let a ← k.readName choices
    v.readNothing
    return a
  | _, record _ => throw (.wrongValue .record "map with a single key")
  | _, t => throw (t.mismatch "string or map")

end Tree

end NearCache.Document
