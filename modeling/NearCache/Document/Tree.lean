import NearCache.Document.Tag
import NearCache.Number.Binary64
/-!
# Documents as trees

What a document says, before anything is known of what it should say: scalars, lists, and records
of fields in the order in which they stand there, repetitions included.

A document may say again what it said at another place.  Such an alias leads on to a tree that nobody
has to look at, and that may hold the alias itself.

A tree can be had from a text that is no document.  Then it holds everything in front of the fault
and the leaf `broken` in the place of it, so that whoever reads the tree from front to back meets
whatever is wrong in the order of the text.
-/

namespace NearCache.Document

/-- How a scalar is set off from what surrounds it. -/
inductive Style where
  | plain
  | literal
  | quoted
  deriving DecidableEq, Repr

/-- A document. -/
inductive Tree where
  | null
  | bool (b : Bool)
  | integer (n : Int)
  | fraction (x : Binary64)
  | text (s : String)
  /-- A scalar as it is written, where its meaning depends on what is expected of it. -/
  | written (style : Style) (s : String)
  | list (items : List Tree)
  | record (fields : List (Tree × Tree))
  /-- A tree that says by a tag what it is. -/
  | tagged (tag : Tag) (t : Tree)
  /-- A place where another part of the document stands once more. -/
  | alias (target : Unit → Tree)
  /-- Something well-formed that has no value. -/
  | unreadable
  /-- Here the text stops being a document. -/
  | broken
  deriving Inhabited

namespace Tree

mutual

/-- Whether a tree may be passed over: nothing in it is broken.  Aliases are not followed. -/
def isWhole : Tree → Bool
  | broken => false
  | list items => areWhole items
  | record fields => areWholeFields fields
  | tagged _ t => t.isWhole
  | _ => true

/-- Whether all trees of a list may be passed over. -/
def areWhole : List Tree → Bool
  | [] => true
  | t :: ts => t.isWhole && areWhole ts

/-- Whether all fields of a record may be passed over. -/
def areWholeFields : List (Tree × Tree) → Bool
  | [] => true
  | (k, v) :: rest => k.isWhole && v.isWhole && areWholeFields rest

end

end Tree

end NearCache.Document
