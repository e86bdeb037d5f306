import NearCache.Bytes
import NearCache.Document.Json.Parser
import NearCache.Document.Json.Printer
import NearCache.Document.Shape
import NearCache.Fault
/-!
# Written forms

`Form α` says how the values of a type are written as trees and read back from them.  Texts, counts
and trees themselves have a form here; the modules beside this one give the configurations and
events theirs.
-/

namespace NearCache

open Document

/-- How the values of a type are written. -/
class Form (α : Type) where
  /-- The tree that a value is written as. -/
  tree : α → Tree
  /-- The value that a tree is read as. -/
  read : Origin → Tree → Reading α

namespace Form

variable {α : Type} [Form α]

/-- A value as compact JSON. -/
def json (a : α) : String := (tree a).json

/-- Reads a value from the pieces of a JSON document. -/
def ofJsonPieces (s : List Json.Piece) : Reading α := do
  let (t, isAll) := Json.read s
  let a ← read .json t
  if isAll then return a else throw .malformed

/-- Reads a value from a JSON text. -/
def ofJson (s : String) : Outcome α := ((ofJsonPieces (s.toList.map some)).run' 0).mapError .json

/-- Reads a value from a JSON value that was read before. -/
def ofTree (t : Tree) : Outcome α := ((read .value t).run' 0).mapError .json

/-- Reads a value from the bytes of a JSON document. -/
def ofJsonBytes (b : Bytes) : Outcome α := ((ofJsonPieces b.chars).run' 0).mapError .json

end Form

instance : Form String where
  tree := .text
  read _ t := t.readText

instance : Form UInt32 where
  tree n := .integer n.toNat
  read _ t := t.readCount

end NearCache
