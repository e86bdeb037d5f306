import NearCache.Fabric
import NearCache.Form.Basic
/-!
# Typed views of caches

Keys and values of any types that have a written form, kept in a cache as JSON texts.  Keys that are
written alike are the same key.
-/

namespace NearCache

open Document

namespace Document.Tree

mutual

/-- A tree whose records are in the order of their keys; of equal keys the last one stays. -/
def sorted : Tree → Tree
  | list items => list (sortedAll items)
  | record fields =>
    record ((Table.ofList (sortedFields fields)).entries.map fun (k, v) => (text k, v))
  | t => t

/-- Trees whose records are in order. -/
def sortedAll : List Tree → List Tree
  | [] => []
  | t :: ts => t.sorted :: sortedAll ts

/-- The fields of a record by the texts of their keys, with values whose records are in order. -/
def sortedFields : List (Tree × Tree) → List (String × Tree)
  | [] => []
  | (text k, v) :: rest => (k, v.sorted) :: sortedFields rest
  | _ :: rest => sortedFields rest

end

end Document.Tree

/-- Any JSON value. -/
structure JsonValue where
  tree : Tree
  deriving Inhabited

namespace JsonValue

/-- The value that a tree without faults stands for. -/
def ofTree (t : Tree) : JsonValue := ⟨t.sorted⟩

instance : Form JsonValue where
  tree v := v.tree
  read _ t := do return ofTree (← t.hold)

end JsonValue

namespace Typed

variable {κ α : Type} [Form κ] [Form α]

/-- A key or a value as it stands in the cache. -/
def encode (a : α) : Bytes := Bytes.ofText (Form.json a)

/-- A value that was found in the cache. -/
def decode : Option Bytes → Outcome (Option α)
  | none => .ok none
  | some b => some <$> Form.ofJsonBytes b

/-- Reads a key. -/
def get (f : Fabric) (id : EndpointId) (key : κ) : Outcome (Option α) × Fabric :=
  let (r, f) := f.get id (encode key)
  (r >>= decode, f)

/-- Looks a key up in the near cache only. -/
def peek (f : Fabric) (id : EndpointId) (key : κ) : Outcome (Option α) := do
  decode (← f.peek id (encode key))

/-- Writes a key. -/
def put (f : Fabric) (id : EndpointId) (key : κ) (value : α) : Outcome Unit × Fabric :=
  f.put id (encode key) (encode value)

/-- Removes a key; the answer is whether it had a value. -/
def remove (f : Fabric) (id : EndpointId) (key : κ) : Outcome Bool × Fabric :=
  f.remove id (encode key)

end Typed

end NearCache
