import NearCache.Document.Json.Number
/-!
# Reading JSON

`Json.read` turns any pieces into a tree.  If they are no document it keeps what stands in front of the
fault, and puts `broken` at the end of the list or record in which the fault lies.

A container within more than `deepest` others has no value, but may be passed over.
-/

namespace NearCache.Document.Json

/-- How many containers may stand around another one. -/
def deepest : Nat := 126

/-- The blanks between the parts of a document. -/
def isSpace (c : Char) : Bool := c = ' ' || c = '\n' || c = '\t' || c = '\r'

/-- A text without the blanks at its beginning. -/
def skipSpace (s : List Piece) : List Piece := s.dropWhile (·.any isSpace)

/-- A container that was read, or that there is one, if it stands too deep. -/
def bounded (depth : Nat) (read : Tree × Remaining) : Tree × Remaining :=
  if depth ≤ deepest then read
  else
    match read.2 with
    | some rest => (.unreadable, some rest)
    | none => (.broken, none)

/-- A word at the beginning of a text. -/
def word (w : List Char) (t : Tree) (s : List Piece) : Tree × Remaining :=
  if (w.map some).isPrefixOf s then (t, some (s.drop w.length)) else (.broken, none)

mutual

/-- Reads a value within `depth` containers. -/
def value (fuel depth : Nat) (s : List Piece) : Tree × Remaining :=
  match fuel with
  | 0 => (.broken, none)
  | fuel + 1 =>
    match skipSpace s with
    | some '"' :: s => string (some []) s
    | some '[' :: s =>
      let (items, rest) := match skipSpace s with
        | some ']' :: s => ([], some s)
        | s => items fuel (depth + 1) s
      bounded depth (.list items, rest)
    | some '\x7b' :: s =>
      let (fields, rest) := match skipSpace s with
        | some '\x7d' :: s => ([], some s)
        | s => fields fuel (depth + 1) s
      bounded depth (.record fields, rest)
    | some 'n' :: s => word ['u', 'l', 'l'] .null s
    | some 't' :: s => word ['r', 'u', 'e'] (.bool true) s
    | some 'f' :: s => word ['a', 'l', 's', 'e'] (.bool false) s
    | s => number s

/-- Reads the items of a list, of which there is at least one, and its end. -/
def items (fuel depth : Nat) (s : List Piece) : List Tree × Remaining :=
  match fuel with
  | 0 => ([.broken], none)
  | fuel + 1 =>
    match value fuel depth s with
    | (t, none) => ([t], none)
    | (t, some s) =>
      match skipSpace s with
      | some ']' :: s => ([t], some s)
      | some ',' :: s =>
        let (ts, rest) := items fuel depth s
        (t :: ts, rest)
      | _ => ([t, .broken], none)

/-- Reads the fields of a record, of which there is at least one, and its end. -/
def fields (fuel depth : Nat) (s : List Piece) : List (Tree × Tree) × Remaining :=
  match fuel with
  | 0 => ([(.broken, .broken)], none)
  | fuel + 1 =>
    match skipSpace s with
    | some '"' :: s =>
      match string (some []) s with
      | (k, none) => ([(k, .broken)], none)
      | (k, some s) =>
        match skipSpace s with
        | some ':' :: s =>
          match value fuel depth s with
          | (v, none) => ([(k, v)], none)
          | (v, some s) =>
            match skipSpace s with
            | some '\x7d' :: s => ([(k, v)], some s)
            | some ',' :: s =>
              let (rest, remaining) := fields fuel depth s
              ((k, v) :: rest, remaining)
            | _ => ([(k, v), (.broken, .broken)], none)
        | _ => ([(k, .broken)], none)
    | _ => ([(.broken, .broken)], none)

end

/-- What a document says, and whether nothing but blanks follows.  Each piece takes at most two steps:
a bracket opens a container and its first part. -/
def read (s : List Piece) : Tree × Bool :=
  match value (2 * (s.length + 1)) 0 s with
  | (t, some rest) => (t, (skipSpace rest).isEmpty)
  | (t, none) => (t, false)

end NearCache.Document.Json
