import NearCache.Document.Json.Text
import NearCache.Number.Shortest
/-!
# Writing JSON

The compact form of a tree: no blanks, fields in the order of the record.
-/

namespace NearCache.Document

namespace Json

/-- A whole number in decimal digits. -/
def integerText (n : Int) : List Char :=
  if n < 0 then '-' :: Nat.toDigits 10 n.natAbs else Nat.toDigits 10 n.natAbs

end Json

namespace Tree

mutual

/-- The characters of a tree in compact form.  What has no value is written as `null`. -/
def jsonChars : Tree → List Char
  | bool true => ['t', 'r', 'u', 'e']
  | bool false => ['f', 'a', 'l', 's', 'e']
  | integer n => Json.integerText n
  | fraction x => x.text.toList
  | text s => Json.quote s
  | written _ s => Json.quote s
  | list items => '[' :: (jsonItems items ++ [']'])
  | record fields => '\x7b' :: (jsonFields fields ++ ['\x7d'])
  | tagged _ t => t.jsonChars
  | .alias target => (target ()).jsonChars
  | null | unreadable | broken => ['n', 'u', 'l', 'l']

/-- Trees with commas between them. -/
def jsonItems : List Tree → List Char
  | [] => []
  | [t] => t.jsonChars
  | t :: ts => t.jsonChars ++ ',' :: jsonItems ts

/-- Fields with commas between them. -/
def jsonFields : List (Tree × Tree) → List Char
  | [] => []
  | [(k, v)] => k.jsonChars ++ ':' :: v.jsonChars
  | (k, v) :: rest => k.jsonChars ++ ':' :: (v.jsonChars ++ ',' :: jsonFields rest)

end

/-- A tree in compact form. -/
def json (t : Tree) : String := String.ofList t.jsonChars

end Tree

end NearCache.Document
