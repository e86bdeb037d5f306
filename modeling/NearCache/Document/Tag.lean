import NearCache.Bytes
/-!
# Tags

What a YAML document may write in front of a value to say of what kind it is.  A tag is a sequence of
bytes, which are a text as a rule.  Those of the core schema name the kinds of scalars; those that
begin with an exclamation mark are the document's own, and name a choice.
-/

namespace NearCache.Document

/-- A tag. -/
abbrev Tag := Bytes

namespace Tag

/-- A tag of the core schema. -/
def core (name : String) : Tag := Bytes.ofText ("tag:yaml.org,2002:" ++ name)

/-- The byte of an exclamation mark. -/
def ownMark : UInt8 := 0x21

/-- Whether a tag is one of the document's own. -/
def isOwn (t : Tag) : Bool := t.head? = some ownMark

/-- The choice that a tag names: what stands behind the exclamation mark, or the mark itself where
nothing does.  Bytes that are no text name none. -/
def choice? (t : Tag) : Option String :=
  if !isOwn t then none
  else if t = [ownMark] then some "!"
  else Bytes.text? (t.drop 1)

end Tag

end NearCache.Document
