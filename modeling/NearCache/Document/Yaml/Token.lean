import NearCache.Document.Tree
import NearCache.Document.Yaml.Folding
import NearCache.Bytes
/-!
# The tokens of a YAML text

The pieces that a text is cut into.  Indentation has become brackets here: a block of entries or of
fields begins with a token of its own and ends with `blockEnd`.

Anchors, tags and directives are read in this module.
-/

namespace NearCache.Document.Yaml

/-- A tag as it is written: its handle, which stands for the beginning of the tag, and the rest. -/
structure TagText where
  handle : String
  suffix : Tag
  deriving DecidableEq, Repr

/-- A piece of a text. -/
inductive Token where
  | version (major minor : Nat)
  | tagDirective (handle : String) (beginning : Tag)
  | documentStart
  | documentEnd
  | blockList
  | blockRecord
  | blockEnd
  | flowListStart
  | flowListEnd
  | flowRecordStart
  | flowRecordEnd
  /-- The dash in front of an item of a block. -/
  | blockEntry
  /-- The comma between brackets. -/
  | flowEntry
  | key
  | value
  | alias (name : String)
  | anchor (name : String)
  | tag (t : TagText)
  | scalar (style : Style) (s : String)
  deriving DecidableEq, Repr

/-! ## Anchors -/

/-- Reads the name of an anchor or alias behind its sign. -/
def scanAnchor (c : Cursor) : Option (String × Cursor) :=
  let (name, c) := c.takeWhile isNameChar
  let isEnd (x : Char) : Bool := x ∈ ['?', ':', ',', ']', '\x7d', '%', '@', '\x60']
  if name.isEmpty || !(c.endsAt 0 || c.isNext isEnd) then none
  else some (String.ofList name, c)

/-! ## Tags -/

/-- The characters that a tag may have outside of escapes. -/
def isTagChar (verbatim : Bool) (x : Char) : Bool :=
  isNameChar x ||
    x ∈ [';', '/', '?', ':', '@', '&', '=', '+', '$', '.', '!', '~', '*', '\'', '(', ')'] ||
    (verbatim && x ∈ [',', '[', ']'])

/-- How many bytes belong together from one on, by the pattern of UTF-8. -/
def groupWidth? (b : UInt8) : Option Nat :=
  let n := b.toNat
  if n < 0x80 then some 1
  else if n < 0xC0 then none
  else if n < 0xE0 then some 2
  else if n < 0xF0 then some 3
  else if n < 0xF8 then some 4
  else none

/-- Whether a byte goes on with a group of bytes. -/
def continuesGroup (b : UInt8) : Bool := 0x80 ≤ b && b < 0xC0

/-- Reads a byte written as a percent sign and two digits. -/
def scanByte (c : Cursor) : Option (UInt8 × Cursor) :=
  match c.rest with
  | '%' :: a :: b :: _ => do
    return (UInt8.ofNat ((← hexValue? a) * 16 + (← hexValue? b)), c.steps 3)
  | _ => none

/-- Reads some bytes written so. -/
def scanBytes : Nat → Cursor → Option (Bytes × Cursor)
  | 0, c => some ([], c)
  | n + 1, c => do
    let (b, c) ← scanByte c
    let (bs, c) ← scanBytes n c
    return (b :: bs, c)

/-- Reads a group of bytes.  Only its pattern is that of UTF-8; the bytes need not be a character. -/
def scanGroup (c : Cursor) : Option (Bytes × Cursor) := do
  let (first, _) ← scanByte c
  let (bytes, c) ← scanBytes (← groupWidth? first) c
  guard ((bytes.drop 1).all continuesGroup)
  return (bytes, c)

/-- Reads the characters of a tag. -/
def scanTagChars (verbatim : Bool) : Nat → Cursor → Option (Bytes × Cursor)
  | 0, _ => none
  | fuel + 1, c =>
    match c.next? with
    | none => some ([], c)
    | some x =>
      if x = '%' then do
        let (xs, c) ← scanGroup c
        let (ys, c) ← scanTagChars verbatim fuel c
        return (xs ++ ys, c)
      else if isTagChar verbatim x then do
        let (xs, c) ← scanTagChars verbatim fuel c.step
        return (x.toUInt8 :: xs, c)
      else some ([], c)

/-- What counts of the bytes of a tag: those in front of the first zero. -/
def tagOf (bytes : Bytes) : Tag := bytes.takeWhile (· ≠ 0)

/-- Reads the characters of a tag, of which there is at least one. -/
def scanTagText (verbatim : Bool) (c : Cursor) : Option (Tag × Cursor) := do
  let (bytes, c) ← scanTagChars verbatim (c.rest.length + 1) c
  guard !bytes.isEmpty
  return (tagOf bytes, c)

/-- Reads the handle of a tag: an exclamation mark, and a name and another mark perhaps. -/
def scanHandle (c : Cursor) : Option (List Char × Cursor) :=
  if !c.sees '!' then none
  else
    let (name, c) := c.step.takeWhile isNameChar
    if c.sees '!' then some ('!' :: (name ++ ['!']), c.step) else some ('!' :: name, c)

/-- Whether what was read as a handle is one, and not the beginning of a tag. -/
def isHandle (h : List Char) : Bool := 1 < h.length && h.getLast? = some '!'

/-- Reads a tag between angle brackets, behind the first of them. -/
def scanVerbatim (c : Cursor) : Option (TagText × Cursor) := do
  let (tag, c) ← scanTagText true c
  guard (c.sees '>')
  return (⟨"", tag⟩, c.step)

/-- Reads a tag with a handle.  A lone exclamation mark is a tag without one. -/
def scanShort (c : Cursor) : Option (TagText × Cursor) := do
  let (handle, c) ← scanHandle c
  if isHandle handle then
    let (tag, c) ← scanTagText false c
    return (⟨String.ofList handle, tag⟩, c)
  else
    let (bytes, c) ← scanTagChars false (c.rest.length + 1) c
    let tag := tagOf (Bytes.ofText (String.ofList (handle.drop 1)) ++ bytes)
    return (if tag.isEmpty then ⟨"", [Tag.ownMark]⟩ else ⟨"!", tag⟩, c)

/-- Reads a tag, behind which there must be a blank or, between brackets, a comma. -/
def scanTag (flow : Bool) (c : Cursor) : Option (TagText × Cursor) := do
  let (t, c) ← if c.isAhead (· = '<') 1 then scanVerbatim (c.steps 2) else scanShort c
  guard ((flow && c.sees ',') || c.endsAt 0)
  return (t, c)

/-! ## Directives -/

/-- Reads the number of a version. -/
def scanNumber (c : Cursor) : Option (Nat × Cursor) :=
  let (digits, c) := c.takeWhile Char.isDigit
  if digits.isEmpty || 9 < digits.length then none
  else some (digits.foldl (fun n d => n * 10 + (d.toNat - '0'.toNat)) 0, c)

/-- Reads the version behind its directive. -/
def scanVersion (c : Cursor) : Option (Token × Cursor) := do
  let (major, c) ← scanNumber c.skipBlanks
  guard (c.sees '.')
  let (minor, c) ← scanNumber c.step
  return (.version major minor, c)

/-- Reads a handle and what it stands for. -/
def scanTagDirective (c : Cursor) : Option (Token × Cursor) := do
  let (handle, c) ← scanHandle c.skipBlanks
  guard (isHandle handle || handle = ['!'])
  guard (c.isNext isBlank)
  let (beginning, c) ← scanTagText true c.skipBlanks
  guard (c.endsAt 0)
  return (.tagDirective (String.ofList handle) beginning, c)

/-- Reads a directive behind its percent sign, up to the end of its line. -/
def scanDirective (c : Cursor) : Option (Token × Cursor) := do
  let (name, c) := c.takeWhile isNameChar
  guard (c.endsAt 0)
  let (t, c) ← match String.ofList name with
    | "YAML" => scanVersion c
    | "TAG" => scanTagDirective c
    | _ => none
  return (t, ← c.finishLine?)

end NearCache.Document.Yaml
