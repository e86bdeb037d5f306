/-!
# Byte strings

Keys and values of a cache are byte strings.  The tables order them byte by byte, which for UTF-8
text is also the order by code point.
-/

namespace NearCache

/-- A key or a value: any sequence of bytes. -/
abbrev Bytes := List UInt8

namespace Bytes

/-- The UTF-8 form of a text. -/
def ofText (s : String) : Bytes := s.toByteArray.toList

/-- The text whose UTF-8 form the bytes are, if there is one. -/
def text? (b : Bytes) : Option String := String.fromUTF8? ⟨b.toArray⟩

/-- The character whose UTF-8 form the bytes begin with, if there is one. -/
def firstChar? (b : Bytes) : Option Char :=
  (List.range 4).findSome? fun n =>
    match (text? (b.take (n + 1))).map String.toList with
    | some [c] => some c
    | _ => none

/-- The characters whose UTF-8 forms the bytes are, with nothing in the place of each byte that belongs
to none. -/
def scattered : Bytes → List (Option Char)
  | [] => []
  | x :: b =>
    match firstChar? (x :: b) with
    | some c => some c :: scattered (b.drop (c.utf8Size - 1))
    | none => none :: scattered b
termination_by b => b.length
decreasing_by all_goals simp; try omega

/-- The characters of the bytes, with gaps where they are no text. -/
def chars (b : Bytes) : List (Option Char) :=
  match b.text? with
  | some s => s.toList.map some
  | none => scattered b

/-- The bytes that pairs of hexadecimal digits stand for; `none` for any other text. -/
def ofHex? (s : String) : Option Bytes :=
  pairs s.toList
where
  /-- One byte for every two digits. -/
  pairs : List Char → Option Bytes
    | [] => some []
    | [_] => none
    | a :: b :: rest => do
      let high ← digit a
      let low ← digit b
      let tail ← pairs rest
      return UInt8.ofNat (16 * high + low) :: tail
  /-- The value of one digit. -/
  digit (c : Char) : Option Nat :=
    if c.isDigit then some (c.toNat - '0'.toNat)
    else if 'a' ≤ c ∧ c ≤ 'f' then some (c.toNat - 'a'.toNat + 10)
    else if 'A' ≤ c ∧ c ≤ 'F' then some (c.toNat - 'A'.toNat + 10)
    else none

/-- Two lower-case hexadecimal digits for every byte. -/
def hex (b : Bytes) : String :=
  String.ofList (b.flatMap fun x => [Nat.digitChar (x.toNat / 16), Nat.digitChar (x.toNat % 16)])

end Bytes

end NearCache
