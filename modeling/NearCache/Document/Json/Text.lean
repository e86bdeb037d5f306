import NearCache.Document.Tree
/-!
# Strings in JSON

`escape` writes the characters of a string between quotes; `string` reads them back and more: every
escape of the format, also where `escape` writes the character itself.

An escape of four digits stands for a unit of UTF-16.  Two of them may form one character; a half
without its other half has no value, and neither have bytes that are no text, but both do no harm
where the string is passed over.
-/

namespace NearCache.Document.Json

/-- A character of a document, or nothing where its bytes are none. -/
abbrev Piece := Option Char

/-- What remains of a document, or nothing once the document has broken off. -/
abbrev Remaining := Option (List Piece)

/-- The letter that stands behind a backslash for a character, if there is one. -/
def shortEscape? : Char → Option Char
  | '"' => some '"'
  | '\\' => some '\\'
  | '\x08' => some 'b'
  | '\x0c' => some 'f'
  | '\n' => some 'n'
  | '\r' => some 'r'
  | '\t' => some 't'
  | _ => none

/-- A character as it is written in a string: controls, quotes and backslashes are escaped. -/
def escapeChar (c : Char) : List Char :=
  match shortEscape? c with
  | some e => ['\\', e]
  | none =>
    if c.toNat < 0x20 then
      ['\\', 'u', '0', '0', Nat.digitChar (c.toNat / 16), Nat.digitChar (c.toNat % 16)]
    else [c]

/-- The characters of a string as they are written. -/
def escape (s : List Char) : List Char := s.flatMap escapeChar

/-- A string with its quotes. -/
def quote (s : String) : List Char := '"' :: (escape s.toList ++ ['"'])

/-- The character that a letter behind a backslash stands for. -/
def unescape? : Char → Option Char
  | '"' => some '"'
  | '\\' => some '\\'
  | '/' => some '/'
  | 'b' => some '\x08'
  | 'f' => some '\x0c'
  | 'n' => some '\n'
  | 'r' => some '\r'
  | 't' => some '\t'
  | _ => none

/-- The value of a hexadecimal digit. -/
def hexDigit? (c : Char) : Option Nat :=
  if c.isDigit then some (c.toNat - '0'.toNat)
  else if 'a' ≤ c ∧ c ≤ 'f' then some (c.toNat - 'a'.toNat + 10)
  else if 'A' ≤ c ∧ c ≤ 'F' then some (c.toNat - 'A'.toNat + 10)
  else none

/-- The value of four hexadecimal digits. -/
def unit? (a b c d : Char) : Option Nat := do
  return ((← hexDigit? a) * 16 + (← hexDigit? b)) * 256 + (← hexDigit? c) * 16 + (← hexDigit? d)

/-- Whether a unit is the first half of a character. -/
def isHighHalf (u : Nat) : Bool := 0xD800 ≤ u && u ≤ 0xDBFF

/-- Whether a unit is the second half of a character. -/
def isLowHalf (u : Nat) : Bool := 0xDC00 ≤ u && u ≤ 0xDFFF

/-- The character of two halves. -/
def joinHalves (high low : Nat) : Char :=
  Char.ofNat (0x10000 + (high - 0xD800) * 0x400 + (low - 0xDC00))

/-- Reads an escape behind its backslash: the character that it stands for, or nothing where half a
character stands alone, and what remains. -/
def escaped? : List Piece → Option (Option Char × List Piece)
  | some 'u' :: some a :: some b :: some c :: some d :: rest => do
    let u ← unit? a b c d
    if isHighHalf u then
      match rest with
      | some '\\' :: some 'u' :: some e :: some f :: some g :: some h :: rest' =>
        let w ← unit? e f g h
        return if isLowHalf w then (some (joinHalves u w), rest') else (none, rest)
      | _ => return (none, rest)
    else return (if isLowHalf u then none else some (Char.ofNat u), rest)
  | some e :: rest => (unescape? e).map fun c => (some c, rest)
  | none :: _ | [] => none

theorem length_escaped {s rest : List Piece} {c : Option Char} (h : escaped? s = some (c, rest)) :
    rest.length < s.length := by
  unfold escaped? at h
  split at h
  · simp only [Option.bind_eq_bind, Option.bind_eq_some_iff, Option.pure_def] at h
    obtain ⟨u, -, h⟩ := h
    split at h
    · split at h
      · obtain ⟨w, -, h⟩ := Option.bind_eq_some_iff.1 h
        simp only [Option.some.injEq] at h
        split at h
        · cases h; simp; omega
        · cases h; simp
      · cases h; simp; omega
    · cases h; simp; omega
  · obtain ⟨x, -, h⟩ := Option.map_eq_some_iff.1 h
    cases h; simp
  · cases h
  · cases h

/-- Reads a string behind its opening quote.  The characters so far stand latest first; there are
none any more once one of them has no value. -/
def string (got : Option (List Char)) (s : List Piece) : Tree × Remaining :=
  match s with
  | [] => (.broken, none)
  | none :: rest => string none rest
  | some '"' :: rest =>
    match got with
    | some cs => (.text (String.ofList cs.reverse), some rest)
    | none => (.unreadable, some rest)
  | some '\\' :: rest =>
    match h : escaped? rest with
    | some (c, rest') =>
      have := length_escaped h
      string (do return (← c) :: (← got)) rest'
    | none => (.broken, none)
  | some c :: rest => if c.toNat < 0x20 then (.broken, none) else string (got.map (c :: ·)) rest
termination_by s.length

end NearCache.Document.Json
