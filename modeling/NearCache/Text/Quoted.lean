import NearCache.Text.Hidden
/-!
# Quoted text

A text in quotes, as diagnostics show it: a quote and a backslash are escaped by a backslash, the
common controls have a letter, and every other character without a visible form is shown by its
code point in hexadecimal digits.
-/

namespace NearCache.Text

/-- One character between the quotes. -/
def quotedChar (c : Char) : List Char :=
  match c with
  | '\x00' => ['\\', '0']
  | '\t' => ['\\', 't']
  | '\r' => ['\\', 'r']
  | '\n' => ['\\', 'n']
  | '"' => ['\\', '"']
  | '\\' => ['\\', '\\']
  | c =>
    if isHidden c then ['\\', 'u', '\x7b'] ++ Nat.toDigits 16 c.toNat ++ ['\x7d'] else [c]

/-- The text in quotes. -/
def quoted (s : String) : String :=
  String.ofList ('"' :: (s.toList.flatMap quotedChar ++ ['"']))

/-- A list of texts in quotes, in brackets. -/
def quotedList (ss : List String) : String :=
  "[" ++ ", ".intercalate (ss.map quoted) ++ "]"

end NearCache.Text
