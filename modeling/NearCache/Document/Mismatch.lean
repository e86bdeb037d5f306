import NearCache.Number.Shortest
import NearCache.Text.Quoted
/-!
# Why a document does not describe what it should

A document is either not a document at all, or it is one that says something else than it should:
a value of another kind, out of range, too many or too few parts, an unknown choice, a field that
is missing or given twice.  `Mismatch.text?` words the second sort; the first has no wording.
-/

namespace NearCache.Document

/-- What a reader found where it looked for something else. -/
inductive Found where
  | null
  | bool (b : Bool)
  | integer (n : Int)
  | fraction (x : Binary64)
  | text (s : String)
  | list
  | record
  deriving DecidableEq, Repr

/-- What was found, in words. -/
def Found.phrase : Found → String
  | null => "null"
  | bool b => "boolean `" ++ (if b then "true" else "false") ++ "`"
  | integer n => "integer `" ++ toString n ++ "`"
  | fraction x => "floating point `" ++ x.text ++ "`"
  | text s => "string " ++ Text.quoted s
  | list => "sequence"
  | record => "map"

/-- Why reading a value from a document failed. -/
inductive Mismatch where
  /-- The text is no document of its format, or one that goes too deep. -/
  | malformed
  | wrongType (found : Found) (expected : String)
  | wrongValue (found : Found) (expected : String)
  | wrongLength (length : Nat) (expected : String)
  | unknownVariant (name : String) (choices : List String)
  | missingField (name : String)
  | repeatedField (name : String)
  /-- A value that may take several forms has none of them. -/
  | noForm (name : String)
  /-- A rule of the value itself, in its own words. -/
  | other (text : String)
  deriving DecidableEq, Repr

/-- A name as it is quoted in the texts below. -/
def ticked (name : String) : String := "`" ++ name ++ "`"

/-- The choices that were open, in words. -/
def choiceText : List String → String
  | [] => "there are no variants"
  | [a] => "expected " ++ ticked a
  | [a, b] => "expected " ++ ticked a ++ " or " ++ ticked b
  | choices => "expected one of " ++ ", ".intercalate (choices.map ticked)

/-- The wording of a mismatch; a malformed document has none. -/
def Mismatch.text? : Mismatch → Option String
  | malformed => none
  | wrongType found expected => some ("invalid type: " ++ found.phrase ++ ", expected " ++ expected)
  | wrongValue found expected => some ("invalid value: " ++ found.phrase ++ ", expected " ++ expected)
  | wrongLength length expected =>
    some ("invalid length " ++ toString length ++ ", expected " ++ expected)
  | unknownVariant name choices =>
    some ("unknown variant " ++ ticked name ++ ", " ++ choiceText choices)
  | missingField name => some ("missing field " ++ ticked name)
  | repeatedField name => some ("duplicate field " ++ ticked name)
  | noForm name => some ("data did not match any variant of untagged enum " ++ name)
  | other text => some text

end NearCache.Document
