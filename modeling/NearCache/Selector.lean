import NearCache.Fault
/-!
# Selectors

A selector names the members that get a near cache for a cache: all of them, those with one of
some names, or those with certain attribute values.  `test` decides one member and can fail, since
a member's name is read from its attributes; `selects` takes a failure for "no".  `check` finds
the selectors that cannot be meant.
-/

namespace NearCache

/-- A finite set of names, in order. -/
abbrev Names := Table String Unit

/-- Which members get a near cache. -/
inductive Selector where
  | everyone
  | named (names : Names)
  | withAttribute (key : String) (value : AttrValue)
  | withAttributes (attributes : Attributes)
  deriving DecidableEq

namespace Selector

instance : Inhabited Selector := ⟨everyone⟩

/-- The selector for a list of names; order and repetition do not matter. -/
def ofNames (names : List String) : Selector :=
  named (Table.ofList (names.map fun n => (n, ())))

/-- The selector for a list of attributes; of two values for one key the later one counts. -/
def ofAttributes (attributes : List (String × AttrValue)) : Selector :=
  withAttributes (Table.ofList attributes)

/-- Whether a member is meant.  Names are compared with the name that the member's attributes give
it; attributes are compared with their kind. -/
def test (s : Selector) (m : Member) : Outcome Bool :=
  match s with
  | everyone => .ok true
  | named names =>
    match m.attribute? Member.nameKey with
    | some (.text name) => .ok (names.contains name)
    | some v => .error (.selection m.name (.notText v))
    | none => .error (.selection m.name .missing)
  | withAttribute key value => .ok (m.attribute? key = some value)
  | withAttributes attributes =>
    .ok (attributes.entries.all fun (key, value) => m.attribute? key = some value)

/-- Whether a member is meant, where a failure means that it is not. -/
def selects (s : Selector) (m : Member) : Bool :=
  match s.test m with
  | .ok b => b
  | .error _ => false

/-- Finds a selector that cannot be meant: one that lists nothing, or an empty name or key. -/
def check : Selector → Outcome Unit
  | everyone => .ok ()
  | named names =>
    if names.isEmpty then .error (.config .noNames)
    else if names.contains "" then .error (.config .emptyName)
    else .ok ()
  | withAttribute key _ => if key = "" then .error (.config .emptyKey) else .ok ()
  | withAttributes attributes =>
    if attributes.isEmpty then .error (.config .noAttributes)
    else if attributes.contains "" then .error (.config .emptyKey)
    else .ok ()

/-- The selector in one line. -/
def display : Selector → String
  | everyone => "all"
  | named names => "names[" ++ ",".intercalate names.keys ++ "]"
  | withAttribute key value => "attr[" ++ key ++ "=" ++ value.display ++ "]"
  | withAttributes attributes =>
    "attrs[" ++ ",".intercalate (attributes.entries.map fun (k, v) => k ++ "=" ++ v.display) ++ "]"

end Selector

end NearCache
