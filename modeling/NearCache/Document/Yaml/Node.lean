import NearCache.Document.Yaml.Token
/-!
# From tokens to nodes

`document?` reads the tokens of a text that holds one document.  Its nodes still bear their anchors,
and aliases stand where they stood in the text.
-/

namespace NearCache.Document.Yaml

/-- What stands in front of a node: the name that aliases call it by, and its tag. -/
structure Props where
  anchor : Option String := none
  tag : Option Tag := none
  deriving DecidableEq, Repr

/-- A node, in which aliases are called by an `α`. -/
inductive Node (α : Type) where
  | alias (a : α)
  | scalar (props : Props) (style : Style) (s : String)
  | list (props : Props) (items : List (Node α))
  | record (props : Props) (fields : List (Node α × Node α))

/-- A node as it stands in a text. -/
abbrev TextNode := Node String

namespace TextNode

/-- A node that is not written at all. -/
def absent (props : Props) : TextNode := .scalar props .plain ""

/-- What the handles of tags stand for. -/
abbrev Handles := List (String × Tag)

/-- The handles that every document has. -/
def ownHandles : Handles := [("!", [Tag.ownMark]), ("!!", Tag.core "")]

/-- The tag that a text means. -/
def tagOf (handles : Handles) (t : TagText) : Option Tag :=
  if t.handle = "" then some t.suffix
  else (handles.find? (·.1 = t.handle)).map fun h => h.2 ++ t.suffix

/-- Reads what stands in front of a node: an anchor and a tag, in either order. -/
def props (handles : Handles) : List Token → Option (Props × List Token)
  | .anchor a :: .tag t :: ts | .tag t :: .anchor a :: ts =>
    (tagOf handles t).map fun tag => (⟨some a, some tag⟩, ts)
  | .anchor a :: ts => some (⟨some a, none⟩, ts)
  | .tag t :: ts => (tagOf handles t).map fun tag => (⟨none, some tag⟩, ts)
  | ts => some ({}, ts)

/-- Whether the tokens begin with one of some. -/
def begins (these : List Token) (ts : List Token) : Bool := ts.head?.any (· ∈ these)

mutual

/-- Reads a node.  Items of a block may stand without indentation of their own only where `bare`
says so. -/
def node (handles : Handles) (block bare : Bool) :
    Nat → List Token → Option (TextNode × List Token)
  | 0, _ => none
  | _ + 1, .alias a :: ts => some (.alias a, ts)
  | fuel + 1, ts => do
    let (p, ts) ← props handles ts
    match ts with
    | .scalar style s :: ts => return (.scalar p style s, ts)
    | .flowListStart :: ts =>
      let (items, ts) ← flowItems handles true fuel ts
      return (.list p items, ts)
    | .flowRecordStart :: ts =>
      let (fields, ts) ← flowFields handles true fuel ts
      return (.record p fields, ts)
    | .blockEntry :: ts =>
      if bare then
        let (items, ts) ← bareItems handles fuel (.blockEntry :: ts)
        return (.list p items, ts)
      else if p = {} then none
      else return (absent p, .blockEntry :: ts)
    | .blockList :: ts =>
      if block then
        let (items, ts) ← blockItems handles fuel ts
        return (.list p items, ts)
      else if p = {} then none
      else return (absent p, .blockList :: ts)
    | .blockRecord :: ts =>
      if block then
        let (fields, ts) ← blockFields handles fuel ts
        return (.record p fields, ts)
      else if p = {} then none
      else return (absent p, .blockRecord :: ts)
    | ts => if p = {} then none else return (absent p, ts)

/-- Reads a node, or none where one of some tokens follows. -/
def nodeUnless (handles : Handles) (these : List Token) (block bare : Bool) :
    Nat → List Token → Option (TextNode × List Token)
  | 0, _ => none
  | fuel + 1, ts =>
    if begins these ts then some (absent {}, ts) else node handles block bare fuel ts

/-- Reads the items of a block, and its end. -/
def blockItems (handles : Handles) : Nat → List Token → Option (List TextNode × List Token)
  | fuel + 1, .blockEntry :: ts => do
    let (n, ts) ← nodeUnless handles [.blockEntry, .blockEnd] true false fuel ts
    let (ns, ts) ← blockItems handles fuel ts
    return (n :: ns, ts)
  | _, .blockEnd :: ts => some ([], ts)
  | _, _ => none

/-- Reads items that have no block of their own. -/
def bareItems (handles : Handles) : Nat → List Token → Option (List TextNode × List Token)
  | 0, _ => none
  | fuel + 1, .blockEntry :: ts => do
    let (n, ts) ← nodeUnless handles [.blockEntry, .key, .value, .blockEnd] true false fuel ts
    let (ns, ts) ← bareItems handles fuel ts
    return (n :: ns, ts)
  | _, ts => some ([], ts)

/-- Reads the fields of a block, and its end. -/
def blockFields (handles : Handles) :
    Nat → List Token → Option (List (TextNode × TextNode) × List Token)
  | fuel + 1, .key :: ts => do
    let ends : List Token := [.key, .value, .blockEnd]
    let (k, ts) ← nodeUnless handles ends true true fuel ts
    let (v, ts) ← match ts with
      | .value :: ts => nodeUnless handles ends true true fuel ts
      | ts => some (absent {}, ts)
    let (rest, ts) ← blockFields handles fuel ts
    return ((k, v) :: rest, ts)
  | _, .blockEnd :: ts => some ([], ts)
  | _, _ => none

/-- Reads the items of a list between brackets, and its end.  An item may be a single field. -/
def flowItems (handles : Handles) (first : Bool) :
    Nat → List Token → Option (List TextNode × List Token)
  | 0, _ => none
  | _, .flowListEnd :: ts => some ([], ts)
  | fuel + 1, ts => do
    let ts ← match first, ts with
      | true, ts => some ts
      | false, .flowEntry :: ts => some ts
      | false, _ => none
    match ts with
    | .flowListEnd :: ts => return ([], ts)
    | .key :: ts =>
      let (k, v, ts) ← flowPair handles fuel ts
      let (ns, ts) ← flowItems handles false fuel ts
      return (.record {} [(k, v)] :: ns, ts)
    | ts =>
      let (n, ts) ← node handles false false fuel ts
      let (ns, ts) ← flowItems handles false fuel ts
      return (n :: ns, ts)

/-- Reads a field that is an item of a list.  Where its key is not written, the token behind the
sign of the key is lost. -/
def flowPair (handles : Handles) :
    Nat → List Token → Option (TextNode × TextNode × List Token)
  | 0, _ => none
  | fuel + 1, ts => do
    let (k, ts) ←
      if begins [.value, .flowEntry, .flowListEnd] ts then some (absent {}, ts.drop 1)
      else node handles false false fuel ts
    let (v, ts) ← match ts with
      | .value :: ts => nodeUnless handles [.flowEntry, .flowListEnd] false false fuel ts
      | ts => some (absent {}, ts)
    return (k, v, ts)

/-- Reads the fields of a record between brackets, and its end.  A value may be left out. -/
def flowFields (handles : Handles) (first : Bool) :
    Nat → List Token → Option (List (TextNode × TextNode) × List Token)
  | 0, _ => none
  | _, .flowRecordEnd :: ts => some ([], ts)
  | fuel + 1, ts => do
    let ts ← match first, ts with
      | true, ts => some ts
      | false, .flowEntry :: ts => some ts
      | false, _ => none
    match ts with
    | .flowRecordEnd :: ts => return ([], ts)
    | .key :: ts =>
      let (k, ts) ← nodeUnless handles [.value, .flowEntry, .flowRecordEnd] false false fuel ts
      let (v, ts) ← match ts with
        | .value :: ts => nodeUnless handles [.flowEntry, .flowRecordEnd] false false fuel ts
        | ts => some (absent {}, ts)
      let (rest, ts) ← flowFields handles false fuel ts
      return ((k, v) :: rest, ts)
    | ts =>
      let (k, ts) ← node handles false false fuel ts
      let (rest, ts) ← flowFields handles false fuel ts
      return ((k, absent {}) :: rest, ts)

end

/-- Reads directives: one version at most, which must be known, and handles, each once. -/
def directives (version : Bool) (handles : Handles) :
    List Token → Option (Handles × List Token)
  | .version major minor :: ts => do
    guard (!version && major = 1 && (minor = 1 || minor = 2))
    directives true handles ts
  | .tagDirective handle beginning :: ts => do
    guard !(handles.any (·.1 = handle))
    directives version (handles ++ [(handle, beginning)]) ts
  | ts => some (handles, ts)

/-- How many steps suffice to read some tokens. -/
def fuelFor (ts : List Token) : Nat := 4 * (ts.length + 1)

/-- Reads the content of a document behind the mark of its beginning. -/
def content (handles : Handles) (ts : List Token) : Option (TextNode × List Token) :=
  match ts with
  | [] | .version .. :: _ | .tagDirective .. :: _ | .documentStart :: _ | .documentEnd :: _ =>
    some (absent {}, ts)
  | ts => node (handles ++ ownHandles) true false (fuelFor ts) ts

/-- Reads a document. -/
def opening (ts : List Token) : Option (TextNode × List Token) :=
  match ts with
  | [] => some (absent {}, [])
  | .version .. :: _ | .tagDirective .. :: _ | .documentStart :: _ => do
    match ← directives false [] ts with
    | (handles, .documentStart :: ts) => content handles ts
    | _ => none
  | ts => node ownHandles true false (fuelFor ts) ts

/-- The one document that the tokens make up. -/
def document? (ts : List Token) : Option TextNode := do
  let (n, rest) ← opening ts
  guard (rest.all (· = .documentEnd))
  return n

end TextNode

end NearCache.Document.Yaml
