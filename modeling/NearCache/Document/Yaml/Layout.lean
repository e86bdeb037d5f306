import NearCache.Document.Yaml.Token
/-!
# From text to tokens

`tokens?` cuts a text into tokens.  Outside of brackets, the column in which something stands says
what it belongs to; a stack of columns turns that into `blockList`, `blockRecord` and `blockEnd`.

That something is a key shows only at the colon behind it.  Whatever may be a key is therefore
remembered, once per open bracket, with its place among the tokens, and the colon puts the token
`key` there afterwards.  A key is given up at the end of its line and after 1024 bytes of UTF-8.
-/

namespace NearCache.Document.Yaml

/-- Something that may turn out to be a key. -/
structure Candidate where
  /-- Whether nothing but a key may stand there. -/
  required : Bool
  /-- Its place among the tokens. -/
  position : Nat
  index : Nat
  line : Nat
  column : Nat

/-- How far the cutting has come. -/
structure Layout where
  cursor : Cursor
  tokens : Array Token := #[]
  /-- How many brackets are open. -/
  flow : Nat := 0
  /-- The column of the innermost block; -1 outside of blocks. -/
  indent : Int := -1
  /-- The columns of the blocks around it. -/
  outer : List Int := []
  /-- Whether a key may stand here. -/
  keyAllowed : Bool := true
  /-- The candidate of the innermost bracket. -/
  candidate : Option Candidate := none
  /-- The candidates of the brackets around it. -/
  outerCandidates : List (Option Candidate) := []

namespace Layout

/-- Adds a token at the end. -/
def push (l : Layout) (t : Token) : Layout := { l with tokens := l.tokens.push t }

/-- Adds a token before the one at a position. -/
def insertAt (l : Layout) (position : Nat) (t : Token) : Layout :=
  { l with tokens := l.tokens.insertIdxIfInBounds position t }

/-! ## Candidates for keys -/

/-- Whether a candidate is out of reach of a colon. -/
def isStale (c : Cursor) (k : Candidate) : Bool := k.line < c.line || k.index + 1024 < c.index

/-- Gives a candidate up if it is out of reach; one that had to be a key is an error then. -/
def refresh (c : Cursor) : Option Candidate → Option (Option Candidate)
  | none => some none
  | some k => if isStale c k then if k.required then none else some none else some (some k)

/-- Gives up all candidates that are out of reach. -/
def refreshAll (l : Layout) : Option Layout := do
  return { l with
    candidate := ← refresh l.cursor l.candidate
    outerCandidates := ← l.outerCandidates.mapM (refresh l.cursor) }

/-- Gives up the innermost candidate; one that had to be a key is an error. -/
def dropCandidate (l : Layout) : Option Layout :=
  if l.candidate.any (·.required) then none else some { l with candidate := none }

/-- Remembers that what comes next may be a key, where one may stand. -/
def noteCandidate (l : Layout) : Option Layout :=
  if l.keyAllowed then do
    let c := l.cursor
    let required := l.flow = 0 && l.indent = c.column
    let l ← l.dropCandidate
    return { l with candidate := some ⟨required, l.tokens.size, c.index, c.line, c.column⟩ }
  else some l

/-! ## Blocks -/

/-- Opens a block at a column, unless the innermost one is as far to the right already.  Its token
is put at a position, or at the end. -/
def openBlock (l : Layout) (column : Nat) (position : Option Nat) (t : Token) : Layout :=
  if l.flow = 0 && l.indent < column then
    let l := { l with outer := l.indent :: l.outer, indent := column }
    match position with
    | some p => l.insertAt p t
    | none => l.push t
  else l

/-- Closes all blocks to the right of a column. -/
def closeBlocks (column : Int) : List Int → Layout → Layout
  | [], l => l
  | i :: outer, l =>
    if column < l.indent then
      closeBlocks column outer { l.push .blockEnd with indent := i, outer }
    else l

/-- Closes the blocks to the right of a column, outside of brackets. -/
def closeTo (l : Layout) (column : Int) : Layout :=
  if l.flow = 0 then closeBlocks column l.outer l else l

/-! ## The way to the next token -/

/-- Passes over blanks, comments, byte order marks and ends of lines.  Outside of brackets a key may
stand on every new line, and where one may stand, tabs may not. -/
def skipToToken : Nat → Layout → Layout
  | 0, l => l
  | fuel + 1, l =>
    let tabs := 0 < l.flow || !l.keyAllowed
    let c := (l.cursor.skipOrderMark.takeWhile fun x => x = ' ' || (tabs && x = '\t')).2.skipComment
    if c.isNext isBreak then
      skipToToken fuel { l with cursor := c.stepLine, keyAllowed := l.flow = 0 || l.keyAllowed }
    else { l with cursor := c }

/-! ## Tokens -/

/-- Adds a token and goes on behind it. -/
def emit (l : Layout) (t : Token) (c : Cursor) : Layout := { l.push t with cursor := c }

/-- A mark between documents. -/
def documentMark (l : Layout) (t : Token) : Option Layout := do
  let l ← (l.closeTo (-1)).dropCandidate
  return { l with keyAllowed := false }.emit t (l.cursor.steps 3)

/-- A directive. -/
def directive (l : Layout) : Option Layout := do
  let l ← (l.closeTo (-1)).dropCandidate
  let (t, c) ← scanDirective l.cursor.step
  return { l with keyAllowed := false }.emit t c

/-- An opening bracket. -/
def openFlow (l : Layout) (t : Token) : Option Layout := do
  let l ← l.noteCandidate
  return { l with
    flow := l.flow + 1
    keyAllowed := true
    candidate := none
    outerCandidates := l.candidate :: l.outerCandidates }.emit t l.cursor.step

/-- A closing bracket. -/
def closeFlow (l : Layout) (t : Token) : Option Layout := do
  let l ← l.dropCandidate
  let l := match l.outerCandidates with
    | [] => l
    | k :: rest => { l with flow := l.flow - 1, candidate := k, outerCandidates := rest }
  return { l with keyAllowed := false }.emit t l.cursor.step

/-- A comma. -/
def comma (l : Layout) : Option Layout := do
  let l ← l.dropCandidate
  return { l with keyAllowed := true }.emit .flowEntry l.cursor.step

/-- A dash. -/
def dash (l : Layout) : Option Layout := do
  guard (0 < l.flow || l.keyAllowed)
  let l ← (l.openBlock l.cursor.column none .blockList).dropCandidate
  return { l with keyAllowed := true }.emit .blockEntry l.cursor.step

/-- A question mark. -/
def question (l : Layout) : Option Layout := do
  guard (0 < l.flow || l.keyAllowed)
  let l ← (l.openBlock l.cursor.column none .blockRecord).dropCandidate
  return { l with keyAllowed := l.flow = 0 }.emit .key l.cursor.step

/-- A colon. -/
def colon (l : Layout) : Option Layout :=
  match l.candidate with
  | some k =>
    let l := (l.insertAt k.position .key).openBlock k.column (some k.position) .blockRecord
    some ({ l with candidate := none, keyAllowed := false }.emit .value l.cursor.step)
  | none =>
    if l.flow = 0 && !l.keyAllowed then none
    else
      let l := l.openBlock l.cursor.column none .blockRecord
      some ({ l with keyAllowed := l.flow = 0 }.emit .value l.cursor.step)

/-- An anchor or an alias. -/
def named (l : Layout) (t : String → Token) : Option Layout := do
  let l ← l.noteCandidate
  let (name, c) ← scanAnchor l.cursor.step
  return { l with keyAllowed := false }.emit (t name) c

/-- A tag. -/
def tag (l : Layout) : Option Layout := do
  let l ← l.noteCandidate
  let (t, c) ← scanTag (0 < l.flow) l.cursor
  return { l with keyAllowed := false }.emit (.tag t) c

/-- A block scalar. -/
def block (l : Layout) (literal : Bool) : Option Layout := do
  let l ← l.dropCandidate
  let (s, c) ← scanBlock literal l.indent l.cursor.step
  let style := if literal then Style.literal else .quoted
  return { l with keyAllowed := true }.emit (.scalar style (String.ofList s)) c

/-- A quoted scalar. -/
def quoted (l : Layout) (single : Bool) : Option Layout := do
  let l ← l.noteCandidate
  let c := l.cursor.step
  let (s, c) ← scanQuoted single (c.rest.length + 1) [] c
  return { l with keyAllowed := false }.emit (.scalar .quoted (String.ofList s)) c

/-- A plain scalar. -/
def plain (l : Layout) : Option Layout := do
  let l ← l.noteCandidate
  let c := l.cursor
  let p ← scanPlain (0 < l.flow) (l.indent + 1).toNat (c.rest.length + 1) [] {} c
  return { l with keyAllowed := p.lineEnded }.emit (.scalar .plain (String.ofList p.chars)) p.cursor

/-- Whether a plain scalar may begin here. -/
def beginsPlain (l : Layout) : Bool :=
  let c := l.cursor
  let marks := ['-', '?', ':', ',', '[', ']', '\x7b', '\x7d', '#', '&', '*', '!', '|', '>', '\'',
    '"', '%', '@', '\x60']
  !(c.endsAt 0 || c.isNext (· ∈ marks)) ||
    (c.sees '-' && !c.isAhead isBlank 1) ||
    (l.flow = 0 && c.isNext (fun x => x = '?' || x = ':') && !c.endsAt 1)

/-- The next token, in front of which the cursor stands. -/
def token (l : Layout) (x : Char) : Option Layout :=
  let c := l.cursor
  let inFlow : Bool := 0 < l.flow
  if c.column = 0 && x = '%' then l.directive
  else if c.atMark '-' then l.documentMark .documentStart
  else if c.atMark '.' then l.documentMark .documentEnd
  else if x = '[' then l.openFlow .flowListStart
  else if x = '\x7b' then l.openFlow .flowRecordStart
  else if x = ']' then l.closeFlow .flowListEnd
  else if x = '\x7d' then l.closeFlow .flowRecordEnd
  else if x = ',' then l.comma
  else if x = '-' && c.endsAt 1 then l.dash
  else if x = '?' && (inFlow || c.endsAt 1) then l.question
  else if x = ':' && (inFlow || c.endsAt 1) then l.colon
  else if x = '*' then l.named .alias
  else if x = '&' then l.named .anchor
  else if x = '!' then l.tag
  else if x = '|' && !inFlow then l.block true
  else if x = '>' && !inFlow then l.block false
  else if x = '\'' then l.quoted true
  else if x = '"' then l.quoted false
  else if l.beginsPlain then l.plain
  else none

/-- Cuts the rest of the text. -/
def run : Nat → Layout → Option (List Token)
  | 0, _ => none
  | fuel + 1, l => do
    let l ← (skipToToken (l.cursor.rest.length + 1) l).refreshAll
    match l.cursor.next? with
    | none =>
      let l ← (l.closeTo (-1)).dropCandidate
      return l.tokens.toList
    | some x => run fuel (← (l.closeTo l.cursor.column).token x)

end Layout

/-- The tokens of a text, unless it cannot be cut. -/
def tokens? (s : String) : Option (List Token) :=
  let cs := s.toList
  if cs.all isAllowed then Layout.run (cs.length + 1) { cursor := { rest := cs } } else none

end NearCache.Document.Yaml
