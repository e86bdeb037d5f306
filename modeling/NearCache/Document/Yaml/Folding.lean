import NearCache.Document.Yaml.Cursor
/-!
# Scalars over several lines

The three ways to write a scalar: plain, between quotes, and as a block of indented lines.  Each may
go over several lines, and where lines are folded, a single end of line becomes a space while
further ones stay.
-/

namespace NearCache.Document.Yaml

/-- What the white space between two pieces of a scalar amounts to. -/
structure Gap where
  /-- The blanks, as long as no line has ended. -/
  blanks : List Char := []
  /-- Whether a line has ended. -/
  broken : Bool := false
  /-- The first end of line. -/
  first : List Char := []
  /-- The further ends of lines. -/
  further : List Char := []

namespace Gap

/-- The characters that the gap leaves in the scalar. -/
def fold (g : Gap) : List Char :=
  if g.broken then
    if g.first = ['\n'] then
      if g.further.isEmpty then [' '] else g.further
    else g.first ++ g.further
  else g.blanks

end Gap

/-- Reads the white space in front.  No line but the first may begin with a tab left of `indent`. -/
def scanGap (indent : Nat) : Nat → Gap → Cursor → Option (Gap × Cursor)
  | 0, _, _ => none
  | fuel + 1, g, c =>
    match c.next? with
    | none => some (g, c)
    | some x =>
      if isBlank x then
        if g.broken then
          if x = '\t' && c.column < indent then none else scanGap indent fuel g c.step
        else scanGap indent fuel { g with blanks := g.blanks ++ [x] } c.step
      else if isBreak x then
        let g := if g.broken then { g with further := g.further ++ c.lineBreak }
          else { g with broken := true, first := c.lineBreak }
        scanGap indent fuel g c.stepLine
      else some (g, c)

/-! ## Plain scalars -/

/-- The characters that structure lists and records between brackets. -/
def isFlowMark (x : Char) : Bool :=
  x = ',' || x = '[' || x = ']' || x = '\x7b' || x = '\x7d'

/-- Reads the characters of a plain scalar up to the next white space or to its end.  Between
brackets a colon may not stand before a mark. -/
def scanPlainPiece (flow : Bool) : Nat → Cursor → Option (List Char × Cursor)
  | 0, _ => none
  | fuel + 1, c =>
    if c.endsAt 0 then some ([], c)
    else if flow && c.sees ':' && c.isAhead (fun x => isFlowMark x || x = '?') 1 then none
    else if (c.sees ':' && c.endsAt 1) || (flow && c.isNext isFlowMark) then some ([], c)
    else
      match c.next? with
      | none => some ([], c)
      | some x => do
        let (xs, c) ← scanPlainPiece flow fuel c.step
        return (x :: xs, c)

/-- A plain scalar: its characters, whether a line ended behind it, and the place behind it. -/
structure Plain where
  chars : List Char
  lineEnded : Bool
  cursor : Cursor

/-- Reads a plain scalar behind what was read of it, in lines indented to `indent` at least. -/
def scanPlain (flow : Bool) (indent : Nat) : Nat → List Char → Gap → Cursor → Option Plain
  | 0, _, _, _ => none
  | fuel + 1, got, g, c => do
    if c.atAnyMark || c.sees '#' then return ⟨got, g.broken, c⟩
    let (piece, c') ← scanPlainPiece flow (c.rest.length + 1) c
    let (got, g) := if piece.isEmpty then (got, g) else (got ++ g.fold ++ piece, {})
    let c := c'
    if !c.isNext (fun x => isBlank x || isBreak x) then return ⟨got, g.broken, c⟩
    let (g, c) ← scanGap indent (c.rest.length + 1) g c
    if !flow && c.column < indent then return ⟨got, g.broken, c⟩
    scanPlain flow indent fuel got g c

/-! ## Quoted scalars -/

/-- The character that a letter behind a backslash stands for. -/
def escapeLetter? : Char → Option Char
  | '0' => some '\x00'
  | 'a' => some '\x07'
  | 'b' => some '\x08'
  | 't' | '\t' => some '\t'
  | 'n' => some '\n'
  | 'v' => some '\x0b'
  | 'f' => some '\x0c'
  | 'r' => some '\r'
  | 'e' => some '\x1b'
  | ' ' => some ' '
  | '"' => some '"'
  | '/' => some '/'
  | '\\' => some '\\'
  | 'N' => some '\u0085'
  | '_' => some '\u00a0'
  | 'L' => some '\u2028'
  | 'P' => some '\u2029'
  | _ => none

/-- How many hexadecimal digits stand behind a letter for a character. -/
def escapeWidth? : Char → Option Nat
  | 'x' => some 2
  | 'u' => some 4
  | 'U' => some 8
  | _ => none

/-- The value of a hexadecimal digit. -/
def hexValue? (c : Char) : Option Nat :=
  if c.isDigit then some (c.toNat - '0'.toNat)
  else if 'a' ≤ c ∧ c ≤ 'f' then some (c.toNat - 'a'.toNat + 10)
  else if 'A' ≤ c ∧ c ≤ 'F' then some (c.toNat - 'A'.toNat + 10)
  else none

/-- The character with a code point. -/
def character? (n : Nat) : Option Char := if n.isValidChar then some (Char.ofNat n) else none

/-- Reads an escape behind its backslash. -/
def scanEscape (c : Cursor) : Option (Char × Cursor) := do
  let x ← c.next?
  match escapeWidth? x with
  | none => return (← escapeLetter? x, c.step)
  | some width =>
    let c := c.step
    let digits := c.rest.take width
    guard (digits.length = width)
    let n ← digits.foldlM (fun n d => (hexValue? d).map (n * 16 + ·)) 0
    return (← character? n, c.steps width)

/-- Reads the characters of a quoted scalar up to the next white space or to its closing quote, and
whether a line ended there without counting. -/
def scanQuotedPiece (single : Bool) : Nat → Cursor → Option (List Char × Bool × Cursor)
  | 0, _ => none
  | fuel + 1, c =>
    let quote := if single then '\'' else '"'
    if c.endsAt 0 then some ([], false, c)
    else if single && c.rest.take 2 = [quote, quote] then do
      let (xs, b, c) ← scanQuotedPiece single fuel (c.steps 2)
      return (quote :: xs, b, c)
    else if c.sees quote then some ([], false, c)
    else if !single && c.sees '\\' then
      if c.isAhead isBreak 1 then some ([], true, c.step.stepLine)
      else do
        let (x, c) ← scanEscape c.step
        let (xs, b, c) ← scanQuotedPiece single fuel c
        return (x :: xs, b, c)
    else
      match c.next? with
      | none => some ([], false, c)
      | some x => do
        let (xs, b, c) ← scanQuotedPiece single fuel c.step
        return (x :: xs, b, c)

/-- Reads a quoted scalar behind its opening quote and behind what was read of it. -/
def scanQuoted (single : Bool) : Nat → List Char → Cursor → Option (List Char × Cursor)
  | 0, _, _ => none
  | fuel + 1, got, c => do
    guard !(c.atAnyMark || c.rest.isEmpty)
    let (piece, lineEnded, c) ← scanQuotedPiece single (c.rest.length + 1) c
    let got := got ++ piece
    if c.sees (if single then '\'' else '"') then return (got, c.step)
    let (g, c) ← scanGap 0 (c.rest.length + 1) { broken := lineEnded } c
    scanQuoted single fuel (got ++ g.fold) c

/-! ## Block scalars -/

/-- What becomes of the ends of lines at the end of a block. -/
inductive Chomping where
  | strip
  | clip
  | keep
  deriving DecidableEq

/-- The head of a block scalar: its chomping, and how far it is indented beyond what is around it,
if that is said. -/
structure BlockHead where
  chomping : Chomping := .clip
  increment : Option Nat := none

/-- Reads the sign of the chomping, if there is one. -/
def scanChomping (c : Cursor) : Option Chomping × Cursor :=
  if c.sees '+' then (some .keep, c.step)
  else if c.sees '-' then (some .strip, c.step)
  else (none, c)

/-- Reads the digit of the indentation, if there is one. -/
def scanIncrement (c : Cursor) : Option (Option Nat × Cursor) :=
  match c.next? with
  | some x =>
    if x = '0' then none
    else if x.isDigit then some (some (x.toNat - '0'.toNat), c.step)
    else some (none, c)
  | none => some (none, c)

/-- Reads the head of a block scalar: its two signs, in either order. -/
def scanBlockHead (c : Cursor) : Option (BlockHead × Cursor) := do
  match scanChomping c with
  | (some chomping, c) =>
    let (increment, c) ← scanIncrement c
    return ({ chomping, increment }, c)
  | (none, c) =>
    match ← scanIncrement c with
    | (none, c) => return ({}, c)
    | (increment, c) =>
      let (chomping, c) := scanChomping c
      return ({ chomping := chomping.getD .clip, increment }, c)

/-- Reads the indentation of lines, and the ends of empty ones.  With an indentation of zero it is
yet to be found: then all spaces are taken, and the answer tells the largest column met. -/
def scanIndent (indent : Nat) : Nat → List Char → Nat → Cursor →
    Option (List Char × Nat × Cursor)
  | 0, _, _, _ => none
  | fuel + 1, breaks, widest, c =>
    let wanted (c : Cursor) : Bool := indent = 0 || c.column < indent
    let spaces := (c.rest.takeWhile (· = ' ')).length
    let c := c.steps (if indent = 0 then spaces else min spaces (indent - c.column))
    let widest := max widest c.column
    if wanted c && c.sees '\t' then none
    else if c.isNext isBreak then
      scanIndent indent fuel (breaks ++ c.lineBreak) widest c.stepLine
    else some (breaks, widest, c)

/-- What is known of a block scalar while its lines are read. -/
structure BlockText where
  chars : List Char := []
  /-- The end of the line before. -/
  first : List Char := []
  /-- The ends of the empty lines since. -/
  further : List Char := []
  /-- Whether the line before begins with a blank, and so is not folded. -/
  indented : Bool := false

/-- Reads the lines of a block scalar. -/
def scanBlockLines (literal : Bool) (indent : Nat) : Nat → BlockText → Cursor →
    Option (BlockText × Cursor)
  | 0, _, _ => none
  | fuel + 1, b, c =>
    if c.column ≠ indent || c.rest.isEmpty then some (b, c)
    else do
      let blank := c.isNext isBlank
      let joint :=
        if !literal && b.first = ['\n'] && !b.indented && !blank then
          if b.further.isEmpty then [' '] else b.further
        else b.first ++ b.further
      let (line, c) := c.takeWhile fun x => !isBreak x
      let first := c.lineBreak
      let c := if c.rest.isEmpty then c else c.stepLine
      let (further, _, c) ← scanIndent indent (c.rest.length + 1) [] 0 c
      scanBlockLines literal indent fuel
        ⟨b.chars ++ joint ++ line, first, further, blank⟩ c

/-- Reads a block scalar behind its first sign, in a block that is indented to `parent`. -/
def scanBlock (literal : Bool) (parent : Int) (c : Cursor) : Option (List Char × Cursor) := do
  let (head, c) ← scanBlockHead c
  let c ← c.finishLine?
  let given : Nat := match head.increment with
    | some n => (max parent 0).toNat + n
    | none => 0
  let (further, widest, c) ← scanIndent given (c.rest.length + 1) [] 0 c
  let indent := if given = 0 then max widest (max (parent + 1) 1).toNat else given
  let (b, c) ← scanBlockLines literal indent (c.rest.length + 1) { further } c
  let tail := match head.chomping with
    | .strip => []
    | .clip => b.first
    | .keep => b.first ++ b.further
  return (b.chars ++ tail, c)

end NearCache.Document.Yaml
