import NearCache.Document.Yaml.Anchors
import NearCache.Form.Config
/-!
# Configuration files

A configuration is read from a JSON or YAML text.  Of a file, the end of its name says which of the
two it is: what stands behind the last dot, unless nothing stands in front of it.
-/

namespace NearCache

open Document

/-- The formats of configurations. -/
inductive Format where
  | json
  | yaml
  deriving DecidableEq, Repr

/-- Reads a value from a YAML text. -/
def Form.ofYaml {α : Type} [Form α] (s : String) : Outcome α :=
  match Yaml.read? s with
  | none => .error .yaml
  | some (t, follows) => ((Form.read .yaml t).run' follows).mapError fun _ => .yaml

namespace Format

/-- The format that an extension stands for. -/
def ofExtension? (ext : Option String) : Option Format :=
  match ext with
  | some "json" => some json
  | some "yaml" | some "yml" => some yaml
  | _ => none

/-- Reads a value from a text in the format. -/
def read {α : Type} [Form α] (f : Format) (s : String) : Outcome α :=
  match f with
  | json => Form.ofJson s
  | yaml => Form.ofYaml s

end Format

namespace ConfigFile

/-- The extension of the file that a path names, if it has one. -/
def extension? (path : String) : Option String :=
  let backwards := path.toList.reverse.takeWhile (· ≠ '/')
  let ending := backwards.takeWhile (· ≠ '.')
  let rest := (backwards.drop ending.length).drop 1
  if rest.isEmpty then none else some (String.ofList ending.reverse)

/-- How many bytes a path may have. -/
def longestPath : Nat := 4095

/-- How many bytes a name in a path may have. -/
def longestName : Nat := 255

/-- Why a path in a directory without files cannot be read.  One that leads nowhere names a directory. -/
def problem (path : String) : FileProblem :=
  if longestPath < path.utf8ByteSize then .nameTooLong
  else
    match (path.splitOn "/").find? (· ∉ ["", ".", ".."]) with
    | none => .isDirectory
    | some name => if longestName < name.utf8ByteSize then .nameTooLong else .notFound

/-- Reads a value from the file at a path, given its content; without a content there is no file. -/
def load {α : Type} [Form α] (path : String) (content : Option Bytes) : Outcome α := do
  if '\x00' ∈ path.toList then throw (.file .zeroInName)
  let some bytes := content | throw (.file (problem path))
  let some text := bytes.text? | throw (.file .notText)
  let ext := extension? path
  match Format.ofExtension? ext with
  | some f => f.read text
  | none => throw (.config (.unknownExtension ext path))

end ConfigFile

end NearCache
