import NearCache.Document.Mismatch
import NearCache.Member
/-!
# What can go wrong

Every failure of the library is one cause of type `Fault`.  The wording stands in one place,
`Fault.message`, and only an unreachable store counts as a failure of the network
(`Fault.isRemote_iff`).
-/

namespace NearCache

/-- What is wrong with a configuration. -/
inductive ConfigProblem where
  | blankCacheName
  | blankInstanceName
  /-- A node lists a cache name a second time. -/
  | repeatedCache (cache node : String)
  /-- A late cache names a creator that the deployment does not have. -/
  | unknownCreator (cache node : String)
  | noNames
  | emptyName
  | emptyKey
  | noAttributes
  /-- A file whose extension names no known format. -/
  | unknownExtension (ext : Option String) (path : String)
  | other (text : String)
  deriving DecidableEq, Repr

/-- The wording of a configuration problem. -/
def ConfigProblem.message : ConfigProblem → String
  | blankCacheName => "cache name must not be empty"
  | blankInstanceName => "instance name must not be empty"
  | repeatedCache cache node =>
    "cache " ++ cache ++ " configured twice on node " ++ node ++ ", keeping the first"
  | unknownCreator cache node => "cache " ++ cache ++ " created by unknown node " ++ node
  | noNames => "name filter must list at least one node name"
  | emptyName => "name filter contains an empty node name"
  | emptyKey => "attribute filter key must not be empty"
  | noAttributes => "attribute filter must list at least one attribute"
  | unknownExtension ext path =>
    let shown := match ext with
      | some e => "Some(" ++ Text.quoted e ++ ")"
      | none => "None"
    "unsupported configuration file extension " ++ shown ++ " for " ++ path
  | other text => text

/-- Why a member's name could not be compared. -/
inductive NameProblem where
  | missing
  | notText (value : AttrValue)
  | other (text : String)
  deriving DecidableEq, Repr

/-- The wording of a name problem. -/
def NameProblem.message : NameProblem → String
  | missing => "attribute " ++ Member.nameKey ++ " is missing"
  | notText v => "attribute " ++ Member.nameKey ++ " is not a string: " ++ v.display
  | other text => text

/-- Why a file could not be read. -/
inductive FileProblem where
  | notFound
  | isDirectory
  /-- A name in the path is longer than file systems allow. -/
  | nameTooLong
  /-- The path holds U+0000. -/
  | zeroInName
  | notText
  | other (text : String)
  deriving DecidableEq, Repr

/-- The wording of a file problem. -/
def FileProblem.message : FileProblem → String
  | notFound => "No such file or directory (os error 2)"
  | isDirectory => "Is a directory (os error 21)"
  | nameTooLong => "File name too long (os error 36)"
  | zeroInName => "file name contained an unexpected NUL byte"
  | notText => "stream did not contain valid UTF-8"
  | other text => text

/-- A node that was asked for, by its name or by its number. -/
inductive NodeRef where
  | name (s : String)
  | id (n : MemberId)
  deriving DecidableEq, Repr

/-- How a node that was asked for is shown. -/
def NodeRef.display : NodeRef → String
  | name s => s
  | id n => n.display

/-- The causes of failure. -/
inductive Fault where
  | config (problem : ConfigProblem)
  | selection (node : String) (problem : NameProblem)
  | yaml
  | json (mismatch : Document.Mismatch)
  | file (problem : FileProblem)
  | nodeNotFound (node : NodeRef)
  | nodeNameTaken (name : String)
  | nodeStopped (name : String)
  | cacheNotFound (name : String)
  | cacheExists (name : String)
  | storeUnavailable (cache reason : String)
  | internal (text : String)
  deriving DecidableEq, Repr

namespace Fault

/-- The wording of a failure. -/
def message : Fault → String
  | config p => "Configuration error: " ++ p.message
  | selection node p => "Filter evaluation failed on node " ++ node ++ ": " ++ p.message
  | yaml => "YAML parse error"
  | json m => "Serialization error: " ++ m.text?.getD "malformed document"
  | file p => "I/O error: " ++ p.message
  | nodeNotFound node => "Node not found: " ++ node.display
  | nodeNameTaken name => "Duplicate node name: " ++ name
  | nodeStopped name => "Node stopped: " ++ name
  | cacheNotFound name => "Cache not found: " ++ name
  | cacheExists name => "Cache already exists: " ++ name
  | storeUnavailable cache reason =>
    "Distributed store unavailable for cache " ++ cache ++ ": " ++ reason
  | internal text => "Internal error: " ++ text

/-- Whether the store could not be reached. -/
def isRemote : Fault → Bool
  | storeUnavailable .. => true
  | _ => false

theorem isRemote_iff (f : Fault) :
    f.isRemote = true ↔ ∃ cache reason, f = storeUnavailable cache reason := by
  cases f <;> simp [isRemote]

end Fault

/-- A result, or the cause why there is none. -/
abbrev Outcome (α : Type) := Except Fault α

end NearCache
