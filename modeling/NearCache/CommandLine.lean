import NearCache.ConfigFile
import NearCache.Workload
/-!
# The command line

The program starts the deployment of a file, runs the sample workload on it and prints the metrics.
Wrong arguments are found before the file is looked at.
-/

namespace NearCache.CommandLine

/-- How a run ends: what it prints, and its exit code. -/
structure Result where
  exit : Nat
  output : String := ""
  deriving DecidableEq, Repr

/-- The largest count. -/
def largestCount : Nat := twoTo 64 - 1

/-- The count that a text writes: decimal digits, behind a plus sign or not. -/
def count? (s : String) : Option Nat :=
  let digits := match s.toList with
    | '+' :: ds => ds
    | ds => ds
  if digits.isEmpty || !digits.all Char.isDigit then none
  else
    let n := digits.foldl (fun n d => n * 10 + (d.toNat - '0'.toNat)) 0
    if n ≤ largestCount then some n else none

/-- A count, or its default if none is given. -/
def countOr (default : Nat) : Option String → Option Nat
  | none => some default
  | some s => count? s

/-- The number of keys that the workload uses by default. -/
def defaultKeys : Nat := 16

/-- The number of rounds that the workload reads by default. -/
def defaultRounds : Nat := 3

/-- Runs the program on the file at a path, given its content. -/
def run (path : String) (content : Option Bytes) (keys rounds : Option String) : Result :=
  match countOr defaultKeys keys, countOr defaultRounds rounds with
  | some keys, some rounds =>
    match (do Workload.report (← ConfigFile.load path content) keys rounds : Outcome String) with
    | .ok text => { exit := 0, output := text }
    | .error _ => { exit := 1 }
  | _, _ => { exit := 2 }

/-- The arguments of the program, each as its name and its text. -/
structure Arguments where
  file : String := "demos/cluster.yaml"
  keys : Option String := none
  rounds : Option String := none
  deriving DecidableEq, Repr

/-- Takes in one argument; `none` if there is no such. -/
def Arguments.set (a : Arguments) (name text : String) : Option Arguments :=
  match name with
  | "--cluster-file" => some { a with file := text }
  | "--keys" => some { a with keys := some text }
  | "--read-rounds" => some { a with rounds := some text }
  | "--log-level" => some a
  | _ => none

/-- An argument that holds its text behind an equals sign, taken apart. -/
def splitArgument (s : String) : String × Option String :=
  let name := s.toList.takeWhile (· ≠ '=')
  match s.toList.drop name.length with
  | [] => (s, none)
  | _ :: text => (String.ofList name, some (String.ofList text))

/-- Takes in arguments one after the other. -/
def Arguments.ofList (a : Arguments) : List String → Option Arguments
  | [] => some a
  | s :: rest =>
    match splitArgument s, rest with
    | (name, some text), rest => do (← a.set name text).ofList rest
    | (name, none), text :: rest => do (← a.set name text).ofList rest
    | (_, none), [] => none

end NearCache.CommandLine
