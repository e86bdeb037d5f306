import NearCache.Fault
import NearCache.Journal
/-!
# Publishing events

Events go to sinks: a journal, a log, or a sink that fails.  A fan-out passes every event to each of
its sinks in turn, whatever the others do, and reports the first failure.  A sink that is listed
several times gets every event as many times.
-/

namespace NearCache

/-- How important a log record is. -/
inductive LogLevel where
  | debug
  | info
  | warn
  deriving DecidableEq, Repr

/-- The name of a level. -/
def LogLevel.name : LogLevel → String
  | debug => "DEBUG"
  | info => "INFO"
  | warn => "WARN"

/-- One line of a log, by fields.  An event that concerns no node or no cache has a dash there. -/
structure LogRecord where
  level : LogLevel
  kind : String
  node : String
  cache : String
  reason : Option String
  /-- Whether the record tells when the event happened. -/
  timed : Bool
  deriving DecidableEq, Repr

/-- The text that all log records share. -/
def LogRecord.message : String := "Domain event"

/-- The record of an event in a log of a given level.  A failed selector is always a warning. -/
def LogRecord.ofEvent (level : LogLevel) (e : Event) : LogRecord :=
  let node := e.node?.getD "-"
  let cache := e.cache?.getD "-"
  match e with
  | .selectorFailed _ _ reason => ⟨.warn, e.kind, node, cache, some reason, false⟩
  | _ => ⟨level, e.kind, node, cache, none, true⟩

/-- Something that takes events. -/
inductive Sink where
  | journal (j : Journal)
  | log (level : LogLevel) (records : List LogRecord)
  | failing (fault : Fault)
  deriving DecidableEq

namespace Sink

/-- Passes one event to a sink. -/
def publish (s : Sink) (e : Event) : Outcome Unit × Sink :=
  match s with
  | journal j => (.ok (), journal (j.push e))
  | log level records => (.ok (), log level (records ++ [LogRecord.ofEvent level e]))
  | failing fault => (.error fault, failing fault)

/-- Passes events to a sink at once.  A sink that fails does so even if there are none. -/
def publishAll (s : Sink) (es : List Event) : Outcome Unit × Sink :=
  match s with
  | journal j => (.ok (), journal (j.append es))
  | log level records => (.ok (), log level (records ++ es.map (LogRecord.ofEvent level)))
  | failing fault => (.error fault, failing fault)

/-- The journal of a sink that is one. -/
def journal? : Sink → Option Journal
  | journal j => some j
  | _ => none

end Sink

/-- Sinks, and which of them are addressed: in this order, and as often as they are listed. -/
structure Fanout where
  sinks : List Sink := []
  targets : List Nat := []
  deriving DecidableEq

namespace Fanout

/-- The fan-out that addresses each of some sinks once. -/
def ofSinks (sinks : List Sink) : Fanout := ⟨sinks, List.range sinks.length⟩

/-- The first of two outcomes that is a failure. -/
def firstFailure (a b : Outcome Unit) : Outcome Unit :=
  match a with
  | .error e => .error e
  | .ok () => b

/-- Applies an action to the sink at each target in turn. -/
def each (act : Sink → Outcome Unit × Sink) : List Nat → List Sink → Outcome Unit × List Sink
  | [], sinks => (.ok (), sinks)
  | i :: rest, sinks =>
    match sinks[i]? with
    | none => each act rest sinks
    | some s =>
      let (r, s) := act s
      let (r', sinks) := each act rest (sinks.set i s)
      (firstFailure r r', sinks)

/-- Passes one event to every target. -/
def publish (f : Fanout) (e : Event) : Outcome Unit × Fanout :=
  let (r, sinks) := each (·.publish e) f.targets f.sinks
  (r, { f with sinks })

/-- Passes events to every target at once. -/
def publishAll (f : Fanout) (es : List Event) : Outcome Unit × Fanout :=
  let (r, sinks) := each (·.publishAll es) f.targets f.sinks
  (r, { f with sinks })

/-- How many targets the fan-out has. -/
def size (f : Fanout) : Nat := f.targets.length

/-- The journals among the sinks, in order. -/
def journals (f : Fanout) : List Journal := f.sinks.filterMap Sink.journal?

/-- One line for a developer. -/
def describe (f : Fanout) : String :=
  "CompositeEventPublisher \x7b publisher_count: " ++ toString f.size ++ " \x7d"

end Fanout

end NearCache
