import NearCache.Cluster
/-!
# Exposition of metrics

The counters of the caches as gauges in the Prometheus text format.  There are seven families of
gauges, and each has one series per node and cache, labelled with the cache, whether it has a near
cache there, and the node.

A board remembers what was last recorded.  `observe` records every cache of every running node and
drops the series of all others; `record` records one endpoint, whatever became of it.

A family knows a series by a digest of its label values.  Where the label values of two series make
up the same text, they are one series to it: the labels are those of the first that was recorded,
and the value is the last.
-/

namespace NearCache

instance : Key (List String) where
  irrefl := List.lt_irrefl
  trans := Trans.trans
  connected := Std.Trichotomous.trichotomous (r := (· < ·)) _ _

/-- The families of gauges, in the order of their names. -/
inductive Gauge where
  | gets
  | puts
  | removals
  | invalidations
  | entries
  | hits
  | remoteGets
  deriving DecidableEq, Repr

namespace Gauge

/-- All families, in the order of their names. -/
def all : List Gauge := [gets, puts, removals, invalidations, entries, hits, remoteGets]

/-- The name of a family. -/
def name : Gauge → String
  | gets => "platcache_cache_gets"
  | puts => "platcache_cache_puts"
  | removals => "platcache_cache_removals"
  | invalidations => "platcache_invalidations"
  | entries => "platcache_platform_entries"
  | hits => "platcache_platform_hits"
  | remoteGets => "platcache_remote_gets"

/-- What a family counts. -/
def help : Gauge → String
  | gets => "Reads issued by callers"
  | puts => "Writes issued by callers"
  | removals => "Removals issued by callers"
  | invalidations => "Platform cache entries changed by store notifications"
  | entries => "Live platform cache entries"
  | hits => "Reads served by the platform cache"
  | remoteGets => "Reads served by the distributed store"

/-- The number of a snapshot that a family shows. -/
def read (g : Gauge) (s : Snapshot) : Nat :=
  match g with
  | gets => s.counters.gets
  | puts => s.counters.puts
  | removals => s.counters.removals
  | invalidations => s.counters.invalidations
  | entries => s.entries
  | hits => s.counters.hits
  | remoteGets => s.counters.remoteGets

/-- The largest value of a gauge. -/
def largest : Nat := twoTo 63 - 1

end Gauge

/-- The labels of a series. -/
structure Labels where
  cache : String
  near : Bool
  node : String
  deriving DecidableEq

namespace Labels

/-- The names of the labels, in their order. -/
def names : List String := ["cache", "has_platform_cache", "node"]

/-- Whether there is a near cache, in words. -/
def nearText (l : Labels) : String := if l.near then "true" else "false"

/-- The values of the labels, in the order of the names. -/
def values (l : Labels) : List String := [l.cache, l.nearText, l.node]

/-- The labels of an endpoint. -/
def ofEndpoint (e : Endpoint) : Labels := ⟨e.name, e.hasNear, e.node⟩

/-- What a family knows a series by: for each byte of the label values, one value after the other,
an exclusive or and a multiplication by a prime, modulo 2^64. -/
def digest (l : Labels) : Nat :=
  let bytes := Bytes.ofText (l.node ++ l.cache ++ l.nearText)
  (bytes.foldl (fun (h : UInt64) x => (h ^^^ x.toUInt64) * 0x100000001b3) 0xcbf29ce484222325).toNat

/-- A label value between quotes. -/
def escape (s : String) : String :=
  String.ofList (s.toList.flatMap fun c =>
    match c with
    | '\\' => ['\\', '\\']
    | '\n' => ['\\', 'n']
    | '"' => ['\\', '"']
    | c => [c])

/-- The labels as they stand behind the name of a family. -/
def text (l : Labels) : String :=
  let pairs := (names.zip l.values).map fun (n, v) => n ++ "=\"" ++ escape v ++ "\""
  "\x7b" ++ ",".intercalate pairs ++ "\x7d"

end Labels

/-- One family's series by their digests: the labels and the value of each. -/
structure Family where
  gauge : Gauge
  series : Table Nat (Labels × Nat) := ∅
  deriving DecidableEq

namespace Family

/-- Sets the value of a series, which keeps its labels if there is one by the digest. -/
def set (f : Family) (l : Labels) (s : Snapshot) : Family :=
  let value := min (f.gauge.read s) Gauge.largest
  { f with series := f.series.alter l.digest fun old => some ((old.map (·.1)).getD l, value) }

/-- Drops a series. -/
def drop (f : Family) (l : Labels) : Family := { f with series := f.series.erase l.digest }

/-- The series in the order of their label values. -/
def inOrder (f : Family) : List (Labels × Nat) :=
  (Table.ofList (f.series.values.map fun e => (e.1.values, e))).values

/-- A value as text.  Values go through floating point, so large ones are rounded. -/
def valueText (n : Nat) : String :=
  match Binary64.ofNat n with
  | some x => toString (x.ratio.1 / x.ratio.2)
  | none => toString n

/-- The family as text: its help, its type, and a line per series.  A family without series has no
text. -/
def text (f : Family) : String :=
  if f.series.isEmpty then ""
  else
    let line (e : Labels × Nat) := f.gauge.name ++ e.1.text ++ " " ++ valueText e.2 ++ "\n"
    "# HELP " ++ f.gauge.name ++ " " ++ f.gauge.help ++ "\n" ++
      "# TYPE " ++ f.gauge.name ++ " gauge\n" ++ String.join (f.inOrder.map line)

end Family

/-- What was last recorded: the series of every family, and the labels that are in use. -/
structure Board where
  families : List Family := Gauge.all.map (⟨·, ∅⟩)
  series : Table (List String) Labels := ∅
  deriving DecidableEq

namespace Board

instance : Inhabited Board := ⟨{}⟩

/-- Records the counters of one endpoint. -/
def record (b : Board) (e : Endpoint) : Board :=
  let l := Labels.ofEndpoint e
  { families := b.families.map (·.set l e.snapshot), series := b.series.insert l.values l }

/-- Drops one series from every family. -/
def drop (b : Board) (l : Labels) : Board :=
  { families := b.families.map (·.drop l), series := b.series.erase l.values }

/-- The endpoints of the running nodes, in the order of the roster. -/
def liveEndpoints (c : Cluster) : List Endpoint :=
  c.roster.flatMap fun m =>
    match c.node m.name with
    | .error _ => []
    | .ok id => (c.endpointsOf id).filterMap fun (_, e) => c.fabric.endpoint? e

/-- Records every cache of every running node and drops all other series. -/
def observe (b : Board) (c : Cluster) : Board :=
  let live := liveEndpoints c
  let b := live.foldl record b
  let stale := b.series.values.filter fun l => l ∉ live.map Labels.ofEndpoint
  stale.foldl drop b

/-- The board as text. -/
def render (b : Board) : String := String.join (b.families.map Family.text)

/-- The media type of the text. -/
def contentType : String := "text/plain; version=0.0.4"

/-- One line for a developer. -/
def describe : String := "PrometheusExporter \x7b .. \x7d"

end Board

end NearCache
