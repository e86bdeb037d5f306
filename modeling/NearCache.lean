import NearCache.Bytes
import NearCache.Cluster
import NearCache.CommandLine
import NearCache.Config
import NearCache.ConfigFile
import NearCache.Document.Json.Number
import NearCache.Document.Json.Parser
import NearCache.Document.Json.Printer
import NearCache.Document.Json.Text
import NearCache.Document.Mismatch
import NearCache.Document.Reading
import NearCache.Document.Scalar
import NearCache.Document.Shape
import NearCache.Document.Tag
import NearCache.Document.Tree
import NearCache.Document.Yaml.Anchors
import NearCache.Document.Yaml.Cursor
import NearCache.Document.Yaml.Folding
import NearCache.Document.Yaml.Layout
import NearCache.Document.Yaml.Node
import NearCache.Document.Yaml.Token
import NearCache.Endpoint
import NearCache.Event
import NearCache.Exposition
import NearCache.Fabric
import NearCache.Fault
import NearCache.Form.Attributes
import NearCache.Form.Basic
import NearCache.Form.Config
import NearCache.Form.Event
import NearCache.Form.Selector
import NearCache.Front
import NearCache.Front.Entry
import NearCache.Host
import NearCache.Journal
import NearCache.Main
import NearCache.Member
import NearCache.Metrics
import NearCache.Number.Binary64
import NearCache.Number.Power
import NearCache.Number.Shortest
import NearCache.Placement
import NearCache.Proofs.Batch.Reads
import NearCache.Proofs.Batch.Session
import NearCache.Proofs.Batch.Undated
import NearCache.Proofs.Batch.Writes
import NearCache.Proofs.Chronicle.Chapter
import NearCache.Proofs.Chronicle.Cluster
import NearCache.Proofs.Chronicle.Session
import NearCache.Proofs.Cluster.Agreement
import NearCache.Proofs.Cluster.Deeds
import NearCache.Proofs.Cluster.Linked
import NearCache.Proofs.Cluster.Operations
import NearCache.Proofs.Cluster.Origins
import NearCache.Proofs.Cluster.Ownership
import NearCache.Proofs.Cluster.Roster
import NearCache.Proofs.Coherence.Entry
import NearCache.Proofs.Coherence.Fabric
import NearCache.Proofs.Coherence.Reading
import NearCache.Proofs.Config.Sorting
import NearCache.Proofs.Deployment.Additions
import NearCache.Proofs.Deployment.Failure
import NearCache.Proofs.Deployment.Outcome
import NearCache.Proofs.Deployment.Success
import NearCache.Proofs.Exposition.Board
import NearCache.Proofs.Exposition.Family
import NearCache.Proofs.Exposition.Series
import NearCache.Proofs.Exposition.Watch
import NearCache.Proofs.Fabric.Reading
import NearCache.Proofs.Fabric.Serving
import NearCache.Proofs.Fabric.Wiring
import NearCache.Proofs.Fabric.Writing
import NearCache.Proofs.Form.Config
import NearCache.Proofs.Form.Fields
import NearCache.Proofs.Form.Selector
import NearCache.Proofs.Form.Telling
import NearCache.Proofs.Front.Entries
import NearCache.Proofs.Front.Register
import NearCache.Proofs.Front.Sheet
import NearCache.Proofs.Host.Decisions
import NearCache.Proofs.Host.Outpost
import NearCache.Proofs.Journal.Indexes
import NearCache.Proofs.Json.Scalars
import NearCache.Proofs.Json.Values
import NearCache.Proofs.Numbering.Cluster
import NearCache.Proofs.Numbering.Fabric
import NearCache.Proofs.Numbering.Places
import NearCache.Proofs.Overlap.Alone
import NearCache.Proofs.Overlap.Basic
import NearCache.Proofs.Overlap.Course
import NearCache.Proofs.Overlap.Halt
import NearCache.Proofs.Overlap.Meeting
import NearCache.Proofs.Overlap.Order
import NearCache.Proofs.Overlap.Progress
import NearCache.Proofs.Overlap.Returns
import NearCache.Proofs.Overlap.Slips
import NearCache.Proofs.Placement.Identity
import NearCache.Proofs.Placement.Selection
import NearCache.Proofs.Publishing.Cluster
import NearCache.Proofs.Publishing.Delivery
import NearCache.Proofs.Publishing.Fanout
import NearCache.Proofs.Publishing.Propagation
import NearCache.Proofs.Publishing.Retelling
import NearCache.Proofs.Publishing.Session
import NearCache.Proofs.Race.Basic
import NearCache.Proofs.Race.Convergence
import NearCache.Proofs.Session.Agreement
import NearCache.Proofs.Session.Freshness
import NearCache.Proofs.Session.Identity
import NearCache.Proofs.Session.Outcomes
import NearCache.Proofs.Session.Renewal
import NearCache.Proofs.Session.Sound
import NearCache.Proofs.Store.Announcements
import NearCache.Proofs.Store.Contents
import NearCache.Proofs.Store.History
import NearCache.Proofs.Store.Progress
import NearCache.Proofs.Traffic.Balance
import NearCache.Proofs.Traffic.Basic
import NearCache.Proofs.Traffic.Closing
import NearCache.Proofs.Traffic.Keeping
import NearCache.Proofs.Traffic.Outage
import NearCache.Proofs.Transparency.Cluster
import NearCache.Proofs.Transparency.Fabric
import NearCache.Proofs.Transparency.Session
import NearCache.Proofs.Transparency.Settings
import NearCache.Proofs.Warmth.Account
import NearCache.Proofs.Warmth.Balance
import NearCache.Proofs.Warmth.Counting
import NearCache.Proofs.Warmth.Front
import NearCache.Proofs.Warmth.Row
import NearCache.Proofs.Workload.Counts
import NearCache.Proofs.Workload.Keys
import NearCache.Proofs.Workload.Phases
import NearCache.Proofs.Workload.Report
import NearCache.Publishing
import NearCache.Roster
import NearCache.Selector
import NearCache.Session
import NearCache.Store
import NearCache.Table
import NearCache.Table.Laws
import NearCache.Text.Blank
import NearCache.Text.Hidden
import NearCache.Text.Quoted
import NearCache.Time.Calendar
import NearCache.Time.Timestamp
import NearCache.Typed
import NearCache.Workload
