import FleetHealth.Assessment
import FleetHealth.Command
import FleetHealth.Composite
import FleetHealth.Composite.Codec
import FleetHealth.Decimal.Digits
import FleetHealth.Decimal.Shortest
import FleetHealth.Draft
import FleetHealth.FileTree
import FleetHealth.FleetFile
import FleetHealth.Json.Codec
import FleetHealth.Json.Fault
import FleetHealth.Json.LeftOut
import FleetHealth.Json.Number
import FleetHealth.Json.Reader
import FleetHealth.Json.Record
import FleetHealth.Json.Text
import FleetHealth.Json.Value
import FleetHealth.Main
import FleetHealth.Member
import FleetHealth.Member.Codec
import FleetHealth.Pass
import FleetHealth.Rehearsal.Machine
import FleetHealth.Rehearsal.Script
import FleetHealth.Rehearsal.World
import FleetHealth.Report
import FleetHealth.Roster
import FleetHealth.Service
import FleetHealth.Site
import FleetHealth.Store
import FleetHealth.Text.Blank
import FleetHealth.Text.Hidden
import FleetHealth.Text.Quoted
import FleetHealth.Text.Reader
import FleetHealth.Time.Calendar
import FleetHealth.Time.Fault
import FleetHealth.Time.Instant
import FleetHealth.Time.Printer
import FleetHealth.Time.Reader
import FleetHealth.Proofs.Command.Arguments
import FleetHealth.Proofs.Command.Run
import FleetHealth.Proofs.Composite.Format
import FleetHealth.Proofs.Composite.Forms
import FleetHealth.Proofs.Composite.RoundTrip
import FleetHealth.Proofs.Composite.Times
import FleetHealth.Proofs.Draft.LastCalls
import FleetHealth.Proofs.FleetFile.Reasons
import FleetHealth.Proofs.Json.Accepted
import FleetHealth.Proofs.Json.ByKey
import FleetHealth.Proofs.Json.Consumed
import FleetHealth.Proofs.Json.Exact
import FleetHealth.Proofs.Json.Forms
import FleetHealth.Proofs.Json.Keys
import FleetHealth.Proofs.Json.Lawful
import FleetHealth.Proofs.Json.Layout
import FleetHealth.Proofs.Json.LeftOut
import FleetHealth.Proofs.Json.Marks
import FleetHealth.Proofs.Json.Number
import FleetHealth.Proofs.Json.Places
import FleetHealth.Proofs.Json.Print
import FleetHealth.Proofs.Json.Reads
import FleetHealth.Proofs.Json.Record
import FleetHealth.Proofs.Json.Text
import FleetHealth.Proofs.Json.Tokens
import FleetHealth.Proofs.Json.Tree
import FleetHealth.Proofs.Pass.Carried
import FleetHealth.Proofs.Pass.Conduct
import FleetHealth.Proofs.Pass.Contents
import FleetHealth.Proofs.Pass.Outcome
import FleetHealth.Proofs.Pass.Trace
import FleetHealth.Proofs.Pass.Undisturbed
import FleetHealth.Proofs.Race.Agreement
import FleetHealth.Proofs.Race.Attended
import FleetHealth.Proofs.Race.Basic
import FleetHealth.Proofs.Race.Effect
import FleetHealth.Proofs.Race.Log
import FleetHealth.Proofs.Race.Origin
import FleetHealth.Proofs.Race.Overtaking
import FleetHealth.Proofs.Race.Serial
import FleetHealth.Proofs.Race.Times
import FleetHealth.Proofs.Rehearsal.Watched
import FleetHealth.Proofs.Rehearsal.Writes
import FleetHealth.Proofs.Report.Message
import FleetHealth.Proofs.Report.Trail
import FleetHealth.Proofs.Roster.Identity
import FleetHealth.Proofs.Roster.Order
import FleetHealth.Proofs.Service.Paced
import FleetHealth.Proofs.Service.Quiescence
import FleetHealth.Proofs.Service.Wakeups
import FleetHealth.Proofs.Service.Watch
import FleetHealth.Proofs.Store.Calls
import FleetHealth.Proofs.Store.Patch
import FleetHealth.Proofs.Text.Reader
import FleetHealth.Proofs.Time.Calendar
import FleetHealth.Proofs.Time.Local
import FleetHealth.Proofs.Time.RoundTrip
import FleetHealth.Proofs.Time.Succession
