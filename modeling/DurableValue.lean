import DurableValue.Cell.Bench
import DurableValue.Cell.Building
import DurableValue.Cell.Error
import DurableValue.Cell.Feed
import DurableValue.Cell.Mailbox
import DurableValue.Cell.Opening
import DurableValue.Cell.Setup
import DurableValue.Cell.State
import DurableValue.Cell.Worker
import DurableValue.Cli.Arguments
import DurableValue.Cli.Command
import DurableValue.Cli.Error
import DurableValue.Cli.Process
import DurableValue.Codec.Basic
import DurableValue.Codec.Json
import DurableValue.Codec.Settings
import DurableValue.Codec.Transfer
import DurableValue.Config.Basic
import DurableValue.Counters
import DurableValue.CrashPoint
import DurableValue.Decimal.Binary64
import DurableValue.Decimal.Digits
import DurableValue.Decimal.Shortest
import DurableValue.Disk.Basic
import DurableValue.Disk.FileSystem
import DurableValue.Disk.Host
import DurableValue.Disk.Host.Resolve
import DurableValue.Disk.Host.Tree
import DurableValue.Disk.IoError
import DurableValue.Disk.Memory
import DurableValue.Journal.Basic
import DurableValue.Journal.Event
import DurableValue.Journal.Line
import DurableValue.Journal.Scope
import DurableValue.Journal.Severity
import DurableValue.Json.Cursor
import DurableValue.Json.Literal
import DurableValue.Json.Number
import DurableValue.Json.Printer
import DurableValue.Json.Problem
import DurableValue.Json.Reader
import DurableValue.Json.Record
import DurableValue.Json.Shape
import DurableValue.Json.Skip
import DurableValue.Json.Value
import DurableValue.Main
import DurableValue.Path
import DurableValue.Proofs.Cell.Alike
import DurableValue.Proofs.Cell.Answers
import DurableValue.Proofs.Cell.Causes
import DurableValue.Proofs.Cell.Commits
import DurableValue.Proofs.Cell.Contained
import DurableValue.Proofs.Cell.Crossings
import DurableValue.Proofs.Cell.Departed
import DurableValue.Proofs.Cell.Fair
import DurableValue.Proofs.Cell.Final
import DurableValue.Proofs.Cell.Fold
import DurableValue.Proofs.Cell.Frame
import DurableValue.Proofs.Cell.Initialization
import DurableValue.Proofs.Cell.Mailbox
import DurableValue.Proofs.Cell.Matched
import DurableValue.Proofs.Cell.Metrics
import DurableValue.Proofs.Cell.Migrations
import DurableValue.Proofs.Cell.Neighbours
import DurableValue.Proofs.Cell.Once
import DurableValue.Proofs.Cell.Orderly
import DurableValue.Proofs.Cell.Owners
import DurableValue.Proofs.Cell.Pair
import DurableValue.Proofs.Cell.Parallel
import DurableValue.Proofs.Cell.Progress
import DurableValue.Proofs.Cell.Reopened
import DurableValue.Proofs.Cell.Restart
import DurableValue.Proofs.Cell.Run
import DurableValue.Proofs.Cell.Seats
import DurableValue.Proofs.Cell.Single
import DurableValue.Proofs.Cell.Standing
import DurableValue.Proofs.Cell.Standstill
import DurableValue.Proofs.Cell.Statuses
import DurableValue.Proofs.Cell.Steps
import DurableValue.Proofs.Cell.Streams
import DurableValue.Proofs.Cell.Task
import DurableValue.Proofs.Cell.Threshold
import DurableValue.Proofs.Cell.Unnoticed
import DurableValue.Proofs.Cell.Unread
import DurableValue.Proofs.Cell.Waiting
import DurableValue.Proofs.Cell.Work
import DurableValue.Proofs.Cli.Document
import DurableValue.Proofs.Disk.Host
import DurableValue.Proofs.Disk.Key
import DurableValue.Proofs.Disk.Memory
import DurableValue.Proofs.Disk.Recorded
import DurableValue.Proofs.Disk.Replace
import DurableValue.Proofs.Disk.Spelling
import DurableValue.Proofs.Disk.Tree
import DurableValue.Proofs.Disk.Walk
import DurableValue.Proofs.Journal.Line
import DurableValue.Proofs.Json.Formats
import DurableValue.Proofs.Json.Gives
import DurableValue.Proofs.Json.Literal
import DurableValue.Proofs.Json.Members
import DurableValue.Proofs.Json.Number
import DurableValue.Proofs.Json.Onward
import DurableValue.Proofs.Json.Reads
import DurableValue.Proofs.Json.Roundtrip
import DurableValue.Proofs.Json.Steady
import DurableValue.Proofs.Json.Transfer
import DurableValue.Proofs.Path
import DurableValue.Proofs.Scenario.Threshold
import DurableValue.Proofs.Store.Beside
import DurableValue.Proofs.Store.Doomed
import DurableValue.Proofs.Store.Keeper
import DurableValue.Proofs.Store.Leftover
import DurableValue.Proofs.Store.Moves
import DurableValue.Proofs.Store.Native
import DurableValue.Proofs.Store.Party
import DurableValue.Proofs.Store.Readback
import DurableValue.Proofs.Store.Registry
import DurableValue.Proofs.Store.Replacement
import DurableValue.Proofs.Store.Sibling
import DurableValue.Proofs.Store.Synced
import DurableValue.Proofs.Store.Unarmed
import DurableValue.Proofs.Text
import DurableValue.Scenario.Cells
import DurableValue.Scenario.Collaborators
import DurableValue.Scenario.Edit
import DurableValue.Scenario.Kind
import DurableValue.Scenario.Reply
import DurableValue.Scenario.Script
import DurableValue.Scenario.Storage
import DurableValue.Scenario.World
import DurableValue.Store.Atomic
import DurableValue.Store.Error
import DurableValue.Store.Exclusive
import DurableValue.Store.Registry
import DurableValue.Text.Blank
import DurableValue.Text.Bytes
import DurableValue.Text.Hex
import DurableValue.Text.Printable
import DurableValue.Text.Quoted
