import FleetMesh.Http.Api
import FleetMesh.Node.Build
import FleetMesh.Poll
import FleetMesh.Probe.Disk
import FleetMesh.Push.Client
import FleetMesh.Push.Talk
import FleetMesh.Settings.Text
import FleetMesh.Uuid
import FleetMesh.Proofs.Keyed
import FleetMesh.Proofs.Tree.Paths
import FleetMesh.Proofs.Tree.Erase
import FleetMesh.Proofs.Tree.Normal
import FleetMesh.Proofs.Duplicates.Order
import FleetMesh.Proofs.Duplicates.Pruned
import FleetMesh.Proofs.Duplicates.Search
import FleetMesh.Proofs.Duplicates.Prune
import FleetMesh.Proofs.Duplicates.Survivor
import FleetMesh.Proofs.Duplicates.Merge
import FleetMesh.Proofs.Tree.Coherent
import FleetMesh.Proofs.Mesh
import FleetMesh.Proofs.Tree.Apply
import FleetMesh.Proofs.Push.Run
import FleetMesh.Proofs.Push.Roster
import FleetMesh.Proofs.Push.Effect
import FleetMesh.Proofs.Push.Session
import FleetMesh.Proofs.Tree.Received
import FleetMesh.Proofs.Diff
import FleetMesh.Proofs.Duplicates.Reduced
import FleetMesh.Proofs.Duplicates.Repeat
import FleetMesh.Proofs.Diff.Account
import FleetMesh.Proofs.Liveness.Sweep
import FleetMesh.Proofs.Diff.Change
import FleetMesh.Proofs.Liveness.Run
import FleetMesh.Proofs.Liveness.Outage
import FleetMesh.Proofs.Push.Lists
import FleetMesh.Proofs.Push.Standing
import FleetMesh.Proofs.Push.AllowedList
import FleetMesh.Proofs.Push.Admission
import FleetMesh.Proofs.Push.Ledger
import FleetMesh.Proofs.Push.Isolation
import FleetMesh.Proofs.Push.Tasks
import FleetMesh.Proofs.Push.Revocation
import FleetMesh.Proofs.Json.Record
import FleetMesh.Proofs.Json.Scan
import FleetMesh.Proofs.Json.Numeral
import FleetMesh.Proofs.Json.Number
import FleetMesh.Proofs.Json.Printed
import FleetMesh.Proofs.Json.Codec
import FleetMesh.Proofs.Json.Exact
import FleetMesh.Proofs.Json.Tagged
import FleetMesh.Proofs.Json.Float
import FleetMesh.Proofs.Json.Bounded
import FleetMesh.Proofs.Binary64.Rounding
import FleetMesh.Proofs.Binary64.Shortest
import FleetMesh.Proofs.Timestamp.Calendar
import FleetMesh.Proofs.Timestamp.Text
import FleetMesh.Proofs.Tree.Portable
import FleetMesh.Proofs.Tree.Restate
import FleetMesh.Proofs.Tree.Told
import FleetMesh.Proofs.Tree.Reread
import FleetMesh.Proofs.Http.Form
import FleetMesh.Proofs.Event
import FleetMesh.Proofs.Duplicates.Shallow
import FleetMesh.Proofs.Push.Refusal
import FleetMesh.Proofs.Push.Text
import FleetMesh.Proofs.Relay
import FleetMesh.Proofs.Push.Delivered
import FleetMesh.Proofs.Push.Frame
import FleetMesh.Proofs.Push.Talk
import FleetMesh.Proofs.Push.Client.Moves
import FleetMesh.Proofs.Push.Client.Course
import FleetMesh.Proofs.Push.Client.Conversation
import FleetMesh.Proofs.Push.Client.Reconnects
import FleetMesh.Proofs.Http.Guard
import FleetMesh.Proofs.Tree.Rebuilt
import FleetMesh.Proofs.Hearsay
import FleetMesh.Proofs.Duplicates.Unrelated
import FleetMesh.Proofs.Queue.Writers
import FleetMesh.Proofs.Queue.Order
import FleetMesh.Proofs.Queue.Story
import FleetMesh.Proofs.Tree.Cut
import FleetMesh.Proofs.Duplicates.Statuses
import FleetMesh.Proofs.Alert
import FleetMesh.Proofs.Tree.Groups
import FleetMesh.Proofs.Settings.Remotes
import FleetMesh.Proofs.Probe.Passes
import FleetMesh.Proofs.Names
