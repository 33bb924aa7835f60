import Flotilla.Address.Canonical
import Flotilla.Address.Condition
import Flotilla.Address.Naming
import Flotilla.Address.Record
import Flotilla.Attempt
import Flotilla.Backend
import Flotilla.Cache
import Flotilla.Cbor.Frame
import Flotilla.Convoy.Admission
import Flotilla.Convoy.History
import Flotilla.Convoy.OldIds
import Flotilla.Convoy.Retirement
import Flotilla.Definition.Apply
import Flotilla.Definition.Authoring
import Flotilla.Definition.Conflict
import Flotilla.Definition.Context
import Flotilla.Definition.Converge
import Flotilla.Definition.Field
import Flotilla.Definition.Fleet
import Flotilla.Definition.Idempotent
import Flotilla.Definition.Kinds
import Flotilla.Definition.Merge
import Flotilla.Definition.ReadBack
import Flotilla.Definition.Resolver
import Flotilla.Definition.View
import Flotilla.Definition.Write
import Flotilla.Engine.Atomic
import Flotilla.Ensure
import Flotilla.Image.Composed
import Flotilla.Image.Harness
import Flotilla.Lib.Ancestry
import Flotilla.Lib.BTreeMap
import Flotilla.Lib.Capacity
import Flotilla.Lib.CausalHistory
import Flotilla.Lib.Decimal
import Flotilla.Lib.Descent
import Flotilla.Lib.EventLog
import Flotilla.Lib.FirstMatch
import Flotilla.Lib.InvertedIndex
import Flotilla.Lib.Json
import Flotilla.Lib.Loop
import Flotilla.Lib.Register
import Flotilla.Lib.Repeat
import Flotilla.Lib.Table
import Flotilla.Lib.VersionVector
import Flotilla.Manifest.History
import Flotilla.Memory.Log
import Flotilla.Memory.Optimistic
import Flotilla.Memory.Store
import Flotilla.Memory.Watch
import Flotilla.Message.Machine
import Flotilla.Message.Rules
import Flotilla.Placement.Ledger
import Flotilla.Placement.Placements
import Flotilla.Query.Fields
import Flotilla.Query.Index
import Flotilla.Query.Names
import Flotilla.Replica.Arrival
import Flotilla.Replica.Fence
import Flotilla.Replica.Partition
import Flotilla.Replica.Reconcile
import Flotilla.Replica.Replace
import Flotilla.Replica.Replay
import Flotilla.Replica.Supervisors
import Flotilla.Resource
import Flotilla.Status.Convergence
