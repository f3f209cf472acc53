import StreamMemory.Rounding
import StreamMemory.ByteCount
import StreamMemory.Gauge
import StreamMemory.Text.Unprintable
import StreamMemory.Text.Quoted
import StreamMemory.Text.Description
import StreamMemory.MemoryKind
import StreamMemory.ExecutionContext
import StreamMemory.Failure
import StreamMemory.Config
import StreamMemory.Total
import StreamMemory.KeyedList
import StreamMemory.Registry.Basic
import StreamMemory.Registry.Lemmas
import StreamMemory.Registry.Job
import StreamMemory.Registry.Holder
import StreamMemory.SystemMemory
import StreamMemory.Heap
import StreamMemory.FreeLists
import StreamMemory.Emulated
import StreamMemory.Operation
import StreamMemory.Machine.Trace
import StreamMemory.Resource
import StreamMemory.Machine.Basic
import StreamMemory.Machine.Drain
import StreamMemory.Synchronizer
import StreamMemory.Backend
import StreamMemory.Machine.ReleasePass
import StreamMemory.Machine.Allocation
import StreamMemory.Machine.Call
import StreamMemory.Adaptor
import StreamMemory.Session.Basic
import StreamMemory.Session.Script
import StreamMemory.Session.Request
import StreamMemory.Session.Step
import StreamMemory.Session.Report
import StreamMemory.Proofs.Parcels
import StreamMemory.Proofs.Lookups
import StreamMemory.Proofs.Drains
import StreamMemory.Proofs.Upkeep
import StreamMemory.Proofs.Custody
import StreamMemory.Proofs.StreamOrder
import StreamMemory.Proofs.Ownership
import StreamMemory.Proofs.Accounting
import StreamMemory.Proofs.Hazard
import StreamMemory.Proofs.Sharing
import StreamMemory.Proofs.Contract
import StreamMemory.Proofs.Reuse
import StreamMemory.Proofs.Admission
import StreamMemory.Proofs.Registration
import StreamMemory.Proofs.Notices
import StreamMemory.Proofs.FailureReports
import StreamMemory.Proofs.Destruction
import StreamMemory.Proofs.HighWater
import StreamMemory.Proofs.LevelOrder
import StreamMemory.Proofs.Passes
import StreamMemory.Proofs.Requests
import StreamMemory.Proofs.Restraint
import StreamMemory.Proofs.Demand
import StreamMemory.Proofs.Settling
import StreamMemory.Proofs.PassOrder
import StreamMemory.Proofs.Coverage
import StreamMemory.Proofs.Exhaustion
import StreamMemory.Proofs.Journal
import StreamMemory.Proofs.SystemAccounts
import StreamMemory.Proofs.Refusals
import StreamMemory.Proofs.Adaptors
import StreamMemory.Proofs.Sizes
import StreamMemory.Proofs.Histories
import StreamMemory.Proofs.SizeSums
import StreamMemory.Proofs.Arithmetic
import StreamMemory.Proofs.GaugeHistory
import StreamMemory.Proofs.ByteTexts
