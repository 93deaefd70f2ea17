import Runix.Lib.Lru
import Runix.Lib.Run
import Runix.Lib.Ring
import Runix.Lib.Cyclic
import Runix.Lib.Lineage
import Runix.Lib.Bytes
import Runix.Lib.Circular
import Runix.Lib.Custody
import Runix.Lib.Journal
import Runix.Lib.Naming
import Runix.Lib.Permits
import Runix.Lib.Radix
import Runix.Lib.Table
import Runix.Lib.Processor
import Runix.Capability
import Runix.Message
import Runix.Task
import Runix.Scheduler
import Runix.Ipc
import Runix.Machine
import Runix.Gates
import Runix.Preempt
import Runix.Locks
import Runix.Audit
import Runix.Memory
import Runix.Paging
import Runix.UserRange
import Runix.Syscall
import Runix.Dispatch
import Runix.Snapshot
import Runix.Dist
import Runix.Services
import Runix.Client
import Runix.Shell
import Runix.ArchSim
import Runix.Receive
import Runix.Operand
import Runix.Branches
import Runix.History
import Runix.Console
import Runix.Service.Reply
import Runix.Service.Log
import Runix.Service.Sync
import Runix.Service.Kv
import Runix.Service.Fs
import Runix.Service.Device
import Runix.Service.Round
import Runix.Proofs.Replies
import Runix.Proofs.Log
import Runix.Proofs.LogReads
import Runix.Proofs.LogCompleteness
import Runix.Proofs.Sync
import Runix.Proofs.Mutex
import Runix.Proofs.Permits
import Runix.Proofs.Handoff
import Runix.Proofs.Kv
import Runix.Proofs.Fs
import Runix.Proofs.Filesystem
import Runix.Proofs.Device
import Runix.Proofs.ServiceSafety
import Runix.Proofs.Client
import Runix.Proofs.Commands
import Runix.Proofs.Confinement
import Runix.Proofs.Scheduler
import Runix.Proofs.Ipc
import Runix.Proofs.Revocation
import Runix.Proofs.Propagation
import Runix.Proofs.Framing
import Runix.Proofs.Shell
import Runix.Proofs.Transparency
import Runix.Proofs.Authority
import Runix.Proofs.Step
import Runix.Proofs.Rendezvous
import Runix.Proofs.Delivery
import Runix.Proofs.Running
import Runix.Proofs.Calls
import Runix.Proofs.Ledger
import Runix.Proofs.RoundTrip
import Runix.Proofs.Routes
import Runix.Proofs.ExactlyOnce
import Runix.Proofs.Carriage
import Runix.Proofs.Provenance
import Runix.Proofs.Order
import Runix.Proofs.Exclusion
import Runix.Proofs.Atomicity
import Runix.Proofs.Locks
import Runix.Proofs.Gates
import Runix.Proofs.RoundRobin
import Runix.Proofs.Identity
import Runix.Proofs.Attenuation
import Runix.Proofs.Paging
import Runix.Proofs.UserRange
import Runix.Proofs.PageTables
import Runix.Proofs.AddressSpace
import Runix.Proofs.Snapshot
import Runix.Proofs.Digest
import Runix.Proofs.Tampering
import Runix.Proofs.Routing
import Runix.Proofs.Failover
import Runix.Proofs.Console
import Runix.Proofs.Trail
import Runix.Proofs.Sealing
import Runix.Proofs.CacheSim
import Runix.Proofs.Pipeline
import Runix.Proofs.History
import Runix.Proofs.Recall
import Runix.Proofs.Receive
import Runix.Proofs.Refusal
import Runix.Proofs.Operand
import Runix.Proofs.Branches
import Runix.Proofs.Rings
import Runix.Proofs.Latest
import Runix.Proofs.SimTrace
import Runix.Proofs.Tokenize
import Runix.Proofs.Frames
import Runix.Switch
import Runix.Proofs.Switch
import Runix.Proofs.Traps
import Runix.Lib.Dialogue
import Runix.Parties
import Runix.Rpc
import Runix.Proofs.Proceed
import Runix.Proofs.RpcStates
import Runix.Proofs.Refinement
import Runix.Proofs.Rpc
import Runix.Userland
import Runix.Proofs.Userland
