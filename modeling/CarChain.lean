import CarChain.Propagation
import CarChain.Lib.RelayAgreement
import CarChain.Watcher
import CarChain.Chain
import CarChain.Refinement
import CarChain.Wire
import CarChain.Failover
import CarChain.Lib.Trace
import CarChain.Replica
import CarChain.Static
import CarChain.Multisets
import CarChain.Accounting
import CarChain.Linearizable
import CarChain.Lib.Digits
import CarChain.Names
import CarChain.Topology
import CarChain.Lib.Memory
import CarChain.Lists
import CarChain.Forwarding
import CarChain.Startup
import CarChain.Join
import CarChain.Lib.Transfer
import CarChain.Lib.PtrArray
import CarChain.Buffers
import CarChain.Lib.Inserted
import CarChain.Reads
import CarChain.ErrorReplies
import CarChain.Lib.Handles
import CarChain.Connect
import CarChain.Lib.Programs
import CarChain.Successor
import CarChain.Connections
import CarChain.Decoding
import CarChain.Synchronization
import CarChain.Protobuf
import CarChain.Framing
import CarChain.Answering
import CarChain.Remote
import CarChain.OrderByYear
import CarChain.Removal
import CarChain.RemoteOrder
import CarChain.EndOfStream
import CarChain.SendPaths
import CarChain.Lib.Tally
import CarChain.Slots
import CarChain.Ownership
import CarChain.Rollback
import CarChain.Sessions
import CarChain.Serving
import CarChain.Visibility
import CarChain.Progress
import CarChain.Nodes
import CarChain.Lifecycle
import CarChain.Shutdown
import CarChain.Addresses
import CarChain.Log
