import Nox.Lib.Hmap
import Nox.Lib.BitMix
import Nox.Lib.Libc
import Nox.Json.Reprint
import Nox.Json.Callback
import Nox.Json.Values
import Nox.Json.ParserSafety
import Nox.Oxm.RoundTrip
import Nox.Interserver.TypeSafety
import Nox.Interserver.Vocabulary
import Nox.Interserver.SetField
import Nox.Interserver.Addressing
import Nox.Ofl.ActionLists
import Nox.Ofl.Sizes
import Nox.Openflow.Receive
import Nox.Openflow.Reliable
import Nox.Openflow.Transmit
import Nox.Interserver.Correlation
import Nox.Interserver.Parts
import Nox.Interserver.HandOver
import Nox.Interserver.KnownSwitches
import Nox.Messenger.Lengths
import Nox.Messenger.PlainObjects
import Nox.Poll.Safety
import Nox.Topology.Reflection
import Nox.Switch.Echo
import Nox.Timer.Dispatch
import Nox.Classify.Answers
import Nox.Classify.PacketClassifier
import Nox.Classify.PacketDelivery
import Nox.Events.Delivery
import Nox.Switch.Soundness
import Nox.Switch.Registry
import Nox.Components.Install
import Nox.Learning.Forwarding
import Nox.Interserver.Turns
import Nox.Oxm.Acceptance
import Nox.Ofl.Lengths
import Nox.Openflow.Idle
import Nox.Messenger.IdleCheck
import Nox.Timer.Wakeup
import Nox.Components.Recovery
import Nox.Classify.Allocation
import Nox.Classify.Grown
import Nox.Classify.Interrupted
import Nox.Classify.Consistency
import Nox.Lib.Records
import Nox.Ofl.Unpacked
import Nox.Ofl.Printing
import Nox.Ofl.ReplyBytes
import Nox.Interserver.Answers
import Nox.Ofl.Requests
import Nox.Lib.Appends
import Nox.Interserver.Memory
import Nox.Interserver.RequestSets
import Nox.Interserver.MatchMemory
import Nox.Interserver.PackedSize
import Nox.Interserver.Definite
import Nox.Threads.Waitqueue
import Nox.Threads.Waits
import Nox.Threads.WaitMemory
import Nox.Threads.Fifo
import Nox.Threads.Calls
import Nox.Threads.Rwlock
import Nox.Threads.Sema
import Nox.Threads.Mutex
import Nox.Threads.Signals
import Nox.Threads.SignalCalls
import Nox.Lib.SlotArray
import Nox.Interserver.SharedCounts
import Nox.Interserver.ActionFidelity
import Nox.Interserver.InstructionFidelity
import Nox.Lib.NodeLists
import Nox.Threads.Scheduler
import Nox.Threads.SchedulerRuns
import Nox.Threads.SchedulerHistory
import Nox.Time.Timeval
import Nox.Topology.Lldp
import Nox.Netinet.Ethernetaddr
import Nox.Components.Reports
import Nox.Openflow.Blocking
import Nox.Threads.Sleep
import Nox.Oxm.Flow
import Nox.Ofl.PacketOut
import Nox.Openflow.Xids
import Nox.Text.Printf
import Nox.Components.Arguments
import Nox.Classify.Ids
import Nox.Oxm.Lookup
import Nox.Interserver.Arrays
import Nox.Buffer.ArrayBuffer
import Nox.Netlink.Attributes
import Nox.Threads.FdWait
import Nox.Logging.Levels
import Nox.Ofl.FlowStats
import Nox.Ofl.Counting
import Nox.Threads.Barrier
import Nox.Netlink.Reliability
import Nox.Ofl.RequestRoundTrip
