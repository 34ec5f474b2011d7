import Awe.CancelFinal
import Awe.Capacity
import Awe.CondTimedWait
import Awe.Connection.Descriptors
import Awe.Connection.Dispatch
import Awe.Connection.LocalPort
import Awe.Connection.Owners
import Awe.Connection.Programs
import Awe.Connector.Completion
import Awe.Connector.FailedOpen
import Awe.HexDump.Complete
import Awe.LinkedList.Chains
import Awe.LinkedList.Iteration
import Awe.LinkedList.Owners
import Awe.Looper.Ending
import Awe.Looper.Execution
import Awe.Looper.Head
import Awe.Looper.Memory
import Awe.Looper.Stop
import Awe.Object.Threads
import Awe.OpenPending
import Awe.Packet.Queues
import Awe.RingArray.Delivery
import Awe.RingArray.Reservation
import Awe.RingArray.Stuck
import Awe.RingBuffer.Concurrent
import Awe.RingBuffer.Occupancy
import Awe.RingBuffer.Queue
import Awe.Scheduler.Firings
import Awe.Scheduler.StaleTokens
import Awe.Scheduler.Stop
import Awe.Scheduler.TaskTokens
import Awe.Scheduler.TimerLiveness
import Awe.Scheduler.Trampoline
import Awe.Scheduler.TriggerOrder
import Awe.Thread.Flags
import Awe.TimerTask.Links
import Awe.UxConnector.Completion
import Awe.UxConnector.Destroy
import Awe.UxConnector.Installs
import Awe.UxConnector.StaleCancel
import Awe.UxScheduler.Dispatch
import Awe.UxScheduler.Due
import Awe.UxScheduler.Memory
import Awe.UxScheduler.RmBarrier
import Awe.UxScheduler.Rounds
import Awe.UxScheduler.SelfStop
