import DistributedDisk.Core.Codec
import DistributedDisk.Core.Transition
import DistributedDisk.Core.Progress
import DistributedDisk.Core.Nesting
import DistributedDisk.Core.Reactive
import DistributedDisk.Core.Fallible
import DistributedDisk.Core.Text
import DistributedDisk.Core.Tokens
import DistributedDisk.AppProtocol
import DistributedDisk.Storage
import DistributedDisk.Master
import DistributedDisk.Mediator
import DistributedDisk.NbdProxy
import DistributedDisk.Commands.Communicate
import DistributedDisk.Commands.ReadCmd
import DistributedDisk.Commands.WriteCmd
import DistributedDisk.Commands.Pool
import DistributedDisk.Commands.Requests
import DistributedDisk.Minion.Commands
import DistributedDisk.Minion.Proxy
import DistributedDisk.Minion.Server
import DistributedDisk.Cluster.Network
import DistributedDisk.Cluster.Messages
import DistributedDisk.Cluster.Replicas
import DistributedDisk.Cluster.Order
import DistributedDisk.Cluster.Retransmission
import DistributedDisk.Cluster.Datagrams
import DistributedDisk.Cluster.Execution
import DistributedDisk.Cluster.Disk
import DistributedDisk.NbdProxy.Chunks
import DistributedDisk.Commands.Transfer
import DistributedDisk.Cluster.Writes
import DistributedDisk.Minion.Traffic
import DistributedDisk.Minion.Framing
import DistributedDisk.Minion.Survival
import DistributedDisk.ThreadPool
import DistributedDisk.ThreadPool.Resume
import DistributedDisk.ThreadPool.Reaping
import DistributedDisk.ThreadPool.Resize
import DistributedDisk.ThreadPool.Pause
import DistributedDisk.ThreadPool.Stop
import DistributedDisk.ThreadPool.Termination
import DistributedDisk.ThreadPool.Abandoned
import DistributedDisk.ThreadPool.Draining
import DistributedDisk.Commands.Serving
import DistributedDisk.Cluster.Deployment
import DistributedDisk.Commands.Stream
import DistributedDisk.WaitableQueue
import DistributedDisk.WaitableQueue.Attendance
import DistributedDisk.WaitableQueue.Fifo
import DistributedDisk.WaitableQueue.PQWrapper
import DistributedDisk.Reactor
import DistributedDisk.Reactor.Stop
import DistributedDisk.Reactor.Round
import DistributedDisk.Mediator.Registration
import DistributedDisk.Dispatcher
import DistributedDisk.Dispatcher.Links
import DistributedDisk.Dispatcher.Iteration
import DistributedDisk.Dispatcher.Broadcast
import DistributedDisk.Singleton
import DistributedDisk.Singleton.Nested
import DistributedDisk.Singleton.Classes
import DistributedDisk.Singleton.Founded
import DistributedDisk.Singleton.Construction
import DistributedDisk.Singleton.Calls
import DistributedDisk.Singleton.Exit
import DistributedDisk.Storage.Contents
import DistributedDisk.Master.Balance
import DistributedDisk.Commands.Destinations
import DistributedDisk.Master.Redundancy
import DistributedDisk.Minion.Leaks
import DistributedDisk.Minion.Failure
import DistributedDisk.Minion.RoundTrip
import DistributedDisk.Commands.Leaks
import DistributedDisk.Master.StringToIp
import DistributedDisk.ConfigManager
import DistributedDisk.ConfigManager.Lines
import DistributedDisk.Master.Minions
import DistributedDisk.Reactor.Emptied
import DistributedDisk.Logger
import DistributedDisk.Logger.Shutdown
import DistributedDisk.Logger.Draining
import DistributedDisk.DirMonitor
import DistributedDisk.DirMonitor.Records
import DistributedDisk.DirMonitor.Stop
import DistributedDisk.FrameWork
