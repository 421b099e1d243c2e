import CoreAndroid.Lib.Spans
import CoreAndroid.Lib.Gregorian
import CoreAndroid.Lib.Machine
import CoreAndroid.Lib.Simulation
import CoreAndroid.Lib.Progress
import CoreAndroid.Lib.Monitor
import CoreAndroid.Lib.Lifetime
import CoreAndroid.Lib.Settling
import CoreAndroid.Lib.RecursiveMutex
import CoreAndroid.Lib.Reading
import CoreAndroid.Lib.Bytes
import CoreAndroid.Lib.Framing
import CoreAndroid.Lib.Delimited
import CoreAndroid.Lib.Files
import CoreAndroid.Lib.Fuel
import CoreAndroid.Lib.Walk
import CoreAndroid.Lib.Casts
import CoreAndroid.Handle
import CoreAndroid.Time
import CoreAndroid.DosTime
import CoreAndroid.DosTime.Stamp
import CoreAndroid.Event
import CoreAndroid.Event.Progress
import CoreAndroid.Event.Lifetime
import CoreAndroid.Event.Poll
import CoreAndroid.Lock
import CoreAndroid.Socket.Impl
import CoreAndroid.Socket.Run
import CoreAndroid.Socket.Isolation
import CoreAndroid.Socket.Memory
import CoreAndroid.Socket.Address
import CoreAndroid.Socket.Peer
import CoreAndroid.Socket.Closed
import CoreAndroid.Socket.Leaks
import CoreAndroid.Socket.Stream
import CoreAndroid.Socket.Names
import CoreAndroid.Net
import CoreAndroid.Net.Resolve
import CoreAndroid.Service
import CoreAndroid.Process
import CoreAndroid.Process.Relative
import CoreAndroid.Console.Impl
import CoreAndroid.Console.Return
import CoreAndroid.Console.Rotation
import CoreAndroid.Console.Stdin
import CoreAndroid.Console.Threads
import CoreAndroid.Console.Order
import CoreAndroid.Waitset.Impl
import CoreAndroid.Waitset.Member
import CoreAndroid.Waitset.Selection
import CoreAndroid.Waitset.Report
import CoreAndroid.Waitset.SocketCalls
import CoreAndroid.Waitset.Waiter
import CoreAndroid.Waitset.Steps
import CoreAndroid.Waitset.Signal
import CoreAndroid.Waitset.Registration
import CoreAndroid.Waitset.NoLostEvent
import CoreAndroid.Waitset.Progress
import CoreAndroid.Waitset.Assoc
import CoreAndroid.Waitset.OneCall
import CoreAndroid.Waitset.Consume
import CoreAndroid.Waitset.AutoReset
import CoreAndroid.Waitset.Polls
import CoreAndroid.Waitset.PollEvent
import CoreAndroid.Waitset.Pipe
import CoreAndroid.Thread.Record
import CoreAndroid.Thread.Delete
import CoreAndroid.Thread.Progress
import CoreAndroid.Thread.LifeCycle
import CoreAndroid.Thread.Completion
