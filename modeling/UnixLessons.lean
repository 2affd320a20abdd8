import UnixLessons.Transition.Run
import UnixLessons.Text.CString
import UnixLessons.Checksum.OnesComplement
import UnixLessons.Text.Memory
import UnixLessons.Text.Words
import UnixLessons.Text.Path
import UnixLessons.FileManager.Panel
import UnixLessons.FileManager.Navigation
import UnixLessons.FileManager.Manager
import UnixLessons.Text.Decimal
import UnixLessons.Text.Lines
import UnixLessons.Arrays.ShiftLeft
import UnixLessons.Counter.Capped
import UnixLessons.Echo.Server
import UnixLessons.Echo.CounterMap
import UnixLessons.Echo.Refinement
import UnixLessons.Echo.Numbers
import UnixLessons.Echo.Clients
import UnixLessons.Echo.Replies
import UnixLessons.Threads.Mutex
import UnixLessons.Counter.Tally
import UnixLessons.Streams.Market
import UnixLessons.Streams.Conservation
import UnixLessons.ServicePool.Server
import UnixLessons.ServicePool.Exclusivity
import UnixLessons.ServicePool.Search
import UnixLessons.Arrays.Ring
import UnixLessons.ClientQueue.Server
import UnixLessons.ClientQueue.Custody
import UnixLessons.ClientQueue.Ownership
import UnixLessons.ClientQueue.Service
import UnixLessons.Directory.Abonent
import UnixLessons.Heap.DoublyLinked
import UnixLessons.Directory.Operations
import UnixLessons.Directory.Refinement
import UnixLessons.Processes.Descriptors
import UnixLessons.Processes.Objects
import UnixLessons.Taxi.Driver
import UnixLessons.Taxi.Dispatcher
import UnixLessons.Taxi.Moves
import UnixLessons.Taxi.Slots
import UnixLessons.Taxi.Registry
import UnixLessons.Taxi.Holders
import UnixLessons.Taxi.Messages
import UnixLessons.Taxi.Agreement
import UnixLessons.Taxi.Survival
import UnixLessons.Taxi.Orphans
import UnixLessons.ClientQueue.WakeUps
import UnixLessons.ServicePool.Availability
import UnixLessons.ServicePool.Leaks
import UnixLessons.OneShot.Server
import UnixLessons.OneShot.Moves
import UnixLessons.OneShot.Invitations
import UnixLessons.OneShot.Ending
import UnixLessons.OneShot.Readiness
import UnixLessons.Shell.Input
import UnixLessons.Shell.SharedInput
import UnixLessons.Shell.Processes
import UnixLessons.Shell.Leftovers
import UnixLessons.Shell.Arguments
import UnixLessons.Shell.Programs
import UnixLessons.Streams.Destruction
import UnixLessons.Streams.Completion
import UnixLessons.SharedMemory.Handshake
import UnixLessons.SharedMemory.SystemV
import UnixLessons.SharedMemory.Reset
import UnixLessons.SharedMemory.Posix
import UnixLessons.SharedMemory.NewNames
import UnixLessons.SharedMemory.Crashes
import UnixLessons.FileManager.WayUp
import UnixLessons.Echo.Buffers
import UnixLessons.Echo.Redirection
import UnixLessons.Echo.Statements
import UnixLessons.Echo.Shutdown
import UnixLessons.Taxi.FailedCreation
import UnixLessons.TimeServer.Requests
import UnixLessons.Taxi.Clock
import UnixLessons.Taxi.Lag
import UnixLessons.MessageQueues.Letters
import UnixLessons.MessageQueues.SystemV
import UnixLessons.MessageQueues.Posix
import UnixLessons.MessageQueues.Leftovers
import UnixLessons.RawSockets.Checksum
import UnixLessons.RawSockets.Readers
import UnixLessons.Text.Scanf
import UnixLessons.ArrayDirectory.Abonents
import UnixLessons.ArrayDirectory.Adding
import UnixLessons.ArrayDirectory.Deleting
import UnixLessons.Transition.Loop
import UnixLessons.Directory.Prompts
import UnixLessons.Calculator.Main
import UnixLessons.Directory.MainLoop
import UnixLessons.ArrayDirectory.Comparison
import UnixLessons.ArrayDirectory.Interface
import UnixLessons.Menus.Finite
import UnixLessons.Text.Occurrence
import UnixLessons.Pointers.Substring
import UnixLessons.Grid.Walk
import UnixLessons.Grid.Spiral
import UnixLessons.Arrays.Spiral
import UnixLessons.Transition.Completion
import UnixLessons.Processes.ForkJoin
import UnixLessons.Processes.Joining
import UnixLessons.Processes.Ordering
import UnixLessons.ProcessTrees.Programs
import UnixLessons.TimeServer.MainLoop
import UnixLessons.TimeServer.Service
import UnixLessons.Taxi.Exit
import UnixLessons.Taxi.CommandLine
import UnixLessons.Taxi.Session
import UnixLessons.Taxi.Ending
import UnixLessons.RawSockets.Frames
import UnixLessons.Pipes.Pipe
import UnixLessons.Pipes.ParentChild
import UnixLessons.Pipes.Fifo
import UnixLessons.Pipes.Greeting
import UnixLessons.Signals.Receivers
import UnixLessons.Signals.Reports
import UnixLessons.ArrayDirectory.Session
import UnixLessons.Directory.Session
import UnixLessons.DataTransfer.Group
import UnixLessons.DataTransfer.Reception
import UnixLessons.Sockets.LocalDatagrams
import UnixLessons.Sockets.Answers
import UnixLessons.Bits.Programs
import UnixLessons.Sockets.Connections
import UnixLessons.Sockets.OneAnswer
