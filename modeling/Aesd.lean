import Aesd.Basic.CInt
import Aesd.Basic.CircArray
import Aesd.Basic.FlatIndex
import Aesd.Basic.Heap
import Aesd.Basic.Gather
import Aesd.Basic.Delimited
import Aesd.Basic.Draining
import Aesd.Basic.Scanf
import Aesd.Basic.ByteFile
import Aesd.Basic.Lts
import Aesd.Basic.Stages
import Aesd.Basic.Monitor
import Aesd.Basic.Cells
import Aesd.Basic.Copies
import Aesd.Basic.Apart
import Aesd.Basic.Chain
import Aesd.Basic.Processes
import Aesd.Basic.Forking
import Aesd.Driver.CircularBuffer
import Aesd.Driver.Ring
import Aesd.Driver.FilePosition
import Aesd.Driver.Kernel
import Aesd.Driver.CharDevice
import Aesd.Driver.FilePointers
import Aesd.Driver.Device
import Aesd.Driver.Calls
import Aesd.Driver.Runs
import Aesd.Driver.History
import Aesd.Driver.Safety
import Aesd.Driver.Walks
import Aesd.Driver.Commits
import Aesd.Driver.Drain
import Aesd.Driver.Unload
import Aesd.Driver.Specification
import Aesd.Driver.Readers
import Aesd.Driver.Independence
import Aesd.Driver.Sections
import Aesd.Driver.Concurrent
import Aesd.Server.Connection
import Aesd.Server.Receive
import Aesd.Server.RecvErrors
import Aesd.Server.Message
import Aesd.Server.Reply
import Aesd.Server.Stored
import Aesd.Server.DeviceFile
import Aesd.Server.Threads
import Aesd.Server.Order
import Aesd.Server.Serial
import Aesd.Server.RegularFile
import Aesd.Server.RegularSerial
import Aesd.Server.Progress
import Aesd.Server.Finishes
import Aesd.Server.Lines
import Aesd.Server.CommandText
import Aesd.Server.Residue
import Aesd.Server.Routine
import Aesd.Server.Projection
import Aesd.Server.Lifecycle
import Aesd.Server.CtxMemory
import Aesd.Server.Teardown
import Aesd.Threading.WaitMs
import Aesd.Threading.Threadfunc
import Aesd.Threading.Sections
import Aesd.Systemcalls.Systemcalls
