import RemoteVfs.Memory.Bytes
import RemoteVfs.Memory.Buf
import RemoteVfs.Memory.Chain
import RemoteVfs.Memory.Bounds
import RemoteVfs.Runs
import RemoteVfs.UnixFile
import RemoteVfs.Convert
import RemoteVfs.Convert.Request
import RemoteVfs.Convert.Reply
import RemoteVfs.FdTable
import RemoteVfs.Server
import RemoteVfs.Client
import RemoteVfs.System
import RemoteVfs.Server.Values
import RemoteVfs.Server.Open
import RemoteVfs.Local
import RemoteVfs.Disk
import RemoteVfs.Refinement
import RemoteVfs.Server.Shape
import RemoteVfs.Client.Shape
import RemoteVfs.Server.Effect
import RemoteVfs.Binding
import RemoteVfs.Methods
import RemoteVfs.Failure
import RemoteVfs.Mmap
import RemoteVfs.Limits
import RemoteVfs.FileName
import RemoteVfs.OutFlags
import RemoteVfs.Fetch
import RemoteVfs.FullPathname
import RemoteVfs.FileControl
import RemoteVfs.Ledger
import RemoteVfs.UnixLock
import RemoteVfs.Locks
import RemoteVfs.Accounting
import RemoteVfs.LockStyle
import RemoteVfs.LastError
import RemoteVfs.FdMap
import RemoteVfs.Malformed
import RemoteVfs.Memory.Coverage
import RemoteVfs.Disclosure
import RemoteVfs.Race
import RemoteVfs.Memory.File
import RemoteVfs.Memory.Pages
import RemoteVfs.Posix
import RemoteVfs.UnixIo
import RemoteVfs.UnixIo.Transfer
import RemoteVfs.UnixIo.Size
import RemoteVfs.UnixIo.Store
import RemoteVfs.Posix.History
import RemoteVfs.UnixOpen
import RemoteVfs.Process
import RemoteVfs.Process.Backing
import RemoteVfs.Process.Shape
import RemoteVfs.Process.Books
import RemoteVfs.Process.Steps
import RemoteVfs.Process.Opening
import RemoteVfs.Process.Invariant
import RemoteVfs.Process.Descriptors
import RemoteVfs.Process.Exclusion
import RemoteVfs.SharedMemory
import RemoteVfs.SharedMemory.Locks
import RemoteVfs.SharedMemory.Runs
