import Codezero.Lib.Outcome
import Codezero.Lib.Machine
import Codezero.Lib.Queues
import Codezero.Lib.Rendezvous
import Codezero.Lib.Stack
import Codezero.Kernel.State
import Codezero.Kernel.Scheduler
import Codezero.Kernel.Wait
import Codezero.Kernel.Mutex
import Codezero.Kernel.Ipc
import Codezero.Kernel.Thread
import Codezero.Kernel.IpcRuns
import Codezero.Kernel.IpcRefine
import Codezero.Kernel.Settles
import Codezero.Kernel.Rendezvous
import Codezero.Kernel.Delivery
import Codezero.Kernel.IpcStops
import Codezero.Kernel.Irq
import Codezero.Kernel.Exclusive
import Codezero.Kernel.SchedRuns
import Codezero.Kernel.MutexRuns
import Codezero.Lib.Tally
import Codezero.Kernel.MutexControl
import Codezero.Kernel.MutexTally
import Codezero.Kernel.MutexControlRuns
import Codezero.User.LockWord
import Codezero.Kernel.MutexControlIntr
import Codezero.Mm0.VmObject
import Codezero.Mm0.Fault
import Codezero.Mm0.Graph
import Codezero.Mm0.Drop
import Codezero.Mm0.Pages
import Codezero.Mm0.Merge
import Codezero.Mm0.Release
import Codezero.Mm0.Mmap
import Codezero.Mm0.Grow
import Codezero.Mm0.Collapse
import Codezero.Mm0.Walk
import Codezero.Mm0.Layered
import Codezero.Mm0.Held
import Codezero.Mm0.Unmap
import Codezero.Mm0.Calls
import Codezero.Mm0.Integrity
import Codezero.Mm0.ReleaseVma
import Codezero.Mm0.MunmapCall
import Codezero.Mm0.PageMap
import Codezero.Mm0.PageMapCalls
import Codezero.Lib.Bits
import Codezero.Space.Mapping
import Codezero.Space.Translation
import Codezero.Space.Copy
import Codezero.Space.Independent
import Codezero.Space.Access
import Codezero.Lib.Bitmap
import Codezero.Kernel.MemCache
import Codezero.Kernel.CacheSize
import Codezero.Kernel.Resource
import Codezero.Lib.Links
import Codezero.Lib.Shares
import Codezero.Kernel.Children
import Codezero.Kernel.ChildrenRuns
import Codezero.Kernel.IrqTasks
import Codezero.Cap.Capability
import Codezero.Cap.Cache
import Codezero.Kernel.SysTime
import Codezero.Cap.Exregs
import Codezero.Cap.ThreadRights
import Codezero.Kernel.ControlLock
import Codezero.Kernel.PageIn
import Codezero.Kernel.Timeslice
import Codezero.Mm0.IdPool
import Codezero.Mm0.AddressPool
import Codezero.Mm0.VmaList
import Codezero.Cap.IrqRights
import Codezero.Cap.ExregsRights
import Codezero.Kernel.ThreadControl
import Codezero.Kernel.ThreadAuthority
import Codezero.Fs.Path
import Codezero.Fs.Lookup
import Codezero.Lib.Rings
import Codezero.Mm0.Process
import Codezero.Mm0.ProcessTree
import Codezero.Mm0.ProcessRuns
import Codezero.Mm0.Exec
import Codezero.Fs.Memfs
import Codezero.Fs.Directory
import Codezero.Fs.DirectoryRuns
import Codezero.Fs.Readdir
import Codezero.Fs.Calls
import Codezero.Fs.MemfsTree
import Codezero.Mm0.Placement
import Codezero.Lib.Transfer
import Codezero.Mm0.UserCopy
import Codezero.Lib.Extent
import Codezero.Mm0.InitialStack
import Codezero.Kernel.ThreadIds
import Codezero.Mm0.Msync
import Codezero.Cap.Lists
import Codezero.Cap.MemcapRange
import Codezero.Kernel.InvalidFrees
import Codezero.Mm0.Ordered
import Codezero.Kernel.BootMemory
