import Cs111.SlugMem.Memstats
import Cs111.Kernel.Preemption
import Cs111.Kernel.Quantum
import Cs111.Kernel.Interrupt
import Cs111.Kernel.Signals
import Cs111.Kernel.Authentic
import Cs111.Kernel.CallStatus
import Cs111.Sched.Priority
import Cs111.Sched.StartErrors
import Cs111.Pm.Nice
import Cs111.Kernel.AsyncSends
import Cs111.Kernel.Notify
import Cs111.Kernel.PrivTables
import Cs111.Kernel.Vsafecopy
import Cs111.Kernel.Vmctl
import Cs111.Ipc.Values
import Cs111.Ipc.Atomic
import Cs111.Ipc.QueryExit
import Cs111.Ipc.Shm
import Cs111.Ds.Snapshots
import Cs111.Ds.Anchors
import Cs111.Ds.Subscribers
import Cs111.Vm.Break
import Cs111.Vm.SplitMaps
import Cs111.Vm.SlabCalls
import Cs111.Mfs.CacheRuns
import Cs111.Mfs.RenameAtomic
import Cs111.Vfs.WakeRuns
import Cs111.Vfs.SelectRuns
import Cs111.Vfs.LockWaiters
import Cs111.Vfs.SelectTimeout
import Cs111.Pm.Alarm
import Cs111.Shell.Tokens
import Cs111.Mfs.Bitmap
import Cs111.Pm.Pids
import Cs111.Vfs.Unlock
import Cs111.Mfs.Scattered
import Cs111.Mfs.DirMap
import Cs111.Mfs.ZoneWrites
import Cs111.Mfs.ParsePath
import Cs111.Ds.Retrieve
