import Kevlar.BatchMap
import Kevlar.BlockAllocRaces
import Kevlar.CgroupPids
import Kevlar.ChrootConfinement
import Kevlar.ClientRemoval
import Kevlar.DatagramPairs
import Kevlar.EdgeWatchers
import Kevlar.Execve
import Kevlar.ExtentBuilds
import Kevlar.FaultWritable
import Kevlar.FdRuns
import Kevlar.ForestLinks
import Kevlar.FreePageCount
import Kevlar.FutexIsolation
import Kevlar.FutexWakes
import Kevlar.HotDescriptors
import Kevlar.InitStackDecode
import Kevlar.ListenerRegistry
import Kevlar.LookupDepth
import Kevlar.Madvise
import Kevlar.ModuleLoader
import Kevlar.MountTable
import Kevlar.PcidIsolation
import Kevlar.PipeStreams
import Kevlar.PollCache
import Kevlar.RecordLocks
import Kevlar.Select
import Kevlar.SignalFrames
import Kevlar.SignalMirror
import Kevlar.StoppedProcesses
import Kevlar.TableCopies
import Kevlar.TaskContainment
import Kevlar.TimerIrq
import Kevlar.TmpFsLinks
import Kevlar.TmpFsTree
import Kevlar.UserBufWriter
import Kevlar.VmDisjoint
import Kevlar.VmaTemplates
import Kevlar.WindowTree
