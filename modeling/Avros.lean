import Avros.Run
import Avros.Queue
import Avros.Kernel
import Avros.KernelQueues
import Avros.KernelRendezvous
import Avros.KernelDelivery
import Avros.KernelStarts
import Avros.KernelRounds
import Avros.Interrupts
import Avros.Vfs
import Avros.PipeDevice
import Avros.MemFile
import Avros.Tty
import Avros.VfsDrivers
import Avros.VfsRefcount
import Avros.VfsEdits
import Avros.Pairing
import Avros.PipeFifo
import Avros.PipeClosing
import Avros.TtyTurns
import Avros.TtyOutput
import Avros.TtyLine
import Avros.VfsNodes
import Avros.VfsInodes
import Avros.VfsAgreement
import Avros.VfsLifetimes
import Avros.VfsWaiting
import Avros.VfsClients
import Avros.VfsWrap
import Avros.ProcessManager
import Avros.ProcessTurns
import Avros.ProcessTable
import Avros.ExitCodes
import Avros.ProcessMemory
import Avros.ProcessChildren
import Avros.ProcessForest
import Avros.Census
import Avros.VfsDescriptors
import Avros.ShellJobs
import Avros.ShellPipeline
import Avros.ShellArgs
import Avros.ShellLine
import Avros.ShellBuffers
import Avros.Links
import Avros.QueueLinks
import Avros.TimeServer
import Avros.Clock
import Avros.QueueWalk
import Avros.Semaphore
import Avros.SemaphoreReplies
import Avros.Deque
import Avros.KernelOrder
import Avros.KernelSenders
import Avros.ProcessSpawn
import Avros.ArgumentVector
import Avros.ArgumentCopy
import Avros.ProcessExec
import Avros.Tiling
import Avros.Malloc
import Avros.MallocCalls
import Avros.VfsExchanges
import Avros.Directory
import Avros.DirectoryRuns
import Avros.VfsPath
import Avros.OpenName
import Avros.VfsLastDescriptor
import Avros.VfsOpenFiles
import Avros.SharedFile
import Avros.PipeLine
import Avros.PipeRuns
import Avros.TtyBuffer
import Avros.MemFileTransfer
import Avros.ByteValues
import Avros.VfsBadDescriptors
import Avros.VfsFailures
import Avros.VfsMknod
import Avros.UserTask
import Avros.Printing
import Avros.Numerals
import Avros.OptionScan
import Avros.ProgramOptions
import Avros.Echo
import Avros.Grep
import Avros.Xargs
import Avros.Uptime
import Avros.Sleep
import Avros.StackFrame
import Avros.ShellRedirection
import Avros.ShellCommand
import Avros.DownStack
import Avros.ContextSwitch
import Avros.TaskSwitch
import Avros.TaskTurns
import Avros.ProgramServer
import Avros.Ranks
import Avros.KernelWaits
import Avros.Filters
