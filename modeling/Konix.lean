import Konix.Lib.Splice
import Konix.Lib.OpenFile
import Konix.Lib.Walk
import Konix.Lib.WaitsFor
import Konix.Lib.Words
import Konix.Lib.RefCount
import Konix.Lib.CString
import Konix.Lib.RingBuffer
import Konix.Lib.Fifo
import Konix.Const
import Konix.Fs.State
import Konix.Fs.Inode
import Konix.Fs.ReadWrite
import Konix.Fs.Transfer
import Konix.Fs.FileAccess
import Konix.Fs.FileBytes
import Konix.Hd.Driver
import Konix.Fs.DiskRequests
import Konix.Kernel.Proc
import Konix.Lib.Run
import Konix.Kernel.Ipc
import Konix.Lib.Delivery
import Konix.Kernel.Queue
import Konix.Kernel.Refine
import Konix.Kernel.Calls
import Konix.Kernel.Cycles
import Konix.Kernel.ExactlyOnce
import Konix.Kernel.Interrupts
import Konix.Kernel.Frame
import Konix.Mm.ForkExit
import Konix.Mm.Waiting
import Konix.Kernel.Outcome
import Konix.Servers.Programs
import Konix.Servers.Custody
import Konix.Servers.Safety
import Konix.Servers.Deadlock
import Konix.Servers.Readers
import Konix.Kernel.Assertions
import Konix.Kernel.Queued
import Konix.Mm.Queues
import Konix.Servers.Tree
import Konix.Servers.Reports
import Konix.Servers.Birth
import Konix.Mm.Segments
import Konix.Mm.Descriptors
import Konix.Fs.Alloc
import Konix.Fs.Directory
import Konix.Fs.Cache
import Konix.Fs.Create
import Konix.Fs.Unlink
import Konix.Fs.Mkfs
import Konix.Fs.Maps
import Konix.Fs.Volume
import Konix.Fs.Lifetime
import Konix.Fs.Allocation
import Konix.Fs.Insertion
import Konix.Fs.Files
import Konix.Fs.Refusals
import Konix.Hd.Addressing
import Konix.Hd.Partition
import Konix.Fs.Names
import Konix.Fs.References
import Konix.Fs.Serving
import Konix.Fs.Counts
import Konix.Fs.Coherence
import Konix.Fs.Paths
import Konix.Kernel.KernelMap
import Konix.Klib.Vsprintf
import Konix.Klib.Panic
import Konix.Terminal.Screen
import Konix.Terminal.Window
import Konix.Terminal.Output
import Konix.Terminal.LineEditor
import Konix.Terminal.Typing
import Konix.Terminal.Rings
import Konix.Boot.Loader
import Konix.Lib.Greatest
import Konix.Lib.Numerals
import Konix.Klib.Numbers
import Konix.Klib.Formats
import Konix.Kernel.Schedule
import Konix.Kernel.Delay
import Konix.Kernel.Indices
import Konix.Mm.Indexing
import Konix.Mm.Exit
import Konix.Fs.Opening
import Konix.Lib.Measure
import Konix.Kernel.Fairness
import Konix.Lib.FileStore
import Konix.Fs.Elsewhere
import Konix.Fs.Store
import Konix.Fs.LastWrite
import Konix.Lib.AtaDrive
import Konix.Lib.Fallible
import Konix.Hd.Task
import Konix.Hd.Service
import Konix.Hd.Backing
import Konix.Lib.Contexts
import Konix.Kernel.Entry
import Konix.Kernel.Nesting
import Konix.Kernel.Resuming
import Konix.Lib.Paging
import Konix.Lib.Copies
import Konix.Boot.Search
import Konix.Boot.Loading
import Konix.Boot.Memory
import Konix.Boot.Kernel
import Konix.Lib.Pic
import Konix.Kernel.Irq
import Konix.Lib.Reactive
import Konix.Terminal.Task
import Konix.Terminal.Consoles
import Konix.Terminal.Independence
import Konix.Klib.Strings
import Konix.Terminal.Shell
import Konix.Terminal.Typist
