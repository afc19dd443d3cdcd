import LiteKernel.Block.DeviceIo
import LiteKernel.Block.RegistryMatch
import LiteKernel.Drivers.CommandResults
import LiteKernel.Drivers.DeviceAdd
import LiteKernel.Drivers.Klist
import LiteKernel.Drivers.NvmeSubmit
import LiteKernel.Drivers.PciCaps
import LiteKernel.Drivers.ReportLuns
import LiteKernel.Fs.CreateExisting
import LiteKernel.Fs.Cwd
import LiteKernel.Fs.ExecHeaders
import LiteKernel.Fs.ExecProtection
import LiteKernel.Fs.FileAccounting
import LiteKernel.Fs.MinixCreate
import LiteKernel.Fs.PathCalls
import LiteKernel.Fs.PathNormal
import LiteKernel.Fs.ProcLookup
import LiteKernel.Fs.ProcWindow
import LiteKernel.Kernel.Preempt
import LiteKernel.Kernel.SelectiveWake
import LiteKernel.Kernel.TaskRelease
import LiteKernel.Mm.BootFrames
import LiteKernel.Mm.BootmemAlloc
import LiteKernel.Mm.Brk
import LiteKernel.Mm.Isolation
import LiteKernel.Mm.RmapSet
import LiteKernel.Mm.SlabLimits
import LiteKernel.Mm.VmaEffect
import LiteKernel.Mm.Vmalloc
import LiteKernel.Mm.VmallocFrames
import LiteKernel.Mm.Watermarks
import LiteKernel.Mm.WritebackHonesty
import LiteKernel.Mm.ZapTables
