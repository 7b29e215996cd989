import DmfOs.Core.Align
import DmfOs.Core.Memory
import DmfOs.Core.Fill
import DmfOs.Core.Mask
import DmfOs.Core.Run
import DmfOs.Core.Linked
import DmfOs.Core.Commands
import DmfOs.Core.Lock
import DmfOs.Mem.Phys.State
import DmfOs.Mem.Page.State
import DmfOs.Mem.Page.Block
import DmfOs.Mem.Page.Scan
import DmfOs.Mem.Page.Transfer
import DmfOs.Mem.Page.Complete
import DmfOs.Mem.Page.Inverse
import DmfOs.Mem.Page.Order
import DmfOs.Mem.Page.Ownership
import DmfOs.Mem.Phys.Grants
import DmfOs.Mem.Phys.Log
import DmfOs.Mem.Phys.Map
import DmfOs.Lib.Mem
import DmfOs.Lib.Str
import DmfOs.Lib.Compare
import DmfOs.Lib.ByteOrder
import DmfOs.Lib.Printf
import DmfOs.Lib.Number
import DmfOs.Lib.NumBuf
import DmfOs.Lib.Format
import DmfOs.Lib.Width
import DmfOs.Lib.Unsigned
import DmfOs.Lib.Modifiers
import DmfOs.Lib.Parse
import DmfOs.Lib.Fmtnum
import DmfOs.Lib.Binstr
import DmfOs.Io.Screen
import DmfOs.Io.Cells
import DmfOs.Io.Uart
import DmfOs.Io.Console
import DmfOs.Io.Print
import DmfOs.Mem.Heap.State
import DmfOs.Mem.Heap.Layout
import DmfOs.Mem.Heap.OutOfMemory
import DmfOs.Mem.Heap.Early
import DmfOs.Mem.Heap.Conserve
import DmfOs.Mem.Heap.Switch
import DmfOs.Mem.Heap.Aligned
import DmfOs.Mem.Heap.Wrap
import DmfOs.Mem.Heap.Calloc
import DmfOs.Mem.Heap.Preconditions
import DmfOs.Paging.Walk
import DmfOs.Paging.Tables
import DmfOs.Mem.Heap.Mapped
import DmfOs.Vm.Encoding
import DmfOs.Vm.State
import DmfOs.Vm.Exit
import DmfOs.Vm.Run
import DmfOs.Vm.Failures
import DmfOs.Vm.Progress
import DmfOs.Vm.PageFault
import DmfOs.Vm.Init
import DmfOs.Vm.Launch
import DmfOs.Vm.View
import DmfOs.Vm.Registers
import DmfOs.Vm.Hypercall
import DmfOs.Vm.Lifecycle
import DmfOs.Vm.TaskRegister
import DmfOs.Vm.Skip
import DmfOs.Vm.Sysenter
import DmfOs.Vm.Controls
import DmfOs.Boot.Probe
import DmfOs.Boot.Disk
import DmfOs.Boot.Elf
import DmfOs.Core.Stack
import DmfOs.Cpu.Descriptor
import DmfOs.Cpu.State
import DmfOs.Cpu.Syscall
import DmfOs.Cpu.Idt
import DmfOs.Io.Pic
import DmfOs.Cpu.Interrupt
import DmfOs.Cpu.Sched
import DmfOs.Cpu.Start
