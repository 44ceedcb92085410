import RelizOS.Library.ByteMemory
import RelizOS.Library.Span
import RelizOS.Library.LinkedChain
import RelizOS.Library.Checked
import RelizOS.Library.LabelledRun
import RelizOS.Library.RingBuffer
import RelizOS.Interrupts.ByteQueue
import RelizOS.Library.Cursor
import RelizOS.Paging.FrameAllocator
import RelizOS.Library.RadixTable
import RelizOS.Library.RadixWalk
import RelizOS.Paging.PageTable
import RelizOS.Paging.MapPage
import RelizOS.Paging.HugePages
import RelizOS.Paging.AddressSpace
import RelizOS.Library.Rendezvous
import RelizOS.Kernel.Task
import RelizOS.Kernel.Syscall
import RelizOS.Kernel.Outcome
import RelizOS.Kernel.Machine
import RelizOS.Kernel.Rendezvous
import RelizOS.Kernel.KernelStacks
import RelizOS.Kernel.Start
import RelizOS.Kernel.Blocking
import RelizOS.Kernel.Frames
import RelizOS.Kernel.Contexts
import RelizOS.Kernel.Entries
import RelizOS.Kernel.Delivery
import RelizOS.Kernel.RoundRobin
import RelizOS.Kernel.SendReceive
import RelizOS.Library.WaitFor
import RelizOS.Kernel.Deadlock
import RelizOS.Kernel.Texts
import RelizOS.Kernel.TaskInfo
import RelizOS.Services.NewVolume
import RelizOS.Services.Programs
import RelizOS.Services.Exchange
import RelizOS.Services.RequestReply
import RelizOS.Allocator.Basic
import RelizOS.Allocator.Search
import RelizOS.Allocator.Invariant
import RelizOS.Allocator.Safety
import RelizOS.RelizFs.Reader
import RelizOS.RelizFs.Server
import RelizOS.RelizFs.Image
import RelizOS.RelizFs.Agreement
import RelizOS.RelizFs.Panics
import RelizOS.RelizFs.ReadReply
import RelizOS.RelizFs.Listing
import RelizOS.RelizFs.Mounting
import RelizOS.Gui.Layout
import RelizOS.Allocator.UsedMemory
import RelizOS.Allocator.Conservation
import RelizOS.Allocator.FirstFit
import RelizOS.Allocator.Collections
import RelizOS.Allocator.Fragmentation
import RelizOS.Services.Session
import RelizOS.Services.Shell
import RelizOS.Library.Slice
import RelizOS.Library.Damage
import RelizOS.Gui.FrameBuffer
import RelizOS.Gui.Compositor
import RelizOS.Gui.BlitBounds
import RelizOS.Interrupts.Mouse
import RelizOS.RelizFs.ReadFile
import RelizOS.RelizFs.Lookup
import RelizOS.RelizFs.InodeTable
import RelizOS.RelizFs.EntryName
import RelizOS.Library.Trim
import RelizOS.Services.Cat
import RelizOS.Services.Commands
import RelizOS.Ata.ReadSector
import RelizOS.Library.RawPointer
import RelizOS.Ata.Addressing
import RelizOS.Ata.Server
import RelizOS.Gui.WindowLimit
import RelizOS.Library.Grid
import RelizOS.Gui.WritePixel
import RelizOS.Library.Numerals
import RelizOS.Services.Numbers
import RelizOS.Services.HexDump
import RelizOS.Interrupts.Keyboard
import RelizOS.Library.Painting
import RelizOS.Gui.Renderer
import RelizOS.Library.Strokes
import RelizOS.Gui.TextWriter
import RelizOS.Gui.Drawing
import RelizOS.Gui.Composite
import RelizOS.Gui.Demo
import RelizOS.Gui.Server
import RelizOS.Gui.TextCells
import RelizOS.Gui.TextRow
import RelizOS.Services.LineEdit
import RelizOS.Library.Dialogue
import RelizOS.Services.FsReplies
import RelizOS.Services.FsServer
