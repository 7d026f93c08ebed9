import HouseOS.Args.Dynamic
import HouseOS.Args.Forward
import HouseOS.Args.Interp
import HouseOS.Args.Model
import HouseOS.Args.RoundTrip
import HouseOS.Args.Stack
import HouseOS.Cmd.Copy
import HouseOS.Cmd.Grep
import HouseOS.Cmd.Model
import HouseOS.Cmd.Normalize
import HouseOS.Composd.Delivery
import HouseOS.Composd.Model
import HouseOS.Composd.Packets
import HouseOS.Composd.Term
import HouseOS.Disk.Model
import HouseOS.Elf.Bounds
import HouseOS.Elf.Image
import HouseOS.Elf.Model
import HouseOS.Exec.Failure
import HouseOS.Exec.Model
import HouseOS.Fat32.Append
import HouseOS.Fat32.Borrow
import HouseOS.Fat32.Catalogue
import HouseOS.Fat32.Effects
import HouseOS.Fat32.File
import HouseOS.Fat32.Geometry
import HouseOS.Fat32.Isolation
import HouseOS.Fat32.Model
import HouseOS.Fat32.Reader
import HouseOS.Fat32.Resolve
import HouseOS.Fat32.Restore
import HouseOS.Fat32.RoundTrip
import HouseOS.Fat32.Store
import HouseOS.Fat32.Walk
import HouseOS.Fat32.WriteAtomic
import HouseOS.Fonts.Psf
import HouseOS.Hgui.Object
import HouseOS.Hgui.Widget
import HouseOS.Images.Bmp
import HouseOS.Images.BmpBounds
import HouseOS.Images.Model
import HouseOS.Images.Visible
import HouseOS.Init.Model
import HouseOS.Init.Supervision
import HouseOS.Initramfs.Archive
import HouseOS.Initramfs.Clean
import HouseOS.Initramfs.Import
import HouseOS.Keyboard.Keys
import HouseOS.Keyboard.Model
import HouseOS.Keyboard.Modifiers
import HouseOS.Keyboard.Pause
import HouseOS.Keyboard.UsbRun
import HouseOS.Kstring.Memmove
import HouseOS.Kstring.Model
import HouseOS.Kstring.Numerals
import HouseOS.Kstring.Strtok
import HouseOS.Ldso.Dylib
import HouseOS.Ldso.Loads
import HouseOS.Ldso.Model
import HouseOS.Ldso.Regions
import HouseOS.Ldso.Relocation
import HouseOS.Library.Assign
import HouseOS.Library.Builder
import HouseOS.Library.ByteCopy
import HouseOS.Library.ByteCursor
import HouseOS.Library.ByteMem
import HouseOS.Library.CanonicalPath
import HouseOS.Library.Components
import HouseOS.Library.Graph
import HouseOS.Library.Ledger
import HouseOS.Library.LineWalk
import HouseOS.Library.Linked
import HouseOS.Library.Loop
import HouseOS.Library.Ownership
import HouseOS.Library.Paper
import HouseOS.Library.Program
import HouseOS.Library.Ring
import HouseOS.Library.Run
import HouseOS.Library.Scan
import HouseOS.Library.SharedStore
import HouseOS.Library.Window
import HouseOS.Library.Word
import HouseOS.Library.Words
import HouseOS.Memfs.Accounts
import HouseOS.Memfs.Atomic
import HouseOS.Memfs.Content
import HouseOS.Memfs.ContentModel
import HouseOS.Memfs.Effect
import HouseOS.Memfs.FirstMissing
import HouseOS.Memfs.Forest
import HouseOS.Memfs.Kept
import HouseOS.Memfs.Lookup
import HouseOS.Memfs.MakePath
import HouseOS.Memfs.Model
import HouseOS.Memfs.Names
import HouseOS.Memfs.Search
import HouseOS.Memfs.SharedBytes
import HouseOS.Memfs.Streams
import HouseOS.Memfs.Tree
import HouseOS.Memfs.TreeInvariant
import HouseOS.Mm.Alloc
import HouseOS.Mm.Blocks
import HouseOS.Mm.Clients
import HouseOS.Mm.Contracts
import HouseOS.Mm.Fragments
import HouseOS.Mm.Free
import HouseOS.Mm.FreeList
import HouseOS.Mm.Init
import HouseOS.Mm.Model
import HouseOS.Mm.Payload
import HouseOS.Mm.Shape
import HouseOS.Mm.Tiling
import HouseOS.Mouse.Model
import HouseOS.Mouse.Tracking
import HouseOS.Netd.Address
import HouseOS.Netd.Offer
import HouseOS.Output.Content
import HouseOS.Output.Model
import HouseOS.Procfs.FdText
import HouseOS.Procfs.Model
import HouseOS.Procfs.Paths
import HouseOS.Procfs.Reads
import HouseOS.Procfs.Records
import HouseOS.Procfs.Sizes
import HouseOS.Pty.Model
import HouseOS.Pty.Sessions
import HouseOS.Sched.Fair
import HouseOS.Sched.Holdings
import HouseOS.Sched.Idle
import HouseOS.Sched.Invariant
import HouseOS.Sched.Model
import HouseOS.Sched.RunQueue
import HouseOS.Sched.Sleep
import HouseOS.Sched.Step
import HouseOS.Sched.Wait
import HouseOS.Shell.Commands
import HouseOS.Shell.Lines
import HouseOS.Shell.Spelling
import HouseOS.Shell.VarMap
import HouseOS.Shell.Vars
import HouseOS.Syscall.Fd
import HouseOS.Syscall.FileIo
import HouseOS.Syscall.FileRefines
import HouseOS.Syscall.FileTree
import HouseOS.Syscall.Frame
import HouseOS.Syscall.MountCalls
import HouseOS.Syscall.MountSlots
import HouseOS.Syscall.Select
import HouseOS.Syscall.SlotMoves
import HouseOS.Syscall.SlotOwners
import HouseOS.Syscall.SlotSteps
import HouseOS.Syscall.Sockets
import HouseOS.Syscall.Stdio
import HouseOS.Syscall.Step
import HouseOS.Syscall.System
import HouseOS.Syscall.TreeRefines
import HouseOS.Tty.Consoles
import HouseOS.Tty.Cursor
import HouseOS.Tty.HistoryRing
import HouseOS.Tty.LineRefine
import HouseOS.Tty.Model
import HouseOS.Tty.Paper
import HouseOS.Tty.Reader
import HouseOS.Tty.ReaderRefine
import HouseOS.Udp.Bindings
import HouseOS.Udp.Fifo
import HouseOS.Udp.Model
import HouseOS.Vesa.Colour
import HouseOS.Vesa.Copy
import HouseOS.Vesa.Fill
import HouseOS.Vesa.Line
import HouseOS.Vesa.Model
import HouseOS.Vesa.Pixel
import HouseOS.Vesa.Scroll
import HouseOS.Vesa.Triangle
import HouseOS.Vfs.Model
import HouseOS.Vfs.MountGuard
import HouseOS.Vfs.MountTable
import HouseOS.Vfs.Resolve
import HouseOS.Vfs.Spelling
import HouseOS.Vfs.Table
import HouseOS.Xhci.Delivery
