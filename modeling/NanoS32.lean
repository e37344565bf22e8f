import NanoS32.Hwio.Disk
import NanoS32.Fs.Chain
import NanoS32.Fs.Dir
import NanoS32.Lemmas.Table
import NanoS32.Lemmas.Chain
import NanoS32.Lemmas.Refcount
import NanoS32.Lemmas.Recount
import NanoS32.Lemmas.Bytes
import NanoS32.Lemmas.Data
import NanoS32.Lemmas.Items
import NanoS32.Lemmas.Rules
import NanoS32.Lemmas.Path
import NanoS32.Inv.Format
import NanoS32.Lib.Forest
import NanoS32.Lib.NameTree
import NanoS32.Kernel.Heap
import NanoS32.Theorems.Heap
import NanoS32.Net.Wire
import NanoS32.Net.Host
import NanoS32.Net.Recv
import NanoS32.Net.Udp
import NanoS32.Theorems.Arp
import NanoS32.Net.Slot
import NanoS32.Theorems.Slot
import NanoS32.Theorems.Udp
import NanoS32.Fs.Small
import NanoS32.Theorems.Faults
import NanoS32.Sound.Card
import NanoS32.Sound.Playback
import NanoS32.Sound.Run
import NanoS32.Lemmas.Playback
import NanoS32.Theorems.Sound
import NanoS32.Lib.Ia32
import NanoS32.Nas.Instruction
import NanoS32.Theorems.Encode
import NanoS32.Fs.Time
import NanoS32.Theorems.Time
import NanoS32.Hwio.Geometry
import NanoS32.Theorems.Superblock
import NanoS32.Inv.WellFormed
import NanoS32.Theorems.Read
import NanoS32.Lemmas.PathText
import NanoS32.Theorems.Path
import NanoS32.Lemmas.Delete
import NanoS32.Theorems.Delete
import NanoS32.Programs.Edit
import NanoS32.Theorems.Screen
import NanoS32.Theorems.Edit
import NanoS32.Cli.Config
import NanoS32.Lemmas.IpText
import NanoS32.Lemmas.OneBlock
import NanoS32.Theorems.Config
import NanoS32.Lemmas.Rewrite
import NanoS32.Lemmas.Resize
import NanoS32.Lemmas.Reading
import NanoS32.Inv.Calls
import NanoS32.Lemmas.OtherDisk
import NanoS32.Lemmas.Copying
import NanoS32.Lemmas.Fresh
import NanoS32.Inv.Runs
import NanoS32.Theorems.Tree
import NanoS32.Theorems.Listing
import NanoS32.Fstools.Mkfs
import NanoS32.Lemmas.Mkfs
import NanoS32.Inv.Image
import NanoS32.Theorems.Mkfs
import NanoS32.Theorems.Allocation
import NanoS32.Lib.Crc
import NanoS32.Lib.Ones
import NanoS32.Theorems.Checksum
import NanoS32.Lemmas.Frame
import NanoS32.Theorems.Buffers
import NanoS32.Theorems.Geometry
import NanoS32.Hwio.Timer
import NanoS32.Theorems.Timer
import NanoS32.Lib.Walk
import NanoS32.Theorems.Chunks
import NanoS32.Theorems.Counters
import NanoS32.Hwio.Transfer
import NanoS32.Lemmas.Transfer
import NanoS32.Theorems.Transfer
import NanoS32.Theorems.DiskWrite
import NanoS32.Lib.LineEditor
import NanoS32.Theorems.Getstr
import NanoS32.Hwio.Vga
import NanoS32.Lib.Terminal
import NanoS32.Theorems.Vga
import NanoS32.Hwio.Rtc
import NanoS32.Theorems.Rtc
import NanoS32.Theorems.Linecol
import NanoS32.Lib.Numeral
import NanoS32.Nas.Token
import NanoS32.Theorems.Numbers
import NanoS32.Theorems.Format
import NanoS32.Theorems.Script
import NanoS32.Nas.Assembler
import NanoS32.Lemmas.Assembler
import NanoS32.Lemmas.Resolve
import NanoS32.Lemmas.Reference
import NanoS32.Theorems.Branch
import NanoS32.Theorems.Bounds
import NanoS32.Theorems.References
import NanoS32.Lemmas.Token
import NanoS32.Theorems.DataLines
import NanoS32.Ulib.Strtok
import NanoS32.Theorems.Tokens
import NanoS32.Ulib.Format
import NanoS32.Theorems.Memory
import NanoS32.Theorems.Symbols
import NanoS32.Theorems.Confined
import NanoS32.Theorems.Chains
import NanoS32.Theorems.RemoveItem
import NanoS32.Boot.Loader
import NanoS32.Theorems.Boot
import NanoS32.Lib.FileTree
import NanoS32.Inv.Contents
import NanoS32.Inv.Writing
import NanoS32.Inv.Lookup
import NanoS32.Theorems.Apart
import NanoS32.Theorems.Contents
import NanoS32.Theorems.Simulation
import NanoS32.Lib.Network
import NanoS32.Net.Hosts
import NanoS32.Lemmas.Frames
import NanoS32.Theorems.Network
import NanoS32.Theorems.Copy
import NanoS32.Theorems.Editing
import NanoS32.Theorems.EditScreen
import NanoS32.Hwio.Keyboard
import NanoS32.Theorems.Keyboard
