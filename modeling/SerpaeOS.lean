import SerpaeOS.Task.ListInvariant
import SerpaeOS.Heap.Table
import SerpaeOS.Lib.Extents
import SerpaeOS.Heap.Spec
import SerpaeOS.Heap.Run
import SerpaeOS.Memory.Paging
import SerpaeOS.Task.Process
import SerpaeOS.Task.Isolation
import SerpaeOS.Lib.Bytes
import SerpaeOS.Lib.Loop
import SerpaeOS.Loader.Elf
import SerpaeOS.Task.ElfMapping
import SerpaeOS.Disk.Streamer
import SerpaeOS.Fs.Fat.Volume
import SerpaeOS.Fs.Fat.Item
import SerpaeOS.Fs.Fat.Read
import SerpaeOS.Fs.Fat.Directory
import SerpaeOS.Fs.Fat.Lookup
import SerpaeOS.Fs.Fat.Write
import SerpaeOS.Fs.Fat.Alloc
import SerpaeOS.Fs.Fat.WriteSpec
import SerpaeOS.Fs.Fat.WriteFrame
import SerpaeOS.Fs.Fat.Append
import SerpaeOS.Heap.Accounts
import SerpaeOS.Fs.Pparser
import SerpaeOS.Fs.Fat.Open
import SerpaeOS.Fs.Fat.OpenAccounts
import SerpaeOS.Fs.File
import SerpaeOS.Fs.FileSpec
import SerpaeOS.Disk.Stream
import SerpaeOS.Fs.Descriptors
import SerpaeOS.Task.Files
import SerpaeOS.Fs.FileOps
import SerpaeOS.Task.System
import SerpaeOS.Task.Switch
import SerpaeOS.Task.ScreenBytes
import SerpaeOS.Task.Terminate
import SerpaeOS.Fs.ReadCodes
import SerpaeOS.Task.Load
import SerpaeOS.Task.Table
import SerpaeOS.Task.Commands
import SerpaeOS.Task.Hosting
import SerpaeOS.Task.Wake
import SerpaeOS.Task.FileCommands
import SerpaeOS.Heap.Ledger
import SerpaeOS.Fs.Fat.OpenHolds
import SerpaeOS.Fs.FileHolds
import SerpaeOS.Keyboard.Buffer
import SerpaeOS.Keyboard.Line
import SerpaeOS.Fs.Seek
import SerpaeOS.Fs.Fat.Address
import SerpaeOS.Disk.Search
import SerpaeOS.Heap.Sweep
import SerpaeOS.Task.Release
import SerpaeOS.Task.UserBuffers
import SerpaeOS.Fs.Fat.Capacity
import SerpaeOS.Heap.Guard
import SerpaeOS.Heap.Pinned
import SerpaeOS.Heap.Confined
import SerpaeOS.Fs.FileClear
import SerpaeOS.Task.LoadFailed
import SerpaeOS.Task.Kept
import SerpaeOS.Task.Invoke
import SerpaeOS.Task.Repaint
import SerpaeOS.Fs.Fat.Delete
import SerpaeOS.Fs.Fat.RootFrame
import SerpaeOS.Fs.RootCache
import SerpaeOS.Fs.Fat.Erase
import SerpaeOS.Keyboard.Classic
import SerpaeOS.Task.Screen
import SerpaeOS.Fs.PathText
import SerpaeOS.Fs.Fat.PathWalk
import SerpaeOS.Lib.Tokens
import SerpaeOS.Lib.CString
import SerpaeOS.Stdlib.String
import SerpaeOS.Stdlib.Serpaeos
import SerpaeOS.Fs.FileReads
import SerpaeOS.Task.LoadRuns
import SerpaeOS.Task.TableRuns
import SerpaeOS.Task.Arguments
import SerpaeOS.Task.Next
import SerpaeOS.Task.ElfPages
import SerpaeOS.Fs.Fat.ClusterWalk
import SerpaeOS.Fs.Fat.ChainTable
import SerpaeOS.Fs.Fat.EntrySlot
import SerpaeOS.Heap.FirstFit
import SerpaeOS.Task.ProcessMalloc
import SerpaeOS.Fs.Fat.WriteFailed
import SerpaeOS.Fs.Fat.Name
import SerpaeOS.Fs.PathRoundTrip
import SerpaeOS.Stdlib.Restart
import SerpaeOS.Disk.Faults
import SerpaeOS.Lib.Walk
import SerpaeOS.Fs.Fat.ChainWalks
import SerpaeOS.Fs.Fat.FreeCluster
import SerpaeOS.Fs.Fat.NextFree
import SerpaeOS.Fs.Fat.CreateFile
import SerpaeOS.Fs.Fat.NewEntry
import SerpaeOS.Fs.Fat.NewFile
import SerpaeOS.Stdlib.Compare
import SerpaeOS.Lib.Decimal
import SerpaeOS.Stdlib.Itoa
import SerpaeOS.Memory.FreeTables
import SerpaeOS.Memory.Gdt
import SerpaeOS.Keyboard.Modifiers
import SerpaeOS.Task.Thread
import SerpaeOS.Task.ProcessInf
import SerpaeOS.Heap.OneBlock
import SerpaeOS.Memory.PageTables
import SerpaeOS.Task.CopyString
import SerpaeOS.Heap.Holding
import SerpaeOS.Memory.AddressSpaces
import SerpaeOS.Lib.X86
import SerpaeOS.Lib.RoundRobin
import SerpaeOS.Lib.Chains
import SerpaeOS.Fs.Fat.ChainStore
import SerpaeOS.Task.Context
import SerpaeOS.Task.ContextRun
import SerpaeOS.Task.Ticks
import SerpaeOS.Task.Order
import SerpaeOS.Task.Clock
import SerpaeOS.Time.Rtc
import SerpaeOS.Time.Interrupt
import SerpaeOS.Task.Consoles
import SerpaeOS.Keyboard.Typing
