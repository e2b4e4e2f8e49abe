import Cosec.Core.ElfSegments
import Cosec.Core.KernelStacks
import Cosec.Core.Scheduler
import Cosec.Core.SegmentLoading
import Cosec.Core.ShellLines
import Cosec.Dev.ClockReading
import Cosec.Dev.ConsoleDevices
import Cosec.Dev.ConsoleWrites
import Cosec.Dev.CursorBounds
import Cosec.Dev.InputQueue
import Cosec.Dev.KeyboardBuffer
import Cosec.Dev.PciBus
import Cosec.Dev.VirtioQueues
import Cosec.Dev.VirtioReceive
import Cosec.Dev.VirtioTransmit
import Cosec.Dev.VirtualConsoles
import Cosec.Dev.WriteBounds
import Cosec.Fs.AppendRuns
import Cosec.Fs.BlockOwnership
import Cosec.Fs.BlockWrites
import Cosec.Fs.CallRuns
import Cosec.Fs.ClosedDescriptors
import Cosec.Fs.ComponentWalk
import Cosec.Fs.DeviceNumbers
import Cosec.Fs.DirectoryCreation
import Cosec.Fs.DirectoryLinks
import Cosec.Fs.DirectoryListing
import Cosec.Fs.DirectoryMaps
import Cosec.Fs.Dirnames
import Cosec.Fs.FailedCalls
import Cosec.Fs.FileBlocks
import Cosec.Fs.FileCalls
import Cosec.Fs.FileRefinement
import Cosec.Fs.FreedPages
import Cosec.Fs.InodeLifetimes
import Cosec.Fs.InodeNumbers
import Cosec.Fs.InodeTree
import Cosec.Fs.InodeUpdates
import Cosec.Fs.LeafSearches
import Cosec.Fs.LinkCounts
import Cosec.Fs.LinkNames
import Cosec.Fs.LinkedLookups
import Cosec.Fs.MountResolution
import Cosec.Fs.MountSteps
import Cosec.Fs.NameGraph
import Cosec.Fs.NewDirectories
import Cosec.Fs.OpenCounts
import Cosec.Fs.PathLookup
import Cosec.Fs.PlacedBlocks
import Cosec.Fs.Ramfs
import Cosec.Fs.Renaming
import Cosec.Fs.Seeking
import Cosec.Fs.TreeRuns
import Cosec.Fs.TreeShapes
import Cosec.Fs.Vfs
import Cosec.Fs.VfsSteps
import Cosec.Fs.WriteSizes
import Cosec.Lib.BitFields
import Cosec.Lib.ByteArrays
import Cosec.Lib.CircularBuffers
import Cosec.Lib.Commands
import Cosec.Lib.Components
import Cosec.Lib.FifoCaches
import Cosec.Lib.ForwardRing
import Cosec.Lib.HashChains
import Cosec.Lib.Holdings
import Cosec.Lib.KeyedWalks
import Cosec.Lib.LinkedRing
import Cosec.Lib.ObjectStore
import Cosec.Lib.OnesComplement
import Cosec.Lib.Prefixes
import Cosec.Lib.RefCounts
import Cosec.Lib.RingCounters
import Cosec.Lib.Transition
import Cosec.Lib.Word32
import Cosec.Lib.WordBytes
import Cosec.Lib.WordMemory
import Cosec.Libc.BufferedStreams
import Cosec.Libc.Calendar
import Cosec.Libc.CharacterClasses
import Cosec.Libc.Comparisons
import Cosec.Libc.Copies
import Cosec.Libc.Crc32
import Cosec.Libc.ErrorNumbers
import Cosec.Libc.Formatting
import Cosec.Libc.NumberRoundTrips
import Cosec.Libc.NumberTexts
import Cosec.Libc.PrintedNumbers
import Cosec.Libc.StreamPositions
import Cosec.Libc.StreamReads
import Cosec.Libc.Strings
import Cosec.Libc.TableLookups
import Cosec.Libc.Tokens
import Cosec.Libc.ZeroedBlocks
import Cosec.Mem.BlockLayout
import Cosec.Mem.ChunkHeaders
import Cosec.Mem.FirstFit
import Cosec.Mem.HeapFrames
import Cosec.Mem.HeapOperations
import Cosec.Mem.HeapRealloc
import Cosec.Mem.HeapRuns
import Cosec.Mem.Layout
import Cosec.Mem.NewHeaps
import Cosec.Mem.PageContents
import Cosec.Mem.PageTables
import Cosec.Mem.PhysicalPages
import Cosec.Mem.ReallocBlocks
import Cosec.Mem.RefusedRealloc
import Cosec.Mem.UserMappings
import Cosec.Net.Checksums
import Cosec.Net.EchoReplies
import Cosec.Net.Exchanges
import Cosec.Net.FrameBounds
import Cosec.Net.Frames
import Cosec.Net.NeighborTables
import Cosec.Net.ReceiveQueue
import Cosec.Net.UdpFrames
