import SysuOs.Walk
import SysuOs.Dyadic
import SysuOs.DyadicFamily
import SysuOs.BitMap
import SysuOs.BuddyModel
import SysuOs.BuddyFreeArea
import SysuOs.BuddyBlocks
import SysuOs.BuddyInit
import SysuOs.BuddyRun
import SysuOs.BuddyCoalesce
import SysuOs.PagePool
import SysuOs.Machine
import SysuOs.CString
import SysuOs.FatModel
import SysuOs.FatTable
import SysuOs.FatCache
import SysuOs.FatFile
import SysuOs.FatAppend
import SysuOs.FatAppendLaw
import SysuOs.FatFlush
import SysuOs.FatRead
import SysuOs.FatWrite
import SysuOs.Flags
import SysuOs.BitMapPool
import SysuOs.BitMapFit
import SysuOs.PagingModel
import SysuOs.PagingCalls
import SysuOs.PagingVictim
import SysuOs.PagingEvict
import SysuOs.PagingFault
import SysuOs.PagingWords
import SysuOs.PagingTables
import SysuOs.PagingCounters
import SysuOs.PagingLazy
import SysuOs.PagingReclaim
import SysuOs.PagingPages
import SysuOs.PagingRmap
import SysuOs.PagingSpaces
import SysuOs.PagingGrow
import SysuOs.PagingFork
import SysuOs.PagingInherit
import SysuOs.PoolOffers
import SysuOs.PagingReach
import SysuOs.PagingStale
import SysuOs.PagingShrink
import SysuOs.IntrusiveList
import SysuOs.ProgramModel
import SysuOs.ProgramReady
import SysuOs.ProgramRounds
import SysuOs.ProgramSwitch
import SysuOs.ProgramSync
import SysuOs.ProgramTable
import SysuOs.ProgramExit
import SysuOs.ProgramParent
import SysuOs.PagingKernel
import SysuOs.ExpandHeap
import SysuOs.BootLayout
import SysuOs.KernelWindow
import SysuOs.HeapGrowth
import SysuOs.PoolClone
import SysuOs.ProgramFork
import SysuOs.ElfModel
import SysuOs.ExecArgs
import SysuOs.ElfLayout
import SysuOs.MallocModel
import SysuOs.MallocTags
import SysuOs.MallocLists
import SysuOs.MallocHeap
import SysuOs.MallocHole
import SysuOs.MallocFree
import SysuOs.MallocPlace
import SysuOs.MallocAlloc
import SysuOs.MallocFit
import SysuOs.RMapRun
import SysuOs.VfsPath
import SysuOs.VfsMount
import SysuOs.VfsOpen
import SysuOs.VfsDescriptors
import SysuOs.VfsLookup
import SysuOs.FatRoot
import SysuOs.FatIter
import SysuOs.ElfLoad
import SysuOs.ElfSpaces
import SysuOs.ElfImage
import SysuOs.PagingPools
import SysuOs.ElfRollback
import SysuOs.PagingRollback
import SysuOs.PagingUserPools
import SysuOs.ElfPools
import SysuOs.UserMemory
import SysuOs.FatOps
import SysuOs.FatCoherence
import SysuOs.FatRun
import SysuOs.Regular
import SysuOs.TempSlot
import SysuOs.TempSlotCheck
import SysuOs.TempSlotRun
import SysuOs.VfsNormal
import SysuOs.VfsVolumes
import SysuOs.VfsIsolation
import SysuOs.VfsCanonical
import SysuOs.FatEntry
import SysuOs.FatWalks
import SysuOs.FatEmpty
import SysuOs.FatMount
import SysuOs.FatUsable
import SysuOs.FatCreate
import SysuOs.VfsHolders
import SysuOs.VfsOffsets
import SysuOs.FatOrphans
import SysuOs.Numeral
import SysuOs.Decify
import SysuOs.Vsprintf
import SysuOs.VsprintfFormat
import SysuOs.VsprintfCount
import SysuOs.VsprintfNumerals
import SysuOs.ShellParse
import SysuOs.ShellJobs
import SysuOs.RingBuffer
import SysuOs.Keyboard
import SysuOs.ListSequence
import SysuOs.BuddyPool
import SysuOs.VfsInodeRefs
import SysuOs.VfsRefcounts
import SysuOs.VfsProcesses
import SysuOs.MallocWrap
import SysuOs.TimeSlice
import SysuOs.ProgramTimer
import SysuOs.Scroll
import SysuOs.Screen
import SysuOs.ScreenRun
import SysuOs.LineBuffer
import SysuOs.Console
import SysuOs.VfsSystem
import SysuOs.BlockStore
import SysuOs.MallocReady
import SysuOs.MallocRealloc
import SysuOs.MallocRun
import SysuOs.FileStore
import SysuOs.FatStore
import SysuOs.VfsStore
import SysuOs.VfsStoreRun
import SysuOs.VfsCommands
