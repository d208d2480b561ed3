import Sysbench.Database.AttachBinds
import Sysbench.Database.Binds
import Sysbench.Database.BulkBatches
import Sysbench.Database.BulkBounds
import Sysbench.Database.BulkCommits
import Sysbench.Database.BulkFaults
import Sysbench.Database.BulkInsert
import Sysbench.Database.BulkRep
import Sysbench.Database.DriverInit
import Sysbench.Database.Emulation
import Sysbench.Database.HostRotation
import Sysbench.Database.Placeholders
import Sysbench.Database.ReportDeltas
import Sysbench.Database.StatIndices
import Sysbench.Database.ThreadStats
import Sysbench.Fileio.AsyncBacklog
import Sysbench.Fileio.AsyncIo
import Sysbench.Fileio.BlockTrailer
import Sysbench.Fileio.Checksums
import Sysbench.Fileio.Counters
import Sysbench.Fileio.Crc32
import Sysbench.Fileio.FileStats
import Sysbench.Fileio.FsyncEnd
import Sysbench.Fileio.FsyncSchedule
import Sysbench.Fileio.Lifecycle
import Sysbench.Fileio.MappedIo
import Sysbench.Fileio.Options
import Sysbench.Fileio.RandomBounds
import Sysbench.Fileio.Requests
import Sysbench.Fileio.RwRatio
import Sysbench.Fileio.SeqBounds
import Sysbench.Fileio.SeqOrder
import Sysbench.Fileio.SeqStream
import Sysbench.Fileio.Validation
import Sysbench.Fileio.Workers
import Sysbench.Logging.Checkpoints
import Sysbench.Logging.DuplicateText
import Sysbench.Logging.OperHandler
import Sysbench.Logging.PercentileRank
import Sysbench.Logging.PercentileScan
import Sysbench.Logging.Percentiles
import Sysbench.Logging.ReportThread
import Sysbench.Logging.Reports
import Sysbench.Logging.TimerMerge
import Sysbench.Logging.TimerSplit
import Sysbench.Machinery.CString
import Sysbench.Machinery.CircularList
import Sysbench.Machinery.ListRuns
import Sysbench.Machinery.LockOrder
import Sysbench.Machinery.MachineInt
import Sysbench.Machinery.Memory
import Sysbench.Machinery.Packing
import Sysbench.Machinery.Parties
import Sysbench.Machinery.Qsort
import Sysbench.Machinery.RefTable
import Sysbench.Machinery.Rounding
import Sysbench.Machinery.Traces
import Sysbench.Options.ConfigFile
import Sysbench.Options.FiniteMap
import Sysbench.Options.ListMacros
import Sysbench.Options.SizeText
import Sysbench.Options.Store
import Sysbench.Random.Distributions
import Sysbench.Random.OptionRange
import Sysbench.Random.RandomText
import Sysbench.Random.UniqueIds
import Sysbench.Scripting.Atomicity
import Sysbench.Scripting.ErrorCodes
import Sysbench.Scripting.LuaBinds
import Sysbench.Scripting.LuaExport
import Sysbench.Scripting.OltpScripts
import Sysbench.Scripting.ParallelPrepare
import Sysbench.Scripting.PgSession
import Sysbench.Scripting.ResultSets
import Sysbench.Scripting.ResumePrepare
import Sysbench.Scripting.ScriptLua
import Sysbench.Scripting.Session
import Sysbench.Scripting.TableRefs
import Sysbench.Scripting.XaBranches
import Sysbench.Scripting.XaInDoubt
import Sysbench.Scripting.XaStats
import Sysbench.Threads.Barrier
import Sysbench.Threads.BarrierReuse
import Sysbench.Threads.Concurrency
import Sysbench.Threads.EventQueue
import Sysbench.Threads.LockHierarchy
import Sysbench.Threads.QueueWait
import Sysbench.Threads.RequestLimit
import Sysbench.Threads.Shutdown
import Sysbench.Threads.StartBarrier
import Sysbench.Threads.WinCond
import Sysbench.Threads.WinOnce
import Sysbench.Threads.WorkerLoop
import Sysbench.Workloads.CpuTest
import Sysbench.Workloads.LockTests
import Sysbench.Workloads.MemoryTest
import Sysbench.Workloads.MutexCount
