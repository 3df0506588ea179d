import Miniob.Buffer.BufferPool
import Miniob.Buffer.CheckSum
import Miniob.Buffer.DoubleWrite
import Miniob.Buffer.HeldPages
import Miniob.Buffer.PageContent
import Miniob.Buffer.PageOperations
import Miniob.Buffer.ReadBack
import Miniob.Buffer.Stored
import Miniob.Buffer.WriteAhead
import Miniob.Buffer.WriteFailures
import Miniob.Buffer.WriteOutcomes
import Miniob.Cache.BufferPools
import Miniob.Cache.FrameCache
import Miniob.Cache.FrameManager
import Miniob.Cache.LruCache
import Miniob.Cache.PageFetch
import Miniob.Clog.DiskLogHandler
import Miniob.Clog.LogEntryBuffer
import Miniob.Clog.LogFile
import Miniob.Clog.Placement
import Miniob.Clog.Reading
import Miniob.Clog.Recovery
import Miniob.Clog.WholeEntries
import Miniob.Common.BinaryIterator
import Miniob.Common.Bitmap
import Miniob.Common.BitmapSearch
import Miniob.Common.Bytes
import Miniob.Common.Crash
import Miniob.Common.Decoder
import Miniob.Common.Fence
import Miniob.Common.FrameTable
import Miniob.Common.Framed
import Miniob.Common.Grouping
import Miniob.Common.Json
import Miniob.Common.Kleene
import Miniob.Common.Linked
import Miniob.Common.LowerBound
import Miniob.Common.Redo
import Miniob.Common.Related
import Miniob.Common.Ring
import Miniob.Common.Run
import Miniob.Common.ShiftRegister
import Miniob.Common.ShortCircuit
import Miniob.Common.ThreeWay
import Miniob.Common.Wildcard
import Miniob.Db.Backed
import Miniob.Db.CheckPoint
import Miniob.Db.Contents
import Miniob.Db.CreateIndex
import Miniob.Db.Entries
import Miniob.Db.Indexed
import Miniob.Db.InsertRecord
import Miniob.Db.RecordFile
import Miniob.Db.Sync
import Miniob.Db.Table
import Miniob.Exec.NestedLoopJoin
import Miniob.Exec.Operator
import Miniob.Exec.OrderBy
import Miniob.Expr.Aggregator
import Miniob.Expr.Arithmetic
import Miniob.Expr.Cast
import Miniob.Expr.Condition
import Miniob.Expr.Dates
import Miniob.Expr.Like
import Miniob.Expr.Text
import Miniob.Expr.VectorText
import Miniob.Expr.Vectorised
import Miniob.Index.AttrComparator
import Miniob.Index.BplusTree
import Miniob.Index.BplusTreeLogEntry
import Miniob.Index.DeleteEntry
import Miniob.Index.DeleteParent
import Miniob.Index.EntrySet
import Miniob.Index.InsertEntry
import Miniob.Index.InsertParent
import Miniob.Index.KeyComparator
import Miniob.Index.LatchCrabbing
import Miniob.Index.Leaves
import Miniob.Index.Levels
import Miniob.Index.LocalChange
import Miniob.Index.Locality
import Miniob.Index.Pages
import Miniob.Index.RangeScan
import Miniob.Index.Rebalance
import Miniob.Index.Run
import Miniob.Index.Scanner
import Miniob.Index.UniqueIndex
import Miniob.Index.WellFormed
import Miniob.Lang.RecursiveSharedMutex
import Miniob.Net.BufferedWriter
import Miniob.Net.MysqlCommunicator
import Miniob.Net.MysqlPackets
import Miniob.Net.MysqlStore
import Miniob.Net.PlainCommunicator
import Miniob.Net.RingBuffer
import Miniob.Optimizer.Expression
import Miniob.Optimizer.ExpressionRewriter
import Miniob.Optimizer.PredicatePushdown
import Miniob.Plan.FromList
import Miniob.Plan.Generate
import Miniob.Plan.Names
import Miniob.Record.Assignment
import Miniob.Record.FileMap
import Miniob.Record.PageLayout
import Miniob.Record.RecordFileHandler
import Miniob.Record.RecordFileScanner
import Miniob.Record.RecordPage
import Miniob.Record.RowStorage
import Miniob.Recovery.AllocatorRedo
import Miniob.Recovery.CheckPoint
import Miniob.Recovery.Eviction
import Miniob.Recovery.OpenFiles
import Miniob.Recovery.PageAllocator
import Miniob.Recovery.PageData
import Miniob.Recovery.RecordRedo
import Miniob.Recovery.Replay
import Miniob.Schema.IndexFileHeader
import Miniob.Schema.Restart
import Miniob.Schema.TableMeta
import Miniob.Sql.GroupBy
import Miniob.Sql.Indexes
import Miniob.Sql.InsertAtomic
import Miniob.Sql.InsertDelete
import Miniob.Sql.InsertRows
import Miniob.Sql.LoadData
import Miniob.Sql.Opened
import Miniob.Sql.Scan
import Miniob.Sql.Statement
import Miniob.Sql.StatementAtomic
import Miniob.Sql.UpdateRows
import Miniob.Sql.View
import Miniob.Sql.ViewUpdate
import Miniob.Sql.ViewWrites
import Miniob.Storage.PagePool
import Miniob.Storage.Types
import Miniob.Thread.ThreadPoolExecutor
import Miniob.Trx.Assertions
import Miniob.Trx.CrashAtomic
import Miniob.Trx.Deletes
import Miniob.Trx.InRange
import Miniob.Trx.Indexes
import Miniob.Trx.Inserts
import Miniob.Trx.Log
import Miniob.Trx.Logbook
import Miniob.Trx.Marks
import Miniob.Trx.Mvcc
import Miniob.Trx.OwnWrites
import Miniob.Trx.Recover
import Miniob.Trx.RecoveredIds
import Miniob.Trx.Rollback
import Miniob.Trx.Sessions
import Miniob.Trx.Snapshot
import Miniob.Trx.StoredRows
import Miniob.Trx.UniqueKeys
import Miniob.Trx.Update
import Miniob.Trx.UpdateExact
import Miniob.Trx.UpdateIsolation
import Miniob.Trx.UpdateUndo
import Miniob.Trx.Versions
import Miniob.Trx.VisitRecord
import Miniob.Trx.Writes
