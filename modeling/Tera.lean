import Tera.Lib.ByteOrder
import Tera.Lib.StreamFilter
import Tera.Lib.OrderedMap
import Tera.Lib.IteratorLoop
import Tera.Lib.Varint
import Tera.Lib.KeyRanges
import Tera.Lib.Digits
import Tera.Lib.Interleaving
import Tera.Key.RawKey
import Tera.Compact.Strategy
import Tera.Compact.Visibility
import Tera.Compact.AtomicMerge
import Tera.Compact.MergeRead
import Tera.Io.RowRead
import Tera.LevelDB.Coding
import Tera.LevelDB.WriteBatch
import Tera.LevelDB.DBTable
import Tera.LevelDB.WriteRun
import Tera.LevelDB.Recovery
import Tera.Master.Table
import Tera.Master.Procedure
import Tera.Master.Partition
import Tera.Master.SplitMerge
import Tera.Meta.MetaKey
import Tera.Io.SplitKey
import Tera.Sdk.Filter
import Tera.Sdk.FilterDesc
import Tera.Timeoracle.Timeoracle
import Tera.LevelDB.ShardedMemTable
import Tera.Sdk.ScanStream
import Tera.Quota.MasterQuotaEntry
import Tera.Quota.QueryRound
import Tera.Io.TabletWriter
import Tera.Lib.VersionedColumn
import Tera.Sdk.GlobalTxn
import Tera.Sdk.GlobalTxnSafety
import Tera.Sdk.GlobalTxnOrdered
import Tera.Lib.RangeSet
import Tera.Utils.Fragment
import Tera.Sdk.MetaCache
import Tera.Key.KeyCodec
import Tera.Io.SeekKey
import Tera.LevelDB.VersionEdit
import Tera.LoadBalancer.Cluster
import Tera.LoadBalancer.Balance
import Tera.LoadBalancer.Generators
