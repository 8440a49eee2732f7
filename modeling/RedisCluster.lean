import RedisCluster.Bitops.Proofs.BitRangeProofs
import RedisCluster.Pubsub.Proofs.PubsubProofs
import RedisCluster.Cluster.Proofs.SlaveMigrationProofs
import RedisCluster.Hyperloglog.Proofs.StringValuesProofs
import RedisCluster.Util.Proofs.GlobProofs
import RedisCluster.Dict.Proofs.IterationProofs
import RedisCluster.Dict.Proofs.ScanProofs
import RedisCluster.Zset.Proofs.LexRangeProofs
import RedisCluster.Cluster.Proofs.VoterProofs
import RedisCluster.Cluster.Proofs.ElectionProofs
import RedisCluster.Cluster.Proofs.FailReportProofs
import RedisCluster.Clients.Proofs.BlockedProofs
import RedisCluster.Multi.Proofs.AbortProofs
import RedisCluster.Multi.Proofs.StreamProofs
import RedisCluster.Networking.Proofs.RequestRunProofs
import RedisCluster.Networking.Proofs.InlineProofs
import RedisCluster.Replies.Proofs.ReplyRunProofs
import RedisCluster.Keyspace.Proofs.ServedProofs
import RedisCluster.Keyspace.Proofs.MigrateProofs
import RedisCluster.Keyspace.Proofs.StringRangeProofs
import RedisCluster.Aof.Proofs.SurvivalProofs
import RedisCluster.Aof.Proofs.CheckLoadProofs
import RedisCluster.Aof.Proofs.FlushProofs
import RedisCluster.Sentinel.Proofs.SelectSlaveProofs
import RedisCluster.Sentinel.Proofs.AgreementRunProofs
import RedisCluster.Cluster.Proofs.MigrationProofs
import RedisCluster.Cluster.Proofs.SlotClaimProofs
import RedisCluster.Cluster.Proofs.FramingProofs
import RedisCluster.Replication.Proofs.SyncProofs
import RedisCluster.Replication.Proofs.OffsetRunProofs
import RedisCluster.Replication.Proofs.WaitProofs
import RedisCluster.Replication.Proofs.BacklogProofs
import RedisCluster.Multi.Proofs.ScriptProofs
import RedisCluster.Multi.Proofs.KeyPositionsProofs
import RedisCluster.Multi.Proofs.SlotOwnersProofs
import RedisCluster.Sort.Proofs.StoreProofs
import RedisCluster.Ziplist.Proofs.RefinementProofs
import RedisCluster.Zipmap.Proofs.MapProofs
import RedisCluster.Rdb.Proofs.StringCodecProofs
import RedisCluster.Aof.Proofs.ExpireTimeProofs
import RedisCluster.Redisdb.Proofs.RandomKeyProofs
import RedisCluster.Keyspace.Proofs.CounterProofs
import RedisCluster.Sets.Proofs.RandomMemberProofs
import RedisCluster.Redisdb.Proofs.EvictionPoolProofs
import RedisCluster.Util.Proofs.QuotingProofs
import RedisCluster.Redisdb.Proofs.SlotIndexProofs
import RedisCluster.Ae.Proofs.TimeEventsProofs
import RedisCluster.Cluster.Proofs.RemoveSlaveProofs
import RedisCluster.Dict.Proofs.RandomKeysProofs
import RedisCluster.Sort.Proofs.PqsortProofs
