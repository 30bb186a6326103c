import Neve.AdditiveControlProofs
import Neve.BackfillRunProofs
import Neve.BootstrapProofs
import Neve.BroadcastRingProofs
import Neve.BulkPagingProofs
import Neve.BulkProofs
import Neve.ByteTextProofs
import Neve.CatchUpRunProofs
import Neve.CaughtUpProofs
import Neve.ConfigFileProofs
import Neve.ConfigLayersProofs
import Neve.ConfigPrintProofs
import Neve.ConfigProofs
import Neve.EmptinessProofs
import Neve.EmptyWindowProofs
import Neve.EthBackfillProofs
import Neve.EthFillProofs
import Neve.EthIngestProofs
import Neve.EthInstanceProofs
import Neve.EthReadBackProofs
import Neve.EthRpcProofs
import Neve.FaithfulCopyProofs
import Neve.FetchRpcProofs
import Neve.FillLoopProofs
import Neve.FirstGapProofs
import Neve.FrontierProofs
import Neve.GetLogsProofs
import Neve.HandshakeProofs
import Neve.HashIndexProofs
import Neve.HealthProofs
import Neve.HeldPutProofs
import Neve.HostCapProofs
import Neve.IdleTimeoutProofs
import Neve.IndexCompletenessProofs
import Neve.IngestWriteProofs
import Neve.JoinBufferProofs
import Neve.JsonGrammarProofs
import Neve.JsonTextProofs
import Neve.JsonValueProofs
import Neve.LogFilterProofs
import Neve.LogsProvenanceProofs
import Neve.LogsSourcesProofs
import Neve.MiddlewareProofs
import Neve.MirrorFollowProofs
import Neve.MirrorProofs
import Neve.MirrorSessionsProofs
import Neve.OldRecordsProofs
import Neve.PacerProofs
import Neve.PacerSlotsProofs
import Neve.PlatformCodecProofs
import Neve.PlatformFillProofs
import Neve.PlatformIngestProofs
import Neve.PlatformReadBackProofs
import Neve.PlatformRpcProofs
import Neve.ProgressProofs
import Neve.RangeLoopsProofs
import Neve.RangeReplayProofs
import Neve.RecordCodecProofs
import Neve.RecordConsistencyProofs
import Neve.RecordProofs
import Neve.RelayProofs
import Neve.ReplicationProofs
import Neve.RepublishProofs
import Neve.RequestPacingProofs
import Neve.RunProofs
import Neve.SaturatingScanProofs
import Neve.SetEffectProofs
import Neve.ShutdownProofs
import Neve.StampProofs
import Neve.StorageMapProofs
import Neve.StorageProofs
import Neve.StrTextProofs
import Neve.SubscribeProofs
import Neve.TipReadProofs
import Neve.TipTagsProofs
import Neve.TokenRedactionProofs
import Neve.TomlTreeProofs
import Neve.TxIndexProofs
import Neve.UpstreamUrlsProofs
import Neve.UrlTextProofs
