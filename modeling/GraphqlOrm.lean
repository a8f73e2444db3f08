import GraphqlOrm.Cache.RateLimit
import GraphqlOrm.Schema.DefaultExpressions
import GraphqlOrm.Schema.CheckEquivalence
import GraphqlOrm.Schema.IndexMembership
import GraphqlOrm.Migration.Completeness
import GraphqlOrm.Backup.RestoreOrder
import GraphqlOrm.Migration.ReferenceOrder
import GraphqlOrm.Migration.HashOrder
import GraphqlOrm.Migration.HashAgreement
import GraphqlOrm.Migration.SearchConfig
import GraphqlOrm.Migration.Rebuild
import GraphqlOrm.Introspect.CheckRoundtrip
import GraphqlOrm.Query.CursorCodec
import GraphqlOrm.Query.AuthorizedSearch
import GraphqlOrm.Query.ScanWalk
import GraphqlOrm.Query.AnonymousStatement
import GraphqlOrm.Query.RawParts
import GraphqlOrm.Runtime.IndexNames
import GraphqlOrm.Runtime.Base64
import GraphqlOrm.Replay.Documents
import GraphqlOrm.Runtime.Embedding
import GraphqlOrm.Runtime.ReadWalk
import GraphqlOrm.Runtime.MatchProfiles
import GraphqlOrm.RowBackup.ChangeJournal
import GraphqlOrm.RowBackup.ImportRows
import GraphqlOrm.RowBackup.RowHash
import GraphqlOrm.Storage.ObjectRuns
import GraphqlOrm.Storage.MultipartRuns
import GraphqlOrm.Backup.ConcurrentWrites
import GraphqlOrm.Backup.ChainLinks
import GraphqlOrm.Router.DroppedValues
import GraphqlOrm.Router.VariableInjection
import GraphqlOrm.Router.GatewayLink
import GraphqlOrm.Router.Convergence
import GraphqlOrm.Schema.ReferencedKeys
import GraphqlOrm.Catalog.TypeSignature
import GraphqlOrm.Decimals.RuntimeText
import GraphqlOrm.Formats.FieldFormat
import GraphqlOrm.Storage.RangedStream
import GraphqlOrm.Storage.S3Writes
import GraphqlOrm.Ai.Settlement
import GraphqlOrm.Ai.LiveDelta
import GraphqlOrm.Ai.BudgetPeriod
import GraphqlOrm.Storage.LocalListing
