import RinhaBackend.Lib.Transition
import RinhaBackend.Lib.Parties
import RinhaBackend.Lib.TopRank
import RinhaBackend.Lib.SortedSet
import RinhaBackend.Lib.TextFormat
import RinhaBackend.Lib.BoundedWindow
import RinhaBackend.Models
import RinhaBackend.IsoDate
import RinhaBackend.Json
import RinhaBackend.Redis
import RinhaBackend.CachedRepository
import RinhaBackend.InitializeRedis
import RinhaBackend.SaveRun
import RinhaBackend.TransactionService
import RinhaBackend.Endpoints
import RinhaBackend.RequestRun
import RinhaBackend.DebitSafety
import RinhaBackend.LostUpdate
import RinhaBackend.SaveInBackground
import RinhaBackend.RowOrder
import RinhaBackend.Deployment
import RinhaBackend.MonotonicReads
import RinhaBackend.WindowBound
import RinhaBackend.SequentialRun
import RinhaBackend.LastTransactions
import RinhaBackend.Restart
import RinhaBackend.ExactBalances
import RinhaBackend.ReadYourWrite
import RinhaBackend.Lib.Projection
import RinhaBackend.ServiceRun
import RinhaBackend.RecordInvariant
import RinhaBackend.Isolation
import RinhaBackend.Lib.OrderBy
import RinhaBackend.Table
import RinhaBackend.Repository
import RinhaBackend.RepositorySave
import RinhaBackend.BatchInsert
import RinhaBackend.AccountExistence
import RinhaBackend.StatementLength
import RinhaBackend.DistinctRecords
import RinhaBackend.Lib.Linearization
import RinhaBackend.Bank
import RinhaBackend.Provenance
import RinhaBackend.StartUps
import RinhaBackend.SaverFates
import RinhaBackend.SaverClock
import RinhaBackend.EndToEnd
import RinhaBackend.Answers
import RinhaBackend.Retention
import RinhaBackend.CacheAndTable
import RinhaBackend.Passbook
import RinhaBackend.Reconciliation
import RinhaBackend.Pages
import RinhaBackend.Settlement
import RinhaBackend.Losses
import RinhaBackend.Progress
import RinhaBackend.Liveness
