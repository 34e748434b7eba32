import Moxy.Domain
import Moxy.Engine
import Moxy.EngineSystem
import Moxy.FaultyStorage
import Moxy.LeaseJournal
import Moxy.Lib.BinaryHeap
import Moxy.Lib.CrashProgram
import Moxy.Lib.KeyedRange
import Moxy.Lib.Machine
import Moxy.MemoryQueue
import Moxy.ExpirationCoverage
import Moxy.JournalFold
import Moxy.TaskAccounting
import Moxy.StoreHistory
import Moxy.Custody
import Moxy.CustodySimulation
import Moxy.Replies
import Moxy.TaskConservation
import Moxy.LeaseAgreement
import Moxy.VisibilityExclusion
import Moxy.ProcessingCoverage
import Moxy.GenerationFencing
import Moxy.RecoveryConvergence
import Moxy.Lib.FrameCode
import Moxy.WalAppend
import Moxy.Lib.Decimal
import Moxy.ReplyErrors
import Moxy.ReplyFraming
import Moxy.ServiceRestart
import Moxy.RedisQueue
import Moxy.RedisRefinement
import Moxy.RespStream
import Moxy.WalCompact
import Moxy.AttemptAccounting
import Moxy.ExpirationOrder
import Moxy.PoisonLease
import Moxy.ReapExact
import Moxy.AdmittedTask
import Moxy.CompactFailure
import Moxy.HeapCoverage
import Moxy.Lib.Fifo
import Moxy.QueueNames
import Moxy.ReadyOrder
import Moxy.RespLimits
import Moxy.RespTruncation
import Moxy.WalDamage
import Moxy.ConcurrentAck
import Moxy.Deployment
import Moxy.AcceptLoop
import Moxy.ConcurrentAlone
import Moxy.ConcurrentProgress
import Moxy.DeployedService
import Moxy.ConnectionAlone
