import SolanaQos.Chain
import SolanaQos.Recency
import SolanaQos.Runs
import SolanaQos.RedBlack
import SolanaQos.Audit
import SolanaQos.Bytes
import SolanaQos.Crates
import SolanaQos.Lru
import SolanaQos.LruRep
import SolanaQos.LruRefine
import SolanaQos.LruSound
import SolanaQos.MinMax
import SolanaQos.Score
import SolanaQos.ScoreMirror
import SolanaQos.ScoreBatch
import SolanaQos.ScoreRange
import SolanaQos.ScorePrune
import SolanaQos.ScoreRoom
import SolanaQos.Packet
import SolanaQos.Process
import SolanaQos.Fee
import SolanaQos.Feedback
import SolanaQos.Banking
import SolanaQos.BankingOrder
import SolanaQos.BankingRate
import SolanaQos.SharedStats
import SolanaQos.Loop
import SolanaQos.LoopTotal
import SolanaQos.LoopBalance
import SolanaQos.LoopRecent
import SolanaQos.LoopCredit
import SolanaQos.LoopRoom
import SolanaQos.Dedup
import SolanaQos.Mpsc
import SolanaQos.ScoreSplit
import SolanaQos.ScoreBulk
import SolanaQos.StakeModel
import SolanaQos.LoopReject
import SolanaQos.LoopTransmit
import SolanaQos.SaveScores
import SolanaQos.LoopSources
import SolanaQos.BankingRetrieve
import SolanaQos.Funnel
import SolanaQos.LoopPackets
import SolanaQos.MainLoop
import SolanaQos.MockFlow
import SolanaQos.MockSources
import SolanaQos.SpinLock
import SolanaQos.StatsLock
import SolanaQos.MainPops
