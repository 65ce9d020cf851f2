import Rapids.Chain.CoinsCache
import Rapids.Chain.Overwrite
import Rapids.Token.FeeRollback
import Rapids.Chain.SelectionRun
import Rapids.Token.SpRollback
import Rapids.Chain.Mempool
import Rapids.Chain.IndexesUndone
import Rapids.Token.Issuance
import Rapids.Masternode.SwiftTxLocks
import Rapids.Masternode.WinnersSound
import Rapids.Chain.PaymentHistorySound
import Rapids.Masternode.BroadcastRejected
import Rapids.Chain.StakeInputsSound
import Rapids.Net.DownloadSound
import Rapids.Token.SendMany
import Rapids.Payload.StmAddresses
import Rapids.Payload.Embedding
import Rapids.Token.DexRoyalties
import Rapids.Token.Shutdown
import Rapids.Token.Usernames
import Rapids.Token.TxList
import Rapids.Token.Pending
import Rapids.Token.FeeHistory
import Rapids.Token.TradeReportRun
import Rapids.Token.Freezing
import Rapids.Token.ConsensusHash
import Rapids.Chain.CoinFormat
import Rapids.Masternode.ChainViewSound
import Rapids.Chain.DifficultySound
import Rapids.Masternode.SporksSound
import Rapids.Token.FundraiserSound
import Rapids.Payload.ReadsSound
import Rapids.Masternode.BudgetSelectionSound
import Rapids.Masternode.Cleaning
import Rapids.Masternode.OwnBroadcast
import Rapids.Chain.ValueSums
import Rapids.Chain.StakeTime
import Rapids.Chain.StakeOutputs
import Rapids.Chain.BlockSignature
import Rapids.Token.Issuing
import Rapids.Token.Spending
import Rapids.Token.TallyCells
import Rapids.Token.Tickers
import Rapids.Token.AmountText
import Rapids.Chain.BlockProof
