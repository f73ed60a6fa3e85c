import Elosys.ProofRegistry
import Elosys.CoinsCodec
import Elosys.MerkleCodec
import Elosys.ChainReplay
import Elosys.ParallelCheck
import Elosys.NotarisationDB
import Elosys.EventRoundTrip
import Elosys.KomodoCheck
import Elosys.KeyValue
import Elosys.NotaryAuthority
import Elosys.WalletOrder
import Elosys.TokenSupply
import Elosys.AssetFills
import Elosys.DiceSettlement
import Elosys.AcceptedData
import Elosys.ActivationHeight
import Elosys.StakeSegids
import Elosys.NotePaths
import Elosys.Payments
import Elosys.PoolReorg
import Elosys.PoolView
import Elosys.OfflineMemo
import Elosys.Faucet
import Elosys.EventRewind
import Elosys.CheckDeposit
import Elosys.PowEasing
import Elosys.AccruedInterest
import Elosys.NotaryExemption
import Elosys.IntegerCodes
import Elosys.CheckMultisig
import Elosys.ScriptData
import Elosys.CompactTarget
import Elosys.ChainSkip
