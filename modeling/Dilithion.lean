import Dilithion.Node.UtxoScan
import Dilithion.Node.UndoCodec
import Dilithion.Chain.MostWork
import Dilithion.Consensus.BatchVerifier
import Dilithion.Chain.IndexClosure
import Dilithion.Chain.WalFile
import Dilithion.Node.NoInflation
import Dilithion.Vdf.CooldownCache
import Dilithion.Dfmp.IdentityDb
import Dilithion.Node.MempoolReorg
import Dilithion.Node.MempoolGuard
import Dilithion.Net.CompactBlock
import Dilithion.Wallet.WalletBlocks
import Dilithion.Wallet.WalletLog
import Dilithion.Consensus.Htlc
import Dilithion.Consensus.Pow
