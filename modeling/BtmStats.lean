import BtmStats.Proofs.Bc.MerkleShape
import BtmStats.Proofs.Bc.WriteForHash
import BtmStats.Proofs.Consensus.General
import BtmStats.Proofs.Encoding.Reader
import BtmStats.Proofs.Encoding.VarstrList
import BtmStats.Proofs.Netsync.BestPeer
import BtmStats.Proofs.Netsync.FetcherRuns
import BtmStats.Proofs.Netsync.RequestHeights
import BtmStats.Proofs.Netsync.SyncManager
import BtmStats.Proofs.Netsync.TxSync
import BtmStats.Proofs.P2p.Bans
import BtmStats.Proofs.P2p.DelSelf
import BtmStats.Proofs.P2p.Handshake
import BtmStats.Proofs.P2p.QueueSize
import BtmStats.Proofs.P2p.RecvBuffer
import BtmStats.Proofs.P2p.Session
import BtmStats.Proofs.Pex.File
import BtmStats.Proofs.Pex.GroupKey
import BtmStats.Proofs.Pex.LongAddresses
import BtmStats.Proofs.Pex.MsgLimit
import BtmStats.Proofs.Protocol.NewChain
import BtmStats.Proofs.Types.Malleability
import BtmStats.Proofs.Types.SpentOutputs
import BtmStats.Proofs.WrapperError
