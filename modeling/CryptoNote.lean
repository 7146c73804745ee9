import CryptoNote.Lib.GreedyMatch
import CryptoNote.Lib.Codec
import CryptoNote.Lib.ListAlgorithms
import CryptoNote.Crypto.Types
import CryptoNote.Lib.MerkleTree
import CryptoNote.Crypto.TreeHash
import CryptoNote.Common.StreamTools
import CryptoNote.Core.Transaction
import CryptoNote.Core.TransactionExtra
import CryptoNote.Core.Serialization
import CryptoNote.Core.SerializationRoundTrip
import CryptoNote.Core.TransactionExtraRoundTrip
import CryptoNote.Core.ValidatorState
import CryptoNote.Core.TransactionValidator
import CryptoNote.Core.ValidationOutcome
import CryptoNote.Core.ValidationFaults
import CryptoNote.Lib.CancellableJobs
import CryptoNote.Core.ParallelValidation
import CryptoNote.Core.TransactionPool
import CryptoNote.Core.TransactionPriority
import CryptoNote.Core.BlockchainCache
import CryptoNote.Core.ChainLedger
import CryptoNote.Core.SegmentIndexes
import CryptoNote.Core.ChainInvariant
import CryptoNote.Core.ChainPush
import CryptoNote.Core.ChainSplit
import CryptoNote.Core.ChainRuns
import CryptoNote.Core.ChainWindows
import CryptoNote.Lib.BinarySearch
import CryptoNote.Core.TimestampLowerBound
import CryptoNote.Common.IntUtil
import CryptoNote.Core.Difficulty
import CryptoNote.Core.NextDifficulty
import CryptoNote.Core.BlockReward
import CryptoNote.Lib.Loops
import CryptoNote.Core.AmountDecomposition
import CryptoNote.Common.Varint
import CryptoNote.Common.Base58
import CryptoNote.Common.Math
import CryptoNote.Core.Emission
import CryptoNote.Common.FormatTools
import CryptoNote.Serialization.KVBinaryOutput
import CryptoNote.Serialization.KVBinaryInput
import CryptoNote.Serialization.KVSerialization
import CryptoNote.Transfers.TransfersContainer
import CryptoNote.Lib.StateInvariant
import CryptoNote.Transfers.TransferVisibility
import CryptoNote.Core.SegmentTree
import CryptoNote.Lib.ParentWalk
import CryptoNote.Core.SegmentTreeOps
import CryptoNote.Core.SegmentTreeInvariant
import CryptoNote.Core.SegmentTreeChains
import CryptoNote.Lib.BlockLocator
import CryptoNote.Core.SegmentTreeSync
import CryptoNote.Protocol.ChainSync
import CryptoNote.Lib.MultiIndex
import CryptoNote.P2p.PeerListManager
import CryptoNote.Mnemonics.ElectrumWords
import CryptoNote.Mnemonics.ElectrumWordsRoundTrip
