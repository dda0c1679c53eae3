import Kasane.Lib.OrdMap
import Kasane.Lib.BigEndian
import Kasane.Lib.Word
import Kasane.Lib.DedupLedger
import Kasane.Codec.Decode
import Kasane.Receipt.Stored
import Kasane.Blob.ReadBack
import Kasane.Precompile.NativeWithdraw
import Kasane.Precompile.Unwrap
import Kasane.Chain.PendingIndexes
import Kasane.Chain.PruneRecovery
import Kasane.Blob.Usage
import Kasane.Exec.Fees
import Kasane.Gateway.MintOnce
import Kasane.Gateway.FeeFirst
import Kasane.Gateway.DepositOnce
import Kasane.Gateway.RefundOrMint
import Kasane.Gateway.PayoutOnce
import Kasane.Gateway.Quarantine
import Kasane.Gateway.UnwrapTransitions
import Kasane.Gateway.IcpUpdateOnce
import Kasane.Indexer.CommitOnce
import Kasane.Blob.Tenants
import Kasane.Chain.BaseFee
import Kasane.Chain.Filed
import Kasane.Chain.Forget
import Kasane.Chain.Lays
import Kasane.Chain.Located
import Kasane.Chain.NonceCache
import Kasane.Exec.Nonces
import Kasane.Exec.QueryRun
import Kasane.Exec.Receipts
import Kasane.Lib.Holdings
import Kasane.Node.Epoch
import Kasane.Node.IncludedOnce
import Kasane.Node.NonceCache
import Kasane.Node.PruneFrame
import Kasane.Precompile.WrappedToken
import Kasane.Rpc.CallObject
import Kasane.Rpc.FeeHistory
import Kasane.Rpc.FreshCall
import Kasane.Chain.Admission
import Kasane.Chain.Bids
import Kasane.Chain.Caps
import Kasane.Chain.PruneProgress
import Kasane.Node.PruneProgress
import Kasane.Node.Refused
import Kasane.Node.Replacement
import Kasane.Rpc.UnwrapRequirements
import Kasane.Rpc.EstimateGas
import Kasane.Node.Selection
import Kasane.Exec.Codes
import Kasane.Exec.TraceRecords
import Kasane.Lib.LastWrite
import Kasane.Gateway.UpdatesStored
import Kasane.Precompile.IntentLogs
import Kasane.Gateway.IdPreimages
import Kasane.Node.StoredRecords
import Kasane.Node.PruneTick
import Kasane.Rpc.LogsInOrder
import Kasane.Chain.Metrics
import Kasane.Chain.Ordering
import Kasane.Lib.BatchWalk
import Kasane.Chain.Migrations
import Kasane.Chain.DroppedRing
import Kasane.Node.DroppedRing
import Kasane.Node.QueueSnapshot
import Kasane.Gateway.FeeCovers
import Kasane.Chain.RebuildIndexes
import Kasane.Chain.OpClosed
import Kasane.Node.RebuildIndexes
import Kasane.Chain.Linked
import Kasane.Node.StoredChain
import Kasane.Lib.Patricia
import Kasane.Lib.PatriciaTidy
import Kasane.Trie.Node
import Kasane.Trie.Update
import Kasane.Trie.Shown
import Kasane.Trie.Pieces
import Kasane.Trie.Step
import Kasane.Trie.Compacted
import Kasane.Trie.Roots
import Kasane.Trie.Journal
import Kasane.Lib.Listing
import Kasane.Trie.Committed
import Kasane.Trie.StoragePass
import Kasane.Trie.StateJournal
import Kasane.Trie.PlainCodec
import Kasane.Trie.Histories
import Kasane.Trie.JournalRoot
import Kasane.Trie.Applied
import Kasane.Trie.StateRoot
import Kasane.Trie.Rebuild
import Kasane.Trie.CachedRoots
import Kasane.Trie.Migration
import Kasane.Trie.RootCommit
import Kasane.Trie.RootedChain
import Kasane.Exec.Produced
import Kasane.Trie.Agreement
import Kasane.Trie.Collector
import Kasane.Indexer.DecodeReceipt
import Kasane.Indexer.DecodePayloads
