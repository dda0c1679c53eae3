import Kasane.Chain.Linked
import Kasane.Node.PruneTick

namespace Kasane.Node

open BigEndian Codec Word Blob Chain Exec

variable {T : Type} {c : Crypto} {revm : Revm} {trie : TrieCommit T}

-- what an operation does to the stored chain: nothing, one block more, or some blocks fewer
inductive Turn (c : Crypto) (revm : Revm) (trie : TrieCommit T) (s : StableState (World T)) :
    StableState (World T) → Prop
  | still {t : StableState (World T)} (view : t.exportView = s.exportView)
      (limit : t.chainState.blockGasLimit = s.chainState.blockGasLimit ∨
        t.chainState.blockGasLimit = defaultBlockGasLimit) : Turn c revm trie s t
  | grown {env : CallEnv} {maxTxs : Nat} {t : StableState (World T)}
      {outcome : ProduceBlockOutcome} {x : ExecState (evm c revm trie)}
      {root : (evm c revm trie).Root} {world : World T} (now : env.now ≤ u64Max)
      (committed : Committed c (evm c revm trie) env maxTxs s t outcome x root world) :
      Turn c revm trie s t
  | pruned {t : StableState (World T)} (retain : Nat) (prunes : Chain.Prunes c retain s t) :
      Turn c revm trie s t

theorem Turn.kept {s t : StableState (World T)} (hview : t.exportView = s.exportView)
    (hfees : SameFees s t) : Turn c revm trie s t := .still hview (.inl hfees.blockGasLimit)

end Kasane.Node
