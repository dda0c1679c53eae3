import Kasane.Chain.Bids
import Kasane.Node.Runs

namespace Kasane.Node

open BigEndian Codec Word Chain Exec

variable {T : Type} {c : Crypto} {revm : Revm} {trie : TrieCommit T}

theorem sane_move {s t : StableState (World T)} {p : Pool} (h : Sane s)
    (hcons : Consistent c False s p) (hmove : ChainMove c revm trie s t) : Sane t := by
  cases hmove with
  | op op runs => exact sane_op h hcons runs
  | credited address amount credits => exact h.forgets (.of_eq rfl)
  | cleared => exact h.forgets (.of_eq rfl)
  | synced => exact h.forgets (.of_eq rfl)
  | limited limit => exact h.forgets (.of_eq rfl)
  | still => exact h

theorem sane_run {allowed : NodeState T → NodeOp → Prop} {world : World T} {config : RuntimeConfig}
    {s : NodeState T} (run : NodeRun c revm trie allowed (.init world config) s) : Sane s.chain := by
  induction run with
  | start => exact sane_init world
  | step run _ runs ih =>
      obtain ⟨p, h⟩ := consistent_nodeRun run
      exact sane_move ih h (chainMove_runs runs)

theorem replacement_by_evm_price_iff {world : World T} {config : RuntimeConfig} {s : NodeState T}
    (run : NodeRun c revm trie (fun _ _ => True) (.init world config) s) (now : Nat)
    {call : SubmitCall} {envelope : StoredTxBytes} {sender : Address} {nonce : Nat} {old : TxId}
    (decodes : Submitted c call envelope sender nonce)
    (minFee : minFeeSatisfied envelope.maxFeePerGas envelope.priorityFee s.chain.chainState.baseFee
      s.chain.chainState.minPriorityFee s.chain.chainState.minGasPrice = true)
    (expected : (expectedNonceForSender (evm c revm trie) s.chain sender).1 = nonce)
    (pending : s.chain.pendingCurrentBySender.get sender = some old) :
    ∃ value, s.chain.txStore.get old = some value ∧
      (ReplacementRule envelope value s.chain.chainState.baseFee old sender
          (call.run c (evm c revm trie) now s.chain) ↔
        MeetsRule s.chain call envelope value now) := by
  obtain ⟨p, h⟩ := consistent_nodeRun run
  obtain ⟨id, e, hid, -, rfl⟩ := (h.indexed.current sender old).mp pending
  obtain ⟨value, tx, hget, -⟩ := h.backed.stored hid
  exact ⟨value, hget, rule_iff h (sane_run run) (priced_run run).baseFee now decodes minFee expected
    pending hget⟩

def bidNode (dynamic price : UInt8) : NodeState Unit :=
  commitBumps []
    { NodeState.init emptyWorld ⟨false, .empty, zeroArr 20⟩ with
      chain := (submitTx bidCrypto (evm bidCrypto loggingRevm sampleTrie) 0 .ethSigned
        (bidRaw 1 dynamic price) samplePrincipal (.init emptyWorld)).2 }

theorem run_bidNode (dynamic price : UInt8) :
    NodeRun bidCrypto loggingRevm sampleTrie (fun _ _ => True)
      (.init emptyWorld ⟨false, .empty, zeroArr 20⟩) (bidNode dynamic price) := by
  have hsubmit : ChainOp.Runs bidCrypto (evm bidCrypto loggingRevm sampleTrie)
      (.submitTx 0 (bidRaw 1 dynamic price) samplePrincipal) (StableState.init emptyWorld)
      (submitTx bidCrypto (evm bidCrypto loggingRevm sampleTrie) 0 .ethSigned
        (bidRaw 1 dynamic price) samplePrincipal (.init emptyWorld)).2 := .submitTx ..
  have hruns : NodeOp.Runs bidCrypto loggingRevm sampleTrie
      (.chain (.submitTx 0 (bidRaw 1 dynamic price) samplePrincipal))
      (.init emptyWorld ⟨false, .empty, zeroArr 20⟩) (bidNode dynamic price) :=
    @NodeOp.Runs.chain Unit bidCrypto loggingRevm sampleTrie _
      (.init emptyWorld ⟨false, .empty, zeroArr 20⟩) _ hsubmit
  exact NodeRun.start.step trivial hruns

def bid (dynamic price : UInt8) : SubmitCall := .tx .ethSigned (bidRaw 1 dynamic price) samplePrincipal

theorem bidNode_outbid :
    ∃ value, (bidNode 1 10).chain.txStore.get (bidEnvelope samplePrincipal 1 1 10).txId =
        some value ∧
      (ReplacementRule (bidEnvelope samplePrincipal 1 1 20) value
          (bidNode 1 10).chain.chainState.baseFee (bidEnvelope samplePrincipal 1 1 10).txId
          (sampleAddress 1)
          ((bid 1 20).run bidCrypto (evm bidCrypto loggingRevm sampleTrie) 0 (bidNode 1 10).chain) ↔
        MeetsRule (bidNode 1 10).chain (bid 1 20) (bidEnvelope samplePrincipal 1 1 20) value 0) :=
  replacement_by_evm_price_iff (run_bidNode 1 10) 0 (submitted_bid samplePrincipal 1 1 20)
    (by decide +kernel) (by decide +kernel) (by decide +kernel)

theorem legacy_not_outbid :
    ∃ s value, NodeRun bidCrypto loggingRevm sampleTrie (fun _ _ => True)
        (.init emptyWorld ⟨false, .empty, zeroArr 20⟩) s ∧
      Submitted bidCrypto (bid 0 20) (bidEnvelope samplePrincipal 1 0 20) (sampleAddress 1) 0 ∧
      s.chain.pendingCurrentBySender.get (sampleAddress 1) =
        some (bidEnvelope samplePrincipal 1 0 10).txId ∧
      s.chain.txStore.get (bidEnvelope samplePrincipal 1 0 10).txId = some value ∧
      pendingPrice value s.chain.chainState.baseFee = 10 ^ 12 ∧
      incomingPrice (bidEnvelope samplePrincipal 1 0 20) s.chain.chainState.baseFee = 2 * 10 ^ 12 ∧
      ((bid 0 20).run bidCrypto (evm bidCrypto loggingRevm sampleTrie) 0 s.chain).1 =
        .error .nonceConflict ∧
      ¬ ReplacementRule (bidEnvelope samplePrincipal 1 0 20) value s.chain.chainState.baseFee
        (bidEnvelope samplePrincipal 1 0 10).txId (sampleAddress 1)
        ((bid 0 20).run bidCrypto (evm bidCrypto loggingRevm sampleTrie) 0 s.chain) := by
  have hconflict : ((bid 0 20).run bidCrypto (evm bidCrypto loggingRevm sampleTrie) 0
      (bidNode 0 10).chain).1 = .error .nonceConflict := by decide +kernel
  refine ⟨bidNode 0 10, bidEnvelope samplePrincipal 1 0 10, run_bidNode 0 10,
    submitted_bid samplePrincipal 1 0 20, by decide +kernel, by decide +kernel, by decide +kernel,
    by decide +kernel, hconflict, ?_⟩
  rw [ReplacementRule, if_pos (by decide +kernel)]
  exact fun h => absurd (h.accepted.symm.trans hconflict) (by simp)

end Kasane.Node
