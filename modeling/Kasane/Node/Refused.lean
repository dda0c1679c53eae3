import Kasane.Chain.Admission
import Kasane.Node.Runs

namespace Kasane.Node

open BigEndian Codec Word Chain Exec

section Submission

variable {W : Type} {c : Crypto} {evm : Evm W} {counting : Prop}

theorem refused_admitted {s u t : StableState W} {sender : Address} {nonce price baseFee : Nat}
    {envelope : StoredTxBytes} {e : ChainError}
    (h : Admitted c evm s u sender nonce price baseFee envelope (.error e, t)) : t = u := by
  cases h with
  | misnumbered e other => rfl
  | conflict current higher => rfl
  | full e vacant => rfl

-- what a call leaves behind: the stored trace, and the rate limiter's map, which lives on the heap
def Refused (evm : Evm W) (s t : StableState W) : Prop :=
  ∃ u m, NonceFilled evm s u ∧ t = { u with decodeSuppressUntil := m }

theorem refused_of_filled {s t : StableState W} {m : OrdMap Principal Nat}
    (h : NonceFilled evm { s with decodeSuppressUntil := m } t) : Refused evm s t := by
  cases h with
  | same => exact ⟨s, m, .same, rfl⟩
  | filled sender fresh => exact ⟨_, m, .filled sender fresh, rfl⟩

theorem refused_run {s t : StableState W} {p : Pool} {now : Nat} {call : SubmitCall}
    {e : ChainError} (h : Consistent c counting s p)
    (hrun : call.run c evm now s = (.error e, t)) : Refused evm s t := by
  have hran := ran_run evm h call now
  rw [hrun] at hran
  cases hran with
  | barred e m => exact ⟨s, m, .same, rfl⟩
  | reached m submitted unsuppressed reaches admitted =>
      rw [refused_admitted admitted]
      exact refused_of_filled (nonceFilled_expected _ _)

end Submission

variable {T : Type} {c : Crypto} {revm : Revm} {trie : TrieCommit T}

theorem refused_submission_unchanged {world : World T} {config : RuntimeConfig} {s : NodeState T}
    (run : NodeRun c revm trie (fun _ _ => True) (.init world config) s) (now : Nat)
    (call : SubmitCall) {e : ChainError} {t : StableState (World T)}
    (refused : call.run c (evm c revm trie) now s.chain = (.error e, t)) :
    ∃ nonces suppressed,
      t = { s.chain with senderExpectedNonce := nonces, decodeSuppressUntil := suppressed } ∧
      (nonces = s.chain.senderExpectedNonce ∨
        ∃ sender, s.chain.senderExpectedNonce.get sender = none ∧
          nonces = s.chain.senderExpectedNonce.insert sender
            (accountNonceFromState (evm c revm trie) s.chain sender)) := by
  obtain ⟨p, h⟩ := consistent_nodeRun run
  obtain ⟨u, m, hfilled, rfl⟩ := refused_run h refused
  cases hfilled with
  | same => exact ⟨_, m, rfl, .inl rfl⟩
  | filled sender fresh => exact ⟨_, m, rfl, .inr ⟨sender, fresh, rfl⟩⟩

def usedWorld : World Unit :=
  { emptyWorld with db := { emptyWorld.db with
      accounts := OrdMap.empty.insert (sampleAddress 5) ⟨1, 0, zeroArr 32⟩ } }

def usedNode : NodeState Unit := .init usedWorld ⟨false, .empty, zeroArr 20⟩

theorem usedNode_refuses_old_nonce :
    ∃ t, (SubmitCall.tx .ethSigned [5] samplePrincipal).run sampleCrypto
        (evm sampleCrypto loggingRevm sampleTrie) 0 usedNode.chain = (.error .nonceTooLow, t) ∧
      t.senderExpectedNonce.get (sampleAddress 5) = some 1 ∧
      ∃ nonces suppressed, t = { usedNode.chain with
        senderExpectedNonce := nonces, decodeSuppressUntil := suppressed } := by
  have herror : ((SubmitCall.tx .ethSigned [5] samplePrincipal).run sampleCrypto
      (evm sampleCrypto loggingRevm sampleTrie) 0 usedNode.chain).1 = .error .nonceTooLow := by
    rfl
  have hrun := Prod.ext herror rfl
  obtain ⟨nonces, suppressed, heq, -⟩ := @refused_submission_unchanged Unit sampleCrypto loggingRevm
    sampleTrie usedWorld ⟨false, .empty, zeroArr 20⟩ usedNode .start 0
    (.tx .ethSigned [5] samplePrincipal) .nonceTooLow _ hrun
  exact ⟨_, hrun, by decide +kernel, nonces, suppressed, heq⟩

end Kasane.Node
