import Kasane.Chain.ConsistentProduce
import Kasane.Chain.ConsistentPrune

namespace Kasane.Chain

open BigEndian Codec Word Blob

inductive ChainOp where
  | submitTx (now : Nat) (txBytes : Bytes) (callerPrincipal : Principal)
  | submitIcTxInput (now : Nat) (callerPrincipal canisterId : Principal) (tx : IcSyntheticTxInput)
  | produceBlock (env : CallEnv) (maxTxs : Nat)
  | pruneBlocks (retain maxOps : Nat)
  | interruptedPrune (retain maxOps : Nat) (cur : PruneCursor) (block : BlockData) (k : Nat)
  | recoverPruneJournal
  | rebuildPendingRuntimeIndexes

variable {W : Type}

inductive ChainOp.Runs (c : Crypto) (evm : Evm W) : ChainOp → StableState W → StableState W → Prop
  | submitTx (now : Nat) (txBytes : Bytes) (who : Principal) (s : StableState W) :
      Runs c evm (.submitTx now txBytes who) s (Chain.submitTx c evm now .ethSigned txBytes who s).2
  | submitIcTxInput (now : Nat) (who canisterId : Principal) (tx : IcSyntheticTxInput)
      (s : StableState W) (caller : who.bytes ≠ []) (canister : canisterId.bytes ≠ []) :
      Runs c evm (.submitIcTxInput now who canisterId tx) s
        (Chain.submitIcTxInput c evm now who canisterId tx s).2
  | produceBlock {env : CallEnv} {maxTxs : Nat} {s t : StableState W}
      {r : Except ChainError ProduceBlockOutcome}
      (returns : Chain.produceBlock c evm env maxTxs s = some (r, t)) :
      Runs c evm (.produceBlock env maxTxs) s t
  | pruneBlocks (retain maxOps : Nat) (s : StableState W) :
      Runs c evm (.pruneBlocks retain maxOps) s (Chain.pruneBlocks c retain maxOps s).2
  | interruptedPrune {retain maxOps : Nat} {s t : StableState W} {cur : PruneCursor}
      {block : BlockData} (pruning : Pruning c retain maxOps s cur block t) (k : Nat) :
      Runs c evm (.interruptedPrune retain maxOps cur block k) s (crashed c cur block k t)
  | recoverPruneJournal (s : StableState W) :
      Runs c evm .recoverPruneJournal s (Chain.recoverPruneJournal c s).2
  | rebuildPendingRuntimeIndexes (s : StableState W) :
      Runs c evm .rebuildPendingRuntimeIndexes s
        (Chain.rebuildPendingRuntimeIndexes c evm s)

def ChainOp.Silent (c : Crypto) (s : StableState W) : ChainOp → Prop
  | .pruneBlocks retain maxOps => PruneSilent c retain maxOps s
  | .interruptedPrune retain maxOps _ _ _ => PruneSilent c retain maxOps s
  | .recoverPruneJournal => RecoverySilent c s
  | _ => True

inductive ChainRun (c : Crypto) (evm : Evm W) (allowed : StableState W → ChainOp → Prop)
    (s₀ : StableState W) : StableState W → Prop
  | start : ChainRun c evm allowed s₀ s₀
  | step {s t : StableState W} {op : ChainOp} (run : ChainRun c evm allowed s₀ s)
      (ok : allowed s op) (runs : op.Runs c evm s t) : ChainRun c evm allowed s₀ t

variable {c : Crypto} {evm : Evm W} {counting : Prop}

theorem consistent_op {op : ChainOp} {s t : StableState W} {p : Pool}
    (h : Consistent c counting s p) (hsilent : counting → op.Silent c s)
    (hrun : op.Runs c evm s t) : ∃ p', Consistent c counting t p' := by
  cases hrun with
  | submitTx now txBytes who s => exact consistent_submitTx now txBytes who h
  | submitIcTxInput now who canisterId tx s caller canister =>
      exact consistent_submitIcTxInput now caller canister tx h
  | produceBlock returns => exact consistent_produceBlock h returns
  | pruneBlocks retain maxOps s => exact ⟨p, consistent_pruneBlocks h hsilent⟩
  | interruptedPrune pruning k =>
      exact ⟨p, consistent_crashed (consistent_pruning h hsilent pruning) pruning.load
        (fun hc => (hsilent hc).pruned _ _ _ pruning) k⟩
  | recoverPruneJournal s => exact ⟨p, consistent_recover h hsilent⟩
  | rebuildPendingRuntimeIndexes s =>
      obtain ⟨p', h'⟩ := consistent_rebuildRuntime evm h
      exact ⟨p', h'.indexed, h'.backed, h'.archived, h'.bounded, fun _ => h'.counted trivial⟩

theorem consistent_run (counting : Prop) {allowed : StableState W → ChainOp → Prop} {world : W} {s : StableState W}
    (hsilent : counting → ∀ s op, allowed s op → op.Silent c s)
    (run : ChainRun c evm allowed (.init world) s) : ∃ p, Consistent c counting s p := by
  induction run with
  | start => exact ⟨.empty, consistent_init world⟩
  | step _ ok runs ih =>
      obtain ⟨p, h⟩ := ih
      exact consistent_op h (fun hc => hsilent hc _ _ ok) runs

structure MempoolIndexes (c : Crypto) (s : StableState W) : Prop where
  sender_nonce : ∀ id key,
    s.pendingMetaByTxId.get id = some key ↔ s.pendingBySenderNonce.get key = some id
  current : ∀ sender id, s.pendingCurrentBySender.get sender = some id ↔
    ∃ nonce, s.pendingMetaByTxId.get id = some ⟨sender, nonce⟩
  min_nonce : ∀ sender nonce, s.pendingMinNonce.get sender = some nonce ↔
    ∃ id, s.pendingMetaByTxId.get id = some ⟨sender, nonce⟩
  single : ∀ i j k l, s.pendingMetaByTxId.get i = some k → s.pendingMetaByTxId.get j = some l →
    k.sender = l.sender → i = j
  ready_key : ∀ id key, s.readyKeyByTxId.get id = some key ↔ s.readyQueue.get key = some id
  ready_seq : ∀ id seqKey, s.readyBySeq.get seqKey = some id ↔
    ∃ key, s.readyKeyByTxId.get id = some key ∧ seqKey = ⟨key.seq, id⟩
  ready_pending : ∀ id, (s.readyKeyByTxId.get id).isSome ↔ (s.pendingMetaByTxId.get id).isSome
  fee_key : ∀ id key, s.pendingFeeKeyByTxId.get id = some key ↔ s.pendingFeeIndex.get key = some id
  fee_pending : ∀ id, (s.pendingFeeKeyByTxId.get id).isSome ↔ (s.pendingMetaByTxId.get id).isSome
  stored : ∀ id key, s.pendingMetaByTxId.get id = some key →
    (∃ tx, storedTx c s id = some (.ok tx)) ∧ ∃ loc, s.txLocs.get id = some loc ∧ loc.kind = .queued

theorem mempoolIndexes_of_consistent {s : StableState W} {p : Pool} (h : Consistent c counting s p) :
    MempoolIndexes c s := by
  have hmeta : ∀ id key, s.pendingMetaByTxId.get id = some key ↔
      ∃ e, p.entry id = some e ∧ e.key = key := h.indexed.byTxId.get_own
  have hready : ∀ id key, s.readyKeyByTxId.get id = some key ↔
      ∃ e, p.entry id = some e ∧ e.ready = key := h.indexed.readyKey.get_own
  have hpending (id : TxId) : (s.pendingMetaByTxId.get id).isSome ↔ (p.entry id).isSome :=
    h.indexed.byTxId.isSome_own id
  constructor
  · exact h.indexed.byTxId.inverse h.indexed.bySender
  · intro sender id
    refine (h.indexed.current sender id).trans ⟨?_, ?_⟩
    · rintro ⟨j, e, hj, rfl, rfl⟩
      exact ⟨e.key.nonce, (hmeta j _).mpr ⟨e, hj, rfl⟩⟩
    · rintro ⟨nonce, hget⟩
      obtain ⟨e, he, hkey⟩ := (hmeta id _).mp hget
      exact ⟨id, e, he, congrArg SenderNonceKey.sender hkey, rfl⟩
  · intro sender nonce
    refine (h.indexed.minNonce sender nonce).trans ⟨?_, ?_⟩
    · rintro ⟨j, e, hj, rfl, rfl⟩
      exact ⟨j, (hmeta j _).mpr ⟨e, hj, rfl⟩⟩
    · rintro ⟨id, hget⟩
      obtain ⟨e, he, hkey⟩ := (hmeta id _).mp hget
      exact ⟨id, e, he, congrArg SenderNonceKey.sender hkey, congrArg SenderNonceKey.nonce hkey⟩
  · intro i j k l hi hj hsender
    obtain ⟨e, he, rfl⟩ := (hmeta i k).mp hi
    obtain ⟨f, hf, rfl⟩ := (hmeta j l).mp hj
    exact p.one_per_sender he hf hsender
  · exact h.indexed.readyKey.inverse h.indexed.readyQueue
  · intro id seqKey
    refine (h.indexed.readyBySeq seqKey id).trans ⟨?_, ?_⟩
    · rintro ⟨j, e, hj, rfl, rfl⟩
      exact ⟨e.ready, (hready j _).mpr ⟨e, hj, rfl⟩, rfl⟩
    · rintro ⟨key, hget, rfl⟩
      obtain ⟨e, he, rfl⟩ := (hready id key).mp hget
      exact ⟨id, e, he, rfl, rfl⟩
  · intro id
    exact (h.indexed.readyKey.isSome_own id).trans (hpending id).symm
  · exact h.indexed.feeKey.inverse h.indexed.feeIndex
  · intro id
    exact (h.indexed.feeKey.isSome_own id).trans (hpending id).symm
  · intro id key hget
    obtain ⟨e, he, -⟩ := (hmeta id key).mp hget
    obtain ⟨bytes, tx, hstore, htx⟩ := h.backed.stored he
    refine ⟨⟨tx, ?_⟩, h.backed.queued he⟩
    rw [storedTx, hstore, Option.map_some, htx]

def lastByteArr (n : Nat) (bytes : Bytes) : ByteArr n :=
  ⟨(bytes.getLastD 0 :: List.replicate n 0).take n, by simp⟩

def sampleCrypto : Crypto where
  keccak256 := lastByteArr 32
  deriveEvmAddress := fun _ => none
  recoverEthTx := fun bytes => some
    { sender := lastByteArr 20 bytes
      dest := none
      nonce := 0
      value := 0
      input := []
      gasLimit := 21000
      gasPrice := some (10 ^ 12)
      maxFeePerGas := none
      maxPriorityFeePerGas := none
      chainId := none
      accessList := []
      txType := 0 }

def sampleReceipt (id : TxId) : Receipt.ReceiptLike where
  txId := id
  blockNumber := 1
  txIndex := 0
  status := 1
  gasUsed := 21000
  effectiveGasPrice := 0
  l1DataFee := 0
  operatorFee := 0
  totalFee := 0
  returnDataHash := zeroArr 32
  returnData := []
  contractAddress := none
  logs := []

def sampleEvm : Evm Unit where
  Cache := Unit
  Diff := Unit
  Root := Unit
  accountNonce := fun _ _ => 0
  newCache := fun _ => ()
  execute := fun _ id index _ _ _ => (.ok (⟨index, sampleReceipt id, none⟩, ()), ())
  cacheCommit := fun _ _ => ()
  prepare := fun _ _ _ _ _ => (.ok (), ())
  stateRoot := fun _ => zeroArr 32
  commitDiff := fun _ _ => ()
  applyRoot := fun _ _ => ()

def sampleEnv : CallEnv := ⟨0, fun _ => 0, fun _ => true⟩

theorem samplePrincipal_short : ([7] : Bytes).length ≤ maxPrincipalLen := by decide

def samplePrincipal : Principal := ⟨[7], samplePrincipal_short⟩

def submitSample (b : UInt8) (s : StableState Unit) : StableState Unit :=
  (submitTx sampleCrypto sampleEvm 0 .ethSigned [b] samplePrincipal s).2

def produceSample (s : StableState Unit) : StableState Unit :=
  ((produceBlock sampleCrypto sampleEvm sampleEnv 1 s).map Prod.snd).getD s

def sampleBlocks : StableState Unit :=
  produceSample (submitSample 2 (produceSample (submitSample 1 (.init ()))))

def samplePending : StableState Unit := submitSample 5 sampleBlocks

def samplePruned : StableState Unit := (pruneBlocks sampleCrypto 1 100 samplePending).2

theorem run_submitSample {allowed : StableState Unit → ChainOp → Prop} {s : StableState Unit}
    (b : UInt8) (run : ChainRun sampleCrypto sampleEvm allowed (.init ()) s)
    (ok : allowed s (.submitTx 0 [b] samplePrincipal)) :
    ChainRun sampleCrypto sampleEvm allowed (.init ()) (submitSample b s) :=
  run.step ok (.submitTx 0 [b] samplePrincipal s)

theorem run_produceSample {allowed : StableState Unit → ChainOp → Prop} {s : StableState Unit}
    (run : ChainRun sampleCrypto sampleEvm allowed (.init ()) s)
    (ok : allowed s (.produceBlock sampleEnv 1)) :
    ChainRun sampleCrypto sampleEvm allowed (.init ()) (produceSample s) := by
  rw [produceSample]
  cases h : produceBlock sampleCrypto sampleEvm sampleEnv 1 s with
  | none => exact run
  | some result => exact run.step ok (.produceBlock h)

theorem run_samplePending {allowed : StableState Unit → ChainOp → Prop}
    (submit : ∀ s b, allowed s (.submitTx 0 [b] samplePrincipal))
    (produce : ∀ s, allowed s (.produceBlock sampleEnv 1)) :
    ChainRun sampleCrypto sampleEvm allowed (.init ()) samplePending :=
  run_submitSample 5 (run_produceSample (run_submitSample 2 (run_produceSample (run_submitSample 1 .start
    (submit _ _)) (produce _)) (submit _ _)) (produce _)) (submit _ _)

theorem principal_counts_exact {world : W} {s : StableState W}
    (run : ChainRun c evm (fun s op => op.Silent c s) (.init world) s) :
    ∀ who, (s.principalPendingCount.get (CallerKey.fromPrincipalBytes who)).getD 0 =
      pendingCount c s.txStore s.pendingBySenderNonce who := by
  obtain ⟨p, h⟩ := consistent_run True (fun _ _ _ hok => hok) run
  exact h.counted trivial

theorem samplePending_counts :
    pendingCount sampleCrypto samplePending.txStore samplePending.pendingBySenderNonce
        samplePrincipal = 1 ∧
      (samplePending.principalPendingCount.get
        (CallerKey.fromPrincipalBytes samplePrincipal)).getD 0 = 1 := by
  have hcount : pendingCount sampleCrypto samplePending.txStore samplePending.pendingBySenderNonce
      samplePrincipal = 1 := by decide +kernel
  refine ⟨hcount, ?_⟩
  rw [principal_counts_exact (run_samplePending (fun _ _ => trivial) (fun _ => trivial)), hcount]

theorem samplePruned_counts :
    ChainRun sampleCrypto sampleEvm (fun _ _ => True) (.init ()) samplePruned ∧
      pendingCount sampleCrypto samplePruned.txStore samplePruned.pendingBySenderNonce
        samplePrincipal = 1 ∧
      samplePruned.principalPendingCount.get (CallerKey.fromPrincipalBytes samplePrincipal) = none := by
  refine ⟨?_, by decide +kernel, by decide +kernel⟩
  have run : ChainRun sampleCrypto sampleEvm (fun _ _ => True) (.init ()) samplePending :=
    run_samplePending (fun _ _ => trivial) (fun _ => trivial)
  exact run.step trivial (.pruneBlocks 1 100 samplePending)

end Kasane.Chain
