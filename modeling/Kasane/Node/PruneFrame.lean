import Kasane.Chain.Located
import Kasane.Node.IncludedOnce

namespace Kasane.Node

open BigEndian Codec Word Blob Chain Exec

variable {T : Type} {c : Crypto} {revm : Revm} {trie : TrieCommit T}

-- every call runs to its end
def Uninterrupted (_ : NodeState T) : NodeOp → Prop
  | .chain (.interruptedPrune _ _ _ _ _) => False
  | _ => True

structure Orderly {W : Type} (c : Crypto) (s : StableState W) : Prop where
  consistent : ∃ p, Consistent c False s p
  window : Window s
  located : Located s

theorem orderly_init {W : Type} (world : W) : Orderly c (StableState.init world) :=
  ⟨⟨_, consistent_init world⟩, window_init world, located_init world⟩

theorem Orderly.same {W : Type} {s t : StableState W} (h : Orderly c s)
    (hcons : ∃ p, Consistent c False t p) (hoff : OffQueue s t) (hlocs : t.txLocs = s.txLocs)
    (hseen : t.seenTx = s.seenTx) : Orderly c t := by
  refine ⟨hcons, h.window.offQueue hoff, h.located.same hoff.view ⟨?_, ?_⟩⟩
  · exact fun _ _ _ => by rw [hlocs]
  · exact fun _ hid => by rwa [hseen]

theorem Orderly.steps {W : Type} {s t : StableState W} (h : Orderly c s)
    (hcons : ∃ p, Consistent c False t p) (hsteps : PoolSteps c s t) : Orderly c t :=
  ⟨hcons, h.window.offQueue (offQueue_steps hsteps), h.located.steps hsteps⟩

theorem orderly_op {W : Type} {evm : Evm W} {op : ChainOp} {s t : StableState W}
    (h : Orderly c s) (hop : ∀ retain maxOps cur block k,
      op ≠ .interruptedPrune retain maxOps cur block k) (hrun : op.Runs c evm s t) :
    Orderly c t := by
  obtain ⟨p, hp⟩ := h.consistent
  have hcons : ∃ p, Consistent c False t p := consistent_op hp (fun hfalse => hfalse.elim) hrun
  cases hrun with
  | submitTx now txBytes who s => exact h.steps hcons (steps_submitTx now txBytes who hp)
  | submitIcTxInput now who canisterId tx s caller canister =>
      exact h.steps hcons (steps_submitIcTxInput now caller canister tx hp)
  | produceBlock returns =>
      exact ⟨hcons, window_produceBlock h.window hp returns,
        located_produceBlock h.located h.window hp returns⟩
  | pruneBlocks retain maxOps s =>
      exact ⟨hcons, window_pruneBlocks retain maxOps h.window,
        located_pruneBlocks retain maxOps h.located h.window⟩
  | interruptedPrune pruning k => exact absurd rfl (hop _ _ _ _ _)
  | recoverPruneJournal s =>
      rw [h.window.recover]
      exact h
  | rebuildPendingRuntimeIndexes s =>
      obtain ⟨counts, seqs, index, keys, heq⟩ := rebuildRuntime_frame evm hp
      rw [heq] at hcons ⊢
      exact h.same hcons ⟨rfl, rfl⟩ rfl rfl

theorem Orderly.edit {W : Type} {s t : StableState W} (h : Orderly c s)
    (hmaps : t.pendingMaps = s.pendingMaps) (hstore : t.txStore = s.txStore)
    (hlocs : t.txLocs = s.txLocs) (hseen : t.seenTx = s.seenTx) (hoff : OffQueue s t) :
    Orderly c t := by
  obtain ⟨p, hp⟩ := h.consistent
  have hblobs : t.blobStore = s.blobStore := congrArg ExportView.blobStore hoff.view
  have hlen : t.pendingBySenderNonce = s.pendingBySenderNonce :=
    congrArg PendingMaps.bySenderNonce hmaps
  refine h.same ⟨p, ?_, ?_, ?_, ?_, fun hfalse => hfalse.elim⟩ hoff hlocs hseen
  · rw [hmaps]
    exact hp.indexed
  · rw [hstore, hlocs, hseen]
    exact hp.backed
  · rw [hblobs, hoff.blocks, hseen]
    exact hp.archived
  · rw [hlen]
    exact hp.bounded

theorem orderly_creditWorld {s t : NodeState T} {address : Address} {amount : Nat}
    (h : Orderly c s.chain) (hcredit : creditWorld s address amount = .ok t) :
    Orderly c t.chain := by
  obtain ⟨db, changed, -, heq⟩ := creditWorld_ok hcredit
  rw [heq]
  exact h.edit rfl rfl rfl rfl ⟨rfl, rfl⟩

theorem orderly_nodeOp {op : NodeOp} {s t : NodeState T} (h : Orderly c s.chain)
    (ok : Uninterrupted s op) (hrun : op.Runs c revm trie s t) : Orderly c t.chain := by
  cases hrun with
  | chain runs =>
      rw [commitBumps_chain]
      refine orderly_op h ?_ runs
      rintro retain maxOps cur block k rfl
      exact ok
  | creditBalance _ credits => exact orderly_creditWorld h credits
  | creditNativeDeposit credits =>
      rcases creditNativeDeposit_ok credits with heq | ⟨address, amount, u, hcredit, heq⟩
      · rwa [heq]
      · rw [heq]
        exact orderly_creditWorld h hcredit
  | clearMempoolOnUpgrade s =>
      obtain ⟨p, hp⟩ := h.consistent
      exact h.same ⟨_, consistent_cleared hp⟩ ⟨rfl, rfl⟩ rfl rfl
  | syncChainRuntimeDefaults s => exact h.edit rfl rfl rfl rfl ⟨rfl, rfl⟩
  | applyInstructionSoftLimits query update s => exact h.edit rfl rfl rfl rfl ⟨rfl, rfl⟩
  | addQueryPrecompileAllowedMethod key s => exact h
  | removeQueryPrecompileAllowedMethod key s => exact h
  | setRuntimeConfig config s => exact h

theorem orderly_run {world : World T} {config : RuntimeConfig} {s : NodeState T}
    (run : NodeRun c revm trie Uninterrupted (.init world config) s) : Orderly c s.chain := by
  induction run with
  | start => exact orderly_init world
  | step _ ok runs ih => exact orderly_nodeOp ih ok runs

def Covers (p : PruneState) (n : Nat) : Prop := ∃ q, p.prunedBefore = some q ∧ n ≤ q

theorem covers_iff {p : PruneState} (h : p.nextPruneBlock = nextBlock p.prunedBefore) {n : Nat} :
    Covers p n ↔ n < p.nextPruneBlock := by
  rw [h, Covers]
  cases p.prunedBefore with
  | none => simp [nextBlock]
  | some q => simp [nextBlock, Nat.lt_succ_iff]

-- a transaction of one of the blocks that the cursor of t covers
def PrunedTx {W : Type} (s t : StableState W) (id : TxId) : Prop :=
  ∃ n block, Covers t.pruneState n ∧ loadBlock s n = some block ∧ id ∈ block.txIds

-- below the cursor nothing is left, and above it nothing has changed
structure PruneFrame {W : Type} (c : Crypto) (retain : Nat) (s t : StableState W) : Prop where
  monotone : ∀ n, Covers s.pruneState n → Covers t.pruneState n
  bounded : ∀ n, Covers t.pruneState n → Covers s.pruneState n ∨ n + retain ≤ s.head.number
  blocksGone : ∀ n, Covers t.pruneState n → t.blocks.get n = none
  loaded : ∀ n ptr, s.blocks.get n = some ptr → ∃ block, loadBlock s n = some block
  recordsGone : ∀ id, PrunedTx s t id →
    t.txRecord id = .none ∧ ∀ h, HashOf c s id h → t.ethTxHashIndex.get h = none
  blobsFreed : ∀ n block, Covers t.pruneState n → loadBlock s n = some block →
    ∀ slot ∈ blockSlots n block, ∀ ptr, s.shelf slot = some ptr → t.blobStore.Freed ptr
  owned : ∀ id, (t.receipts.get id).isSome ∨ (t.txIndex.get id).isSome ∨
    (t.internalTraces.get id).isSome → ∃ n i, t.txLocs.get id = some (.included n i)
  located : ∀ id n i, t.txLocs.get id = some (.included n i) →
    ¬ Covers t.pruneState n ∧ (t.blocks.get n).isSome
  blocksKept : ∀ n, ¬ Covers t.pruneState n →
    t.blocks.get n = s.blocks.get n ∧ loadBlock t n = loadBlock s n
  recordsKept : ∀ id, ¬ PrunedTx s t id → t.txRecord id = s.txRecord id
  blobsKept : ∀ slot ptr, t.shelf slot = some ptr →
    s.shelf slot = some ptr ∧ t.blobStore.read ptr = s.blobStore.read ptr
  hashesKept : ∀ h, (∀ id, PrunedTx s t id → ¬ HashOf c s id h) →
    t.ethTxHashIndex.get h = s.ethTxHashIndex.get h
  pendingKept : t.pendingMaps = s.pendingMaps
  unpruned : t.unpruned = s.unpruned

theorem storedBelow_iff {W : Type} {s t : StableState W}
    (hnext : t.pruneState.nextPruneBlock = nextBlock t.pruneState.prunedBefore) (id : TxId) :
    StoredBelow s t.pruneState.nextPruneBlock id ↔ PrunedTx s t id := by
  simp only [StoredBelow, PrunedTx, covers_iff hnext]

theorem pendingMaps_pruned {W : Type} {retain : Nat} {s t : StableState W} {p : Pool}
    (h : Consistent c False s p) (hp : Prunes c retain s t) : t.pendingMaps = s.pendingMaps := by
  obtain ⟨hkeys, hindex⟩ := hp.trimmed.fees (by
    rintro id ⟨n, block, -, hload, hid⟩
    have hidle := h.archived.idle hload hid
    refine h.indexed.feeKey.get_none ?_
    intro j e hj hsame
    rw [hsame, hidle] at hj
    exact absurd hj (by simp))
  have hview := hp.trimmed.unpruned
  have h₁ : t.pendingBySenderNonce = s.pendingBySenderNonce :=
    congrArg UnprunedView.pendingBySenderNonce hview
  have h₂ : t.pendingMetaByTxId = s.pendingMetaByTxId :=
    congrArg UnprunedView.pendingMetaByTxId hview
  have h₃ : t.pendingCurrentBySender = s.pendingCurrentBySender :=
    congrArg UnprunedView.pendingCurrentBySender hview
  have h₄ : t.pendingMinNonce = s.pendingMinNonce := congrArg UnprunedView.pendingMinNonce hview
  have h₅ : t.readyQueue = s.readyQueue := congrArg UnprunedView.readyQueue hview
  have h₆ : t.readyBySeq = s.readyBySeq := congrArg UnprunedView.readyBySeq hview
  have h₇ : t.readyKeyByTxId = s.readyKeyByTxId := congrArg UnprunedView.readyKeyByTxId hview
  simp only [StableState.pendingMaps, h₁, h₂, h₃, h₄, h₅, h₆, h₇, hkeys, hindex]

theorem pruneFrame_of_prunes {W : Type} {retain : Nat} {s t : StableState W} (h : Orderly c s)
    (ht : Orderly c t) (hp : Prunes c retain s t) : PruneFrame c retain s t := by
  obtain ⟨p, hcons⟩ := h.consistent
  have hcovers (n : Nat) := covers_iff hp.next (n := n)
  have hcovered (n : Nat) := covers_iff h.window.next (n := n)
  have hbelow := storedBelow_iff (s := s) hp.next
  have htrimmed := hp.trimmed
  constructor
  · intro n hn
    rw [hcovered] at hn
    rw [hcovers]
    exact lt_of_lt_of_le hn hp.monotone
  · rintro n ⟨q, hq, hle⟩
    rcases hp.bounded with hsame | ⟨r, hr, hbound⟩
    · exact .inl ⟨q, hsame.symm.trans hq, hle⟩
    · obtain rfl := Option.some.inj (hq.symm.trans hr)
      exact .inr (by omega)
  · intro n hn
    exact (htrimmed.blocks n).trans (if_pos ((hcovers n).mp hn))
  · exact h.window.loads
  · intro id hid
    have hlow := (hbelow id).mpr hid
    exact ⟨htrimmed.gone id hlow, fun hash => htrimmed.unhashed id hash hlow⟩
  · intro n block hn hload slot hslot ptr hptr
    exact htrimmed.freed ((hcovers n).mp hn) hload hslot hptr
  · exact ht.located.owned
  · intro id n i hloc
    obtain ⟨hlow, hone, hhigh⟩ := ht.located.above id n i hloc
    refine ⟨?_, ht.window.present n hone hlow hhigh⟩
    rw [hcovers]
    exact not_lt.mpr hlow
  · intro n hn
    rw [hcovers] at hn
    exact ⟨(htrimmed.blocks n).trans (if_neg hn), htrimmed.loads h.window.shelved (not_lt.mp hn)⟩
  · exact fun id hid => htrimmed.kept id (fun hlow => hid ((hbelow id).mp hlow))
  · intro slot ptr hslot
    have hold := htrimmed.fewer slot ptr hslot
    obtain ⟨data, hheld⟩ := h.window.shelved.held slot ptr hold
    have hkept := htrimmed.holds slot ptr data hslot hheld
    refine ⟨hold, ?_⟩
    rw [BlobStore.read_of_holds h.window.shelved.sound hheld,
      BlobStore.read_of_holds htrimmed.shelved.sound hkept]
  · intro hash hnot
    exact htrimmed.hashed hash (fun id hlow => hnot id ((hbelow id).mp hlow))
  · exact pendingMaps_pruned hcons hp
  · exact htrimmed.unpruned

theorem prunes_refused {W : Type} {s : StableState W} (h : Orderly c s) (retain : Nat) :
    Prunes c retain s s :=
  ⟨trimmed_start h.window.shelved h.window.gone, h.window.clean, h.window.next, le_refl _, .inl rfl⟩

theorem prune_blocks_frame {world : World T} {config : RuntimeConfig} {s : NodeState T}
    (run : NodeRun c revm trie Uninterrupted (.init world config) s) (retain maxOps : Nat) :
    (if retain = 0 ∨ maxOps = 0 then
        pruneBlocks c retain maxOps s.chain = (.error .invalidLimit, s.chain)
      else ∃ result, (pruneBlocks c retain maxOps s.chain).1 = .ok result) ∧
      PruneFrame c retain s.chain (pruneBlocks c retain maxOps s.chain).2 := by
  have h := orderly_run run
  split_ifs with hlimits
  · have hrefused : pruneBlocks c retain maxOps s.chain = (.error .invalidLimit, s.chain) :=
      if_pos hlimits
    rw [hrefused]
    exact ⟨rfl, pruneFrame_of_prunes h h (prunes_refused h retain)⟩
  · have ht : Orderly c (pruneBlocks c retain maxOps s.chain).2 :=
      @orderly_op c (World T) (evm c revm trie) _ _ _ h (fun _ _ _ _ _ hop => absurd hop (by simp))
        (.pruneBlocks retain maxOps s.chain)
    obtain ⟨result, t, heq, hprunes⟩ := h.window.prunes (c := c) hlimits
    rw [heq] at ht ⊢
    exact ⟨⟨result, rfl⟩, pruneFrame_of_prunes h ht hprunes⟩

def pruneNode (retain maxOps : Nat) (s : NodeState Unit) : NodeState Unit :=
  commitBumps [] { s with chain := (pruneBlocks sampleCrypto retain maxOps s.chain).2 }

def twoBlocks : NodeState Unit := nextNode (submitNode 2 (nextNode (submitNode 1 sampleNode)))

theorem run_submitNode {allowed : NodeState Unit → NodeOp → Prop} {s : NodeState Unit} (b : UInt8)
    (run : NodeRun sampleCrypto nonceRevm sampleTrie allowed sampleNode s)
    (ok : allowed s (.chain (.submitTx 0 [b] samplePrincipal))) :
    NodeRun sampleCrypto nonceRevm sampleTrie allowed sampleNode (submitNode b s) :=
  run.step ok (.chain (.submitTx 0 [b] samplePrincipal _))

theorem run_nextNode {allowed : NodeState Unit → NodeOp → Prop} {s : NodeState Unit}
    (run : NodeRun sampleCrypto nonceRevm sampleTrie allowed sampleNode s)
    (ok : allowed s sampleProduction) :
    NodeRun sampleCrypto nonceRevm sampleTrie allowed sampleNode (nextNode s) := by
  rw [nextNode]
  cases hproduced : produceBlock sampleCrypto (evm sampleCrypto nonceRevm sampleTrie) sampleEnv 1
    s.chain with
  | none => exact run
  | some result => exact run.step ok (.chain (.produceBlock hproduced))

theorem run_twoBlocks {allowed : NodeState Unit → NodeOp → Prop}
    (submit : ∀ s b, allowed s (.chain (.submitTx 0 [b] samplePrincipal)))
    (produce : ∀ s, allowed s sampleProduction) :
    NodeRun sampleCrypto nonceRevm sampleTrie allowed sampleNode twoBlocks :=
  run_nextNode (run_submitNode 2 (run_nextNode (run_submitNode 1 .start (submit _ _)) (produce _))
    (submit _ _)) (produce _)

-- every evaluation of the sample is made once, here
theorem twoBlocks_evaluated :
    twoBlocks.chain.head.number = 2 ∧ twoBlocks.chain.head.timestamp = 2 ∧
      (twoBlocks.chain.blocks.get 1).isSome = true ∧
      (loadBlock twoBlocks.chain u64Max).isSome = false ∧
      (pruneBlocks sampleCrypto 1 100 twoBlocks.chain).1 = .ok ⟨true, 0, some 1⟩ ∧
      (pruneBlocks sampleCrypto 5 100 (pruneNode 1 100 twoBlocks).chain).2.pruneState.prunedBefore =
        some 1 ∧
      (pruneNode 1 100 twoBlocks).chain.head.number < 1 + 5 := by
  decide +kernel

theorem twoBlocks_pruned :
    twoBlocks.chain.head.number = 2 ∧
      (pruneBlocks sampleCrypto 1 100 twoBlocks.chain).1 = .ok ⟨true, 0, some 1⟩ ∧
      PruneFrame sampleCrypto 1 twoBlocks.chain
        (pruneBlocks sampleCrypto 1 100 twoBlocks.chain).2 := by
  have run : NodeRun sampleCrypto nonceRevm sampleTrie Uninterrupted sampleNode twoBlocks :=
    run_twoBlocks (fun _ _ => trivial) (fun _ => trivial)
  obtain ⟨hhead, -, -, -, hpruned, -⟩ := twoBlocks_evaluated
  exact ⟨hhead, hpruned, (prune_blocks_frame run 1 100).2⟩

theorem pruned_too_late_to_retain :
    ∃ s, NodeRun sampleCrypto nonceRevm sampleTrie Uninterrupted sampleNode s ∧
      Covers (pruneBlocks sampleCrypto 5 100 s.chain).2.pruneState 1 ∧
      s.chain.head.number < 1 + 5 := by
  have run : NodeRun sampleCrypto nonceRevm sampleTrie Uninterrupted sampleNode twoBlocks :=
    run_twoBlocks (fun _ _ => trivial) (fun _ => trivial)
  have hallowed : Uninterrupted twoBlocks (.chain (.pruneBlocks 1 100)) := trivial
  have hpruned : NodeRun sampleCrypto nonceRevm sampleTrie Uninterrupted sampleNode
      (pruneNode 1 100 twoBlocks) := run.step hallowed (.chain (.pruneBlocks 1 100 _))
  obtain ⟨-, -, -, -, -, hbefore, hhead⟩ := twoBlocks_evaluated
  exact ⟨_, hpruned, ⟨1, hbefore, le_refl _⟩, hhead⟩

end Kasane.Node
