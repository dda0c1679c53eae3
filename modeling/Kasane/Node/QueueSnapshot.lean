import Kasane.Chain.Bids
import Kasane.Chain.QueueSnapshot
import Kasane.Chain.OpClosed
import Kasane.Node.IncludedOnce

namespace Kasane.Node

open BigEndian Codec Word Chain Exec

section Chain

variable {W : Type} {c : Crypto} {evm : Evm W}

-- the counter hands out every sequence number but its last value only once
structure Numbered (s : StableState W) : Prop where
  word : s.queueMeta.tail ≤ u64Max
  passed : ∀ id key, s.readyKeyByTxId.get id = some key →
    key.seq < s.queueMeta.tail ∨ key.seq = u64Max
  once : ∀ i j k l, s.readyKeyByTxId.get i = some k → s.readyKeyByTxId.get j = some l →
    k.seq = l.seq → k.seq < u64Max → i = j

theorem numbered_init (world : W) : Numbered (StableState.init world) where
  word := Nat.zero_le _
  passed := fun id key h => absurd h (by simp [StableState.init])
  once := fun i j k l h => absurd h (by simp [StableState.init])

-- some transactions have left the ready queue, and no number was taken back
structure Thins (s t : StableState W) : Prop where
  ready : ∀ id key, t.readyKeyByTxId.get id = some key → s.readyKeyByTxId.get id = some key
  tail : s.queueMeta.tail ≤ t.queueMeta.tail
  word : t.queueMeta.tail ≤ max s.queueMeta.tail u64Max

theorem Thins.of_eq {s t : StableState W} (hready : t.readyKeyByTxId = s.readyKeyByTxId)
    (hmeta : t.queueMeta = s.queueMeta) : Thins s t :=
  ⟨fun _ _ hget => hready ▸ hget, le_of_eq (hmeta ▸ rfl), hmeta ▸ le_max_left ..⟩

theorem Numbered.thins {s t : StableState W} (h : Numbered s) (thins : Thins s t) : Numbered t where
  word := thins.word.trans (max_le h.word le_rfl)
  passed := by
    intro id key hget
    rcases h.passed id key (thins.ready id key hget) with hlt | hlast
    · exact .inl (hlt.trans_le thins.tail)
    · exact .inr hlast
  once := fun i j k l hi hj => h.once i j k l (thins.ready i k hi) (thins.ready j l hj)

theorem ready_dropped {s : StableState W} {id : TxId} {e : PoolEntry}
    {nonces : OrdMap Address Nat} {code : DropCode} : Thins s (Chain.dropped c s id e nonces code) := by
  obtain ⟨keys, index, hashes, locs, ring, ringState, heq⟩ :=
    markDropped_eq (c := c) { unlinked c s id e with senderExpectedNonce := nonces } id code
  rw [Chain.dropped, heq]
  exact ⟨fun _ _ hget => get_of_remove hget, le_rfl, le_max_left ..⟩

theorem queueMeta_enqueuePending (s : StableState W) (sender : Address) (nonce price : Nat)
    (envelope : StoredTxBytes) :
    (enqueuePending c s sender nonce price envelope).queueMeta = s.queueMeta.push.2 := by
  obtain ⟨hashes, heq⟩ := enqueuePending_linked (c := c) s sender nonce price envelope
  rw [heq, (sameHistory_promote ..).queueMeta]
  rfl

theorem numbered_enqueue {s : StableState W} {p : Pool} {sender : Address} {envelope : StoredTxBytes}
    (h : Numbered s) (hs : Indexed s.pendingMaps p)
    (hvacant : ∀ j f, p.entry j = some f → f.key.sender ≠ sender) (nonce price : Nat) :
    Numbered (enqueuePending c s sender nonce price envelope) := by
  have htail : (enqueuePending c s sender nonce price envelope).queueMeta.tail =
      min (s.queueMeta.tail + 1) u64Max := congrArg QueueMeta.tail (queueMeta_enqueuePending ..)
  have hword := h.word
  have hready : (enqueuePending c s sender nonce price envelope).readyKeyByTxId =
      s.readyKeyByTxId.insert envelope.txId
        (queuedEntry sender nonce price envelope s.queueMeta.tail).ready := by
    obtain ⟨hashes, queueMeta, chainState, heq⟩ :=
      enqueuePending_eq (c := c) hs hvacant nonce price envelope
    rw [heq]
  constructor
  · omega
  · intro id key hget
    rw [hready, OrdMap.get_insert] at hget
    split_ifs at hget
    · obtain rfl := Option.some.inj hget
      have hseq : (queuedEntry sender nonce price envelope s.queueMeta.tail).ready.seq =
          s.queueMeta.tail := rfl
      omega
    · rcases h.passed id key hget with hlt | hlast
      · omega
      · exact .inr hlast
  · intro i j k l hi hj hseq hlow
    have hnew : (queuedEntry sender nonce price envelope s.queueMeta.tail).ready.seq =
        s.queueMeta.tail := rfl
    rw [hready, OrdMap.get_insert] at hi hj
    split_ifs at hi hj with hienv hjenv hjenv
    · rw [hienv, hjenv]
    · obtain rfl := Option.some.inj hi
      rcases h.passed j l hj with hlt | hlast
      · omega
      · omega
    · obtain rfl := Option.some.inj hj
      rcases h.passed i k hi with hlt | hlast
      · omega
      · omega
    · exact h.once i j k l hi hj hseq hlow

theorem numbered_step {s t : StableState W} (h : Numbered s) (hstep : PoolStep c s t) :
    Numbered t ∧ s.queueMeta.tail ≤ t.queueMeta.tail := by
  cases hstep with
  | touched nonces m => exact ⟨h.thins (.of_eq rfl rfl), le_rfl⟩
  | dropped _ _ nonces code => exact ⟨h.thins ready_dropped, ready_dropped.tail⟩
  | queued consistent _ vacant _ _ =>
      refine ⟨numbered_enqueue h consistent.indexed vacant _ _, ?_⟩
      rw [queueMeta_enqueuePending]
      exact le_min (Nat.le_succ _) h.word

theorem numbered_steps {s t : StableState W} (h : Numbered s) (hsteps : PoolSteps c s t) :
    Numbered t ∧ s.queueMeta.tail ≤ t.queueMeta.tail := by
  induction hsteps with
  | refl => exact ⟨h, le_rfl⟩
  | tail _ hstep ih =>
      obtain ⟨hnumbered, htail⟩ := numbered_step ih.1 hstep
      exact ⟨hnumbered, ih.2.trans htail⟩

theorem thins_pruneStep {step : PruneStep} {s t : StableState W} (h : step.run c s = .ok t) :
    Thins s t := by
  cases step with
  | reclaim ptr =>
      rw [PruneStep.run] at h
      split at h
      · obtain rfl := Except.ok.inj h
        exact .of_eq rfl rfl
      · exact absurd h (by simp)
  | removeFeeIndex id =>
      obtain rfl := Except.ok.inj h
      obtain ⟨keys, index, heq⟩ := removePendingFeeIndexByTxId_eq s id
      rw [heq]
      exact .of_eq rfl rfl
  | decrementPrincipal id =>
      obtain rfl := Except.ok.inj h
      rw [decrementPrincipal_counts]
      exact .of_eq rfl rfl
  | removeEthTxHash id =>
      obtain rfl := Except.ok.inj h
      obtain ⟨index, heq⟩ := removeEthTxHashIndexForTxId_eq c s id
      rw [heq]
      exact .of_eq rfl rfl
  | _ =>
      obtain rfl := Except.ok.inj h
      exact .of_eq rfl rfl

theorem pruneClosed_numbered : PruneClosed c (Numbered (W := W)) where
  step := fun _ _ _ h hrun => h.thins (thins_pruneStep hrun)
  bookkeeping := fun _ _ _ _ h => h.thins (.of_eq rfl rfl)

theorem ready_committed {env : CallEnv} {maxTxs : Nat} {s t : StableState W}
    {outcome : ProduceBlockOutcome} {x : ExecState evm} {root : evm.Root} {world : W} {p : Pool}
    (h : Consistent c False s p) (hc : Committed c evm env maxTxs s t outcome x root world)
    (id : TxId) (key : ReadyKey) (hget : t.readyKeyByTxId.get id = some key) :
    s.readyKeyByTxId.get id = some key := by
  obtain ⟨⟨m, hstate⟩, -⟩ := prepareBlock_prepares c env maxTxs s
  have hcommit := hc.committed
  rw [hstate] at hcommit
  have hs (world : W) : Consistent c False
      { s with world := world, decodeSuppressUntil := m } p :=
    ⟨h.indexed, h.backed, h.archived, h.bounded, h.counted⟩
  have hp := (pending_selectReady (c := c) h.indexed s.chainState.baseFee maxTxs).subperm hc.selected
  obtain ⟨u, q, hu, hsub, rfl⟩ :=
    commitBlock_rebuilds (hs _) hp hc.txIds hc.txIds_few.2 hcommit
  obtain ⟨index, keys, heq⟩ := rebuildPendingFee_frame (c := c) u.chainState.baseFee u
  rw [heq] at hget
  obtain ⟨j, e, hj, rfl, rfl⟩ := (hu.indexed.readyKey id key).mp hget
  exact h.indexed.readyKey.get_some (hsub j e hj)

theorem opClosed_numbered : OpClosed c evm (Numbered (W := W)) where
  world := fun _ _ h => h.thins (.of_eq rfl rfl)
  step := fun h hstep => (numbered_step h hstep).1
  laid := by
    intro env maxTxs s t u outcome x root world w p hp h hu committed laying
    have hworld : Numbered { s with world := w } := h.thins (.of_eq rfl rfl)
    obtain ⟨-, htail⟩ := numbered_steps hworld laying.upkeep
    have hmeta := laying.lays.queueMeta
    exact h.thins ⟨ready_committed hp committed, hmeta ▸ htail,
      hmeta ▸ hu.word.trans (le_max_right ..)⟩
  prune := pruneClosed_numbered
  rebuild := by
    intro s p hp h
    obtain ⟨counts, seqs, index, keys, heq⟩ := rebuildRuntime_frame evm hp
    rw [heq]
    exact h.thins (.of_eq rfl rfl)

theorem Numbered.sequenced {s : StableState W} (h : Numbered s) (hindexed : SeqIndexed s)
    (single : ∀ i j k l, s.readyKeyByTxId.get i = some k → s.readyKeyByTxId.get j = some l →
      k.seq = u64Max → l.seq = u64Max → i = j) : Sequenced s := by
  have hentry {e : ReadySeqKey × TxId} (he : e ∈ s.readyBySeq.entries) :
      ∃ key, s.readyKeyByTxId.get e.2 = some key ∧ e.1 = ⟨key.seq, e.2⟩ :=
    (hindexed e.2 e.1).mp (OrdMap.mem_entries.mp he)
  have hword := h.word
  constructor
  · refine s.readyBySeq.sorted.imp_of_mem (fun {a b} ha hb hlt => ?_)
    obtain ⟨k, hk, hak⟩ := hentry ha
    obtain ⟨l, hl, hbl⟩ := hentry hb
    rcases seqKey_lt.mp hlt with hseq | ⟨hseq, hhash⟩
    · exact hseq
    · rw [hak, hbl] at hseq hhash
      have hsame : a.2 = b.2 := by
        rcases h.passed a.2 k hk with hlow | hlast
        · exact h.once a.2 b.2 k l hk hl hseq (hlow.trans_le hword)
        · exact single a.2 b.2 k l hk hl hlast (hseq.symm.trans hlast)
      exact absurd hhash (hsame ▸ lt_irrefl _)
  · intro e he
    obtain ⟨k, hk, hek⟩ := hentry he
    rw [hek]
    rcases h.passed e.2 k hk with hlow | hlast
    · exact (hlow.trans_le hword).le
    · exact hlast.le

end Chain

variable {T : Type} {c : Crypto} {revm : Revm} {trie : TrieCommit T}

theorem moveClosed_numbered : MoveClosed c revm trie Numbered where
  op := opClosed_numbered.op
  world := fun _ _ h => h.thins (.of_eq rfl rfl)
  cleared := fun _ h => h.thins ⟨fun _ _ hget => absurd hget (by simp [clearMempoolOnUpgrade]), le_rfl,
    le_max_left ..⟩
  synced := fun _ h => h.thins (.of_eq rfl rfl)
  limited := fun _ _ h => h.thins (.of_eq rfl rfl)

theorem numbered_nodeRun {allowed : NodeState T → NodeOp → Prop} {world : World T}
    {config : RuntimeConfig} {s : NodeState T}
    (run : NodeRun c revm trie allowed (.init world config) s) : Numbered s.chain :=
  moveClosed_numbered.nodeRun (numbered_init world) run

-- the payloads are arbitrary: any of them may be missing or undecodable
theorem queue_snapshots_enumerate {allowed : NodeState T → NodeOp → Prop} {world : World T}
    {config : RuntimeConfig} {s : NodeState T}
    (run : NodeRun c revm trie allowed (.init world config) s)
    (single : ∀ i j k l, s.chain.readyKeyByTxId.get i = some k →
      s.chain.readyKeyByTxId.get j = some l → k.seq = u64Max → l.seq = u64Max → i = j)
    (payloads : OrdMap TxId StoredTxBytes) :
    Enumerates c { s.chain with txStore := payloads } := by
  obtain ⟨p, hp⟩ := consistent_nodeRun run
  have hindexed : SeqIndexed s.chain := (mempoolIndexes_of_consistent hp).ready_seq
  have hsequenced := (numbered_nodeRun run).sequenced hindexed single
  exact enumerates_of_sequenced ⟨hsequenced.rising, hsequenced.word⟩ hindexed

section Submission

variable {W : Type} {c : Crypto} {evm : Evm W}

theorem run_accepted {call : SubmitCall} {envelope : StoredTxBytes} {sender : Address}
    {nonce price now : Nat} {s u : StableState W} (submitted : Submitted c call envelope sender nonce)
    (unsuppressed : isPrincipalDecodeSuppressed s call.principal now = (false, s))
    (reaches : Reaches s envelope price)
    (expected : expectedNonceForSender evm s sender = (nonce, u))
    (vacant : u.pendingCurrentBySender.get sender = none)
    (uncapped : enforcePendingCaps c evm u sender envelope.callerPrincipal price = (.ok (), u))
    (free : u.pendingBySenderNonce.get ⟨sender, nonce⟩ = none) :
    call.run c evm now s = (.ok envelope.txId, enqueuePending c u sender nonce price envelope) := by
  rw [run_submitted submitted, unsuppressed]
  simp only [reaches.fresh, reaches.minFee, reaches.priced, Option.isSome_none, Bool.false_eq_true,
    if_false, admitPending, applyNonceAndReplacement, expected, lt_irrefl,
    pendingPriceForSender, vacant, classifyNonce_self, Option.isNone_none, if_true, uncapped, free,
    reduceCtorEq]

theorem caps_roomy {s : StableState W} {sender : Address} {principal : Principal} {price : Nat}
    (few : s.pendingBySenderNonce.len ≤ 1)
    (uncounted : ∀ key, (s.principalPendingCount.get key).getD 0 ≤ 1) :
    enforcePendingCaps c evm s sender principal price = (.ok (), s) := by
  have hsender : countPendingForSender s sender ≤ 1 := by
    rw [countPendingForSender]
    refine le_trans ?_ few
    exact (List.takeWhile_sublist _).length_le.trans List.filter_sublist.length_le
  have hprincipal : countPendingForPrincipal s principal ≤ 1 := by
    rw [countPendingForPrincipal]
    split_ifs
    · exact Nat.zero_le _
    · exact uncounted _
  have hcaps : maxPendingPerSender = 64 ∧ maxPendingPerPrincipal = 32 ∧ maxPendingGlobal = 8192 :=
    ⟨rfl, rfl, rfl⟩
  rw [enforcePendingCaps]
  simp only [classifyPendingCaps]
  rw [if_neg (by omega), if_neg (by omega), if_pos (by omega)]

end Submission

def countCrypto : Crypto :=
  { bidCrypto with recoverEthTx := fun bytes => some (bidTx (bytes.headD 0) 1 10) }

def idSpace : Nat := 256 ^ 32

def countRaw (b : UInt8) (i : Nat) : Bytes := b :: encode 32 i

def countEnvelope (b : UInt8) (i : Nat) : StoredTxBytes :=
  rawEnvelope countCrypto .ethSigned (countRaw b i) samplePrincipal (decodedToTxEnv (bidTx b 1 10))

def countSender (b : UInt8) : Address := lastByteArr 20 [b]

abbrev countEvm : Evm (World Unit) := evm countCrypto nonceRevm sampleTrie

theorem submitted_count (b : UInt8) (hb : rejectedTxType b = false) (i : Nat) :
    Submitted countCrypto (.tx .ethSigned (countRaw b i) samplePrincipal) (countEnvelope b i)
      (countSender b) 0 := by
  have hsize : (countRaw b i).length ≤ maxTxSize := by
    rw [countRaw, List.length_cons, length_encode]
    decide
  have hdecoded : decodeTx countCrypto .ethSigned (zeroArr 20) (countRaw b i) =
      some (decodedToTxEnv (bidTx b 1 10)) := by
    rw [countRaw] at hsize ⊢
    rw [decodeTx, decodeEthRawTx, if_neg (not_lt.mpr hsize), hb]
    rfl
  exact .raw hsize hdecoded

theorem keccak256_count (bytes : Bytes) : (countCrypto.keccak256 bytes).toList =
    (bytes.reverse ++ List.replicate 32 0).take 32 := rfl

theorem txId_count (b : UInt8) (i : Nat) :
    (countEnvelope b i).txId.toList = (encode 32 i).reverse := by
  have hlen : (encode 32 i).reverse.length = 32 := by rw [List.length_reverse, length_encode]
  rw [countEnvelope, rawEnvelope, storedTxId, keccak256_count]
  simp only [countRaw, Option.map_none, Option.getD_none, List.append_nil, List.reverse_append,
    List.reverse_cons, List.append_assoc]
  rw [List.take_append_of_le_length hlen.ge, List.take_of_length_le hlen.le]

theorem txId_count_ne {b b' : UInt8} {i j : Nat} (hi : i < idSpace) (hj : j < idSpace)
    (hne : i ≠ j) : (countEnvelope b i).txId ≠ (countEnvelope b' j).txId := by
  intro h
  have hlist := congrArg List.Vector.toList h
  rw [txId_count, txId_count, List.reverse_inj] at hlist
  have hnat := congrArg decode hlist
  rw [decode_encode_of_lt hi, decode_encode_of_lt hj] at hnat
  exact hne hnat

-- nothing stands in the way of the transactions numbered from k on
structure Open (s : StableState (World Unit)) (b : UInt8) (k : Nat) : Prop where
  world : s.world = emptyWorld
  fees : s.chainState.baseFee = 250_000_000_000 ∧ s.chainState.minGasPrice = 150_000_000_000 ∧
    s.chainState.minPriorityFee = 150_000_000_000
  unsuppressed : s.decodeSuppressUntil = .empty
  unseen : ∀ b i, k ≤ i → i < idSpace → s.seenTx.get (countEnvelope b i).txId = none
  unexpected : s.senderExpectedNonce.get (countSender b) = none
  vacant : s.pendingCurrentBySender.get (countSender b) = none
  few : s.pendingBySenderNonce.len ≤ 1
  uncounted : ∀ key, (s.principalPendingCount.get key).getD 0 ≤ 1

def countPrice : Nat := 1_000_000_000_000

def noncedState (s : StableState (World Unit)) (b : UInt8) : StableState (World Unit) :=
  { s with senderExpectedNonce := s.senderExpectedNonce.insert (countSender b) 0 }

def countedState (s : StableState (World Unit)) (b : UInt8) (k : Nat) : StableState (World Unit) :=
  enqueuePending countCrypto (noncedState s b) (countSender b) 0 countPrice (countEnvelope b k)

theorem Open.unpending {s : StableState (World Unit)} {b : UInt8} {k : Nat} {p : Pool}
    (h : Open s b k) (hs : Indexed s.pendingMaps p) (j : TxId) (f : PoolEntry)
    (hj : p.entry j = some f) : f.key.sender ≠ countSender b := by
  intro hsender
  have hget := hs.current.get_some hj
  rw [hsender] at hget
  exact absurd (h.vacant.symm.trans hget) (by simp)

theorem Open.submit {s : StableState (World Unit)} {b : UInt8} {k : Nat} {p : Pool} (h : Open s b k)
    (hb : rejectedTxType b = false) (hs : Indexed s.pendingMaps p) (hk : k < idSpace) :
    (submitTx countCrypto countEvm 0 .ethSigned (countRaw b k) samplePrincipal s).2 =
      countedState s b k := by
  have hreaches : Reaches s (countEnvelope b k) countPrice := by
    obtain ⟨hbase, hgas, hpriority⟩ := h.fees
    have hfee : (countEnvelope b k).maxFeePerGas = countPrice := rfl
    have hpriorityFee : (countEnvelope b k).priorityFee = some countPrice := rfl
    have hpaid : (if (countEnvelope b k).isDynamicFee then (countEnvelope b k).maxPriorityFeePerGas
      else 0) = countPrice := rfl
    refine ⟨h.unseen b k le_rfl hk, ?_, ?_⟩
    · rw [hbase, hgas, hpriority, hfee, hpriorityFee]
      decide
    · rw [hbase, StoredTxBytes.priceAt, hfee, hpaid]
      decide
  have hsup : isPrincipalDecodeSuppressed s samplePrincipal 0 = (false, s) := by
    rw [isPrincipalDecodeSuppressed, h.unsuppressed, if_neg (by decide)]
    have hempty : expireSuppressed .empty 0 = .empty := rfl
    have hkept : { s with decodeSuppressUntil := .empty } = s := by rw [← h.unsuppressed]
    simp only [hempty, OrdMap.get_empty, Option.map_none, Option.getD_none, hkept]
  have hexpected : expectedNonceForSender countEvm s (countSender b) = (0, noncedState s b) := by
    have hnonce : accountNonceFromState countEvm s (countSender b) = 0 := by
      rw [accountNonceFromState, h.world]
      rfl
    simp only [expectedNonceForSender, h.unexpected, hnonce, noncedState]
  have hcaps : enforcePendingCaps countCrypto countEvm (noncedState s b) (countSender b)
      (countEnvelope b k).callerPrincipal countPrice = (.ok (), noncedState s b) :=
    caps_roomy h.few h.uncounted
  have hfree : (noncedState s b).pendingBySenderNonce.get ⟨countSender b, 0⟩ = none :=
    hs.bySender.get_none
      (fun j f hj hkey => h.unpending hs j f hj (congrArg SenderNonceKey.sender hkey))
  have hrun := run_accepted (submitted_count b hb k) hsup hreaches hexpected h.vacant hcaps hfree
  rw [SubmitCall.run] at hrun
  rw [hrun, countedState]

-- what a node holds after k rounds of a submission and an upgrade
structure Blank (k : Nat) (s : StableState (World Unit)) : Prop where
  cleared : clearMempoolOnUpgrade s = s
  tail : s.queueMeta.tail = k
  opened : ∀ b, Open s b k

theorem fees_counted (s : StableState (World Unit)) (b : UInt8) (k : Nat) :
    (countedState s b k).chainState =
      { s.chainState with nextQueueSeq := s.queueMeta.push.2.tail } := by
  obtain ⟨hashes, heq⟩ := enqueuePending_linked (c := countCrypto) (noncedState s b) (countSender b) 0
    countPrice (countEnvelope b k)
  rw [countedState, heq, (quiet_promoteIfNextNonce ..).chainState]
  rfl

theorem queueMeta_counted (s : StableState (World Unit)) (b : UInt8) (k : Nat) :
    (countedState s b k).queueMeta = s.queueMeta.push.2 :=
  queueMeta_enqueuePending (c := countCrypto) (noncedState s b) (countSender b) 0 countPrice
    (countEnvelope b k)

theorem Open.unseen_counted {s : StableState (World Unit)} {b b' : UInt8} {k i : Nat} {p : Pool}
    (h : Open s b k) (hs : Indexed s.pendingMaps p) (hk : k + 1 ≤ i) (hi : i < idSpace) :
    (countedState s b k).seenTx.get (countEnvelope b' i).txId = none := by
  have hs' : Indexed (noncedState s b).pendingMaps p := hs
  obtain ⟨hashes, queueMeta, chainState, heq⟩ := enqueuePending_eq (c := countCrypto) hs'
    (h.unpending hs) 0 countPrice (countEnvelope b k)
  rw [countedState, heq]
  dsimp only
  have hne : (countEnvelope b' i).txId ≠ (countEnvelope b k).txId :=
    txId_count_ne hi (lt_of_le_of_lt (Nat.le_of_succ_le hk) hi) (Nat.ne_of_gt hk)
  rw [OrdMap.get_insert, if_neg hne]
  exact h.unseen b' i (Nat.le_of_succ_le hk) hi

theorem blank_round {s : StableState (World Unit)} {k : Nat} {p : Pool} (h : Blank k s)
    (hs : Indexed s.pendingMaps p) (hk : k < u64Max) :
    Blank (k + 1) (clearMempoolOnUpgrade (countedState s 2 k)) := by
  have hopen := h.opened 2
  have hfees := fees_counted s 2 k
  have hs' : Indexed (noncedState s 2).pendingMaps p := hs
  have hrest : (countedState s 2 k).world = s.world ∧
      (countedState s 2 k).decodeSuppressUntil = s.decodeSuppressUntil := by
    obtain ⟨hashes, queueMeta, chainState, heq⟩ := enqueuePending_eq (c := countCrypto) hs'
      (hopen.unpending hs) 0 countPrice (countEnvelope 2 k)
    rw [countedState, heq]
    exact ⟨rfl, rfl⟩
  have htail : (countedState s 2 k).queueMeta.tail = k + 1 := by
    have hpush : s.queueMeta.push.2.tail = saturatingAdd u64Max s.queueMeta.tail 1 := rfl
    rw [queueMeta_counted, hpush, h.tail, saturatingAdd, min_eq_left (Nat.succ_le_of_lt hk)]
  have hunseen (b : UInt8) (i : Nat) (hi : k + 1 ≤ i) (hlt : i < idSpace) :
      (countedState s 2 k).seenTx.get (countEnvelope b i).txId = none :=
    hopen.unseen_counted hs hi hlt
  generalize countedState s 2 k = t at hfees hrest htail hunseen ⊢
  refine ⟨rfl, htail, fun b => ⟨hrest.1.trans hopen.world, ?_, hrest.2.trans hopen.unsuppressed,
    hunseen, rfl, rfl, Nat.zero_le _, fun _ => Nat.zero_le _⟩⟩
  rw [clearMempoolOnUpgrade, hfees]
  exact hopen.fees

def CountRun (s : NodeState Unit) : Prop :=
  NodeRun countCrypto nonceRevm sampleTrie (fun _ _ => True) sampleNode s

theorem run_submitCount {s : NodeState Unit} {b : UInt8} {k : Nat} {p : Pool} (run : CountRun s)
    (h : Open s.chain b k) (hb : rejectedTxType b = false) (hs : Indexed s.chain.pendingMaps p)
    (hk : k < idSpace) : ∃ t, CountRun t ∧ t.chain = countedState s.chain b k := by
  have runs : NodeOp.Runs countCrypto nonceRevm sampleTrie
      (.chain (.submitTx 0 (countRaw b k) samplePrincipal)) s _ :=
    .chain (.submitTx 0 (countRaw b k) samplePrincipal s.chain)
  refine ⟨_, run.step trivial runs, ?_⟩
  rw [commitBumps_chain]
  exact h.submit hb hs hk

theorem pool_count {s : NodeState Unit} (run : CountRun s) :
    ∃ p, Consistent countCrypto False s.chain p := consistent_nodeRun run

theorem blank_rounds (k : Nat) (hk : k ≤ u64Max) :
    ∃ s : NodeState Unit, CountRun s ∧ Blank k s.chain := by
  induction k with
  | zero =>
      refine ⟨sampleNode, .start, rfl, rfl, fun b => ⟨rfl, ⟨rfl, rfl, rfl⟩, rfl, fun _ _ _ _ => rfl,
        rfl, rfl, Nat.zero_le _, fun _ => Nat.zero_le _⟩⟩
  | succ k ih =>
      obtain ⟨s, run, hblank⟩ := ih (Nat.le_of_succ_le hk)
      obtain ⟨p, hp⟩ := pool_count run
      have hfits : k < idSpace := lt_of_lt_of_le hk (by decide)
      obtain ⟨t, run', ht⟩ := run_submitCount run (hblank.opened 2) rfl hp.indexed hfits
      refine ⟨_, run'.step trivial (.clearMempoolOnUpgrade t), ?_⟩
      dsimp only
      rw [ht]
      exact blank_round hblank hp.indexed hk

theorem readyBySeq_counted {s : StableState (World Unit)} {b : UInt8} {k : Nat} {p : Pool}
    (h : Open s b k) (hs : Indexed s.pendingMaps p) : (countedState s b k).readyBySeq =
      s.readyBySeq.insert ⟨s.queueMeta.tail, (countEnvelope b k).txId⟩ (countEnvelope b k).txId := by
  have hs' : Indexed (noncedState s b).pendingMaps p := hs
  obtain ⟨hashes, queueMeta, chainState, heq⟩ := enqueuePending_eq (c := countCrypto) hs'
    (h.unpending hs) 0 countPrice (countEnvelope b k)
  rw [countedState, heq]
  rfl

theorem open_counted {s : StableState (World Unit)} {p : Pool} {k : Nat} (h : Blank k s)
    (hs : Indexed s.pendingMaps p) : Open (countedState s 2 k) 5 (k + 1) := by
  have hopen := h.opened 2
  have hfees := fees_counted s 2 k
  have hunseen (b : UInt8) (i : Nat) (hi : k + 1 ≤ i) (hlt : i < idSpace) :
      (countedState s 2 k).seenTx.get (countEnvelope b i).txId = none :=
    hopen.unseen_counted hs hi hlt
  have hs' : Indexed (noncedState s 2).pendingMaps p := hs
  have hother : countSender 5 ≠ countSender 2 := by decide
  have hnonces : s.senderExpectedNonce = .empty :=
    (congrArg StableState.senderExpectedNonce h.cleared).symm
  have hcurrent : s.pendingCurrentBySender = .empty :=
    (congrArg StableState.pendingCurrentBySender h.cleared).symm
  have hpending : s.pendingBySenderNonce = .empty :=
    (congrArg StableState.pendingBySenderNonce h.cleared).symm
  have hcounts : s.principalPendingCount = .empty :=
    (congrArg StableState.principalPendingCount h.cleared).symm
  obtain ⟨hashes, queueMeta, chainState, heq⟩ := enqueuePending_eq (c := countCrypto) hs'
    (hopen.unpending hs) 0 countPrice (countEnvelope 2 k)
  rw [countedState, heq] at hfees hunseen ⊢
  refine ⟨hopen.world, hfees ▸ hopen.fees, hopen.unsuppressed, hunseen, ?_, ?_, ?_, fun key => ?_⟩
  · dsimp only [noncedState]
    rw [hnonces, OrdMap.get_insert, if_neg hother]
    rfl
  · dsimp only [noncedState]
    rw [hcurrent, OrdMap.get_insert, if_neg hother]
    rfl
  · dsimp only [noncedState]
    rw [hpending, OrdMap.len_insert_of_get_none _ rfl]
    rfl
  · dsimp only [noncedState]
    rw [hcounts, OrdMap.get_insert]
    split_ifs
    · exact le_rfl
    · exact Nat.zero_le _

theorem ready_decodes {c : Crypto} {s : StableState (World Unit)} {p : Pool}
    (hp : Consistent c False s p) {e : ReadySeqKey × TxId} (he : e ∈ s.readyBySeq.entries) :
    (queueItem c s e).isSome := by
  have hindexes := mempoolIndexes_of_consistent hp
  obtain ⟨key, hkey, -⟩ := (hindexes.ready_seq e.2 e.1).mp (OrdMap.mem_entries.mp he)
  obtain ⟨pending, hpending⟩ := Option.isSome_iff_exists.mp
    ((hindexes.ready_pending e.2).mp (Option.isSome_iff_exists.mpr ⟨key, hkey⟩))
  obtain ⟨stored, hstored⟩ := (hindexes.stored e.2 pending hpending).1
  rw [queueItem_some.mpr ⟨stored, hstored, rfl⟩]
  rfl

theorem entries_two {a b e : ReadySeqKey × TxId} (hne : a.1 ≠ b.1) :
    e ∈ ((OrdMap.empty.insert a.1 a.2).insert b.1 b.2).entries ↔ e = b ∨ e = a := by
  obtain ⟨key, id⟩ := e
  rw [OrdMap.mem_entries, OrdMap.get_insert, OrdMap.get_insert]
  by_cases hb : key = b.1
  · rw [if_pos hb, Option.some.injEq]
    constructor
    · exact fun h => .inl (Prod.ext hb h.symm)
    · rintro (rfl | rfl)
      · rfl
      · exact absurd hb hne
  · by_cases ha : key = a.1
    · simp [ha, Prod.ext_iff, hne, eq_comm]
    · simp [ha, hb, Prod.ext_iff]

theorem two_queued {k : Nat} (hk : k ≤ u64Max) :
    ∃ (s : NodeState Unit) (id id' : TxId), CountRun s ∧ id' ≠ id ∧
      ∀ e, e ∈ s.chain.readyBySeq.entries ↔
        e = (⟨saturatingAdd u64Max k 1, id'⟩, id') ∨ e = (⟨k, id⟩, id) := by
  have hfits : k + 1 < idSpace := lt_of_le_of_lt (Nat.succ_le_succ hk) (by decide)
  obtain ⟨s, run, hblank⟩ := blank_rounds k hk
  obtain ⟨p, hp⟩ := pool_count run
  obtain ⟨t, run', ht⟩ :=
    run_submitCount run (hblank.opened 2) rfl hp.indexed (Nat.lt_of_succ_lt hfits)
  obtain ⟨q, hq⟩ := pool_count run'
  have hopen : Open t.chain 5 (k + 1) := ht ▸ open_counted hblank hp.indexed
  obtain ⟨u, run'', hu⟩ := run_submitCount run' hopen rfl hq.indexed hfits
  have hempty : s.chain.readyBySeq = .empty :=
    (congrArg StableState.readyBySeq hblank.cleared).symm
  have htail : t.chain.queueMeta.tail = saturatingAdd u64Max k 1 := by
    have hpush : s.chain.queueMeta.push.2.tail = saturatingAdd u64Max s.chain.queueMeta.tail 1 := rfl
    rw [ht, queueMeta_counted, hpush, hblank.tail]
  have hne : (countEnvelope 5 (k + 1)).txId ≠ (countEnvelope 2 k).txId :=
    txId_count_ne hfits (Nat.lt_of_succ_lt hfits) (Nat.succ_ne_self k)
  have hready : u.chain.readyBySeq =
      (OrdMap.empty.insert ⟨k, (countEnvelope 2 k).txId⟩ (countEnvelope 2 k).txId).insert
        ⟨saturatingAdd u64Max k 1, (countEnvelope 5 (k + 1)).txId⟩
        (countEnvelope 5 (k + 1)).txId := by
    rw [hu, readyBySeq_counted hopen hq.indexed, htail, ht,
      readyBySeq_counted (hblank.opened 2) hp.indexed, hblank.tail, hempty]
  refine ⟨u, _, _, run'', hne, fun e => ?_⟩
  rw [hready]
  exact entries_two (a := (⟨k, (countEnvelope 2 k).txId⟩, (countEnvelope 2 k).txId))
    (b := (⟨_, (countEnvelope 5 (k + 1)).txId⟩, (countEnvelope 5 (k + 1)).txId))
    (fun h => hne (congrArg ReadySeqKey.txHash h).symm)

theorem queue_snapshots_enumerate_two : ∃ s : NodeState Unit, CountRun s ∧
    (∃ a ∈ s.chain.readyBySeq.entries, ∃ b ∈ s.chain.readyBySeq.entries, a ≠ b) ∧
      Enumerates countCrypto s.chain := by
  obtain ⟨s, id, id', run, hne, hentries⟩ := two_queued (Nat.zero_le u64Max)
  obtain ⟨p, hp⟩ := pool_count run
  have hlow {i : TxId} {k : ReadyKey} (hk : s.chain.readyKeyByTxId.get i = some k) :
      k.seq ≠ u64Max := by
    have hget := ((mempoolIndexes_of_consistent hp).ready_seq i _).mpr ⟨k, hk, rfl⟩
    rcases (hentries (⟨k.seq, i⟩, i)).mp (OrdMap.mem_entries.mpr hget) with h | h
    · have hseq : k.seq = saturatingAdd u64Max 0 1 := congrArg (fun e => e.1.seq) h
      rw [hseq]
      decide
    · have hseq : k.seq = 0 := congrArg (fun e => e.1.seq) h
      rw [hseq]
      decide
  refine ⟨s, run, ⟨_, (hentries _).mpr (.inl rfl), _, (hentries _).mpr (.inr rfl),
    fun h => hne (congrArg Prod.snd h)⟩, ?_⟩
  exact queue_snapshots_enumerate run (fun _ _ _ _ hi _ hlast => absurd hlast (hlow hi))
    s.chain.txStore

-- after 2^64 - 1 submissions two transactions share the last sequence number
theorem saturated_queue_never_ends : ∃ s : NodeState Unit, CountRun s ∧
    ∀ n items, ¬ Paging.Walk (snapshotPage countCrypto s.chain) none (List.replicate n 1) items := by
  obtain ⟨s, id, id', run, hne, hentries⟩ := two_queued (le_refl u64Max)
  obtain ⟨p, hp⟩ := pool_count run
  refine ⟨s, run, walk_stands_still ?_ (fun e he => ready_decodes hp he) ?_⟩
  · intro e he
    rcases (hentries e).mp he with rfl | rfl
    · rfl
    · rfl
  · exact ⟨_, (hentries _).mpr (.inl rfl), _, (hentries _).mpr (.inr rfl),
      fun h => hne (congrArg Prod.snd h)⟩

end Kasane.Node
