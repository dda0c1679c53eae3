import Kasane.Chain.Bids
import Kasane.Chain.BaseFee
import Kasane.Chain.NonceCache
import Mathlib.Data.List.Perm.Subperm

namespace Kasane.Chain

open BigEndian Codec Word Blob

variable {W : Type} {c : Crypto} {evm : Evm W} {counting : Prop}

-- the pool only loses transactions, and those that stay keep their record
structure Fewer (s t : StableState W) : Prop where
  pending : ∀ key id, t.pendingBySenderNonce.get key = some id →
    s.pendingBySenderNonce.get key = some id
  store : Forgets s t

-- and they keep their fee key
structure Shrinks (s t : StableState W) : Prop extends Fewer s t where
  fees : ∀ key id, t.pendingFeeIndex.get key = some id → s.pendingFeeIndex.get key = some id
  baseFee : t.chainState.baseFee = s.chainState.baseFee

theorem Shrinks.of_eq {s t : StableState W} (hpending : t.pendingBySenderNonce = s.pendingBySenderNonce)
    (hfees : t.pendingFeeIndex = s.pendingFeeIndex) (hstore : Forgets s t)
    (hbase : t.chainState.baseFee = s.chainState.baseFee) : Shrinks s t :=
  ⟨⟨fun _ _ hget => hpending ▸ hget, hstore⟩, fun _ _ hget => hfees ▸ hget, hbase⟩

theorem Shrinks.refl (s : StableState W) : Shrinks s s := .of_eq rfl rfl (.of_eq rfl) rfl

theorem Shrinks.trans {s t u : StableState W} (h : Shrinks s t) (h' : Shrinks t u) : Shrinks s u :=
  ⟨⟨fun key id hget => h.pending key id (h'.pending key id hget), h.store.trans h'.store⟩,
    fun key id hget => h.fees key id (h'.fees key id hget), h'.baseFee.trans h.baseFee⟩

theorem fewer_of_sub {s t : StableState W} {p q : Pool} (h : Indexed s.pendingMaps p)
    (ht : Indexed t.pendingMaps q) (hsub : ∀ id e, q.entry id = some e → p.entry id = some e)
    (hforgets : Forgets s t) : Fewer s t := by
  refine ⟨?_, hforgets⟩
  intro key id hget
  obtain ⟨j, e, hj, rfl, rfl⟩ := (ht.bySender key id).mp hget
  exact h.bySender.get_some (hsub j e hj)

theorem shrinks_of_sub {s t : StableState W} {p q : Pool} (h : Indexed s.pendingMaps p)
    (ht : Indexed t.pendingMaps q) (hsub : ∀ id e, q.entry id = some e → p.entry id = some e)
    (hforgets : Forgets s t) (hbase : t.chainState.baseFee = s.chainState.baseFee) : Shrinks s t := by
  refine ⟨fewer_of_sub h ht hsub hforgets, ?_, hbase⟩
  intro key id hget
  obtain ⟨j, e, hj, rfl, rfl⟩ := (ht.feeIndex key id).mp hget
  exact h.feeIndex.get_some (hsub j e hj)

theorem shrinks_pruneStep {step : PruneStep} {s t : StableState W} (h : step.run c s = .ok t) :
    Shrinks s t := by
  have hforgets := forgets_pruneStep h
  cases step with
  | reclaim ptr =>
      rw [PruneStep.run] at h
      split at h
      · obtain rfl := Except.ok.inj h
        exact .of_eq rfl rfl hforgets rfl
      · exact absurd h (by simp)
  | removeFeeIndex id =>
      obtain rfl := Except.ok.inj h
      rw [removePendingFeeIndexByTxId] at hforgets ⊢
      split
      · exact .refl s
      · exact ⟨⟨fun _ _ hget => hget, .of_eq rfl⟩, fun _ _ hget => get_of_remove hget, rfl⟩
  | decrementPrincipal id =>
      obtain rfl := Except.ok.inj h
      obtain ⟨counts, heq⟩ := decrementPrincipalPendingCountForTx_eq c s id
      rw [heq] at hforgets ⊢
      exact .of_eq rfl rfl hforgets rfl
  | removeEthTxHash id =>
      obtain rfl := Except.ok.inj h
      obtain ⟨index, heq⟩ := removeEthTxHashIndexForTxId_eq c s id
      rw [heq] at hforgets ⊢
      exact .of_eq rfl rfl hforgets rfl
  | _ =>
      obtain rfl := Except.ok.inj h
      exact .of_eq rfl rfl hforgets rfl

theorem pruneClosed_shrinks (s : StableState W) : PruneClosed c (Shrinks s) where
  step := fun _ _ _ h hrun => h.trans (shrinks_pruneStep hrun)
  bookkeeping := fun _ _ _ _ h => ⟨⟨h.pending, h.store⟩, h.fees, h.baseFee⟩

theorem pendingCount_mono {s t : StableState W} {q : Pool} (ht : Consistent c counting t q)
    (h : Fewer s t) (who : Principal) :
    pendingCount c t.txStore t.pendingBySenderNonce who ≤
      pendingCount c s.txStore s.pendingBySenderNonce who := by
  have hstore (key : SenderNonceKey) (id : TxId) (hget : t.pendingBySenderNonce.get key = some id) :
      t.txStore.get id = s.txStore.get id := by
    obtain ⟨j, e, hj, -, rfl⟩ := (ht.indexed.bySender key id).mp hget
    obtain ⟨value, tx, hvalue, -⟩ := ht.backed.stored hj
    rw [hvalue, h.store _ value hvalue]
  rw [pendingCount_congr hstore]
  have hsub : t.pendingBySenderNonce.entries ⊆ s.pendingBySenderNonce.entries := by
    rintro ⟨key, id⟩ hmem
    exact OrdMap.mem_entries.mpr (h.pending key id (OrdMap.mem_entries.mp hmem))
  exact (t.pendingBySenderNonce.entries_nodup.subperm hsub).countP_le _

theorem retires_of_dropped {maxTxs : Nat} {s : StableState W} {p : Pool}
    (h : Consistent c counting s p) (m : OrdMap Principal Nat) {drops : List QueuedDrop}
    (hselected : (drops.map QueuedDrop.txId).Subperm
      (selectReadyCandidates c s s.chainState.baseFee maxTxs)) :
    ∃ q, Retires c counting { s with decodeSuppressUntil := m }
      (applyDrops c evm { s with decodeSuppressUntil := m } drops) p q
      (drops.map QueuedDrop.txId) := by
  have hs : Consistent c counting { s with decodeSuppressUntil := m } p :=
    ⟨h.indexed, h.backed, h.archived, h.bounded, h.counted⟩
  exact retires_applyDrops evm hs
    ((pending_selectReady (c := c) h.indexed s.chainState.baseFee maxTxs).subperm hselected)

-- the fee index orders the pool by what each transaction is worth at the current base fee
def FeesCurrent (c : Crypto) (s : StableState W) : Prop :=
  ∀ key id, s.pendingFeeIndex.get key = some id →
    key.effectiveGasPrice = repricedFee c s.txStore s.chainState.baseFee id

theorem feesCurrent_init (world : W) : FeesCurrent c (StableState.init world) :=
  fun _ _ h => absurd h (by simp [StableState.init])

theorem FeesCurrent.shrinks {s t : StableState W} {q : Pool} (h : FeesCurrent c s)
    (ht : Consistent c counting t q) (hshrinks : Shrinks s t) : FeesCurrent c t := by
  intro key id hget
  obtain ⟨j, e, hj, -, rfl⟩ := (ht.indexed.feeIndex key id).mp hget
  obtain ⟨value, tx, hvalue, -⟩ := ht.backed.stored hj
  rw [h key j (hshrinks.fees key j hget), hshrinks.baseFee, repricedFee, repricedFee, hvalue,
    hshrinks.store j value hvalue]

theorem feesCurrent_rebuilt {u : StableState W}
    (h : ∀ id ∈ u.pendingBySenderNonce.values, ∃ bytes tx, u.txStore.get id = some bytes ∧
      StoredTx.tryFrom c bytes = .ok tx) :
    FeesCurrent c (rebuildPendingFeeIndexForBaseFee c u u.chainState.baseFee) := by
  rw [rebuildPendingFee_eq _ h]
  intro key id hget
  have hkey := (OrdMap.get_foldl_insert
    (fun id => (⟨repricedFee c u.txStore u.chainState.baseFee id, id⟩ : PendingFeeKey)) (fun id => id)
    u.pendingBySenderNonce.values (fun a _ b _ hab => congrArg PendingFeeKey.txHash hab) .empty key
    id).mp hget
  simp only [OrdMap.get_empty, reduceCtorEq, and_false, or_false] at hkey
  obtain ⟨j, -, rfl, rfl⟩ := hkey
  rfl

theorem feesCurrent_enqueued {s : StableState W} {p : Pool} {sender : Address} {nonce price : Nat}
    {envelope : StoredTxBytes} {stored : StoredTx} (h : FeesCurrent c s)
    (hs : Consistent c counting s p) (hvacant : ∀ j f, p.entry j = some f → f.key.sender ≠ sender)
    (hfresh : s.seenTx.get envelope.txId = none) (hok : StoredTx.tryFrom c envelope = .ok stored)
    (hprice : envelope.priceAt s.chainState.baseFee = some price) :
    FeesCurrent c (enqueuePending c s sender nonce price envelope) := by
  have hbase := (sameFees_enqueuePending (c := c) s sender nonce price envelope).baseFee
  obtain ⟨hashes, queueMeta, chainState, heq⟩ :=
    enqueuePending_eq (c := c) hs.indexed hvacant nonce price envelope
  rw [heq] at hbase ⊢
  intro key id hget
  dsimp only at hget hbase ⊢
  rw [hbase]
  rw [OrdMap.get_insert] at hget
  split_ifs at hget with hkey
  · obtain rfl := Option.some.inj hget
    rw [hkey, repricedFee, OrdMap.get_insert, if_pos rfl, Option.map_some, hok, tryFrom_stored hok]
    exact (congrArg (Option.getD · 0) hprice).symm
  · have hne : id ≠ envelope.txId := by
      rintro rfl
      obtain ⟨j, e, hj, -, rfl⟩ := (hs.indexed.feeIndex key envelope.txId).mp hget
      obtain ⟨mark, hmark⟩ := hs.backed.marked hj
      exact absurd (hfresh.symm.trans hmark) (by simp)
    rw [h key id hget, repricedFee, repricedFee, OrdMap.get_insert, if_neg hne]

-- the state that an accepted transaction is queued into
structure Cleared (c : Crypto) (counting : Prop) (s v : StableState W) (sender : Address)
    (p : Pool) : Prop where
  consistent : Consistent c counting v p
  vacant : ∀ j f, p.entry j = some f → f.key.sender ≠ sender
  room : v.pendingBySenderNonce.len < maxPendingGlobal
  seenTx : v.seenTx = s.seenTx
  shrinks : Shrinks s v

theorem vacant_of_current {s : StableState W} {p : Pool} {sender : Address}
    (h : Consistent c counting s p) (hcurrent : s.pendingCurrentBySender.get sender = none) :
    ∀ j f, p.entry j = some f → f.key.sender ≠ sender := by
  rintro j f hj rfl
  have hget : s.pendingCurrentBySender.get f.key.sender = some j := h.indexed.current.get_some hj
  exact absurd (hcurrent.symm.trans hget) (by simp)

theorem pending_of_current {s : StableState W} {p : Pool} {sender : Address} {id : TxId}
    (h : Consistent c counting s p) (hcurrent : s.pendingCurrentBySender.get sender = some id) :
    ∃ e, p.entry id = some e ∧ e.key.sender = sender := by
  obtain ⟨j, e, hj, hsender, rfl⟩ := (h.indexed.current sender id).mp hcurrent
  exact ⟨e, hj, hsender⟩

theorem pending_of_first {s : StableState W} {p : Pool} {key : PendingFeeKey} {id : TxId}
    (h : Consistent c counting s p) (hfirst : s.pendingFeeIndex.first = some (key, id)) :
    ∃ e, p.entry id = some e := by
  obtain ⟨j, e, hj, -, rfl⟩ := (h.indexed.feeIndex key id).mp (OrdMap.first_get hfirst)
  exact ⟨e, hj⟩

theorem cleared_accepted {s : StableState W} {p : Pool} {sender : Address}
    (h : Consistent c counting s p) (hcurrent : s.pendingCurrentBySender.get sender = none)
    (hroom : s.pendingBySenderNonce.len < maxPendingGlobal) : Cleared c counting s s sender p :=
  ⟨h, vacant_of_current h hcurrent, hroom, rfl, .refl s⟩

theorem cleared_replaced {s : StableState W} {p : Pool} {id : TxId} {e : PoolEntry}
    (h : Consistent c counting s p) (hid : p.entry id = some e) (evm : Evm W) :
    Cleared c counting s (replacePendingForSender c s e.key.sender id) e.key.sender (p.erase id) := by
  obtain ⟨⟨hashes, locs, ring, ringState, heq⟩, -⟩ := replacePending_effect (c := c) h.indexed hid
  have hpending : (replacePendingForSender c s e.key.sender id).pendingBySenderNonce =
      s.pendingBySenderNonce.remove e.key := by
    rw [heq]
    rfl
  have hreplaced := consistent_replacePending h hid
  refine ⟨hreplaced, ?_, len_erase h hid hpending, ?_, ?_⟩
  · intro j f hj hsame
    obtain rfl := p.one_per_sender (Pool.entry_erase hj) hid hsame
    exact absurd ((p.erase_self j).symm.trans hj) (by simp)
  · rw [heq]
    rfl
  · refine shrinks_of_sub h.indexed hreplaced.indexed (fun _ _ hj => Pool.entry_erase hj)
      (forgets_replaced evm s e.key.sender id) ?_
    rw [heq]
    rfl

theorem cleared_evicted {s : StableState W} {p : Pool} {id : TxId} {e : PoolEntry} {sender : Address}
    (h : Consistent c counting s p) (hid : p.entry id = some e) (evm : Evm W)
    (hcurrent : s.pendingCurrentBySender.get sender = none) :
    Cleared c counting s (dropPending c evm s id .replaced none none) sender (p.erase id) := by
  obtain ⟨nonces, ⟨hashes, locs, ring, ringState, heq⟩, -⟩ :=
    dropPending_effect (c := c) evm h.indexed hid .replaced none none
  have hpending : (dropPending c evm s id .replaced none none).pendingBySenderNonce =
      s.pendingBySenderNonce.remove e.key := by
    rw [heq]
    rfl
  have hdropped : Consistent c counting (dropPending c evm s id .replaced none none) (p.erase id) :=
    consistent_dropPending h hid .replaced none none
  refine ⟨hdropped, ?_, len_erase h hid hpending, ?_, ?_⟩
  · exact fun j f hj => vacant_of_current h hcurrent j f (Pool.entry_erase hj)
  · rw [heq]
    rfl
  · refine shrinks_of_sub h.indexed hdropped.indexed (fun _ _ hj => Pool.entry_erase hj)
      (forgets_dropped s id .replaced none none) ?_
    rw [heq]
    rfl

theorem pendingCount_enqueued {s v : StableState W} {p : Pool} {sender : Address}
    {nonce price : Nat} {envelope : StoredTxBytes} {stored : StoredTx}
    (h : Cleared c counting s v sender p) (hfresh : s.seenTx.get envelope.txId = none)
    (hok : StoredTx.tryFrom c envelope = .ok stored) (who : Principal) :
    pendingCount c (enqueuePending c v sender nonce price envelope).txStore
        (enqueuePending c v sender nonce price envelope).pendingBySenderNonce who =
      pendingCount c v.txStore v.pendingBySenderNonce who +
        (if envelope.callerPrincipal = who then 1 else 0) := by
  obtain ⟨hashes, queueMeta, chainState, heq⟩ :=
    enqueuePending_eq (c := c) h.consistent.indexed h.vacant nonce price envelope
  have hkey := pendingKey_free h.consistent h.vacant nonce
  have hstore (key : SenderNonceKey) (id : TxId) (hget : v.pendingBySenderNonce.get key = some id) :
      (v.txStore.insert envelope.txId envelope).get id = v.txStore.get id := by
    obtain ⟨j, e, hj, -, rfl⟩ := (h.consistent.indexed.bySender key id).mp hget
    refine (OrdMap.get_insert ..).trans (if_neg ?_)
    rintro rfl
    obtain ⟨mark, hmark⟩ := h.consistent.backed.marked hj
    rw [h.seenTx] at hmark
    exact absurd (hfresh.symm.trans hmark) (by simp)
  have hwho : storedPrincipal c (v.txStore.insert envelope.txId envelope) envelope.txId =
      some envelope.callerPrincipal := by
    rw [← callerPrincipal_tryFrom hok]
    exact storedPrincipal_of_ok (by rw [OrdMap.get_insert, if_pos rfl]) hok
  have hinsert := OrdMap.countP_insert v.pendingBySenderNonce ⟨sender, nonce⟩ envelope.txId
    (fun e => decide (storedPrincipal c (v.txStore.insert envelope.txId envelope) e.2 = some who)) hkey
  rw [heq, ← pendingCount_congr hstore who]
  simp only [hwho, Option.some.injEq, decide_eq_true_eq] at hinsert
  exact hinsert

theorem pendingCount_replaced {s : StableState W} {p : Pool} {id : TxId} {e : PoolEntry}
    (h : Consistent c counting s p) (hid : p.entry id = some e) (who : Principal) :
    pendingCount c (replacePendingForSender c s e.key.sender id).txStore
        (replacePendingForSender c s e.key.sender id).pendingBySenderNonce who +
      (if storedPrincipal c s.txStore id = some who then 1 else 0) =
      pendingCount c s.txStore s.pendingBySenderNonce who := by
  obtain ⟨⟨hashes, locs, ring, ringState, heq⟩, -⟩ := replacePending_effect (c := c) h.indexed hid
  have hremove := OrdMap.countP_remove s.pendingBySenderNonce e.key id
    (fun f => decide (storedPrincipal c s.txStore f.2 = some who)) (h.indexed.bySender.get_some hid)
  have hstore (key : SenderNonceKey) (j : TxId)
      (hget : (s.pendingBySenderNonce.remove e.key).get key = some j) :
      (s.txStore.remove id).get j = s.txStore.get j := by
    refine (OrdMap.get_remove ..).trans (if_neg ?_)
    rintro rfl
    rw [OrdMap.get_remove] at hget
    split_ifs at hget with hkey
    obtain ⟨i, f, hi, rfl, rfl⟩ := (h.indexed.bySender key j).mp hget
    exact hkey (congrArg PoolEntry.key (Option.some.inj (hi.symm.trans hid)))
  rw [heq]
  change pendingCount c (s.txStore.remove id) (s.pendingBySenderNonce.remove e.key) who + _ = _
  rw [pendingCount_congr hstore who]
  simp only [decide_eq_true_eq] at hremove
  exact hremove

theorem looked_eq (evm : Evm W) (s : StableState W) (m : OrdMap Principal Nat) (sender : Address) :
    ∃ nonces, (expectedNonceForSender evm { s with decodeSuppressUntil := m } sender).2 =
      { s with decodeSuppressUntil := m, senderExpectedNonce := nonces } := by
  obtain ⟨expected, nonces, heq⟩ := expectedNonceForSender_eq evm { s with decodeSuppressUntil := m } sender
  exact ⟨nonces, congrArg Prod.snd heq⟩

-- the submission replaces a transaction that another principal relayed, while its own is full
structure Overfills (c : Crypto) (evm : Evm W) (s : StableState W) (now : Nat) (call : SubmitCall)
    (envelope : StoredTxBytes) (sender : Address) (nonce price : Nat) (old : TxId) : Prop where
  submitted : Submitted c call envelope sender nonce
  unsuppressed : (isPrincipalDecodeSuppressed s call.principal now).1 = false
  reaches : Reaches s envelope price
  expected : (expectedNonceForSender evm s sender).1 = nonce
  current : s.pendingCurrentBySender.get sender = some old
  outbids : ∃ q, effectiveGasPriceForTx c s old s.chainState.baseFee = some q ∧ q < price
  named : envelope.callerPrincipal.bytes ≠ []
  other : storedPrincipal c s.txStore old ≠ some envelope.callerPrincipal
  full : maxPendingPerPrincipal ≤
    pendingCount c s.txStore s.pendingBySenderNonce envelope.callerPrincipal

def SubmitCall.Fits (c : Crypto) (evm : Evm W) (s : StableState W) (now : Nat) (call : SubmitCall) :
    Prop :=
  ∀ envelope sender nonce price old, ¬ Overfills c evm s now call envelope sender nonce price old

def CapsKept (c : Crypto) (evm : Evm W) (s : StableState W) : ChainOp → Prop
  | .submitTx now raw who => SubmitCall.Fits c evm s now (.tx .ethSigned raw who)
  | .submitIcTxInput now who canisterId tx => SubmitCall.Fits c evm s now (.ic who canisterId tx)
  | op => op.Silent c s

def PrincipalsCapped (c : Crypto) (s : StableState W) : Prop :=
  ∀ who, who.bytes ≠ [] →
    pendingCount c s.txStore s.pendingBySenderNonce who ≤ maxPendingPerPrincipal

theorem PrincipalsCapped.fewer {s t : StableState W} {q : Pool} (h : PrincipalsCapped c s)
    (ht : Consistent c counting t q) (hfewer : Fewer s t) : PrincipalsCapped c t :=
  fun who hwho => (pendingCount_mono ht hfewer who).trans (h who hwho)

theorem count_of_consistent {s : StableState W} {p : Pool} (h : Consistent c True s p)
    {who : Principal} (hwho : who.bytes ≠ []) :
    countPendingForPrincipal s who = pendingCount c s.txStore s.pendingBySenderNonce who := by
  rw [countPendingForPrincipal, if_neg hwho]
  exact h.counted trivial who

theorem capped_enqueued {s v : StableState W} {q : Pool} {sender : Address} {nonce price : Nat}
    {envelope : StoredTxBytes} {stored : StoredTx} (h : PrincipalsCapped c s)
    (hv : Cleared c counting s v sender q) (hfresh : s.seenTx.get envelope.txId = none)
    (hok : StoredTx.tryFrom c envelope = .ok stored)
    (hroom : envelope.callerPrincipal.bytes ≠ [] →
      pendingCount c v.txStore v.pendingBySenderNonce envelope.callerPrincipal <
        maxPendingPerPrincipal) :
    PrincipalsCapped c (enqueuePending c v sender nonce price envelope) := by
  intro who hwho
  rw [pendingCount_enqueued hv hfresh hok]
  split_ifs with hsame
  · subst hsame
    exact hroom hwho
  · exact h.fewer hv.consistent hv.shrinks.toFewer who hwho

theorem capped_ran {s : StableState W} {p : Pool} {call : SubmitCall} {now : Nat}
    {r : Except ChainError TxId × StableState W} (h : PrincipalsCapped c s)
    (hs : Consistent c True s p) (hid : call.Identified) (hfits : call.Fits c evm s now)
    (hran : Ran c evm call now s r) : PrincipalsCapped c r.2 := by
  cases hran with
  | barred e m => exact h
  | @reached envelope sender nonce price r m submitted unsuppressed reaches admitted =>
      obtain ⟨nonces, hlooked⟩ := looked_eq evm s m sender
      have hok := (tryFrom_submitted submitted).mpr hid
      have hu : Consistent c True { s with decodeSuppressUntil := m, senderExpectedNonce := nonces } p :=
        ⟨hs.indexed, hs.backed, hs.archived, hs.bounded, hs.counted⟩
      have hcapped : PrincipalsCapped c
          { s with decodeSuppressUntil := m, senderExpectedNonce := nonces } := h
      rw [hlooked] at admitted
      cases admitted with
      | misnumbered e other => exact h
      | conflict current higher => exact h
      | full e vacant => exact h
      | accepted vacant uncrowded room =>
          refine capped_enqueued hcapped (cleared_accepted hu vacant room) reaches.fresh hok
            (fun hwho => ?_)
          rw [← count_of_consistent hu hwho]
          exact uncrowded
      | evicted vacant uncrowded first lower =>
          obtain ⟨e, he⟩ := pending_of_first hs first
          have hcleared := cleared_evicted hu he evm vacant
          refine capped_enqueued hcapped hcleared reaches.fresh hok (fun hwho => ?_)
          refine lt_of_le_of_lt (pendingCount_mono hcleared.consistent hcleared.shrinks.toFewer _) ?_
          rw [← count_of_consistent hu hwho]
          exact uncrowded
      | @replaced old q expected current priced lower =>
          obtain ⟨e, he, rfl⟩ := pending_of_current hs current
          have hcleared := cleared_replaced hu he evm
          refine capped_enqueued hcapped hcleared reaches.fresh hok (fun hwho => ?_)
          have hcount := pendingCount_replaced hu he envelope.callerPrincipal
          have hbound := hcapped _ hwho
          split_ifs at hcount with hsame
          · omega
          · rw [Nat.add_zero] at hcount
            rw [hcount]
            refine not_le.mp (fun hfull => hfits envelope e.key.sender nonce price old ?_)
            exact ⟨submitted, unsuppressed, reaches, (expectedNonce_suppressed s m _).symm.trans expected,
              current, ⟨q, priced, lower⟩, hwho, hsame, hfull⟩

theorem feesCurrent_ran {s : StableState W} {p : Pool} {call : SubmitCall} {now : Nat}
    {r : Except ChainError TxId × StableState W} (h : FeesCurrent c s)
    (hs : Consistent c counting s p) (hid : call.Identified) (hran : Ran c evm call now s r) :
    FeesCurrent c r.2 := by
  cases hran with
  | barred e m => exact h
  | @reached envelope sender nonce price r m submitted unsuppressed reaches admitted =>
      obtain ⟨nonces, hlooked⟩ := looked_eq evm s m sender
      have hok := (tryFrom_submitted submitted).mpr hid
      have hu : Consistent c counting
          { s with decodeSuppressUntil := m, senderExpectedNonce := nonces } p :=
        ⟨hs.indexed, hs.backed, hs.archived, hs.bounded, hs.counted⟩
      have hcurrent : FeesCurrent c
          { s with decodeSuppressUntil := m, senderExpectedNonce := nonces } := h
      have henqueued {v : StableState W} {q : Pool} (hv : Cleared c counting
          { s with decodeSuppressUntil := m, senderExpectedNonce := nonces } v sender q) :
          FeesCurrent c (enqueuePending c v sender nonce price envelope) := by
        have hfees := hcurrent.shrinks hv.consistent hv.shrinks
        have hprice : envelope.priceAt v.chainState.baseFee = some price := by
          rw [hv.shrinks.baseFee]
          exact reaches.priced
        exact feesCurrent_enqueued hfees hv.consistent hv.vacant (hv.seenTx ▸ reaches.fresh) hok hprice
      rw [hlooked] at admitted
      cases admitted with
      | misnumbered e other => exact h
      | conflict current higher => exact h
      | full e vacant => exact h
      | accepted vacant uncrowded room => exact henqueued (cleared_accepted hu vacant room)
      | evicted vacant uncrowded first lower =>
          obtain ⟨e, he⟩ := pending_of_first hs first
          exact henqueued (cleared_evicted hu he evm vacant)
      | @replaced old q expected current priced lower =>
          obtain ⟨e, he, rfl⟩ := pending_of_current hs current
          exact henqueued (cleared_replaced hu he evm)

-- a pending transaction that a submission drives out is worth less than the one that comes in
def DisplacesCheaper (c : Crypto) (evm : Evm W) (s : StableState W) : Prop :=
  ∀ call now id r t, call.run c evm now s = (r, t) → (s.pendingMetaByTxId.get id).isSome →
    t.pendingMetaByTxId.get id = none →
      ∃ envelope sender nonce price, Submitted c call envelope sender nonce ∧ r = .ok envelope.txId ∧
        envelope.priceAt s.chainState.baseFee = some price ∧
        repricedFee c s.txStore s.chainState.baseFee id < price

theorem kept_of_enqueued {v : StableState W} {q : Pool} {sender : Address} {nonce price : Nat}
    {envelope : StoredTxBytes} {id : TxId} {s : StableState W} (hv : Cleared c counting s v sender q)
    (hgone : (enqueuePending c v sender nonce price envelope).pendingMetaByTxId.get id = none) :
    q.entry id = none := by
  rw [metas_enqueuePending, OrdMap.get_insert] at hgone
  split_ifs at hgone
  cases hentry : q.entry id with
  | none => rfl
  | some e =>
      have hmeta : v.pendingMetaByTxId.get id = some e.key :=
        hv.consistent.indexed.byTxId.get_some hentry
      exact absurd (hgone.symm.trans hmeta) (by simp)

theorem erased_of_gone {p : Pool} {id old : TxId} {e : PoolEntry} (hid : p.entry id = some e)
    (hgone : (p.erase old).entry id = none) : id = old := by
  rcases eq_or_ne id old with heq | hne
  · exact heq
  · rw [p.erase_of_ne hne] at hgone
    exact absurd (hgone.symm.trans hid) (by simp)

theorem repricedFee_eq {s : StableState W} {id : TxId} {baseFee q : Nat}
    (h : effectiveGasPriceForTx c s id baseFee = some q) : repricedFee c s.txStore baseFee id = q := by
  cases hdecoded : (s.txStore.get id).map (StoredTx.tryFrom c) with
  | none =>
      simp only [effectiveGasPriceForTx, storedTx, hdecoded] at h
      cases h
  | some decoded =>
      simp only [effectiveGasPriceForTx, storedTx, hdecoded] at h
      simp only [repricedFee, hdecoded]
      cases decoded with
      | error e => cases h
      | ok tx => exact congrArg (Option.getD · 0) h

theorem displacesCheaper {s : StableState W} {p : Pool} (h : FeesCurrent c s)
    (hs : Consistent c counting s p) : DisplacesCheaper c evm s := by
  intro call now id r t hrun hpending hgone
  have hran := ran_run evm hs call now
  rw [hrun] at hran
  obtain ⟨key, hkey⟩ := Option.isSome_iff_exists.mp hpending
  obtain ⟨f, hf, -⟩ : ∃ f, p.entry id = some f ∧ f.key = key := (hs.indexed.byTxId.get_own id key).mp hkey
  cases hran with
  | barred e m => exact absurd (hgone.symm.trans hkey) (by simp)
  | @reached envelope sender nonce price _ m submitted unsuppressed reaches admitted =>
      obtain ⟨nonces, hlooked⟩ := looked_eq evm s m sender
      have hu : Consistent c counting
          { s with decodeSuppressUntil := m, senderExpectedNonce := nonces } p :=
        ⟨hs.indexed, hs.backed, hs.archived, hs.bounded, hs.counted⟩
      rw [hlooked] at admitted
      cases admitted with
      | misnumbered e other => exact absurd (hgone.symm.trans hkey) (by simp)
      | conflict current higher => exact absurd (hgone.symm.trans hkey) (by simp)
      | full e vacant => exact absurd (hgone.symm.trans hkey) (by simp)
      | accepted vacant uncrowded room =>
          have hnone := kept_of_enqueued (cleared_accepted hu vacant room) hgone
          exact absurd (hnone.symm.trans hf) (by simp)
      | @evicted feeKey old vacant uncrowded first lower =>
          obtain ⟨e, he⟩ := pending_of_first hs first
          have hnone := kept_of_enqueued (cleared_evicted hu he evm vacant) hgone
          obtain rfl := erased_of_gone hf hnone
          refine ⟨envelope, sender, nonce, price, submitted, rfl, reaches.priced, ?_⟩
          rw [← h feeKey id (OrdMap.first_get first)]
          exact lower
      | @replaced old q expected current priced lower =>
          obtain ⟨e, he, rfl⟩ := pending_of_current hs current
          have hnone := kept_of_enqueued (cleared_replaced hu he evm) hgone
          obtain rfl := erased_of_gone hf hnone
          have hprice : effectiveGasPriceForTx c s id s.chainState.baseFee = some q := priced
          exact ⟨envelope, _, nonce, price, submitted, rfl, reaches.priced,
            (repricedFee_eq hprice).symm ▸ lower⟩

-- every operation but a submission: the pool shrinks, and its fees stay current
structure Upkeep (c : Crypto) (s t : StableState W) : Prop where
  fewer : Fewer s t
  fees : FeesCurrent c s → FeesCurrent c t

theorem upkeep_of_shrinks {s t : StableState W} {q : Pool} (h : Shrinks s t)
    (ht : Consistent c counting t q) : Upkeep c s t :=
  ⟨h.toFewer, fun hs => hs.shrinks ht h⟩

theorem fewer_rebuilt {s u : StableState W} (h : Fewer s u) (baseFee : Nat) :
    Fewer s (rebuildPendingFeeIndexForBaseFee c u baseFee) := by
  obtain ⟨index, keys, heq⟩ := rebuildPendingFee_frame (c := c) baseFee u
  rw [heq]
  exact ⟨h.pending, h.store⟩

theorem upkeep_committed {env : CallEnv} {maxTxs : Nat} {s t : StableState W}
    {outcome : ProduceBlockOutcome} {x : ExecState evm} {root : evm.Root} {world : W} {p : Pool}
    (h : Consistent c counting s p) (hc : Committed c evm env maxTxs s t outcome x root world)
    (hforgets : Forgets s t) : Upkeep c s t := by
  obtain ⟨⟨m, hstate⟩, -⟩ := prepareBlock_prepares c env maxTxs s
  have hcommit := hc.committed
  rw [hstate] at hcommit
  have hs (world : W) : Consistent c counting
      { s with world := world, decodeSuppressUntil := m } p :=
    ⟨h.indexed, h.backed, h.archived, h.bounded, h.counted⟩
  have hp := (pending_selectReady (c := c) h.indexed s.chainState.baseFee maxTxs).subperm hc.selected
  obtain ⟨u, q, hu, hsub, heq⟩ :=
    commitBlock_rebuilds (hs _) hp hc.txIds hc.txIds_few.2 hcommit
  subst heq
  refine ⟨fewer_rebuilt (fewer_of_sub h.indexed hu.indexed hsub ?_) _, fun _ => ?_⟩
  · obtain ⟨index, keys, hfee⟩ := rebuildPendingFee_frame (c := c) (W := W) u.chainState.baseFee u
    rw [hfee] at hforgets
    exact hforgets
  · exact feesCurrent_rebuilt (fun _ hid => stored_of_pending hu hid)

theorem upkeep_produceBlock {env : CallEnv} {maxTxs : Nat} {s t : StableState W} {p : Pool}
    {r : Except ChainError ProduceBlockOutcome} (h : Consistent c counting s p)
    (hrun : produceBlock c evm env maxTxs s = some (r, t)) : Upkeep c s t := by
  have hforgets := forgets_produceBlock hrun
  obtain ⟨q, hq⟩ := consistent_produceBlock h hrun
  cases produceBlock_cases hrun with
  | refused e m => exact upkeep_of_shrinks (.of_eq rfl rfl hforgets rfl) hq
  | dropped e m drops selected =>
      obtain ⟨q', hq'⟩ := @retires_of_dropped W c evm counting maxTxs s p h m drops selected
      have hquiet := quiet_applyDrops (c := c) evm { s with decodeSuppressUntil := m } drops
      exact upkeep_of_shrinks (shrinks_of_sub h.indexed hq'.consistent.indexed
        (fun _ _ hj => hq'.sub hj) hforgets hquiet.sameFees.baseFee) hq
  | unprepared e m prepared => exact upkeep_of_shrinks (.of_eq rfl rfl hforgets rfl) hq
  | committed hc => exact upkeep_committed h hc hforgets

theorem upkeep_rebuildRuntime (evm : Evm W) {s : StableState W} {p : Pool}
    (h : Consistent c counting s p) : Upkeep c s (rebuildPendingRuntimeIndexes c evm s) := by
  have hrecounted : Fewer s (recounted c s) := ⟨fun _ _ hget => hget, .of_eq rfl⟩
  have hfewer := fewer_rebuilt (c := c) hrecounted (recounted c s).chainState.baseFee
  have hcurrent : FeesCurrent c (rebuildPendingFeeIndexForBaseFee c (recounted c s)
      (recounted c s).chainState.baseFee) := feesCurrent_rebuilt (fun _ hid => stored_of_pending h hid)
  rw [rebuildPendingRuntimeIndexes]
  simp only [recount_eq h]
  rw [foldl_indexReadySeq]
  exact ⟨⟨hfewer.pending, hfewer.store⟩, fun _ => hcurrent⟩

theorem upkeep_op {op : ChainOp} {s t : StableState W} {p q : Pool} (h : Consistent c counting s p)
    (ht : Consistent c counting t q) (hcall : op.call = none) (hrun : op.Runs c evm s t) :
    Upkeep c s t := by
  cases hrun with
  | submitTx now txBytes who s => exact absurd hcall (by simp [ChainOp.call])
  | submitIcTxInput now who canisterId tx s => exact absurd hcall (by simp [ChainOp.call])
  | produceBlock returns => exact upkeep_produceBlock h returns
  | pruneBlocks retain maxOps s =>
      exact upkeep_of_shrinks ((pruneClosed_shrinks s).pruneBlocks retain maxOps (.refl s)) ht
  | interruptedPrune pruning k =>
      have hpruning := (pruneClosed_shrinks s).pruning (.refl s) pruning
      exact upkeep_of_shrinks ((pruneClosed_shrinks s).crashed _ _ k hpruning) ht
  | recoverPruneJournal s => exact upkeep_of_shrinks ((pruneClosed_shrinks s).recover (.refl s)) ht
  | rebuildPendingRuntimeIndexes s => exact upkeep_rebuildRuntime evm h

-- what the two submitting operations have in common
theorem submits_op {op : ChainOp} {call : SubmitCall} {s t : StableState W}
    (hcall : op.call = some call) (hrun : op.Runs c evm s t) :
    call.Identified ∧ ∃ now, t = (call.run c evm now s).2 ∧
      (CapsKept c evm s op → call.Fits c evm s now) := by
  cases hrun with
  | submitTx now txBytes who s =>
      obtain rfl := Option.some.inj hcall
      exact ⟨rfl, now, rfl, fun hfits => hfits⟩
  | submitIcTxInput now who canisterId tx s caller canister =>
      obtain rfl := Option.some.inj hcall
      exact ⟨⟨canister, caller⟩, now, rfl, fun hfits => hfits⟩
  | _ => exact absurd hcall (by simp [ChainOp.call])

theorem feesCurrent_op {op : ChainOp} {s t : StableState W} {p q : Pool} (h : FeesCurrent c s)
    (hs : Consistent c counting s p) (ht : Consistent c counting t q) (hrun : op.Runs c evm s t) :
    FeesCurrent c t := by
  cases hcall : op.call with
  | none => exact (upkeep_op hs ht hcall hrun).fees h
  | some call =>
      obtain ⟨hid, now, rfl, -⟩ := submits_op hcall hrun
      exact feesCurrent_ran h hs hid (ran_run evm hs call now)

theorem principalsCapped_op {op : ChainOp} {s t : StableState W} {p q : Pool}
    (h : PrincipalsCapped c s) (hs : Consistent c True s p) (ht : Consistent c True t q)
    (hkept : CapsKept c evm s op) (hrun : op.Runs c evm s t) : PrincipalsCapped c t := by
  cases hcall : op.call with
  | none => exact h.fewer ht (upkeep_op hs ht hcall hrun).fewer
  | some call =>
      obtain ⟨hid, now, rfl, hfits⟩ := submits_op hcall hrun
      exact capped_ran h hs hid (hfits hkept) (ran_run evm hs call now)

theorem silent_of_kept {op : ChainOp} {s : StableState W} (h : CapsKept c evm s op) :
    op.Silent c s := by
  cases op with
  | pruneBlocks retain maxOps => exact h
  | interruptedPrune retain maxOps cur block k => exact h
  | recoverPruneJournal => exact h
  | _ => trivial

theorem feesCurrent_run {allowed : StableState W → ChainOp → Prop} {world : W} {s : StableState W}
    (run : ChainRun c evm allowed (.init world) s) : FeesCurrent c s := by
  induction run with
  | start => exact feesCurrent_init world
  | step run _ runs ih =>
      obtain ⟨p, hs⟩ := consistent_run False (fun hfalse => hfalse.elim) run
      obtain ⟨q, ht⟩ := consistent_op hs (fun hfalse => hfalse.elim) runs
      exact feesCurrent_op ih hs ht runs

theorem principalsCapped_run {world : W} {s : StableState W}
    (run : ChainRun c evm (CapsKept c evm) (.init world) s) : PrincipalsCapped c s := by
  induction run with
  | start => exact fun who _ => Nat.zero_le _
  | step run ok runs ih =>
      obtain ⟨p, hs⟩ := consistent_run True (fun _ _ _ hok => silent_of_kept hok) run
      obtain ⟨q, ht⟩ := consistent_op hs (fun _ => silent_of_kept ok) runs
      exact principalsCapped_op ih hs ht ok runs

def pendingOfSender (s : StableState W) (sender : Address) : Nat :=
  s.pendingBySenderNonce.entries.countP (fun e => decide (e.1.sender = sender))

theorem pendingOfSender_le_one {s : StableState W} {p : Pool} (h : Consistent c counting s p)
    (sender : Address) : pendingOfSender s sender ≤ 1 := by
  rw [pendingOfSender, List.countP_eq_length_filter]
  have hnodup := s.pendingBySenderNonce.entries_nodup.filter (fun e => decide (e.1.sender = sender))
  have hentry (a : SenderNonceKey × TxId)
      (ha : a ∈ s.pendingBySenderNonce.entries.filter (fun e => decide (e.1.sender = sender))) :
      ∃ e, p.entry a.2 = some e ∧ e.key = a.1 ∧ a.1.sender = sender := by
    obtain ⟨hmem, hsender⟩ := List.mem_filter.mp ha
    obtain ⟨j, e, hj, hkey, hid⟩ := (h.indexed.bySender a.1 a.2).mp (OrdMap.mem_entries.mp hmem)
    exact ⟨e, hid ▸ hj, hkey, of_decide_eq_true hsender⟩
  cases hl : s.pendingBySenderNonce.entries.filter (fun e => decide (e.1.sender = sender)) with
  | nil => exact Nat.zero_le _
  | cons a l =>
      rw [hl] at hnodup hentry
      obtain ⟨e, he, hkey, hsender⟩ := hentry a (List.mem_cons_self ..)
      have hsub : a :: l ⊆ [a] := by
        intro b hb
        obtain ⟨f, hf, hfkey, hfsender⟩ := hentry b hb
        have hid : b.2 = a.2 := p.one_per_sender hf he
          ((hfkey ▸ hfsender).trans (hkey ▸ hsender).symm)
        obtain rfl := Option.some.inj ((hid ▸ hf).symm.trans he)
        exact List.mem_singleton.mpr (Prod.ext (hfkey.symm.trans hkey) hid)
      exact (hnodup.subperm hsub).length_le

structure Capped (c : Crypto) (s : StableState W) : Prop where
  total : s.pendingBySenderNonce.len ≤ maxPendingGlobal
  senders : ∀ sender, pendingOfSender s sender ≤ maxPendingPerSender
  principals : PrincipalsCapped c s

theorem pending_caps_kept {world : W} {s : StableState W} :
    (ChainRun c evm (fun _ _ => True) (.init world) s → DisplacesCheaper c evm s) ∧
      (ChainRun c evm (CapsKept c evm) (.init world) s → Capped c s) := by
  constructor
  · intro run
    obtain ⟨p, h⟩ := consistent_run False (fun hfalse => hfalse.elim) run
    exact displacesCheaper (feesCurrent_run run) h
  · intro run
    obtain ⟨p, h⟩ := consistent_run False (fun hfalse => hfalse.elim) run
    exact ⟨h.bounded, fun sender => (pendingOfSender_le_one h sender).trans (by decide),
      principalsCapped_run run⟩

theorem fits_of_few {s : StableState W} (h : s.pendingBySenderNonce.len < maxPendingPerPrincipal)
    (now : Nat) (call : SubmitCall) : call.Fits c evm s now :=
  fun _ _ _ _ _ hover => absurd (hover.full.trans (pendingCount_le ..)) (not_le.mpr h)

def submitBid (who : Principal) (sender price : UInt8) (s : StableState Unit) : StableState Unit :=
  (submitTx bidCrypto sampleEvm 0 .ethSigned (bidRaw sender 1 price) who s).2

theorem run_submitBid {allowed : StableState Unit → ChainOp → Prop} {s : StableState Unit}
    (who : Principal) (sender price : UInt8)
    (run : ChainRun bidCrypto sampleEvm allowed (.init ()) s)
    (ok : allowed s (.submitTx 0 (bidRaw sender 1 price) who)) :
    ChainRun bidCrypto sampleEvm allowed (.init ()) (submitBid who sender price s) :=
  run.step ok (.submitTx 0 (bidRaw sender 1 price) who s)

theorem outbid_caps_kept :
    DisplacesCheaper bidCrypto sampleEvm
        (submitBid samplePrincipal 1 20 (submitBid samplePrincipal 1 10 (.init ()))) ∧
      Capped bidCrypto
        (submitBid samplePrincipal 1 20 (submitBid samplePrincipal 1 10 (.init ()))) := by
  have hfirst : (StableState.init ()).pendingBySenderNonce.len < maxPendingPerPrincipal := by decide
  have hsecond : (submitBid samplePrincipal 1 10 (.init ())).pendingBySenderNonce.len <
      maxPendingPerPrincipal := by decide +kernel
  exact ⟨pending_caps_kept.1 (run_submitBid samplePrincipal 1 20
      (run_submitBid samplePrincipal 1 10 .start trivial) trivial),
    pending_caps_kept.2 (run_submitBid samplePrincipal 1 20
      (run_submitBid samplePrincipal 1 10 .start (fits_of_few hfirst 0 _)) (fits_of_few hsecond 0 _))⟩

def relayPrincipal : Principal := ⟨[8], by decide⟩

def crowd (n : Nat) : StableState Unit :=
  (List.range n).foldl (fun s i => submitBid samplePrincipal (UInt8.ofNat (i + 1)) 10 s) (.init ())

theorem run_crowd (n : Nat) :
    ChainRun bidCrypto sampleEvm (fun _ _ => True) (.init ()) (crowd n) := by
  induction n with
  | zero => exact .start
  | succ n ih =>
      rw [crowd, List.range_succ, List.foldl_append]
      exact run_submitBid samplePrincipal _ 10 ih trivial

def overfull : StableState Unit :=
  submitBid samplePrincipal 33 20 (submitBid relayPrincipal 33 10 (crowd 32))

theorem overfull_not_capped :
    ChainRun bidCrypto sampleEvm (fun _ _ => True) (.init ()) overfull ∧
      pendingCount bidCrypto overfull.txStore overfull.pendingBySenderNonce samplePrincipal = 33 ∧
      ¬ Capped bidCrypto overfull := by
  have hcount : pendingCount bidCrypto overfull.txStore overfull.pendingBySenderNonce
      samplePrincipal = 33 := by decide +kernel
  refine ⟨run_submitBid _ _ _ (run_submitBid _ _ _ (run_crowd 32) trivial) trivial, hcount, ?_⟩
  intro hcapped
  have hle := hcapped.principals samplePrincipal (by decide)
  rw [hcount] at hle
  exact absurd hle (by decide)

end Kasane.Chain
