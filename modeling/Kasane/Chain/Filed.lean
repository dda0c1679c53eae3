import Kasane.Chain.Commit
import Kasane.Chain.TxCodec
import Mathlib.Data.Set.Function

namespace Kasane.Chain

open BigEndian Codec Word Blob

variable {W : Type} {c : Crypto} {evm : Evm W}

def idPreimage (kind : TxKind) (raw : Bytes) (callerEvm : Option Address)
    (canisterId callerPrincipal : Option Bytes) : Bytes :=
  storedTxDomain ++ (kind.toU8 :: (raw ++ ((callerEvm.map List.Vector.toList).getD [] ++
    ((canisterId.map lenPrefixed).getD [] ++ (callerPrincipal.map lenPrefixed).getD []))))

def SubmitCall.idPreimage (c : Crypto) : SubmitCall → Bytes
  | .tx kind raw _ => Chain.idPreimage kind raw none none none
  | .ic who canisterId input => Chain.idPreimage .icSynthetic (encodeIcSyntheticInput input)
      (c.deriveEvmAddress who.bytes) (some canisterId.bytes) (some who.bytes)

theorem Submitted.txId_eq {call : SubmitCall} {envelope : StoredTxBytes} {sender : Address}
    {nonce : Nat} (h : Submitted c call envelope sender nonce) :
    envelope.txId = c.keccak256 (call.idPreimage c) := by
  cases h with
  | raw size decoded => rfl
  | ic size derived =>
      rw [SubmitCall.idPreimage, derived]
      rfl

def readIcSigner (bytes : Bytes) : Option (Address × Nat) := do
  let (_, data) ← readIcSyntheticTo bytes
  let (_, data) ← readArray 32 data
  let (_, data) ← readU64 data
  let (nonce, data) ← readU64 data
  let (_, data) ← readU128 data
  let (_, data) ← readU128 data
  let (len, data) ← readU32 data
  let (_, data) ← readExact len.toNat data
  let (caller, _) ← readArray 20 data
  some (caller, nonce.toNat)

theorem readIcSyntheticTo_append (dest : Option Address) (rest : Bytes) :
    readIcSyntheticTo (encodeIcSyntheticTo dest ++ rest) = some (dest, rest) := by
  cases dest with
  | none => rfl
  | some dest => simp [encodeIcSyntheticTo, readIcSyntheticTo]

theorem data_le_encodeIcSynthetic (tx : IcSyntheticTxInput) :
    tx.data.length ≤ (encodeIcSyntheticInput tx).length := by
  simp only [encodeIcSyntheticInput, List.length_append]
  omega

theorem readIcSigner_encode {tx : IcSyntheticTxInput}
    (hsize : (encodeIcSyntheticInput tx).length ≤ maxTxSize) (caller : Address) (rest : Bytes) :
    readIcSigner (encodeIcSyntheticInput tx ++ (caller.toList ++ rest)) =
      some (caller, tx.nonce.toNat) := by
  have hdata : tx.data.length < 2 ^ 32 :=
    lt_of_le_of_lt ((data_le_encodeIcSynthetic tx).trans hsize) (by decide)
  have hlen : (UInt32.ofNat tx.data.length).toNat = tx.data.length :=
    UInt32.toNat_ofNat_of_lt hdata
  have hread : readExact (UInt32.ofNat tx.data.length).toNat
      (tx.data ++ (caller.toList ++ rest)) = some (tx.data, caller.toList ++ rest) := by
    rw [hlen, readExact_append]
  rw [readIcSigner, encodeIcSyntheticInput, u32TryFrom_of_lt hdata, Option.getD_some]
  simp only [List.append_assoc, ↓bind_of_read (readIcSyntheticTo_append _ _),
    ↓bind_of_read (readArray_append _ _), ↓bind_of_read (readU64_append _ _),
    ↓bind_of_read (readU128_append _ _), ↓bind_of_read (readU32_append _ _), ↓bind_of_read hread]

theorem decodeIcSynthetic_encode {tx : IcSyntheticTxInput}
    (hsize : (encodeIcSyntheticInput tx).length ≤ maxTxSize) :
    decodeIcSyntheticHeader (encodeIcSyntheticInput tx) = some tx := by
  have hle := (data_le_encodeIcSynthetic tx).trans hsize
  have hdata : tx.data.length < 2 ^ 32 := lt_of_le_of_lt hle (by decide)
  have hlen : (UInt32.ofNat tx.data.length).toNat = tx.data.length :=
    UInt32.toNat_ofNat_of_lt hdata
  have hheader : ¬ (encodeIcSyntheticInput tx).length < icTxBaseHeaderLen := by
    have hdest : 0 < (encodeIcSyntheticTo tx.dest).length := by
      cases tx.dest <;> simp [encodeIcSyntheticTo]
    simp only [encodeIcSyntheticInput, List.length_append, List.Vector.toList_length,
      length_u64Bytes, length_u128Bytes, length_u32Bytes, icTxBaseHeaderLen]
    omega
  have hfits : ¬ tx.data.length > maxTxSize := not_lt.mpr hle
  rw [decodeIcSyntheticHeader, if_neg hheader, encodeIcSyntheticInput, u32TryFrom_of_lt hdata,
    Option.getD_some]
  simp only [↓bind_of_read (readIcSyntheticTo_append _ _),
    ↓bind_of_read (readArray_append _ _), ↓bind_of_read (readU64_append _ _),
    ↓bind_of_read (readU128_append _ _), ↓bind_of_read (readU32_append _ _), hlen, ne_eq,
    not_true_eq_false, hfits, or_self, if_false]

-- the hashed bytes fix who signed and with which nonce
theorem signer_of_idPreimage {x y : SubmitCall} {e f : StoredTxBytes} {a b : Address} {n m : Nat}
    (hx : Submitted c x e a n) (hy : Submitted c y f b m) (hidx : x.Identified)
    (hidy : y.Identified) (h : x.idPreimage c = y.idPreimage c) : a = b ∧ n = m := by
  cases hx with
  | raw size decoded =>
      obtain rfl : _ = TxKind.ethSigned := hidx
      cases hy with
      | raw size' decoded' =>
          obtain rfl : _ = TxKind.ethSigned := hidy
          have hrest := List.append_cancel_left h
          simp only [List.cons.injEq, true_and, Option.map_none, Option.getD_none,
            List.append_nil] at hrest
          subst hrest
          obtain rfl := Option.some.inj (decoded.symm.trans decoded')
          exact ⟨rfl, rfl⟩
      | ic size' derived' =>
          exact absurd (List.cons.inj (List.append_cancel_left h)).1 (by decide)
  | ic size derived =>
      cases hy with
      | raw size' decoded' =>
          obtain rfl : _ = TxKind.ethSigned := hidy
          exact absurd (List.cons.inj (List.append_cancel_left h)).1 (by decide)
      | ic size' derived' =>
          have hsigner := congrArg readIcSigner
            (List.cons.inj (List.append_cancel_left h)).2
          rw [derived, derived'] at hsigner
          simp only [Option.map_some, Option.getD_some, readIcSigner_encode size,
            readIcSigner_encode size'] at hsigner
          obtain ⟨rfl, hnonce⟩ := Prod.mk.inj (Option.some.inj hsigner)
          exact ⟨rfl, hnonce⟩

theorem tryFrom_stored {value : StoredTxBytes} {stored : StoredTx}
    (h : StoredTx.tryFrom c value = .ok stored) : stored = value.stored := by
  rw [StoredTx.tryFrom] at h
  split_ifs at h
  · exact (Except.ok.inj h).symm
  · exact (Except.ok.inj h).symm

theorem Submitted.identified {call : SubmitCall} {envelope : StoredTxBytes} {sender : Address}
    {nonce : Nat} {stored : StoredTx} (h : Submitted c call envelope sender nonce)
    (hok : StoredTx.tryFrom c envelope = .ok stored) : call.Identified := by
  refine (tryFrom_submitted h).mp ?_
  rw [← tryFrom_stored hok]
  exact hok

-- everything in the store was submitted by one of the calls, under the id of its own bytes
def Filed (c : Crypto) (calls : Set SubmitCall) (s : StableState W) : Prop :=
  ∀ id value, s.txStore.get id = some value → value.txId = id ∧
    ∃ call ∈ calls, ∃ sender nonce, Submitted c call value sender nonce

theorem filed_init (calls : Set SubmitCall) (world : W) : Filed c calls (StableState.init world) :=
  fun _ _ h => absurd h (by simp [StableState.init])

def Forgets (s t : StableState W) : Prop :=
  ∀ id value, t.txStore.get id = some value → s.txStore.get id = some value

theorem Forgets.of_eq {s t : StableState W} (h : t.txStore = s.txStore) : Forgets s t :=
  fun _ _ hget => h ▸ hget

theorem Forgets.of_remove {s t : StableState W} (id : TxId) (h : t.txStore = s.txStore.remove id) :
    Forgets s t := by
  intro j value hget
  rw [h, OrdMap.get_remove] at hget
  split_ifs at hget
  exact hget

theorem Forgets.trans {s t u : StableState W} (h : Forgets s t) (h' : Forgets t u) : Forgets s u :=
  fun id value hget => h id value (h' id value hget)

theorem Filed.forgets {calls : Set SubmitCall} {s t : StableState W} (h : Filed c calls s)
    (hforgets : Forgets s t) : Filed c calls t :=
  fun id value hget => h id value (hforgets id value hget)

theorem txStore_markDropped (s : StableState W) (id : TxId) (code : DropCode) :
    (markDroppedAndPurgePayload c s id code).txStore = s.txStore.remove id := by
  obtain ⟨keys, index, hashes, locs, ring, ringState, heq⟩ := markDropped_eq (c := c) s id code
  rw [heq]

theorem forgets_tidy {who : Set Address} {s t : StableState W} (h : Tidy c evm who s t) : Forgets s t := by
  cases h with
  | queues fewer => exact .of_eq rfl
  | purged id code => exact .of_remove id (txStore_markDropped s id code)
  | @expected sender _ =>
      obtain ⟨expected, nonces, heq⟩ := expectedNonceForSender_eq evm s sender
      rw [heq]
      exact .of_eq rfl
  | suppressed m => exact .of_eq rfl

theorem forgets_tidied {who : Set Address} {s t : StableState W} (h : Tidied c evm who s t) : Forgets s t := by
  induction h with
  | refl => exact .of_eq rfl
  | tail _ ht ih => exact ih.trans (forgets_tidy ht)

theorem Bumps.forgets {s t u : StableState W} {id : TxId} {sender : Address}
    (h : Bumps c evm s id sender u t) : Forgets s t := by
  have hbumped : Forgets u (bumpExpectedNonce evm u sender) := .of_eq rfl
  exact ((forgets_tidied h.before).trans hbumped).trans (forgets_tidied h.after)

theorem forgets_includeAll (number : Nat) (persisted : List StagedPersist) (s : StableState W) :
    Forgets s (persisted.foldl (includeTx c evm number) s) := by
  induction persisted generalizing s with
  | nil => exact .of_eq rfl
  | cons q persisted ih =>
      have hrecorded : Forgets s (recordIncluded number s q) := .of_eq rfl
      obtain ⟨u, key, -, hbumps⟩ := bumps_advanceSender (c := c)
        (recordIncluded number s q) q.staged.txId q.staged.sender q.staged.nonce
      exact (hrecorded.trans hbumps.forgets).trans (ih _)

theorem forgets_commitBlock {env : CallEnv} {ctx : BlockExecContext} {gasUsed : Nat}
    {block : BlockData} {drops : List QueuedDrop} {included : List StagedIncluded}
    {s t : StableState W} (hrun : commitBlock c evm env ctx gasUsed block drops included s = some t) :
    Forgets s t := by
  obtain ⟨⟨persisted, s₂⟩, hpersist, hrun⟩ := Option.bind_eq_some_iff.mp hrun
  obtain ⟨⟨ptr, s₃⟩, hstore, hrun⟩ := Option.bind_eq_some_iff.mp hrun
  obtain ⟨-, b₂, rfl, -⟩ := persistAll_some hpersist
  obtain ⟨b₃, oldest, rfl, -, -⟩ := storeBlock_some hstore
  have hdrops : Forgets s { applyDrops c evm s drops with blobStore := b₃, oldestBlock := oldest } :=
    (forgets_tidied (@tidied_applyDrops W c evm ∅ s drops)).trans (.of_eq rfl)
  obtain rfl := Option.some.inj hrun
  obtain ⟨index, keys, hfee⟩ := rebuildPendingFee_frame (c := c) (W := W) _ _
  rw [hfee]
  exact hdrops.trans ((forgets_includeAll ctx.blockNumber persisted _).trans
    (.of_eq rfl))

theorem forgets_produceBlock {env : CallEnv} {maxTxs : Nat} {s t : StableState W}
    {r : Except ChainError ProduceBlockOutcome}
    (hrun : produceBlock c evm env maxTxs s = some (r, t)) : Forgets s t := by
  cases produceBlock_cases hrun with
  | refused e m => exact .of_eq rfl
  | dropped e m drops selected =>
      have hsuppressed : Tidied c evm ∅ s { s with decodeSuppressUntil := m } :=
        .single (.suppressed s m)
      exact forgets_tidied (hsuppressed.trans (tidied_applyDrops _ drops))
  | unprepared e m prepared => exact .of_eq rfl
  | committed h =>
      obtain ⟨⟨m, hstate⟩, -⟩ := prepareBlock_prepares c env maxTxs s
      have hcommit := forgets_commitBlock h.committed
      rw [hstate] at hcommit
      exact Forgets.trans (.of_eq rfl) hcommit

theorem forgets_pruneStep {step : PruneStep} {s t : StableState W} (h : step.run c s = .ok t) :
    Forgets s t := by
  cases step with
  | removeTxStore id =>
      obtain rfl := Except.ok.inj h
      exact .of_remove id rfl
  | reclaim ptr =>
      rw [PruneStep.run] at h
      split at h
      · obtain rfl := Except.ok.inj h
        exact .of_eq rfl
      · exact absurd h (by simp)
  | removeFeeIndex id =>
      obtain rfl := Except.ok.inj h
      obtain ⟨keys, index, heq⟩ := removePendingFeeIndexByTxId_eq s id
      rw [heq]
      exact .of_eq rfl
  | decrementPrincipal id =>
      obtain rfl := Except.ok.inj h
      obtain ⟨counts, heq⟩ := decrementPrincipalPendingCountForTx_eq c s id
      rw [heq]
      exact .of_eq rfl
  | removeEthTxHash id =>
      obtain rfl := Except.ok.inj h
      obtain ⟨index, heq⟩ := removeEthTxHashIndexForTxId_eq c s id
      rw [heq]
      exact .of_eq rfl
  | _ =>
      obtain rfl := Except.ok.inj h
      exact .of_eq rfl

theorem pruneClosed_filed (calls : Set SubmitCall) : PruneClosed c (Filed (W := W) c calls) where
  step := fun _ _ _ h hrun => h.forgets (forgets_pruneStep hrun)
  bookkeeping := fun _ _ _ _ h => h.forgets (.of_eq rfl)

theorem Submission.filed {calls : Set SubmitCall} {call : SubmitCall} {s t : StableState W}
    {r : Except ChainError TxId} (hs : Submission c evm call s r t) (hcall : call ∈ calls)
    (h : Filed c calls s) : Filed c calls t := by
  cases hs with
  | refused e tidied => exact h.forgets (forgets_tidied tidied)
  | @queued u envelope sender nonce price submitted fresh tidied _ =>
      intro id value hget
      rw [txStore_enqueuePending, OrdMap.get_insert] at hget
      split_ifs at hget with hid
      · obtain rfl := Option.some.inj hget
        exact ⟨hid.symm, call, hcall, sender, nonce, submitted⟩
      · exact h.forgets (forgets_tidied tidied) id value hget

def ChainOp.call : ChainOp → Option SubmitCall
  | .submitTx _ raw who => some (.tx .ethSigned raw who)
  | .submitIcTxInput _ who canisterId input => some (.ic who canisterId input)
  | _ => none

theorem filed_op {calls : Set SubmitCall} {op : ChainOp} {s t : StableState W}
    (h : Filed c calls s) (hcall : ∀ call, op.call = some call → call ∈ calls)
    (hrun : op.Runs c evm s t) : Filed c calls t := by
  cases hrun with
  | submitTx now txBytes who s => exact (submission_submitTx ..).filed (hcall _ rfl) h
  | submitIcTxInput now who canisterId tx s =>
      exact (submission_submitIcTxInput ..).filed (hcall _ rfl) h
  | produceBlock returns => exact h.forgets (forgets_produceBlock returns)
  | pruneBlocks retain maxOps s => exact (pruneClosed_filed calls).pruneBlocks retain maxOps h
  | interruptedPrune pruning k =>
      exact (pruneClosed_filed calls).crashed _ _ k ((pruneClosed_filed calls).pruning h pruning)
  | recoverPruneJournal s => exact (pruneClosed_filed calls).recover h
  | rebuildPendingRuntimeIndexes s => exact h.forgets (forgets_tidied (@tidied_rebuildRuntime W c evm ∅ s))

def signerFor (stored : StoredTx) : Address :=
  if stored.kind = .icSynthetic then stored.callerEvm.getD (zeroArr 20) else zeroArr 20

structure Decoded (c : Crypto) (store : OrdMap TxId StoredTxBytes) (tx : PreparedTx)
    (value : StoredTxBytes) (stored : StoredTx) : Prop where
  filed : store.get tx.txId = some value
  checked : StoredTx.tryFrom c value = .ok stored
  decoded : decodeTx c stored.kind (signerFor stored) stored.raw = some tx.txEnv

theorem decoded_checkPrepared {s : StableState W} {baseFee : Nat} {tx tx' : TxEnv}
    (h : checkPrepared s baseFee tx = .ready tx') : tx = tx' := by
  rw [checkPrepared] at h
  split_ifs at h
  split at h
  · exact absurd h (by simp)
  · exact Preparation.ready.inj h

theorem decoded_prepareStored {s : StableState W} {baseFee : Nat} {stored : StoredTx} {tx : TxEnv}
    (h : prepareStored c s baseFee stored = .ready tx) :
    decodeTx c stored.kind (signerFor stored) stored.raw = some tx := by
  rw [prepareStored.eq_def] at h
  split at h
  · exact absurd h (by simp)
  · dsimp only at h
    split at h
    · exact absurd h (by simp)
    · rename_i tx' hdecode
      rw [signerFor, ← decoded_checkPrepared h]
      exact hdecode

theorem decoded_prepareCandidate {s : StableState W} {baseFee timestamp : Nat} {id : TxId}
    {tx : TxEnv} (h : (prepareCandidate c s baseFee timestamp id).1 = .ready tx) :
    ∃ value stored, Decoded c s.txStore ⟨id, tx⟩ value stored := by
  rw [prepareCandidate] at h
  split at h
  · exact absurd h (by simp)
  · exact absurd h (by simp)
  · exact absurd h (by simp)
  · rename_i stored hstored
    obtain ⟨suppressed, m, hsup⟩ := isPrincipalDecodeSuppressed_eq s stored.callerPrincipal timestamp
    rw [hsup] at h
    obtain ⟨value, hget, hok⟩ := Option.map_eq_some_iff.mp hstored
    cases suppressed with
    | true => exact absurd h (by simp)
    | false => exact ⟨value, stored, hget, hok, decoded_prepareStored h⟩

theorem txs_append (xs ys : List PreparedItem) :
    PreparedItem.txs (xs ++ ys) = PreparedItem.txs xs ++ PreparedItem.txs ys := by
  induction xs with
  | nil => rfl
  | cons x xs ih =>
      cases x with
      | drop d => exact ih
      | tx t => exact congrArg (t :: ·) ih

structure AllDecoded (c : Crypto) (store : OrdMap TxId StoredTxBytes) (p : PrepareState W) : Prop where
  kept : p.state.txStore = store
  decoded : ∀ tx ∈ PreparedItem.txs p.prepared, ∃ value stored, Decoded c store tx value stored

theorem allDecoded_record {store : OrdMap TxId StoredTxBytes} {p : PrepareState W}
    (h : AllDecoded c store p) (timestamp : Nat) {id : TxId} {r : Preparation}
    (hr : ∀ tx, r = .ready tx → ∃ value stored, Decoded c store ⟨id, tx⟩ value stored) :
    AllDecoded c store (recordPreparation timestamp id p r) := by
  obtain ⟨⟨m, hstate⟩, -⟩ := prepares_record timestamp id p r
  refine ⟨by rw [hstate]; exact h.kept, ?_⟩
  have hdrop (items : List PreparedItem) (d : QueuedDrop) (hitems : items = p.prepared ++ [.drop d]) :
      ∀ tx ∈ PreparedItem.txs items, ∃ value stored, Decoded c store tx value stored := by
    intro tx htx
    rw [hitems, txs_append] at htx
    exact h.decoded tx (by simpa [PreparedItem.txs] using htx)
  cases r with
  | ready tx' =>
      intro tx htx
      rw [recordPreparation, txs_append] at htx
      rcases List.mem_append.mp htx with hold | hnew
      · exact h.decoded tx hold
      · obtain rfl := List.mem_singleton.mp hnew
        exact hr tx' rfl
  | dropped code sender nonce => exact hdrop _ _ rfl
  | suppressed => exact hdrop _ _ rfl
  | undecodable code => exact hdrop _ _ rfl
  | decodeDrop code sender principal => exact hdrop _ _ rfl

theorem allDecoded_candidates (env : CallEnv) (ctx : BlockExecContext) (softLimit start : Nat)
    (ids : List TxId) {store : OrdMap TxId StoredTxBytes} {p : PrepareState W}
    (h : AllDecoded c store p) :
    AllDecoded c store (prepareCandidates c env ctx softLimit start ids p) := by
  induction ids generalizing p with
  | nil => exact h
  | cons id ids ih =>
      rw [prepareCandidates]
      dsimp only
      split
      · exact h
      · obtain ⟨m, hm⟩ := prepareCandidate_state (c := c) p.state ctx.baseFee ctx.timestamp id
        rcases hone : prepareCandidate c p.state ctx.baseFee ctx.timestamp id with ⟨r, s⟩
        rw [hone] at hm
        have hready : ∀ tx, r = .ready tx → ∃ value stored,
            Decoded c store ⟨id, tx⟩ value stored := by
          rintro tx rfl
          rw [← h.kept]
          exact decoded_prepareCandidate (congrArg Prod.fst hone)
        have hs : AllDecoded c store { p with state := s, tick := p.tick + 1 } := by
          obtain rfl : s = _ := hm
          exact ⟨h.kept, h.decoded⟩
        have hrec := allDecoded_record hs ctx.timestamp hready
        dsimp only
        split
        · split_ifs
          · exact ⟨hrec.kept, hrec.decoded⟩
          · exact ih ⟨hrec.kept, hrec.decoded⟩
        · split_ifs
          · exact hrec
          · exact ih hrec

theorem decoded_of_staged {env : CallEnv} {maxTxs : Nat} {s : StableState W} {tx : PreparedTx}
    (h : tx ∈ stagedTxs c env maxTxs s) : ∃ value stored, Decoded c s.txStore tx value stored :=
  (allDecoded_candidates env (blockContext env s) s.chainState.updateInstructionSoftLimit
    (env.counter 0) (selectReadyCandidates c s s.chainState.baseFee maxTxs)
    ⟨rfl, fun _ h => absurd h (by simp [PreparedItem.txs])⟩).decoded tx h

theorem decodeTx_submitted {call : SubmitCall} {value : StoredTxBytes} {sender : Address}
    {nonce : Nat} {tx : TxEnv} (h : Submitted c call value sender nonce) (hid : call.Identified)
    (hdecode : decodeTx c value.stored.kind (signerFor value.stored) value.stored.raw = some tx) :
    tx.caller = sender ∧ tx.nonce = nonce := by
  cases h with
  | raw size decoded =>
      obtain rfl : _ = TxKind.ethSigned := hid
      obtain rfl := Option.some.inj (decoded.symm.trans hdecode)
      exact ⟨rfl, rfl⟩
  | ic size derived =>
      obtain ⟨header, hheader, rfl⟩ := Option.map_eq_some_iff.mp hdecode
      obtain rfl := Option.some.inj ((decodeIcSynthetic_encode size).symm.trans hheader)
      exact ⟨rfl, rfl⟩

structure SignedAs (c : Crypto) (calls : Set SubmitCall) (id : TxId) (sender : Address)
    (nonce : Nat) : Prop where
  submitted : ∃ call ∈ calls, ∃ value, Submitted c call value sender nonce ∧ call.Identified ∧
    value.txId = id

theorem Filed.signed {calls : Set SubmitCall} {env : CallEnv} {maxTxs : Nat} {s : StableState W}
    (h : Filed c calls s) {tx : PreparedTx} (htx : tx ∈ stagedTxs c env maxTxs s) :
    SignedAs c calls tx.txId tx.txEnv.caller tx.txEnv.nonce := by
  obtain ⟨value, stored, hget, hok, hdecode⟩ := decoded_of_staged htx
  obtain ⟨hid, call, hcall, sender, nonce, hsubmitted⟩ := h _ _ hget
  have hidentified := hsubmitted.identified hok
  obtain rfl := tryFrom_stored hok
  obtain ⟨rfl, rfl⟩ := decodeTx_submitted hsubmitted hidentified hdecode
  exact ⟨call, hcall, value, hsubmitted, hidentified, hid⟩

theorem SignedAs.unique {calls : Set SubmitCall} {id : TxId} {a b : Address} {n m : Nat}
    (collisions : Set.InjOn c.keccak256 (SubmitCall.idPreimage c '' calls))
    (h : SignedAs c calls id a n) (h' : SignedAs c calls id b m) : a = b ∧ n = m := by
  obtain ⟨x, hx, value, hsubmitted, hidx, hid⟩ := h
  obtain ⟨y, hy, value', hsubmitted', hidy, hid'⟩ := h'
  refine signer_of_idPreimage hsubmitted hsubmitted' hidx hidy ?_
  refine collisions ⟨x, hx, rfl⟩ ⟨y, hy, rfl⟩ ?_
  rw [← hsubmitted.txId_eq, ← hsubmitted'.txId_eq, hid, hid']

def signers (c : Crypto) (calls : Set SubmitCall) : Set Address :=
  { sender | ∃ id nonce, SignedAs c calls id sender nonce }

end Kasane.Chain
