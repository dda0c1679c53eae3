import Kasane.Chain.Filed

namespace Kasane.Chain

open BigEndian Codec Word Blob

variable {W : Type} {c : Crypto} {evm : Evm W} {calls : Set SubmitCall}

-- the cached nonces are those of the accounts, and what a sender has pending comes next
structure NonceCached (signers : Set Address) (nonceOf : Address → Nat) (s : StableState W) :
    Prop where
  cached : ∀ a n, s.senderExpectedNonce.get a = some n → a ∈ signers ∧ n = nonceOf a
  pending : ∀ id key, s.pendingMetaByTxId.get id = some key →
    s.senderExpectedNonce.get key.sender = some key.nonce

-- what is pending was queued for the sender and nonce that its payload names
def Keyed (c : Crypto) (calls : Set SubmitCall) (s : StableState W) : Prop :=
  ∀ id key value, s.pendingMetaByTxId.get id = some key → s.txStore.get id = some value →
    ∃ call ∈ calls, Submitted c call value key.sender key.nonce

variable {signers : Set Address} {nonceOf : Address → Nat}

theorem nonceCached_init (world : W) : NonceCached signers nonceOf (StableState.init world) where
  cached := fun _ _ h => absurd h (by simp [StableState.init])
  pending := fun _ _ h => absurd h (by simp [StableState.init])

theorem keyed_init (world : W) : Keyed c calls (StableState.init world) :=
  fun _ _ _ h => absurd h (by simp [StableState.init])

theorem NonceCached.congr {nonceOf' : Address → Nat} {s : StableState W}
    (h : NonceCached signers nonceOf s) (hsame : ∀ a, nonceOf a = nonceOf' a) :
    NonceCached signers nonceOf' s where
  cached := fun a n hget => ⟨(h.cached a n hget).1, (h.cached a n hget).2.trans (hsame a)⟩
  pending := h.pending

theorem NonceCached.fewer {s t : StableState W} (h : NonceCached signers nonceOf s)
    (hsame : t.senderExpectedNonce = s.senderExpectedNonce)
    (hfewer : ∀ id key, t.pendingMetaByTxId.get id = some key → s.pendingMetaByTxId.get id = some key) :
    NonceCached signers nonceOf t where
  cached := fun a n hget => h.cached a n (hsame ▸ hget)
  pending := fun id key hget => hsame ▸ h.pending id key (hfewer id key hget)

theorem Keyed.fewer {s t : StableState W} (h : Keyed c calls s)
    (hfewer : ∀ id key, t.pendingMetaByTxId.get id = some key → s.pendingMetaByTxId.get id = some key)
    (hforgets : Forgets s t) : Keyed c calls t :=
  fun id key value hkey hvalue => h id key value (hfewer id key hkey) (hforgets id value hvalue)

theorem Keyed.tidied {who : Set Address} {s t : StableState W} (h : Keyed c calls s)
    (ht : Tidied c evm who s t) : Keyed c calls t :=
  h.fewer (fewer_tidied ht) (forgets_tidied ht)

theorem NonceCached.idle {s t : StableState W} (h : NonceCached signers nonceOf s)
    (ht : Tidied c evm ∅ s t) : NonceCached signers nonceOf t :=
  h.fewer (expectedNonce_tidied ht) (fewer_tidied ht)

-- looking a sender's nonce up only ever stores what its account holds
theorem NonceCached.lookedUp {s : StableState W} {sender : Address}
    (h : NonceCached signers (evm.accountNonce s.world) s) (hsender : sender ∈ signers) :
    NonceCached signers (evm.accountNonce s.world) (expectedNonceForSender evm s sender).2 := by
  rw [expectedNonceForSender]
  split
  · exact h
  · rename_i hnone
    constructor
    · intro a n hget
      rw [OrdMap.get_insert] at hget
      split_ifs at hget with ha
      · subst ha
        exact ⟨hsender, (Option.some.inj hget).symm⟩
      · exact h.cached a n hget
    · intro id key hkey
      have hexpected := h.pending id key hkey
      have hne : key.sender ≠ sender := by
        intro heq
        rw [heq, hnone] at hexpected
        exact absurd hexpected (by simp)
      exact (OrdMap.get_insert ..).trans ((if_neg hne).trans hexpected)

theorem NonceCached.tidied {who : Set Address} {s t : StableState W}
    (h : NonceCached signers (evm.accountNonce s.world) s) (hwho : who ⊆ signers)
    (ht : Tidied c evm who s t) : NonceCached signers (evm.accountNonce t.world) t := by
  induction ht with
  | refl => exact h
  | @tail u v _ huv ih =>
      have hworld : v.world = u.world := (quiet_tidy huv).world
      rw [hworld]
      cases huv with
      | queues fewer => exact ih.fewer rfl fewer
      | purged id code => exact ih.idle (.single (.purged u id code) : Tidied c evm ∅ u _)
      | expected mem => exact ih.lookedUp (hwho mem)
      | suppressed m => exact ih.fewer rfl (fun _ _ hkey => hkey)

theorem metas_enqueuePending (s : StableState W) (sender : Address) (nonce price : Nat)
    (envelope : StoredTxBytes) :
    (enqueuePending c s sender nonce price envelope).pendingMetaByTxId =
      s.pendingMetaByTxId.insert envelope.txId ⟨sender, nonce⟩ := by
  obtain ⟨hashes, heq⟩ := enqueuePending_linked (c := c) s sender nonce price envelope
  rw [heq, (sameHistory_promote ..).pendingMetaByTxId]
  rfl

theorem expectedNonce_enqueuePending (s : StableState W) (sender : Address) (nonce price : Nat)
    (envelope : StoredTxBytes) :
    (enqueuePending c s sender nonce price envelope).senderExpectedNonce = s.senderExpectedNonce := by
  obtain ⟨hashes, heq⟩ := enqueuePending_linked (c := c) s sender nonce price envelope
  rw [heq, (sameHistory_promote ..).senderExpectedNonce]
  rfl

theorem NonceCached.enqueue {s : StableState W} {sender : Address} {nonce : Nat}
    (h : NonceCached signers nonceOf s) (hexpected : s.senderExpectedNonce.get sender = some nonce)
    (price : Nat) (envelope : StoredTxBytes) :
    NonceCached signers nonceOf (enqueuePending c s sender nonce price envelope) where
  cached := by
    rw [expectedNonce_enqueuePending]
    exact h.cached
  pending := by
    intro id key hkey
    rw [expectedNonce_enqueuePending]
    rw [metas_enqueuePending, OrdMap.get_insert] at hkey
    split_ifs at hkey
    · obtain rfl := Option.some.inj hkey
      exact hexpected
    · exact h.pending id key hkey

theorem Keyed.enqueue {s : StableState W} {call : SubmitCall} {sender : Address} {nonce : Nat}
    {envelope : StoredTxBytes} (h : Keyed c calls s) (hcall : call ∈ calls)
    (hsubmitted : Submitted c call envelope sender nonce) (price : Nat) :
    Keyed c calls (enqueuePending c s sender nonce price envelope) := by
  intro id key value hkey hvalue
  rw [metas_enqueuePending, OrdMap.get_insert] at hkey
  rw [txStore_enqueuePending, OrdMap.get_insert] at hvalue
  split_ifs at hkey hvalue
  · obtain rfl := Option.some.inj hkey
    obtain rfl := Option.some.inj hvalue
    exact ⟨call, hcall, hsubmitted⟩
  · exact h id key value hkey hvalue

theorem Submission.keyed {call : SubmitCall} {s t : StableState W} {r : Except ChainError TxId}
    (hs : Submission c evm call s r t) (hcall : call ∈ calls) (h : Keyed c calls s) :
    Keyed c calls t := by
  cases hs with
  | refused e tidied => exact h.tidied tidied
  | queued price submitted fresh tidied expected =>
      exact (h.tidied tidied).enqueue hcall submitted price

theorem Submission.nonceCached {call : SubmitCall} {s t : StableState W}
    {r : Except ChainError TxId} (hs : Submission c evm call s r t)
    (hsigners : call.senders c ⊆ signers)
    (h : NonceCached signers (evm.accountNonce s.world) s) :
    NonceCached signers (evm.accountNonce t.world) t := by
  have hworld := hs.world
  cases hs with
  | refused e tidied => exact h.tidied hsigners tidied
  | queued price submitted fresh tidied expected =>
      rw [hworld, ← (quiet_tidied tidied).world]
      exact (h.tidied hsigners tidied).enqueue expected price _

theorem NonceCached.bump {s : StableState W} {sender : Address}
    (h : NonceCached signers nonceOf s) (hpresent : s.senderExpectedNonce.get sender ≠ none)
    (hfits : nonceOf sender + 1 ≤ u64Max)
    (hidle : ∀ id key, s.pendingMetaByTxId.get id = some key → key.sender ≠ sender) :
    NonceCached signers (Function.update nonceOf sender (nonceOf sender + 1))
      (bumpExpectedNonce evm s sender) := by
  obtain ⟨n, hn⟩ := Option.ne_none_iff_exists'.mp hpresent
  obtain ⟨hsigner, rfl⟩ := h.cached sender n hn
  have hbumped : (bumpExpectedNonce evm s sender).senderExpectedNonce =
      s.senderExpectedNonce.insert sender (nonceOf sender + 1) := by
    rw [bumpExpectedNonce, hn, Option.getD_some, saturatingAdd, min_eq_left hfits]
  constructor
  · intro a m hget
    rw [hbumped, OrdMap.get_insert] at hget
    split_ifs at hget with ha
    · subst ha
      rw [Function.update_self]
      exact ⟨hsigner, (Option.some.inj hget).symm⟩
    · rw [Function.update_of_ne ha]
      exact h.cached a m hget
  · intro id key hkey
    rw [hbumped, OrdMap.get_insert, if_neg (hidle id key hkey)]
    exact h.pending id key hkey

theorem present_tidied {s t : StableState W} (ht : Tidied c evm ∅ s t) {a : Address}
    (h : s.senderExpectedNonce.get a ≠ none) : t.senderExpectedNonce.get a ≠ none := by
  rw [expectedNonce_tidied ht]
  exact h

theorem present_bump {s : StableState W} (sender : Address) {a : Address}
    (h : s.senderExpectedNonce.get a ≠ none) :
    (bumpExpectedNonce evm s sender).senderExpectedNonce.get a ≠ none := by
  rw [bumpExpectedNonce, OrdMap.get_insert]
  split_ifs
  · simp
  · exact h

-- what the inclusions of a block rely on: every one of them was pending for its own sender, and
-- no sender's nonce runs over
structure Includable (metas : OrdMap TxId SenderNonceKey) (nonceOf : Address → Nat)
    (s : StableState W) (persisted : List StagedPersist) : Prop where
  fewer : ∀ id key, s.pendingMetaByTxId.get id = some key → metas.get id = some key
  queued : ∀ q ∈ persisted, ∃ key, metas.get q.staged.txId = some key ∧
    key.sender = q.staged.sender
  present : ∀ q ∈ persisted, s.senderExpectedNonce.get q.staged.sender ≠ none
  fits : ∀ a, (persisted.map (fun q => q.staged.sender)).count a = 0 ∨
    nonceOf a + (persisted.map (fun q => q.staged.sender)).count a ≤ u64Max

theorem count_update (sender : Address) (senders : List Address) (a : Address) :
    Function.update nonceOf sender (nonceOf sender + 1) a + senders.count a =
      nonceOf a + (sender :: senders).count a := by
  rw [List.count_cons]
  by_cases h : sender = a
  · subst h
    rw [Function.update_self, beq_self_eq_true, if_pos rfl]
    omega
  · rw [Function.update_of_ne (Ne.symm h), beq_eq_false_iff_ne.mpr h, if_neg (by simp),
      Nat.add_zero]

theorem nonceCached_includeAll (evm : Evm W) (number : Nat) {metas : OrdMap TxId SenderNonceKey}
    (hsingle : ∀ i j k l, metas.get i = some k → metas.get j = some l → k.sender = l.sender → i = j)
    {persisted : List StagedPersist} {s : StableState W} (h : NonceCached signers nonceOf s)
    (hready : Includable metas nonceOf s persisted) :
    NonceCached signers
      (fun a => nonceOf a + (persisted.map (fun q => q.staged.sender)).count a)
      (persisted.foldl (includeTx c evm number) s) := by
  induction persisted generalizing s nonceOf with
  | nil => exact h
  | cons q persisted ih =>
      obtain ⟨key, hkey, hsender⟩ := hready.queued q List.mem_cons_self
      obtain ⟨u, key', hsame, hbumps⟩ := @bumps_advanceSender W c evm
        (recordIncluded number s q) q.staged.txId q.staged.sender q.staged.nonce
      have hkey' : key'.sender = q.staged.sender := by
        rcases hsame with hmeta | rfl
        · obtain rfl := Option.some.inj (hkey.symm.trans (hready.fewer _ _ hmeta))
          exact hsender
        · rfl
      rw [hkey'] at hbumps
      have hrecorded : NonceCached signers nonceOf (recordIncluded number s q) :=
        h.fewer rfl (fun _ _ hmeta => hmeta)
      have hfewer : ∀ id key, u.pendingMetaByTxId.get id = some key → metas.get id = some key :=
        fun id key hmeta => hready.fewer id key (fewer_tidied hbumps.before id key hmeta)
      have hidle : ∀ id key, u.pendingMetaByTxId.get id = some key →
          key.sender ≠ q.staged.sender := by
        intro id other hmeta hother
        obtain rfl := hsingle id q.staged.txId other key (hfewer id other hmeta) hkey
          (hother.trans hsender.symm)
        exact absurd (hbumps.idle.symm.trans hmeta) (by simp)
      have hpresent {a : Address} (ha : s.senderExpectedNonce.get a ≠ none) :
          u.senderExpectedNonce.get a ≠ none := present_tidied hbumps.before ha
      have hfits : nonceOf q.staged.sender + 1 ≤ u64Max := by
        rcases hready.fits q.staged.sender with hzero | hle
        · simp at hzero
        · rw [List.map_cons, List.count_cons_self] at hle
          omega
      have hbumped := ((hrecorded.idle hbumps.before).bump
        (hpresent (hready.present q List.mem_cons_self)) hfits hidle).idle hbumps.after
      have hnext : Includable metas
          (Function.update nonceOf q.staged.sender (nonceOf q.staged.sender + 1))
          (includeTx c evm number s q) persisted := by
        constructor
        · exact fun id key hmeta => hfewer id key (fewer_tidied hbumps.after id key hmeta)
        · exact fun i hi => hready.queued i (List.mem_cons_of_mem _ hi)
        · intro i hi
          exact present_tidied hbumps.after
            (present_bump _ (hpresent (hready.present i (List.mem_cons_of_mem _ hi))))
        · intro a
          rw [count_update]
          rcases hready.fits a with hzero | hle
          · left
            rw [List.map_cons, List.count_cons] at hzero
            omega
          · exact .inr hle
      refine (ih hbumped hnext).congr (fun a => ?_)
      rw [count_update]
      rfl

theorem nonceCached_commitBlock {env : CallEnv} {ctx : BlockExecContext} {gasUsed : Nat}
    {block : BlockData} {drops : List QueuedDrop} {included : List StagedIncluded}
    {s t : StableState W} (h : NonceCached signers nonceOf s)
    (hsingle : ∀ i j k l, s.pendingMetaByTxId.get i = some k → s.pendingMetaByTxId.get j = some l →
      k.sender = l.sender → i = j)
    (hqueued : ∀ i ∈ included, ∃ key, s.pendingMetaByTxId.get i.txId = some key ∧
      key.sender = i.sender)
    (hfits : ∀ a, (included.map StagedIncluded.sender).count a = 0 ∨
      nonceOf a + (included.map StagedIncluded.sender).count a ≤ u64Max)
    (hrun : commitBlock c evm env ctx gasUsed block drops included s = some t) :
    NonceCached signers (fun a => nonceOf a + (included.map StagedIncluded.sender).count a) t := by
  have hdrops := @tidied_applyDrops W c evm ∅ s drops
  obtain ⟨⟨persisted, s₂⟩, hpersist, hrun⟩ := Option.bind_eq_some_iff.mp hrun
  obtain ⟨⟨ptr, s₃⟩, hstore, hrun⟩ := Option.bind_eq_some_iff.mp hrun
  obtain ⟨hstaged, b₂, rfl, -⟩ := persistAll_some hpersist
  obtain ⟨b₃, oldest, rfl, -, -⟩ := storeBlock_some hstore
  have hsenders : persisted.map (fun q => q.staged.sender) = included.map StagedIncluded.sender := by
    rw [← hstaged, List.map_map]
    rfl
  have hmem {q : StagedPersist} (hq : q ∈ persisted) : q.staged ∈ included := by
    rw [← hstaged]
    exact List.mem_map_of_mem hq
  have hstored : NonceCached signers nonceOf
      { applyDrops c evm s drops with blobStore := b₃, oldestBlock := oldest } :=
    (h.idle hdrops).fewer rfl (fun _ _ hmeta => hmeta)
  have hpresent (a : Address) (ha : s.senderExpectedNonce.get a ≠ none) :
      (applyDrops c evm s drops).senderExpectedNonce.get a ≠ none := present_tidied hdrops ha
  have hfewer : ∀ id key, (applyDrops c evm s drops).pendingMetaByTxId.get id = some key →
      s.pendingMetaByTxId.get id = some key := fewer_tidied hdrops
  have hready : Includable s.pendingMetaByTxId nonceOf
      { applyDrops c evm s drops with blobStore := b₃, oldestBlock := oldest } persisted := by
    constructor
    · exact hfewer
    · exact fun q hq => hqueued q.staged (hmem hq)
    · intro q hq
      obtain ⟨key, hkey, hsender⟩ := hqueued q.staged (hmem hq)
      refine hpresent _ ?_
      rw [← hsender, h.pending _ key hkey]
      simp
    · rw [hsenders]
      exact hfits
  have hincluded := nonceCached_includeAll (c := c) evm ctx.blockNumber hsingle hstored hready
  rw [hsenders] at hincluded
  obtain rfl := Option.some.inj hrun
  obtain ⟨index, keys, hfee⟩ := rebuildPendingFee_frame (c := c) (W := W) _ _
  rw [hfee]
  exact hincluded.fewer rfl (fun _ _ hmeta => hmeta)

theorem sender_staged {env : CallEnv} {maxTxs : Nat} {s : StableState W} {tx : PreparedTx}
    {key : SenderNonceKey} (h : Keyed c calls s) (htx : tx ∈ stagedTxs c env maxTxs s)
    (hkey : s.pendingMetaByTxId.get tx.txId = some key) : key.sender = tx.txEnv.caller := by
  obtain ⟨value, stored, hget, hok, hdecode⟩ := decoded_of_staged htx
  obtain ⟨call, hcall, hsubmitted⟩ := h _ _ _ hkey hget
  have hidentified := hsubmitted.identified hok
  obtain rfl := tryFrom_stored hok
  exact (decodeTx_submitted hsubmitted hidentified hdecode).1.symm

theorem keyed_includeAll (evm : Evm W) (number : Nat) (persisted : List StagedPersist)
    {s : StableState W} (h : Keyed c calls s) :
    Keyed c calls (persisted.foldl (includeTx c evm number) s) := by
  induction persisted generalizing s with
  | nil => exact h
  | cons q persisted ih =>
      obtain ⟨u, key, -, hbumps⟩ := @bumps_advanceSender W c evm
        (recordIncluded number s q) q.staged.txId q.staged.sender q.staged.nonce
      have hrecorded : Keyed c calls (recordIncluded number s q) := h
      have hremoved : Keyed c calls u := hrecorded.tidied hbumps.before
      have hbumped : Keyed c calls (bumpExpectedNonce evm u key.sender) := hremoved
      exact ih (hbumped.tidied hbumps.after)

theorem keyed_commitBlock {env : CallEnv} {ctx : BlockExecContext} {gasUsed : Nat}
    {block : BlockData} {drops : List QueuedDrop} {included : List StagedIncluded}
    {s t : StableState W} (h : Keyed c calls s)
    (hrun : commitBlock c evm env ctx gasUsed block drops included s = some t) :
    Keyed c calls t := by
  obtain ⟨⟨persisted, s₂⟩, hpersist, hrun⟩ := Option.bind_eq_some_iff.mp hrun
  obtain ⟨⟨ptr, s₃⟩, hstore, hrun⟩ := Option.bind_eq_some_iff.mp hrun
  obtain ⟨-, b₂, rfl, -⟩ := persistAll_some hpersist
  obtain ⟨b₃, oldest, rfl, -, -⟩ := storeBlock_some hstore
  have hdropped : Keyed c calls (applyDrops c evm s drops) :=
    h.tidied (tidied_applyDrops s drops : Tidied c evm ∅ s _)
  have hstored : Keyed c calls
      { applyDrops c evm s drops with blobStore := b₃, oldestBlock := oldest } := hdropped
  have hincluded := keyed_includeAll evm ctx.blockNumber persisted hstored
  obtain rfl := Option.some.inj hrun
  obtain ⟨index, keys, hfee⟩ := rebuildPendingFee_frame (c := c) (W := W) _ _
  rw [hfee]
  exact hincluded

theorem keyed_produceBlock {env : CallEnv} {maxTxs : Nat} {s t : StableState W}
    {r : Except ChainError ProduceBlockOutcome} (h : Keyed c calls s)
    (hrun : produceBlock c evm env maxTxs s = some (r, t)) : Keyed c calls t := by
  cases produceBlock_cases hrun with
  | refused e m => exact h
  | dropped e m drops selected =>
      have hsuppressed : Keyed c calls { s with decodeSuppressUntil := m } := h
      exact hsuppressed.tidied (tidied_applyDrops _ drops : Tidied c evm ∅ _ _)
  | unprepared e m prepared => exact h
  | committed hcommitted =>
      obtain ⟨⟨m, hstate⟩, -⟩ := prepareBlock_prepares c env maxTxs s
      have hprepared : Keyed c calls (prepareBlock c env maxTxs s).state := by
        rw [hstate]
        exact h
      refine keyed_commitBlock ?_ hcommitted.committed
      exact hprepared

theorem metas_pruneStep {step : PruneStep} {s t : StableState W} (h : step.run c s = .ok t) :
    t.pendingMetaByTxId = s.pendingMetaByTxId ∧ t.senderExpectedNonce = s.senderExpectedNonce := by
  cases step with
  | reclaim ptr =>
      rw [PruneStep.run] at h
      split at h
      · obtain rfl := Except.ok.inj h
        exact ⟨rfl, rfl⟩
      · exact absurd h (by simp)
  | removeFeeIndex id =>
      obtain rfl := Except.ok.inj h
      obtain ⟨keys, index, heq⟩ := removePendingFeeIndexByTxId_eq s id
      rw [heq]
      exact ⟨rfl, rfl⟩
  | decrementPrincipal id =>
      obtain rfl := Except.ok.inj h
      obtain ⟨counts, heq⟩ := decrementPrincipalPendingCountForTx_eq c s id
      rw [heq]
      exact ⟨rfl, rfl⟩
  | removeEthTxHash id =>
      obtain rfl := Except.ok.inj h
      obtain ⟨index, heq⟩ := removeEthTxHashIndexForTxId_eq c s id
      rw [heq]
      exact ⟨rfl, rfl⟩
  | _ =>
      obtain rfl := Except.ok.inj h
      exact ⟨rfl, rfl⟩

theorem pruneClosed_keyed (calls : Set SubmitCall) : PruneClosed c (Keyed (W := W) c calls) where
  step := by
    intro step s t h hrun
    obtain ⟨hmetas, -⟩ := metas_pruneStep hrun
    exact h.fewer (fun _ _ hkey => hmetas ▸ hkey) (forgets_pruneStep hrun)
  bookkeeping := fun _ _ _ _ h => h

theorem pruneClosed_nonceCached (signers : Set Address) (nonceOf : Address → Nat) :
    PruneClosed c (NonceCached (W := W) signers nonceOf) where
  step := by
    intro step s t h hrun
    obtain ⟨hmetas, hexpected⟩ := metas_pruneStep hrun
    exact h.fewer hexpected (fun _ _ hkey => hmetas ▸ hkey)
  bookkeeping := fun _ _ _ _ h => h.fewer rfl (fun _ _ hkey => hkey)

theorem keyed_op {op : ChainOp} {s t : StableState W} (h : Keyed c calls s)
    (hcall : ∀ call, op.call = some call → call ∈ calls) (hrun : op.Runs c evm s t) :
    Keyed c calls t := by
  have hprune := pruneClosed_keyed (W := W) (c := c) calls
  cases hrun with
  | submitTx now txBytes who s => exact (submission_submitTx ..).keyed (hcall _ rfl) h
  | submitIcTxInput now who canisterId tx s =>
      exact (submission_submitIcTxInput ..).keyed (hcall _ rfl) h
  | produceBlock returns => exact keyed_produceBlock h returns
  | pruneBlocks retain maxOps s => exact hprune.pruneBlocks retain maxOps h
  | interruptedPrune pruning k => exact hprune.crashed _ _ k (hprune.pruning h pruning)
  | recoverPruneJournal s => exact hprune.recover h
  | rebuildPendingRuntimeIndexes s =>
      exact h.tidied (tidied_rebuildRuntime s : Tidied c evm ∅ s _)

theorem senders_signers {call : SubmitCall} (hidentified : call.Identified) (hcall : call ∈ calls) : call.senders c ⊆ Chain.signers c calls := by
  rintro sender ⟨envelope, nonce, hsubmitted⟩
  exact ⟨envelope.txId, nonce, call, hcall, envelope, hsubmitted, hidentified, rfl⟩

-- every operation but the production of a block leaves the accounts alone
theorem nonceCached_op {op : ChainOp} {s t : StableState W}
    (h : NonceCached (Chain.signers c calls) (evm.accountNonce s.world) s)
    (hcall : ∀ call, op.call = some call → call ∈ calls)
    (hproduce : ∀ {env maxTxs r}, op = .produceBlock env maxTxs →
      produceBlock c evm env maxTxs s = some (r, t) →
        NonceCached (Chain.signers c calls) (evm.accountNonce t.world) t)
    (hrun : op.Runs c evm s t) :
    NonceCached (Chain.signers c calls) (evm.accountNonce t.world) t := by
  have hprune := pruneClosed_nonceCached (W := W) (c := c) (Chain.signers c calls)
    (evm.accountNonce s.world)
  have hworld := pruneClosed_world (c := c) s.world
  cases hrun with
  | submitTx now txBytes who s =>
      exact (submission_submitTx ..).nonceCached (senders_signers rfl (hcall _ rfl)) h
  | submitIcTxInput now who canisterId tx s caller canister =>
      exact (submission_submitIcTxInput ..).nonceCached
        (senders_signers ⟨canister, caller⟩ (hcall _ rfl)) h
  | produceBlock returns => exact hproduce rfl returns
  | pruneBlocks retain maxOps s =>
      rw [hworld.pruneBlocks retain maxOps rfl]
      exact hprune.pruneBlocks retain maxOps h
  | interruptedPrune pruning k =>
      rw [hworld.crashed _ _ k (hworld.pruning rfl pruning)]
      exact hprune.crashed _ _ k (hprune.pruning h pruning)
  | recoverPruneJournal s =>
      rw [hworld.recover rfl]
      exact hprune.recover h
  | rebuildPendingRuntimeIndexes s =>
      exact h.tidied (Set.empty_subset _) (tidied_rebuildRuntime s)

end Kasane.Chain
