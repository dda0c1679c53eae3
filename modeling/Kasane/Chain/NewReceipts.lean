import Kasane.Chain.Advances

namespace Kasane.Chain

open BigEndian Codec Word Blob

variable {W : Type} {c : Crypto} {counting : Prop}

theorem receipts_enqueuePending (s : StableState W) (envelope : StoredTxBytes) (sender : Address)
    (nonce price : Nat) : (enqueuePending c s sender nonce price envelope).receipts = s.receipts := by
  obtain ⟨u, seq, heq, hreceipts, -⟩ := enqueuePending_frame (c := c) s envelope sender nonce price
  rw [heq, (quiet_promoteIfNextNonce u sender _ nonce envelope seq).receipts, hreceipts]

theorem Submission.receipts {evm : Evm W} {call : SubmitCall} {s t : StableState W}
    {r : Except ChainError TxId} (h : Submission c evm call s r t) : t.receipts = s.receipts := by
  cases h with
  | refused e tidied => exact (quiet_tidied tidied).receipts
  | queued price submitted fresh tidied _ =>
      exact (receipts_enqueuePending ..).trans (quiet_tidied tidied).receipts

def AddsReceipts (s : StableState W) (ids : List TxId) (t : StableState W) : Prop :=
  ∀ id, id ∉ ids → t.receipts.get id = s.receipts.get id

theorem Quiet.adds {s t : StableState W} (h : Quiet s t) (ids : List TxId) : AddsReceipts s ids t :=
  fun _ _ => by rw [h.receipts]

theorem adds_commitBlock {evm : Evm W} {env : CallEnv} {ctx : BlockExecContext} {gasUsed : Nat}
    {block : BlockData} {drops : List QueuedDrop} {included : List StagedIncluded}
    {s t : StableState W} {p : Pool} (h : Consistent c counting s p)
    (hp : Pending p (drops.map QueuedDrop.txId ++ included.map StagedIncluded.txId))
    (hrun : commitBlock c evm env ctx gasUsed block drops included s = some t) :
    AddsReceipts s (included.map StagedIncluded.txId) t := by
  obtain ⟨p₁, hdrops⟩ := retires_applyDrops evm h hp.left
  have hquiet := quiet_applyDrops (c := c) evm s drops
  have hpending := hp.right hdrops.kept
  obtain ⟨⟨persisted, s₂⟩, hpersist, hrun⟩ := Option.bind_eq_some_iff.mp hrun
  obtain ⟨⟨ptr, s₃⟩, hstore, hrun⟩ := Option.bind_eq_some_iff.mp hrun
  obtain ⟨hstaged, b₂, rfl, hk₂⟩ := persistAll_some hpersist
  obtain ⟨b₃, oldest, rfl, hk₃, -⟩ := storeBlock_some hstore
  have hpersisted : persisted.map (fun q => q.staged.txId) = included.map StagedIncluded.txId := by
    rw [← hstaged, List.map_map]
    rfl
  have h₃ : Consistent c counting
      { applyDrops c evm s drops with blobStore := b₃, oldestBlock := oldest } p₁ := by
    have hblobs := consistent_blobs hdrops.consistent (hk₂.trans hk₃)
    exact ⟨hblobs.indexed, hblobs.backed, hblobs.archived, hblobs.bounded, hblobs.counted⟩
  rw [← hpersisted] at hpending
  have hincludes := includes_includeAll evm ctx.blockNumber h₃ hpending
  intro id hid
  rw [← hpersisted] at hid
  obtain rfl := Option.some.inj hrun
  obtain ⟨index, keys, hfee⟩ := rebuildPendingFee_frame (c := c) (W := W) _ _
  rw [hfee]
  exact (hincludes.other id hid).trans (by rw [← hquiet.receipts])

def Produced (s t : StableState W) : Except ChainError ProduceBlockOutcome → Prop
  | .error _ => AddsReceipts s [] t
  | .ok outcome => AddsReceipts s outcome.block.txIds t

theorem produced_produceBlock {evm : Evm W} {env : CallEnv} {maxTxs : Nat} {s t : StableState W}
    {p : Pool} {r : Except ChainError ProduceBlockOutcome} (h : Consistent c counting s p)
    (hrun : produceBlock c evm env maxTxs s = some (r, t)) : Produced s t r := by
  rw [produceBlock] at hrun
  split_ifs at hrun with hmax
  · obtain ⟨rfl, rfl⟩ := Prod.mk.inj (Option.some.inj hrun)
    exact (Quiet.refl s).adds []
  · dsimp only at hrun
    obtain ⟨⟨m, hstate⟩, -⟩ := prepares_candidates (c := c) env
      ⟨saturatingAdd u64Max s.head.number 1, max (saturatingAdd u64Max s.head.timestamp 1) env.now,
        s.chainState.baseFee, s.chainState.blockGasLimit⟩
      s.chainState.updateInstructionSoftLimit (env.counter 0)
      (selectReadyCandidates c s s.chainState.baseFee maxTxs) ⟨s, 1, [], 0, .empty⟩
    have hprepared := prepared_of_select h env
      ⟨saturatingAdd u64Max s.head.number 1, max (saturatingAdd u64Max s.head.timestamp 1) env.now,
        s.chainState.baseFee, s.chainState.blockGasLimit⟩
      s.chainState.updateInstructionSoftLimit (env.counter 0) s.chainState.baseFee maxTxs
    generalize prepareCandidates c env _ _ _ _ _ = q at hrun hprepared hstate
    have hquiet : Quiet s q.state := by
      rw [hstate]
      exact quiet_decodeSuppress m
    split_ifs at hrun with hempty hnone
    · obtain ⟨rfl, rfl⟩ := Prod.mk.inj (Option.some.inj hrun)
      exact (Quiet.refl s).adds []
    · obtain ⟨rfl, rfl⟩ := Prod.mk.inj (Option.some.inj hrun)
      exact (hquiet.trans (quiet_applyDrops evm _ _)).adds []
    · split at hrun
      · obtain ⟨rfl, rfl⟩ := Prod.mk.inj (Option.some.inj hrun)
        exact hquiet.adds []
      · rename_i x hexec
        have hpending : Pending p (x.drops.map QueuedDrop.txId ++
            x.included.map StagedIncluded.txId) :=
          hprepared.pending.subperm (executes_staged hexec).ids
        split_ifs at hrun with hincluded
        · obtain ⟨rfl, rfl⟩ := Prod.mk.inj (Option.some.inj hrun)
          exact (hquiet.trans (quiet_applyDrops evm _ _)).adds []
        · split at hrun
          · obtain ⟨rfl, rfl⟩ := Prod.mk.inj (Option.some.inj hrun)
            exact hquiet.adds []
          · rename_i root world _
            obtain ⟨u, hcommit, heq⟩ := Option.map_eq_some_iff.mp hrun
            obtain ⟨rfl, rfl⟩ := Prod.mk.inj heq
            have hworld (world : W) : Consistent c counting { q.state with world := world } p :=
              ⟨hprepared.consistent.indexed, hprepared.consistent.backed,
                hprepared.consistent.archived, hprepared.consistent.bounded,
                hprepared.consistent.counted⟩
            intro id hid
            rw [adds_commitBlock (hworld _) hpending hcommit id hid]
            exact congrArg (fun m => m.get id) hquiet.receipts

theorem receiptless_of_pending {s : StableState W} {p : Pool} {e : PoolEntry} {id : TxId}
    (h : Indexed s.pendingMaps p) (hb : Books s) (hid : p.entry id = some e) :
    s.receipts.get id = none := by
  cases hptr : s.receipts.get id with
  | none => rfl
  | some ptr =>
      have hnone := (h.idle_iff id).mp (hb id ptr hptr).idle
      exact absurd (hnone.symm.trans hid) (by simp)

theorem receiptless_produceBlock {evm : Evm W} {env : CallEnv} {maxTxs : Nat} {s t : StableState W}
    {p : Pool} {outcome : ProduceBlockOutcome} (h : Consistent c counting s p) (hb : Books s)
    (hrun : produceBlock c evm env maxTxs s = some (.ok outcome, t)) :
    ∀ id ∈ outcome.block.txIds, s.receipts.get id = none := by
  rw [produceBlock] at hrun
  split_ifs at hrun with hmax
  · exact absurd (Prod.mk.inj (Option.some.inj hrun)).1 (by simp)
  · dsimp only at hrun
    obtain ⟨⟨m, hstate⟩, -⟩ := prepares_candidates (c := c) env
      ⟨saturatingAdd u64Max s.head.number 1, max (saturatingAdd u64Max s.head.timestamp 1) env.now,
        s.chainState.baseFee, s.chainState.blockGasLimit⟩
      s.chainState.updateInstructionSoftLimit (env.counter 0)
      (selectReadyCandidates c s s.chainState.baseFee maxTxs) ⟨s, 1, [], 0, .empty⟩
    have hprepared := prepared_of_select h env
      ⟨saturatingAdd u64Max s.head.number 1, max (saturatingAdd u64Max s.head.timestamp 1) env.now,
        s.chainState.baseFee, s.chainState.blockGasLimit⟩
      s.chainState.updateInstructionSoftLimit (env.counter 0) s.chainState.baseFee maxTxs
    generalize prepareCandidates c env _ _ _ _ _ = q at hrun hprepared hstate
    have hquiet : Quiet s q.state := by
      rw [hstate]
      exact quiet_decodeSuppress m
    split_ifs at hrun with hempty hnone
    · exact absurd (Prod.mk.inj (Option.some.inj hrun)).1 (by simp)
    · exact absurd (Prod.mk.inj (Option.some.inj hrun)).1 (by simp)
    · split at hrun
      · exact absurd (Prod.mk.inj (Option.some.inj hrun)).1 (by simp)
      · rename_i x hexec
        have hpending : Pending p (x.drops.map QueuedDrop.txId ++
            x.included.map StagedIncluded.txId) :=
          hprepared.pending.subperm (executes_staged hexec).ids
        split_ifs at hrun with hincluded
        · exact absurd (Prod.mk.inj (Option.some.inj hrun)).1 (by simp)
        · split at hrun
          · exact absurd (Prod.mk.inj (Option.some.inj hrun)).1 (by simp)
          · obtain ⟨u, -, heq⟩ := Option.map_eq_some_iff.mp hrun
            obtain ⟨houtcome, -⟩ := Prod.mk.inj heq
            obtain rfl := Except.ok.inj houtcome
            intro id hid
            have hmem : id ∈ x.drops.map QueuedDrop.txId ++ x.included.map StagedIncluded.txId :=
              List.mem_append_right _ hid
            obtain ⟨e, he⟩ := hpending.pending id hmem
            rw [← hquiet.receipts]
            exact receiptless_of_pending hprepared.consistent.indexed (hquiet.advances.books hb) he

end Kasane.Chain
