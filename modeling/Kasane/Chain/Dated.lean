import Kasane.Chain.Located
import Kasane.Chain.PruneTick

namespace Kasane.Chain

open BigEndian Codec Word Blob

variable {W : Type} {c : Crypto} {evm : Evm W}

-- the recorded oldest block is the first of the stored ones
structure OldestRecorded (s : StableState W) : Prop where
  bare : s.oldestBlock = none → ∀ n, s.blocks.get n = none
  first : ∀ first ts, s.oldestBlock = some (first, ts) →
    (s.blocks.get first).isSome ∧ ∀ n, (s.blocks.get n).isSome → first ≤ n

-- the timestamps rise from block to block, up to that of the head
structure Dated (s : StableState W) : Prop where
  time_le : s.head.timestamp ≤ u64Max
  head : ∀ block, loadBlock s s.head.number = some block →
    block.timestamp.toNat = s.head.timestamp
  positive : ∀ n block, loadBlock s n = some block → 1 ≤ block.timestamp.toNat
  within : ∀ n block, loadBlock s n = some block → block.timestamp.toNat ≤ s.head.timestamp
  rising : ∀ m n a b, m < n → loadBlock s m = some a → loadBlock s n = some b →
    a.timestamp.toNat < b.timestamp.toNat ∨ b.timestamp.toNat = u64Max
  oldest : OldestRecorded s

theorem Dated.increasing {s : StableState W} (h : Dated s) (hlt : s.head.timestamp < u64Max) :
    Increasing s := by
  intro m n a b hmn ha hb
  refine (h.rising m n a b hmn ha hb).resolve_right (fun hmax => ?_)
  have hwithin := h.within n b hb
  omega

section Refreshed

variable {s : StableState W}

end Refreshed

theorem Dated.same {s t : StableState W} (h : Dated s) (hview : t.exportView = s.exportView)
    (hold : OldestRecorded t) : Dated t := by
  have hhead : t.head = s.head := congrArg ExportView.head hview
  have hload := loadBlock_of_view hview
  refine ⟨?_, ?_, ?_, ?_, ?_, hold⟩
  · rw [hhead]
    exact h.time_le
  · rw [hhead, hload]
    exact h.head
  · simp only [hload]
    exact h.positive
  · rw [hhead]
    simp only [hload]
    exact h.within
  · simp only [hload]
    exact h.rising

theorem OldestRecorded.same {s t : StableState W} (h : OldestRecorded s)
    (hview : t.exportView = s.exportView) (hold : t.oldestBlock = s.oldestBlock) :
    OldestRecorded t := by
  have hblocks : t.blocks = s.blocks := congrArg ExportView.blocks hview
  refine ⟨?_, ?_⟩
  · rw [hold, hblocks]
    exact h.bare
  · rw [hold, hblocks]
    exact h.first

theorem oldest_promote (s : StableState W) (sender : Address) (id : TxId) (nonce : Nat)
    (envelope : StoredTxBytes) (seq : Nat) :
    (promoteIfNextNonce s sender id nonce envelope seq).oldestBlock = s.oldestBlock := by
  rw [promoteIfNextNonce]
  split
  · rfl
  · split
    · rfl
    · split
      · rfl
      · rename_i old _
        have hready : (removeReadyByTxId s old).oldestBlock = s.oldestBlock := by
          rw [removeReadyByTxId]
          split
          · rfl
          · rfl
        exact hready
  · rfl

theorem oldest_step {s t : StableState W} (h : PoolStep c s t) : t.oldestBlock = s.oldestBlock := by
  cases h with
  | touched nonces m => rfl
  | @dropped p id e _ _ nonces code =>
      obtain ⟨keys, index, hashes, locs, ring, ringState, heq⟩ :=
        markDropped_eq (c := c) { unlinked c s id e with senderExpectedNonce := nonces } id code
      rw [dropped, heq]
      rfl
  | @queued p sender nonce price envelope _ _ _ _ _ _ _ =>
      obtain ⟨hashes, heq⟩ := enqueuePending_linked (c := c) s sender nonce price envelope
      rw [heq, oldest_promote]
      rfl

theorem oldest_steps {s t : StableState W} (h : PoolSteps c s t) :
    t.oldestBlock = s.oldestBlock := by
  induction h with
  | refl => rfl
  | tail _ hstep ih => exact (oldest_step hstep).trans ih

theorem Dated.steps {s t : StableState W} (h : Dated s) (hsteps : PoolSteps c s t) : Dated t :=
  h.same (offQueue_steps hsteps).view
    (h.oldest.same (offQueue_steps hsteps).view (oldest_steps hsteps))

theorem loads_committed {ctx : BlockExecContext} {gasUsed : Nat} {block : BlockData}
    {s t : StableState W} (hs : Stocked s) (h : Commits ctx gasUsed block s t) {n : Nat}
    {b : BlockData} (hne : n ≠ ctx.blockNumber) (hload : loadBlock t n = some b) :
    loadBlock s n = some b := by
  obtain ⟨p, hblocks, -⟩ := h.stored
  have hget : t.blocks.get n = s.blocks.get n := by
    rw [hblocks]
    exact (OrdMap.get_insert ..).trans (if_neg hne)
  rw [loadBlock_eq] at hload ⊢
  obtain ⟨ptr, bytes, hptr, -, -⟩ := blockAt_some hload
  refine blockAt_of_keeps h.keeps hs.sound (fun {n ptr} => hs.settled n ptr) ?_
  rw [← hload]
  exact blockAt_congr hptr (hget.symm.trans hptr) rfl

theorem Committed.fields {env : CallEnv} {maxTxs : Nat} {s t : StableState W}
    {outcome : ProduceBlockOutcome} {x : ExecState evm} {root : evm.Root} {world : W}
    (h : Committed c evm env maxTxs s t outcome x root world) (hnow : env.now ≤ u64Max) :
    outcome.block.number.toNat = (blockContext env s).blockNumber ∧
      outcome.block.timestamp.toNat = (blockContext env s).timestamp := by
  rw [h.block]
  have hnumber : (blockContext env s).blockNumber < 2 ^ 64 :=
    Nat.lt_of_le_of_lt (min_le_right _ _) (by decide : u64Max < 2 ^ 64)
  have hstamp : (blockContext env s).timestamp < 2 ^ 64 :=
    Nat.lt_of_le_of_lt (max_le (min_le_right _ _) hnow) (by decide : u64Max < 2 ^ 64)
  exact ⟨UInt64.toNat_ofNat_of_lt' hnumber, UInt64.toNat_ofNat_of_lt' hstamp⟩

theorem OldestRecorded.stored {s t : StableState W} (h : OldestRecorded s) {number ts : Nat}
    {ptr : BlobPtr} (hblocks : t.blocks = s.blocks.insert number ptr)
    (hold : t.oldestBlock = s.oldestBlock.or (some (number, ts)))
    (hbelow : ∀ n, (s.blocks.get n).isSome → n ≤ number) : OldestRecorded t := by
  have hget (n : Nat) : t.blocks.get n = if n = number then some ptr else s.blocks.get n := by
    rw [hblocks]
    exact OrdMap.get_insert ..
  cases hsome : s.oldestBlock with
  | none =>
      rw [hsome, Option.none_or] at hold
      have hempty := h.bare hsome
      refine ⟨fun hnone => absurd (hold.symm.trans hnone) (by simp), fun first ts' hfirst => ?_⟩
      obtain ⟨rfl, -⟩ := Prod.mk.inj (Option.some.inj (hold.symm.trans hfirst))
      refine ⟨by rw [hget, if_pos rfl]; rfl, fun n hn => ?_⟩
      rw [hget, hempty n] at hn
      split_ifs at hn with heq
      · exact heq.ge
      · exact absurd hn (by simp)
  | some oldest =>
      rw [hsome, Option.some_or] at hold
      refine ⟨fun hnone => absurd (hold.symm.trans hnone) (by simp), fun first ts' hfirst => ?_⟩
      obtain rfl := Option.some.inj (hold.symm.trans hfirst)
      obtain ⟨hstored, hleast⟩ := h.first first ts' hsome
      refine ⟨?_, fun n hn => ?_⟩
      · rw [hget]
        split_ifs
        · rfl
        · exact hstored
      · rw [hget] at hn
        split_ifs at hn with heq
        · rw [heq]
          exact hbelow first hstored
        · exact hleast n hn

theorem Trimmed.loaded {next n : Nat} {s t : StableState W} {b : BlockData}
    (h : Trimmed c next s t) (hs : Shelved s) (hload : loadBlock t n = some b) :
    next ≤ n ∧ loadBlock s n = some b := by
  have hlow : next ≤ n := by
    by_contra hlt
    rw [loadBlock_none_of_blocks ((h.blocks n).trans (if_pos (not_le.mp hlt)))] at hload
    exact absurd hload (by simp)
  rw [h.loads hs hlow] at hload
  exact ⟨hlow, hload⟩

theorem Dated.pruned {retain : Nat} {s t : StableState W} (h : Dated s) (hw : Window s)
    (hp : Prunes c retain s t) (hold : OldestRecorded t) : Dated t := by
  have hhead : t.head = s.head := congrArg UnprunedView.head hp.trimmed.unpruned
  have hload {n : Nat} {b : BlockData} (hb : loadBlock t n = some b) : loadBlock s n = some b :=
    (hp.trimmed.loaded hw.shelved hb).2
  refine ⟨?_, ?_, ?_, ?_, ?_, hold⟩
  · rw [hhead]
    exact h.time_le
  · intro b hb
    rw [hhead] at hb ⊢
    exact h.head b (hload hb)
  · exact fun n b hb => h.positive n b (hload hb)
  · intro n b hb
    rw [hhead]
    exact h.within n b (hload hb)
  · exact fun m n a b hmn ha hb => h.rising m n a b hmn (hload ha) (hload hb)

end Kasane.Chain
