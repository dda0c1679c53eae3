import Kasane.Chain.Consistent
import Kasane.Chain.PruneRecovery

namespace Kasane.Chain

open BigEndian Codec Word Blob

variable {W : Type} {c : Crypto} {counting : Prop}

def SilentBlock (c : Crypto) (s : StableState W) (block : BlockData) : Prop :=
  ∀ id ∈ block.txIds, ∀ who, storedPrincipal c s.txStore id = some who →
    pendingCount c s.txStore s.pendingBySenderNonce who = 0

structure Discards (c : Crypto) (counting : Prop) (p : Pool) (ids : List TxId) (s : StableState W) :
    Prop where
  consistent : Consistent c counting s p
  idle : ∀ id ∈ ids, p.entry id = none
  unarchived : ∀ id ∈ ids, ∀ n b, blockAt s.blobStore s.blocks n = some b → id ∉ b.txIds
  silent : counting → ∀ id ∈ ids, ∀ who, storedPrincipal c s.txStore id = some who →
    pendingCount c s.txStore s.pendingBySenderNonce who = 0

def PruneStep.Housekeeping : PruneStep → Prop
  | .reclaim _ => True
  | .removeJournal _ => True
  | .setPruneState _ => True
  | _ => False

theorem discards_removeBlock {s : StableState W} {p : Pool} {n : Nat} {block : BlockData}
    (h : Consistent c counting s p) (hload : loadBlock s n = some block)
    (hsilent : counting → SilentBlock c s block) :
    Discards c counting p block.txIds { s with blocks := s.blocks.remove n } := by
  have hblocks {m : Nat} {ptr : BlobPtr} (hget : (s.blocks.remove n).get m = some ptr) :
      m ≠ n ∧ s.blocks.get m = some ptr := by
    rw [OrdMap.get_remove] at hget
    split_ifs at hget with hm
    exact ⟨hm, hget⟩
  refine ⟨?_, ?_, ?_, hsilent⟩
  · exact ⟨h.indexed, h.backed, h.archived.mono (.refl _) (fun hget => (hblocks hget).2)
      (fun _ _ => rfl) (fun _ _ hp => hp), h.bounded, h.counted⟩
  · intro id hid
    exact h.archived.idle hload hid
  · intro id hid m b hb hmem
    obtain ⟨ptr, bytes, hptr, hread, -⟩ := blockAt_some hb
    obtain ⟨hne, hget⟩ := hblocks hptr
    have hold : blockAt s.blobStore s.blocks m = some b := by
      rw [← hb]
      exact blockAt_congr hptr hget rfl
    exact h.archived.apart hne hold hload hmem hid

theorem discards_decrement {s : StableState W} {p : Pool} {ids : List TxId} {id : TxId}
    (h : Discards c counting p ids s) (hid : id ∈ ids) :
    Discards c counting p ids (decrementPrincipalPendingCountForTx c s id) := by
  rw [decrementPrincipal_counts]
  refine ⟨⟨h.consistent.indexed, h.consistent.backed, h.consistent.archived, h.consistent.bounded, ?_⟩,
    h.idle, h.unarchived, h.silent⟩
  intro hcounting who
  have hcount := h.consistent.counted hcounting who
  cases hstored : storedPrincipal c s.txStore id with
  | none =>
      change ((decrementedCounts c s.txStore s.principalPendingCount id).get _).getD 0 = _
      rw [decrementedCounts_of_none hstored]
      exact hcount
  | some other =>
      have hzero := h.silent hcounting id hid other hstored
      change ((decrementedCounts c s.txStore s.principalPendingCount id).get _).getD 0 = _
      rw [decrementedCounts_of_principal hstored, hcount]
      split_ifs with heq
      · obtain rfl := heq
        change _ - 1 = pendingCount c s.txStore s.pendingBySenderNonce who
        rw [hzero]
      · rfl

theorem ne_of_idle {p : Pool} {ids : List TxId} (h : ∀ id ∈ ids, p.entry id = none) {id j : TxId}
    {e : PoolEntry} (hid : id ∈ ids) (hj : p.entry j = some e) : j ≠ id := by
  rintro rfl
  exact absurd ((h j hid).symm.trans hj) (by simp)

theorem discards_removeTxLoc {s : StableState W} {p : Pool} {ids : List TxId} {id : TxId}
    (h : Discards c counting p ids s) (hid : id ∈ ids) :
    Discards c counting p ids (txLocsRemove s id) := by
  refine ⟨⟨h.consistent.indexed, ?_, h.consistent.archived, h.consistent.bounded,
    h.consistent.counted⟩, h.idle, h.unarchived, h.silent⟩
  refine h.consistent.backed.mono (fun hj => ⟨_, hj⟩) (fun _ => rfl) ?_ (fun _ => rfl)
  intro j e loc hj hloc _
  rw [txLocsRemove, OrdMap.get_remove, if_neg (ne_of_idle h.idle hid hj)]
  exact hloc

theorem discards_removeTxStore {s : StableState W} {p : Pool} {ids : List TxId} {id : TxId}
    (h : Discards c counting p ids s) (hid : id ∈ ids) :
    Discards c counting p ids { s with txStore := s.txStore.remove id } := by
  have hpending : ∀ key j, s.pendingBySenderNonce.get key = some j →
      (s.txStore.remove id).get j = s.txStore.get j := by
    intro key j hget
    obtain ⟨i, e, hi, -, rfl⟩ := (h.consistent.indexed.bySender key j).mp hget
    rw [OrdMap.get_remove, if_neg (ne_of_idle h.idle hid hi)]
  refine ⟨⟨h.consistent.indexed, ?_, h.consistent.archived, h.consistent.bounded, ?_⟩, h.idle,
    h.unarchived, ?_⟩
  · refine h.consistent.backed.mono (fun hj => ⟨_, hj⟩) ?_ (fun _ hl _ => hl) (fun _ => rfl)
    intro j e hj
    rw [OrdMap.get_remove, if_neg (ne_of_idle h.idle hid hj)]
  · intro hcounting
    exact (h.consistent.counted hcounting).congr hpending
  · intro hcounting j hj who hwho
    rw [pendingCount_congr hpending]
    refine h.silent hcounting j hj who ?_
    rw [storedPrincipal, OrdMap.get_remove] at hwho
    split_ifs at hwho with heq
    · exact absurd hwho (by simp)
    · exact hwho

theorem discards_removeSeenTx {s : StableState W} {p : Pool} {ids : List TxId} {id : TxId}
    (h : Discards c counting p ids s) (hid : id ∈ ids) :
    Discards c counting p ids { s with seenTx := s.seenTx.remove id } := by
  refine ⟨⟨h.consistent.indexed, ?_, ?_, h.consistent.bounded, h.consistent.counted⟩, h.idle,
    h.unarchived, h.silent⟩
  · refine h.consistent.backed.mono (fun hj => ⟨_, hj⟩) (fun _ => rfl) (fun _ hl _ => hl) ?_
    intro j e hj
    rw [OrdMap.get_remove, if_neg (ne_of_idle h.idle hid hj)]
  · refine h.consistent.archived.mono (.refl _) (fun hptr => hptr) ?_ (fun _ _ hp => hp)
    intro n block j hb hj
    have hne : j ≠ id := by
      rintro rfl
      exact h.unarchived j hid n block hb hj
    rw [OrdMap.get_remove, if_neg hne]

theorem discards_blobs {s : StableState W} {p : Pool} {ids : List TxId} {blobs : BlobStore}
    (h : Discards c counting p ids s) (hk : s.blobStore.Keeps blobs) :
    Discards c counting p ids { s with blobStore := blobs } := by
  refine ⟨⟨h.consistent.indexed, h.consistent.backed, ?_, h.consistent.bounded,
    h.consistent.counted⟩, h.idle, ?_, h.silent⟩
  · exact h.consistent.archived.mono hk (fun hptr => hptr) (fun _ _ => rfl) (fun _ _ hp => hp)
  · intro id hid n b hb
    exact h.unarchived id hid n b
      (blockAt_of_keeps hk h.consistent.archived.sound h.consistent.archived.settled hb)

theorem discards_txStep {s t : StableState W} {p : Pool} {ids : List TxId} {id : TxId}
    {step : PruneStep} (h : Discards c counting p ids s) (hid : id ∈ ids)
    (hstep : step ∈ pruneTxSteps id) (hrun : step.run c s = .ok t) :
    Discards c counting p ids t := by
  have hframe (u : StableState W) (hmaps : u.pendingMaps = s.pendingMaps)
      (hstore : u.txStore = s.txStore) (hlocs : u.txLocs = s.txLocs) (hseen : u.seenTx = s.seenTx)
      (hblobs : u.blobStore = s.blobStore) (hblocks : u.blocks = s.blocks)
      (hcounts : u.principalPendingCount = s.principalPendingCount) :
      Discards c counting p ids u := by
    have hpending : u.pendingBySenderNonce = s.pendingBySenderNonce :=
      congrArg PendingMaps.bySenderNonce hmaps
    refine ⟨⟨?_, ?_, ?_, ?_, ?_⟩, h.idle, ?_, ?_⟩
    · rw [hmaps]; exact h.consistent.indexed
    · rw [hstore, hlocs, hseen]; exact h.consistent.backed
    · rw [hblobs, hblocks, hseen]; exact h.consistent.archived
    · rw [hpending]; exact h.consistent.bounded
    · rw [hstore, hpending, hcounts]; exact h.consistent.counted
    · rw [hblobs, hblocks]; exact h.unarchived
    · rw [hstore, hpending]; exact h.silent
  simp only [pruneTxSteps, List.mem_cons, List.not_mem_nil, or_false] at hstep
  rcases hstep with rfl | rfl | rfl | rfl | rfl | rfl | rfl | rfl | rfl
  · obtain rfl := Except.ok.inj hrun
    have hnone : s.pendingFeeKeyByTxId.get id = none :=
      h.consistent.indexed.feeKey.get_none (fun _ _ hj => ne_of_idle h.idle hid hj)
    have hsame : removePendingFeeIndexByTxId s id = s := by
      rw [removePendingFeeIndexByTxId, hnone]
    rw [hsame]
    exact h
  · obtain rfl := Except.ok.inj hrun
    exact discards_decrement h hid
  · obtain rfl := Except.ok.inj hrun
    exact hframe _ rfl rfl rfl rfl rfl rfl rfl
  · obtain rfl := Except.ok.inj hrun
    exact hframe _ rfl rfl rfl rfl rfl rfl rfl
  · obtain rfl := Except.ok.inj hrun
    exact hframe _ rfl rfl rfl rfl rfl rfl rfl
  · obtain rfl := Except.ok.inj hrun
    exact discards_removeTxLoc h hid
  · obtain rfl := Except.ok.inj hrun
    obtain ⟨index, heq⟩ := removeEthTxHashIndexForTxId_eq c s id
    rw [heq]
    exact hframe _ rfl rfl rfl rfl rfl rfl rfl
  · obtain rfl := Except.ok.inj hrun
    exact discards_removeTxStore h hid
  · obtain rfl := Except.ok.inj hrun
    exact discards_removeSeenTx h hid

theorem discards_housekeeping {s t : StableState W} {p : Pool} {ids : List TxId} {step : PruneStep}
    (h : Discards c counting p ids s) (hstep : step.Housekeeping) (hrun : step.run c s = .ok t) :
    Discards c counting p ids t := by
  cases step with
  | reclaim ptr =>
      rw [PruneStep.run] at hrun
      split at hrun
      · rename_i blobs hreclaim
        obtain rfl := Except.ok.inj hrun
        exact discards_blobs h (BlobStore.keeps_reclaimForPrune hreclaim)
      · exact absurd hrun (by simp)
  | removeJournal n =>
      obtain rfl := Except.ok.inj hrun
      exact ⟨⟨h.consistent.indexed, h.consistent.backed, h.consistent.archived,
        h.consistent.bounded, h.consistent.counted⟩, h.idle, h.unarchived, h.silent⟩
  | setPruneState q =>
      obtain rfl := Except.ok.inj hrun
      exact ⟨⟨h.consistent.indexed, h.consistent.backed, h.consistent.archived,
        h.consistent.bounded, h.consistent.counted⟩, h.idle, h.unarchived, h.silent⟩
  | _ => exact absurd hstep (fun hfalse => hfalse)

theorem discards_runSteps {s t : StableState W} {p : Pool} {ids : List TxId}
    {steps : List PruneStep} {r : Except ChainError Unit} (h : Discards c counting p ids s)
    (hsteps : ∀ step ∈ steps, (∃ id ∈ ids, step ∈ pruneTxSteps id) ∨ step.Housekeeping)
    (hrun : runSteps c steps s = (r, t)) : Discards c counting p ids t := by
  refine runSteps_rule (P := Discards c counting p ids) hrun ?_ h
  intro step hm u v hu hstep
  rcases hsteps step hm with ⟨id, hid, hmem⟩ | hkeep
  · exact discards_txStep hu hid hmem hstep
  · exact discards_housekeeping hu hkeep hstep

theorem consistent_housekeeping {s t : StableState W} {p : Pool} {steps : List PruneStep}
    {r : Except ChainError Unit} (h : Consistent c counting s p)
    (hsteps : ∀ step ∈ steps, step.Housekeeping) (hrun : runSteps c steps s = (r, t)) :
    Consistent c counting t p := by
  have hnone : Discards c counting p [] s :=
    ⟨h, fun _ hid => absurd hid (by simp), fun _ hid => absurd hid (by simp),
      fun _ _ hid => absurd hid (by simp)⟩
  exact (discards_runSteps hnone (fun step hm => Or.inr (hsteps step hm)) hrun).consistent

theorem consistent_dropBlock {s t : StableState W} {p : Pool} {n : Nat} {block : BlockData}
    {rest : List PruneStep} {r : Except ChainError Unit} (h : Consistent c counting s p)
    (hload : loadBlock s n = some block) (hsilent : counting → SilentBlock c s block)
    (hrest : ∀ step ∈ rest, step.Housekeeping) (k : Nat)
    (hrun : runSteps c ((dropBlockSteps n block ++ rest).take k) s = (r, t)) :
    Consistent c counting t p := by
  cases k with
  | zero =>
      obtain ⟨-, rfl⟩ := Prod.mk.inj hrun
      exact h
  | succ k =>
      rw [dropBlockSteps, List.cons_append, List.take_succ_cons, runSteps] at hrun
      refine (discards_runSteps (discards_removeBlock h hload hsilent) ?_ hrun).consistent
      intro step hm
      rcases List.mem_append.mp (List.mem_of_mem_take hm) with hm | hm
      · exact Or.inl (List.mem_flatMap.mp hm)
      · exact Or.inr (hrest step hm)

theorem housekeeping_tail {n : Nat} {ptrs : List BlobPtr} {q : PruneState} {step : PruneStep}
    (h : step ∈ ptrs.map PruneStep.reclaim ++ [.removeJournal n, .setPruneState q]) :
    step.Housekeeping := by
  rcases List.mem_append.mp h with h | h
  · obtain ⟨ptr, -, rfl⟩ := List.mem_map.mp h
    trivial
  · rcases List.mem_cons.mp h with rfl | h
    · trivial
    · obtain rfl := List.mem_singleton.mp h
      trivial

theorem housekeeping_reclaimSteps {n : Nat} {ptrs : List BlobPtr} {step : PruneStep}
    (h : step ∈ reclaimSteps n ptrs) : step.Housekeeping := by
  rcases List.mem_append.mp h with h | h
  · obtain ⟨ptr, -, rfl⟩ := List.mem_map.mp h
    trivial
  · obtain rfl := List.mem_singleton.mp h
    trivial

theorem consistent_crashed {s : StableState W} {p : Pool} {cur : PruneCursor} {block : BlockData}
    (h : Consistent c counting s p) (hload : loadBlock s cur.next = some block)
    (hsilent : counting → SilentBlock c s block) (k : Nat) :
    Consistent c counting (crashed c cur block k s) p := by
  have hjournaled : Consistent c counting (journaledState cur block s) p :=
    ⟨h.indexed, h.backed, h.archived, h.bounded, h.counted⟩
  have hload' : loadBlock (journaledState cur block s) cur.next = some block := hload
  exact consistent_dropBlock hjournaled hload' hsilent (fun _ hm => housekeeping_tail hm) k rfl

theorem consistent_pruneOneBlock {s t : StableState W} {p : Pool} {cur : PruneCursor}
    {block : BlockData} {r : Except ChainError Unit} (h : Consistent c counting s p)
    (hload : loadBlock s cur.next = some block) (hsilent : counting → SilentBlock c s block)
    (hrun : pruneOneBlock c cur block s = (r, t)) : Consistent c counting t p := by
  have hall := consistent_crashed h hload hsilent (blockSteps cur block s).length
  rw [crashed_all (le_refl _), hrun] at hall
  exact hall

theorem consistent_refreshOldest {s : StableState W} {p : Pool} (h : Consistent c counting s p) :
    Consistent c counting (refreshOldest s) p := by
  obtain ⟨oldest, heq⟩ := refreshOldest_eq s
  rw [heq]
  exact ⟨h.indexed, h.backed, h.archived, h.bounded, h.counted⟩

theorem consistent_finishRecovery {s : StableState W} {p : Pool} (q : PruneState)
    (h : Consistent c counting s p) : Consistent c counting (finishRecovery q s).2 p := by
  rw [finishRecovery]
  exact consistent_refreshOldest ⟨h.indexed, h.backed, h.archived, h.bounded, h.counted⟩

def RecoverySilent (c : Crypto) (s : StableState W) : Prop :=
  ∀ n ptrs block, s.pruneJournal.get n = some ptrs → loadBlock s n = some block → SilentBlock c s block

theorem consistent_finishSteps {s : StableState W} {p : Pool} {q : PruneState}
    {steps : List PruneStep}
    (h : ∀ {r t}, runSteps c steps s = (r, t) → Consistent c counting t p) :
    Consistent c counting (finishSteps c q steps s).2 p := by
  rw [finishSteps]
  rcases hrun : runSteps c steps s with ⟨r, t⟩
  cases r with
  | error e => exact h hrun
  | ok a => exact consistent_finishRecovery q (h hrun)

theorem consistent_recoverJournalBlock {s : StableState W} {p : Pool} (q : PruneState) (n : Nat)
    (h : Consistent c counting s p) (hsilent : counting → RecoverySilent c s) :
    Consistent c counting (recoverJournalBlock c q n s).2 p := by
  rw [recoverJournalBlock_eq]
  split
  · exact consistent_finishRecovery q h
  · exact consistent_finishSteps
      (fun hrun => consistent_housekeeping h (fun _ hm => housekeeping_reclaimSteps hm) hrun)
  · rename_i ptrs block hget hload
    refine consistent_finishSteps (fun {r t} hrun => ?_)
    rw [← List.take_length (l := dropBlockSteps n block ++ reclaimSteps n ptrs)] at hrun
    exact consistent_dropBlock h hload (fun hc => hsilent hc n ptrs block hget hload)
      (fun _ hm => housekeeping_reclaimSteps hm) _ hrun

theorem consistent_recover {s : StableState W} {p : Pool} (h : Consistent c counting s p)
    (hsilent : counting → RecoverySilent c s) :
    Consistent c counting (recoverPruneJournal c s).2 p := by
  rw [recoverPruneJournal]
  split
  · exact consistent_recoverJournalBlock _ _ h hsilent
  · split
    · exact consistent_recoverJournalBlock _ _
        ⟨h.indexed, h.backed, h.archived, h.bounded, h.counted⟩ hsilent
    · exact ⟨h.indexed, h.backed, h.archived, h.bounded, h.counted⟩

theorem consistent_reach {pruneBefore maxOps : Nat} {start cur : PruneCursor} {s₀ s : StableState W}
    {p : Pool} (h : Consistent c counting s₀ p)
    (hsilent : counting → ∀ cur s block, PruneReach c pruneBefore maxOps start s₀ cur s →
      cur.next ≤ pruneBefore → loadBlock s cur.next = some block →
      saturatingAdd u64Max cur.opsUsed (pruneOpsNeededForBlock c s cur.next block) ≤ maxOps →
      SilentBlock c s block)
    (hreach : PruneReach c pruneBefore maxOps start s₀ cur s) : Consistent c counting s p := by
  induction hreach with
  | here => exact h
  | skip _ _ _ ih => exact ih
  | pruned hreach hle hload hops hmax hdone ih =>
      exact consistent_pruneOneBlock ih hload
        (fun hc => hsilent hc _ _ _ hreach hle hload (hops ▸ hmax)) hdone

inductive LoopEnd (c : Crypto) (pruneBefore maxOps : Nat) (start : PruneCursor)
    (s₀ : StableState W) : Except ChainError PruneCursor → StableState W → Prop
  | stopped {cur : PruneCursor} {s : StableState W}
      (reach : PruneReach c pruneBefore maxOps start s₀ cur s) :
      LoopEnd c pruneBefore maxOps start s₀ (.ok cur) s
  | failed {cur : PruneCursor} {s t : StableState W} {block : BlockData} {e : ChainError}
      (reach : PruneReach c pruneBefore maxOps start s₀ cur s) (next_le : cur.next ≤ pruneBefore)
      (load : loadBlock s cur.next = some block)
      (ops_le : saturatingAdd u64Max cur.opsUsed
        (pruneOpsNeededForBlock c s cur.next block) ≤ maxOps)
      (error : pruneOneBlock c cur block s = (.error e, t)) :
      LoopEnd c pruneBefore maxOps start s₀ (.error e) t

theorem pruneLoop_end {pruneBefore maxOps fuel : Nat} {start cur : PruneCursor}
    {s₀ s t : StableState W} {r : Except ChainError PruneCursor}
    (hreach : PruneReach c pruneBefore maxOps start s₀ cur s)
    (hrun : pruneLoop c pruneBefore maxOps fuel cur s = (r, t)) :
    LoopEnd c pruneBefore maxOps start s₀ r t := by
  induction fuel generalizing cur s with
  | zero =>
      obtain ⟨rfl, rfl⟩ := Prod.mk.inj hrun
      exact .stopped hreach
  | succ fuel ih =>
      rw [pruneLoop] at hrun
      split_ifs at hrun with hle
      · obtain ⟨rfl, rfl⟩ := Prod.mk.inj hrun
        exact .stopped hreach
      · split at hrun
        · rename_i hnone
          exact ih (.skip hreach (not_lt.mp hle) hnone) hrun
        · rename_i block hload
          dsimp only at hrun
          split_ifs at hrun with hops
          · obtain ⟨rfl, rfl⟩ := Prod.mk.inj hrun
            exact .stopped hreach
          · split at hrun
            · rename_i e u hone
              obtain ⟨rfl, rfl⟩ := Prod.mk.inj hrun
              exact .failed hreach (not_lt.mp hle) hload (not_lt.mp hops) hone
            · rename_i u hone
              exact ih (.pruned hreach (not_lt.mp hle) hload rfl (not_lt.mp hops) hone) hrun

structure PruneSilent (c : Crypto) (retain maxOps : Nat) (s : StableState W) : Prop where
  recovery : RecoverySilent c s
  pruned : ∀ cur block t, Pruning c retain maxOps s cur block t → SilentBlock c t block

theorem consistent_pruning {retain maxOps : Nat} {s t : StableState W} {p : Pool} {cur : PruneCursor}
    {block : BlockData} (h : Consistent c counting s p)
    (hsilent : counting → PruneSilent c retain maxOps s)
    (hp : Pruning c retain maxOps s cur block t) : Consistent c counting t p := by
  obtain ⟨s₁, pruneBefore, hrec, hbefore, hnext, hreach⟩ := hp.reach
  have h₁ := consistent_recover h (fun hc => (hsilent hc).recovery)
  rw [hrec] at h₁
  refine consistent_reach h₁ ?_ hreach
  intro hc cur' s' block' hreach' hle hload hops
  exact (hsilent hc).pruned cur' block' s'
    ⟨hp.limits, ⟨s₁, pruneBefore, hrec, hbefore, hle, hreach'⟩, hload, hops⟩

theorem consistent_pruneBlocks {retain maxOps : Nat} {s : StableState W} {p : Pool}
    (h : Consistent c counting s p) (hsilent : counting → PruneSilent c retain maxOps s) :
    Consistent c counting (pruneBlocks c retain maxOps s).2 p := by
  rw [pruneBlocks]
  split_ifs with hlimits
  · exact h
  · rw [not_or] at hlimits
    have h₁ := consistent_recover h (fun hc => (hsilent hc).recovery)
    rcases hrec : recoverPruneJournal c s with ⟨r, s₁⟩
    rw [hrec] at h₁
    cases r with
    | error e => exact h₁
    | ok a =>
        dsimp only
        cases hbefore : pruneBeforeBlock s₁.head.number retain with
        | none => exact h₁
        | some pruneBefore =>
            dsimp only
            rcases hloop : pruneLoop c pruneBefore maxOps
              (pruneBefore + 1 - (startCursor s₁.pruneState).next) (startCursor s₁.pruneState) s₁
              with ⟨r, t⟩
            have hquiet : counting → ∀ cur s block,
                PruneReach c pruneBefore maxOps (startCursor s₁.pruneState) s₁ cur s →
                cur.next ≤ pruneBefore → loadBlock s cur.next = some block →
                saturatingAdd u64Max cur.opsUsed (pruneOpsNeededForBlock c s cur.next block) ≤ maxOps →
                SilentBlock c s block := by
              intro hc cur s' block hreach hle hload hops
              exact (hsilent hc).pruned cur block s'
                ⟨hlimits, ⟨s₁, pruneBefore, hrec, hbefore, hle, hreach⟩, hload, hops⟩
            cases pruneLoop_end .here hloop with
            | stopped hreach =>
                have ht := consistent_reach h₁ hquiet hreach
                exact consistent_refreshOldest
                  ⟨ht.indexed, ht.backed, ht.archived, ht.bounded, ht.counted⟩
            | failed hreach hle hload hops herror =>
                exact consistent_pruneOneBlock (consistent_reach h₁ hquiet hreach) hload
                  (fun hc => hquiet hc _ _ _ hreach hle hload hops) herror

end Kasane.Chain
