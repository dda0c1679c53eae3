import Kasane.Blob.ReadBack
import Kasane.Chain.Prune

namespace Kasane.Chain

open BigEndian Codec Word Blob

variable {W : Type} {c : Crypto}

theorem runSteps_append (xs ys : List PruneStep) (s : StableState W) :
    runSteps c (xs ++ ys) s =
      match runSteps c xs s with
      | (.ok (), s) => runSteps c ys s
      | (.error e, s) => (.error e, s) := by
  induction xs generalizing s with
  | nil => rfl
  | cons step xs ih =>
      rw [List.cons_append, runSteps, runSteps]
      cases step.run c s with
      | error e => rfl
      | ok t => exact ih t

theorem runSteps_append_ok {xs ys : List PruneStep} {s t : StableState W}
    (h : runSteps c (xs ++ ys) s = (.ok (), t)) :
    ∃ u, runSteps c xs s = (.ok (), u) ∧ runSteps c ys u = (.ok (), t) := by
  rw [runSteps_append] at h
  rcases hx : runSteps c xs s with ⟨r, u⟩
  rw [hx] at h
  cases r with
  | error e => exact absurd (congrArg Prod.fst h) (by simp)
  | ok a => exact ⟨u, rfl, h⟩

theorem runSteps_keeps {P : StableState W → Prop} {steps : List PruneStep}
    (hstep : ∀ step ∈ steps, ∀ s t, P s → step.run c s = .ok t → P t) {s : StableState W}
    (hs : P s) : P (runSteps c steps s).2 := by
  induction steps generalizing s with
  | nil => exact hs
  | cons step rest ih =>
      rw [runSteps]
      cases hrun : step.run c s with
      | error e => exact hs
      | ok t =>
          exact ih (fun st hm => hstep st (List.mem_cons_of_mem _ hm))
            (hstep step (List.mem_cons_self ..) s t hs hrun)

def PruneStep.SetsState : PruneStep → Prop
  | .setPruneState _ => True
  | _ => False

def PruneStep.Reclaims : PruneStep → Prop
  | .reclaim _ => True
  | _ => False

def PruneStep.RemovesJournal : PruneStep → Prop
  | .removeJournal _ => True
  | _ => False

structure PruneStep.Frame (step : PruneStep) (s t : StableState W) : Prop where
  pruneState : ¬ step.SetsState → t.pruneState = s.pruneState
  pruneJournal : ¬ step.RemovesJournal → t.pruneJournal = s.pruneJournal
  blobStore : ¬ step.Reclaims → t.blobStore = s.blobStore
  blocks : ∀ n, s.blocks.get n = none → t.blocks.get n = none
  head : t.head = s.head

theorem PruneStep.frame_of_run {step : PruneStep} {s t : StableState W} (h : step.run c s = .ok t) :
    step.Frame s t := by
  cases step with
  | removeBlock n =>
      obtain rfl := Except.ok.inj h
      refine ⟨fun _ => rfl, fun _ => rfl, fun _ => rfl, ?_, rfl⟩
      intro m hm
      rw [OrdMap.get_remove]
      split_ifs
      · rfl
      · exact hm
  | removeFeeIndex id =>
      obtain ⟨keys, index, heq⟩ := removePendingFeeIndexByTxId_eq s id
      obtain rfl := Except.ok.inj h
      rw [heq]
      exact ⟨fun _ => rfl, fun _ => rfl, fun _ => rfl, fun _ hm => hm, rfl⟩
  | decrementPrincipal id =>
      obtain ⟨counts, heq⟩ := decrementPrincipalPendingCountForTx_eq c s id
      obtain rfl := Except.ok.inj h
      rw [heq]
      exact ⟨fun _ => rfl, fun _ => rfl, fun _ => rfl, fun _ hm => hm, rfl⟩
  | removeEthTxHash id =>
      obtain ⟨index, heq⟩ := removeEthTxHashIndexForTxId_eq c s id
      obtain rfl := Except.ok.inj h
      rw [heq]
      exact ⟨fun _ => rfl, fun _ => rfl, fun _ => rfl, fun _ hm => hm, rfl⟩
  | reclaim ptr =>
      rw [PruneStep.run] at h
      split at h
      · obtain rfl := Except.ok.inj h
        exact ⟨fun _ => rfl, fun _ => rfl, fun hn => absurd trivial hn, fun _ hm => hm, rfl⟩
      · exact absurd h (by simp)
  | removeJournal n =>
      obtain rfl := Except.ok.inj h
      exact ⟨fun _ => rfl, fun hn => absurd trivial hn, fun _ => rfl, fun _ hm => hm, rfl⟩
  | setPruneState p =>
      obtain rfl := Except.ok.inj h
      exact ⟨fun hn => absurd trivial hn, fun _ => rfl, fun _ => rfl, fun _ hm => hm, rfl⟩
  | removeReceipt id =>
      obtain rfl := Except.ok.inj h
      exact ⟨fun _ => rfl, fun _ => rfl, fun _ => rfl, fun _ hm => hm, rfl⟩
  | removeTxIndex id =>
      obtain rfl := Except.ok.inj h
      exact ⟨fun _ => rfl, fun _ => rfl, fun _ => rfl, fun _ hm => hm, rfl⟩
  | removeInternalTraces id =>
      obtain rfl := Except.ok.inj h
      exact ⟨fun _ => rfl, fun _ => rfl, fun _ => rfl, fun _ hm => hm, rfl⟩
  | removeTxLoc id =>
      obtain rfl := Except.ok.inj h
      exact ⟨fun _ => rfl, fun _ => rfl, fun _ => rfl, fun _ hm => hm, rfl⟩
  | removeTxStore id =>
      obtain rfl := Except.ok.inj h
      exact ⟨fun _ => rfl, fun _ => rfl, fun _ => rfl, fun _ hm => hm, rfl⟩
  | removeSeenTx id =>
      obtain rfl := Except.ok.inj h
      exact ⟨fun _ => rfl, fun _ => rfl, fun _ => rfl, fun _ hm => hm, rfl⟩

theorem runSteps_rule {P : StableState W → Prop} {steps : List PruneStep}
    {r : Except ChainError Unit} {s t : StableState W} (hrun : runSteps c steps s = (r, t))
    (hstep : ∀ step ∈ steps, ∀ u v, P u → step.run c u = .ok v → P v) (hs : P s) : P t := by
  have h := runSteps_keeps hstep hs
  rwa [hrun] at h

theorem runSteps_pruneState {steps : List PruneStep} {r : Except ChainError Unit}
    {s t : StableState W} (hrun : runSteps c steps s = (r, t))
    (h : ∀ step ∈ steps, ¬ step.SetsState) : t.pruneState = s.pruneState := by
  refine runSteps_rule (P := fun t => t.pruneState = s.pruneState) hrun ?_ rfl
  intro step hm u v hu hstep
  exact ((PruneStep.frame_of_run hstep).pruneState (h step hm)).trans hu

theorem runSteps_pruneJournal {steps : List PruneStep} {r : Except ChainError Unit}
    {s t : StableState W} (hrun : runSteps c steps s = (r, t))
    (h : ∀ step ∈ steps, ¬ step.RemovesJournal) : t.pruneJournal = s.pruneJournal := by
  refine runSteps_rule (P := fun t => t.pruneJournal = s.pruneJournal) hrun ?_ rfl
  intro step hm u v hu hstep
  exact ((PruneStep.frame_of_run hstep).pruneJournal (h step hm)).trans hu

theorem runSteps_blocks_none {steps : List PruneStep} {r : Except ChainError Unit}
    {s t : StableState W} {n : Nat} (hrun : runSteps c steps s = (r, t))
    (h : s.blocks.get n = none) : t.blocks.get n = none := by
  refine runSteps_rule (P := fun t => t.blocks.get n = none) hrun ?_ h
  intro step _ u v hu hstep
  exact (PruneStep.frame_of_run hstep).blocks n hu

theorem runSteps_head {steps : List PruneStep} {r : Except ChainError Unit} {s t : StableState W}
    (hrun : runSteps c steps s = (r, t)) : t.head = s.head := by
  refine runSteps_rule (P := fun t => t.head = s.head) hrun ?_ rfl
  intro step _ u v hu hstep
  exact (PruneStep.frame_of_run hstep).head.trans hu

theorem runSteps_journal_get {steps : List PruneStep} {r : Except ChainError Unit}
    {s t : StableState W} {j : Nat} {ptrs : List BlobPtr} (hrun : runSteps c steps s = (r, t))
    (h : t.pruneJournal.get j = some ptrs) : s.pruneJournal.get j = some ptrs := by
  revert h
  refine runSteps_rule
    (P := fun t => t.pruneJournal.get j = some ptrs → s.pruneJournal.get j = some ptrs) hrun ?_ id
  intro step _ u v hu hstep hget
  cases step with
  | removeJournal m =>
      obtain rfl := Except.ok.inj hstep
      simp only [OrdMap.get_remove] at hget
      split_ifs at hget
      exact hu hget
  | _ =>
      rw [(PruneStep.frame_of_run hstep).pruneJournal (fun h => h)] at hget
      exact hu hget

theorem mem_dropBlockSteps {n : Nat} {block : BlockData} {step : PruneStep}
    (h : step ∈ dropBlockSteps n block) :
    ¬ step.SetsState ∧ ¬ step.RemovesJournal ∧ ¬ step.Reclaims := by
  rcases List.mem_cons.mp h with rfl | h
  · exact ⟨id, id, id⟩
  · obtain ⟨id, _, hid⟩ := List.mem_flatMap.mp h
    simp only [pruneTxSteps, List.mem_cons, List.not_mem_nil, or_false] at hid
    rcases hid with rfl | rfl | rfl | rfl | rfl | rfl | rfl | rfl | rfl <;>
      exact ⟨fun h => h, fun h => h, fun h => h⟩

theorem length_readArrays {n count : Nat} {data rest : Bytes} {arrays : List (ByteArr n)}
    (h : readArrays n count data = some (arrays, rest)) : arrays.length = count := by
  induction count generalizing data arrays rest with
  | zero =>
      obtain ⟨rfl, -⟩ := Prod.mk.inj (Option.some.inj h)
      rfl
  | succ count ih =>
      simp only [readArrays, Option.bind_eq_bind, Option.bind_eq_some_iff] at h
      obtain ⟨⟨head, d⟩, -, ⟨tail, d'⟩, htail, hcons⟩ := h
      obtain ⟨rfl, -⟩ := Prod.mk.inj (Option.some.inj hcons)
      rw [List.length_cons, ih htail]

theorem read_bind {α β : Type} {x : Option α} {f : α → Option β} {b : β}
    (h : x >>= f = some b) : ∃ a, f a = some b := by
  obtain ⟨a, -, ha⟩ := Option.bind_eq_some_iff.mp h
  exact ⟨a, ha⟩

theorem txIds_length_decodeBlock {data : Bytes} {block : BlockData}
    (h : decodeBlock data = some block) : block.txIds.length ≤ maxTxsPerBlock := by
  obtain ⟨_, h⟩ := read_bind h
  obtain ⟨_, h⟩ := read_bind h
  obtain ⟨_, h⟩ := read_bind h
  obtain ⟨_, h⟩ := read_bind h
  obtain ⟨_, h⟩ := read_bind h
  obtain ⟨_, h⟩ := read_bind h
  obtain ⟨_, h⟩ := read_bind h
  obtain ⟨_, h⟩ := read_bind h
  obtain ⟨_, h⟩ := read_bind h
  obtain ⟨_, h⟩ := read_bind h
  obtain ⟨⟨txLen, rest⟩, h⟩ := read_bind h
  dsimp only at h
  split_ifs at h with hmatch
  obtain ⟨⟨txIds, _⟩, hread, hblock⟩ := Option.bind_eq_some_iff.mp h
  obtain rfl := Option.some.inj hblock
  have hle : txLen.toNat ≤ maxTxsPerBlock := by
    simp only [variableItemsLenMatches, Bool.not_eq_false, decide_eq_true_eq] at hmatch
    exact hmatch.1
  exact le_of_eq_of_le (length_readArrays hread) hle

theorem txIds_length_fromBytes (data : Bytes) :
    (BlockData.fromBytes data).txIds.length ≤ maxTxsPerBlock := by
  rw [BlockData.fromBytes]
  split_ifs
  · exact Nat.zero_le _
  · cases h : decodeBlock data with
    | none => exact Nat.zero_le _
    | some block => exact txIds_length_decodeBlock h

theorem txIds_length_loadBlock {s : StableState W} {n : Nat} {block : BlockData}
    (h : loadBlock s n = some block) : block.txIds.length ≤ maxTxsPerBlock := by
  rw [loadBlock] at h
  split at h
  · exact absurd h (by simp)
  · split at h
    · exact absurd h (by simp)
    · dsimp only at h
      split_ifs at h
      obtain rfl := Option.some.inj h
      exact txIds_length_fromBytes _

theorem length_toList_le (o : Option BlobPtr) : o.toList.length ≤ 1 := by
  cases o <;> simp

theorem length_flatMap_le {α β : Type} {f : α → List β} {m : Nat} (h : ∀ x, (f x).length ≤ m)
    (l : List α) : (l.flatMap f).length ≤ m * l.length := by
  induction l with
  | nil => simp
  | cons x l ih =>
      have hx := h x
      rw [List.flatMap_cons, List.length_append, List.length_cons, Nat.mul_succ]
      omega

theorem collectPtrs_length {s : StableState W} {n : Nat} {block : BlockData}
    (h : loadBlock s n = some block) : (collectPtrsForBlock s n block).length ≤ maxPtrs := by
  have hlen := txIds_length_loadBlock h
  have hblock := length_toList_le (s.blocks.get n)
  have htx (id : TxId) : ((s.receipts.get id).toList ++
      ((s.txIndex.get id).toList ++ (s.internalTraces.get id).toList)).length ≤ 3 := by
    have h₁ := length_toList_le (s.receipts.get id)
    have h₂ := length_toList_le (s.txIndex.get id)
    have h₃ := length_toList_le (s.internalTraces.get id)
    simp only [List.length_append]
    omega
  have htxs := length_flatMap_le htx block.txIds
  rw [collectPtrsForBlock, List.length_append, maxPtrs]
  omega

theorem journalStored_collectPtrs {s : StableState W} {n : Nat} {block : BlockData}
    (h : loadBlock s n = some block) :
    journalStored (collectPtrsForBlock s n block) = collectPtrsForBlock s n block := by
  have hle := collectPtrs_length h
  rw [journalStored, if_neg (not_lt.mpr hle)]

structure PruneView where
  blocks : OrdMap Nat BlobPtr
  receipts : OrdMap TxId BlobPtr
  txIndex : OrdMap TxId BlobPtr
  txStore : OrdMap TxId StoredTxBytes
  txLocs : OrdMap TxId TxLoc
  seenTx : OrdMap TxId UInt8
  internalTraces : OrdMap TxId BlobPtr
  allocTable : OrdMap AllocKey AllocEntry
  prunedBefore : Option Nat
  pruneJournal : OrdMap Nat (List BlobPtr)
  journalBlock : Option Nat

def StableState.pruneView (s : StableState W) : PruneView where
  blocks := s.blocks
  receipts := s.receipts
  txIndex := s.txIndex
  txStore := s.txStore
  txLocs := s.txLocs
  seenTx := s.seenTx
  internalTraces := s.internalTraces
  allocTable := s.blobStore.allocTable
  prunedBefore := s.pruneState.prunedBefore
  pruneJournal := s.pruneJournal
  journalBlock := s.pruneState.journalBlock

theorem refreshOldest_eq (s : StableState W) :
    ∃ oldest, refreshOldest s = { s with oldestBlock := oldest } := by
  rw [refreshOldest]
  split
  · exact ⟨_, rfl⟩
  · exact ⟨_, rfl⟩

theorem pruneView_refreshOldest (s : StableState W) :
    (refreshOldest s).pruneView = s.pruneView := by
  obtain ⟨oldest, h⟩ := refreshOldest_eq s
  rw [h]
  rfl

structure Steady (cur : PruneCursor) (s : StableState W) : Prop where
  journal : s.pruneJournal = .empty
  cursor : cur.pruneState.journalBlockNumber = u64Max
  pruned_lt : ∀ v, cur.pruneState.prunedBefore = some v → v < cur.next
  pruned_le : cur.pruneState.prunedBeforeBlock ≤ u64Max
  head_le : s.head.number ≤ u64Max

structure Interruptible (cur : PruneCursor) (s : StableState W) : Prop extends Steady cur s where
  next_lt : cur.next < u64Max

theorem loadBlock_none_of_blocks {s : StableState W} {n : Nat} (h : s.blocks.get n = none) :
    loadBlock s n = none := by
  simp only [loadBlock, h]

def journaledState (cur : PruneCursor) (block : BlockData) (s : StableState W) : StableState W :=
  writeJournal s cur.next (collectPtrsForBlock s cur.next block) cur.pruneState

def blockSteps (cur : PruneCursor) (block : BlockData) (s : StableState W) : List PruneStep :=
  destructiveSteps cur.next block (collectPtrsForBlock s cur.next block) cur.pruneState

def crashed (c : Crypto) (cur : PruneCursor) (block : BlockData) (k : Nat) (s : StableState W) :
    StableState W :=
  (runSteps c ((blockSteps cur block s).take k) (journaledState cur block s)).2

theorem pruneOneBlock_eq (cur : PruneCursor) (block : BlockData) (s : StableState W) :
    pruneOneBlock c cur block s = runSteps c (blockSteps cur block s) (journaledState cur block s) :=
  rfl

def reclaimSteps (number : Nat) (ptrs : List BlobPtr) : List PruneStep :=
  ptrs.map PruneStep.reclaim ++ [.removeJournal number]

def removalSteps (cur : PruneCursor) (block : BlockData) (s : StableState W) : List PruneStep :=
  dropBlockSteps cur.next block ++ reclaimSteps cur.next (collectPtrsForBlock s cur.next block)

def commitStep (cur : PruneCursor) : PruneStep :=
  .setPruneState (cur.pruneState.setPrunedBefore cur.next).clearJournal

theorem blockSteps_eq {cur : PruneCursor} (hn : cur.next < u64Max) (block : BlockData)
    (s : StableState W) :
    blockSteps cur block s = removalSteps cur block s ++ [commitStep cur] := by
  have hsub : saturatingAdd u64Max cur.next 1 - 1 = cur.next := by
    rw [saturatingAdd, min_eq_left (Nat.succ_le_of_lt hn)]
    rfl
  rw [blockSteps, destructiveSteps, hsub, removalSteps, reclaimSteps]
  simp [commitStep]

theorem not_setsState_reclaimSteps {n : Nat} {ptrs : List BlobPtr} {step : PruneStep}
    (h : step ∈ reclaimSteps n ptrs) : ¬ step.SetsState := by
  rcases List.mem_append.mp h with h | h
  · obtain ⟨ptr, -, rfl⟩ := List.mem_map.mp h
    exact fun h => h
  · obtain rfl := List.mem_singleton.mp h
    exact fun h => h

theorem not_setsState_removalSteps {cur : PruneCursor} {block : BlockData} {s : StableState W}
    {step : PruneStep} (h : step ∈ removalSteps cur block s) : ¬ step.SetsState := by
  rcases List.mem_append.mp h with h | h
  · exact (mem_dropBlockSteps h).1
  · exact not_setsState_reclaimSteps h

theorem take_blockSteps {cur : PruneCursor} {block : BlockData} {s : StableState W} {k : Nat}
    (hn : cur.next < u64Max) (hk : k < (blockSteps cur block s).length) :
    (blockSteps cur block s).take k = (removalSteps cur block s).take k := by
  rw [blockSteps_eq hn, List.length_append, List.length_singleton] at hk
  rw [blockSteps_eq hn, List.take_append_of_le_length (Nat.le_of_lt_succ hk)]

theorem pruneOneBlock_ok {cur : PruneCursor} {block : BlockData} {s t : StableState W}
    (hn : cur.next < u64Max) (hdone : pruneOneBlock c cur block s = (.ok (), t)) :
    ∃ u, runSteps c (removalSteps cur block s) (journaledState cur block s) = (.ok (), u) ∧
      t = { u with pruneState := (cur.pruneState.setPrunedBefore cur.next).clearJournal } := by
  rw [pruneOneBlock_eq, blockSteps_eq hn] at hdone
  obtain ⟨u, hu, hset⟩ := runSteps_append_ok hdone
  exact ⟨u, hu, (Prod.mk.inj hset).2.symm⟩

theorem pruneOneBlock_error {cur : PruneCursor} {block : BlockData} {s t : StableState W}
    {e : ChainError} (hn : cur.next < u64Max)
    (hdone : pruneOneBlock c cur block s = (.error e, t)) :
    runSteps c (removalSteps cur block s) (journaledState cur block s) = (.error e, t) := by
  rw [pruneOneBlock_eq, blockSteps_eq hn, runSteps_append] at hdone
  rcases hrun : runSteps c (removalSteps cur block s) (journaledState cur block s) with ⟨r, u⟩
  rw [hrun] at hdone
  cases r with
  | error e' => exact hdone
  | ok a => exact absurd (congrArg Prod.fst hdone) (by simp [runSteps, commitStep, PruneStep.run])

theorem pruneOneBlock_head {cur : PruneCursor} {block : BlockData} {s t : StableState W}
    {r : Except ChainError Unit} (h : pruneOneBlock c cur block s = (r, t)) : t.head = s.head := by
  have hhead := runSteps_head ((pruneOneBlock_eq cur block s).symm.trans h)
  exact hhead

theorem pruneJournal_before_removal {n : Nat} {block : BlockData} {ptrs : List BlobPtr}
    {s t : StableState W} {r : Except ChainError Unit}
    (h : runSteps c (dropBlockSteps n block ++ ptrs.map PruneStep.reclaim) s = (r, t)) :
    t.pruneJournal = s.pruneJournal := by
  refine runSteps_pruneJournal h ?_
  intro step hm
  rcases List.mem_append.mp hm with hm | hm
  · exact (mem_dropBlockSteps hm).2.1
  · obtain ⟨ptr, -, rfl⟩ := List.mem_map.mp hm
    exact fun h => h

theorem full_pruneJournal {cur : PruneCursor} {block : BlockData} {s t : StableState W}
    (hi : Interruptible cur s) (hdone : pruneOneBlock c cur block s = (.ok (), t)) :
    t.pruneJournal = .empty := by
  obtain ⟨u, hu, rfl⟩ := pruneOneBlock_ok hi.next_lt hdone
  rw [removalSteps, reclaimSteps, ← List.append_assoc] at hu
  obtain ⟨v, hv, hremove⟩ := runSteps_append_ok hu
  obtain ⟨-, rfl⟩ := Prod.mk.inj hremove
  have hkeep := pruneJournal_before_removal hv
  apply OrdMap.ext_get
  intro j
  change (v.pruneJournal.remove cur.next).get j = _
  rw [hkeep, OrdMap.get_remove, journaledState, writeJournal, OrdMap.get_insert, hi.journal]
  split_ifs <;> rfl

def PtrsLive (blobs : BlobStore) (ptrs : List BlobPtr) : Prop :=
  ∀ ptr ∈ ptrs, ∃ entry, blobs.allocTable.get ptr.key = some entry ∧ entry.gen = ptr.gen

theorem reclaimForPrune_ok_iff {blobs : BlobStore} {ptr : BlobPtr} :
    (∃ blobs', blobs.reclaimForPrune ptr = .ok blobs') ↔
      ∃ entry, blobs.allocTable.get ptr.key = some entry ∧ entry.gen = ptr.gen := by
  rw [BlobStore.reclaimForPrune]
  cases hget : blobs.allocTable.get ptr.key with
  | none => simp
  | some entry =>
      obtain ⟨gen, state⟩ := entry
      rcases eq_or_ne gen ptr.gen with hgen | hgen
      · cases state <;> simp [hgen]
      · simp [hgen]

theorem gen_reclaimForPrune {blobs blobs' : BlobStore} {ptr : BlobPtr}
    (h : blobs.reclaimForPrune ptr = .ok blobs') (key : AllocKey) :
    (blobs'.allocTable.get key).map AllocEntry.gen = (blobs.allocTable.get key).map AllocEntry.gen := by
  rw [BlobStore.reclaimForPrune] at h
  split at h
  · exact absurd h (by simp)
  · rename_i entry hget
    split_ifs at h
    · obtain rfl := Except.ok.inj h
      rfl
    · obtain rfl := Except.ok.inj h
      rw [OrdMap.get_insert]
      split_ifs with hkey
      · rw [hkey, hget]
        rfl
      · rfl

theorem ptrsLive_iff_gen {blobs : BlobStore} {ptrs : List BlobPtr} :
    PtrsLive blobs ptrs ↔
      ∀ ptr ∈ ptrs, (blobs.allocTable.get ptr.key).map AllocEntry.gen = some ptr.gen := by
  simp only [PtrsLive, Option.map_eq_some_iff]

theorem runSteps_reclaim_ok_iff {ptrs : List BlobPtr} {s : StableState W} :
    (∃ t, runSteps c (ptrs.map PruneStep.reclaim) s = (.ok (), t)) ↔ PtrsLive s.blobStore ptrs := by
  induction ptrs generalizing s with
  | nil => exact ⟨fun _ ptr hm => absurd hm (by simp), fun _ => ⟨s, rfl⟩⟩
  | cons ptr ptrs ih =>
      rw [List.map_cons, runSteps, PruneStep.run, ptrsLive_iff_gen, List.forall_mem_cons,
        Option.map_eq_some_iff, ← reclaimForPrune_ok_iff]
      cases hrec : s.blobStore.reclaimForPrune ptr with
      | error e => simp
      | ok blobs =>
          have hgen := gen_reclaimForPrune hrec
          dsimp only
          rw [ih, ptrsLive_iff_gen]
          simp only [hgen]
          exact ⟨fun h => ⟨⟨blobs, rfl⟩, h⟩, fun h => h.2⟩

theorem runSteps_ok_of_not_reclaims {steps : List PruneStep}
    (h : ∀ step ∈ steps, ¬ step.Reclaims) (s : StableState W) :
    ∃ t, runSteps c steps s = (.ok (), t) ∧ t.blobStore = s.blobStore := by
  induction steps generalizing s with
  | nil => exact ⟨s, rfl, rfl⟩
  | cons step steps ih =>
      have hstep := h step (List.mem_cons_self ..)
      have hok : ∃ u, step.run c s = .ok u := by
        cases step with
        | reclaim ptr => exact absurd trivial hstep
        | _ => exact ⟨_, rfl⟩
      obtain ⟨u, hu⟩ := hok
      obtain ⟨t, ht, hblobs⟩ := ih (fun st hm => h st (List.mem_cons_of_mem _ hm)) u
      refine ⟨t, ?_, hblobs.trans ((PruneStep.frame_of_run hu).blobStore hstep)⟩
      rw [runSteps, hu]
      exact ht

theorem runSteps_removal_ok_iff {cur : PruneCursor} {block : BlockData} {s : StableState W} :
    (∃ t, runSteps c (dropBlockSteps cur.next block ++
        (collectPtrsForBlock s cur.next block).map PruneStep.reclaim)
        (journaledState cur block s) = (.ok (), t)) ↔
      PtrsLive s.blobStore (collectPtrsForBlock s cur.next block) := by
  have hdrop : ∀ step ∈ dropBlockSteps cur.next block, ¬ step.Reclaims :=
    fun step hm => (mem_dropBlockSteps hm).2.2
  obtain ⟨u, hu, hblobs⟩ := runSteps_ok_of_not_reclaims (c := c) hdrop (journaledState cur block s)
  have hsame : u.blobStore = s.blobStore := hblobs
  rw [← hsame, ← runSteps_reclaim_ok_iff (c := c), runSteps_append, hu]

theorem pruneOneBlock_ok_iff {cur : PruneCursor} {block : BlockData} {s : StableState W}
    (hn : cur.next < u64Max) :
    (pruneOneBlock c cur block s).1 = .ok () ↔
      PtrsLive s.blobStore (collectPtrsForBlock s cur.next block) := by
  rw [← runSteps_removal_ok_iff (c := c), pruneOneBlock_eq, blockSteps_eq hn, removalSteps,
    reclaimSteps, ← List.append_assoc, List.append_assoc, runSteps_append]
  rcases runSteps c _ _ with ⟨r, u⟩
  cases r with
  | error e => simp
  | ok a => exact ⟨fun _ => ⟨u, rfl⟩, fun _ => rfl⟩

theorem pruneJournal_of_error {cur : PruneCursor} {block : BlockData} {s t : StableState W}
    {e : ChainError} (hn : cur.next < u64Max)
    (hrun : pruneOneBlock c cur block s = (.error e, t)) : t.pruneJournal ≠ .empty := by
  rw [pruneOneBlock_eq, blockSteps_eq hn, removalSteps, reclaimSteps, ← List.append_assoc,
    List.append_assoc, runSteps_append] at hrun
  rcases hu : runSteps c (dropBlockSteps cur.next block ++
    (collectPtrsForBlock s cur.next block).map PruneStep.reclaim) (journaledState cur block s)
    with ⟨r, u⟩
  rw [hu] at hrun
  cases r with
  | ok a => exact absurd (congrArg Prod.fst hrun) (by simp [runSteps, commitStep, PruneStep.run])
  | error e' =>
      obtain ⟨-, rfl⟩ := Prod.mk.inj hrun
      intro hempty
      have hget : (journaledState cur block s).pruneJournal.get cur.next = none := by
        rw [← pruneJournal_before_removal hu, hempty]
        rfl
      rw [journaledState, writeJournal, OrdMap.get_insert, if_pos rfl] at hget
      exact absurd hget (by simp)

theorem journalBlock_setJournalBlock {n : Nat} (p : PruneState) (h : n < u64Max) :
    (p.setJournalBlock n).journalBlock = some n := by
  simp [PruneState.journalBlock, PruneState.setJournalBlock, ne_of_lt h]

theorem prunedBefore_setPrunedBefore {n : Nat} (p : PruneState) (h : n < u64Max) :
    (p.setPrunedBefore n).prunedBefore = some n := by
  simp [PruneState.prunedBefore, PruneState.setPrunedBefore, ne_of_lt h]

theorem finishRecovery_prunedBefore (p : PruneState) (s : StableState W) :
    (finishRecovery p s).2.pruneState.prunedBefore = p.prunedBefore := by
  obtain ⟨oldest, h⟩ := refreshOldest_eq { s with pruneState := normalizeCursor p.clearJournal }
  rw [finishRecovery, h]
  rfl

theorem recover_of_block_gone {n : Nat} {p : PruneState} {t : StableState W} (hn : n < u64Max)
    (hblock : t.blocks.get n = none) (hstate : t.pruneState = p.setJournalBlock n) :
    (recoverPruneJournal c t).2.pruneState.prunedBefore = p.prunedBefore := by
  have hjournal : t.pruneState.journalBlock = some n := by
    rw [hstate]
    exact journalBlock_setJournalBlock p hn
  rw [recoverPruneJournal]
  simp only [hjournal]
  rw [recoverJournalBlock, hstate]
  cases hptrs : t.pruneJournal.get n with
  | none => exact finishRecovery_prunedBefore _ t
  | some ptrs =>
      simp only [loadBlock_none_of_blocks hblock, List.nil_append]
      rcases hrun : runSteps c (ptrs.map PruneStep.reclaim ++ [.removeJournal n]) t with ⟨r, u⟩
      have hp : u.pruneState = t.pruneState :=
        runSteps_pruneState hrun (fun step hm => not_setsState_reclaimSteps hm)
      cases r with
      | error e =>
          simp only [hrun]
          rw [hp, hstate]
          rfl
      | ok a =>
          simp only [hrun]
          exact finishRecovery_prunedBefore _ u

theorem crashed_pruneState {cur : PruneCursor} {block : BlockData} {s : StableState W} {k : Nat}
    (hn : cur.next < u64Max) (hk : k < (blockSteps cur block s).length) :
    (crashed c cur block k s).pruneState = cur.pruneState.setJournalBlock cur.next := by
  rw [crashed, take_blockSteps hn hk]
  exact runSteps_pruneState rfl
    (fun step hm => not_setsState_removalSteps (List.mem_of_mem_take hm))

theorem crashed_block_gone {cur : PruneCursor} {block : BlockData} {s : StableState W} {k : Nat}
    (hk : 0 < k) : (crashed c cur block k s).blocks.get cur.next = none := by
  obtain ⟨k, rfl⟩ := Nat.exists_eq_succ_of_ne_zero (Nat.pos_iff_ne_zero.mp hk)
  have hsteps : blockSteps cur block s =
      .removeBlock cur.next :: (blockSteps cur block s).tail := rfl
  rw [crashed, hsteps, List.take_succ_cons, runSteps]
  refine runSteps_blocks_none rfl ?_
  simp

theorem crashed_all {cur : PruneCursor} {block : BlockData} {s : StableState W} {k : Nat}
    (hk : (blockSteps cur block s).length ≤ k) :
    crashed c cur block k s = (pruneOneBlock c cur block s).2 := by
  rw [crashed, List.take_of_length_le hk, pruneOneBlock_eq]

theorem recover_of_clean {t : StableState W} (hjournal : t.pruneJournal = .empty)
    (hcursor : t.pruneState.journalBlock = none) :
    recoverPruneJournal c t = (.ok (), { t with pruneState := normalizeCursor t.pruneState }) := by
  rw [recoverPruneJournal]
  simp only [hcursor, hjournal]
  rfl

theorem prunedBefore_recoverPruned {cur : PruneCursor} {s : StableState W}
    (hi : Interruptible cur s) :
    (recoverPruned (cur.pruneState.setJournalBlock cur.next) cur.next).prunedBefore =
      some cur.next := by
  have hsame : (cur.pruneState.setJournalBlock cur.next).prunedBefore =
      cur.pruneState.prunedBefore := rfl
  have hmax : recoverPrunedBefore cur.pruneState.prunedBefore cur.next = cur.next := by
    cases h : cur.pruneState.prunedBefore with
    | none => rfl
    | some v => exact max_eq_right (le_of_lt (hi.pruned_lt v h))
  rw [recoverPruned, hsame, hmax]
  exact prunedBefore_setPrunedBefore _ hi.next_lt

structure Recovered (c : Crypto) (crash full : StableState W) : Prop where
  ok : (recoverPruneJournal c crash).1 = .ok ()
  view : (recoverPruneJournal c crash).2.pruneView = full.pruneView

theorem recovered_at_start {cur : PruneCursor} {block : BlockData} {s t : StableState W}
    (hi : Interruptible cur s) (hload : loadBlock s cur.next = some block)
    (hdone : pruneOneBlock c cur block s = (.ok (), t)) :
    Recovered c (journaledState cur block s) t := by
  obtain ⟨u, hu, rfl⟩ := pruneOneBlock_ok hi.next_lt hdone
  have hjournal : (journaledState cur block s).pruneState.journalBlock = some cur.next :=
    journalBlock_setJournalBlock _ hi.next_lt
  have hget : (journaledState cur block s).pruneJournal.get cur.next =
      some (collectPtrsForBlock s cur.next block) := by
    rw [journaledState, writeJournal, journalStored_collectPtrs hload]
    simp
  have hload' : loadBlock (journaledState cur block s) cur.next = some block := hload
  have hrecover : recoverPruneJournal c (journaledState cur block s) =
      finishRecovery (recoverPruned (cur.pruneState.setJournalBlock cur.next) cur.next) u := by
    rw [removalSteps, reclaimSteps] at hu
    rw [recoverPruneJournal]
    simp only [hjournal]
    rw [recoverJournalBlock]
    simp only [hget, hload', hu]
    rfl
  have hpruned := prunedBefore_recoverPruned hi
  refine ⟨by rw [hrecover]; rfl, ?_⟩
  rw [hrecover, finishRecovery, pruneView_refreshOldest]
  simp only [StableState.pruneView, PruneView.mk.injEq, true_and]
  refine ⟨?_, rfl⟩
  exact hpruned.trans (prunedBefore_setPrunedBefore cur.pruneState hi.next_lt).symm

theorem recovered_at_end {cur : PruneCursor} {block : BlockData} {s t : StableState W}
    (hi : Interruptible cur s) (hdone : pruneOneBlock c cur block s = (.ok (), t)) :
    Recovered c t t := by
  have hjournal := full_pruneJournal hi hdone
  obtain ⟨u, -, rfl⟩ := pruneOneBlock_ok hi.next_lt hdone
  have hcursor : (cur.pruneState.setPrunedBefore cur.next).clearJournal.journalBlock = none := by
    simp [PruneState.clearJournal, PruneState.journalBlock]
  have hrecover := recover_of_clean (c := c) hjournal hcursor
  exact ⟨by rw [hrecover], by rw [hrecover]; rfl⟩

theorem not_recovered_in_between {cur : PruneCursor} {block : BlockData} {s t : StableState W}
    {k : Nat} (hi : Interruptible cur s) (hdone : pruneOneBlock c cur block s = (.ok (), t))
    (hpos : 0 < k) (hlt : k < (blockSteps cur block s).length) :
    ¬ Recovered c (crashed c cur block k s) t := by
  intro hrec
  have hleft : (recoverPruneJournal c (crashed c cur block k s)).2.pruneState.prunedBefore =
      cur.pruneState.prunedBefore :=
    recover_of_block_gone hi.next_lt (crashed_block_gone hpos) (crashed_pruneState hi.next_lt hlt)
  have hright : t.pruneState.prunedBefore = some cur.next := by
    obtain ⟨u, -, rfl⟩ := pruneOneBlock_ok hi.next_lt hdone
    exact prunedBefore_setPrunedBefore cur.pruneState hi.next_lt
  have hsame : cur.pruneState.prunedBefore = some cur.next :=
    hleft.symm.trans ((congrArg PruneView.prunedBefore hrec.view).trans hright)
  exact lt_irrefl _ (hi.pruned_lt _ hsame)

theorem recovered_iff {cur : PruneCursor} {block : BlockData} {s t : StableState W} {k : Nat}
    (hi : Interruptible cur s) (hload : loadBlock s cur.next = some block)
    (hdone : pruneOneBlock c cur block s = (.ok (), t))
    (hk : k ≤ (blockSteps cur block s).length) :
    Recovered c (crashed c cur block k s) t ↔ k = 0 ∨ k = (blockSteps cur block s).length := by
  constructor
  · intro hrec
    rcases Nat.eq_zero_or_pos k with hzero | hpos
    · exact Or.inl hzero
    · rcases Nat.lt_or_eq_of_le hk with hlt | hall
      · exact absurd hrec (not_recovered_in_between hi hdone hpos hlt)
      · exact Or.inr hall
  · rintro (rfl | rfl)
    · exact recovered_at_start hi hload hdone
    · rw [crashed_all (le_refl _), hdone]
      exact recovered_at_end hi hdone

end Kasane.Chain
