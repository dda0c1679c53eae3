import Kasane.Chain.Mempool

namespace Kasane.Chain

open BigEndian Codec Word Blob

def pruneBeforeBlock (headBlock retain : Nat) : Option Nat :=
  if retain = 0 ∨ headBlock ≤ retain then none else some (headBlock - retain)

def normalizeNextPruneBlock (nextPruneBlock : Nat) (prunedBefore : Option Nat) : Nat :=
  match prunedBefore with
  | some pruned => if nextPruneBlock ≤ pruned then saturatingAdd u64Max pruned 1 else nextPruneBlock
  | none => nextPruneBlock

def recoverPrunedBefore (current : Option Nat) (journalBlock : Nat) : Nat :=
  match current with
  | some pruned => max pruned journalBlock
  | none => journalBlock

def remainingBlocks (nextPruneBlock pruneBefore : Nat) : Nat :=
  if nextPruneBlock > pruneBefore then 0
  else saturatingAdd u64Max (pruneBefore - nextPruneBlock) 1

variable {W : Type} (c : Crypto)

inductive PruneStep where
  | removeBlock (number : Nat)
  | removeFeeIndex (id : TxId)
  | decrementPrincipal (id : TxId)
  | removeReceipt (id : TxId)
  | removeTxIndex (id : TxId)
  | removeInternalTraces (id : TxId)
  | removeTxLoc (id : TxId)
  | removeEthTxHash (id : TxId)
  | removeTxStore (id : TxId)
  | removeSeenTx (id : TxId)
  | reclaim (ptr : BlobPtr)
  | removeJournal (number : Nat)
  | setPruneState (p : PruneState)

def PruneStep.run (s : StableState W) : PruneStep → Except ChainError (StableState W)
  | .removeBlock number => .ok { s with blocks := s.blocks.remove number }
  | .removeFeeIndex id => .ok (removePendingFeeIndexByTxId s id)
  | .decrementPrincipal id => .ok (decrementPrincipalPendingCountForTx c s id)
  | .removeReceipt id => .ok { s with receipts := s.receipts.remove id }
  | .removeTxIndex id => .ok { s with txIndex := s.txIndex.remove id }
  | .removeInternalTraces id => .ok { s with internalTraces := s.internalTraces.remove id }
  | .removeTxLoc id => .ok (txLocsRemove s id)
  | .removeEthTxHash id => .ok (removeEthTxHashIndexForTxId c s id)
  | .removeTxStore id => .ok { s with txStore := s.txStore.remove id }
  | .removeSeenTx id => .ok { s with seenTx := s.seenTx.remove id }
  | .reclaim ptr =>
      match s.blobStore.reclaimForPrune ptr with
      | .ok blobs => .ok { s with blobStore := blobs }
      | .error _ => .error .execFailed
  | .removeJournal number => .ok { s with pruneJournal := s.pruneJournal.remove number }
  | .setPruneState p => .ok { s with pruneState := p }

def runSteps : List PruneStep → StableState W → Except ChainError Unit × StableState W
  | [], s => (.ok (), s)
  | step :: rest, s =>
      match step.run c s with
      | .ok s => runSteps rest s
      | .error e => (.error e, s)

def pruneTxSteps (id : TxId) : List PruneStep :=
  [.removeFeeIndex id, .decrementPrincipal id, .removeReceipt id, .removeTxIndex id,
    .removeInternalTraces id, .removeTxLoc id, .removeEthTxHash id, .removeTxStore id,
    .removeSeenTx id]

def dropBlockSteps (number : Nat) (block : BlockData) : List PruneStep :=
  .removeBlock number :: block.txIds.flatMap pruneTxSteps

def destructiveSteps (number : Nat) (block : BlockData) (ptrs : List BlobPtr) (p : PruneState) :
    List PruneStep :=
  dropBlockSteps number block ++ (ptrs.map PruneStep.reclaim ++
    [.removeJournal (saturatingAdd u64Max number 1 - 1),
      .setPruneState (p.setPrunedBefore number).clearJournal])

def collectPtrsForBlock (s : StableState W) (number : Nat) (block : BlockData) : List BlobPtr :=
  (s.blocks.get number).toList ++ block.txIds.flatMap (fun id =>
    (s.receipts.get id).toList ++ ((s.txIndex.get id).toList ++ (s.internalTraces.get id).toList))

def writeJournal (s : StableState W) (number : Nat) (ptrs : List BlobPtr) (p : PruneState) :
    StableState W :=
  { s with
    pruneJournal := s.pruneJournal.insert number (journalStored ptrs)
    pruneState := p.setJournalBlock number }

def presence (b : Bool) : Nat := if b then 1 else 0

def pruneOpsNeededForTx (s : StableState W) (id : TxId) : Nat :=
  let decoded := match storedTx c s id with
    | some (.ok stored) => some stored
    | _ => none
  let principal := decoded.any (fun stored =>
    (s.principalPendingCount.get (CallerKey.fromPrincipalBytes stored.callerPrincipal)).isSome)
  let ethHash := decoded.any (fun stored =>
    decide (stored.kind = .ethSigned) && (s.ethTxHashIndex.get (c.keccak256 stored.raw)).isSome)
  presence (s.pendingFeeKeyByTxId.get id).isSome + presence principal + presence ethHash +
    presence (s.txStore.get id).isSome + presence (s.receipts.get id).isSome +
    presence (s.txIndex.get id).isSome + presence (s.internalTraces.get id).isSome +
    presence (txLocsGet s id).isSome + presence (s.seenTx.get id).isSome

def pruneOpsNeededForBlock (s : StableState W) (number : Nat) (block : BlockData) : Nat :=
  block.txIds.foldl (fun needed id => saturatingAdd u64Max needed (pruneOpsNeededForTx c s id))
    (presence (s.blocks.get number).isSome)

def findNextExistingBlock (s : StableState W) (start : Nat) : Option (Nat × Nat) :=
  (s.blocks.rangeFrom start).findSome? (fun e =>
    (loadBlock s e.1).map (fun block => (e.1, block.timestamp.toNat)))

def refreshOldest (s : StableState W) : StableState W :=
  let next := match s.pruneState.prunedBefore with
    | some value => saturatingAdd u64Max value 1
    | none => 0
  match findNextExistingBlock s next with
  | some oldest => { s with oldestBlock := some oldest }
  | none => s

def normalizeCursor (p : PruneState) : PruneState :=
  { p with nextPruneBlock := normalizeNextPruneBlock p.nextPruneBlock p.prunedBefore }

def recoverPruned (p : PruneState) (number : Nat) : PruneState :=
  p.setPrunedBefore (recoverPrunedBefore p.prunedBefore number)

def finishRecovery (p : PruneState) (s : StableState W) : Except ChainError Unit × StableState W :=
  (.ok (), refreshOldest { s with pruneState := normalizeCursor p.clearJournal })

def recoverJournalBlock (p : PruneState) (number : Nat) (s : StableState W) :
    Except ChainError Unit × StableState W :=
  match s.pruneJournal.get number with
  | none => finishRecovery p s
  | some ptrs =>
      let (steps, p) := match loadBlock s number with
        | some block => (dropBlockSteps number block, recoverPruned p number)
        | none => ([], p)
      match runSteps c (steps ++ (ptrs.map PruneStep.reclaim ++ [.removeJournal number])) s with
      | (.error e, s) => (.error e, s)
      | (.ok (), s) => finishRecovery p s

def recoverPruneJournal (s : StableState W) : Except ChainError Unit × StableState W :=
  let p := s.pruneState
  match p.journalBlock with
  | some number => recoverJournalBlock c p number s
  | none =>
      match s.pruneJournal.first with
      | some (number, _) =>
          recoverJournalBlock c (p.setJournalBlock number) number
            { s with pruneState := p.setJournalBlock number }
      | none => (.ok (), { s with pruneState := normalizeCursor p })

structure PruneResult where
  didWork : Bool
  remaining : Nat
  prunedBeforeBlock : Option Nat
deriving DecidableEq, Repr

structure PruneCursor where
  pruneState : PruneState
  next : Nat
  didWork : Bool
  opsUsed : Nat

def PruneCursor.advance (cur : PruneCursor) (opsUsed : Nat) : PruneCursor where
  pruneState := cur.pruneState.setPrunedBefore cur.next
  next := saturatingAdd u64Max cur.next 1
  didWork := true
  opsUsed := opsUsed

def PruneCursor.afterBlock (cur : PruneCursor) (opsUsed : Nat) : PruneCursor :=
  { cur.advance opsUsed with pruneState := (cur.pruneState.setPrunedBefore cur.next).clearJournal }

def pruneOneBlock (cur : PruneCursor) (block : BlockData) (s : StableState W) :
    Except ChainError Unit × StableState W :=
  let ptrs := collectPtrsForBlock s cur.next block
  runSteps c (destructiveSteps cur.next block ptrs cur.pruneState)
    (writeJournal s cur.next ptrs cur.pruneState)

def pruneLoop (pruneBefore maxOps : Nat) :
    Nat → PruneCursor → StableState W → Except ChainError PruneCursor × StableState W
  | 0, cur, s => (.ok cur, s)
  | fuel + 1, cur, s =>
      if cur.next > pruneBefore then (.ok cur, s)
      else
        match loadBlock s cur.next with
        | none => pruneLoop pruneBefore maxOps fuel (cur.advance cur.opsUsed) s
        | some block =>
            let opsUsed := saturatingAdd u64Max cur.opsUsed (pruneOpsNeededForBlock c s cur.next block)
            if opsUsed > maxOps then (.ok cur, s)
            else
              match pruneOneBlock c cur block s with
              | (.error e, s) => (.error e, s)
              | (.ok (), s) => pruneLoop pruneBefore maxOps fuel (cur.afterBlock opsUsed) s

def startCursor (p : PruneState) : PruneCursor :=
  ⟨p, normalizeNextPruneBlock p.nextPruneBlock p.prunedBefore, false, 0⟩

def finishPrune (pruneBefore : Nat) (cur : PruneCursor) (s : StableState W) :
    PruneResult × StableState W :=
  let p := { cur.pruneState with nextPruneBlock := cur.next }
  (⟨cur.didWork, remainingBlocks cur.next pruneBefore, p.prunedBefore⟩,
    refreshOldest { s with pruneState := p })

def pruneBlocks (retain maxOps : Nat) (s : StableState W) :
    Except ChainError PruneResult × StableState W :=
  if retain = 0 ∨ maxOps = 0 then (.error .invalidLimit, s)
  else
    match recoverPruneJournal c s with
    | (.error e, s) => (.error e, s)
    | (.ok (), s) =>
        match pruneBeforeBlock s.head.number retain with
        | none => (.ok ⟨false, 0, s.pruneState.prunedBefore⟩, s)
        | some pruneBefore =>
            let cur := startCursor s.pruneState
            match pruneLoop c pruneBefore maxOps (pruneBefore + 1 - cur.next) cur s with
            | (.error e, s) => (.error e, s)
            | (.ok cur, s) =>
                let (result, s) := finishPrune pruneBefore cur s
                (.ok result, s)

end Kasane.Chain
