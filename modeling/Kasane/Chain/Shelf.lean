import Kasane.Blob.Tenants
import Kasane.Chain.Commit

namespace Kasane.Chain

open BigEndian Codec Word Blob

-- the places of a chain that point into its blob store
inductive Slot where
  | block (number : Nat)
  | receipt (id : TxId)
  | txIndex (id : TxId)
  | internalTraces (id : TxId)
deriving DecidableEq

def ExportView.shelf (v : ExportView) : Slot → Option BlobPtr
  | .block number => v.blocks.get number
  | .receipt id => v.receipts.get id
  | .txIndex id => v.txIndex.get id
  | .internalTraces id => v.internalTraces.get id

variable {W : Type} {c : Crypto} {evm : Evm W}

def StableState.shelf (s : StableState W) : Slot → Option BlobPtr := s.exportView.shelf

def Shelved (s : StableState W) : Prop := s.blobStore.Tenants s.shelf

theorem shelved_init (world : W) : Shelved (StableState.init world) := by
  have hnone : (StableState.init world).shelf = fun _ => none := by
    funext slot
    cases slot <;> rfl
  rw [Shelved, hnone]
  exact BlobStore.tenants_empty

theorem Shelved.of_view {s t : StableState W} (h : Shelved s) (hview : t.exportView = s.exportView) :
    Shelved t := by
  have hblobs : t.blobStore = s.blobStore := congrArg ExportView.blobStore hview
  rw [Shelved, StableState.shelf, hview, hblobs]
  exact h

def placeTx (f : Slot → Option BlobPtr) (q : StagedPersist) : Slot → Option BlobPtr :=
  let f := Function.update f (.txIndex q.staged.txId) (some q.txIndexPtr)
  let f := Function.update f (.receipt q.staged.txId) (some q.receiptPtr)
  match q.internalTracesPtr with
  | some ptr => Function.update f (.internalTraces q.staged.txId) (some ptr)
  | none => f

theorem tenants_storeBytes {env : CallEnv} {f : Slot → Option BlobPtr} {s t : StableState W}
    {bytes : Bytes} {ptr : BlobPtr} (h : s.blobStore.Tenants f)
    (hrun : storeBytes env s bytes = some (ptr, t)) (slot : Slot) :
    t.blobStore.Tenants (Function.update f slot (some ptr)) := by
  rw [storeBytes] at hrun
  split at hrun
  · rename_i q blobs hstore
    obtain ⟨rfl, rfl⟩ := Prod.mk.inj (Option.some.inj hrun)
    exact h.place hstore slot
  · exact absurd hrun (by simp)

theorem tenants_persistIncluded {env : CallEnv} {number : Nat} {f : Slot → Option BlobPtr}
    {s t : StableState W} {staged : StagedIncluded} {q : StagedPersist} (h : s.blobStore.Tenants f)
    (hrun : persistIncluded env number s staged = some (q, t)) :
    t.blobStore.Tenants (placeTx f q) := by
  obtain ⟨⟨indexPtr, s₁⟩, hindex, hrun⟩ := Option.bind_eq_some_iff.mp hrun
  obtain ⟨⟨receiptPtr, s₂⟩, hreceipt, hrun⟩ := Option.bind_eq_some_iff.mp hrun
  obtain ⟨⟨tracesPtr, s₃⟩, htraces, hrun⟩ := Option.bind_eq_some_iff.mp hrun
  obtain ⟨rfl, rfl⟩ := Prod.mk.inj (Option.some.inj hrun)
  have h₁ := tenants_storeBytes h hindex (.txIndex staged.txId)
  have h₂ := tenants_storeBytes h₁ hreceipt (.receipt staged.txId)
  cases hbytes : staged.outcome.internalTraces with
  | none =>
      rw [hbytes] at htraces
      obtain ⟨rfl, rfl⟩ := Prod.mk.inj (Option.some.inj htraces)
      exact h₂
  | some bytes =>
      rw [hbytes] at htraces
      obtain ⟨⟨ptr, u⟩, hstore, heq⟩ := Option.map_eq_some_iff.mp htraces
      obtain ⟨rfl, rfl⟩ := Prod.mk.inj heq
      exact tenants_storeBytes h₂ hstore (.internalTraces staged.txId)

theorem tenants_persistAll {env : CallEnv} {number : Nat} {included : List StagedIncluded}
    {f : Slot → Option BlobPtr} {s t : StableState W} {persisted : List StagedPersist}
    (h : s.blobStore.Tenants f) (hrun : persistAll env number included s = some (persisted, t)) :
    t.blobStore.Tenants (persisted.foldl placeTx f) := by
  induction included generalizing s f persisted with
  | nil =>
      obtain ⟨rfl, rfl⟩ := Prod.mk.inj (Option.some.inj hrun)
      exact h
  | cons staged included ih =>
      obtain ⟨⟨q, s₁⟩, hone, hrun⟩ := Option.bind_eq_some_iff.mp hrun
      obtain ⟨⟨tail, s₂⟩, hrest, hrun⟩ := Option.bind_eq_some_iff.mp hrun
      obtain ⟨rfl, rfl⟩ := Prod.mk.inj (Option.some.inj hrun)
      rw [List.foldl_cons]
      exact ih (tenants_persistIncluded h hone) hrest

theorem shelf_recordIncluded (number : Nat) (s : StableState W) (q : StagedPersist) :
    (recordIncluded number s q).shelf = placeTx s.shelf q := by
  obtain ⟨staged, indexPtr, receiptPtr, tracesPtr⟩ := q
  funext slot
  cases slot with
  | block n => cases tracesPtr <;> rfl
  | receipt id =>
      cases tracesPtr <;>
        simp [recordIncluded, StableState.shelf, ExportView.shelf,
          StableState.exportView, placeTx, OrdMap.get_insert, Function.update_apply]
  | txIndex id =>
      cases tracesPtr <;>
        simp [recordIncluded, StableState.shelf, ExportView.shelf,
          StableState.exportView, placeTx, OrdMap.get_insert, Function.update_apply]
  | internalTraces id =>
      cases tracesPtr <;>
        simp [recordIncluded, StableState.shelf, ExportView.shelf,
          StableState.exportView, placeTx, OrdMap.get_insert, Function.update_apply]

theorem shelf_includeTx (number : Nat) (s : StableState W) (q : StagedPersist) :
    (includeTx c evm number s q).shelf = placeTx s.shelf q := by
  rw [includeTx_eq, ← shelf_recordIncluded number]
  exact congrArg ExportView.shelf (view_advanceSender ..)

theorem shelf_includeAll (number : Nat) (persisted : List StagedPersist) (s : StableState W) :
    (persisted.foldl (includeTx c evm number) s).shelf = persisted.foldl placeTx s.shelf := by
  induction persisted generalizing s with
  | nil => rfl
  | cons q persisted ih =>
      rw [List.foldl_cons, List.foldl_cons, ih, shelf_includeTx]

structure LaidTx (number : Nat) (blobs : BlobStore) (q : StagedPersist) : Prop where
  txIndex : blobs.Holds q.txIndexPtr (txIndexBytes number q.staged.outcome.txIndex)
  receipt : blobs.Holds q.receiptPtr (Receipt.toBytes q.staged.outcome.receipt)
  traces : q.internalTracesPtr.isSome = q.staged.outcome.internalTraces.isSome
  internalTraces : ∀ ptr bytes, q.internalTracesPtr = some ptr →
    q.staged.outcome.internalTraces = some bytes → blobs.Holds ptr bytes

theorem LaidTx.retained {number : Nat} {s t : StableState W} {q : StagedPersist}
    (h : LaidTx number s.blobStore q) (hr : Retains s t) : LaidTx number t.blobStore q where
  txIndex := hr.holds _ _ h.txIndex
  receipt := hr.holds _ _ h.receipt
  traces := h.traces
  internalTraces := fun ptr bytes hptr hbytes => hr.holds _ _ (h.internalTraces ptr bytes hptr hbytes)

theorem laidTx_persistIncluded {env : CallEnv} {number : Nat} {s t : StableState W}
    {staged : StagedIncluded} {q : StagedPersist} (hs : s.blobStore.Sound)
    (hrun : persistIncluded env number s staged = some (q, t)) :
    Retains s t ∧ LaidTx number t.blobStore q := by
  obtain ⟨⟨indexPtr, s₁⟩, hindex, hrun⟩ := Option.bind_eq_some_iff.mp hrun
  obtain ⟨⟨receiptPtr, s₂⟩, hreceipt, hrun⟩ := Option.bind_eq_some_iff.mp hrun
  obtain ⟨⟨tracesPtr, s₃⟩, htraces, hrun⟩ := Option.bind_eq_some_iff.mp hrun
  obtain ⟨rfl, rfl⟩ := Prod.mk.inj (Option.some.inj hrun)
  obtain ⟨h₁, hheld₁⟩ := retains_storeBytes hs hindex
  obtain ⟨h₂, hheld₂⟩ := retains_storeBytes h₁.sound hreceipt
  have h₃ := retains_storeInternalTraces h₂.sound htraces
  refine ⟨h₁.trans (h₂.trans h₃), (h₂.trans h₃).holds _ _ hheld₁, h₃.holds _ _ hheld₂, ?_, ?_⟩
  · dsimp only
    cases hbytes : staged.outcome.internalTraces with
    | none =>
        rw [hbytes] at htraces
        obtain ⟨rfl, -⟩ := Prod.mk.inj (Option.some.inj htraces)
        rfl
    | some bytes =>
        rw [hbytes] at htraces
        obtain ⟨⟨ptr, u⟩, -, heq⟩ := Option.map_eq_some_iff.mp htraces
        obtain ⟨rfl, -⟩ := Prod.mk.inj heq
        rfl
  · intro ptr bytes hptr hbytes
    dsimp only at hptr hbytes
    rw [hptr, hbytes] at htraces
    obtain ⟨⟨q, u⟩, hstore, heq⟩ := Option.map_eq_some_iff.mp htraces
    obtain ⟨hq, rfl⟩ := Prod.mk.inj heq
    obtain rfl := Option.some.inj hq
    exact (retains_storeBytes h₂.sound hstore).2

theorem laidTx_persistAll {env : CallEnv} {number : Nat} {included : List StagedIncluded}
    {s t : StableState W} {persisted : List StagedPersist} (hs : s.blobStore.Sound)
    (hrun : persistAll env number included s = some (persisted, t)) :
    Retains s t ∧ ∀ q ∈ persisted, LaidTx number t.blobStore q := by
  induction included generalizing s persisted with
  | nil =>
      obtain ⟨rfl, rfl⟩ := Prod.mk.inj (Option.some.inj hrun)
      exact ⟨⟨hs, fun _ _ hold => hold⟩, by simp⟩
  | cons staged included ih =>
      obtain ⟨⟨q, s₁⟩, hone, hrun⟩ := Option.bind_eq_some_iff.mp hrun
      obtain ⟨⟨tail, s₂⟩, hrest, hrun⟩ := Option.bind_eq_some_iff.mp hrun
      obtain ⟨rfl, rfl⟩ := Prod.mk.inj (Option.some.inj hrun)
      obtain ⟨h₁, hq⟩ := laidTx_persistIncluded hs hone
      obtain ⟨h₂, htail⟩ := ih h₁.sound hrest
      exact ⟨h₁.trans h₂, List.forall_mem_cons.mpr ⟨hq.retained h₂, htail⟩⟩

-- how a commit fills the shelf, whatever the blob store holds
structure Placing (env : CallEnv) (number : Nat) (block : BlockData)
    (included : List StagedIncluded) (s t : StableState W) (persisted : List StagedPersist)
    (ptr : BlobPtr) (s₂ s₃ : StableState W) : Prop where
  persist : persistAll env number included s = some (persisted, s₂)
  store : storeBlock env s₂ block = some (ptr, s₃)
  blobs : t.blobStore = s₃.blobStore
  shelf : t.shelf = Function.update (persisted.foldl placeTx s.shelf) (.block number) (some ptr)

theorem placing_commitBlock {env : CallEnv} {ctx : BlockExecContext} {gasUsed : Nat}
    {block : BlockData} {drops : List QueuedDrop} {included : List StagedIncluded}
    {s t : StableState W} (hrun : commitBlock c evm env ctx gasUsed block drops included s = some t) :
    ∃ persisted ptr s₂ s₃, Placing env ctx.blockNumber block included (applyDrops c evm s drops) t
      persisted ptr s₂ s₃ := by
  obtain ⟨⟨persisted, s₂⟩, hpersist, hrun⟩ := Option.bind_eq_some_iff.mp hrun
  obtain ⟨⟨ptr, s₃⟩, hstore, hrun⟩ := Option.bind_eq_some_iff.mp hrun
  suffices hplaced : t.blobStore = s₃.blobStore ∧
      t.shelf = Function.update (persisted.foldl placeTx (applyDrops c evm s drops).shelf)
        (.block ctx.blockNumber) (some ptr) from
    ⟨persisted, ptr, s₂, s₃, hpersist, hstore, hplaced.1, hplaced.2⟩
  obtain ⟨-, b₂, rfl, -⟩ := persistAll_some hpersist
  obtain ⟨b₃, oldest, rfl, -, -⟩ := storeBlock_some hstore
  have hincluded := sameChain_includeAll (c := c) evm ctx.blockNumber persisted
    { applyDrops c evm s drops with blobStore := b₃, oldestBlock := oldest }
  have hall := @shelf_includeAll W c evm ctx.blockNumber persisted
    { applyDrops c evm s drops with blobStore := b₃, oldestBlock := oldest }
  change _ = persisted.foldl placeTx (applyDrops c evm s drops).shelf at hall
  obtain rfl := Option.some.inj hrun
  obtain ⟨index, keys, hfee⟩ := rebuildPendingFee_frame (c := c) (W := W) _ _
  rw [hfee]
  generalize persisted.foldl (includeTx c evm ctx.blockNumber)
    { applyDrops c evm s drops with blobStore := b₃, oldestBlock := oldest } = u at hincluded hall
  refine ⟨hincluded.blobStore, ?_⟩
  rw [← hall]
  funext slot
  cases slot <;>
    simp [StableState.shelf, ExportView.shelf, StableState.exportView, OrdMap.get_insert,
      Function.update_apply]

-- where a committed block and its transactions end up
structure Laid (number : Nat) (block : BlockData) (included : List StagedIncluded)
    (s t : StableState W) (persisted : List StagedPersist) (ptr : BlobPtr) : Prop where
  staged : persisted.map StagedPersist.staged = included
  shelf : t.shelf = Function.update (persisted.foldl placeTx s.shelf) (.block number) (some ptr)
  tenants : t.blobStore.Tenants t.shelf
  holds : ∀ p data, s.blobStore.Holds p data → t.blobStore.Holds p data
  laid : ∀ q ∈ persisted, LaidTx number t.blobStore q
  block : t.blobStore.Holds ptr block.toBytes

theorem laid_commitBlock {env : CallEnv} {ctx : BlockExecContext} {gasUsed : Nat}
    {block : BlockData} {drops : List QueuedDrop} {included : List StagedIncluded}
    {s t : StableState W} (h : Shelved s)
    (hrun : commitBlock c evm env ctx gasUsed block drops included s = some t) :
    ∃ persisted ptr, Laid ctx.blockNumber block included s t persisted ptr := by
  have hview := @view_applyDrops W c evm s drops
  have hdropped : Shelved (applyDrops c evm s drops) := h.of_view hview
  have hshelf : (applyDrops c evm s drops).shelf = s.shelf := congrArg ExportView.shelf hview
  have hblobs : (applyDrops c evm s drops).blobStore = s.blobStore :=
    congrArg ExportView.blobStore hview
  obtain ⟨persisted, ptr, s₂, s₃, hplacing⟩ := placing_commitBlock hrun
  have hpersist := hplacing.persist
  have hstore := hplacing.store
  obtain ⟨hr₂, hlaid⟩ := laidTx_persistAll hdropped.sound hpersist
  have h₂ := tenants_persistAll hdropped hpersist
  have hr₃ := retains_storeBlock h₂.sound hstore
  have h₃ : s₃.blobStore.Tenants
      (Function.update (persisted.foldl placeTx (applyDrops c evm s drops).shelf)
        (.block ctx.blockNumber) (some ptr)) := by
    obtain ⟨⟨q, u⟩, hbytes, heq⟩ := Option.map_eq_some_iff.mp hstore
    obtain ⟨rfl, rfl⟩ := Prod.mk.inj heq
    have hplaced := tenants_storeBytes h₂ hbytes (.block ctx.blockNumber)
    dsimp only
    split_ifs
    · exact hplaced
    · exact hplaced
  have hplaced := hplacing.shelf
  refine ⟨persisted, ptr, (persistAll_some hpersist).1, hshelf ▸ hplaced, ?_, ?_, ?_, ?_⟩
  · rw [hplacing.blobs, hplaced]
    exact h₃
  · intro p data hold
    rw [hplacing.blobs]
    exact hr₃.holds p data (hr₂.holds p data (hblobs ▸ hold))
  · intro q hq
    rw [hplacing.blobs]
    exact (hlaid q hq).retained hr₃
  · rw [hplacing.blobs]
    obtain ⟨b₃, oldest, rfl, -, hholds⟩ := storeBlock_some hstore
    exact hholds

theorem shelved_produceBlock {env : CallEnv} {maxTxs : Nat} {s t : StableState W}
    {r : Except ChainError ProduceBlockOutcome} (h : Shelved s)
    (hrun : produceBlock c evm env maxTxs s = some (r, t)) : Shelved t := by
  cases produceBlock_cases hrun with
  | refused e m => exact h
  | dropped e m drops selected => exact Shelved.of_view h (view_applyDrops _ drops)
  | unprepared e m prepared => exact h
  | committed hcommitted =>
      obtain ⟨⟨m, hstate⟩, -⟩ := prepareBlock_prepares c env maxTxs s
      have hcommit := hcommitted.committed
      rw [hstate] at hcommit
      obtain ⟨persisted, ptr, hlaid⟩ := laid_commitBlock (by exact h) hcommit
      exact hlaid.tenants

end Kasane.Chain
