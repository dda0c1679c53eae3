import Kasane.Chain.BlockReceipts

namespace Kasane.Chain

open BigEndian Codec Word Blob
open Receipt (ReceiptLike)
open Exec (gasSum)

variable {W : Type} {c : Crypto} {evm : Evm W}

-- a block carries the hash of its own fields
structure Hashed (c : Crypto) (n : Nat) (block : BlockData) : Prop where
  number : block.number.toNat = n
  txListHash : block.txListHash = Chain.txListHash c block.txIds
  blockHash : block.blockHash = Chain.blockHash c block.parentHash block.number.toNat
    block.timestamp.toNat block.txListHash block.stateRoot

-- every block names the one below it, and the head names the last one
structure Linked (c : Crypto) (s : StableState W) : Prop where
  hashed : ∀ n block, loadBlock s n = some block → Hashed c n block
  parents : ∀ n a b, n + 1 < u64Max → loadBlock s n = some a → loadBlock s (n + 1) = some b →
    b.parentHash = a.blockHash
  top : ∀ block, loadBlock s s.head.number = some block → s.head.blockHash = block.blockHash

theorem Linked.fewer {s t : StableState W} (h : Linked c s) (hhead : t.head = s.head)
    (hload : ∀ n b, loadBlock t n = some b → loadBlock s n = some b) : Linked c t where
  hashed := fun n b hb => h.hashed n b (hload n b hb)
  parents := fun n a b hn ha hb => h.parents n a b hn (hload n a ha) (hload (n + 1) b hb)
  top := by
    intro b hb
    rw [hhead] at hb ⊢
    exact h.top b (hload _ b hb)

-- the bytes stored in a slot
def Shelves (s : StableState W) (slot : Slot) (data : Bytes) : Prop :=
  ∃ ptr, s.shelf slot = some ptr ∧ s.blobStore.read ptr = .ok data

theorem Shelves.kept {s t : StableState W} {slot : Slot} {data : Bytes} (h : Shelves s slot data)
    (hs : Shelved s) (ht : t.blobStore.Sound) (hslot : t.shelf slot = s.shelf slot)
    (hholds : ∀ ptr bytes, t.shelf slot = some ptr → s.blobStore.Holds ptr bytes →
      t.blobStore.Holds ptr bytes) : Shelves t slot data := by
  obtain ⟨ptr, hptr, hread⟩ := h
  obtain ⟨bytes, hheld⟩ := hs.held slot ptr hptr
  have hthere := hholds ptr bytes (hslot.trans hptr) hheld
  refine ⟨ptr, hslot.trans hptr, ?_⟩
  rw [BlobStore.read_of_holds ht hthere, ← hread, BlobStore.read_of_holds hs.sound hheld]

-- the transactions of a stored block, each with its receipt and its place
structure Accounts (limit : Nat) (s : StableState W) (n : Nat) (block : BlockData)
    (receipts : List ReceiptLike) : Prop where
  txIds : receipts.map ReceiptLike.txId = block.txIds
  placed : ∀ i receipt, receipts[i]? = some receipt → ReceiptAt n i receipt
  stored : ∀ receipt ∈ receipts, Shelves s (.receipt receipt.txId) (Receipt.toBytes receipt)
  indexed : ∀ i receipt, receipts[i]? = some receipt →
    Shelves s (.txIndex receipt.txId) (txIndexBytes n i)
  gasUsed : gasSum receipts = block.gasUsed.toNat
  limited : block.gasUsed.toNat ≤ limit

def Accounted (limit : Nat) (s : StableState W) : Prop :=
  ∀ n block, loadBlock s n = some block → ∃ receipts, Accounts limit s n block receipts

theorem Accounts.kept {limit : Nat} {s t : StableState W} {n : Nat} {block : BlockData}
    {receipts : List ReceiptLike} (h : Accounts limit s n block receipts) (hs : Shelved s)
    (ht : t.blobStore.Sound)
    (hslots : ∀ id ∈ block.txIds, t.shelf (.receipt id) = s.shelf (.receipt id) ∧
      t.shelf (.txIndex id) = s.shelf (.txIndex id))
    (hholds : ∀ slot ptr bytes, t.shelf slot = some ptr → s.blobStore.Holds ptr bytes →
      t.blobStore.Holds ptr bytes) : Accounts limit t n block receipts := by
  have hid {receipt : ReceiptLike} (hmem : receipt ∈ receipts) : receipt.txId ∈ block.txIds := by
    rw [← h.txIds]
    exact List.mem_map_of_mem hmem
  refine ⟨h.txIds, h.placed, ?_, ?_, h.gasUsed, h.limited⟩
  · intro receipt hmem
    exact (h.stored receipt hmem).kept hs ht (hslots _ (hid hmem)).1 (hholds _)
  · intro i receipt hi
    exact (h.indexed i receipt hi).kept hs ht (hslots _ (hid (List.mem_of_getElem? hi))).2 (hholds _)

theorem Accounted.of_view {limit : Nat} {s t : StableState W} (h : Accounted limit s)
    (hs : Shelved s) (hview : t.exportView = s.exportView) : Accounted limit t := by
  have hshelf : t.shelf = s.shelf := congrArg ExportView.shelf hview
  have hblobs : t.blobStore = s.blobStore := congrArg ExportView.blobStore hview
  intro n block hload
  rw [loadBlock_of_view hview] at hload
  obtain ⟨receipts, haccounts⟩ := h n block hload
  refine ⟨receipts, haccounts.kept hs (hs.of_view hview).sound ?_ ?_⟩
  · intro id _
    rw [hshelf]
    exact ⟨rfl, rfl⟩
  · intro _ ptr bytes _ hheld
    rwa [hblobs]

theorem Accounted.pruned {limit retain : Nat} {s t : StableState W} {p : Pool}
    (h : Accounted limit s) (hw : Window s) (hcons : Consistent c False s p)
    (hp : Prunes c retain s t) : Accounted limit t := by
  intro n block hload
  obtain ⟨hlow, hload⟩ := hp.trimmed.loaded hw.shelved hload
  obtain ⟨receipts, haccounts⟩ := h n block hload
  refine ⟨receipts, haccounts.kept hw.shelved hp.trimmed.shelved.sound ?_ hp.trimmed.holds⟩
  intro id hid
  have habove : ¬ StoredBelow s t.pruneState.nextPruneBlock id := by
    rintro ⟨m, other, hm, hother, hmem⟩
    exact hcons.archived.apart (by omega) hload hother hid hmem
  have hkept := hp.trimmed.kept id habove
  exact ⟨congrArg TxRecord.receipt hkept, congrArg TxRecord.txIndex hkept⟩

theorem receipt_of_placeAll {persisted : List StagedPersist} {f : Slot → Option BlobPtr}
    (hids : (persisted.map (fun q => q.staged.txId)).Nodup) {q : StagedPersist}
    (hq : q ∈ persisted) :
    persisted.foldl placeTx f (.receipt q.staged.txId) = some q.receiptPtr ∧
      persisted.foldl placeTx f (.txIndex q.staged.txId) = some q.txIndexPtr := by
  induction persisted generalizing f with
  | nil => exact absurd hq List.not_mem_nil
  | cons r persisted ih =>
      obtain ⟨hnot, hrest⟩ := List.nodup_cons.mp hids
      rw [List.foldl_cons]
      rcases List.mem_cons.mp hq with rfl | hq
      · have hother : ∀ r ∈ persisted, r.staged.txId ≠ q.staged.txId :=
          fun r hr heq => hnot (List.mem_map.mpr ⟨r, hr, heq⟩)
        rw [shelf_placeAll (fun r hr => by simp [(hother r hr).symm]),
          shelf_placeAll (fun r hr => by simp [(hother r hr).symm]), placeTx]
        cases q.internalTracesPtr <;> simp
      · exact ih hrest hq

theorem Laid.shelves {number : Nat} {block : BlockData} {included : List StagedIncluded}
    {s t : StableState W} {persisted : List StagedPersist} {ptr : BlobPtr}
    (h : Laid number block included s t persisted ptr)
    (hids : (included.map StagedIncluded.txId).Nodup) {staged : StagedIncluded}
    (hmem : staged ∈ included) :
    Shelves t (.receipt staged.txId) (Receipt.toBytes staged.outcome.receipt) ∧
      Shelves t (.txIndex staged.txId) (txIndexBytes number staged.outcome.txIndex) := by
  rw [← h.staged] at hids hmem
  rw [List.map_map] at hids
  obtain ⟨q, hq, rfl⟩ := List.mem_map.mp hmem
  obtain ⟨hreceipt, hindex⟩ := receipt_of_placeAll (f := s.shelf) hids hq
  have hlaid := h.laid q hq
  refine ⟨⟨q.receiptPtr, ?_, BlobStore.read_of_holds h.tenants.sound hlaid.receipt⟩,
    ⟨q.txIndexPtr, ?_, BlobStore.read_of_holds h.tenants.sound hlaid.txIndex⟩⟩
  · rw [h.shelf, Function.update_of_ne (by simp)]
    exact hreceipt
  · rw [h.shelf, Function.update_of_ne (by simp)]
    exact hindex

-- what a block says of the transactions included in it
structure Tallies (limit number : Nat) (block : BlockData) (included : List StagedIncluded) :
    Prop where
  txIds : ∀ staged ∈ included, staged.outcome.receipt.txId = staged.txId
  placed : ∀ i staged, included[i]? = some staged →
    staged.outcome.txIndex = i ∧ ReceiptAt number i staged.outcome.receipt
  gasUsed : gasSum (Exec.receiptsOf included) = block.gasUsed.toNat
  limited : block.gasUsed.toNat ≤ limit

theorem Laid.accounts {limit number : Nat} {block : BlockData} {included : List StagedIncluded}
    {s t : StableState W} {persisted : List StagedPersist} {ptr : BlobPtr}
    (h : Laid number block included s t persisted ptr)
    (hblock : block.txIds = included.map StagedIncluded.txId) (hids : block.txIds.Nodup)
    (htallies : Tallies limit number block included) :
    Accounts limit t number block (Exec.receiptsOf included) := by
  rw [hblock] at hids
  refine ⟨?_, ?_, ?_, ?_, htallies.gasUsed, htallies.limited⟩
  · rw [hblock, Exec.receiptsOf, List.map_map]
    exact List.map_congr_left htallies.txIds
  · intro i receipt hi
    rw [Exec.receiptsOf, List.getElem?_map] at hi
    obtain ⟨staged, hstaged, rfl⟩ := Option.map_eq_some_iff.mp hi
    exact (htallies.placed i staged hstaged).2
  · intro receipt hmem
    obtain ⟨staged, hstaged, rfl⟩ := List.mem_map.mp hmem
    rw [htallies.txIds staged hstaged]
    exact (h.shelves hids hstaged).1
  · intro i receipt hi
    rw [Exec.receiptsOf, List.getElem?_map] at hi
    obtain ⟨staged, hstaged, rfl⟩ := Option.map_eq_some_iff.mp hi
    have hmem := List.mem_of_getElem? hstaged
    have hplace := (htallies.placed i staged hstaged).1
    rw [htallies.txIds staged hmem, ← hplace]
    exact (h.shelves hids hmem).2

theorem Accounted.committed {limit : Nat} {env : CallEnv} {maxTxs : Nat} {s t : StableState W}
    {p : Pool} {outcome : ProduceBlockOutcome} {x : ExecState evm} {root : evm.Root} {world : W}
    (h : Accounted limit s) (hw : Window s) (hcons : Consistent c False s p)
    (hc : Committed c evm env maxTxs s t outcome x root world)
    (htallies : Tallies limit (blockContext env s).blockNumber outcome.block x.included) :
    Accounted limit t := by
  obtain ⟨persisted, ptr, hlaid⟩ := laid_committed hw.shelved hc
  have hpending : Pending p (x.included.map StagedIncluded.txId) :=
    ((pending_selectReady (c := c) hcons.indexed s.chainState.baseFee maxTxs).subperm
      hc.selected).subperm (List.sublist_append_right _ _).subperm
  have htop : loadBlock t (blockContext env s).blockNumber = some outcome.block := by
    have hload := hc.loads hw.shelved.sound
    rwa [hc.commits.head] at hload
  intro n block hload
  by_cases hn : n = (blockContext env s).blockNumber
  · rw [hn, htop] at hload
    obtain rfl := Option.some.inj hload
    rw [hn]
    exact ⟨_, hlaid.accounts hc.txIds (hc.txIds ▸ hpending.nodup) htallies⟩
  · rw [hlaid.loads_other hw.shelved hn] at hload
    obtain ⟨receipts, haccounts⟩ := h n block hload
    refine ⟨receipts, haccounts.kept hw.shelved hlaid.tenants.sound ?_
      (fun _ ptr bytes _ => hlaid.holds ptr bytes)⟩
    intro id hid
    have hnot : ∀ other ∈ x.included.map StagedIncluded.txId, id ≠ other := by
      rintro other hmem rfl
      obtain ⟨e, he⟩ := hpending.pending id hmem
      exact absurd ((hcons.archived.idle hload hid).symm.trans he) (by simp)
    exact ⟨hlaid.shelf_other (by simp) (fun other hmem => by simp [hnot other hmem]),
      hlaid.shelf_other (by simp) (fun other hmem => by simp [hnot other hmem])⟩

end Kasane.Chain
