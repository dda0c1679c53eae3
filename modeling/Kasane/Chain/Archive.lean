import Kasane.Blob.Settled
import Kasane.Chain.Pool

namespace Kasane.Chain

open BigEndian Codec Word Blob

structure Backed (c : Crypto) (store : OrdMap TxId StoredTxBytes) (locs : OrdMap TxId TxLoc)
    (seen : OrdMap TxId UInt8) (p : Pool) : Prop where
  stored : ∀ {id : TxId} {e : PoolEntry}, p.entry id = some e →
    ∃ bytes tx, store.get id = some bytes ∧ StoredTx.tryFrom c bytes = .ok tx
  queued : ∀ {id : TxId} {e : PoolEntry}, p.entry id = some e →
    ∃ loc, locs.get id = some loc ∧ loc.kind = .queued
  marked : ∀ {id : TxId} {e : PoolEntry}, p.entry id = some e → ∃ mark, seen.get id = some mark

def blockAt (blobs : BlobStore) (blocks : OrdMap Nat BlobPtr) (number : Nat) : Option BlockData :=
  match blocks.get number with
  | none => none
  | some ptr =>
      match blobs.read ptr with
      | .error _ => none
      | .ok bytes =>
          let block := BlockData.fromBytes bytes
          if isCorruptBlock block then none else some block

structure Archived (blobs : BlobStore) (blocks : OrdMap Nat BlobPtr) (seen : OrdMap TxId UInt8)
    (p : Pool) : Prop where
  sound : blobs.Sound
  settled : ∀ {n : Nat} {ptr : BlobPtr}, blocks.get n = some ptr → blobs.Settled ptr
  marked : ∀ {n : Nat} {block : BlockData} {id : TxId}, blockAt blobs blocks n = some block →
    id ∈ block.txIds → ∃ mark, seen.get id = some mark
  idle : ∀ {n : Nat} {block : BlockData} {id : TxId}, blockAt blobs blocks n = some block →
    id ∈ block.txIds → p.entry id = none
  apart : ∀ {n m : Nat} {b b' : BlockData} {id : TxId}, n ≠ m → blockAt blobs blocks n = some b →
    blockAt blobs blocks m = some b' → id ∈ b.txIds → id ∉ b'.txIds

variable {W : Type} {c : Crypto}

theorem loadBlock_eq (s : StableState W) (n : Nat) :
    loadBlock s n = blockAt s.blobStore s.blocks n := rfl

theorem blockAt_some {blobs : BlobStore} {blocks : OrdMap Nat BlobPtr} {n : Nat} {block : BlockData}
    (h : blockAt blobs blocks n = some block) :
    ∃ ptr bytes, blocks.get n = some ptr ∧ blobs.read ptr = .ok bytes ∧
      block = BlockData.fromBytes bytes := by
  rw [blockAt] at h
  split at h
  · exact absurd h (by simp)
  · rename_i ptr hptr
    split at h
    · exact absurd h (by simp)
    · rename_i bytes hread
      dsimp only at h
      split_ifs at h
      exact ⟨ptr, bytes, hptr, hread, (Option.some.inj h).symm⟩

theorem blockAt_congr {blobs blobs' : BlobStore} {blocks blocks' : OrdMap Nat BlobPtr} {n : Nat}
    {ptr : BlobPtr} (h : blocks.get n = some ptr) (h' : blocks'.get n = some ptr)
    (hread : blobs'.read ptr = blobs.read ptr) : blockAt blobs' blocks' n = blockAt blobs blocks n := by
  simp only [blockAt, h, h', hread]

theorem blockAt_of_keeps {blobs blobs' : BlobStore} {blocks : OrdMap Nat BlobPtr} {n : Nat}
    {block : BlockData} (hk : blobs.Keeps blobs') (hs : blobs.Sound)
    (hsettled : ∀ {n : Nat} {ptr : BlobPtr}, blocks.get n = some ptr → blobs.Settled ptr)
    (h : blockAt blobs' blocks n = some block) : blockAt blobs blocks n = some block := by
  obtain ⟨ptr, bytes, hptr, hread, -⟩ := blockAt_some h
  have hold := hk.read ptr bytes hs (hsettled hptr) hread
  rw [← h]
  exact blockAt_congr hptr hptr (hold.trans hread.symm)

theorem Backed.mono {store store' : OrdMap TxId StoredTxBytes} {locs locs' : OrdMap TxId TxLoc}
    {seen seen' : OrdMap TxId UInt8} {p p' : Pool} (h : Backed c store locs seen p)
    (hentry : ∀ {id e}, p'.entry id = some e → ∃ f, p.entry id = some f)
    (hstore : ∀ {id e}, p'.entry id = some e → store'.get id = store.get id)
    (hlocs : ∀ {id e loc}, p'.entry id = some e → locs.get id = some loc → loc.kind = .queued →
      locs'.get id = some loc)
    (hseen : ∀ {id e}, p'.entry id = some e → seen'.get id = seen.get id) :
    Backed c store' locs' seen' p' where
  stored := by
    intro id e hid
    obtain ⟨f, hf⟩ := hentry hid
    rw [hstore hid]
    exact h.stored hf
  queued := by
    intro id e hid
    obtain ⟨f, hf⟩ := hentry hid
    obtain ⟨loc, hloc, hkind⟩ := h.queued hf
    exact ⟨loc, hlocs hid hloc hkind, hkind⟩
  marked := by
    intro id e hid
    obtain ⟨f, hf⟩ := hentry hid
    rw [hseen hid]
    exact h.marked hf

theorem Archived.mono {blobs blobs' : BlobStore} {blocks blocks' : OrdMap Nat BlobPtr}
    {seen seen' : OrdMap TxId UInt8} {p p' : Pool} (h : Archived blobs blocks seen p)
    (hk : blobs.Keeps blobs')
    (hblocks : ∀ {n ptr}, blocks'.get n = some ptr → blocks.get n = some ptr)
    (hseen : ∀ {n block id}, blockAt blobs' blocks' n = some block → id ∈ block.txIds →
      seen'.get id = seen.get id)
    (hentry : ∀ {n block id}, blockAt blobs' blocks' n = some block → id ∈ block.txIds →
      p.entry id = none → p'.entry id = none) :
    Archived blobs' blocks' seen' p' := by
  have hload {n : Nat} {block : BlockData} (hb : blockAt blobs' blocks' n = some block) :
      blockAt blobs blocks n = some block := by
    apply blockAt_of_keeps hk h.sound h.settled
    obtain ⟨ptr, bytes, hptr, hread, -⟩ := blockAt_some hb
    rw [← hb]
    exact blockAt_congr hptr (hblocks hptr) rfl
  refine ⟨hk.sound h.sound, ?_, ?_, ?_, ?_⟩
  · intro n ptr hptr
    exact hk.settled ptr h.sound (h.settled (hblocks hptr))
  · intro n block id hb hid
    rw [hseen hb hid]
    exact h.marked (hload hb) hid
  · intro n block id hb hid
    exact hentry hb hid (h.idle (hload hb) hid)
  · intro n m b b' id hne hb hb' hid
    exact h.apart hne (hload hb) (hload hb') hid

end Kasane.Chain
