import Kasane.Chain.Minted
import Kasane.Export.Session
import Kasane.Indexer.Consumes

namespace Kasane.Indexer

open BigEndian Codec Word Chain Export SegmentStream

variable {W : Type} {c : Crypto} {s t : StableState W}

theorem tryDecodeBlockPayload_toBytes {block : BlockData}
    (hlen : block.txIds.length ≤ maxTxsPerBlock) :
    tryDecodeBlockPayload block.toBytes true = some block.number.toNat := by
  have h32 : block.txIds.length < UInt32.size := lt_of_le_of_lt hlen (by decide)
  have hhead : block.encodeHead.length = Chain.blockBaseLen - 4 := by
    simp only [BlockData.encodeHead, List.length_append, length_u64Bytes,
      List.Vector.toList_length, Chain.blockBaseLen]
  have hcount : decode (((block.encodeWith (UInt32.ofNat block.txIds.length)).drop
      (Chain.blockBaseLen - 4)).take 4) = block.txIds.length := by
    have htoNat : (UInt32.ofNat block.txIds.length).toNat = block.txIds.length :=
      UInt32.toNat_ofNat_of_lt h32
    rw [BlockData.encodeWith, List.drop_left' hhead, List.take_left' (length_u32Bytes _), u32Bytes,
      htoNat]
    exact decode_encode_of_lt h32
  have hnumber : decode ((block.encodeWith (UInt32.ofNat block.txIds.length)).take 8) =
      block.number.toNat := by
    rw [BlockData.encodeWith, BlockData.encodeHead, List.append_assoc,
      List.take_left' (length_u64Bytes _), u64Bytes]
    exact decode_encode_of_lt block.number.toNat_lt
  rw [BlockData.toBytes_of_bounded hlen, tryDecodeBlockPayload]
  have hbase : Indexer.blockBaseLen true = Chain.blockBaseLen := rfl
  dsimp only
  rw [hbase, if_neg (by rw [BlockData.length_encodeWith]; omega), hcount,
    BlockData.length_encodeWith, if_neg (not_not_intro rfl), hnumber]

structure BlockInfo where
  number : Nat
  blockHash : Bytes
  timestamp : Nat
  gasUsed : Nat
  txIds : List Bytes
deriving DecidableEq

def readTxIds : Nat → Bytes → List Bytes
  | 0, _ => []
  | n + 1, data => data.take 32 :: readTxIds n (data.drop 32)

-- the fields of a payload whose lengths `tryDecodeBlockPayload` accepts
def tryDecodeBlockInfo (data : Bytes) (hasBeneficiary : Bool) : Option BlockInfo :=
  (tryDecodeBlockPayload data hasBeneficiary).map (fun number =>
    { number := number
      blockHash := (data.drop 40).take 32
      timestamp := decode ((data.drop 72).take 8)
      gasUsed := decode ((data.drop 96).take 8)
      txIds := readTxIds (decode ((data.drop (Indexer.blockBaseLen hasBeneficiary - 4)).take 4))
        (data.drop (Indexer.blockBaseLen hasBeneficiary)) })

def decodeBlockPayload (payload : Bytes) : Except String BlockInfo :=
  match tryDecodeBlockInfo payload true with
  | some info => .ok info
  | none =>
      match tryDecodeBlockInfo payload false with
      | some info => .ok info
      | none => .error "block payload length mismatch"

def blockInfoView (block : BlockData) : BlockInfo where
  number := block.number.toNat
  blockHash := block.blockHash.toList
  timestamp := block.timestamp.toNat
  gasUsed := block.gasUsed.toNat
  txIds := block.txIds.map List.Vector.toList

theorem readTxIds_arrayBytes (ids : List TxId) :
    readTxIds ids.length (arrayBytes ids) = ids.map List.Vector.toList := by
  induction ids with
  | nil => rfl
  | cons id ids ih =>
      rw [arrayBytes, List.flatMap_cons, List.length_cons, readTxIds,
        List.take_left' id.toList_length, List.drop_left' id.toList_length, List.map_cons]
      exact congrArg (id.toList :: ·) ih

theorem drop_field {xs : Bytes} {n : Nat} (h : xs.length = n) (m : Nat) (rest : Bytes) :
    (xs ++ rest).drop (n + m) = rest.drop m := by
  rw [← List.drop_drop, List.drop_left' h]

theorem decodeBlockPayload_toBytes {block : BlockData}
    (hlen : block.txIds.length ≤ maxTxsPerBlock) :
    decodeBlockPayload block.toBytes = .ok (blockInfoView block) := by
  have htoNat : (UInt32.ofNat block.txIds.length).toNat = block.txIds.length :=
    UInt32.toNat_ofNat_of_lt (lt_of_le_of_lt hlen (by decide))
  have hbytes : block.toBytes =
      u64Bytes block.number ++ (block.parentHash.toList ++ (block.blockHash.toList ++
        (u64Bytes block.timestamp ++ (u64Bytes block.baseFeePerGas ++
          (u64Bytes block.blockGasLimit ++ (u64Bytes block.gasUsed ++ (block.beneficiary.toList ++
            (block.txListHash.toList ++ (block.stateRoot.toList ++
              (u32Bytes (UInt32.ofNat block.txIds.length) ++ arrayBytes block.txIds)))))))))) := by
    rw [BlockData.toBytes_of_bounded hlen, BlockData.encodeWith, BlockData.encodeHead]
    simp only [List.append_assoc]
  have hhash : (block.toBytes.drop 40).take 32 = block.blockHash.toList := by
    change (block.toBytes.drop (8 + (32 + 0))).take 32 = _
    rw [hbytes, drop_field (length_u64Bytes _), drop_field block.parentHash.toList_length,
      List.drop_zero, List.take_left' block.blockHash.toList_length]
  have htime : decode ((block.toBytes.drop 72).take 8) = block.timestamp.toNat := by
    change decode ((block.toBytes.drop (8 + (32 + (32 + 0)))).take 8) = _
    rw [hbytes, drop_field (length_u64Bytes _), drop_field block.parentHash.toList_length,
      drop_field block.blockHash.toList_length, List.drop_zero, List.take_left' (length_u64Bytes _),
      u64Bytes]
    exact decode_encode_of_lt block.timestamp.toNat_lt
  have hgas : decode ((block.toBytes.drop 96).take 8) = block.gasUsed.toNat := by
    change decode ((block.toBytes.drop (8 + (32 + (32 + (8 + (8 + (8 + 0))))))).take 8) = _
    rw [hbytes, drop_field (length_u64Bytes _), drop_field block.parentHash.toList_length,
      drop_field block.blockHash.toList_length, drop_field (length_u64Bytes _),
      drop_field (length_u64Bytes _), drop_field (length_u64Bytes _), List.drop_zero,
      List.take_left' (length_u64Bytes _), u64Bytes]
    exact decode_encode_of_lt block.gasUsed.toNat_lt
  have hhead : block.encodeHead.length = Indexer.blockBaseLen true - 4 := by
    simp only [BlockData.encodeHead, List.length_append, length_u64Bytes, List.Vector.toList_length,
      Indexer.blockBaseLen, if_true]
  have hcount : decode ((block.toBytes.drop (Indexer.blockBaseLen true - 4)).take 4) =
      block.txIds.length := by
    rw [BlockData.toBytes_of_bounded hlen, BlockData.encodeWith, List.drop_left' hhead,
      List.take_left' (length_u32Bytes _), u32Bytes, htoNat]
    exact decode_encode_of_lt (lt_of_le_of_lt hlen (by decide))
  have hids : block.toBytes.drop (Indexer.blockBaseLen true) = arrayBytes block.txIds := by
    rw [BlockData.toBytes_of_bounded hlen, BlockData.encodeWith, ← List.append_assoc]
    exact List.drop_left' (by rw [List.length_append, hhead, length_u32Bytes]; rfl)
  have hinfo : tryDecodeBlockInfo block.toBytes true = some (blockInfoView block) := by
    rw [tryDecodeBlockInfo, tryDecodeBlockPayload_toBytes hlen, Option.map_some, hcount, hids,
      readTxIds_arrayBytes, hhash, htime, hgas]
    rfl
  rw [decodeBlockPayload, hinfo]

-- the two formats of a block differ in length by 20 bytes, never by whole transaction ids
theorem tryDecodeBlockInfo_apart {data : Bytes} {info : BlockInfo}
    (h : tryDecodeBlockInfo data true = some info) : tryDecodeBlockInfo data false = none := by
  obtain ⟨number, hnumber, -⟩ := Option.map_eq_some_iff.mp h
  rw [tryDecodeBlockInfo, Option.map_eq_none_iff, tryDecodeBlockPayload]
  rw [tryDecodeBlockPayload] at hnumber
  dsimp only at hnumber ⊢
  split_ifs at hnumber with hshort hlong
  have hlong := not_not.mp hlong
  split_ifs with hshort' hlong'
  · rfl
  · rfl
  · have hlong' := not_not.mp hlong'
    simp only [Indexer.blockBaseLen, if_true, Bool.false_eq_true, if_false] at hlong hlong'
    omega

theorem load_minted (hm : Minted s) {b : Nat} {p : BlockPayloads}
    (hload : BlockPayloads.load s b = .ok p) :
    ∃ block : BlockData, block.Minted b ∧ p = ⟨block.toBytes, block.txIds⟩ := by
  obtain ⟨ptr, hptr, hload⟩ := bind_eq_ok.mp hload
  obtain ⟨bytes, hbytes, hload⟩ := bind_eq_ok.mp hload
  obtain ⟨len, -, hload⟩ := bind_eq_ok.mp hload
  have hget : s.blocks.get b = some ptr := by
    cases hblock : s.blocks.get b with
    | none =>
        rw [hblock] at hptr
        exact absurd hptr (by simp [orMissing, orError])
    | some q =>
        rw [hblock] at hptr
        exact congrArg some (Except.ok.inj hptr)
  have hread : s.blobStore.read ptr = .ok bytes := by
    rw [readBlob] at hbytes
    split at hbytes
    · rename_i data hdata
      rw [hdata, Except.ok.inj hbytes]
    · exact absurd hbytes (by simp)
  obtain ⟨block, hblock, rfl⟩ := hm b ptr bytes hget hread
  refine ⟨block, hblock, ?_⟩
  obtain rfl := Except.ok.inj hload
  rw [BlockData.fromBytes_toBytes hblock.2.2]

theorem numbered_segmentOf (hm : Minted s) (b : Nat) (data : Bytes) (h : SegmentOf c s b 0 data) :
    decodeBlockNumber data = .ok b := by
  obtain ⟨p, hload, hdata⟩ := h
  obtain ⟨block, hblock, rfl⟩ := load_minted hm hload
  obtain rfl := Except.ok.inj hdata
  rw [decodeBlockNumber, tryDecodeBlockPayload_toBytes hblock.2.2, hblock.1]

theorem receiptEntry_ne_nil {id : TxId} {entry : Bytes} (h : receiptEntry s id = .ok entry) :
    entry ≠ [] := by
  obtain ⟨ptr, -, h⟩ := bind_eq_ok.mp h
  obtain ⟨bytes, -, h⟩ := bind_eq_ok.mp h
  dsimp only at h
  split_ifs at h
  obtain ⟨len, -, h⟩ := bind_eq_ok.mp h
  obtain rfl := Except.ok.inj h
  intro hnil
  exact absurd (congrArg List.length hnil) (by simp)

theorem txIndexEntry_ne_nil {id : TxId} {entry : Bytes} (h : txIndexEntry c s id = .ok entry) :
    entry ≠ [] := by
  obtain ⟨ptr, -, h⟩ := bind_eq_ok.mp h
  obtain ⟨bytes, -, h⟩ := bind_eq_ok.mp h
  dsimp only at h
  split_ifs at h
  obtain ⟨stored, -, h⟩ := bind_eq_ok.mp h
  obtain ⟨caller, -, h⟩ := bind_eq_ok.mp h
  obtain ⟨decoded, -, h⟩ := bind_eq_ok.mp h
  obtain ⟨principalLen, -, h⟩ := bind_eq_ok.mp h
  obtain ⟨len, -, h⟩ := bind_eq_ok.mp h
  obtain rfl := Except.ok.inj h
  intro hnil
  exact absurd (congrArg List.length hnil) (by simp)

theorem solid_segmentOf (hm : Minted s) : Solid (SegmentOf c s) := by
  intro b k data h hk
  obtain ⟨p, hload, hdata⟩ := h
  obtain ⟨block, ⟨-, hne, hlen⟩, rfl⟩ := load_minted hm hload
  obtain ⟨id, ids, hids⟩ := List.exists_cons_of_ne_nil hne
  match k with
  | 0 =>
      obtain rfl := Except.ok.inj hdata
      intro hnil
      have hlength := congrArg List.length hnil
      rw [BlockData.toBytes_of_bounded hlen, BlockData.length_encodeWith, Chain.blockBaseLen] at hlength
      simp at hlength
  | 1 =>
      rw [BlockPayloads.segmentSlice, hids] at hdata
      obtain ⟨entry, hentry, hdata⟩ := bind_eq_ok.mp hdata
      obtain ⟨rest, -, hdata⟩ := bind_eq_ok.mp hdata
      obtain rfl := Except.ok.inj hdata
      exact List.append_ne_nil_of_left_ne_nil (receiptEntry_ne_nil hentry) rest
  | 2 =>
      rw [BlockPayloads.segmentSlice, hids] at hdata
      obtain ⟨entry, hentry, hdata⟩ := bind_eq_ok.mp hdata
      obtain ⟨rest, -, hdata⟩ := bind_eq_ok.mp hdata
      obtain rfl := Except.ok.inj hdata
      exact List.append_ne_nil_of_left_ne_nil (txIndexEntry_ne_nil hentry) rest

end Kasane.Indexer
