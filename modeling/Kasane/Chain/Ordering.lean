import Kasane.Lib.ByteOrder
import Kasane.Chain.State

namespace Kasane.Chain.Ordering

open BigEndian Codec Word OrderDual

def readyKeyLen : Nat := 72

def readySeqKeyLen : Nat := 40

def pendingFeeKeyLen : Nat := 40

def senderKeyLen : Nat := 20

def senderNonceKeyLen : Nat := 28

def hashToArray (keccak256 : Bytes → ByteArr 32) (n : Nat) (label data : Bytes) : ByteArr n :=
  let hash := (keccak256 (label ++ data)).toList
  ⟨hash.take n ++ List.replicate (n - 32) 0, by
    simp only [hash, List.length_append, List.length_take, List.Vector.toList_length,
      List.length_replicate]
    omega⟩

def storedBytes (bytes : Bytes) (len : Nat) : Bytes :=
  match encodeGuarded bytes len with
  | .ok value => value
  | .error _ => List.replicate len 0

def arrayFromBytes (keccak256 : Bytes → ByteArr 32) (n : Nat) (label data : Bytes) : ByteArr n :=
  if h : data.length = n then ⟨data, h⟩ else hashToArray keccak256 n label data

abbrev ReadyKey := ByteArr readyKeyLen

namespace ReadyKey

def new (maxFeePerGas maxPriorityFeePerGas : BitVec 128) (seq : UInt64) (txHash : ByteArr 32) :
    ReadyKey :=
  let maxFeeInv := BitVec.ofNat 128 (u128Max - maxFeePerGas.toNat)
  let maxPriorityInv := BitVec.ofNat 128 (u128Max - maxPriorityFeePerGas.toNat)
  ⟨u128Bytes maxFeeInv ++ (u128Bytes maxPriorityInv ++ (u64Bytes seq ++ txHash.toList)), by
    simp [readyKeyLen]⟩

def seq (key : ReadyKey) : UInt64 := UInt64.ofNat (decode ((key.toList.drop 32).take 8))

def toBytes (key : ReadyKey) : Bytes := storedBytes key.toList readyKeyLen

def fromBytes (keccak256 : Bytes → ByteArr 32) (data : Bytes) : ReadyKey :=
  arrayFromBytes keccak256 readyKeyLen "ready_key".toUTF8.toList data

end ReadyKey

abbrev ReadySeqKey := ByteArr readySeqKeyLen

namespace ReadySeqKey

def new (seq : UInt64) (txHash : ByteArr 32) : ReadySeqKey :=
  ⟨u64Bytes seq ++ txHash.toList, by simp [readySeqKeyLen]⟩

def toBytes (key : ReadySeqKey) : Bytes := storedBytes key.toList readySeqKeyLen

def fromBytes (keccak256 : Bytes → ByteArr 32) (data : Bytes) : ReadySeqKey :=
  arrayFromBytes keccak256 readySeqKeyLen "ready_seq_key".toUTF8.toList data

end ReadySeqKey

abbrev PendingFeeKey := ByteArr pendingFeeKeyLen

namespace PendingFeeKey

def new (effectiveGasPrice : UInt64) (txHash : ByteArr 32) : PendingFeeKey :=
  ⟨u64Bytes effectiveGasPrice ++ txHash.toList, by simp [pendingFeeKeyLen]⟩

def txId (key : PendingFeeKey) : ByteArr 32 :=
  ⟨key.toList.drop 8, by rw [List.length_drop, key.toList_length, pendingFeeKeyLen]⟩

def toBytes (key : PendingFeeKey) : Bytes := storedBytes key.toList pendingFeeKeyLen

def fromBytes (keccak256 : Bytes → ByteArr 32) (data : Bytes) : PendingFeeKey :=
  arrayFromBytes keccak256 pendingFeeKeyLen "pending_fee_key".toUTF8.toList data

end PendingFeeKey

structure SenderNonceKey where
  sender : ByteArr senderKeyLen
  nonce : UInt64
deriving DecidableEq

namespace SenderNonceKey

instance : LT SenderNonceKey := ⟨fun a b => toLex (a.sender, a.nonce) < toLex (b.sender, b.nonce)⟩

def toBytes (key : SenderNonceKey) : Bytes :=
  storedBytes (key.sender.toList ++ u64Bytes key.nonce) senderNonceKeyLen

def parts (raw : ByteArr senderNonceKeyLen) : SenderNonceKey where
  sender := ⟨raw.toList.take 20, by rw [List.length_take, raw.toList_length]; rfl⟩
  nonce := UInt64.ofNat (decode (raw.toList.drop 20))

def fromBytes (keccak256 : Bytes → ByteArr 32) (data : Bytes) : SenderNonceKey :=
  parts (arrayFromBytes keccak256 senderNonceKeyLen "sender_nonce_key".toUTF8.toList data)

end SenderNonceKey

theorem storedBytes_of_length {bytes : Bytes} {len : Nat} (h : bytes.length = len) :
    storedBytes bytes len = bytes := by
  rw [storedBytes, encodeGuarded, if_neg (by omega)]

theorem arrayFromBytes_toList (keccak256 : Bytes → ByteArr 32) {n : Nat} (label : Bytes)
    (key : ByteArr n) : arrayFromBytes keccak256 n label key.toList = key :=
  dif_pos key.toList_length

theorem before_u128 (a b : BitVec 128) (x y : Bytes) :
    Before (u128Bytes a ++ x) (u128Bytes b ++ y) ↔ a < b ∨ a = b ∧ Before x y :=
  (before_encode_append a.isLt b.isLt x y).trans
    (or_congr Iff.rfl (and_congr BitVec.toNat_inj Iff.rfl))

theorem before_u64 (a b : UInt64) (x y : Bytes) :
    Before (u64Bytes a ++ x) (u64Bytes b ++ y) ↔ a < b ∨ a = b ∧ Before x y :=
  (before_encode_append a.toNat_lt b.toNat_lt x y).trans
    (or_congr UInt64.lt_iff_toNat_lt.symm (and_congr UInt64.toNat_inj Iff.rfl))

theorem inverted_lt (a b : BitVec 128) :
    BitVec.ofNat 128 (u128Max - a.toNat) < BitVec.ofNat 128 (u128Max - b.toNat) ↔ b < a := by
  have ha := a.isLt
  have hb := b.isLt
  rw [BitVec.lt_def, BitVec.lt_def, BitVec.toNat_ofNat, BitVec.toNat_ofNat, u128Max]
  omega

theorem inverted_inj (a b : BitVec 128) :
    BitVec.ofNat 128 (u128Max - a.toNat) = BitVec.ofNat 128 (u128Max - b.toNat) ↔ a = b := by
  have ha := a.isLt
  have hb := b.isLt
  rw [← BitVec.toNat_inj, ← BitVec.toNat_inj, BitVec.toNat_ofNat, BitVec.toNat_ofNat, u128Max]
  omega

theorem u128_append_inj {a b : BitVec 128} {x y : Bytes} :
    u128Bytes a ++ x = u128Bytes b ++ y ↔ a = b ∧ x = y :=
  (encode_append_inj a.isLt b.isLt).trans (and_congr BitVec.toNat_inj Iff.rfl)

theorem u64_append_inj {a b : UInt64} {x y : Bytes} :
    u64Bytes a ++ x = u64Bytes b ++ y ↔ a = b ∧ x = y :=
  (encode_append_inj a.toNat_lt b.toNat_lt).trans (and_congr UInt64.toNat_inj Iff.rfl)

theorem decode_u64Bytes (x : UInt64) : UInt64.ofNat (decode (u64Bytes x)) = x := by
  rw [u64Bytes, decode_encode_of_lt x.toNat_lt, UInt64.ofNat_toNat]

-- keys built from their fields and stored as bytes: both orders, and back again
structure StoredInOrder {F K : Type} [LT F] [LT K] (build : F → K) (store : K → Bytes)
    (load : Bytes → K) : Prop where
  fields : ∀ a b, Before (store (build a)) (store (build b)) ↔ a < b
  own : ∀ k k', Before (store k) (store k') ↔ k < k'
  injective : Function.Injective (fun a => store (build a))
  loads : ∀ k, load (store k) = k

theorem array_stored (keccak256 : Bytes → ByteArr 32) {F : Type} [LT F] {n : Nat} (label : Bytes)
    {build : F → ByteArr n} (hfields : ∀ a b, Before (build a).toList (build b).toList ↔ a < b)
    (hinjective : Function.Injective build) :
    StoredInOrder build (fun k => storedBytes k.toList n) (arrayFromBytes keccak256 n label) := by
  have hstored (k : ByteArr n) : storedBytes k.toList n = k.toList :=
    storedBytes_of_length k.toList_length
  refine ⟨fun a b => ?_, fun k k' => ?_, fun a b h => ?_, fun k => ?_⟩
  · rw [hstored, hstored]
    exact hfields a b
  · rw [hstored, hstored]
    exact Iff.rfl
  · dsimp only at h
    rw [hstored, hstored] at h
    exact hinjective (Subtype.ext h)
  · rw [hstored]
    exact arrayFromBytes_toList keccak256 label k

abbrev ReadyFields := (BitVec 128)ᵒᵈ ×ₗ (BitVec 128)ᵒᵈ ×ₗ UInt64 ×ₗ ByteArr 32

def ReadyKey.ofFields (fields : ReadyFields) : ReadyKey :=
  .new (ofDual (ofLex fields).1) (ofDual (ofLex (ofLex fields).2).1)
    (ofLex (ofLex (ofLex fields).2).2).1 (ofLex (ofLex (ofLex fields).2).2).2

def ReadySeqKey.ofFields (fields : UInt64 ×ₗ ByteArr 32) : ReadySeqKey :=
  .new (ofLex fields).1 (ofLex fields).2

def PendingFeeKey.ofFields (fields : UInt64 ×ₗ ByteArr 32) : PendingFeeKey :=
  .new (ofLex fields).1 (ofLex fields).2

def SenderNonceKey.ofFields (fields : ByteArr senderKeyLen ×ₗ UInt64) : SenderNonceKey :=
  ⟨(ofLex fields).1, (ofLex fields).2⟩

theorem before_tail (x y : UInt64 ×ₗ ByteArr 32) :
    Before (u64Bytes (ofLex x).1 ++ (ofLex x).2.toList) (u64Bytes (ofLex y).1 ++ (ofLex y).2.toList) ↔
      x < y := by
  rw [before_u64, Prod.Lex.lt_iff]
  exact Iff.rfl

theorem tail_injective {x y : UInt64 ×ₗ ByteArr 32}
    (h : u64Bytes (ofLex x).1 ++ (ofLex x).2.toList = u64Bytes (ofLex y).1 ++ (ofLex y).2.toList) :
    x = y := by
  obtain ⟨hseq, hhash⟩ := u64_append_inj.mp h
  exact ofLex.injective (Prod.ext hseq (Subtype.ext hhash))

theorem ready_key_stored (keccak256 : Bytes → ByteArr 32) :
    StoredInOrder ReadyKey.ofFields ReadyKey.toBytes (ReadyKey.fromBytes keccak256) := by
  refine array_stored keccak256 _ (fun a b => ?_) (fun a b h => ?_)
  · rw [Prod.Lex.lt_iff, Prod.Lex.lt_iff, ← before_tail]
    refine (before_u128 ..).trans (or_congr (inverted_lt ..) (and_congr (inverted_inj ..) ?_))
    exact (before_u128 ..).trans (or_congr (inverted_lt ..) (and_congr (inverted_inj ..) Iff.rfl))
  · obtain ⟨hfee, hrest⟩ := u128_append_inj.mp (congrArg List.Vector.toList h)
    obtain ⟨hpriority, htail⟩ := u128_append_inj.mp hrest
    exact ofLex.injective (Prod.ext ((inverted_inj ..).mp hfee)
      (ofLex.injective (Prod.ext ((inverted_inj ..).mp hpriority) (tail_injective htail))))

theorem ready_seq_key_stored (keccak256 : Bytes → ByteArr 32) :
    StoredInOrder ReadySeqKey.ofFields ReadySeqKey.toBytes (ReadySeqKey.fromBytes keccak256) :=
  array_stored keccak256 _ (fun a b => before_tail a b)
    (fun _ _ h => tail_injective (congrArg List.Vector.toList h))

theorem pending_fee_key_stored (keccak256 : Bytes → ByteArr 32) :
    StoredInOrder PendingFeeKey.ofFields PendingFeeKey.toBytes
      (PendingFeeKey.fromBytes keccak256) :=
  array_stored keccak256 _ (fun a b => before_tail a b)
    (fun _ _ h => tail_injective (congrArg List.Vector.toList h))

theorem length_sender_nonce (sender : ByteArr senderKeyLen) (nonce : UInt64) :
    (sender.toList ++ u64Bytes nonce).length = senderNonceKeyLen := by
  rw [List.length_append, sender.toList_length, length_u64Bytes]
  rfl

theorem stored_sender_nonce (key : SenderNonceKey) :
    key.toBytes = key.sender.toList ++ u64Bytes key.nonce :=
  storedBytes_of_length (length_sender_nonce key.sender key.nonce)

theorem before_sender_nonce (k k' : SenderNonceKey) : Before k.toBytes k'.toBytes ↔ k < k' := by
  have hlen : k.sender.toList.length = k'.sender.toList.length := by
    rw [k.sender.toList_length, k'.sender.toList_length]
  have hnonce : Before (u64Bytes k.nonce) (u64Bytes k'.nonce) ↔ k.nonce < k'.nonce :=
    (before_encode k.nonce.toNat_lt k'.nonce.toNat_lt).trans UInt64.lt_iff_toNat_lt.symm
  rw [stored_sender_nonce, stored_sender_nonce, before_append hlen, hnonce]
  refine Iff.trans ?_ Prod.Lex.toLex_lt_toLex.symm
  exact or_congr Iff.rfl (and_congr Subtype.ext_iff.symm Iff.rfl)

theorem load_sender_nonce (keccak256 : Bytes → ByteArr 32) (key : SenderNonceKey) :
    SenderNonceKey.fromBytes keccak256 key.toBytes = key := by
  obtain ⟨sender, nonce⟩ := key
  have hraw := arrayFromBytes_toList keccak256 "sender_nonce_key".toUTF8.toList
    (⟨sender.toList ++ u64Bytes nonce, length_sender_nonce sender nonce⟩ : ByteArr senderNonceKeyLen)
  have htake : (sender.toList ++ u64Bytes nonce).take 20 = sender.toList :=
    List.take_left' sender.toList_length
  have hdrop : (sender.toList ++ u64Bytes nonce).drop 20 = u64Bytes nonce :=
    List.drop_left' sender.toList_length
  rw [stored_sender_nonce, SenderNonceKey.fromBytes]
  rw [List.Vector.toList_mk] at hraw
  rw [hraw]
  simp only [SenderNonceKey.parts, List.Vector.toList_mk, htake, hdrop, decode_u64Bytes]
  rfl

theorem sender_nonce_key_stored (keccak256 : Bytes → ByteArr 32) :
    StoredInOrder SenderNonceKey.ofFields SenderNonceKey.toBytes
      (SenderNonceKey.fromBytes keccak256) where
  fields := fun _ _ => before_sender_nonce _ _
  own := before_sender_nonce
  injective := by
    intro a b h
    have hkeys := congrArg (SenderNonceKey.fromBytes keccak256) h
    rw [load_sender_nonce, load_sender_nonce, SenderNonceKey.ofFields, SenderNonceKey.ofFields,
      SenderNonceKey.mk.injEq] at hkeys
    exact ofLex.injective (Prod.ext hkeys.1 hkeys.2)
  loads := load_sender_nonce keccak256

theorem keys_stored_in_order (keccak256 : Bytes → ByteArr 32) :
    StoredInOrder ReadyKey.ofFields ReadyKey.toBytes (ReadyKey.fromBytes keccak256) ∧
    StoredInOrder ReadySeqKey.ofFields ReadySeqKey.toBytes (ReadySeqKey.fromBytes keccak256) ∧
    StoredInOrder PendingFeeKey.ofFields PendingFeeKey.toBytes
      (PendingFeeKey.fromBytes keccak256) ∧
    StoredInOrder SenderNonceKey.ofFields SenderNonceKey.toBytes
      (SenderNonceKey.fromBytes keccak256) :=
  ⟨ready_key_stored keccak256, ready_seq_key_stored keccak256, pending_fee_key_stored keccak256,
    sender_nonce_key_stored keccak256⟩

theorem seq_new (maxFeePerGas maxPriorityFeePerGas : BitVec 128) (seq : UInt64)
    (txHash : ByteArr 32) : (ReadyKey.new maxFeePerGas maxPriorityFeePerGas seq txHash).seq = seq := by
  have hdrop (a b : BitVec 128) (rest : Bytes) :
      (u128Bytes a ++ (u128Bytes b ++ rest)).drop 32 = rest := by
    rw [← List.append_assoc]
    exact List.drop_left' (by simp)
  have hread : ((ReadyKey.new maxFeePerGas maxPriorityFeePerGas seq txHash).toList.drop 32).take 8 =
      u64Bytes seq :=
    (congrArg (List.take 8) (hdrop ..)).trans (List.take_left' (length_u64Bytes seq))
  rw [ReadyKey.seq, hread, decode_u64Bytes]

theorem txId_new (effectiveGasPrice : UInt64) (txHash : ByteArr 32) :
    (PendingFeeKey.new effectiveGasPrice txHash).txId = txHash :=
  Subtype.ext (List.drop_left' (length_u64Bytes effectiveGasPrice))

-- the keys the pool is modelled with are ordered as the stored ones are
section Modelled

variable (f p f' p' : BitVec 128) (s s' : UInt64) (t t' : ByteArr 32)

theorem inverted_lt_nat (a b : BitVec 128) : u128Max - a.toNat < u128Max - b.toNat ↔ b < a := by
  have ha := a.isLt
  have hb := b.isLt
  rw [BitVec.lt_def, u128Max]
  omega

theorem inverted_inj_nat (a b : BitVec 128) : u128Max - a.toNat = u128Max - b.toNat ↔ a = b := by
  have ha := a.isLt
  have hb := b.isLt
  rw [← BitVec.toNat_inj, u128Max]
  omega

theorem seq_tail_lt : toLex (s.toNat, t) < toLex (s'.toNat, t') ↔ toLex (s, t) < toLex (s', t') := by
  rw [Prod.Lex.toLex_lt_toLex, Prod.Lex.toLex_lt_toLex]
  exact or_congr UInt64.lt_iff_toNat_lt.symm (and_congr UInt64.toNat_inj Iff.rfl)

theorem ready_key_lt : Chain.ReadyKey.new f.toNat p.toNat s.toNat t <
      Chain.ReadyKey.new f'.toNat p'.toNat s'.toNat t' ↔
    Before (ReadyKey.new f p s t).toBytes (ReadyKey.new f' p' s' t').toBytes := by
  refine Iff.trans ?_ ((ready_key_stored (fun _ => zeroArr 32)).fields
    (toLex (toDual f, toLex (toDual p, toLex (s, t))))
    (toLex (toDual f', toLex (toDual p', toLex (s', t'))))).symm
  rw [Prod.Lex.toLex_lt_toLex, Prod.Lex.toLex_lt_toLex, ← seq_tail_lt]
  refine Prod.Lex.toLex_lt_toLex.trans (or_congr (inverted_lt_nat f f')
    (and_congr (inverted_inj_nat f f') ?_))
  exact Prod.Lex.toLex_lt_toLex.trans (or_congr (inverted_lt_nat p p')
    (and_congr (inverted_inj_nat p p') Iff.rfl))

theorem ready_seq_key_lt : (⟨s.toNat, t⟩ : Chain.ReadySeqKey) < ⟨s'.toNat, t'⟩ ↔
    Before (ReadySeqKey.new s t).toBytes (ReadySeqKey.new s' t').toBytes :=
  (seq_tail_lt s s' t t').trans ((ready_seq_key_stored (fun _ => zeroArr 32)).fields (toLex (s, t))
    (toLex (s', t'))).symm

theorem pending_fee_key_lt : (⟨s.toNat, t⟩ : Chain.PendingFeeKey) < ⟨s'.toNat, t'⟩ ↔
    Before (PendingFeeKey.new s t).toBytes (PendingFeeKey.new s' t').toBytes :=
  (seq_tail_lt s s' t t').trans ((pending_fee_key_stored (fun _ => zeroArr 32)).fields
    (toLex (s, t)) (toLex (s', t'))).symm

theorem sender_nonce_key_lt (a a' : Address) : (⟨a, s.toNat⟩ : Chain.SenderNonceKey) < ⟨a', s'.toNat⟩ ↔
    Before (⟨a, s⟩ : SenderNonceKey).toBytes (⟨a', s'⟩ : SenderNonceKey).toBytes := by
  refine Iff.trans ?_ (before_sender_nonce ⟨a, s⟩ ⟨a', s'⟩).symm
  refine Prod.Lex.toLex_lt_toLex.trans (Iff.trans ?_ Prod.Lex.toLex_lt_toLex.symm)
  exact or_congr Iff.rfl (and_congr Iff.rfl UInt64.lt_iff_toNat_lt.symm)

end Modelled

end Kasane.Chain.Ordering
