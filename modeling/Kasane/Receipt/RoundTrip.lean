import Kasane.Receipt.Codec

namespace Kasane.Receipt

open BigEndian Codec

def logSize (log : LogEntry) : Nat := 28 + 32 * log.topics.length + log.data.length

def logsSize (logs : List LogEntry) : Nat := (logs.map logSize).sum

def fixedSize : Nat := 178

def ReceiptLike.Fits (r : ReceiptLike) : Prop :=
  r.returnData.length + logsSize r.logs + 32 ≤ maxReturnData + maxLogsSize

instance (r : ReceiptLike) : Decidable r.Fits := inferInstanceAs (Decidable (_ ≤ _))

structure LogEntry.Bounded (log : LogEntry) : Prop where
  topics : log.topics.length ≤ maxLogTopics
  data : log.data.length ≤ maxLogData

structure ReceiptLike.Bounded (r : ReceiptLike) : Prop where
  status : r.status ≤ 1
  returnData : r.returnData.length ≤ maxReturnData
  logs : r.logs.length ≤ maxLogsPerTx
  each : ∀ log ∈ r.logs, log.Bounded

def logBytes (log : LogEntry) : Bytes :=
  log.address.toList ++ (u32Bytes (UInt32.ofNat log.topics.length) ++ (encodeTopics log.topics ++
    (u32Bytes (UInt32.ofNat log.data.length) ++ log.data)))

def receiptBytes (r : ReceiptLike) : Bytes :=
  encodeHead r ++ (u32Bytes (UInt32.ofNat r.returnData.length) ++ (r.returnData ++
    (encodeContractAddress r.contractAddress ++ (u32Bytes (UInt32.ofNat r.logs.length) ++
      r.logs.flatMap logBytes))))

theorem encodeLog_ok_iff (log : LogEntry) (bytes : Bytes) :
    encodeLog log = .ok bytes ↔ log.Bounded ∧ bytes = logBytes log := by
  constructor
  · intro h
    simp only [encodeLog, boundedLen, decide_eq_false_iff_not] at h
    split_ifs at h with h1 h2
    have ht : log.topics.length ≤ maxLogTopics := h1
    have hd : log.data.length ≤ maxLogData := h2
    have ht32 : log.topics.length < 2 ^ 32 := lt_of_le_of_lt ht (by decide)
    have hd32 : log.data.length < 2 ^ 32 := lt_of_le_of_lt hd (by decide)
    rw [u32TryFrom_of_lt ht32, u32TryFrom_of_lt hd32] at h
    exact ⟨⟨ht, hd⟩, (Except.ok.inj h).symm⟩
  · rintro ⟨⟨ht, hd⟩, rfl⟩
    have ht32 : log.topics.length < 2 ^ 32 := lt_of_le_of_lt ht (by decide)
    have hd32 : log.data.length < 2 ^ 32 := lt_of_le_of_lt hd (by decide)
    simp only [encodeLog, boundedLen, ht, hd, decide_true, Bool.true_eq_false, if_false,
      u32TryFrom_of_lt ht32, u32TryFrom_of_lt hd32, logBytes]

theorem encodeLogs_ok_iff (logs : List LogEntry) (bytes : Bytes) :
    encodeLogs logs = .ok bytes ↔
      (∀ log ∈ logs, log.Bounded) ∧ bytes = logs.flatMap logBytes := by
  induction logs generalizing bytes with
  | nil =>
      constructor
      · intro h
        exact ⟨by simp, (Except.ok.inj h).symm⟩
      · rintro ⟨-, rfl⟩
        rfl
  | cons log rest ih =>
      constructor
      · intro h
        rw [encodeLogs] at h
        split at h
        · exact absurd h (by simp)
        · rename_i head hhead
          obtain ⟨hb, rfl⟩ := (encodeLog_ok_iff log head).mp hhead
          split at h
          · exact absurd h (by simp)
          · rename_i tail htail
            obtain ⟨hall, rfl⟩ := (ih tail).mp htail
            refine ⟨List.forall_mem_cons.mpr ⟨hb, hall⟩, ?_⟩
            rw [List.flatMap_cons]
            exact (Except.ok.inj h).symm
      · rintro ⟨hall, rfl⟩
        obtain ⟨hb, hrest⟩ := List.forall_mem_cons.mp hall
        rw [encodeLogs, (encodeLog_ok_iff log _).mpr ⟨hb, rfl⟩, (ih _).mpr ⟨hrest, rfl⟩,
          List.flatMap_cons]

theorem encodeChecked_ok_iff (r : ReceiptLike) (bytes : Bytes) :
    encodeChecked r = .ok bytes ↔ r.Bounded ∧ bytes = receiptBytes r := by
  constructor
  · intro h
    simp only [encodeChecked, validReceiptStatus, boundedLen, decide_eq_false_iff_not] at h
    split_ifs at h with h1 h2 h3
    have hs : r.status ≤ 1 := h1
    have hr : r.returnData.length ≤ maxReturnData := h2
    have hl : r.logs.length ≤ maxLogsPerTx := h3
    have hr32 : r.returnData.length < 2 ^ 32 := lt_of_le_of_lt hr (by decide)
    have hl32 : r.logs.length < 2 ^ 32 := lt_of_le_of_lt hl (by decide)
    rw [u32TryFrom_of_lt hr32, u32TryFrom_of_lt hl32] at h
    simp only at h
    split at h
    · exact absurd h (by simp)
    · rename_i logs hlogs
      obtain ⟨hall, rfl⟩ := (encodeLogs_ok_iff r.logs logs).mp hlogs
      exact ⟨⟨hs, hr, hl, hall⟩, (Except.ok.inj h).symm⟩
  · rintro ⟨⟨hs, hr, hl, hall⟩, rfl⟩
    have hr32 : r.returnData.length < 2 ^ 32 := lt_of_le_of_lt hr (by decide)
    have hl32 : r.logs.length < 2 ^ 32 := lt_of_le_of_lt hl (by decide)
    simp only [encodeChecked, validReceiptStatus, boundedLen, hs, hr, hl, decide_true,
      Bool.true_eq_false, if_false, u32TryFrom_of_lt hr32, u32TryFrom_of_lt hl32,
      (encodeLogs_ok_iff r.logs _).mpr ⟨hall, rfl⟩, receiptBytes]

theorem length_encodeTopics (topics : List (ByteArr 32)) :
    (encodeTopics topics).length = 32 * topics.length :=
  (length_arrayBytes topics).trans (Nat.mul_comm _ _)

theorem length_logBytes (log : LogEntry) : (logBytes log).length = logSize log := by
  simp only [logBytes, List.length_append, List.Vector.toList_length, length_u32Bytes,
    length_encodeTopics, logSize]
  omega

theorem length_flatMap_logBytes (logs : List LogEntry) :
    (logs.flatMap logBytes).length = logsSize logs := by
  simp only [List.length_flatMap, logsSize]
  exact congrArg List.sum (List.map_congr_left (fun log _ => length_logBytes log))

theorem length_encodeHead (r : ReceiptLike) : (encodeHead r).length = 149 := by
  simp [encodeHead, receiptV2Magic]

theorem length_encodeContractAddress (a : Option (ByteArr receiptContractAddrLen)) :
    (encodeContractAddress a).length = 21 := by
  cases a with
  | none => rfl
  | some addr => exact congrArg (· + 1) addr.toList_length

theorem length_receiptBytes (r : ReceiptLike) :
    (receiptBytes r).length = fixedSize + r.returnData.length + logsSize r.logs := by
  simp only [receiptBytes, List.length_append, length_encodeHead, length_u32Bytes,
    length_encodeContractAddress, length_flatMap_logBytes, fixedSize]
  omega

theorem length_receiptBytes_le_iff (r : ReceiptLike) :
    (receiptBytes r).length ≤ receiptMaxSize ↔ r.Fits := by
  rw [length_receiptBytes]
  simp only [fixedSize, receiptMaxSize, receiptV2Extra, receiptContractAddrLen, ReceiptLike.Fits]
  omega

theorem readTopics_append (topics : List (ByteArr 32)) (rest : Bytes) :
    readTopics topics.length (encodeTopics topics ++ rest) = some (topics, rest) :=
  readArrays_append topics rest

theorem readLog_append (log : LogEntry) (hb : log.Bounded) (rest : Bytes) :
    readLog (logBytes log ++ rest) = some (log, rest) := by
  have ht32 : log.topics.length < UInt32.size := lt_of_le_of_lt hb.topics (by decide)
  have hd32 : log.data.length < UInt32.size := lt_of_le_of_lt hb.data (by decide)
  have ht : (UInt32.ofNat log.topics.length).toNat = log.topics.length :=
    UInt32.toNat_ofNat_of_lt ht32
  have hd : (UInt32.ofNat log.data.length).toNat = log.data.length :=
    UInt32.toNat_ofNat_of_lt hd32
  have h4 : ¬ log.topics.length > 4 := not_lt.mpr hb.topics
  simp [readLog, logBytes, List.append_assoc, ht, hd, boundedLen, hb.topics, hb.data,
    readTopics_append, logDataNew, h4]

theorem readLogs_append (logs : List LogEntry) (hb : ∀ log ∈ logs, log.Bounded) (rest : Bytes) :
    readLogs logs.length (logs.flatMap logBytes ++ rest) = some (logs, rest) := by
  induction logs with
  | nil => rfl
  | cons log logs ih =>
      obtain ⟨hlog, hlogs⟩ := List.forall_mem_cons.mp hb
      rw [List.flatMap_cons, List.append_assoc, List.length_cons, readLogs,
        readLog_append log hlog]
      simp [ih hlogs]

theorem readContractAddress_append (a : Option (ByteArr receiptContractAddrLen)) (rest : Bytes) :
    readContractAddress (encodeContractAddress a ++ rest) = some (a, rest) := by
  cases a with
  | none => simp [readContractAddress, encodeContractAddress]
  | some addr => simp [readContractAddress, encodeContractAddress]

theorem decodeReceipt_receiptBytes (r : ReceiptLike) (hb : r.Bounded) :
    decodeReceipt (receiptBytes r) = some r := by
  have hr32 : r.returnData.length < UInt32.size := lt_of_le_of_lt hb.returnData (by decide)
  have hl32 : r.logs.length < UInt32.size := lt_of_le_of_lt hb.logs (by decide)
  have hr : (UInt32.ofNat r.returnData.length).toNat = r.returnData.length :=
    UInt32.toNat_ofNat_of_lt hr32
  have hl : (UInt32.ofNat r.logs.length).toNat = r.logs.length :=
    UInt32.toNat_ofNat_of_lt hl32
  have hmagic : receiptV2Magic.isPrefixOf (receiptBytes r) = true := by
    simp [receiptBytes, encodeHead, List.append_assoc]
  have hdrop : (receiptBytes r).drop receiptV2Magic.length =
      r.txId.toList ++ (u64Bytes r.blockNumber ++ (u32Bytes r.txIndex ++
        (r.status :: (u64Bytes r.gasUsed ++ (u64Bytes r.effectiveGasPrice ++
          (u128Bytes r.l1DataFee ++ (u128Bytes r.operatorFee ++ (u128Bytes r.totalFee ++
            (r.returnDataHash.toList ++ (u32Bytes (UInt32.ofNat r.returnData.length) ++
              (r.returnData ++ (encodeContractAddress r.contractAddress ++
                (u32Bytes (UInt32.ofNat r.logs.length) ++
                  r.logs.flatMap logBytes))))))))))))) := by
    simp [receiptBytes, encodeHead, List.append_assoc]
  have hlogs := readLogs_append r.logs hb.each []
  rw [List.append_nil] at hlogs
  unfold decodeReceipt
  simp only [hmagic, if_true, hdrop]
  simp only [↓bind_of_read (readArray_append _ _), ↓bind_of_read (readU64_append _ _),
    ↓bind_of_read (readU32_append _ _), ↓bind_of_read (readU8_cons _ _),
    validReceiptStatus, hb.status, decide_true, Bool.true_eq_false, ↓if_false]
  simp only [readFees, if_true, ↓bind_of_read (readU128_append _ _), Option.pure_def,
    Option.bind_eq_bind, Option.bind_some, readArray_append, readU32_append, hr, boundedLen,
    hb.returnData, decide_true, Bool.true_eq_false, if_false, readVec_append,
    readContractAddress_append, hl, hb.logs, hlogs]

theorem corruptReceipt_bounded : corruptReceipt.Bounded where
  status := by decide
  returnData := by decide
  logs := by decide
  each := by simp [corruptReceipt]

theorem corruptReceipt_fits : corruptReceipt.Fits := by
  simp [ReceiptLike.Fits, corruptReceipt, logsSize, maxReturnData]
  omega

theorem encodeFallbackReceipt_eq : encodeFallbackReceipt = receiptBytes corruptReceipt := by
  have hok : encodeChecked corruptReceipt = .ok (receiptBytes corruptReceipt) :=
    (encodeChecked_ok_iff _ _).mpr ⟨corruptReceipt_bounded, rfl⟩
  have hfits : (receiptBytes corruptReceipt).length ≤ receiptMaxSize :=
    (length_receiptBytes_le_iff _).mpr corruptReceipt_fits
  have hguard : encodeGuarded (receiptBytes corruptReceipt) receiptMaxSize =
      .ok (receiptBytes corruptReceipt) := if_neg (not_lt.mpr hfits)
  unfold encodeFallbackReceipt
  generalize receiptMaxSize = size at hguard ⊢
  simp only [hok, hguard]

theorem toBytes_of_bounded (r : ReceiptLike) (hb : r.Bounded) :
    toBytes r = if r.Fits then receiptBytes r else receiptBytes corruptReceipt := by
  have hok : encodeChecked r = .ok (receiptBytes r) := (encodeChecked_ok_iff _ _).mpr ⟨hb, rfl⟩
  by_cases hfits : r.Fits
  · have hlen : (receiptBytes r).length ≤ receiptMaxSize := (length_receiptBytes_le_iff r).mpr hfits
    simp only [toBytes, hok, encodeGuarded, if_neg (not_lt.mpr hlen), if_pos hfits]
  · have hlen : ¬ (receiptBytes r).length ≤ receiptMaxSize :=
      fun h => hfits ((length_receiptBytes_le_iff r).mp h)
    simp only [toBytes, hok, encodeGuarded, if_pos (not_le.mp hlen), if_neg hfits,
      encodeFallbackReceipt_eq]

theorem fromBytes_receiptBytes (r : ReceiptLike) (hb : r.Bounded) (hfits : r.Fits) :
    fromBytes (receiptBytes r) = r := by
  have hlen : (receiptBytes r).length ≤ receiptMaxSize := (length_receiptBytes_le_iff r).mpr hfits
  simp [fromBytes, boundedLen, hlen, decodeReceipt_receiptBytes r hb]

theorem fromBytes_toBytes (r : ReceiptLike) (hb : r.Bounded) :
    fromBytes (toBytes r) = if r.Fits then r else corruptReceipt := by
  rw [toBytes_of_bounded r hb]
  split_ifs with hfits
  · exact fromBytes_receiptBytes r hb hfits
  · exact fromBytes_receiptBytes corruptReceipt corruptReceipt_bounded corruptReceipt_fits

theorem fromBytes_toBytes_eq_iff (r : ReceiptLike) (hb : r.Bounded) :
    fromBytes (toBytes r) = r ↔ r.Fits := by
  rw [fromBytes_toBytes r hb]
  split_ifs with hfits
  · exact iff_of_true rfl hfits
  · refine iff_of_false ?_ hfits
    intro heq
    exact hfits (heq ▸ corruptReceipt_fits)

theorem readLogs_length {n : Nat} {data rest : Bytes} {logs : List LogEntry}
    (h : readLogs n data = some (logs, rest)) : logs.length = n := by
  induction n generalizing data logs rest with
  | zero =>
      obtain ⟨rfl, -⟩ := Prod.mk.inj (Option.some.inj h)
      rfl
  | succ n ih =>
      obtain ⟨⟨log, data₁⟩, -, h⟩ := Option.bind_eq_some_iff.mp h
      obtain ⟨⟨tail, data₂⟩, htail, h⟩ := Option.bind_eq_some_iff.mp h
      obtain ⟨rfl, -⟩ := Prod.mk.inj (Option.some.inj h)
      rw [List.length_cons, ih htail]

theorem decodeReceipt_logs {bytes : Bytes} {receipt : ReceiptLike}
    (h : decodeReceipt bytes = some receipt) : receipt.logs.length ≤ maxLogsPerTx := by
  rw [decodeReceipt] at h
  obtain ⟨⟨txId, data₁⟩, -, h⟩ := Option.bind_eq_some_iff.mp h
  obtain ⟨⟨blockNumber, data₂⟩, -, h⟩ := Option.bind_eq_some_iff.mp h
  obtain ⟨⟨txIndex, data₃⟩, -, h⟩ := Option.bind_eq_some_iff.mp h
  obtain ⟨⟨status, data₄⟩, -, h⟩ := Option.bind_eq_some_iff.mp h
  obtain ⟨-, h⟩ := Option.ite_none_left_eq_some.mp h
  obtain ⟨⟨gasUsed, data₅⟩, -, h⟩ := Option.bind_eq_some_iff.mp h
  obtain ⟨⟨gasPrice, data₆⟩, -, h⟩ := Option.bind_eq_some_iff.mp h
  obtain ⟨⟨⟨l1DataFee, operatorFee, totalFee⟩, data₇⟩, -, h⟩ := Option.bind_eq_some_iff.mp h
  obtain ⟨⟨returnDataHash, data₈⟩, -, h⟩ := Option.bind_eq_some_iff.mp h
  obtain ⟨⟨returnDataLen, data₉⟩, -, h⟩ := Option.bind_eq_some_iff.mp h
  obtain ⟨-, h⟩ := Option.ite_none_left_eq_some.mp h
  obtain ⟨⟨returnData, data₁₀⟩, -, h⟩ := Option.bind_eq_some_iff.mp h
  obtain ⟨⟨contractAddress, data₁₁⟩, -, h⟩ := Option.bind_eq_some_iff.mp h
  obtain ⟨⟨logsLen, data₁₂⟩, -, h⟩ := Option.bind_eq_some_iff.mp h
  obtain ⟨hbounded, h⟩ := Option.ite_none_left_eq_some.mp h
  obtain ⟨⟨logs, data₁₃⟩, hlogs, h⟩ := Option.bind_eq_some_iff.mp h
  obtain rfl := Option.some.inj h
  rw [readLogs_length hlogs]
  simpa [boundedLen] using hbounded

theorem fromBytes_logs (bytes : Bytes) : (fromBytes bytes).logs.length ≤ maxLogsPerTx := by
  rw [fromBytes]
  split_ifs
  · exact Nat.zero_le _
  · cases hread : decodeReceipt bytes with
    | none => exact Nat.zero_le _
    | some receipt => exact decodeReceipt_logs hread

end Kasane.Receipt
