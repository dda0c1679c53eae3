import Kasane.Chain.Pool

namespace Kasane.Chain

open BigEndian Codec Word Blob

theorem fromPrincipalBytes_injective : Function.Injective CallerKey.fromPrincipalBytes := by
  intro p q h
  have hp := p.bounded
  have hq := q.bounded
  obtain ⟨hhead, htail⟩ := List.cons.inj (congrArg List.Vector.toList h)
  have hlen : p.bytes.length = q.bytes.length := by
    have hmax : maxPrincipalLen < 2 ^ 8 := by decide
    have hnat := congrArg UInt8.toNat hhead
    rw [UInt8.toNat_ofNat', UInt8.toNat_ofNat', Nat.mod_eq_of_lt (lt_of_le_of_lt hp hmax),
      Nat.mod_eq_of_lt (lt_of_le_of_lt hq hmax)] at hnat
    exact hnat
  exact Principal.bytes_injective (List.append_inj_left htail hlen)

def storedPrincipal (c : Crypto) (store : OrdMap TxId StoredTxBytes) (id : TxId) :
    Option Principal :=
  match (store.get id).map (StoredTx.tryFrom c) with
  | some (.ok tx) => some tx.callerPrincipal
  | _ => none

def pendingCount (c : Crypto) (store : OrdMap TxId StoredTxBytes)
    (pending : OrdMap SenderNonceKey TxId) (who : Principal) : Nat :=
  pending.entries.countP (fun e => decide (storedPrincipal c store e.2 = some who))

def Counts (c : Crypto) (store : OrdMap TxId StoredTxBytes) (pending : OrdMap SenderNonceKey TxId)
    (counts : OrdMap CallerKey Nat) : Prop :=
  ∀ who, (counts.get (CallerKey.fromPrincipalBytes who)).getD 0 = pendingCount c store pending who

variable {c : Crypto}

theorem storedPrincipal_of_ok {store : OrdMap TxId StoredTxBytes} {id : TxId}
    {bytes : StoredTxBytes} {tx : StoredTx} (hget : store.get id = some bytes)
    (htx : StoredTx.tryFrom c bytes = .ok tx) :
    storedPrincipal c store id = some tx.callerPrincipal := by
  rw [storedPrincipal, hget, Option.map_some, htx]

theorem decrementedCounts_of_principal {store : OrdMap TxId StoredTxBytes}
    {counts : OrdMap CallerKey Nat} {id : TxId} {who : Principal}
    (h : storedPrincipal c store id = some who) (other : Principal) :
    ((decrementedCounts c store counts id).get (CallerKey.fromPrincipalBytes other)).getD 0 =
      (counts.get (CallerKey.fromPrincipalBytes other)).getD 0 - (if other = who then 1 else 0) := by
  rw [storedPrincipal] at h
  rw [decrementedCounts]
  generalize (store.get id).map (StoredTx.tryFrom c) = found at h ⊢
  rcases found with - | (e | tx)
  · exact absurd h (by simp)
  · exact absurd h (by simp)
  · obtain rfl := Option.some.inj h
    dsimp only
    have hkey : CallerKey.fromPrincipalBytes other = CallerKey.fromPrincipalBytes tx.callerPrincipal ↔
        other = tx.callerPrincipal := fromPrincipalBytes_injective.eq_iff
    rw [decrementCount]
    split
    · rename_i hdec
      split_ifs at hdec with hle
      rw [OrdMap.get_remove]
      split_ifs with h₁ h₂ h₂
      · rw [h₁]
        simp only [Option.getD_none]
        omega
      · exact absurd (hkey.mp h₁) h₂
      · exact absurd (hkey.mpr h₂) h₁
      · rfl
    · rename_i next hdec
      split_ifs at hdec with hle
      obtain rfl := CountAfterDecrement.set.inj hdec
      rw [OrdMap.get_insert]
      split_ifs with h₁ h₂ h₂
      · rw [h₁]
        rfl
      · exact absurd (hkey.mp h₁) h₂
      · exact absurd (hkey.mpr h₂) h₁
      · rfl

theorem decrementedCounts_of_none {store : OrdMap TxId StoredTxBytes}
    {counts : OrdMap CallerKey Nat} {id : TxId} (h : storedPrincipal c store id = none) :
    decrementedCounts c store counts id = counts := by
  rw [storedPrincipal] at h
  rw [decrementedCounts]
  generalize (store.get id).map (StoredTx.tryFrom c) = found at h ⊢
  rcases found with - | (e | tx)
  · rfl
  · rfl
  · exact absurd h (by simp)

theorem pendingCount_le (store : OrdMap TxId StoredTxBytes) (pending : OrdMap SenderNonceKey TxId)
    (who : Principal) : pendingCount c store pending who ≤ pending.len :=
  List.countP_le_length

theorem pendingCount_congr {store store' : OrdMap TxId StoredTxBytes}
    {pending : OrdMap SenderNonceKey TxId}
    (h : ∀ key id, pending.get key = some id → store'.get id = store.get id) (who : Principal) :
    pendingCount c store' pending who = pendingCount c store pending who := by
  refine List.countP_congr ?_
  rintro ⟨key, id⟩ hm
  rw [storedPrincipal, storedPrincipal, h key id (OrdMap.mem_entries.mp hm)]

theorem Counts.congr {store store' : OrdMap TxId StoredTxBytes}
    {pending : OrdMap SenderNonceKey TxId} {counts : OrdMap CallerKey Nat}
    (h : Counts c store pending counts)
    (hsame : ∀ key id, pending.get key = some id → store'.get id = store.get id) :
    Counts c store' pending counts := by
  intro who
  rw [pendingCount_congr hsame]
  exact h who

theorem Counts.remove {store : OrdMap TxId StoredTxBytes} {pending : OrdMap SenderNonceKey TxId}
    {counts : OrdMap CallerKey Nat} {key : SenderNonceKey} {id : TxId} {who : Principal}
    (h : Counts c store pending counts) (hget : pending.get key = some id)
    (hwho : storedPrincipal c store id = some who) :
    Counts c store (pending.remove key) (decrementedCounts c store counts id) := by
  intro other
  have hcount := OrdMap.countP_remove pending key id
    (fun e => decide (storedPrincipal c store e.2 = some other)) hget
  rw [decrementedCounts_of_principal hwho, h other]
  simp only [hwho, Option.some.injEq, decide_eq_true_eq] at hcount
  simp only [pendingCount]
  split_ifs at hcount ⊢ with h₁ h₂ h₂
  · omega
  · exact absurd h₁.symm h₂
  · exact absurd h₂.symm h₁
  · omega

theorem Counts.insert {store : OrdMap TxId StoredTxBytes} {pending : OrdMap SenderNonceKey TxId}
    {counts : OrdMap CallerKey Nat} {key : SenderNonceKey} {id : TxId} {who : Principal}
    (h : Counts c store pending counts) (hget : pending.get key = none)
    (hlen : pending.len < u32Max) (hwho : storedPrincipal c store id = some who) :
    Counts c store (pending.insert key id)
      (counts.insert (CallerKey.fromPrincipalBytes who) (saturatingAdd u32Max
        ((counts.get (CallerKey.fromPrincipalBytes who)).getD 0) 1)) := by
  intro other
  have hcount := OrdMap.countP_insert pending key id
    (fun e => decide (storedPrincipal c store e.2 = some other)) hget
  have hle := pendingCount_le (c := c) store pending who
  simp only [hwho, Option.some.injEq, decide_eq_true_eq] at hcount
  rw [pendingCount, hcount, OrdMap.get_insert]
  have hkey : CallerKey.fromPrincipalBytes other = CallerKey.fromPrincipalBytes who ↔ other = who :=
    fromPrincipalBytes_injective.eq_iff
  split_ifs with h₁ h₂ h₂
  · obtain rfl := h₂
    rw [Option.getD_some, h who, saturatingAdd, min_eq_left (by omega)]
    rfl
  · exact absurd (hkey.mp h₁).symm h₂
  · exact absurd (hkey.mpr h₂.symm) h₁
  · exact h other

end Kasane.Chain
