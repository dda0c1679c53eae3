import Kasane.Gateway.Grounded
import Kasane.Receipt.RoundTrip

namespace Kasane.Gateway

open BigEndian Codec Word Chain Exec

variable {T : Type}

open GatewayState

def UnwrapIntent (c : Crypto) (chain : StableState (World T)) (txId : TxId) (index : Nat)
    (req : UnwrapDispatchRequest) : Prop :=
  ∃ receipt log, getReceipt chain txId = some receipt ∧ receipt.logs[index]? = some log ∧
    unwrapRequestFromLog c 0 log = some req

theorem unwrapRequestFromLog_now (c : Crypto) (now : Nat) (log : Receipt.LogEntry) :
    unwrapRequestFromLog c now log =
      (unwrapRequestFromLog c 0 log).map (fun req => { req with updatedAt := now }) := by
  rw [unwrapRequestFromLog, unwrapRequestFromLog]
  cases Precompile.nativeWithdrawIntentFromLog c.keccak256 log with
  | some intent => rfl
  | none =>
      cases Precompile.unwrapIntentFromLog c.keccak256 log with
      | none => rfl
      | some intent => rfl

structure RecordsUnwraps (owed : TxId → UnwrapDispatchRequest → Prop) (s t : GatewayState T) :
    Prop where
  chain : t.chain = s.chain
  kept : ∀ id cur, s.unwrapRequests.get id = some cur → t.unwrapRequests.get id = some cur
  origin : ∀ id cur, t.unwrapRequests.get id = some cur →
    s.unwrapRequests.get id = some cur ∨ owed id cur
  stored : ∀ id req, owed id req → t.unwrapRequests.get id ≠ none

namespace RecordsUnwraps

variable {s t u : GatewayState T} {P Q : TxId → UnwrapDispatchRequest → Prop}

theorem refl (s : GatewayState T) : RecordsUnwraps (fun _ _ => False) s s :=
  ⟨rfl, fun _ _ h => h, fun _ _ h => Or.inl h, fun _ _ h => h.elim⟩

theorem trans (h : RecordsUnwraps P s t) (h' : RecordsUnwraps Q t u) :
    RecordsUnwraps (fun id req => P id req ∨ Q id req) s u := by
  refine ⟨h'.chain.trans h.chain, fun id cur hcur => h'.kept id cur (h.kept id cur hcur), ?_, ?_⟩
  · intro id cur hcur
    rcases h'.origin id cur hcur with hmid | hnew
    · exact (h.origin id cur hmid).imp_right Or.inl
    · exact Or.inr (Or.inr hnew)
  · intro id req howed
    rcases howed with hfirst | hlast
    · obtain ⟨cur, hcur⟩ := Option.ne_none_iff_exists'.mp (h.stored id req hfirst)
      rw [h'.kept id cur hcur]
      simp
    · exact h'.stored id req hlast

theorem owes (h : RecordsUnwraps P s t) (hiff : ∀ id req, P id req ↔ Q id req) :
    RecordsUnwraps Q s t :=
  ⟨h.chain, h.kept, fun id cur hcur => (h.origin id cur hcur).imp_right (hiff id cur).mp,
    fun id req howed => h.stored id req ((hiff id req).mpr howed)⟩

end RecordsUnwraps

section

variable {s : GatewayState T} {c : Crypto} {now : Nat}

theorem records_insert (id : TxId) (req : UnwrapDispatchRequest) :
    RecordsUnwraps (fun other new => other = id ∧ new = req) s
      (s.insertUnwrapDispatchRequest id req) := by
  rw [insertUnwrapDispatchRequest]
  split_ifs with hknown
  · refine ⟨rfl, fun _ _ h => h, fun _ _ h => Or.inl h, ?_⟩
    rintro other new ⟨rfl, -⟩
    exact Option.isSome_iff_ne_none.mp hknown
  · have hself : (s.unwrapRequests.insert id req).get id = some req :=
      (OrdMap.get_insert ..).trans (if_pos rfl)
    have hother (other : TxId) (hne : other ≠ id) :
        (s.unwrapRequests.insert id req).get other = s.unwrapRequests.get other :=
      (OrdMap.get_insert ..).trans (if_neg hne)
    refine ⟨rfl, ?_, ?_, ?_⟩
    · intro other cur hcur
      refine (hother other ?_).trans hcur
      rintro rfl
      exact hknown (by rw [hcur]; rfl)
    · intro other cur hcur
      by_cases hid : other = id
      · subst hid
        exact Or.inr ⟨rfl, (Option.some.inj (hself.symm.trans hcur)).symm⟩
      · exact Or.inl ((hother other hid).symm.trans hcur)
    · rintro other new ⟨rfl, -⟩
      rw [hself]
      simp

def OwedByLog (c : Crypto) (now : Nat) (txId : TxId) (log : Receipt.LogEntry × Nat) (id : TxId)
    (req : UnwrapDispatchRequest) : Prop :=
  unwrapRequestFromLog c now log.1 = some req ∧ deriveLogRequestId c txId log.2 = some id

theorem records_log (txId : TxId) (log : Receipt.LogEntry × Nat) :
    RecordsUnwraps (OwedByLog c now txId log) s (recordUnwrapRequest c now txId s log) := by
  rw [recordUnwrapRequest]
  split
  · rename_i req id hreq hid
    apply (records_insert id req).owes
    intro other new
    simp only [OwedByLog, hreq, hid, Option.some.injEq]
    exact ⟨fun h => ⟨h.2.symm, h.1.symm⟩, fun h => ⟨h.2.symm, h.1.symm⟩⟩
  · rename_i hnone
    apply (RecordsUnwraps.refl s).owes
    intro other new
    exact ⟨False.elim, fun h => hnone new other h.1 h.2⟩

theorem records_logs (txId : TxId) (logs : List (Receipt.LogEntry × Nat)) :
    RecordsUnwraps (fun id req => ∃ log ∈ logs, OwedByLog c now txId log id req) s
      (logs.foldl (recordUnwrapRequest c now txId) s) := by
  induction logs generalizing s with
  | nil => exact (RecordsUnwraps.refl s).owes (by simp)
  | cons log logs ih =>
      apply ((records_log txId log).trans ih).owes
      intro id req
      rw [List.exists_mem_cons_iff]

def OwedByTx (c : Crypto) (now : Nat) (chain : StableState (World T)) (txId id : TxId)
    (req : UnwrapDispatchRequest) : Prop :=
  ∃ receipt index log, getReceipt chain txId = some receipt ∧ receipt.logs[index]? = some log ∧
    OwedByLog c now txId (log, index) id req

theorem records_tx (txId : TxId) :
    RecordsUnwraps (OwedByTx c now s.chain txId) s (recordUnwrapRequestsFromTx c now s txId) := by
  rw [recordUnwrapRequestsFromTx]
  cases hreceipt : getReceipt s.chain txId with
  | none =>
      apply (RecordsUnwraps.refl s).owes
      intro id req
      refine ⟨False.elim, ?_⟩
      rintro ⟨receipt, index, log, hfound, -⟩
      exact absurd (hreceipt.symm.trans hfound) (by simp)
  | some receipt =>
      apply (records_logs txId receipt.logs.zipIdx).owes
      intro id req
      constructor
      · rintro ⟨⟨log, index⟩, hmem, howed⟩
        exact ⟨receipt, index, log, hreceipt, List.mem_zipIdx_iff_getElem?.mp hmem, howed⟩
      · rintro ⟨found, index, log, hfound, hlog, howed⟩
        obtain rfl := Option.some.inj (hreceipt.symm.trans hfound)
        exact ⟨(log, index), List.mem_zipIdx_iff_getElem?.mpr hlog, howed⟩

theorem records_block (txIds : List TxId) :
    RecordsUnwraps (fun id req => ∃ txId ∈ txIds, OwedByTx c now s.chain txId id req) s
      (s.recordUnwrapRequestsFromBlock c now txIds) := by
  induction txIds generalizing s with
  | nil => exact (RecordsUnwraps.refl s).owes (by simp)
  | cons txId txIds ih =>
      have hfirst : RecordsUnwraps (OwedByTx c now s.chain txId) s
          (recordUnwrapRequestsFromTx c now s txId) := records_tx txId
      apply (hfirst.trans ih).owes
      intro id req
      rw [hfirst.chain, List.exists_mem_cons_iff]

end

end Kasane.Gateway
