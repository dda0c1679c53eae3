import Kasane.Gateway.IcpUpdateOnce
import Kasane.Gateway.RequestRecords
import Kasane.Gateway.UnwrapFrame
import Kasane.Chain.Filed

namespace Kasane.Gateway

open BigEndian Codec Word Chain Exec OrdMap
open Precompile (isAscii unwrapIntentFromLog nativeWithdrawIntentFromLog icpUpdateIntentFromLog)

variable {T : Type}

structure StorableCode (code : String) : Prop where
  nonempty : code ≠ ""
  bounded : code.utf8ByteSize ≤ maxErrorLen

theorem utf8ByteSize_cons (ch : Char) (rest : List Char) :
    (String.ofList (ch :: rest)).utf8ByteSize = ch.utf8Size + (String.ofList rest).utf8ByteSize := by
  have hcons : String.ofList (ch :: rest) = String.singleton ch ++ String.ofList rest := by
    rw [String.singleton_eq_ofList, ← String.ofList_append]
    rfl
  rw [hcons, String.utf8ByteSize_append, String.utf8ByteSize_singleton]

theorem utf8ByteSize_takeUtf8 (chars : List Char) (n : Nat) :
    (String.ofList (takeUtf8 n chars)).utf8ByteSize ≤ n := by
  induction chars generalizing n with
  | nil => simp [takeUtf8]
  | cons ch rest ih =>
      rw [takeUtf8]
      split_ifs with hfits
      · have hrest := ih (n - ch.utf8Size)
        rw [utf8ByteSize_cons]
        omega
      · simp

theorem storable_clampErrorCode {code : String} (h : code ≠ "") :
    StorableCode (clampErrorCode code) where
  nonempty := by
    rw [clampErrorCode, clampUtf8Bytes]
    cases hchars : code.toList with
    | nil => exact absurd (String.toList_eq_nil_iff.mp hchars) h
    | cons ch rest =>
        have hfits : ch.utf8Size ≤ maxStoredErrorCodeBytes := ch.utf8Size_le_four.trans (by decide)
        rw [takeUtf8, if_pos hfits]
        exact fun hempty => absurd (String.ofList_eq_empty_iff.mp hempty) (by simp)
  bounded := (utf8ByteSize_takeUtf8 code.toList maxStoredErrorCodeBytes).trans (by decide)

namespace UnwrapDispatchRequest

def record (req : UnwrapDispatchRequest) : UnwrapRecord where
  assetId := req.assetId
  amount := ⟨encode 32 req.amount, length_encode ..⟩
  recipient := req.recipient
  status := req.status
  ledgerTxId := req.ledgerTxId.map LedgerTxId.bytes
  errorCode := req.errorCode
  updatedAt := .ofNat req.updatedAt
  transferCreatedAtTime := .ofNat req.transferCreatedAtTime

structure Storable (req : UnwrapDispatchRequest) : Prop where
  assetId : req.assetId ≠ []
  assetIdLen : req.assetId.length ≤ UnwrapRecord.maxBlobLen
  recipient : req.recipient ≠ []
  recipientLen : req.recipient.length ≤ UnwrapRecord.maxBlobLen
  errorCode : ∀ code, req.errorCode = some code → StorableCode code

variable {req new : UnwrapDispatchRequest} {now : Nat}

theorem Storable.accepted (h : req.Storable) : req.record.Accepted where
  assetId := h.assetId
  assetIdLen := h.assetIdLen
  recipient := h.recipient
  recipientLen := h.recipientLen
  ledgerTxId := by
    intro v hv
    obtain ⟨ledgerTxId, -, rfl⟩ := Option.map_eq_some_iff.mp hv
    exact ledgerTxId.bounded
  errorCode := fun code hcode => (h.errorCode code hcode).bounded

theorem Storable.reloaded (h : req.Storable) : req.record.reloaded = some req.record := by
  refine (UnwrapRecord.reloaded_iff (by rw [h.accepted.encodeChecked]; rfl)).mpr ⟨?_, ?_⟩
  · intro hempty
    obtain ⟨ledgerTxId, -, hbytes⟩ := Option.map_eq_some_iff.mp hempty
    exact ledgerTxId.nonempty hbytes
  · exact fun hempty => (h.errorCode "" hempty).nonempty rfl

theorem Storable.renewed (h : req.Storable) (hasset : new.assetId = req.assetId)
    (hrecipient : new.recipient = req.recipient)
    (herror : ∀ code, new.errorCode = some code → StorableCode code) : new.Storable where
  assetId := hasset ▸ h.assetId
  assetIdLen := hasset ▸ h.assetIdLen
  recipient := hrecipient ▸ h.recipient
  recipientLen := hrecipient ▸ h.recipientLen
  errorCode := herror

theorem storable_some {code : String} (h : StorableCode code) {errorCode : Option String}
    (herror : errorCode = some code) : ∀ other, errorCode = some other → StorableCode other := by
  intro other hother
  exact Option.some.inj (herror.symm.trans hother) ▸ h

theorem Storable.quarantine (h : req.Storable) : (req.quarantine now).Storable :=
  h.renewed rfl rfl (storable_some ⟨by decide, by decide⟩ rfl)

theorem Storable.quarantineDecodeFailed (h : req.Storable) :
    (req.quarantineDecodeFailed now).Storable := by
  rw [UnwrapDispatchRequest.quarantineDecodeFailed]
  split_ifs
  · exact h.quarantine
  · exact h

theorem Storable.finalize {applied : Except String LedgerTxId}
    (hcode : ∀ code, applied = .error code → code ≠ "") (h : req.Storable) :
    (req.finalizeUnwrapDispatchAttempt now applied).Storable := by
  cases applied with
  | ok ledgerTxId => exact h.renewed rfl rfl (fun _ hnone => nomatch hnone)
  | error code => exact h.renewed rfl rfl (storable_some (storable_clampErrorCode (hcode code rfl)) rfl)

theorem Storable.retry (h : req.Storable) : (req.retry now).Storable :=
  h.renewed rfl rfl (fun _ hnone => nomatch hnone)

theorem Storable.repairStale (h : req.Storable) : (req.repairStale now).Storable := by
  rw [UnwrapDispatchRequest.repairStale]
  split_ifs
  · exact h.renewed rfl rfl h.errorCode
  · exact h

theorem Storable.recoverAfterUpgrade (h : req.Storable) : (req.recoverAfterUpgrade now).Storable := by
  rw [UnwrapDispatchRequest.recoverAfterUpgrade]
  split_ifs
  · exact h.renewed rfl rfl h.errorCode
  · exact h

end UnwrapDispatchRequest

theorem readLenPrefixed_some {data field rest : Bytes}
    (h : Precompile.readLenPrefixed data = some (field, rest)) :
    field ≠ [] ∧ field.length ≤ Precompile.maxFieldLen := by
  cases data with
  | nil => cases h
  | cons len data =>
      rw [Precompile.readLenPrefixed] at h
      obtain ⟨hlen, h⟩ := Option.ite_none_left_eq_some.mp h
      rw [readExact] at h
      split_ifs at h with hshort
      obtain ⟨rfl, -⟩ := Prod.mk.inj (Option.some.inj h)
      have htake : (data.take len.toNat).length = len.toNat := by
        rw [List.length_take]
        omega
      refine ⟨fun hempty => ?_, ?_⟩
      · rw [hempty] at htake
        exact hlen (.inl htake.symm)
      · rw [htake]
        exact not_lt.mp (not_or.mp hlen).2

theorem storable_new {assetId recipient : Bytes} {amount now : Nat} (hasset : assetId ≠ [])
    (hassetLen : assetId.length ≤ UnwrapRecord.maxBlobLen) (hrecipient : recipient ≠ [])
    (hrecipientLen : recipient.length ≤ UnwrapRecord.maxBlobLen) :
    (UnwrapDispatchRequest.new assetId amount recipient now).Storable :=
  ⟨hasset, hassetLen, hrecipient, hrecipientLen, fun _ hnone => nomatch hnone⟩

theorem fieldLen_le : Precompile.maxFieldLen ≤ UnwrapRecord.maxBlobLen := by decide

theorem storable_of_log {c : Crypto} {now : Nat} {log : Receipt.LogEntry}
    {req : UnwrapDispatchRequest} (h : unwrapRequestFromLog c now log = some req) :
    req.Storable := by
  rw [unwrapRequestFromLog] at h
  split at h
  · rename_i intent hintent
    obtain rfl := Option.some.inj h
    rw [nativeWithdrawIntentFromLog] at hintent
    split_ifs at hintent
    obtain ⟨⟨amount, rest⟩, -, hintent⟩ := Option.bind_eq_some_iff.mp hintent
    obtain ⟨⟨recipient, rest⟩, hrecipient, hintent⟩ := Option.bind_eq_some_iff.mp hintent
    obtain ⟨-, hintent⟩ := Option.ite_none_left_eq_some.mp hintent
    obtain rfl := Option.some.inj hintent
    have hfield := readLenPrefixed_some hrecipient
    exact storable_new (by decide +kernel) (by decide +kernel) hfield.1 (hfield.2.trans fieldLen_le)
  · obtain ⟨intent, hintent, rfl⟩ := Option.map_eq_some_iff.mp h
    rw [unwrapIntentFromLog] at hintent
    split_ifs at hintent
    obtain ⟨⟨assetId, rest⟩, hasset, hintent⟩ := Option.bind_eq_some_iff.mp hintent
    obtain ⟨⟨amount, rest⟩, -, hintent⟩ := Option.bind_eq_some_iff.mp hintent
    obtain ⟨⟨recipient, rest⟩, hrecipient, hintent⟩ := Option.bind_eq_some_iff.mp hintent
    obtain ⟨-, hintent⟩ := Option.ite_none_left_eq_some.mp hintent
    obtain rfl := Option.some.inj hintent
    have hassetId := readLenPrefixed_some hasset
    have hfield := readLenPrefixed_some hrecipient
    exact storable_new hassetId.1 (hassetId.2.trans fieldLen_le) hfield.1
      (hfield.2.trans fieldLen_le)

-- the error texts of a lost call start with a code of the gateway, and a direct order names
-- principals that are not the empty one
def Action.Named : Action → Prop
  | .resumeDispatch _ _ (.fee (.error code)) => code ≠ ""
  | .resumeDispatch _ _ (.ledger (.lost code)) => code ≠ ""
  | .dispatchUnwrapRequest _ _ assetId _ recipient =>
      (assetId ≠ [] ∧ assetId.length ≤ maxPrincipalLen) ∧
        (recipient ≠ [] ∧ recipient.length ≤ maxPrincipalLen)
  | _ => True

def UnwrapsStorable (s : GatewayState T) : Prop :=
  s.unwrapRequests.Every UnwrapDispatchRequest.Storable

section

open GatewayState

variable {env : Env T} {s t : GatewayState T} {id : TxId} {now : Nat} {c : Crypto}

theorem UnwrapsStorable.same (h : UnwrapsStorable s) (hsame : t.unwrapRequests = s.unwrapRequests) :
    UnwrapsStorable t := by
  rw [UnwrapsStorable, hsame]
  exact h

theorem UnwrapsStorable.insertUnwrap (h : UnwrapsStorable s) {req : UnwrapDispatchRequest}
    (hreq : req.Storable) : UnwrapsStorable (s.insertUnwrapDispatchRequest id req) := by
  rw [insertUnwrapDispatchRequest]
  split_ifs
  · exact h
  · exact Every.insert h id hreq

theorem UnwrapsStorable.recordUnwrapRequest (h : UnwrapsStorable s) (txId : TxId)
    (log : Receipt.LogEntry × Nat) :
    UnwrapsStorable (GatewayState.recordUnwrapRequest c now txId s log) := by
  rw [GatewayState.recordUnwrapRequest]
  split
  · rename_i req id hreq _
    exact h.insertUnwrap (storable_of_log hreq)
  · exact h

theorem UnwrapsStorable.recordUnwrapLogs (h : UnwrapsStorable s) (txId : TxId)
    (logs : List (Receipt.LogEntry × Nat)) :
    UnwrapsStorable (logs.foldl (GatewayState.recordUnwrapRequest c now txId) s) := by
  induction logs generalizing s with
  | nil => exact h
  | cons log logs ih => exact ih (h.recordUnwrapRequest txId log)

theorem UnwrapsStorable.recordUnwrapRequestsFromTx (h : UnwrapsStorable s) (txId : TxId) :
    UnwrapsStorable (GatewayState.recordUnwrapRequestsFromTx c now s txId) := by
  rw [GatewayState.recordUnwrapRequestsFromTx]
  split
  · exact h
  · exact h.recordUnwrapLogs txId _

theorem UnwrapsStorable.recordUnwrapRequestsFromBlock (h : UnwrapsStorable s) (txIds : List TxId) :
    UnwrapsStorable (GatewayState.recordUnwrapRequestsFromBlock c now txIds s) := by
  rw [GatewayState.recordUnwrapRequestsFromBlock]
  induction txIds generalizing s with
  | nil => exact h
  | cons txId txIds ih => exact ih (h.recordUnwrapRequestsFromTx txId)

theorem UnwrapsStorable.miningTick {call : CallEnv} (h : UnwrapsStorable s)
    (hdone : GatewayState.miningTick env call now s = some t) : UnwrapsStorable t := by
  rw [GatewayState.miningTick] at hdone
  split at hdone
  · cases hdone
  · obtain rfl := Option.some.inj hdone
    exact h
  · rename_i outcome chain _
    obtain rfl := Option.some.inj hdone
    have hproduced : UnwrapsStorable { s with chain := chain } := h
    exact hproduced.recordUnwrapRequestsFromBlock outcome.block.txIds

theorem UnwrapsStorable.finishDispatch {applied : Except String LedgerTxId}
    (h : UnwrapsStorable s) (hcode : ∀ code, applied = .error code → code ≠ "") :
    UnwrapsStorable (s.finishDispatch id now applied) :=
  Every.modify h id (fun _ hreq => hreq.finalize hcode)

theorem refused_named {code : String} (h : code ≠ "") :
    ∀ other, (Except.error code : Except String LedgerTxId) = .error other → other ≠ "" := by
  rintro other heq
  exact Except.error.inj heq ▸ h

theorem dispatchLedger_named {req : UnwrapDispatchRequest} {code : String}
    (h : s.dispatchLedger req = .error code) : code ≠ "" := by
  rw [dispatchLedger] at h
  split_ifs at h
  · split at h
    · cases h
    · exact Except.error.inj h ▸ (by decide)
  · split at h
    · cases h
    · exact Except.error.inj h ▸ (by decide)
  · split at h
    · cases h
    · exact Except.error.inj h ▸ (by decide)

theorem UnwrapsStorable.dispatch {req : UnwrapDispatchRequest} (h : UnwrapsStorable s) :
    UnwrapsStorable (s.dispatchUnwrapRequestInternal env id now req) := by
  rw [dispatchUnwrapRequestInternal]
  cases hledger : s.dispatchLedger req with
  | error code => exact h.finishDispatch (refused_named (dispatchLedger_named hledger))
  | ok ledger =>
      cases StoredPrincipal.ofBytes req.recipient with
      | none =>
          refine h.finishDispatch (refused_named ?_)
          split_ifs
          · decide
          · decide
      | some recipient =>
          dsimp only
          split_ifs
          · exact h
          · exact h

theorem UnwrapsStorable.unwrapDispatchTick (h : UnwrapsStorable s)
    (hdone : GatewayState.unwrapDispatchTick env now s = some t) : UnwrapsStorable t := by
  rw [GatewayState.unwrapDispatchTick] at hdone
  split at hdone
  · cases hdone
  · obtain rfl := Option.some.inj hdone
    exact h
  · rename_i id rest _
    dsimp only at hdone
    split at hdone
    · obtain rfl := Option.some.inj hdone
      exact h
    · rename_i req hreq
      split_ifs at hdone
      · obtain rfl := Option.some.inj hdone
        exact Every.insert h id (h id req hreq).quarantine
      · obtain rfl := Option.some.inj hdone
        have hmarked : UnwrapsStorable { s with
            unwrapDispatchQueue := rest
            unwrapRequests := s.unwrapRequests.insert id (req.markDispatching now) } :=
          Every.insert h id ((h id req hreq).renewed rfl rfl (h id req hreq).errorCode)
        exact hmarked.dispatch

theorem grossTransfer_named {amount fee : Nat} {code : String}
    (h : nativeWithdrawGrossTransferAmount amount fee = .error code) : code ≠ "" := by
  rw [nativeWithdrawGrossTransferAmount, grossTransferReceiveAmount] at h
  split_ifs at h
  · exact Except.error.inj h ▸ (by decide)
  · exact Except.error.inj h ▸ (by decide)

theorem UnwrapsStorable.finishDispatchFee {ledger recipient : StoredPrincipal}
    {req : UnwrapDispatchRequest} {fee : Except String (BitVec 128)} (h : UnwrapsStorable s)
    (hcode : ∀ code, fee = .error code → code ≠ "") :
    UnwrapsStorable (s.finishDispatchFee env id now ledger recipient req fee) := by
  cases fee with
  | error code => exact h.finishDispatch (refused_named (hcode code rfl))
  | ok fee =>
      rw [GatewayState.finishDispatchFee]
      cases hgross : nativeWithdrawGrossTransferAmount req.amount fee.toNat with
      | error code => exact h.finishDispatch (refused_named (grossTransfer_named hgross))
      | ok amount => exact h

theorem reply_named {call : Nat} {failure : String} {reply : LedgerReply}
    {applied : Except String LedgerTxId} (hfailure : failure ≠ "")
    (hlost : ∀ code, reply = .lost code → code ≠ "")
    (h : s.reply call failure reply = some applied) :
    ∀ code, applied = .error code → code ≠ "" := by
  rintro code rfl
  cases reply with
  | lost lostCode =>
      have heq : lostCode = code := Except.error.inj (Option.some.inj h)
      exact heq ▸ hlost lostCode rfl
  | delivered =>
      obtain ⟨sent, -, h⟩ := Option.bind_eq_some_iff.mp h
      obtain ⟨outcome, -, h⟩ := Option.map_eq_some_iff.mp h
      cases outcome with
      | moved => cases h
      | duplicate => cases h
      | refused refusal =>
          obtain rfl : failure ++ refusal = code := Except.error.inj h
          exact fun hempty => hfailure (String.append_eq_empty_iff.mp hempty).1

theorem UnwrapsStorable.resumeDispatch {i : Nat} {reply : DispatchReply} (h : UnwrapsStorable s)
    (hnamed : (Action.resumeDispatch now i reply).Named)
    (hdone : GatewayState.resumeDispatch env now i reply s = some t) : UnwrapsStorable t := by
  rw [GatewayState.resumeDispatch] at hdone
  split at hdone
  · cases hdone
  · rename_i id task _
    have hresumed : UnwrapsStorable { s with dispatchTasks := s.dispatchTasks.eraseIdx i } := h
    cases task with
    | fee ledger recipient req =>
        cases reply with
        | ledger reply => cases hdone
        | fee reply =>
            obtain rfl := Option.some.inj hdone
            refine hresumed.finishDispatchFee ?_
            rintro code rfl
            exact hnamed
    | transfer call =>
        cases reply with
        | fee reply => cases hdone
        | ledger reply =>
            obtain ⟨applied, happlied, rfl⟩ := Option.map_eq_some_iff.mp hdone
            refine hresumed.finishDispatch (reply_named (by decide) ?_ happlied)
            rintro code rfl
            exact hnamed

theorem UnwrapsStorable.retryUnwrapDispatch (h : UnwrapsStorable s)
    (hdone : GatewayState.retryUnwrapDispatch now id s = some t) : UnwrapsStorable t := by
  simp only [GatewayState.retryUnwrapDispatch, Option.bind_eq_bind, Option.bind_none] at hdone
  obtain ⟨req, hreq, hdone⟩ := Option.bind_eq_some_iff.mp hdone
  obtain ⟨-, hdone⟩ := Option.ite_none_left_eq_some.mp hdone
  obtain rfl := Option.some.inj hdone
  exact Every.insert h id (h id req hreq).retry

theorem UnwrapsStorable.postUpgrade {config : Option WrapConfig} (h : UnwrapsStorable s) :
    UnwrapsStorable (GatewayState.postUpgrade now config s) := by
  have hconfigured : UnwrapsStorable (s.applyWrapConfig config) := by
    cases config with
    | none => exact h
    | some config => exact h
  have hquarantined : UnwrapsStorable
      ((s.applyWrapConfig config).quarantineDecodeFailedUnwrapRequests now) :=
    Every.map hconfigured (fun _ hreq => hreq.quarantineDecodeFailed)
  exact Every.map hquarantined (fun _ hreq => hreq.recoverAfterUpgrade)

theorem UnwrapsStorable.perform {a : Action} (h : UnwrapsStorable s) (hnamed : a.Named)
    (hdone : perform env a s = some t) : UnwrapsStorable t := by
  cases a with
  | submitWrapRequest => exact h.same (spares_submitWrapRequest hdone).requests
  | submitNativeDeposit => exact h.same (spares_submitNativeDeposit hdone).requests
  | wrapWorkerTick => exact h.same (spares_wrapWorkerTick hdone).requests
  | resumeWrap => exact h.same (spares_resumeWrap hdone).requests
  | recoverFailedWrap => exact h.same (spares_recoverFailedWrap hdone).requests
  | retryNativeDeposit => exact h.same (spares_retryNativeDeposit hdone).requests
  | submitIcTx => exact h.same (spares_submitIcTx hdone).requests
  | repairStaleOperations now =>
      obtain rfl := Option.some.inj hdone
      exact Every.map h (fun _ hreq => hreq.repairStale)
  | postUpgrade now config =>
      obtain rfl := Option.some.inj hdone
      exact h.postUpgrade
  | unwrapDispatchTick => exact h.unwrapDispatchTick hdone
  | resumeDispatch => exact h.resumeDispatch hnamed hdone
  | retryUnwrapDispatch => exact h.retryUnwrapDispatch hdone
  | dispatchUnwrapRequest now id assetId amount recipient =>
      obtain rfl := Option.some.inj hdone
      obtain ⟨⟨hasset, hassetLen⟩, hrecipient, hrecipientLen⟩ := hnamed
      exact h.insertUnwrap (storable_new hasset (hassetLen.trans (by decide)) hrecipient
        (hrecipientLen.trans (by decide)))
  | miningTick => exact h.miningTick hdone
  | ledgerExecutes =>
      obtain ⟨⟨ledgers, calls⟩, -, rfl⟩ := Option.map_eq_some_iff.mp hdone
      exact h
  | setFeePolicy | submitTx | ledgerFee | ledgerClock | ledgerReceives =>
      obtain rfl := Option.some.inj hdone
      exact h

end

theorem run_unwrapsStorable {env : Env T} {world : World T} {config : WrapConfig}
    {ledgers : Principal → DedupLedger.Ledger Principal} {s : GatewayState T}
    (run : Run env (fun _ a => a.Named) (.init world config ledgers) s) : UnwrapsStorable s := by
  have start : UnwrapsStorable (GatewayState.init world config ledgers) := every_empty _
  exact run_invariant UnwrapsStorable start (fun _ _ _ h ok _ hdone => h.perform ok hdone) run

end Kasane.Gateway
