import Kasane.Precompile.NativeWithdraw
import Kasane.Precompile.Query

namespace Kasane.Precompile

open BigEndian Codec Receipt

structure IntentPort (Parsed Intent : Type) where
  parse : Bytes → Except String Parsed
  intent : U256 → Parsed → Intent
  log : Intent → LogEntry
  fromLog : LogEntry → Option Intent
  run : Context → CallInputs → InterpreterResult × Context

namespace IntentPort

variable {Parsed Intent Parsed' Intent' : Type}

structure Emitted (p : IntentPort Parsed Intent) (ctx : Context) (inputs : CallInputs)
    (parsed : Parsed) (earlier : List LogEntry) : Prop where
  accepted : p.parse inputs.input = .ok parsed
  logs : (p.run ctx inputs).2.journal.logs =
    ctx.journal.logs ++ (earlier ++ [p.log (p.intent inputs.callValue parsed)])
  silent : ∀ entry ∈ earlier, p.fromLog entry = none

structure Faithful (p : IntentPort Parsed Intent) : Prop where
  decoded : ∀ {input parsed}, p.parse input = .ok parsed → ∀ value,
    p.fromLog (p.log (p.intent value parsed)) = some (p.intent value parsed)
  injective : ∀ {input input' parsed parsed'}, p.parse input = .ok parsed →
    p.parse input' = .ok parsed' → ∀ value value',
    p.intent value parsed = p.intent value' parsed' → input = input'
  bounded : ∀ {input parsed}, p.parse input = .ok parsed → ∀ value,
    (p.log (p.intent value parsed)).data.length ≤ maxLogData
  emits : ∀ ctx inputs, (p.run ctx inputs).1.result = .precompileError ∧
      (p.run ctx inputs).2.journal.logs = ctx.journal.logs ∨
    ∃ parsed earlier, p.Emitted ctx inputs parsed earlier

structure Addressed (p : IntentPort Parsed Intent) (address : Address) : Prop where
  log : ∀ intent, (p.log intent).address = address
  fromLog : ∀ entry, entry.address ≠ address → p.fromLog entry = none

def Apart (p : IntentPort Parsed Intent) (q : IntentPort Parsed' Intent') : Prop :=
  (∀ intent, q.fromLog (p.log intent) = none) ∧ ∀ intent, p.fromLog (q.log intent) = none

theorem Addressed.apart {p : IntentPort Parsed Intent} {q : IntentPort Parsed' Intent'}
    {a b : Address} (hp : p.Addressed a) (hq : q.Addressed b) (h : a ≠ b) : p.Apart q := by
  constructor
  · intro intent
    exact hq.fromLog _ (by rwa [hp.log])
  · intro intent
    exact hp.fromLog _ (by rw [hq.log]; exact h.symm)

end IntentPort

def unwrapPort (env : Env) (allowExternal : Bool) : IntentPort UnwrapIntent UnwrapIntent where
  parse := parseInput
  intent := fun _ parsed => parsed
  log := unwrapLog env.keccak256
  fromLog := unwrapIntentFromLog env.keccak256
  run := fun ctx inputs => runWrapPrecompile env ctx inputs allowExternal

def nativeWithdrawPort (env : Env) (allowExternal : Bool) :
    IntentPort Bytes NativeWithdrawIntent where
  parse := parseNativeWithdrawInput
  intent := withdrawIntent
  log := nativeWithdrawLog env.keccak256
  fromLog := nativeWithdrawIntentFromLog env.keccak256
  run := fun ctx inputs => runNativeWithdrawPrecompile env ctx inputs allowExternal

def icpUpdateIntentPort (env : Env) (allowExternal : Bool) (updateAllowlist : List Bytes) :
    IntentPort IcpUpdateIntent IcpUpdateIntent where
  parse := parseIcpUpdateIntentInput
  intent := fun _ parsed => parsed
  log := icpUpdateIntentLog env.keccak256
  fromLog := icpUpdateIntentFromLog env.keccak256
  run := fun ctx inputs => runIcpUpdateIntentPrecompile env ctx inputs allowExternal updateAllowlist

def compactPrincipal (field : Bytes) : Bytes :=
  UInt8.ofNat field.length :: (field ++ List.replicate (maxPrincipalLen - field.length) 0)

def prefixed (field : Bytes) : Bytes := UInt8.ofNat field.length :: field

def compactUnwrapInput (intent : UnwrapIntent) : Bytes :=
  compactUnwrapFormatVersion :: (compactPrincipal intent.assetId ++
    (intent.amount.toList ++ compactPrincipal intent.recipient))

def compactNativeWithdrawInput (recipient : Bytes) : Bytes :=
  compactNativeWithdrawFormatVersion :: compactPrincipal recipient

def compactIcpUpdateInput (intent : IcpUpdateIntent) : Bytes :=
  compactIcpPrecompileFormatVersion :: icpPrecompileKindUpdate ::
    (prefixed intent.target ++ (prefixed intent.method ++
      (u32Bytes (UInt32.ofNat intent.arg.length) ++ intent.arg)))

theorem ofNat_length {len : UInt8} {field : Bytes} (h : field.length = len.toNat) :
    UInt8.ofNat field.length = len := by
  rw [h]
  exact UInt8.ofNat_toNat

theorem readCompactPrincipal_eq_ok {input field rest : Bytes}
    (h : readCompactPrincipal input = .ok (field, rest)) : input = compactPrincipal field ++ rest := by
  cases input with
  | nil => simp [readCompactPrincipal] at h
  | cons len tail =>
      rw [readCompactPrincipal] at h
      split_ifs at h with hvalid
      split at h
      · exact absurd h (by simp)
      · rename_i slot rest' hread
        split_ifs at h with hpadding
        obtain ⟨rfl, rfl⟩ := Prod.mk.inj (Except.ok.inj h)
        obtain ⟨hslot, rfl⟩ := readExact_eq_some hread
        have hlen : 1 ≤ len.toNat ∧ len.toNat ≤ maxPrincipalLen := by
          simpa [isValidPrincipalBytes] using hvalid
        have hfield : (slot.take len.toNat).length = len.toNat :=
          List.length_take_of_le (hslot ▸ hlen.2)
        have hzero : slot.drop len.toNat = List.replicate (maxPrincipalLen - len.toNat) 0 := by
          refine List.eq_replicate_iff.mpr ⟨by rw [List.length_drop, hslot], ?_⟩
          simpa using hpadding
        rw [compactPrincipal, ofNat_length hfield, hfield, ← hzero, List.take_append_drop,
          List.cons_append]

theorem ne_nil_of_read {input : Bytes} {version : UInt8} (h : input.head? = some version) :
    input = version :: input.drop 1 := by
  cases input with
  | nil => exact absurd h (by simp)
  | cons head tail =>
      obtain rfl := Option.some.inj h
      rfl

theorem parseInput_eq_ok {input : Bytes} {intent : UnwrapIntent}
    (h : parseInput input = .ok intent) : input = compactUnwrapInput intent ∧
      (1 ≤ intent.assetId.length ∧ intent.assetId.length ≤ maxPrincipalLen) ∧
      1 ≤ intent.recipient.length ∧ intent.recipient.length ≤ maxPrincipalLen := by
  rw [parseInput, parseCompactInput] at h
  split_ifs at h with hlen hversion
  obtain ⟨⟨assetId, afterAsset⟩, hasset, h⟩ := bind_eq_ok.mp h
  dsimp only at h
  split at h
  · exact absurd h (by simp)
  · rename_i amount afterAmount hamount
    obtain ⟨⟨recipient, rest⟩, hrecipient, h⟩ := bind_eq_ok.mp h
    dsimp only at h
    split_ifs at h with hrest
    obtain rfl := Except.ok.inj h
    refine ⟨?_, readCompactPrincipal_ok hasset, readCompactPrincipal_ok hrecipient⟩
    rw [ne_nil_of_read (not_not.mp hversion), readCompactPrincipal_eq_ok hasset,
      readArray_eq_some hamount, readCompactPrincipal_eq_ok hrecipient, not_not.mp hrest,
      List.append_nil]
    rfl

theorem parseNativeWithdrawInput_eq_ok {input recipient : Bytes}
    (h : parseNativeWithdrawInput input = .ok recipient) :
    input = compactNativeWithdrawInput recipient := by
  rw [parseNativeWithdrawInput] at h
  split_ifs at h with hlen hversion
  obtain ⟨⟨parsed, rest⟩, hread, h⟩ := bind_eq_ok.mp h
  dsimp only at h
  split_ifs at h with hanonymous hrest
  obtain rfl := Except.ok.inj h
  rw [ne_nil_of_read (not_not.mp hversion), readCompactPrincipal_eq_ok hread, not_not.mp hrest,
    List.append_nil]
  rfl

theorem orError_eq_ok {α : Type} {code : String} {read : Option α} {x : α} :
    orError code read = .ok x ↔ read = some x := by
  cases read with
  | none => simp [orError]
  | some y => simp [orError]

theorem readQueryPrincipal_eq_ok {family : String} {data field rest : Bytes}
    (h : readQueryPrincipal family data = .ok (field, rest)) : data = prefixed field ++ rest ∧
      1 ≤ field.length ∧ field.length ≤ maxPrincipalLen := by
  obtain ⟨⟨len, tail⟩, hlen, h⟩ := bind_eq_ok.mp h
  dsimp only at h
  split_ifs at h with hvalid
  obtain ⟨hfield, rfl⟩ := readExact_eq_some (orError_eq_ok.mp h)
  have hbounds : 1 ≤ len.toNat ∧ len.toNat ≤ maxPrincipalLen := by
    simpa [isValidPrincipalBytes] using hvalid
  refine ⟨?_, hfield ▸ hbounds⟩
  rw [readU8_eq_some (orError_eq_ok.mp hlen), prefixed, ofNat_length hfield, List.cons_append]

theorem readMethod_eq_ok {family : String} {accepts : Bytes → Bool} {data method rest : Bytes}
    (h : readMethod family accepts data = .ok (method, rest)) : data = prefixed method ++ rest ∧
      (1 ≤ method.length ∧ method.length ≤ maxQueryMethodLen) ∧ accepts method = true := by
  obtain ⟨⟨len, tail⟩, hlen, h⟩ := bind_eq_ok.mp h
  dsimp only at h
  split_ifs at h with hvalid
  obtain ⟨⟨parsed, rest'⟩, hread, h⟩ := bind_eq_ok.mp h
  dsimp only at h
  split_ifs at h with haccepts
  obtain ⟨rfl, rfl⟩ := Prod.mk.inj (Except.ok.inj h)
  obtain ⟨hmethod, rfl⟩ := readExact_eq_some (orError_eq_ok.mp hread)
  refine ⟨?_, by omega, by simpa using haccepts⟩
  rw [readU8_eq_some (orError_eq_ok.mp hlen), prefixed, ofNat_length hmethod, List.cons_append]

theorem readArg_eq_ok {family : String} {maxLen : Nat} {data arg : Bytes}
    (h : readArg family maxLen data = .ok arg) :
    data = u32Bytes (UInt32.ofNat arg.length) ++ arg ∧ arg.length ≤ maxLen := by
  obtain ⟨⟨len, tail⟩, hlen, h⟩ := bind_eq_ok.mp h
  dsimp only at h
  split_ifs at h with hlarge
  obtain ⟨⟨parsed, rest⟩, hread, h⟩ := bind_eq_ok.mp h
  dsimp only at h
  split_ifs at h with hrest
  obtain rfl := Except.ok.inj h
  obtain ⟨harg, rfl⟩ := readExact_eq_some (orError_eq_ok.mp hread)
  have hle : UInt32.ofNat parsed.length = len := by
    rw [harg]
    exact UInt32.ofNat_toNat
  refine ⟨?_, by omega⟩
  rw [readU32_eq_some (orError_eq_ok.mp hlen), hle, not_not.mp hrest, List.append_nil]

structure BoundedUpdate (intent : IcpUpdateIntent) : Prop where
  target : 1 ≤ intent.target.length ∧ intent.target.length ≤ maxPrincipalLen
  method : 1 ≤ intent.method.length ∧ intent.method.length ≤ maxQueryMethodLen
  ascii : isAscii intent.method = true
  arg : intent.arg.length ≤ maxIcpUpdateArgLen

theorem parseIcpUpdateIntentInput_eq_ok {input : Bytes} {intent : IcpUpdateIntent}
    (h : parseIcpUpdateIntentInput input = .ok intent) :
    input = compactIcpUpdateInput intent ∧ BoundedUpdate intent := by
  rw [parseIcpUpdateIntentInput] at h
  split_ifs at h with hshort
  obtain ⟨⟨version, afterVersion⟩, hreadVersion, h⟩ := bind_eq_ok.mp h
  dsimp only at h
  split_ifs at h with hversion
  obtain ⟨⟨kind, afterKind⟩, hreadKind, h⟩ := bind_eq_ok.mp h
  dsimp only at h
  split_ifs at h with hkind
  obtain ⟨⟨target, afterTarget⟩, hreadTarget, h⟩ := bind_eq_ok.mp h
  dsimp only at h
  obtain ⟨⟨method, afterMethod⟩, hreadMethod, h⟩ := bind_eq_ok.mp h
  dsimp only at h
  obtain ⟨arg, hreadArg, h⟩ := bind_eq_ok.mp h
  obtain rfl := Except.ok.inj h
  obtain ⟨htarget, targetLen⟩ := readQueryPrincipal_eq_ok hreadTarget
  obtain ⟨hmethod, methodLen, ascii⟩ := readMethod_eq_ok hreadMethod
  obtain ⟨harg, argLen⟩ := readArg_eq_ok hreadArg
  refine ⟨?_, targetLen, methodLen, ascii, argLen⟩
  rw [readU8_eq_some (orError_eq_ok.mp hreadVersion), readU8_eq_some (orError_eq_ok.mp hreadKind),
    not_not.mp hversion, not_not.mp hkind, htarget, hmethod, harg]
  rfl

theorem unwrapIntentFromLog_log (keccak256 : Bytes → ByteArr 32) {intent : UnwrapIntent}
    (asset : 1 ≤ intent.assetId.length ∧ intent.assetId.length ≤ maxPrincipalLen)
    (recipient : 1 ≤ intent.recipient.length ∧ intent.recipient.length ≤ maxPrincipalLen) :
    unwrapIntentFromLog keccak256 (unwrapLog keccak256 intent) = some intent := by
  have hasset := readLenPrefixed_cons asset.1 (asset.2.trans (by decide))
  have hrecipient := readLenPrefixed_cons recipient.1 (recipient.2.trans (by decide)) []
  rw [List.append_nil] at hrecipient
  simp [unwrapIntentFromLog, unwrapLog, encodeLogData, hasset, hrecipient]

theorem icpUpdateIntentFromLog_log (keccak256 : Bytes → ByteArr 32) {intent : IcpUpdateIntent}
    (h : BoundedUpdate intent) :
    icpUpdateIntentFromLog keccak256 (icpUpdateIntentLog keccak256 intent) = some intent := by
  have htarget := readLenPrefixed_cons h.target.1 (h.target.2.trans (by decide))
  have hmethod := readLenPrefixed_cons h.method.1 (h.method.2.trans (by decide))
  have hnat : (UInt32.ofNat intent.arg.length).toNat = intent.arg.length :=
    UInt32.toNat_ofNat_of_lt (lt_of_le_of_lt h.arg (by decide))
  have harg := readExact_append_of_length hnat.symm []
  rw [List.append_nil] at harg
  have htargetLen : ¬ intent.target.length > maxPrincipalLen := not_lt.mpr h.target.2
  have hmethodLen : ¬ (intent.method.length > maxQueryMethodLen ∨ isAscii intent.method = false) := by
    simp [h.ascii, h.method.2]
  have hargLen : ¬ (UInt32.ofNat intent.arg.length).toNat > maxIcpUpdateArgLen := by
    rw [hnat]
    exact not_lt.mpr h.arg
  simp only [icpUpdateIntentFromLog, icpUpdateIntentLog, encodeIcpUpdateIntentLogData, ne_eq,
    not_true_eq_false, if_false]
  rw [bind_of_read (htarget _)]
  dsimp only
  rw [if_neg htargetLen, bind_of_read (hmethod _)]
  dsimp only
  rw [if_neg hmethodLen, bind_of_read (readU32_append _ _)]
  dsimp only
  rw [if_neg hargLen, bind_of_read harg]
  rfl

theorem length_encodeLogData (intent : UnwrapIntent) : (encodeLogData intent).length =
    34 + intent.assetId.length + intent.recipient.length := by
  simp only [encodeLogData, List.length_cons, List.length_append, List.Vector.toList_length]
  omega

theorem length_encodeIcpUpdateIntentLogData (intent : IcpUpdateIntent) :
    (encodeIcpUpdateIntentLogData intent).length =
      6 + intent.target.length + intent.method.length + intent.arg.length := by
  simp only [encodeIcpUpdateIntentLogData, List.length_cons, List.length_append, length_u32Bytes]
  omega

theorem unwrapPort_addressed (env : Env) (allowExternal : Bool) :
    (unwrapPort env allowExternal).Addressed wrapPrecompileAddress where
  log := fun _ => rfl
  fromLog := fun _ h => if_pos h

theorem nativeWithdrawPort_addressed (env : Env) (allowExternal : Bool) :
    (nativeWithdrawPort env allowExternal).Addressed nativeWithdrawPrecompileAddress where
  log := fun _ => rfl
  fromLog := fun _ h => if_pos h

theorem icpUpdateIntentPort_addressed (env : Env) (allowExternal : Bool)
    (updateAllowlist : List Bytes) :
    (icpUpdateIntentPort env allowExternal updateAllowlist).Addressed
      icpUpdateIntentPrecompileAddress where
  log := fun _ => rfl
  fromLog := fun _ h => if_pos h

theorem unwrapIntentFromLog_of_topics (keccak256 : Bytes → ByteArr 32) {entry : LogEntry}
    (h : entry.topics.length ≠ 1) : unwrapIntentFromLog keccak256 entry = none := by
  have htopics : entry.topics ≠ [keccak256 wrapEventSignature] := fun heq => h (by simp [heq])
  rw [unwrapIntentFromLog]
  split_ifs
  · rfl
  · rfl

def TokenLogged (j j' : Journal) : Prop :=
  ∃ earlier, j'.logs = j.logs ++ earlier ∧ ∀ entry ∈ earlier, entry.topics.length = 3

theorem tokenLogged_of_logs {j j' : Journal} (h : j'.logs = j.logs) : TokenLogged j j' :=
  ⟨[], by rw [h, List.append_nil], by simp⟩

theorem TokenLogged.log {j j' : Journal} (h : TokenLogged j j') (env : Env)
    (token source target : Address) (signature : Bytes) (value : U256) :
    TokenLogged j (j'.log (tokenLog env token signature source target value)) := by
  obtain ⟨earlier, hlogs, htopics⟩ := h
  refine ⟨earlier ++ [tokenLog env token signature source target value], ?_, ?_⟩
  · rw [Journal.log, hlogs, List.append_assoc]
  · intro entry hentry
    rcases List.mem_append.mp hentry with hentry | hentry
    · exact htopics entry hentry
    · rw [List.mem_singleton.mp hentry]
      rfl

theorem tokenLogged_spendAllowance {env : Env} {j spent : Journal} {token owner : Address}
    {amount : U256} {approval : Option U256}
    (h : spendAllowance env j token owner amount = .ok (spent, approval)) :
    TokenLogged j spent := by
  simp only [spendAllowance] at h
  split_ifs at h with hmax hless
  · obtain ⟨rfl, -⟩ := Prod.mk.inj (Except.ok.inj h)
    exact tokenLogged_of_logs rfl
  · obtain ⟨rfl, -⟩ := Prod.mk.inj (Except.ok.inj h)
    exact tokenLogged_of_logs rfl

theorem tokenLogged_settleBurn {env : Env} {j spent : Journal} (h : TokenLogged j spent)
    (token owner : Address) (amount balance totalSupply : U256) (approval : Option U256) :
    TokenLogged j (settleBurn env spent token owner amount balance totalSupply approval) := by
  have hstored : TokenLogged j ((spent.sstore token (balanceSlot env owner) (balance - amount)).sstore
      token wrappedTokenTotalSupplySlot (totalSupply - amount)) := h
  cases approval with
  | none => exact hstored.log env token owner zeroAddress transferEventSignature amount
  | some next =>
      exact (hstored.log env token owner env.factory approvalEventSignature next).log env token owner
        zeroAddress transferEventSignature amount

theorem tokenLogged_burn {env : Env} {j j' : Journal} {owner : Address} {intent : UnwrapIntent}
    (h : burnWrappedAsset env j owner intent = .ok j') : TokenLogged j j' := by
  simp only [burnWrappedAsset] at h
  split_ifs at h with htoken hbalance
  obtain ⟨⟨spent, approval⟩, hspend, hrest⟩ := bind_eq_ok.mp h
  dsimp only at hrest
  split_ifs at hrest with hsupply
  obtain rfl := Except.ok.inj hrest
  exact tokenLogged_settleBurn (tokenLogged_spendAllowance hspend) ..

theorem unwrapPort_emits (env : Env) (allowExternal : Bool) (ctx : Context) (inputs : CallInputs) :
    (runWrapPrecompile env ctx inputs allowExternal).1.result = .precompileError ∧
      (runWrapPrecompile env ctx inputs allowExternal).2.journal.logs = ctx.journal.logs ∨
    ∃ parsed earlier, (unwrapPort env allowExternal).Emitted ctx inputs parsed earlier := by
  cases hparse : parseInput inputs.input with
  | error code =>
      refine .inl ?_
      rw [runWrapPrecompile, hparse]
      split_ifs <;> exact ⟨rfl, rfl⟩
  | ok parsed =>
      cases hburn : burnWrappedAsset env ctx.journal (unwrapOwner inputs) parsed with
      | error code =>
          refine .inl ?_
          rw [runWrapPrecompile, hparse]
          dsimp only
          rw [hburn]
          split_ifs <;> exact ⟨rfl, rfl⟩
      | ok journal =>
          rw [runWrapPrecompile]
          split_ifs with hexternal hstatic
          · exact .inl ⟨rfl, rfl⟩
          · exact .inl ⟨rfl, rfl⟩
          · obtain ⟨earlier, hlogs, htopics⟩ := tokenLogged_burn hburn
            refine .inr ⟨parsed, earlier, hparse, ?_, fun entry hentry => ?_⟩
            · change (runWrapPrecompile env ctx inputs allowExternal).2.journal.logs = _
              rw [runWrapPrecompile, if_neg hexternal, if_neg hstatic, hparse]
              dsimp only
              rw [hburn, ← List.append_assoc, ← hlogs]
              rfl
            · exact unwrapIntentFromLog_of_topics _ (by rw [htopics entry hentry]; decide)

theorem nativeWithdrawPort_emits (env : Env) (allowExternal : Bool) (ctx : Context)
    (inputs : CallInputs) :
    (runNativeWithdrawPrecompile env ctx inputs allowExternal).1.result = .precompileError ∧
      (runNativeWithdrawPrecompile env ctx inputs allowExternal).2.journal.logs =
        ctx.journal.logs ∨
    ∃ parsed earlier, (nativeWithdrawPort env allowExternal).Emitted ctx inputs parsed earlier := by
  rw [runNativeWithdrawPrecompile]
  split_ifs with hexternal hstatic
  · exact .inl ⟨rfl, rfl⟩
  · exact .inl ⟨rfl, rfl⟩
  · cases hparse : parseNativeWithdrawInput inputs.input with
    | error code => exact .inl ⟨rfl, rfl⟩
    | ok recipient =>
        dsimp only
        cases hvalue : nativeValueToE8s inputs.callValue with
        | none => exact .inl ⟨rfl, rfl⟩
        | some amountE8s =>
            dsimp only
            split_ifs with hzero
            · exact .inl ⟨rfl, rfl⟩
            · refine .inr ⟨recipient, [], hparse, ?_, by simp⟩
              have hamount : amountE8s = BitVec.ofNat 256 (inputs.callValue.toNat / weiPerE8s) := by
                rw [nativeValueToE8s] at hvalue
                split_ifs at hvalue
                exact (Option.some.inj hvalue).symm
              change (runNativeWithdrawPrecompile env ctx inputs allowExternal).2.journal.logs = _
              rw [runNativeWithdrawPrecompile, if_neg hexternal, if_neg hstatic, hparse]
              dsimp only
              rw [hvalue]
              dsimp only
              rw [if_neg hzero, hamount]
              rfl

theorem icpUpdateIntentPort_emits (env : Env) (allowExternal : Bool) (updateAllowlist : List Bytes)
    (ctx : Context) (inputs : CallInputs) :
    (runIcpUpdateIntentPrecompile env ctx inputs allowExternal updateAllowlist).1.result =
        .precompileError ∧
      (runIcpUpdateIntentPrecompile env ctx inputs allowExternal updateAllowlist).2.journal.logs =
        ctx.journal.logs ∨
    ∃ parsed earlier,
      (icpUpdateIntentPort env allowExternal updateAllowlist).Emitted ctx inputs parsed earlier := by
  rw [runIcpUpdateIntentPrecompile]
  split_ifs with hexternal hstatic hvalue
  · exact .inl ⟨rfl, rfl⟩
  · exact .inl ⟨rfl, rfl⟩
  · exact .inl ⟨rfl, rfl⟩
  · cases hparse : parseIcpUpdateIntentInput inputs.input with
    | error code => exact .inl ⟨rfl, rfl⟩
    | ok intent =>
        dsimp only
        by_cases hlisted : precompileAllowKey intent.target intent.method ∉ updateAllowlist
        · rw [if_pos hlisted]
          exact .inl ⟨rfl, rfl⟩
        · refine .inr ⟨intent, [], hparse, ?_, by simp⟩
          change (runIcpUpdateIntentPrecompile env ctx inputs allowExternal
            updateAllowlist).2.journal.logs = _
          rw [runIcpUpdateIntentPrecompile, if_neg hexternal, if_neg hstatic, if_neg hvalue, hparse]
          dsimp only
          rw [if_neg hlisted]
          rfl

theorem unwrapPort_faithful (env : Env) (allowExternal : Bool) :
    (unwrapPort env allowExternal).Faithful where
  decoded := by
    intro input parsed h value
    obtain ⟨-, hasset, hrecipient⟩ := parseInput_eq_ok h
    exact unwrapIntentFromLog_log env.keccak256 hasset hrecipient
  injective := by
    intro input input' parsed parsed' h h' value value' heq
    obtain rfl : parsed = parsed' := heq
    rw [(parseInput_eq_ok h).1, (parseInput_eq_ok h').1]
  bounded := by
    intro input parsed h value
    obtain ⟨-, hasset, hrecipient⟩ := parseInput_eq_ok h
    change (encodeLogData parsed).length ≤ maxLogData
    rw [length_encodeLogData]
    simp only [maxPrincipalLen, maxLogData] at *
    omega
  emits := unwrapPort_emits env allowExternal

theorem nativeWithdrawPort_faithful (env : Env) (allowExternal : Bool) :
    (nativeWithdrawPort env allowExternal).Faithful where
  decoded := by
    intro input recipient h value
    obtain ⟨hpos, hle⟩ := parseNativeWithdrawInput_ok h
    exact nativeWithdrawIntentFromLog_log env.keccak256 (withdrawIntent value recipient) hpos hle
  injective := by
    intro input input' recipient recipient' h h' value value' heq
    obtain rfl : recipient = recipient' := congrArg NativeWithdrawIntent.recipient heq
    rw [parseNativeWithdrawInput_eq_ok h, parseNativeWithdrawInput_eq_ok h']
  bounded := by
    intro input recipient h value
    have hle := (parseNativeWithdrawInput_ok h).2
    change (encodeNativeWithdrawLogData (withdrawIntent value recipient)).length ≤ maxLogData
    rw [length_encodeNativeWithdrawLogData]
    change 33 + recipient.length ≤ maxLogData
    simp only [maxPrincipalLen, maxLogData] at *
    omega
  emits := nativeWithdrawPort_emits env allowExternal

theorem icpUpdateIntentPort_faithful (env : Env) (allowExternal : Bool)
    (updateAllowlist : List Bytes) :
    (icpUpdateIntentPort env allowExternal updateAllowlist).Faithful where
  decoded := by
    intro input parsed h value
    exact icpUpdateIntentFromLog_log env.keccak256 (parseIcpUpdateIntentInput_eq_ok h).2
  injective := by
    intro input input' parsed parsed' h h' value value' heq
    obtain rfl : parsed = parsed' := heq
    rw [(parseIcpUpdateIntentInput_eq_ok h).1, (parseIcpUpdateIntentInput_eq_ok h').1]
  bounded := by
    intro input parsed h value
    obtain ⟨-, htarget, hmethod, -, harg⟩ := parseIcpUpdateIntentInput_eq_ok h
    change (encodeIcpUpdateIntentLogData parsed).length ≤ maxLogData
    rw [length_encodeIcpUpdateIntentLogData]
    simp only [maxPrincipalLen, maxQueryMethodLen, maxIcpUpdateArgLen, maxLogData] at *
    omega
  emits := icpUpdateIntentPort_emits env allowExternal updateAllowlist

theorem intents_logged_and_read_back (env : Env) (allowExternal : Bool)
    (updateAllowlist : List Bytes) :
    let unwrap := unwrapPort env allowExternal
    let withdraw := nativeWithdrawPort env allowExternal
    let update := icpUpdateIntentPort env allowExternal updateAllowlist
    unwrap.Faithful ∧ withdraw.Faithful ∧ update.Faithful ∧
      unwrap.Apart withdraw ∧ unwrap.Apart update ∧ withdraw.Apart update := by
  have unwrapAt := unwrapPort_addressed env allowExternal
  have withdrawAt := nativeWithdrawPort_addressed env allowExternal
  have updateAt := icpUpdateIntentPort_addressed env allowExternal updateAllowlist
  exact ⟨unwrapPort_faithful env allowExternal, nativeWithdrawPort_faithful env allowExternal,
    icpUpdateIntentPort_faithful env allowExternal updateAllowlist,
    unwrapAt.apart withdrawAt (by decide), unwrapAt.apart updateAt (by decide),
    withdrawAt.apart updateAt (by decide)⟩

end Kasane.Precompile
