import Kasane.Precompile.Input
import Kasane.Lib.Word

namespace Kasane.Precompile

open BigEndian Codec Receipt Word

inductive CallValue where
  | transfer (value : U256)
  | apparent (value : U256)
deriving DecidableEq

def CallValue.get : CallValue → U256
  | .transfer value => value
  | .apparent value => value

structure CallInputs where
  input : Bytes
  gasLimit : Nat
  bytecodeAddress : Address
  targetAddress : Address
  caller : Address
  value : CallValue
  isStatic : Bool
deriving DecidableEq

def CallInputs.callValue (inputs : CallInputs) : U256 := inputs.value.get

structure Gas where
  limit : Nat
  remaining : Nat
deriving DecidableEq

def Gas.new (limit : Nat) : Gas := ⟨limit, limit⟩

def Gas.recordCost (gas : Gas) (cost : Nat) : Option Gas :=
  if cost ≤ gas.remaining then some { gas with remaining := gas.remaining - cost } else none

inductive InstructionResult where
  | return_
  | precompileError
  | precompileOOG
deriving DecidableEq

structure InterpreterResult where
  result : InstructionResult
  gas : Gas
  output : Bytes
deriving DecidableEq

structure Transfer where
  source : Address
  target : Address
  value : U256
deriving DecidableEq

structure Journal where
  balance : Address → Nat
  storage : Address → U256 → U256
  transfers : List Transfer
  logs : List LogEntry

structure Context where
  journal : Journal
  precompileError : Option String

structure PrecompileAccess where
  wrapSideEffects : Bool
  icpQuery : Bool
  icpUpdateIntent : Bool
deriving DecidableEq

structure Env where
  keccak256 : Bytes → ByteArr 32
  factory : Address
  access : PrecompileAccess
  otherPrecompile : CallInputs → Context → Option (InterpreterResult × Context)

def weiPerE8s : Nat := 10000000000

def unwrapBurnGasSurcharge : Nat := 45000

def abiDynamicFields : Nat := 2

def nativeWithdrawFields : Nat := 2

def wrapFactoryStorageTokenByAssetKeySlot : U256 := 0

def wrappedTokenTotalSupplySlot : U256 := 2

def wrappedTokenBalanceOfSlot : U256 := 3

def wrappedTokenAllowanceSlot : U256 := 4

def chainId : U256 := 4801360

def Journal.log (j : Journal) (entry : LogEntry) : Journal := { j with logs := j.logs ++ [entry] }

def Journal.sload (j : Journal) (account : Address) (slot : U256) : U256 := j.storage account slot

def Journal.sstore (j : Journal) (account : Address) (slot value : U256) : Journal :=
  { j with storage := fun a s => if a = account ∧ s = slot then value else j.storage a s }

def Context.log (ctx : Context) (entry : LogEntry) : Context :=
  { ctx with journal := ctx.journal.log entry }

def precompileFail (ctx : Context) (gasLimit : Nat) (msg : String) :
    InterpreterResult × Context :=
  (⟨.precompileError, .new gasLimit, []⟩, { ctx with precompileError := some msg })

def chargeReturn (gasLimit estimatedGas : Nat) : InterpreterResult :=
  match (Gas.new gasLimit).recordCost estimatedGas with
  | some gas => ⟨.return_, gas, []⟩
  | none => ⟨.precompileOOG, .new gasLimit, []⟩

def estimateWrapPrecompileGas (inputLen logDataLen fieldCount : Nat) : Nat :=
  let baseGas := saturatingAdd u64Max 25000 unwrapBurnGasSurcharge
  let perByteGas := saturatingMul u64Max 16 inputLen
  let perFieldGas := saturatingMul u64Max 200 fieldCount
  let topicCount := 1
  let logGas := saturatingAdd u64Max
    (saturatingAdd u64Max 375 (saturatingMul u64Max 375 topicCount))
    (saturatingMul u64Max 8 logDataLen)
  saturatingAdd u64Max (saturatingAdd u64Max (saturatingAdd u64Max baseGas perByteGas) perFieldGas)
    logGas

def nativeValueToE8s (value : U256) : Option U256 :=
  if value.toNat % weiPerE8s ≠ 0 then none else some (BitVec.ofNat 256 (value.toNat / weiPerE8s))

def amountBytes (amount : U256) : ByteArr 32 := ⟨u256Bytes amount, length_encode _ _⟩

def computeExtraGas (elapsedInstruction numerator denominator : Nat) : Nat :=
  if elapsedInstruction = 0 ∨ numerator = 0 then 0
  else
    let denominator := max denominator 1
    let scaled := saturatingMul u128Max elapsedInstruction numerator
    let rounded := saturatingAdd u128Max scaled (denominator - 1) / denominator
    min rounded u64Max

def extraGasByInstructionRatio (elapsedInstruction : Nat) : Nat :=
  computeExtraGas elapsedInstruction 1 100

def extraGasForPrecompile (address : Address) (elapsedInstruction : Nat) : Nat :=
  if address = wrapPrecompileAddress then 0 else extraGasByInstructionRatio elapsedInstruction

section

variable (env : Env)

def mappingSlot (key : ByteArr 32) (slot : U256) : U256 :=
  u256OfBytes (env.keccak256 (key.toList ++ u256Bytes slot)).toList

def addressWord (a : Address) : ByteArr 32 :=
  ⟨List.replicate 12 0 ++ a.toList, by simp⟩

def addressMappingSlot (key : Address) (slot : U256) : U256 :=
  mappingSlot env (addressWord key) slot

def allowanceSlot (owner spender : Address) : U256 :=
  mappingSlot env (addressWord spender) (addressMappingSlot env owner wrappedTokenAllowanceSlot)

def balanceSlot (owner : Address) : U256 := addressMappingSlot env owner wrappedTokenBalanceOfSlot

def computeAssetKey (assetId : Bytes) : ByteArr 32 :=
  env.keccak256 ("kasane.wrap.v1".toUTF8.toList ++ (u256Bytes chainId ++ assetId))

def loadFactoryTokenAddress (j : Journal) (assetKey : ByteArr 32) : Address :=
  let raw := u256Bytes
    (j.sload env.factory (mappingSlot env assetKey wrapFactoryStorageTokenByAssetKeySlot))
  ⟨raw.drop 12, by simp [raw, u256Bytes]⟩

def tokenLog (token : Address) (signature : Bytes) (source target : Address) (value : U256) :
    LogEntry where
  address := token
  topics := [env.keccak256 signature, addressWord source, addressWord target]
  data := u256Bytes value

def emitApprovalLog (j : Journal) (token owner spender : Address) (value : U256) : Journal :=
  j.log (tokenLog env token approvalEventSignature owner spender value)

def emitTransferLog (j : Journal) (token source target : Address) (value : U256) : Journal :=
  j.log (tokenLog env token transferEventSignature source target value)

def spendAllowance (j : Journal) (token owner : Address) (amount : U256) :
    Except String (Journal × Option U256) :=
  let slot := allowanceSlot env owner env.factory
  let allowance := j.sload token slot
  if allowance ≠ u256Max then
    if allowance < amount then .error "erc20.insufficient_allowance"
    else .ok (j.sstore token slot (allowance - amount), some (allowance - amount))
  else .ok (j, none)

def settleBurn (j : Journal) (token owner : Address) (amount balance totalSupply : U256)
    (approvalLogValue : Option U256) : Journal :=
  let j := j.sstore token (balanceSlot env owner) (balance - amount)
  let j := j.sstore token wrappedTokenTotalSupplySlot (totalSupply - amount)
  let j := match approvalLogValue with
    | some next => emitApprovalLog env j token owner env.factory next
    | none => j
  emitTransferLog env j token owner zeroAddress amount

def burnWrappedAsset (j : Journal) (owner : Address) (intent : UnwrapIntent) :
    Except String Journal :=
  let amount := u256OfBytes intent.amount.toList
  let token := loadFactoryTokenAddress env j (computeAssetKey env intent.assetId)
  if token = zeroAddress then .error "unwrap.token_not_deployed"
  else
    let balance := j.sload token (balanceSlot env owner)
    if balance < amount then .error "erc20.insufficient_balance"
    else do
      let (j, approvalLogValue) ← spendAllowance env j token owner amount
      let totalSupply := j.sload token wrappedTokenTotalSupplySlot
      if totalSupply < amount then .error "erc20.insufficient_balance"
      else .ok (settleBurn env j token owner amount balance totalSupply approvalLogValue)

def unwrapOwner (inputs : CallInputs) : Address := inputs.caller

def runWrapPrecompile (ctx : Context) (inputs : CallInputs) (allowExternal : Bool) :
    InterpreterResult × Context :=
  if allowExternal = false then
    precompileFail ctx inputs.gasLimit "wrap.precompile.query_disallowed"
  else if inputs.isStatic then
    precompileFail ctx inputs.gasLimit "wrap.precompile.static_disallowed"
  else
    match parseInput inputs.input with
    | .error code => precompileFail ctx inputs.gasLimit code
    | .ok parsed =>
        match burnWrappedAsset env ctx.journal (unwrapOwner inputs) parsed with
        | .error code => precompileFail ctx inputs.gasLimit code
        | .ok journal =>
            let ctx := { ctx with journal }.log (unwrapLog env.keccak256 parsed)
            (chargeReturn inputs.gasLimit (estimateWrapPrecompileGas inputs.input.length
              (encodeLogData parsed).length abiDynamicFields), ctx)

def runNativeWithdrawPrecompile (ctx : Context) (inputs : CallInputs) (allowExternal : Bool) :
    InterpreterResult × Context :=
  if allowExternal = false then
    precompileFail ctx inputs.gasLimit "native_withdraw.precompile.query_disallowed"
  else if inputs.isStatic then
    precompileFail ctx inputs.gasLimit "native_withdraw.precompile.static_disallowed"
  else
    match parseNativeWithdrawInput inputs.input with
    | .error code => precompileFail ctx inputs.gasLimit code
    | .ok recipient =>
        match nativeValueToE8s inputs.callValue with
        | none => precompileFail ctx inputs.gasLimit "native_withdraw.amount_not_e8s_aligned"
        | some amountE8s =>
            if amountE8s = 0 then
              precompileFail ctx inputs.gasLimit "native_withdraw.amount_zero"
            else
              let parsed : NativeWithdrawIntent := ⟨amountBytes amountE8s, recipient⟩
              let ctx := ctx.log (nativeWithdrawLog env.keccak256 parsed)
              (chargeReturn inputs.gasLimit (estimateWrapPrecompileGas inputs.input.length
                (encodeNativeWithdrawLogData parsed).length nativeWithdrawFields), ctx)

def chargeExtraGas (out : InterpreterResult) (gasLimit extraGas : Nat) : InterpreterResult :=
  if extraGas = 0 then out
  else
    match out.gas.recordCost extraGas with
    | some gas => { out with gas }
    | none => ⟨.precompileOOG, .new gasLimit, []⟩

def providerRun (elapsedInstruction : Nat) (ctx : Context) (inputs : CallInputs) :
    Option (InterpreterResult × Context) :=
  let output :=
    if inputs.bytecodeAddress = wrapPrecompileAddress then
      some (runWrapPrecompile env ctx inputs env.access.wrapSideEffects)
    else if inputs.bytecodeAddress = nativeWithdrawPrecompileAddress then
      some (runNativeWithdrawPrecompile env ctx inputs env.access.wrapSideEffects)
    else env.otherPrecompile inputs ctx
  output.map (fun (out, ctx) =>
    (chargeExtraGas out inputs.gasLimit
      (extraGasForPrecompile inputs.bytecodeAddress elapsedInstruction), ctx))

end

theorem u256OfBytes_amountBytes (x : U256) : u256OfBytes (amountBytes x).toList = x := by
  have hx : x.toNat < 256 ^ 32 := x.isLt
  have hd : decode (u256Bytes x) = x.toNat := decode_encode_of_lt hx
  change BitVec.ofNat 256 (decode (u256Bytes x)) = x
  rw [hd]
  simp

theorem recordCost_new (gasLimit cost : Nat) : (Gas.new gasLimit).recordCost cost =
    if cost ≤ gasLimit then some ⟨gasLimit, gasLimit - cost⟩ else none := rfl

theorem chargeReturn_of_le {gasLimit cost : Nat} (h : cost ≤ gasLimit) :
    chargeReturn gasLimit cost = ⟨.return_, ⟨gasLimit, gasLimit - cost⟩, []⟩ := by
  rw [chargeReturn, recordCost_new, if_pos h]

theorem chargeReturn_of_not_le {gasLimit cost : Nat} (h : ¬ cost ≤ gasLimit) :
    chargeReturn gasLimit cost = ⟨.precompileOOG, .new gasLimit, []⟩ := by
  rw [chargeReturn, recordCost_new, if_neg h]

theorem chargeExtraGas_not_return {out : InterpreterResult} (gasLimit extra : Nat)
    (h : out.result ≠ .return_) : (chargeExtraGas out gasLimit extra).result ≠ .return_ := by
  rw [chargeExtraGas]
  split_ifs with hextra
  · exact h
  · cases out.gas.recordCost extra with
    | none => simp
    | some gas => exact h

theorem chargeExtraGas_returns_iff (gasLimit cost extra : Nat) :
    (chargeExtraGas (chargeReturn gasLimit cost) gasLimit extra).result = .return_ ↔
      cost + extra ≤ gasLimit := by
  by_cases hcost : cost ≤ gasLimit
  · rw [chargeReturn_of_le hcost, chargeExtraGas]
    by_cases hextra : extra = 0
    · rw [if_pos hextra]
      exact iff_of_true rfl (by omega)
    · rw [if_neg hextra]
      simp only [Gas.recordCost]
      by_cases hle : extra ≤ gasLimit - cost
      · rw [if_pos hle]
        exact iff_of_true rfl (by omega)
      · rw [if_neg hle]
        exact iff_of_false (by simp) (by omega)
  · rw [chargeReturn_of_not_le hcost]
    exact iff_of_false (chargeExtraGas_not_return _ _ (by simp)) (by omega)

end Kasane.Precompile
