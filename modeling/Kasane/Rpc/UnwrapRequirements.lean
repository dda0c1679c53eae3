import Kasane.Precompile.Unwrap
import Kasane.Rpc.CallObject

namespace Kasane.Rpc

open BigEndian Codec Word Chain Exec Node
open Precompile (U256 u256Bytes Journal Env UnwrapIntent InterpreterResult SlotsApart Burnable
  PrecompileAccess CallInputs loadFactoryTokenAddress computeAssetKey tokenBalance tokenSupply
  allowanceSlot factoryAllowance burnToken burnAmount burnWrappedAsset addressWord parseInput
  runWrapPrecompile unwrapGas IcpQueryContext zeroAddress)

inductive UnwrapReadiness where
  | ready
  | tokenNotDeployed
  | insufficientBalance
  | insufficientAllowance
deriving DecidableEq

structure GetUnwrapRequirementsArgs where
  assetId : Principal
  amountE8s : Nat
  callerEvmAddress : Bytes

structure GetUnwrapRequirementsOk where
  factoryAddress : Bytes
  wrappedTokenAddress : Option Bytes
  balance : Nat
  allowance : Nat
  approveRequired : Bool
  readiness : UnwrapReadiness
deriving DecidableEq

-- the message is the code again, or else it shows the error of the call
inductive ApiError where
  | invalidArgument (code : String)
  | rejected (code : String) (err : CallError)
  | internal (code : String)

structure UnwrapSite (T : Type) extends CallSite T where
  wrapEvmConfig : Bytes

variable {T : Type} (c : Crypto) (revm : QueryRevm) (now : Nat)

def readGasLimit : Nat := 500000

def selector (signature : String) : Bytes := (c.keccak256 signature.toUTF8.toList).toList.take 4

def leftPadded (address : Address) : Bytes := List.replicate 12 0 ++ address.toList

def encodeBalanceOfCallData (owner : Address) : Bytes :=
  selector c "balanceOf(address)" ++ leftPadded owner

def encodeAllowanceCallData (owner spender : Address) : Bytes :=
  selector c "allowance(address,address)" ++ (leftPadded owner ++ leftPadded spender)

def encodeFactoryGetTokenAddressCallData (assetId : Bytes) : Bytes :=
  let paddedLen := (assetId.length + 31) / 32 * 32
  selector c "getTokenAddress(bytes)" ++ (encode 32 32 ++ (encode 32 assetId.length ++
    (assetId ++ List.replicate (paddedLen - assetId.length) 0)))

def readCall (dest sender : Address) (data : Bytes) : CallObjectInput where
  dest := some dest
  sender := sender
  gasLimit := some (UInt64.ofNat readGasLimit)
  gasPrice := none
  nonce := none
  maxFeePerGas := none
  maxPriorityFeePerGas := none
  chainId := none
  txType := none
  accessList := []
  value := zeroArr 32
  data := data

def syncConfig (site : CallSite T) : QueryConfig := { site.config with access := .wrapSideEffectsOnly }

def ethCallObject (input : CallObjectInput) (site : CallSite T) :
    Except CallError CallObjectResult :=
  if input.data.length > maxTxSize then .error .txTooLarge
  else
    let plan := planCall c now input site.node
    finishCall (executeQueryOn c revm (syncConfig site) (storedBlockHash site.node.chain)
      (.new c site.node.chain.world.db) (.enter .disabled) plan.txId plan.tx plan.ctx
      plan.instructionSoftLimit).1

def callErrorCode : CallError → String
  | .execFailed .snapshotChanged => "exec.snapshot.changed"
  | _ => "exec.eth_call_object.failed"

def rpcEthCallObject (input : CallObjectInput) (site : CallSite T) :
    Except ApiError CallObjectResult :=
  match ethCallObject c revm now input site with
  | .error err => .error (.rejected (callErrorCode err) err)
  | .ok result => .ok result

def validateNonAnonymousPrincipal (principal : Principal) (err : ApiError) : Except ApiError Unit :=
  if principal.bytes = [4] then .error err else .ok ()

def validateEvmAddress (bytes : Bytes) (err : ApiError) : Except ApiError Address :=
  if h : bytes.length = 20 then .ok ⟨bytes, h⟩ else .error err

def natToU128 (value : Nat) (err : ApiError) : Except ApiError Nat :=
  if value ≤ u128Max then .ok value else .error err

def decodeU256Be (bytes : Bytes) : Except ApiError Nat :=
  if bytes.length < 32 then .error (.internal "rpc.return_data_short")
  else .ok (decode (bytes.take 32))

def lastAddress (bytes : Bytes) : Option Address :=
  if h : bytes.length < 32 then none
  else
    let address : Address := ⟨bytes.drop (bytes.length - 20), by simp; omega⟩
    if address = zeroAddress then none else some address

def fetchWrappedTokenAddress (assetId : Bytes) (sender factory : Address) (site : CallSite T) :
    Except ApiError (Option Address) := do
  let result ← rpcEthCallObject c revm now
    (readCall factory sender (encodeFactoryGetTokenAddressCallData c assetId)) site
  pure (lastAddress result.returnData)

def fetchErc20Balance (token owner : Address) (site : CallSite T) : Except ApiError Nat := do
  let result ← rpcEthCallObject c revm now
    (readCall token owner (encodeBalanceOfCallData c owner)) site
  decodeU256Be result.returnData

def fetchErc20Allowance (token owner spender : Address) (site : CallSite T) :
    Except ApiError Nat := do
  let result ← rpcEthCallObject c revm now
    (readCall token owner (encodeAllowanceCallData c owner spender)) site
  decodeU256Be result.returnData

def approvalRequiredForReadiness (readiness : UnwrapReadiness) : Bool :=
  decide (readiness = .insufficientAllowance)

def notDeployed (factory : Address) : GetUnwrapRequirementsOk where
  factoryAddress := factory.toList
  wrappedTokenAddress := none
  balance := 0
  allowance := 0
  approveRequired := approvalRequiredForReadiness .tokenNotDeployed
  readiness := .tokenNotDeployed

def tokenReadiness (balance allowance amount : Nat) : UnwrapReadiness :=
  if balance < amount then .insufficientBalance
  else if allowance < amount then .insufficientAllowance
  else .ready

def tokenRequirements (factory token owner : Address) (amount : Nat) (site : CallSite T) :
    Except ApiError GetUnwrapRequirementsOk := do
  let balance ← fetchErc20Balance c revm now token owner site
  let allowance ← fetchErc20Allowance c revm now token owner factory site
  let balanceU128 ← natToU128 balance (.internal "erc20.balance_out_of_range")
  let allowanceU128 ← natToU128 allowance (.internal "erc20.allowance_out_of_range")
  let readiness := tokenReadiness balanceU128 allowanceU128 amount
  pure
    { factoryAddress := factory.toList
      wrappedTokenAddress := some token.toList
      balance := balance
      allowance := allowance
      approveRequired := approvalRequiredForReadiness readiness
      readiness := readiness }

def getUnwrapRequirements (args : GetUnwrapRequirementsArgs) (site : UnwrapSite T) :
    Except ApiError GetUnwrapRequirementsOk := do
  validateNonAnonymousPrincipal args.assetId (.invalidArgument "arg.asset_id_anonymous")
  let owner ← validateEvmAddress args.callerEvmAddress
    (.invalidArgument "arg.caller_evm_address_invalid")
  let amount ← natToU128 args.amountE8s (.invalidArgument "arg.amount_out_of_range")
  if amount = 0 then .error (.invalidArgument "arg.amount_zero")
  else
    let factory ← validateEvmAddress site.wrapEvmConfig
      (.internal "config.wrap_factory_address_invalid")
    match ← fetchWrappedTokenAddress c revm now args.assetId.bytes owner factory site.toCallSite with
    | none => pure (notDeployed factory)
    | some token => tokenRequirements c revm now factory token owner amount site.toCallSite

def siteEnv (site : CallSite T) : Env := (syncConfig site).env c revm

def siteJournal (site : CallSite T) : Journal where
  balance := fun a => ((site.node.chain.world.db.accounts.get a).map AccountVal.balance).getD 0
  storage := fun a slot => BitVec.ofNat 256 (site.node.chain.world.db.storageAt a slot.toNat)
  transfers := []
  logs := []

-- the run of the interpreter that a call comes down to
def readRun (input : CallObjectInput) (site : CallSite T) : InspectRun :=
  let plan := planCall c now input site.node
  revm.inspectTx (Precompile.kasaneProviderRun (siteEnv c revm site) site.updateAllowlist)
    (IcpQueryContext.enter .disabled).enterDetection
    ((QueryCache.new c site.node.chain.world.db).view c (storedBlockHash site.node.chain))
    plan.tx plan.ctx (plan.instructionSoftLimit.getD 0)

def senderInfo (site : CallSite T) (sender : Address) : AccountInfo :=
  (site.node.chain.world.db.basic sender).getD (.default c)

def senderCode (site : CallSite T) (sender : Address) : Bytes :=
  (CacheDb.new c site.node.chain.world.db).codeByHash c (senderInfo c site sender).codeHash

def isEip7702 (code : Bytes) : Prop := code.length = 23 ∧ code.take 3 = [0xef, 0x01, 0x00]

instance (code : Bytes) : Decidable (isEip7702 code) :=
  inferInstanceAs (Decidable (code.length = 23 ∧ code.take 3 = [0xef, 0x01, 0x00]))

-- what a transaction of this sender with the gas of a read is checked for before it runs
structure Callable (site : CallSite T) (sender : Address) : Prop where
  gas : readGasLimit ≤ site.node.chain.chainState.blockGasLimit
  funds : readGasLimit * site.node.chain.chainState.baseFee ≤ (senderInfo c site sender).balance
  noCode : senderCode c site sender = [] ∨ isEip7702 (senderCode c site sender)

inductive ContractRead where
  | tokenAddress (assetId : Bytes)
  | balanceOf (token owner : Address)
  | allowance (token owner spender : Address)

namespace ContractRead

def dest (factory : Address) : ContractRead → Address
  | .tokenAddress _ => factory
  | .balanceOf token _ => token
  | .allowance token _ _ => token

def data : ContractRead → Bytes
  | .tokenAddress assetId => encodeFactoryGetTokenAddressCallData c assetId
  | .balanceOf _ owner => encodeBalanceOfCallData c owner
  | .allowance _ owner spender => encodeAllowanceCallData c owner spender

def answer (env : Env) (j : Journal) : ContractRead → Bytes
  | .tokenAddress assetId =>
      (addressWord (loadFactoryTokenAddress env j (computeAssetKey env assetId))).toList
  | .balanceOf token owner => u256Bytes (tokenBalance env j token owner)
  | .allowance token owner spender => u256Bytes (j.sload token (allowanceSlot env owner spender))

def Deployed (env : Env) (j : Journal) (token : Address) : Prop :=
  token ≠ zeroAddress ∧ ∃ assetId, loadFactoryTokenAddress env j (computeAssetKey env assetId) = token

-- the factory takes canister ids of 1 to 29 bytes, and only its tokens are asked
def Served (env : Env) (j : Journal) : ContractRead → Prop
  | .tokenAddress assetId => 1 ≤ assetId.length ∧ assetId.length ≤ maxPrincipalLen
  | .balanceOf token _ => Deployed env j token
  | .allowance token _ _ => Deployed env j token

end ContractRead

def Answers (run : InspectRun) (word : Bytes) : Prop :=
  ∃ gasUsed diff, run.result = .ok (.success gasUsed (.call word) [], diff) ∧
    run.tripped = false ∧ run.context.pending = none

-- the interpreter runs the getters of the contracts and checks who may call
structure ServesReads (site : CallSite T) : Prop where
  answered : ∀ (sender : Address) (read : ContractRead),
    read.Served (siteEnv c revm site) (siteJournal site) → Callable c site sender →
      Answers (readRun c revm now
        (readCall (read.dest (siteEnv c revm site).factory) sender (read.data c)) site)
        (read.answer (siteEnv c revm site) (siteJournal site))
  refused : ∀ (sender : Address) (read : ContractRead), ¬ Callable c site sender →
    ∃ e, (readRun c revm now
      (readCall (read.dest (siteEnv c revm site).factory) sender (read.data c)) site).result = .error e

def failedRequirement (code : String) : Option UnwrapReadiness :=
  if code = "unwrap.token_not_deployed" then some .tokenNotDeployed
  else if code = "erc20.insufficient_balance" then some .insufficientBalance
  else if code = "erc20.insufficient_allowance" then some .insufficientAllowance
  else none

def burnVerdict : Except String Journal → Option UnwrapReadiness
  | .ok _ => some .ready
  | .error code => failedRequirement code

def precompileReadiness (out : InterpreterResult × Precompile.Context) : Option UnwrapReadiness :=
  if out.1.result = .return_ then some .ready else out.2.precompileError.bind failedRequirement

def burnReadiness (env : Env) (j : Journal) (owner : Address) (intent : UnwrapIntent) :
    UnwrapReadiness :=
  let token := burnToken env j intent
  if token = zeroAddress then .tokenNotDeployed
  else if tokenBalance env j token owner < burnAmount intent then .insufficientBalance
  else if factoryAllowance env j token owner ≠ Precompile.u256Max ∧
      factoryAllowance env j token owner < burnAmount intent then .insufficientAllowance
  else if tokenSupply j token < burnAmount intent then .insufficientBalance
  else .ready

variable {c revm now}

theorem ok_bind {ε α β : Type} (a : α) (f : α → Except ε β) : (Except.ok a >>= f) = f a := rfl

theorem failedRequirement_balance :
    failedRequirement "erc20.insufficient_balance" = some .insufficientBalance := by
  rw [failedRequirement, if_neg (by decide), if_pos rfl]

theorem failedRequirement_allowance :
    failedRequirement "erc20.insufficient_allowance" = some .insufficientAllowance := by
  rw [failedRequirement, if_neg (by decide), if_neg (by decide), if_pos rfl]

theorem burnVerdict_eq {env : Env} (slots : SlotsApart env) (j : Journal) (owner : Address)
    (intent : UnwrapIntent) :
    burnVerdict (burnWrappedAsset env j owner intent) = some (burnReadiness env j owner intent) := by
  rw [Precompile.burnWrappedAsset_eq, burnReadiness]
  by_cases hdeployed : burnToken env j intent = zeroAddress
  · rw [if_pos hdeployed, if_pos hdeployed, burnVerdict, failedRequirement, if_pos rfl]
  rw [if_neg hdeployed, if_neg hdeployed]
  by_cases hbalance : tokenBalance env j (burnToken env j intent) owner < burnAmount intent
  · rw [if_pos hbalance, if_pos hbalance]
    exact failedRequirement_balance
  rw [if_neg hbalance, if_neg hbalance]
  -- the supply is read after the allowance has been spent, and is what it was before
  have hsettled (spent : Journal) (approval : Option U256)
      (hsupply : tokenSupply spent (burnToken env j intent) =
        tokenSupply j (burnToken env j intent)) :
      burnVerdict (if tokenSupply spent (burnToken env j intent) < burnAmount intent then
          .error "erc20.insufficient_balance"
        else .ok (Precompile.settleBurn env spent (burnToken env j intent) owner (burnAmount intent)
          (tokenBalance env j (burnToken env j intent) owner)
          (tokenSupply spent (burnToken env j intent)) approval)) =
        some (if tokenSupply j (burnToken env j intent) < burnAmount intent then
          .insufficientBalance else .ready) := by
    rw [hsupply]
    split_ifs
    · exact failedRequirement_balance
    · rfl
  rcases Precompile.spendAllowance_cases env j (burnToken env j intent) owner (burnAmount intent) with
    ⟨hmax, hspend⟩ | ⟨hmax, hless, hspend⟩ | ⟨hmax, hle, hspend⟩
  · rw [hspend, if_neg (fun h => h.1 hmax)]
    exact hsettled j none rfl
  · rw [hspend, if_pos ⟨hmax, hless⟩]
    exact failedRequirement_allowance
  · rw [hspend, if_neg (fun h => BitVec.not_lt.mpr hle h.2)]
    exact hsettled _ _ (Precompile.tokenSupply_spent slots ..)

theorem precompileReadiness_eq {env : Env} (slots : SlotsApart env) (ctx : Precompile.Context)
    {inputs : CallInputs} {intent : UnwrapIntent} (dynamic : inputs.isStatic = false)
    (parsed : parseInput inputs.input = .ok intent) (paid : unwrapGas inputs intent ≤ inputs.gasLimit) :
    precompileReadiness (runWrapPrecompile env ctx inputs true) =
      some (burnReadiness env ctx.journal inputs.caller intent) := by
  have hverdict := burnVerdict_eq slots ctx.journal inputs.caller intent
  rw [← hverdict]
  simp only [runWrapPrecompile, Bool.true_eq_false, if_false, dynamic, Bool.false_eq_true, parsed,
    Precompile.unwrapOwner]
  cases hburn : burnWrappedAsset env ctx.journal inputs.caller intent with
  | error code => simp [precompileReadiness, Precompile.precompileFail, burnVerdict]
  | ok journal =>
      rw [unwrapGas] at paid
      dsimp only
      rw [precompileReadiness, Precompile.chargeReturn_of_le paid]
      rfl

theorem effectiveGasPrice_self {baseFee : Nat} (h : baseFee ≤ u64Max) :
    effectiveGasPrice baseFee 0 baseFee = some baseFee := by
  have hle : baseFee ≤ u128Max := h.trans (by decide)
  have hcap : min baseFee (saturatingAdd u128Max baseFee 0) = baseFee := by
    rw [saturatingAdd, Nat.add_zero, min_eq_left hle, min_self]
  rw [effectiveGasPrice, if_neg (Nat.not_lt_zero _), if_neg (lt_irrefl _)]
  simp only [hcap, h, if_true]

theorem ethCallObject_eq (site : CallSite T) (dest sender : Address) {data : Bytes}
    (fee_le : site.node.chain.chainState.baseFee ≤ u64Max) (hlen : data.length ≤ maxTxSize) :
    ∃ limit txId ctx, ethCallObject c revm now (readCall dest sender data) site =
      finishCall (
        let run := readRun c revm now (readCall dest sender data) site
        if limit ≠ 0 ∧ run.tripped = true then (.error (.exec .instructionBudgetExceeded), run.loads)
        else
          match run.context.pending with
          | some request => (.error (.externalQuery request), run.loads)
          | none =>
              match run.result with
              | .error e => (.error (.exec (mapTxErrorStage e)), run.loads)
              | .ok (result, _) =>
                  if validateExecutionResultSizes result.output result.logs = false then
                    (.error (.exec .resultTooLarge), run.loads)
                  else (.ok (receiptOf c txId 0 ctx site.node.chain.chainState.baseFee result),
                    run.loads)).1 := by
  have hprice : effectiveGasPrice (planCall c now (readCall dest sender data) site.node).tx.gasPrice
      ((planCall c now (readCall dest sender data) site.node).tx.gasPriorityFee.getD 0)
      (planCall c now (readCall dest sender data) site.node).ctx.baseFee =
      some site.node.chain.chainState.baseFee := effectiveGasPrice_self fee_le
  refine ⟨site.node.queryInstructionSoftLimit,
    (planCall c now (readCall dest sender data) site.node).txId,
    (planCall c now (readCall dest sender data) site.node).ctx, ?_⟩
  have hshort : ¬ (readCall dest sender data).data.length > maxTxSize := not_lt.mpr hlen
  rw [ethCallObject, if_neg hshort]
  dsimp only
  rw [executeQueryOn, hprice]
  rfl

theorem ethCallObject_answered {site : CallSite T} {dest sender : Address} {data word : Bytes}
    (fee_le : site.node.chain.chainState.baseFee ≤ u64Max) (hlen : data.length ≤ maxTxSize)
    (hword : word.length = 32)
    (h : Answers (readRun c revm now (readCall dest sender data) site) word) :
    ∃ result, rpcEthCallObject c revm now (readCall dest sender data) site = .ok result ∧
      result.returnData = word := by
  obtain ⟨gasUsed, diff, hresult, htripped, hpending⟩ := h
  obtain ⟨limit, txId, ctx, heq⟩ := @ethCallObject_eq T c revm now site dest sender
    data fee_le hlen
  have hsizes : validateExecutionResultSizes word [] = true := by
    simp [validateExecutionResultSizes, hword, Receipt.maxReturnData]
  have hbudget : ¬ (limit ≠ 0 ∧ false = true) := by simp
  simp only [hresult, htripped, hpending, if_neg hbudget, ExecutionResult.output,
    ExecutionResult.logs, Output.data, hsizes, Bool.true_eq_false, if_false] at heq
  rw [finishCall] at heq
  exact ⟨_, by rw [rpcEthCallObject, heq], rfl⟩

theorem ethCallObject_refused {site : CallSite T} {dest sender : Address} {data : Bytes}
    (fee_le : site.node.chain.chainState.baseFee ≤ u64Max)
    (h : ∃ e, (readRun c revm now (readCall dest sender data) site).result = .error e) :
    ∃ err, rpcEthCallObject c revm now (readCall dest sender data) site = .error err := by
  suffices hcall : ∃ err, ethCallObject c revm now (readCall dest sender data) site = .error err by
    obtain ⟨err, herr⟩ := hcall
    exact ⟨_, by rw [rpcEthCallObject, herr]⟩
  obtain ⟨e, hresult⟩ := h
  rcases Nat.lt_or_ge maxTxSize data.length with hlong | hlen
  · exact ⟨.txTooLarge, if_pos hlong⟩
  · obtain ⟨limit, txId, ctx, heq⟩ := @ethCallObject_eq T c revm now site dest sender
      data fee_le hlen
    rw [heq]
    dsimp only
    split_ifs with hbudget
    · exact ⟨_, rfl⟩
    · cases hpending : (readRun c revm now (readCall dest sender data) site).context.pending with
      | some request => exact ⟨_, rfl⟩
      | none =>
          rw [hresult]
          exact ⟨_, rfl⟩

theorem length_selector (signature : String) : (selector c signature).length = 4 := by
  rw [selector, List.length_take, List.Vector.toList_length]
  rfl

theorem length_read {env : Env} {j : Journal} {read : ContractRead} (h : read.Served env j) :
    (read.data c).length ≤ maxTxSize := by
  have hshort : (read.data c).length ≤ 4 + 96 := by
    cases read with
    | tokenAddress assetId =>
        have hselector := length_selector (c := c) "getTokenAddress(bytes)"
        have hlen : assetId.length ≤ 29 := h.2
        simp only [ContractRead.data, encodeFactoryGetTokenAddressCallData, List.length_append,
          length_encode, List.length_replicate]
        omega
    | balanceOf token owner =>
        have hselector := length_selector (c := c) "balanceOf(address)"
        simp only [ContractRead.data, encodeBalanceOfCallData, leftPadded, List.length_append,
          List.length_replicate, owner.toList_length]
        omega
    | allowance token owner spender =>
        have hselector := length_selector (c := c) "allowance(address,address)"
        simp only [ContractRead.data, encodeAllowanceCallData, leftPadded, List.length_append,
          List.length_replicate, owner.toList_length, spender.toList_length]
        omega
  exact hshort.trans (by decide)

theorem length_answer (env : Env) (j : Journal) (read : ContractRead) :
    (read.answer env j).length = 32 := by
  cases read with
  | tokenAddress assetId => exact List.Vector.toList_length _
  | balanceOf token owner => exact length_encode _ _
  | allowance token owner spender => exact length_encode _ _

theorem lastAddress_addressWord (a : Address) :
    lastAddress (addressWord a).toList = if a = zeroAddress then none else some a := by
  have hlen : (addressWord a).toList.length = 32 := List.Vector.toList_length _
  have hdrop : (addressWord a).toList.drop 12 = a.toList := by
    rw [addressWord]
    exact List.drop_left' (List.length_replicate ..)
  have hsame : (⟨(addressWord a).toList.drop ((addressWord a).toList.length - 20), by
      simp⟩ : Address) = a := by
    apply Subtype.ext
    simp only [hlen]
    exact hdrop
  rw [lastAddress, dif_neg (by omega)]
  simp only [hsame]

theorem decodeU256Be_u256Bytes (x : U256) : decodeU256Be (u256Bytes x) = .ok x.toNat := by
  have hlen : (u256Bytes x).length = 32 := length_encode _ _
  have htake : (u256Bytes x).take 32 = u256Bytes x := List.take_of_length_le hlen.le
  have hdecode : decode (u256Bytes x) = x.toNat := decode_encode_of_lt x.isLt
  rw [decodeU256Be, if_neg (by omega), htake, hdecode]

section

variable {site : CallSite T} (reads : ServesReads c revm now site)
  (fee_le : site.node.chain.chainState.baseFee ≤ u64Max)

include reads fee_le

theorem read_answered {sender : Address} (hcall : Callable c site sender) (read : ContractRead)
    (hserved : read.Served (siteEnv c revm site) (siteJournal site)) :
    ∃ result, rpcEthCallObject c revm now
        (readCall (read.dest (siteEnv c revm site).factory) sender (read.data c)) site = .ok result ∧
      result.returnData = read.answer (siteEnv c revm site) (siteJournal site) :=
  ethCallObject_answered fee_le (length_read hserved) (length_answer ..)
    (reads.answered sender read hserved hcall)

theorem read_refused {sender : Address} (hcall : ¬ Callable c site sender) (read : ContractRead) :
    ∃ err, rpcEthCallObject c revm now
        (readCall (read.dest (siteEnv c revm site).factory) sender (read.data c)) site = .error err :=
  ethCallObject_refused fee_le (reads.refused sender read hcall)

theorem fetchWrappedTokenAddress_eq {assetId : Bytes} {sender : Address}
    (hcall : Callable c site sender) (hpos : 1 ≤ assetId.length)
    (hle : assetId.length ≤ maxPrincipalLen) :
    fetchWrappedTokenAddress c revm now assetId sender (siteEnv c revm site).factory site =
      .ok (if loadFactoryTokenAddress (siteEnv c revm site) (siteJournal site)
          (computeAssetKey (siteEnv c revm site) assetId) = zeroAddress then none
        else some (loadFactoryTokenAddress (siteEnv c revm site) (siteJournal site)
          (computeAssetKey (siteEnv c revm site) assetId))) := by
  obtain ⟨result, hresult, hdata⟩ := read_answered reads fee_le hcall
    (.tokenAddress assetId) ⟨hpos, hle⟩
  rw [← lastAddress_addressWord]
  exact bind_eq_ok.mpr ⟨result, hresult, by rw [hdata]; rfl⟩

theorem fetchErc20Balance_eq {token owner : Address} (hcall : Callable c site owner)
    (htoken : ContractRead.Deployed (siteEnv c revm site) (siteJournal site) token) :
    fetchErc20Balance c revm now token owner site =
      .ok (tokenBalance (siteEnv c revm site) (siteJournal site) token owner).toNat := by
  obtain ⟨result, hresult, hdata⟩ := read_answered reads fee_le hcall
    (.balanceOf token owner) htoken
  refine bind_eq_ok.mpr ⟨result, hresult, ?_⟩
  rw [hdata]
  exact decodeU256Be_u256Bytes _

theorem fetchErc20Allowance_eq {token owner : Address} (hcall : Callable c site owner)
    (htoken : ContractRead.Deployed (siteEnv c revm site) (siteJournal site) token) :
    fetchErc20Allowance c revm now token owner (siteEnv c revm site).factory site =
      .ok (factoryAllowance (siteEnv c revm site) (siteJournal site) token owner).toNat := by
  obtain ⟨result, hresult, hdata⟩ := read_answered reads fee_le hcall
    (.allowance token owner (siteEnv c revm site).factory) htoken
  refine bind_eq_ok.mpr ⟨result, hresult, ?_⟩
  rw [hdata]
  exact decodeU256Be_u256Bytes _

theorem tokenRequirements_eq {token owner : Address} (amount : Nat) (hcall : Callable c site owner)
    (htoken : ContractRead.Deployed (siteEnv c revm site) (siteJournal site) token) :
    tokenRequirements c revm now (siteEnv c revm site).factory token owner amount site =
      let balance := (tokenBalance (siteEnv c revm site) (siteJournal site) token owner).toNat
      let allowance := (factoryAllowance (siteEnv c revm site) (siteJournal site) token owner).toNat
      if balance ≤ u128Max then
        if allowance ≤ u128Max then
          .ok
            { factoryAddress := (siteEnv c revm site).factory.toList
              wrappedTokenAddress := some token.toList
              balance := balance
              allowance := allowance
              approveRequired := approvalRequiredForReadiness (tokenReadiness balance allowance amount)
              readiness := tokenReadiness balance allowance amount }
        else .error (.internal "erc20.allowance_out_of_range")
      else .error (.internal "erc20.balance_out_of_range") := by
  rw [tokenRequirements, fetchErc20Balance_eq reads fee_le hcall htoken,
    fetchErc20Allowance_eq reads fee_le hcall htoken]
  simp only [natToU128, ok_bind]
  split_ifs
  · rfl
  · rfl
  · rfl
  · rfl

end

-- the arguments a caller gives to the view for a burn it plans
def viewArgs (asset : Principal) (amount : ByteArr 32) (owner : Address) :
    GetUnwrapRequirementsArgs := ⟨asset, decode amount.toList, owner.toList⟩

def Agrees (view : Except ApiError GetUnwrapRequirementsOk)
    (out : InterpreterResult × Precompile.Context) : Prop :=
  ∃ ok, view = .ok ok ∧ precompileReadiness out = some ok.readiness

structure ViewFits (c : Crypto) (revm : QueryRevm) (site : CallSite T) (owner : Address)
    (intent : UnwrapIntent) : Prop where
  named : intent.assetId ≠ [4]
  amount : (burnAmount intent).toNat ≤ u128Max
  callable : Callable c site owner
  token : let env := siteEnv c revm site
    let j := siteJournal site
    let token := burnToken env j intent
    token ≠ zeroAddress →
      (tokenBalance env j token owner).toNat ≤ u128Max ∧
      (factoryAllowance env j token owner).toNat ≤ u128Max ∧
      (burnAmount intent ≤ tokenBalance env j token owner →
        burnAmount intent ≤ factoryAllowance env j token owner →
        burnAmount intent ≤ tokenSupply j token)

theorem burnReadiness_congr {env : Env} {j k : Journal} (h : k.storage = j.storage) (owner : Address)
    (intent : UnwrapIntent) : burnReadiness env k owner intent = burnReadiness env j owner intent := by
  obtain ⟨_, storage, _, _⟩ := k
  obtain ⟨_, storage', _, _⟩ := j
  obtain rfl : storage = storage' := h
  rfl

theorem readiness_eq_iff {env : Env} {j : Journal} {owner : Address} {intent : UnwrapIntent}
    (htoken : burnToken env j intent ≠ zeroAddress)
    (hallow : (factoryAllowance env j (burnToken env j intent) owner).toNat ≤ u128Max) :
    burnReadiness env j owner intent =
        tokenReadiness (tokenBalance env j (burnToken env j intent) owner).toNat
          (factoryAllowance env j (burnToken env j intent) owner).toNat (burnAmount intent).toNat ↔
      (burnAmount intent ≤ tokenBalance env j (burnToken env j intent) owner →
        burnAmount intent ≤ factoryAllowance env j (burnToken env j intent) owner →
        burnAmount intent ≤ tokenSupply j (burnToken env j intent)) := by
  -- an unlimited allowance does not fit in 128 bits
  have hlimited : factoryAllowance env j (burnToken env j intent) owner ≠ Precompile.u256Max := by
    intro hmax
    rw [hmax] at hallow
    exact absurd hallow (by decide)
  rw [burnReadiness, tokenReadiness, if_neg htoken]
  simp only [← BitVec.lt_def, hlimited, ne_eq, not_false_eq_true, true_and, ← BitVec.not_lt]
  split_ifs with hbalance hallowance hsupply
  · simp [hbalance]
  · simp [hallowance]
  · simp [hbalance, hallowance, hsupply]
  · simp [hsupply]

theorem length_parsed_asset {input : Bytes} {intent : UnwrapIntent}
    (h : parseInput input = .ok intent) : 1 ≤ intent.assetId.length := by
  rw [parseInput, Precompile.parseCompactInput] at h
  split_ifs at h with hlen hver
  obtain ⟨⟨assetId, rest⟩, hread, hrest⟩ := bind_eq_ok.mp h
  have hpos := (Precompile.readCompactPrincipal_ok hread).1
  dsimp only at hrest
  split at hrest
  · exact absurd hrest (by simp)
  · obtain ⟨⟨recipient, tail⟩, -, hend⟩ := bind_eq_ok.mp hrest
    dsimp only at hend
    split_ifs at hend
    obtain rfl := Except.ok.inj hend
    exact hpos

theorem toNat_burnAmount (intent : UnwrapIntent) :
    (burnAmount intent).toNat = decode intent.amount.toList := by
  have hlt : decode intent.amount.toList < 256 ^ intent.amount.toList.length := decode_lt _
  rw [intent.amount.toList_length] at hlt
  exact Nat.mod_eq_of_lt hlt

section

variable {site : UnwrapSite T} (reads : ServesReads c revm now site.toCallSite)
  (fee_le : site.node.chain.chainState.baseFee ≤ u64Max)
  (configured : site.wrapEvmConfig = site.node.runtimeConfig.wrapFactoryAddress.toList)

include reads fee_le configured

theorem view_callable {asset : Principal} {amount : ByteArr 32} {owner : Address}
    (named : asset.bytes ≠ [4]) (hpos : 1 ≤ asset.bytes.length)
    (hamount : decode amount.toList ≤ u128Max) (positive : decode amount.toList ≠ 0)
    (hcall : Callable c site.toCallSite owner) :
    getUnwrapRequirements c revm now (viewArgs asset amount owner) site =
      let env := siteEnv c revm site.toCallSite
      let token := loadFactoryTokenAddress env (siteJournal site.toCallSite)
        (computeAssetKey env asset.bytes)
      if token = zeroAddress then .ok (notDeployed env.factory)
      else tokenRequirements c revm now env.factory token owner (decode amount.toList)
        site.toCallSite := by
  have howner : validateEvmAddress owner.toList
      (.invalidArgument "arg.caller_evm_address_invalid") = .ok owner := dif_pos owner.toList_length
  have hfactory : validateEvmAddress site.wrapEvmConfig
      (.internal "config.wrap_factory_address_invalid") =
        .ok (siteEnv c revm site.toCallSite).factory := by
    rw [configured]
    exact dif_pos (List.Vector.toList_length _)
  have hfetch := fetchWrappedTokenAddress_eq reads fee_le hcall hpos asset.bounded
  have hnamed : validateNonAnonymousPrincipal asset (.invalidArgument "arg.asset_id_anonymous") =
      .ok () := if_neg named
  have hu128 : natToU128 (decode amount.toList) (.invalidArgument "arg.amount_out_of_range") =
      .ok (decode amount.toList) := if_pos hamount
  rw [getUnwrapRequirements]
  simp only [viewArgs, hnamed, howner, hu128, ok_bind]
  rw [if_neg positive, hfactory, ok_bind, hfetch, ok_bind]
  by_cases hzero : loadFactoryTokenAddress (siteEnv c revm site.toCallSite)
    (siteJournal site.toCallSite) (computeAssetKey (siteEnv c revm site.toCallSite) asset.bytes) =
      zeroAddress
  · rw [if_pos hzero, if_pos hzero]
    rfl
  · rw [if_neg hzero, if_neg hzero]

theorem fits_of_view {asset : Principal} {amount : ByteArr 32} {owner : Address}
    {ok : GetUnwrapRequirementsOk}
    (h : getUnwrapRequirements c revm now (viewArgs asset amount owner) site = .ok ok) :
    asset.bytes ≠ [4] ∧ decode amount.toList ≤ u128Max ∧ Callable c site.toCallSite owner := by
  have howner : validateEvmAddress owner.toList
      (.invalidArgument "arg.caller_evm_address_invalid") = .ok owner := dif_pos owner.toList_length
  rw [getUnwrapRequirements] at h
  obtain ⟨⟨⟩, hnamed, h⟩ := bind_eq_ok.mp h
  obtain ⟨sender, hsender, h⟩ := bind_eq_ok.mp h
  obtain rfl := Except.ok.inj (howner.symm.trans hsender)
  obtain ⟨u128, hu128, h⟩ := bind_eq_ok.mp h
  have hanonymous : asset.bytes ≠ [4] := by
    intro heq
    have herror : validateNonAnonymousPrincipal asset (.invalidArgument "arg.asset_id_anonymous") =
        .error (.invalidArgument "arg.asset_id_anonymous") := if_pos heq
    exact absurd (herror.symm.trans hnamed) (by simp)
  have hrange : decode amount.toList ≤ u128Max := by
    by_contra hlarge
    have herror : natToU128 (decode amount.toList) (.invalidArgument "arg.amount_out_of_range") =
        .error (.invalidArgument "arg.amount_out_of_range") := if_neg hlarge
    exact absurd (herror.symm.trans hu128) (by simp)
  refine ⟨hanonymous, hrange, ?_⟩
  by_contra hcall
  split_ifs at h
  obtain ⟨factory, hfactory, h⟩ := bind_eq_ok.mp h
  have hsame : factory = (siteEnv c revm site.toCallSite).factory := by
    rw [configured, validateEvmAddress, dif_pos (List.Vector.toList_length _)] at hfactory
    exact (Except.ok.inj hfactory).symm
  obtain ⟨token, hfetch, -⟩ := bind_eq_ok.mp h
  obtain ⟨result, hresult, -⟩ := bind_eq_ok.mp hfetch
  rw [hsame] at hresult
  obtain ⟨err, herr⟩ := read_refused reads fee_le hcall (.tokenAddress asset.bytes)
  exact absurd (herr.symm.trans hresult) (by simp)

theorem unwrap_requirements_iff (slots : SlotsApart (siteEnv c revm site.toCallSite))
    {inputs : CallInputs} {asset : Principal} {amount : ByteArr 32} {recipient : Bytes}
    (dynamic : inputs.isStatic = false)
    (parsed : parseInput inputs.input = .ok ⟨asset.bytes, amount, recipient⟩)
    (paid : unwrapGas inputs ⟨asset.bytes, amount, recipient⟩ ≤ inputs.gasLimit)
    (positive : decode amount.toList ≠ 0) {ctx : Precompile.Context}
    (state : ctx.journal.storage = (siteJournal site.toCallSite).storage) :
    Agrees (getUnwrapRequirements c revm now (viewArgs asset amount inputs.caller) site)
        (runWrapPrecompile (siteEnv c revm site.toCallSite) ctx inputs true) ↔
      ViewFits c revm site.toCallSite inputs.caller ⟨asset.bytes, amount, recipient⟩ := by
  have hpos := length_parsed_asset parsed
  have hamount := toNat_burnAmount ⟨asset.bytes, amount, recipient⟩
  have hreadiness := precompileReadiness_eq slots ctx dynamic parsed paid
  rw [burnReadiness_congr state] at hreadiness
  rw [Agrees, hreadiness]
  constructor
  · rintro ⟨ok, hview, hsame⟩
    obtain ⟨hnamed, hfits, hcall⟩ := fits_of_view reads fee_le configured hview
    refine ⟨hnamed, hamount.le.trans hfits, hcall, ?_⟩
    intro env j token htoken
    rw [view_callable reads fee_le configured hnamed hpos hfits positive hcall] at hview
    change (if token = zeroAddress then .ok (notDeployed env.factory)
      else tokenRequirements c revm now env.factory token inputs.caller (decode amount.toList)
        site.toCallSite) = .ok ok at hview
    rw [if_neg htoken, tokenRequirements_eq reads fee_le _ hcall ⟨htoken, _, rfl⟩] at hview
    dsimp only at hview
    split_ifs at hview with hbalance hallow
    obtain rfl := Except.ok.inj hview
    refine ⟨hbalance, hallow, (readiness_eq_iff htoken hallow).mp ?_⟩
    rw [hamount]
    exact Option.some.inj hsame
  · intro h
    have hfits := h.amount
    rw [hamount] at hfits
    rw [view_callable reads fee_le configured h.named hpos hfits positive h.callable]
    dsimp only
    by_cases htoken : burnToken (siteEnv c revm site.toCallSite) (siteJournal site.toCallSite)
      ⟨asset.bytes, amount, recipient⟩ = zeroAddress
    · refine ⟨notDeployed (siteEnv c revm site.toCallSite).factory, if_pos htoken, ?_⟩
      rw [burnReadiness]
      exact congrArg some (if_pos htoken)
    · obtain ⟨hbalance, hallow, hsupply⟩ := h.token htoken
      have hsame := (readiness_eq_iff htoken hallow).mpr hsupply
      rw [hamount] at hsame
      refine ⟨_, (if_neg htoken).trans ((tokenRequirements_eq reads fee_le _ h.callable
        ⟨htoken, _, rfl⟩).trans ((if_pos hbalance).trans (if_pos hallow))), ?_⟩
      exact congrArg some hsame

end

section

variable (c)

def addressOfBytes (bytes : Bytes) : Address :=
  ⟨(bytes ++ List.replicate 20 0).take 20, by simp⟩

theorem addressOfBytes_toList (a : Address) : addressOfBytes a.toList = a := by
  apply Subtype.ext
  exact List.take_left' a.toList_length

def readOf (dest : Address) (data : Bytes) : ContractRead :=
  if data.length = 36 then .balanceOf dest (addressOfBytes (data.drop 16))
  else if data.length = 68 then
    .allowance dest (addressOfBytes ((data.drop 16).take 20)) (addressOfBytes (data.drop 48))
  else .tokenAddress ((data.drop 68).take (decode ((data.drop 36).take 32)))

theorem drop_part {x y : Bytes} {n : Nat} (h : x.length = n) (k : Nat) :
    (x ++ y).drop (n + k) = y.drop k := by
  rw [← h]
  exact List.drop_length_add_append k

theorem length_leftPadded (a : Address) : (leftPadded a).length = 32 := by
  rw [leftPadded, List.length_append, List.length_replicate, a.toList_length]

theorem drop_leftPadded (a : Address) (rest : Bytes) :
    (leftPadded a ++ rest).drop 12 = a.toList ++ rest := by
  rw [leftPadded, List.append_assoc]
  exact List.drop_left' (List.length_replicate ..)

theorem readOf_data {env : Env} {j : Journal} {read : ContractRead} (h : read.Served env j)
    (factory : Address) : readOf (read.dest factory) (read.data c) = read := by
  have hselector := length_selector (c := c)
  cases read with
  | tokenAddress assetId =>
      obtain ⟨hpos, hle⟩ := h
      have hnum : decode (encode 32 assetId.length) = assetId.length :=
        decode_encode_of_lt (hle.trans_lt (by decide))
      have hwords : (assetId.length + 31) / 32 * 32 = 32 := by
        have hsmall : assetId.length ≤ 29 := hle
        omega
      have hsize : ((ContractRead.tokenAddress assetId).data c).length = 100 := by
        have hsmall : assetId.length ≤ 29 := hle
        simp only [ContractRead.data, encodeFactoryGetTokenAddressCallData, List.length_append,
          hselector, length_encode, List.length_replicate, hwords]
        omega
      have hlen : (((ContractRead.tokenAddress assetId).data c).drop 36).take 32 =
          encode 32 assetId.length := by
        have hskip : ((ContractRead.tokenAddress assetId).data c).drop (4 + 32) =
            encode 32 assetId.length ++ (assetId ++
              List.replicate ((assetId.length + 31) / 32 * 32 - assetId.length) 0) :=
          (drop_part (hselector "getTokenAddress(bytes)") 32).trans
            (List.drop_left' (length_encode 32 32))
        exact (congrArg (List.take 32) hskip).trans (List.take_left' (length_encode ..))
      have hid : (((ContractRead.tokenAddress assetId).data c).drop 68).take assetId.length =
          assetId := by
        have hskip : ((ContractRead.tokenAddress assetId).data c).drop (4 + (32 + 32)) = assetId ++
            List.replicate ((assetId.length + 31) / 32 * 32 - assetId.length) 0 :=
          ((drop_part (hselector "getTokenAddress(bytes)") (32 + 32)).trans
            (drop_part (length_encode 32 32) 32)).trans
              (List.drop_left' (length_encode 32 assetId.length))
        exact (congrArg (List.take assetId.length) hskip).trans (List.take_left' rfl)
      rw [readOf, if_neg (by omega), if_neg (by omega), hlen, hnum, hid]
  | balanceOf token owner =>
      have hdata : ((ContractRead.balanceOf token owner).data c).drop 16 = owner.toList := by
        have hskip := drop_leftPadded owner []
        simp only [List.append_nil] at hskip
        exact (drop_part (hselector "balanceOf(address)") 12).trans hskip
      have hsize : ((ContractRead.balanceOf token owner).data c).length = 36 := by
        simp only [ContractRead.data, encodeBalanceOfCallData, List.length_append, hselector,
          length_leftPadded]
      rw [readOf, if_pos hsize, hdata, addressOfBytes_toList]
      rfl
  | allowance token owner spender =>
      have howner : (((ContractRead.allowance token owner spender).data c).drop 16).take 20 =
          owner.toList := by
        have hskip := (drop_part (hselector "allowance(address,address)") 12).trans
          (drop_leftPadded owner (leftPadded spender))
        exact (congrArg (List.take 20) hskip).trans (List.take_left' owner.toList_length)
      have hspender : ((ContractRead.allowance token owner spender).data c).drop 48 =
          spender.toList := by
        have hskip := drop_leftPadded spender []
        simp only [List.append_nil] at hskip
        exact ((drop_part (hselector "allowance(address,address)") 44).trans
          (drop_part (length_leftPadded owner) 12)).trans hskip
      have hsize : ((ContractRead.allowance token owner spender).data c).length = 68 := by
        simp only [ContractRead.data, encodeAllowanceCallData, List.length_append, hselector,
          length_leftPadded]
      rw [readOf, if_neg (by omega), if_pos hsize, howner, hspender, addressOfBytes_toList,
        addressOfBytes_toList]
      rfl

instance (site : CallSite T) (sender : Address) : Decidable (Callable c site sender) :=
  decidable_of_iff (readGasLimit ≤ site.node.chain.chainState.blockGasLimit ∧
      readGasLimit * site.node.chain.chainState.baseFee ≤ (senderInfo c site sender).balance ∧
      (senderCode c site sender = [] ∨ isEip7702 (senderCode c site sender)))
    ⟨fun ⟨gas, funds, noCode⟩ => ⟨gas, funds, noCode⟩,
      fun ⟨gas, funds, noCode⟩ => ⟨gas, funds, noCode⟩⟩

def siteContracts (site : CallSite T) : Env where
  keccak256 := c.keccak256
  factory := site.node.runtimeConfig.wrapFactoryAddress
  access := .wrapSideEffectsOnly
  otherPrecompile := fun _ _ => none

-- an interpreter that runs the getters on the storage of one site, and nothing else
def contractRevm (site : CallSite T) : QueryRevm where
  inspectTx := fun _ q _ tx _ _ =>
    if Callable c site tx.caller then
      { result := .ok (.success 30000 (.call ((readOf (tx.kind.getD zeroAddress) tx.data).answer
          (siteContracts c site) (siteJournal site))) [], .empty)
        tripped := false
        context := q
        loads := [] }
    else ⟨.error .transaction, false, q, []⟩
  inner := fun _ _ => none

theorem servesReads_contractRevm (site : CallSite T) :
    ServesReads c (contractRevm c site) now site where
  answered := by
    intro sender read hserved hcall
    have hread := readOf_data c hserved site.node.runtimeConfig.wrapFactoryAddress
    have hrun : readRun c (contractRevm c site) now
        (readCall (read.dest site.node.runtimeConfig.wrapFactoryAddress) sender (read.data c)) site =
          { result := .ok (.success 30000 (.call ((readOf
              (read.dest site.node.runtimeConfig.wrapFactoryAddress) (read.data c)).answer
              (siteContracts c site) (siteJournal site))) [], .empty)
            tripped := false
            context := (IcpQueryContext.enter .disabled).enterDetection
            loads := [] } := if_pos hcall
    rw [hread] at hrun
    exact ⟨30000, .empty, congrArg InspectRun.result hrun, congrArg InspectRun.tripped hrun,
      congrArg (fun run => run.context.pending) hrun⟩
  refused := by
    intro sender read hcall
    exact ⟨.transaction, congrArg InspectRun.result (if_neg hcall)⟩

end

def unwrapCrypto : Crypto := { sampleCrypto with keccak256 := Precompile.unwrapEnv.keccak256 }

def unwrapDb (allowance : Nat) : RevmStableDb where
  accounts := OrdMap.empty.insert Precompile.unwrapUser ⟨0, 10 ^ 18, zeroArr 32⟩
  storage := (((OrdMap.empty.insert ⟨Precompile.unwrapFactory, Precompile.assetTokenSlot⟩
      (decode Precompile.unwrapToken.toList)).insert
      ⟨Precompile.unwrapToken, Precompile.userBalanceSlot⟩ 100).insert
      ⟨Precompile.unwrapToken, Precompile.userAllowanceSlot⟩ allowance).insert
      ⟨Precompile.unwrapToken, 2⟩ 100
  codes := .empty

def unwrapSite (allowance : Nat) : UnwrapSite Unit where
  node := .init ⟨unwrapDb allowance, ()⟩ ⟨true, samplePrincipal, Precompile.unwrapFactory⟩
  updateAllowlist := []
  wrapEvmConfig := Precompile.unwrapFactory.toList

def unwrapRevm (allowance : Nat) : QueryRevm :=
  contractRevm unwrapCrypto (unwrapSite allowance).toCallSite

def unwrapInputs : CallInputs where
  input := Precompile.unwrapInput
  gasLimit := 1000000
  bytecodeAddress := Precompile.wrapPrecompileAddress
  targetAddress := Precompile.wrapPrecompileAddress
  caller := Precompile.unwrapUser
  value := .transfer 0
  isStatic := false

def unwrapAsset : Principal := ⟨[9], by decide⟩

def unwrapView (allowance : Nat) : Except ApiError GetUnwrapRequirementsOk :=
  getUnwrapRequirements unwrapCrypto (unwrapRevm allowance) 0
    (viewArgs unwrapAsset (Precompile.amountBytes 100) Precompile.unwrapUser) (unwrapSite allowance)

def unwrapRun (allowance : Nat) : InterpreterResult × Precompile.Context :=
  runWrapPrecompile (siteEnv unwrapCrypto (unwrapRevm allowance) (unwrapSite allowance).toCallSite)
    ⟨siteJournal (unwrapSite allowance).toCallSite, none⟩ unwrapInputs true

theorem exact_approval_agrees :
    Agrees (unwrapView 100) (unwrapRun 100) ↔
      ViewFits unwrapCrypto (unwrapRevm 100) (unwrapSite 100).toCallSite Precompile.unwrapUser
        ⟨[9], Precompile.amountBytes 100, [8]⟩ := by
  have reads : ServesReads unwrapCrypto (unwrapRevm 100) 0 (unwrapSite 100).toCallSite :=
    servesReads_contractRevm unwrapCrypto _
  have configured : (unwrapSite 100).wrapEvmConfig =
      (unwrapSite 100).node.runtimeConfig.wrapFactoryAddress.toList := rfl
  have slots : SlotsApart (siteEnv unwrapCrypto (unwrapRevm 100) (unwrapSite 100).toCallSite) :=
    Precompile.slotsApart_unwrapEnv
  have parsed : parseInput unwrapInputs.input =
      .ok ⟨unwrapAsset.bytes, Precompile.amountBytes 100, [8]⟩ := by decide +kernel
  exact unwrap_requirements_iff reads (by decide +kernel) configured slots rfl parsed
    (by decide +kernel) (by decide +kernel) rfl

theorem unlimited_approval_refused :
    ServesReads unwrapCrypto (unwrapRevm (2 ^ 256 - 1)) 0 (unwrapSite (2 ^ 256 - 1)).toCallSite ∧
      precompileReadiness (unwrapRun (2 ^ 256 - 1)) = some .ready ∧
      ¬ Agrees (unwrapView (2 ^ 256 - 1)) (unwrapRun (2 ^ 256 - 1)) := by
  refine ⟨servesReads_contractRevm unwrapCrypto _, by decide +kernel, ?_⟩
  rintro ⟨ok, hview, -⟩
  have herror : (unwrapView (2 ^ 256 - 1)).toOption = none := by decide +kernel
  rw [hview] at herror
  exact absurd herror (by simp [Except.toOption])

end Kasane.Rpc
