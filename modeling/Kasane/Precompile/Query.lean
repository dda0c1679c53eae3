import Kasane.Export.InternalTrace
import Kasane.Precompile.Run

namespace Kasane.Precompile

open BigEndian Codec Receipt Word
open Export (isUtf8)

structure IcpQueryRequest where
  target : Bytes
  method : Bytes
  arg : Bytes
deriving DecidableEq

inductive IcpQueryReply where
  | ok (bytes : Bytes)
  | err (code : String)
deriving DecidableEq

inductive IcpQueryMode where
  | disabled
  | detect
  | reply (expected : IcpQueryRequest) (reply : IcpQueryReply)
deriving DecidableEq

structure IcpQueryContext where
  mode : IcpQueryMode
  calls : Nat
  pending : Option IcpQueryRequest
deriving DecidableEq

def IcpQueryContext.enter (mode : IcpQueryMode) : IcpQueryContext := ⟨mode, 0, none⟩

-- detection is entered on top of whatever surrounds the run, and a reply stays in force
def IcpQueryContext.enterDetection (q : IcpQueryContext) : IcpQueryContext :=
  if q.mode = .disabled then .enter .detect else q

def PrecompileAccess.wrapSideEffectsOnly : PrecompileAccess := ⟨true, false, true⟩

def PrecompileAccess.icpQueryOnly : PrecompileAccess := ⟨false, true, false⟩

def maxIcpQueryArgLen : Nat := maxIcpUpdateArgLen

def compactIcpPrecompileFormatVersion : UInt8 := 1

def icpQueryKindQuery : UInt8 := 0

def icpPrecompileKindUpdate : UInt8 := 1

def icpQueryBaseGas : Nat := 50000

def icpQueryInputByteGas : Nat := 16

def icpQueryReplyByteGas : Nat := 8

def icpUpdateBaseGas : Nat := 80000

def icpUpdateInputByteGas : Nat := 16

def icpUpdateLogByteGas : Nat := 8

def orError {α : Type} (code : String) : Option α → Except String α
  | some x => .ok x
  | none => .error code

def readQueryPrincipal (family : String) (data : Bytes) : Except String (Bytes × Bytes) := do
  let (len, data) ← orError (family ++ ".arg.abi_invalid") (readU8 data)
  if isValidPrincipalBytes len.toNat = false then .error (family ++ ".target_invalid")
  else orError (family ++ ".arg.abi_invalid") (readExact len.toNat data)

def readMethod (family : String) (accepts : Bytes → Bool) (data : Bytes) :
    Except String (Bytes × Bytes) := do
  let (len, data) ← orError (family ++ ".arg.abi_invalid") (readU8 data)
  if len.toNat = 0 ∨ len.toNat > maxQueryMethodLen then .error (family ++ ".method_invalid")
  else
    let (method, data) ← orError (family ++ ".method_invalid") (readExact len.toNat data)
    if accepts method = false then .error (family ++ ".method_invalid") else .ok (method, data)

def readArg (family : String) (maxLen : Nat) (data : Bytes) : Except String Bytes := do
  let (len, data) ← orError (family ++ ".arg.abi_invalid") (readU32 data)
  if len.toNat > maxLen then .error (family ++ ".arg.too_large")
  else
    let (arg, data) ← orError (family ++ ".arg.abi_invalid") (readExact len.toNat data)
    if data ≠ [] then .error (family ++ ".arg.abi_invalid") else .ok arg

def parseIcpQueryInput (input : Bytes) : Except String IcpQueryRequest :=
  if input.length < 8 then .error "ic_query.arg.abi_invalid"
  else do
    let (version, data) ← orError "ic_query.arg.abi_invalid" (readU8 input)
    if version ≠ compactIcpPrecompileFormatVersion then .error "ic_query.arg.version_invalid"
    else
      let (kind, data) ← orError "ic_query.arg.abi_invalid" (readU8 data)
      if kind = icpPrecompileKindUpdate then .error "ic_query.update_unimplemented"
      else if kind ≠ icpQueryKindQuery then .error "ic_query.kind_invalid"
      else
        let (target, data) ← readQueryPrincipal "ic_query" data
        let (method, data) ← readMethod "ic_query" isUtf8 data
        let arg ← readArg "ic_query" maxIcpQueryArgLen data
        .ok ⟨target, method, arg⟩

def parseIcpUpdateIntentInput (input : Bytes) : Except String IcpUpdateIntent :=
  if input.length < 8 then .error "ic_update.arg.abi_invalid"
  else do
    let (version, data) ← orError "ic_update.arg.abi_invalid" (readU8 input)
    if version ≠ compactIcpPrecompileFormatVersion then .error "ic_update.arg.version_invalid"
    else
      let (kind, data) ← orError "ic_update.arg.abi_invalid" (readU8 data)
      if kind ≠ icpPrecompileKindUpdate then .error "ic_update.kind_invalid"
      else
        let (target, data) ← readQueryPrincipal "ic_update" data
        let (method, data) ← readMethod "ic_update" isAscii data
        let arg ← readArg "ic_update" maxIcpUpdateArgLen data
        .ok ⟨target, method, arg⟩

def resolveIcpQueryReply (q : IcpQueryContext) (request : IcpQueryRequest) :
    Except String IcpQueryReply × IcpQueryContext :=
  if q.calls ≠ 0 then (.error "ic_query.call_limit", q)
  else
    let q := { q with calls := q.calls + 1 }
    match q.mode with
    | .disabled => (.error "ic_query.async_context_required", q)
    | .detect => (.error "ic_query.pending", { q with pending := some request })
    | .reply expected reply =>
        if request ≠ expected then (.error "ic_query.request_mismatch", q) else (.ok reply, q)

def icpQueryReturn (inputLen : Nat) (output : Bytes) (gasLimit : Nat) : InterpreterResult :=
  let estimatedGas := saturatingAdd u64Max
    (saturatingAdd u64Max icpQueryBaseGas (saturatingMul u64Max icpQueryInputByteGas inputLen))
    (saturatingMul u64Max icpQueryReplyByteGas output.length)
  match (Gas.new gasLimit).recordCost estimatedGas with
  | some gas => ⟨.return_, gas, output⟩
  | none => ⟨.precompileOOG, .new gasLimit, []⟩

def runIcpQueryPrecompile (q : IcpQueryContext) (ctx : Context) (inputs : CallInputs)
    (allowExternal : Bool) : (InterpreterResult × Context) × IcpQueryContext :=
  if allowExternal = false then
    (precompileFail ctx inputs.gasLimit "ic_query.precompile.query_disallowed", q)
  else if inputs.callValue ≠ 0 then
    (precompileFail ctx inputs.gasLimit "ic_query.value_disallowed", q)
  else
    match parseIcpQueryInput inputs.input with
    | .error code => (precompileFail ctx inputs.gasLimit code, q)
    | .ok request =>
        match resolveIcpQueryReply q request with
        | (.error code, q) => (precompileFail ctx inputs.gasLimit code, q)
        | (.ok (.ok bytes), q) => ((icpQueryReturn inputs.input.length bytes inputs.gasLimit, ctx), q)
        | (.ok (.err code), q) => (precompileFail ctx inputs.gasLimit code, q)

def encodeIcpUpdateIntentLogData (intent : IcpUpdateIntent) : Bytes :=
  UInt8.ofNat intent.target.length :: (intent.target ++ (UInt8.ofNat intent.method.length ::
    (intent.method ++ (u32Bytes (UInt32.ofNat intent.arg.length) ++ intent.arg))))

def precompileAllowKey (target method : Bytes) : Bytes :=
  UInt8.ofNat target.length :: (target ++ method)

def icpUpdateIntentLog (keccak256 : Bytes → ByteArr 32) (intent : IcpUpdateIntent) : LogEntry where
  address := icpUpdateIntentPrecompileAddress
  topics := [keccak256 icpUpdateIntentEventSignature]
  data := encodeIcpUpdateIntentLogData intent

def runIcpUpdateIntentPrecompile (env : Env) (ctx : Context) (inputs : CallInputs)
    (allowExternal : Bool) (updateAllowlist : List Bytes) : InterpreterResult × Context :=
  if allowExternal = false then
    precompileFail ctx inputs.gasLimit "ic_update.precompile.external_disallowed"
  else if inputs.isStatic then
    precompileFail ctx inputs.gasLimit "ic_update.static_disallowed"
  else if inputs.callValue ≠ 0 then
    precompileFail ctx inputs.gasLimit "ic_update.value_disallowed"
  else
    match parseIcpUpdateIntentInput inputs.input with
    | .error code => precompileFail ctx inputs.gasLimit code
    | .ok intent =>
        if precompileAllowKey intent.target intent.method ∉ updateAllowlist then
          precompileFail ctx inputs.gasLimit "ic_update.allowlist_miss"
        else
          let estimatedGas := saturatingAdd u64Max
            (saturatingAdd u64Max icpUpdateBaseGas
              (saturatingMul u64Max icpUpdateInputByteGas inputs.input.length))
            (saturatingMul u64Max icpUpdateLogByteGas (encodeIcpUpdateIntentLogData intent).length)
          (chargeReturn inputs.gasLimit estimatedGas,
            ctx.log (icpUpdateIntentLog env.keccak256 intent))

def updateIntentProvider (env : Env) (updateAllowlist : List Bytes) : Env :=
  { env with
    otherPrecompile := fun inputs ctx =>
      if inputs.bytecodeAddress = icpUpdateIntentPrecompileAddress then
        some (runIcpUpdateIntentPrecompile env ctx inputs env.access.icpUpdateIntent updateAllowlist)
      else env.otherPrecompile inputs ctx }

-- every precompile of the chain, with the query context that a run threads through them
def kasaneProviderRun (env : Env) (updateAllowlist : List Bytes) (elapsedInstruction : Nat)
    (q : IcpQueryContext) (ctx : Context) (inputs : CallInputs) :
    Option (InterpreterResult × Context) × IcpQueryContext :=
  if inputs.bytecodeAddress = icpQueryPrecompileAddress then
    match runIcpQueryPrecompile q ctx inputs env.access.icpQuery with
    | ((out, ctx), q) =>
        (some (chargeExtraGas out inputs.gasLimit
          (extraGasForPrecompile inputs.bytecodeAddress elapsedInstruction), ctx), q)
  else (providerRun (updateIntentProvider env updateAllowlist) elapsedInstruction ctx inputs, q)

-- under query access the precompiles that would read the factory, the journal or the update
-- allowlist refuse before they do
theorem kasaneProviderRun_query {env env' : Env} (access : env.access = .icpQueryOnly)
    (access' : env'.access = .icpQueryOnly) (inner : env.otherPrecompile = env'.otherPrecompile)
    (updateAllowlist updateAllowlist' : List Bytes) :
    kasaneProviderRun env updateAllowlist = kasaneProviderRun env' updateAllowlist' := by
  funext elapsed q ctx inputs
  simp only [kasaneProviderRun, access, access', providerRun, updateIntentProvider, inner,
    PrecompileAccess.icpQueryOnly, runWrapPrecompile, runNativeWithdrawPrecompile,
    runIcpUpdateIntentPrecompile, if_true]

end Kasane.Precompile
