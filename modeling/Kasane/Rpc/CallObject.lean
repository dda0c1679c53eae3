import Kasane.Exec.QueryRun
import Kasane.Node.Epoch

namespace Kasane.Rpc

open BigEndian Codec Word Chain Exec Node
open Precompile (IcpQueryRequest IcpQueryReply IcpQueryContext IcpQueryMode)

structure CallObjectInput where
  dest : Option Address
  sender : Address
  gasLimit : Option UInt64
  gasPrice : Option (BitVec 128)
  nonce : Option UInt64
  maxFeePerGas : Option (BitVec 128)
  maxPriorityFeePerGas : Option (BitVec 128)
  chainId : Option UInt64
  txType : Option UInt8
  accessList : List (Address × List (ByteArr 32))
  value : ByteArr 32
  data : Bytes

structure CallObjectResult where
  status : UInt8
  gasUsed : UInt64
  returnData : Bytes
  revertData : Option Bytes
deriving DecidableEq

inductive CallError where
  | txTooLarge
  | execFailed (e : QueryExecError)

structure QueryCallSnapshot where
  head : Head
  baseFee : Nat
  blockGasLimit : Nat
  queryInstructionSoftLimit : Nat
  allowlistFingerprint : ByteArr 32
  runtimeConfigFingerprint : ByteArr 32
  evmStateEpoch : Nat
deriving DecidableEq

-- a node with the one allowlist that its own state does not carry
structure CallSite (T : Type) where
  node : NodeState T
  updateAllowlist : List Bytes

variable {T : Type} (c : Crypto)

def allowlistBytes (allowlist : OrdMap AllowKey UInt8) : Bytes :=
  allowlist.entries.flatMap (fun e =>
    u32Bytes (UInt32.ofNat e.1.bytes.length) ++ (e.1.bytes ++ [e.2]))

def runtimeConfigBytes (config : RuntimeConfig) : Bytes :=
  (if config.configured then 1 else 0) :: UInt8.ofNat config.wrapCanister.bytes.length ::
    (config.wrapCanister.bytes ++
      (List.replicate (Chain.maxPrincipalLen - config.wrapCanister.bytes.length) 0 ++
        (0 :: (config.wrapFactoryAddress.toList ++ List.replicate 12 0))))

def QueryCallSnapshot.capture (s : NodeState T) : QueryCallSnapshot where
  head := s.chain.head
  baseFee := s.chain.chainState.baseFee
  blockGasLimit := s.chain.chainState.blockGasLimit
  queryInstructionSoftLimit := s.queryInstructionSoftLimit
  allowlistFingerprint := c.keccak256 (allowlistBytes s.queryPrecompileAllowlist)
  runtimeConfigFingerprint := c.keccak256 (runtimeConfigBytes s.runtimeConfig)
  evmStateEpoch := s.evmStateEpoch

def accessListBytes (accessList : List (Address × List (ByteArr 32))) : Bytes :=
  u32Bytes ((u32TryFrom accessList.length).getD (UInt32.ofNat u32Max)) ++
    accessList.flatMap (fun item => item.1.toList ++
      (u32Bytes ((u32TryFrom item.2.length).getD (UInt32.ofNat u32Max)) ++ arrayBytes item.2))

def callObjectDomain : Bytes := "ic-evm:call-object:v1".toUTF8.toList

def callObjectTxId (input : CallObjectInput) : TxId :=
  c.keccak256 (callObjectDomain ++
    ((match input.dest with
      | some dest => 1 :: dest.toList
      | none => 0 :: List.replicate 20 0) ++
    (input.sender.toList ++ (u64Bytes (input.gasLimit.getD 0) ++
    (u128Bytes (input.gasPrice.getD 0) ++ (u64Bytes (input.nonce.getD 0) ++
    (u128Bytes (input.maxFeePerGas.getD 0) ++ (u128Bytes (input.maxPriorityFeePerGas.getD 0) ++
    (u64Bytes (input.chainId.getD 0) ++ ([input.txType.getD 0] ++
    (accessListBytes input.accessList ++ (input.value.toList ++
    (u32Bytes ((u32TryFrom input.data.length).getD (UInt32.ofNat u32Max)) ++ input.data)))))))))))))

def callTxType (input : CallObjectInput) : Nat :=
  match input.txType with
  | some txType => txType.toNat
  | none => if input.maxFeePerGas.isSome ∨ input.maxPriorityFeePerGas.isSome then 2 else 0

def callFees (input : CallObjectInput) (baseFee : Nat) : Nat × Option Nat :=
  if callTxType input = 2 then
    ((input.maxFeePerGas.map BitVec.toNat).getD baseFee,
      some ((input.maxPriorityFeePerGas.map BitVec.toNat).getD 0))
  else ((input.gasPrice.map BitVec.toNat).getD baseFee, none)

def callTxEnv (input : CallObjectInput) (baseFee blockGasLimit accountNonce : Nat) : TxEnv where
  caller := input.sender
  gasLimit := (input.gasLimit.map UInt64.toNat).getD blockGasLimit
  gasPrice := (callFees input baseFee).1
  kind := input.dest
  value := decode input.value.toList
  data := input.data
  nonce := (input.nonce.map UInt64.toNat).getD accountNonce
  chainId := some ((input.chainId.map UInt64.toNat).getD Chain.chainId)
  accessList := input.accessList
  gasPriorityFee := (callFees input baseFee).2
  txType := callTxType input

-- what a call fixes before its first pass
structure CallPlan where
  txId : TxId
  tx : TxEnv
  ctx : BlockExecContext
  instructionSoftLimit : Option Nat

def planCall (now : Nat) (input : CallObjectInput) (s : NodeState T) : CallPlan where
  txId := callObjectTxId c input
  tx := callTxEnv input s.chain.chainState.baseFee s.chain.chainState.blockGasLimit
    (((s.chain.world.db.accounts.get input.sender).map AccountVal.nonce).getD 0)
  ctx :=
    { blockNumber := saturatingAdd u64Max s.chain.head.number 1
      timestamp := max (saturatingAdd u64Max s.chain.head.timestamp 1) now
      baseFee := s.chain.chainState.baseFee
      blockGasLimit := s.chain.chainState.blockGasLimit }
  instructionSoftLimit := some s.queryInstructionSoftLimit

def storedBlockHash {W : Type} (s : StableState W) (number : Nat) : ByteArr 32 :=
  match s.blocks.get number with
  | none => zeroArr 32
  | some ptr =>
      match s.blobStore.read ptr with
      | .error _ => zeroArr 32
      | .ok bytes => (BlockData.fromBytes bytes).blockHash

def CallSite.config (site : CallSite T) : QueryConfig where
  access := .icpQueryOnly
  factory := site.node.runtimeConfig.wrapFactoryAddress
  updateAllowlist := site.updateAllowlist

variable (revm : QueryRevm)

def runPass (site : CallSite T) (plan : CallPlan) (cache : QueryCache) (mode : IcpQueryMode) :
    Except QueryExecError Receipt.ReceiptLike × List Load :=
  executeQueryOn c revm site.config (storedBlockHash site.node.chain) cache (.enter mode) plan.txId
    plan.tx plan.ctx plan.instructionSoftLimit

def finishCall : Except QueryExecError Receipt.ReceiptLike → Except CallError CallObjectResult
  | .error e => .error (.execFailed e)
  | .ok receipt => .ok
      { status := receipt.status
        gasUsed := receipt.gasUsed
        returnData := receipt.returnData
        revertData := if receipt.status = 0 ∧ receipt.returnData ≠ [] then some receipt.returnData
          else none }

def toReply : Except String Bytes → IcpQueryReply
  | .ok bytes => .ok bytes
  | .error code => .err code

-- one execution of a call object on one state, with at most one reply in hand
def executeCallObject (now : Nat) (input : CallObjectInput) (mode : IcpQueryMode)
    (site : CallSite T) : Except CallError CallObjectResult :=
  if input.data.length > maxTxSize then .error .txTooLarge
  else
    finishCall (runPass c revm site (planCall c now input site.node)
      (.new c site.node.chain.world.db) mode).1

def firstPass (now : Nat) (input : CallObjectInput) (site : CallSite T) :
    Except QueryExecError Receipt.ReceiptLike × List Load :=
  runPass c revm site (planCall c now input site.node) (.new c site.node.chain.world.db) .disabled

def secondPass (now : Nat) (input : CallObjectInput) (site site' : CallSite T) (loads : List Load)
    (request : IcpQueryRequest) (reply : IcpQueryReply) : Except QueryExecError Receipt.ReceiptLike :=
  if QueryCallSnapshot.capture c site'.node ≠ QueryCallSnapshot.capture c site.node then
    .error .snapshotChanged
  else
    let cache := loads.foldl (QueryCache.load c (storedBlockHash site.node.chain))
      (.new c site.node.chain.world.db)
    (runPass c revm site' (planCall c now input site.node) (cache.onDb site'.node.chain.world.db)
      (.reply request reply)).1

-- the call runs at one site, and if it has to ask it goes on at another once the reply is there
def ethCallObjectAsync (now : Nat) (input : CallObjectInput)
    (resolver : IcpQueryRequest → Except String Bytes) (site site' : CallSite T) :
    Except CallError CallObjectResult :=
  if input.data.length > maxTxSize then .error .txTooLarge
  else
    match firstPass c revm now input site with
    | (.error (.externalQuery request), loads) =>
        finishCall (secondPass c revm now input site site' loads request (toReply (resolver request)))
    | (r, _) => finishCall r

end Kasane.Rpc
