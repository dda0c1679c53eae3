import Kasane.Node.IncludedOnce
import Kasane.Rpc.CallObject
import Mathlib.Data.Set.Function

namespace Kasane.Rpc

open BigEndian Codec Word Chain Exec Node
open Precompile (IcpQueryRequest IcpQueryReply IcpQueryContext IcpQueryMode)

variable {T : Type} {c : Crypto}

-- all that a call object execution reads of a node and its store
structure QueryState where
  db : RevmStableDb
  head : Head
  baseFee : Nat
  blockGasLimit : Nat
  queryInstructionSoftLimit : Nat
  allowlist : OrdMap AllowKey UInt8
  runtimeConfig : RuntimeConfig

def queryState (s : NodeState T) : QueryState :=
  ⟨s.chain.world.db, s.chain.head, s.chain.chainState.baseFee, s.chain.chainState.blockGasLimit,
    s.queryInstructionSoftLimit, s.queryPrecompileAllowlist, s.runtimeConfig⟩

def KeysFit (allowlist : OrdMap AllowKey UInt8) : Prop :=
  ∀ e ∈ allowlist.entries, e.1.bytes.length < 2 ^ 32

def entryBytes (e : AllowKey × UInt8) : Bytes :=
  u32Bytes (UInt32.ofNat e.1.bytes.length) ++ (e.1.bytes ++ [e.2])

theorem entryBytes_append {e f : AllowKey × UInt8} {xs ys : Bytes}
    (he : e.1.bytes.length < 2 ^ 32) (hf : f.1.bytes.length < 2 ^ 32)
    (h : entryBytes e ++ xs = entryBytes f ++ ys) : e = f ∧ xs = ys := by
  obtain ⟨⟨key⟩, value⟩ := e
  obtain ⟨⟨key'⟩, value'⟩ := f
  simp only [entryBytes, List.append_assoc] at h
  have hread := congrArg readU32 h
  rw [readU32_append, readU32_append] at hread
  obtain ⟨hlen, hrest⟩ := Prod.mk.inj (Option.some.inj hread)
  have hkey : (UInt32.ofNat key.length).toNat = key.length := UInt32.toNat_ofNat_of_lt he
  have hkey' : (UInt32.ofNat key'.length).toNat = key'.length := UInt32.toNat_ofNat_of_lt hf
  have hsame : key.length = key'.length := by
    rw [← hkey, ← hkey']
    exact congrArg UInt32.toNat hlen
  obtain ⟨rfl, htail⟩ := List.append_inj hrest hsame
  obtain ⟨hvalue, rfl⟩ := List.append_inj htail rfl
  obtain rfl := List.singleton_inj.mp hvalue
  exact ⟨rfl, rfl⟩

theorem allowlistBytes_inj {m m' : OrdMap AllowKey UInt8} (hm : KeysFit m) (hm' : KeysFit m')
    (h : allowlistBytes m = allowlistBytes m') : m = m' := by
  have hentries : m.entries = m'.entries := by
    change m.entries.flatMap entryBytes = m'.entries.flatMap entryBytes at h
    rw [KeysFit] at hm hm'
    generalize m.entries = l at h hm
    generalize m'.entries = l' at h hm'
    induction l generalizing l' with
    | nil =>
        cases l' with
        | nil => rfl
        | cons f l' => exact absurd h (by simp [entryBytes])
    | cons e l ih =>
        cases l' with
        | nil => exact absurd h (by simp [entryBytes])
        | cons f l' =>
            rw [List.flatMap_cons, List.flatMap_cons] at h
            obtain ⟨he, hl⟩ := List.forall_mem_cons.mp hm
            obtain ⟨hf, hl'⟩ := List.forall_mem_cons.mp hm'
            obtain ⟨rfl, hrest⟩ := entryBytes_append he hf h
            rw [ih hl l' hrest hl']
  obtain ⟨entries, sorted⟩ := m
  obtain ⟨entries', sorted'⟩ := m'
  obtain rfl : entries = entries' := hentries
  rfl

theorem runtimeConfigBytes_inj {config config' : RuntimeConfig}
    (h : runtimeConfigBytes config = runtimeConfigBytes config') : config = config' := by
  obtain ⟨configured, ⟨who, hwho⟩, factory⟩ := config
  obtain ⟨configured', ⟨who', hwho'⟩, factory'⟩ := config'
  simp only [runtimeConfigBytes, List.cons.injEq] at h
  obtain ⟨hconfigured, hlen, hrest⟩ := h
  have hlength : who.length = who'.length := by
    have hmax : Chain.maxPrincipalLen < 2 ^ 8 := by decide
    have hlen₁ : (UInt8.ofNat who.length).toNat = who.length :=
      UInt8.toNat_ofNat_of_lt (lt_of_le_of_lt hwho hmax)
    have hlen₂ : (UInt8.ofNat who'.length).toNat = who'.length :=
      UInt8.toNat_ofNat_of_lt (lt_of_le_of_lt hwho' hmax)
    rw [← hlen₁, ← hlen₂]
    exact congrArg UInt8.toNat hlen
  obtain ⟨rfl, htail⟩ := List.append_inj hrest hlength
  have hfactory := (List.cons.inj (List.append_cancel_left htail)).2
  obtain ⟨hbytes, -⟩ := List.append_inj hfactory (by simp)
  have hsame : factory = factory' := List.Vector.eq _ _ hbytes
  have hflag : configured = configured' := by
    cases configured <;> cases configured' <;> simp_all
  rw [hsame, hflag]

theorem keysFit_insert {m : OrdMap AllowKey UInt8} (h : KeysFit m) {key : AllowKey} (value : UInt8)
    (hkey : key.bytes.length < 2 ^ 32) : KeysFit (m.insert key value) := by
  rintro ⟨k, v⟩ he
  have hget := OrdMap.mem_entries.mp he
  rw [OrdMap.get_insert] at hget
  split_ifs at hget with hk
  · rw [hk]
    exact hkey
  · exact h (k, v) (OrdMap.mem_entries.mpr hget)

theorem keysFit_remove {m : OrdMap AllowKey UInt8} (h : KeysFit m) (key : AllowKey) :
    KeysFit (m.remove key) := by
  rintro ⟨k, v⟩ he
  exact h (k, v) (OrdMap.mem_entries.mpr (get_of_remove (OrdMap.mem_entries.mp he)))

theorem allowKey_fits {target : Principal} {method : Bytes}
    (h : allowArgsSafe target method = true) :
    (Precompile.precompileAllowKey target.bytes method).length < 2 ^ 32 := by
  have hmethod := (of_decide_eq_true (Bool.and_eq_true_iff.mp h).1).2.2.2
  have htarget := target.bounded
  have hmaxMethod : Precompile.maxQueryMethodLen = 64 := rfl
  have hmaxTarget : Chain.maxPrincipalLen = 29 := rfl
  simp only [Precompile.precompileAllowKey, List.length_cons, List.length_append]
  omega

variable {revm₀ : Revm} {trie : TrieCommit T}

theorem allowlist_commitBumps (diffs : List StateDiff) (s : NodeState T) :
    (commitBumps diffs s).queryPrecompileAllowlist = s.queryPrecompileAllowlist := by
  induction diffs generalizing s with
  | nil => rfl
  | cons diff diffs ih =>
      rw [commitBumps, List.foldl_cons]
      refine (ih _).trans ?_
      split_ifs
      · rfl
      · rfl

theorem allowlist_creditWorld {s t : NodeState T} {address : Address} {amount : Nat}
    (h : creditWorld s address amount = .ok t) :
    t.queryPrecompileAllowlist = s.queryPrecompileAllowlist := by
  rw [creditWorld] at h
  split at h
  · exact absurd h (by simp)
  · obtain rfl := Except.ok.inj h
    split_ifs
    · rfl
    · rfl

theorem allowlist_creditDeposit {s t : NodeState T} {requestId : TxId} {recipient : Address}
    {amountWei : ByteArr 32} (h : creditNativeDeposit requestId recipient amountWei s = .ok t) :
    t.queryPrecompileAllowlist = s.queryPrecompileAllowlist := by
  rw [creditNativeDeposit] at h
  split at h
  · exact absurd h (by simp)
  · rename_i amount _
    split at h
    · split_ifs at h
      obtain rfl := Except.ok.inj h
      rfl
    · rcases hcredit : creditWorld s recipient amount with e | u
      · rw [hcredit] at h
        exact absurd h (by simp [Except.map])
      · rw [hcredit] at h
        obtain rfl := Except.ok.inj h
        have hsame := allowlist_creditWorld hcredit
        exact hsame

theorem keysFit_op {op : NodeOp} {s t : NodeState T} (h : KeysFit s.queryPrecompileAllowlist)
    (ok : Validated s op) (hrun : op.Runs c revm₀ trie s t) : KeysFit t.queryPrecompileAllowlist := by
  cases hrun with
  | chain runs =>
      rw [allowlist_commitBumps]
      exact h
  | creditBalance _ credits => exact allowlist_creditWorld credits ▸ h
  | creditNativeDeposit credits => exact allowlist_creditDeposit credits ▸ h
  | clearMempoolOnUpgrade s => exact h
  | syncChainRuntimeDefaults s => exact h
  | applyInstructionSoftLimits query update s => exact h
  | addQueryPrecompileAllowedMethod key s =>
      obtain ⟨target, method, hsafe, hkey⟩ := ok
      refine keysFit_insert h 1 ?_
      rw [hkey]
      exact allowKey_fits hsafe
  | removeQueryPrecompileAllowedMethod key s => exact keysFit_remove h key
  | setRuntimeConfig config s => exact h

theorem keysFit_run {allowed : NodeState T → NodeOp → Prop}
    (hallowed : ∀ s op, allowed s op → Validated s op) {s t : NodeState T}
    (h : KeysFit s.queryPrecompileAllowlist) (run : NodeRun c revm₀ trie allowed s t) :
    KeysFit t.queryPrecompileAllowlist := by
  induction run with
  | start => exact h
  | step _ ok runs ih => exact keysFit_op ih (hallowed _ _ ok) runs

theorem keysFit_init (world : World T) (config : RuntimeConfig) :
    KeysFit (NodeState.init world config).queryPrecompileAllowlist :=
  fun _ he => absurd he List.not_mem_nil

variable {revm : QueryRevm}

def asks (c : Crypto) (revm : QueryRevm) (now : Nat) (input : CallObjectInput) (site : CallSite T) :
    Option (IcpQueryRequest × List Load) :=
  if input.data.length > maxTxSize then none
  else
    match firstPass c revm now input site with
    | (.error (.externalQuery request), loads) => some (request, loads)
    | _ => none

-- what a caller may rely on, wherever the call goes on
structure FreshCall (c : Crypto) (revm : QueryRevm) (now : Nat) (input : CallObjectInput)
    (resolver : IcpQueryRequest → Except String Bytes) (site site' : CallSite T) : Prop where
  unasked : asks c revm now input site = none →
    ethCallObjectAsync c revm now input resolver site site' =
      executeCallObject c revm now input .disabled site
  current : ∀ request loads, asks c revm now input site = some (request, loads) → ∀ result,
    ethCallObjectAsync c revm now input resolver site site' = .ok result →
      executeCallObject c revm now input (.reply request (toReply (resolver request))) site' =
        .ok result
  stale : ∀ request loads, asks c revm now input site = some (request, loads) →
    queryState site'.node ≠ queryState site.node →
      ethCallObjectAsync c revm now input resolver site site' = .error (.execFailed .snapshotChanged)

theorem executeQueryOn_congr (config : QueryConfig) {hashes hashes' : Nat → ByteArr 32}
    {cache cache' : QueryCache} (hview : cache.view c hashes = cache'.view c hashes')
    (surrounding : IcpQueryContext) (txId : TxId) (tx : TxEnv) (ctx : BlockExecContext)
    (limit : Option Nat) :
    executeQueryOn c revm config hashes cache surrounding txId tx ctx limit =
      executeQueryOn c revm config hashes' cache' surrounding txId tx ctx limit := by
  rw [executeQueryOn, executeQueryOn, hview]

-- the update allowlist and the factory are out of reach of a call object
theorem executeQueryOn_config {config config' : QueryConfig} (access : config.access = .icpQueryOnly)
    (access' : config'.access = .icpQueryOnly) :
    executeQueryOn c revm config = executeQueryOn c revm config' := by
  have hprovider : Precompile.kasaneProviderRun (config.env c revm) config.updateAllowlist =
      Precompile.kasaneProviderRun (config'.env c revm) config'.updateAllowlist := by
    have hinner : (config.env c revm).otherPrecompile = (config'.env c revm).otherPrecompile := rfl
    have hquery : (config.env c revm).access = .icpQueryOnly := access
    have hquery' : (config'.env c revm).access = .icpQueryOnly := access'
    exact Precompile.kasaneProviderRun_query hquery hquery' hinner _ _
  funext hashes cache surrounding txId tx ctx limit
  rw [executeQueryOn, executeQueryOn, hprovider]

theorem planCall_congr {s t : NodeState T} (hdb : t.chain.world.db = s.chain.world.db)
    (hcapture : QueryCallSnapshot.capture c t = QueryCallSnapshot.capture c s) (now : Nat)
    (input : CallObjectInput) : planCall c now input t = planCall c now input s := by
  have hhead : t.chain.head = s.chain.head := congrArg QueryCallSnapshot.head hcapture
  have hfee : t.chain.chainState.baseFee = s.chain.chainState.baseFee :=
    congrArg QueryCallSnapshot.baseFee hcapture
  have hgas : t.chain.chainState.blockGasLimit = s.chain.chainState.blockGasLimit :=
    congrArg QueryCallSnapshot.blockGasLimit hcapture
  have hlimit : t.queryInstructionSoftLimit = s.queryInstructionSoftLimit :=
    congrArg QueryCallSnapshot.queryInstructionSoftLimit hcapture
  rw [planCall, planCall, hdb, hhead, hfee, hgas, hlimit]

theorem onDb_self (x : QueryCache) {db : RevmStableDb} (h : x.db.db = db) : x.onDb db = x := by
  subst h
  rfl

-- with the snapshot still standing, the second pass is an execution of its own
theorem secondPass_fresh {site site' : CallSite T} {now : Nat} {input : CallObjectInput}
    {loads : List Load} {request : IcpQueryRequest} {reply : IcpQueryReply}
    (hsettled : Settled site.node site'.node)
    (hcapture : QueryCallSnapshot.capture c site'.node = QueryCallSnapshot.capture c site.node) :
    secondPass c revm now input site site' loads request reply =
      (runPass c revm site' (planCall c now input site'.node) (.new c site'.node.chain.world.db)
        (.reply request reply)).1 := by
  obtain ⟨hview, hstore⟩ := QueryCache.view_loads (c := c) (storedBlockHash site.node.chain) loads
    (.new c site.node.chain.world.db)
  have hhashes : storedBlockHash site'.node.chain = storedBlockHash site.node.chain := by
    funext number
    rw [storedBlockHash, storedBlockHash, hsettled.blocks, hsettled.blobStore]
  rw [secondPass, if_neg (not_not.mpr hcapture), planCall_congr hsettled.db hcapture, hsettled.db]
  dsimp only
  have hover : QueryCache.onDb _ site.node.chain.world.db = _ := onDb_self _ hstore
  rw [hover, runPass, runPass, hhashes, executeQueryOn_congr _ hview]

theorem queryState_of_capture {s t : NodeState T} (hsettled : Settled s t)
    (hs : KeysFit s.queryPrecompileAllowlist) (ht : KeysFit t.queryPrecompileAllowlist)
    (hallow : c.keccak256 (allowlistBytes t.queryPrecompileAllowlist) =
        c.keccak256 (allowlistBytes s.queryPrecompileAllowlist) →
      allowlistBytes t.queryPrecompileAllowlist = allowlistBytes s.queryPrecompileAllowlist)
    (hconfig : c.keccak256 (runtimeConfigBytes t.runtimeConfig) =
        c.keccak256 (runtimeConfigBytes s.runtimeConfig) →
      runtimeConfigBytes t.runtimeConfig = runtimeConfigBytes s.runtimeConfig)
    (hcapture : QueryCallSnapshot.capture c t = QueryCallSnapshot.capture c s) :
    queryState t = queryState s := by
  have hhead : t.chain.head = s.chain.head := congrArg QueryCallSnapshot.head hcapture
  have hfee : t.chain.chainState.baseFee = s.chain.chainState.baseFee :=
    congrArg QueryCallSnapshot.baseFee hcapture
  have hgas : t.chain.chainState.blockGasLimit = s.chain.chainState.blockGasLimit :=
    congrArg QueryCallSnapshot.blockGasLimit hcapture
  have hlimit : t.queryInstructionSoftLimit = s.queryInstructionSoftLimit :=
    congrArg QueryCallSnapshot.queryInstructionSoftLimit hcapture
  have hallowlist := allowlistBytes_inj ht hs
    (hallow (congrArg QueryCallSnapshot.allowlistFingerprint hcapture))
  have hruntime := runtimeConfigBytes_inj
    (hconfig (congrArg QueryCallSnapshot.runtimeConfigFingerprint hcapture))
  rw [queryState, queryState, hsettled.db, hhead, hfee, hgas, hlimit, hallowlist, hruntime]

theorem call_object_fresh (touches : TouchesCaller revm₀) {world : World T} {config : RuntimeConfig}
    {s t : NodeState T} (run : NodeRun c revm₀ trie Validated (.init world config) s)
    (await : NodeRun c revm₀ trie Awaitable s t) (headroom : t.evmStateEpoch < u64Max)
    (collision_free : Set.InjOn c.keccak256 {allowlistBytes s.queryPrecompileAllowlist,
      allowlistBytes t.queryPrecompileAllowlist, runtimeConfigBytes s.runtimeConfig,
      runtimeConfigBytes t.runtimeConfig})
    (now : Nat) (input : CallObjectInput) (resolver : IcpQueryRequest → Except String Bytes)
    (updates updates' : List Bytes) :
    FreshCall c revm now input resolver ⟨s, updates⟩ ⟨t, updates'⟩ := by
  have hstep := epochStep_run touches (epoch_le_run run) await
  have hfits := keysFit_run (fun _ _ ok => ok) (keysFit_init world config) run
  have hfits' := keysFit_run (fun _ _ ok => ok.1) hfits await
  have hsettled (hcapture : QueryCallSnapshot.capture c t = QueryCallSnapshot.capture c s) :
      Settled s t := hstep.settled headroom (congrArg QueryCallSnapshot.evmStateEpoch hcapture)
  have hasked {request : IcpQueryRequest} {loads : List Load}
      (h : asks c revm now input ⟨s, updates⟩ = some (request, loads)) :
      ¬ input.data.length > maxTxSize ∧
        ethCallObjectAsync c revm now input resolver ⟨s, updates⟩ ⟨t, updates'⟩ =
          finishCall (secondPass c revm now input ⟨s, updates⟩ ⟨t, updates'⟩ loads request
            (toReply (resolver request))) := by
    rw [asks] at h
    split_ifs at h with hsize
    refine ⟨hsize, ?_⟩
    rw [ethCallObjectAsync, if_neg hsize]
    split at h
    · rename_i request' loads' hfirst
      obtain ⟨rfl, rfl⟩ := Prod.mk.inj (Option.some.inj h)
      rw [hfirst]
    · exact absurd h (by simp)
  refine ⟨?_, ?_, ?_⟩
  · intro h
    rw [asks] at h
    rw [ethCallObjectAsync, executeCallObject]
    split_ifs at h ⊢ with hsize
    · rfl
    · change _ = finishCall (firstPass c revm now input ⟨s, updates⟩).1
      split at h
      · exact absurd h (by simp)
      · rename_i hne
        split
        · rename_i request loads hfirst
          exact absurd hfirst (hne request loads)
        · rename_i r loads _ hfirst
          rw [hfirst]
  · intro request loads h result hresult
    obtain ⟨hsize, heq⟩ := hasked h
    by_cases hcapture : QueryCallSnapshot.capture c t = QueryCallSnapshot.capture c s
    · rw [heq, secondPass_fresh (hsettled hcapture) hcapture] at hresult
      rw [executeCallObject, if_neg hsize]
      exact hresult
    · rw [heq, secondPass, if_pos hcapture] at hresult
      exact absurd hresult (by simp [finishCall])
  · intro request loads h hchanged
    obtain ⟨hsize, heq⟩ := hasked h
    have hcapture : QueryCallSnapshot.capture c t ≠ QueryCallSnapshot.capture c s := by
      intro hcapture
      refine hchanged (queryState_of_capture (hsettled hcapture) hfits hfits' ?_ ?_ hcapture)
      · exact fun hhash => collision_free (by simp) (by simp) hhash
      · exact fun hhash => collision_free (by simp) (by simp) hhash
    rw [heq, secondPass, if_pos hcapture]
    rfl

def askingCrypto : Crypto :=
  { sampleCrypto with keccak256 := fun bytes => lastByteArr 32 [UInt8.ofNat bytes.length] }

def askingCall (tx : TxEnv) : Precompile.CallInputs where
  input := tx.data
  gasLimit := tx.gasLimit
  bytecodeAddress := Precompile.icpQueryPrecompileAddress
  targetAddress := Precompile.icpQueryPrecompileAddress
  caller := tx.caller
  value := .transfer 0
  isStatic := false

def askingContext (view : QueryView) : Precompile.Context :=
  ⟨⟨balanceIn view.toStateView, fun _ _ => 0, [], []⟩, none⟩

-- a contract that hands its caller's balance back together with the reply to one query
def askingRevm : QueryRevm where
  inspectTx := fun provider q view tx _ _ =>
    match provider 0 q (askingContext view) (askingCall tx) with
    | (some (out, _), q) =>
        { result := .ok (.success 21000
            (.call (UInt8.ofNat (balanceIn view.toStateView tx.caller) :: out.output)) [], .empty)
          tripped := false
          context := q
          loads := [.account tx.caller] }
    | (none, q) => ⟨.error .transaction, false, q, []⟩
  inner := fun _ _ => none

def askingInput : CallObjectInput where
  dest := some (sampleAddress 3)
  sender := sampleAddress 1
  gasLimit := none
  gasPrice := none
  nonce := none
  maxFeePerGas := none
  maxPriorityFeePerGas := none
  chainId := none
  txType := none
  accessList := []
  value := zeroArr 32
  data := [1, 0, 1, 7, 1, 109, 0, 0, 0, 1, 5]

def returned : Except CallError CallObjectResult → Option Bytes
  | .ok result => some result.returnData
  | .error _ => none

def askingReply (_ : IcpQueryRequest) : Except String Bytes := .ok [9]

def creditedNode (n : Nat) : NodeState Unit :=
  { sampleNode with
    chain := { sampleNode.chain with
      world := { sampleNode.chain.world with
        db := { sampleNode.chain.world.db with
          accounts := OrdMap.empty.insert (sampleAddress 1) ⟨0, n, zeroArr 32⟩ } } }
    evmStateEpoch := min n u64Max }

theorem credits_creditedNode {n : Nat} (h : n < u256Max) :
    creditBalance (sampleAddress 1) 1 (creditedNode n) = .ok (creditedNode (n + 1)) := by
  have hget : (creditedNode n).chain.world.db.accounts.get (sampleAddress 1) =
      some ⟨0, n, zeroArr 32⟩ := (OrdMap.get_insert ..).trans (if_pos rfl)
  have hinsert : (creditedNode n).chain.world.db.accounts.insert (sampleAddress 1)
      ⟨0, n + 1, zeroArr 32⟩ = (creditedNode (n + 1)).chain.world.db.accounts := by
    apply OrdMap.ext_get
    intro a
    simp only [creditedNode, OrdMap.get_insert]
    split_ifs
    · rfl
    · rfl
  have hepoch : saturatingAdd u64Max (min n u64Max) 1 = min (n + 1) u64Max := by
    rw [saturatingAdd]
    omega
  have hfits : ¬ n + 1 > u256Max := by omega
  rw [creditBalance, creditWorld, creditAccount, hget]
  dsimp only [Option.getD_some]
  rw [if_neg hfits, hinsert]
  simp only [Option.isNone_some, Bool.false_or, ne_eq, Nat.add_eq_left, one_ne_zero,
    not_false_eq_true, decide_true, if_true, bumpEvmStateEpoch]
  simp only [creditedNode, hepoch]

theorem credits_sampleNode :
    creditBalance (sampleAddress 1) 1 sampleNode = .ok (creditedNode 1) := rfl

theorem run_creditedNode {revm : Revm} (n : Nat) (h : n < u256Max) :
    NodeRun askingCrypto revm sampleTrie Validated sampleNode (creditedNode (n + 1)) := by
  have hone : 1 ≤ u128Max := by decide
  have hvalidated (s : NodeState Unit) : Validated s (.creditBalance (sampleAddress 1) 1) := trivial
  induction n with
  | zero => exact NodeRun.start.step (hvalidated _) (.creditBalance hone credits_sampleNode)
  | succ n ih =>
      exact (ih (by omega)).step (hvalidated _) (.creditBalance hone (credits_creditedNode h))

abbrev limitedNode : NodeState Unit := applyInstructionSoftLimits none (some 1) sampleNode

theorem run_limitedNode : NodeRun askingCrypto nonceRevm sampleTrie Awaitable sampleNode limitedNode := by
  have hallowed : Awaitable sampleNode (.applyInstructionSoftLimits none (some 1)) :=
    ⟨trivial, fun _ h => absurd h (by simp)⟩
  exact NodeRun.start.step hallowed (.applyInstructionSoftLimits none (some 1) _)

theorem limited_call_fresh :
    FreshCall askingCrypto askingRevm 0 askingInput askingReply ⟨sampleNode, []⟩ ⟨limitedNode, []⟩ ∧
      returned (ethCallObjectAsync askingCrypto askingRevm 0 askingInput askingReply
        ⟨sampleNode, []⟩ ⟨limitedNode, []⟩) = some [0, 9] := by
  have touches : TouchesCaller nonceRevm := by
    intro view tx ctx result state h
    obtain ⟨account, hget, -, -⟩ := (nonceRevm_rules ∅).consumed _ _ _ _ _ h
    exact Option.isSome_iff_exists.mpr ⟨account, hget⟩
  have hcollision : Set.InjOn askingCrypto.keccak256
      {allowlistBytes sampleNode.queryPrecompileAllowlist,
        allowlistBytes limitedNode.queryPrecompileAllowlist,
        runtimeConfigBytes sampleNode.runtimeConfig,
        runtimeConfigBytes limitedNode.runtimeConfig} := by
    change Set.InjOn _ {[], [], runtimeConfigBytes sampleNode.runtimeConfig,
      runtimeConfigBytes sampleNode.runtimeConfig}
    rw [Set.insert_eq_of_mem (Set.mem_insert _ _), Set.pair_eq_singleton]
    rintro x (rfl | rfl) y (rfl | rfl) hsame
    · rfl
    · exact absurd hsame (by decide +kernel)
    · exact absurd hsame (by decide +kernel)
    · rfl
  exact ⟨call_object_fresh touches .start run_limitedNode (by decide) hcollision 0 askingInput
    askingReply [] [], by decide +kernel⟩

theorem call_object_not_stale :
    (NodeRun askingCrypto nonceRevm sampleTrie Awaitable sampleNode limitedNode ∧
      limitedNode.chain.chainState ≠ sampleNode.chain.chainState ∧
      returned (ethCallObjectAsync askingCrypto askingRevm 0 askingInput askingReply
        ⟨sampleNode, []⟩ ⟨limitedNode, []⟩) = some [0, 9]) ∧
    (NodeRun askingCrypto nonceRevm sampleTrie Validated sampleNode (creditedNode u64Max) ∧
      NodeRun askingCrypto nonceRevm sampleTrie Awaitable (creditedNode u64Max)
        (creditedNode (u64Max + 1)) ∧
      returned (ethCallObjectAsync askingCrypto askingRevm 0 askingInput askingReply
        ⟨creditedNode u64Max, []⟩ ⟨creditedNode (u64Max + 1), []⟩) = some [255, 9] ∧
      returned (executeCallObject askingCrypto askingRevm 0 askingInput
        (.reply ⟨[7], [109], [5]⟩ (.ok [9])) ⟨creditedNode (u64Max + 1), []⟩) = some [0, 9]) := by
  have hallowed : Awaitable (creditedNode u64Max) (.creditBalance (sampleAddress 1) 1) :=
    ⟨trivial, fun _ h => absurd h (by simp)⟩
  refine ⟨⟨run_limitedNode, ?_, by decide +kernel⟩, run_creditedNode (u64Max - 1) (by decide), ?_,
    by decide +kernel, by decide +kernel⟩
  · exact fun hsame => absurd (congrArg ChainState.updateInstructionSoftLimit hsame) (by decide)
  · exact NodeRun.start.step hallowed
      (.creditBalance (by decide) (credits_creditedNode (by decide)))

end Kasane.Rpc
