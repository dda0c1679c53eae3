import Kasane.Node.State
import Kasane.Chain.BaseFee

namespace Kasane.Node

open BigEndian Codec Word Chain Exec

variable {T : Type} {c : Crypto} {revm : Revm} {trie : TrieCommit T}

-- what one operation of the node can do to the chain's own state
inductive ChainMove (c : Crypto) (revm : Revm) (trie : TrieCommit T)
    (s : StableState (World T)) : StableState (World T) → Prop
  | op {t : StableState (World T)} (op : ChainOp) (runs : op.Runs c (evm c revm trie) s t) :
      ChainMove c revm trie s t
  | credited {db : RevmStableDb} {changed : Bool} (address : Address) (amount : Nat)
      (credits : creditAccount s.world.db address amount = some (db, changed)) :
      ChainMove c revm trie s { s with world := { s.world with db := db } }
  | cleared : ChainMove c revm trie s (clearMempoolOnUpgrade s)
  | synced : ChainMove c revm trie s (syncChainRuntimeDefaults s)
  | limited (limit : Nat) : ChainMove c revm trie s
      { s with chainState := { s.chainState with updateInstructionSoftLimit := limit } }
  | still : ChainMove c revm trie s s

theorem commitBumps_chain (diffs : List StateDiff) (s : NodeState T) :
    (commitBumps diffs s).chain = s.chain := by
  induction diffs generalizing s with
  | nil => rfl
  | cons diff diffs ih =>
      rw [commitBumps, List.foldl_cons]
      refine (ih _).trans ?_
      split_ifs
      · rfl
      · rfl

theorem creditWorld_ok {s t : NodeState T} {address : Address} {amount : Nat}
    (h : creditWorld s address amount = .ok t) :
    ∃ db changed, creditAccount s.chain.world.db address amount = some (db, changed) ∧
      t.chain = { s.chain with world := { s.chain.world with db := db } } := by
  rw [creditWorld] at h
  split at h
  · exact absurd h (by simp)
  · rename_i db changed hcredit
    obtain rfl := Except.ok.inj h
    refine ⟨db, changed, hcredit, ?_⟩
    split_ifs
    · rfl
    · rfl

theorem chainMove_creditWorld {s t : NodeState T} {address : Address} {amount : Nat}
    (h : creditWorld s address amount = .ok t) : ChainMove c revm trie s.chain t.chain := by
  obtain ⟨db, changed, hcredit, heq⟩ := creditWorld_ok h
  rw [heq]
  exact .credited address amount hcredit

theorem creditNativeDeposit_ok {s t : NodeState T} {requestId : TxId} {recipient : Address}
    {amountWei : ByteArr 32} (h : creditNativeDeposit requestId recipient amountWei s = .ok t) :
    t.chain = s.chain ∨ ∃ address amount u, creditWorld s address amount = .ok u ∧
      t.chain = u.chain := by
  rw [creditNativeDeposit] at h
  split at h
  · exact absurd h (by simp)
  · rename_i amount _
    split at h
    · split_ifs at h
      obtain rfl := Except.ok.inj h
      exact .inl rfl
    · rcases hcredit : creditWorld s recipient amount with e | u
      · rw [hcredit] at h
        exact absurd h (by simp [Except.map])
      · rw [hcredit] at h
        obtain rfl := Except.ok.inj h
        exact .inr ⟨recipient, amount, u, hcredit, rfl⟩

theorem chainMove_runs {op : NodeOp} {s t : NodeState T} (h : op.Runs c revm trie s t) :
    ChainMove c revm trie s.chain t.chain := by
  cases h with
  | chain runs =>
      rw [commitBumps_chain]
      exact .op _ runs
  | creditBalance _ credits => exact chainMove_creditWorld credits
  | creditNativeDeposit credits =>
      rcases creditNativeDeposit_ok credits with heq | ⟨address, amount, u, hcredit, heq⟩
      · rw [heq]
        exact .still
      · rw [heq]
        exact chainMove_creditWorld hcredit
  | clearMempoolOnUpgrade s => exact .cleared
  | syncChainRuntimeDefaults s => exact .synced
  | applyInstructionSoftLimits query update s => exact .limited _
  | addQueryPrecompileAllowedMethod key s => exact .still
  | removeQueryPrecompileAllowedMethod key s => exact .still
  | setRuntimeConfig config s => exact .still

theorem nodeRun_of_chainRun {allowed : NodeState T → NodeOp → Prop} {world : World T}
    {t : StableState (World T)} (config : RuntimeConfig)
    (run : ChainRun c (evm c revm trie) (fun _ _ => True) (.init world) t)
    (hallowed : ∀ s op, allowed s (.chain op)) :
    ∃ s, NodeRun c revm trie allowed (.init world config) s ∧ s.chain = t := by
  induction run with
  | start => exact ⟨_, .start, rfl⟩
  | step _ _ runs ih =>
      obtain ⟨s, hrun, rfl⟩ := ih
      exact ⟨_, hrun.step (hallowed s _) (.chain runs), commitBumps_chain _ _⟩

theorem priced_move {s t : StableState (World T)} (h : Priced s)
    (hmove : ChainMove c revm trie s t) : Priced t := by
  cases hmove with
  | op op runs => exact priced_op h runs
  | credited address amount _ => exact h.of_view rfl ⟨rfl, rfl⟩
  | cleared => exact h.of_view rfl ⟨rfl, rfl⟩
  | synced =>
      have hstocked : Stocked (syncChainRuntimeDefaults s) := h.stocked.of_view rfl
      have hlimit : defaultBlockGasLimit ≤ u64Max := by decide
      exact ⟨hstocked, h.baseFee, hlimit, h.head⟩
  | limited limit => exact h.of_view rfl ⟨rfl, rfl⟩
  | still => exact h

theorem priced_run {allowed : NodeState T → NodeOp → Prop} {world : World T}
    {config : RuntimeConfig} {s : NodeState T}
    (run : NodeRun c revm trie allowed (.init world config) s) : Priced s.chain := by
  induction run with
  | start => exact priced_init world
  | step _ _ runs ih => exact priced_move ih (chainMove_runs runs)

theorem consistent_cleared {W : Type} {s : StableState W} {p : Pool} (h : Consistent c False s p) :
    Consistent c False (clearMempoolOnUpgrade s) .empty where
  indexed := (@consistent_init W c False s.world).indexed
  backed := ⟨fun hid => absurd hid (by simp [Pool.empty]), fun hid => absurd hid (by simp [Pool.empty]),
    fun hid => absurd hid (by simp [Pool.empty])⟩
  archived := h.archived.mono (.refl _) (fun hptr => hptr) (fun _ _ => rfl) (fun _ _ _ => rfl)
  bounded := Nat.zero_le _
  counted := fun hfalse => hfalse.elim

theorem consistent_move {s t : StableState (World T)} {p : Pool} (h : Consistent c False s p)
    (hmove : ChainMove c revm trie s t) : ∃ q, Consistent c False t q := by
  cases hmove with
  | op op runs => exact consistent_op h (fun hfalse => hfalse.elim) runs
  | credited address amount _ => exact ⟨p, h.indexed, h.backed, h.archived, h.bounded, h.counted⟩
  | cleared => exact ⟨.empty, consistent_cleared h⟩
  | synced => exact ⟨p, h.indexed, h.backed, h.archived, h.bounded, h.counted⟩
  | limited limit => exact ⟨p, h.indexed, h.backed, h.archived, h.bounded, h.counted⟩
  | still => exact ⟨p, h⟩

theorem consistent_nodeRun {allowed : NodeState T → NodeOp → Prop} {world : World T}
    {config : RuntimeConfig} {s : NodeState T}
    (run : NodeRun c revm trie allowed (.init world config) s) :
    ∃ p, Consistent c False s.chain p := by
  induction run with
  | start => exact ⟨.empty, consistent_init world⟩
  | step _ _ runs ih =>
      obtain ⟨p, h⟩ := ih
      exact consistent_move h (chainMove_runs runs)

-- what every move keeps, every run keeps
structure MoveClosed (c : Crypto) (revm : Revm) (trie : TrieCommit T)
    (P : StableState (World T) → Prop) : Prop where
  op : ∀ {op : ChainOp} {s t : StableState (World T)} {p : Pool}, Consistent c False s p → P s →
    op.Runs c (evm c revm trie) s t → P t
  world : ∀ (s : StableState (World T)) (w : World T), P s → P { s with world := w }
  cleared : ∀ s : StableState (World T), P s → P (clearMempoolOnUpgrade s)
  synced : ∀ s : StableState (World T), P s → P (syncChainRuntimeDefaults s)
  limited : ∀ (s : StableState (World T)) (limit : Nat), P s →
    P { s with chainState := { s.chainState with updateInstructionSoftLimit := limit } }

theorem MoveClosed.move {P : StableState (World T) → Prop} (hP : MoveClosed c revm trie P)
    {s t : StableState (World T)} {p : Pool} (hp : Consistent c False s p) (h : P s)
    (move : ChainMove c revm trie s t) : P t := by
  cases move with
  | op _ runs => exact hP.op hp h runs
  | credited _ _ _ => exact hP.world s _ h
  | cleared => exact hP.cleared s h
  | synced => exact hP.synced s h
  | limited limit => exact hP.limited s limit h
  | still => exact h

theorem MoveClosed.nodeRun {P : StableState (World T) → Prop} (hP : MoveClosed c revm trie P)
    {allowed : NodeState T → NodeOp → Prop} {world : World T} {config : RuntimeConfig}
    {s : NodeState T} (hinit : P (.init world))
    (run : NodeRun c revm trie allowed (.init world config) s) : P s.chain := by
  induction run with
  | start => exact hinit
  | step run _ runs ih =>
      obtain ⟨p, hp⟩ := consistent_nodeRun run
      exact hP.move hp ih (chainMove_runs runs)

end Kasane.Node
