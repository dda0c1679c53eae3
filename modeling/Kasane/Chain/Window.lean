import Kasane.Chain.Lays
import Kasane.Chain.Trim

namespace Kasane.Chain

open BigEndian Codec Word Blob

variable {W : Type} {c : Crypto} {evm : Evm W}

-- the first block that the cursor does not cover
def nextBlock : Option Nat → Nat
  | none => 0
  | some pruned => pruned + 1

-- the stored blocks are those between the prune cursor and the head
structure Window (s : StableState W) : Prop where
  shelved : Shelved s
  stocked : Stocked s
  clean : Clean s
  next : s.pruneState.nextPruneBlock = nextBlock s.pruneState.prunedBefore
  next_le : s.pruneState.nextPruneBlock ≤ s.head.number
  gone : ∀ n, n < s.pruneState.nextPruneBlock → s.blocks.get n = none
  present : ∀ n, 1 ≤ n → s.pruneState.nextPruneBlock ≤ n → n ≤ s.head.number →
    (s.blocks.get n).isSome
  within : ∀ n ptr, s.blocks.get n = some ptr → 1 ≤ n ∧ n ≤ s.head.number

theorem window_init (world : W) : Window (StableState.init world) where
  shelved := shelved_init world
  stocked := stocked_init world
  clean := ⟨Nat.zero_le _, le_refl _, rfl, rfl⟩
  next := rfl
  next_le := le_refl _
  gone := fun _ _ => rfl
  present := fun n hn _ hle => absurd (hn.trans hle) (by simp [StableState.init])
  within := fun _ _ h => absurd h (by simp [StableState.init])

theorem Stocked.load {s : StableState W} (h : Stocked s) (hs : Shelved s) {n : Nat} {ptr : BlobPtr}
    (hptr : s.blocks.get n = some ptr) :
    ∃ block, loadBlock s n = some block ∧ block.Minted n := by
  obtain ⟨data, hheld⟩ := hs.held (.block n) ptr hptr
  have hread := BlobStore.read_of_holds hs.sound hheld
  obtain ⟨block, hminted, rfl⟩ := h.minted n ptr data hptr hread
  have hids := hminted.2.1
  have hlen := hminted.2.2
  have hgood : isCorruptBlock block = false := by simp [isCorruptBlock, hids]
  refine ⟨block, ?_, hminted⟩
  simp only [loadBlock, hptr, hread, BlockData.fromBytes_toBytes hlen, hgood]
  rfl

theorem Window.load {s : StableState W} (h : Window s) {n : Nat} {ptr : BlobPtr}
    (hptr : s.blocks.get n = some ptr) :
    ∃ block, loadBlock s n = some block ∧ block.Minted n :=
  h.stocked.load h.shelved hptr

theorem Window.loads {s : StableState W} (h : Window s) : Loads s := by
  intro n ptr hptr
  obtain ⟨block, hload, -⟩ := h.load hptr
  exact ⟨block, hload⟩

theorem OffQueue.pruneState {s t : StableState W} (h : OffQueue s t) :
    t.pruneState = s.pruneState := congrArg ExportView.pruneState h.view

theorem OffQueue.head {s t : StableState W} (h : OffQueue s t) : t.head = s.head :=
  congrArg ExportView.head h.view

theorem OffQueue.blocks {s t : StableState W} (h : OffQueue s t) : t.blocks = s.blocks :=
  congrArg ExportView.blocks h.view

theorem Window.offQueue {s t : StableState W} (h : Window s) (hoff : OffQueue s t) : Window t := by
  have hstate := hoff.pruneState
  have hhead := hoff.head
  have hblocks := hoff.blocks
  refine ⟨h.shelved.of_view hoff.view, h.stocked.of_view hoff.view, ⟨?_, ?_, ?_, ?_⟩, ?_, ?_, ?_, ?_,
    ?_⟩
  · rw [hhead]
    exact h.clean.head_le
  · rw [hstate]
    exact h.clean.pruned_le
  · rw [hoff.pruneJournal]
    exact h.clean.journal
  · rw [hstate]
    exact h.clean.cursor
  · rw [hstate]
    exact h.next
  · rw [hstate, hhead]
    exact h.next_le
  · rw [hstate, hblocks]
    exact h.gone
  · rw [hstate, hhead, hblocks]
    exact h.present
  · rw [hhead, hblocks]
    exact h.within

theorem fills_committed {env : CallEnv} {maxTxs : Nat} {s t : StableState W}
    {outcome : ProduceBlockOutcome} {x : ExecState evm} {root : evm.Root} {world : W} {p : Pool}
    (h : Consistent c False s p) (hc : Committed c evm env maxTxs s t outcome x root world) :
    ∃ w m persisted u q, Fills c evm (blockContext env s).blockNumber outcome.block x.drops x.included
      { s with world := w, decodeSuppressUntil := m } t persisted u q := by
  obtain ⟨⟨m, hstate⟩, -⟩ := prepareBlock_prepares c env maxTxs s
  have hcommit := hc.committed
  rw [hstate] at hcommit
  let w := evm.applyRoot (x.diffs.foldl evm.commitDiff world) root
  have h₁ : Consistent c False { s with world := w, decodeSuppressUntil := m } p :=
    ⟨h.indexed, h.backed, h.archived, h.bounded, h.counted⟩
  have hp := (pending_selectReady (c := c) h.indexed s.chainState.baseFee maxTxs).subperm hc.selected
  exact ⟨w, m, fills_commitBlock h₁ hp hcommit⟩

theorem laying_committed {env : CallEnv} {maxTxs : Nat} {s t : StableState W}
    {outcome : ProduceBlockOutcome} {x : ExecState evm} {root : evm.Root} {world : W} {p : Pool}
    (h : Consistent c False s p) (hc : Committed c evm env maxTxs s t outcome x root world) :
    ∃ w u, Laying c (blockContext env s).blockNumber x.included { s with world := w } u t := by
  obtain ⟨w, m, persisted, u, q, hfills⟩ := fills_committed h hc
  have hlaying := hfills.laying
  have htouched : PoolStep c { s with world := w } { s with world := w, decodeSuppressUntil := m } :=
    .touched { s with world := w } s.senderExpectedNonce m
  exact ⟨w, _, hlaying.upkeep.head htouched, hlaying.consistent, hlaying.lays⟩

-- what producing a block comes to for the records of the chain
inductive ProduceSteps (c : Crypto) (evm : Evm W) (env : CallEnv) (maxTxs : Nat)
    (s : StableState W) : Except ChainError ProduceBlockOutcome → StableState W → Prop
  | kept {t : StableState W} (e : ChainError) (w : W) (steps : PoolSteps c { s with world := w } t) :
      ProduceSteps c evm env maxTxs s (.error e) t
  | laid {t u : StableState W} {outcome : ProduceBlockOutcome} {x : ExecState evm} {root : evm.Root}
      {world w : W} (committed : Committed c evm env maxTxs s t outcome x root world)
      (laying : Laying c (blockContext env s).blockNumber x.included { s with world := w } u t) :
      ProduceSteps c evm env maxTxs s (.ok outcome) t

theorem steps_produceBlock {env : CallEnv} {maxTxs : Nat} {s t : StableState W}
    {r : Except ChainError ProduceBlockOutcome} {p : Pool} (h : Consistent c False s p)
    (hrun : produceBlock c evm env maxTxs s = some (r, t)) :
    ProduceSteps c evm env maxTxs s r t := by
  cases produceBlock_cases hrun with
  | refused e m => exact .kept e s.world (.single (.touched s s.senderExpectedNonce m))
  | dropped e m drops selected =>
      have hs : Consistent c False { s with decodeSuppressUntil := m } p :=
        ⟨h.indexed, h.backed, h.archived, h.bounded, h.counted⟩
      have hp := (pending_selectReady (c := c) h.indexed s.chainState.baseFee maxTxs).subperm selected
      exact .kept e s.world
        ((steps_applyDrops hs hp).head (.touched s s.senderExpectedNonce m))
  | @unprepared diffs number timestamp parentHash reason world e m prepared =>
      exact .kept e world
        (.single (.touched { s with world := world } s.senderExpectedNonce m))
  | committed hc =>
      obtain ⟨w, u, hlaying⟩ := laying_committed h hc
      exact .laid hc hlaying

theorem Laying.pruneJournal {number : Nat} {included : List StagedIncluded} {s u t : StableState W}
    (h : Laying c number included s u t) : t.pruneJournal = s.pruneJournal :=
  h.lays.pruneJournal.trans (offQueue_steps h.upkeep).pruneJournal

theorem Window.committed {env : CallEnv} {maxTxs : Nat} {s t : StableState W}
    {outcome : ProduceBlockOutcome} {x : ExecState evm} {root : evm.Root} {world : W}
    (h : Window s) (hrun : produceBlock c evm env maxTxs s = some (.ok outcome, t))
    (hc : Committed c evm env maxTxs s t outcome x root world)
    (hjournal : t.pruneJournal = s.pruneJournal) : Window t := by
  have hcommits := hc.commits
  have hstate := hcommits.pruneState
  have hhead : t.head.number = saturatingAdd u64Max s.head.number 1 :=
    congrArg Head.number hcommits.head
  have hle := h.clean.head_le
  obtain ⟨ptr, hblocks, -⟩ := hcommits.stored
  have hget (n : Nat) : t.blocks.get n =
      if n = saturatingAdd u64Max s.head.number 1 then some ptr else s.blocks.get n := by
    rw [hblocks]
    exact OrdMap.get_insert ..
  have hnext := h.next_le
  have hpos : 0 < u64Max := by decide
  rw [saturatingAdd] at hhead hget
  refine ⟨shelved_produceBlock h.shelved hrun, stocked_produceBlock h.stocked hrun, ⟨?_, ?_, ?_, ?_⟩,
    ?_, ?_, ?_, ?_, ?_⟩
  · omega
  · rw [hstate]
    exact h.clean.pruned_le
  · rw [hjournal]
    exact h.clean.journal
  · rw [hstate]
    exact h.clean.cursor
  · rw [hstate]
    exact h.next
  · rw [hstate]
    omega
  · intro n hn
    rw [hstate] at hn
    have hold := h.gone n hn
    rw [hget, if_neg (by omega)]
    exact hold
  · intro n hn hlow hhigh
    rw [hstate] at hlow
    rw [hget]
    split_ifs with heq
    · rfl
    · exact h.present n hn hlow (by omega)
  · intro n q hq
    rw [hget] at hq
    split_ifs at hq with heq
    · omega
    · have hold := h.within n q hq
      omega

theorem window_produceBlock {env : CallEnv} {maxTxs : Nat} {s t : StableState W}
    {r : Except ChainError ProduceBlockOutcome} {p : Pool} (h : Window s)
    (hp : Consistent c False s p) (hrun : produceBlock c evm env maxTxs s = some (r, t)) :
    Window t := by
  cases steps_produceBlock hp hrun with
  | kept e w steps =>
      have hs : Window { s with world := w } := h.offQueue ⟨rfl, rfl⟩
      exact hs.offQueue (offQueue_steps steps)
  | laid hc laying => exact h.committed hrun hc laying.pruneJournal

theorem normalize_nextBlock (pruned : Option Nat) :
    normalizeNextPruneBlock (nextBlock pruned) pruned = nextBlock pruned := by
  cases pruned with
  | none => rfl
  | some pruned => simp [normalizeNextPruneBlock, nextBlock]

-- how far a prune call has come
structure Cursored (pruneBefore : Nat) (start cur : PruneCursor) : Prop where
  next : cur.next = nextBlock cur.pruneState.prunedBefore
  monotone : start.next ≤ cur.next
  bounded : cur.pruneState.prunedBefore = start.pruneState.prunedBefore ∨
    ∃ q, cur.pruneState.prunedBefore = some q ∧ q ≤ pruneBefore

theorem Cursored.advance {pruneBefore : Nat} {start cur : PruneCursor}
    (h : Cursored pruneBefore start cur) (hle : cur.next ≤ pruneBefore) (hlt : pruneBefore < u64Max)
    (ops : Nat) : Cursored pruneBefore start (cur.advance ops) ∧
      (cur.advance ops).next = cur.next + 1 := by
  have hn : cur.next < u64Max := lt_of_le_of_lt hle hlt
  have hnext : (cur.advance ops).next = cur.next + 1 :=
    min_eq_left (Nat.succ_le_of_lt hn)
  have hpruned : (cur.advance ops).pruneState.prunedBefore = some cur.next :=
    prunedBefore_setPrunedBefore _ hn
  refine ⟨⟨?_, ?_, .inr ⟨cur.next, hpruned, hle⟩⟩, hnext⟩
  · rw [hnext, hpruned]
    rfl
  · rw [hnext]
    exact h.monotone.trans (Nat.le_succ _)

theorem Cursored.afterBlock {pruneBefore : Nat} {start cur : PruneCursor}
    (h : Cursored pruneBefore start cur) (hle : cur.next ≤ pruneBefore) (hlt : pruneBefore < u64Max)
    (ops : Nat) : Cursored pruneBefore start (cur.afterBlock ops) ∧
      (cur.afterBlock ops).next = cur.next + 1 := by
  obtain ⟨hcursored, hnext⟩ := h.advance hle hlt ops
  exact ⟨⟨hcursored.next, hcursored.monotone, hcursored.bounded⟩, hnext⟩

theorem trimmed_reach {pruneBefore maxOps : Nat} {start cur : PruneCursor} {s t : StableState W}
    (hs : Shelved s) (hloads : Loads s) (hlt : pruneBefore < u64Max)
    (hstart : Cursored pruneBefore start start) (hgone : ∀ n, n < start.next → s.blocks.get n = none)
    (hreach : PruneReach c pruneBefore maxOps start s cur t) :
    Trimmed c cur.next s t ∧ Cursored pruneBefore start cur := by
  induction hreach with
  | here => exact ⟨trimmed_start hs hgone, hstart⟩
  | @skip cur t _ hle hmissing ih =>
      obtain ⟨htrimmed, hcursored⟩ := ih
      obtain ⟨hadvanced, hnext⟩ := hcursored.advance hle hlt cur.opsUsed
      refine ⟨?_, hadvanced⟩
      rw [hnext]
      refine htrimmed.skip ?_
      rw [htrimmed.loads hs (le_refl _)] at hmissing
      cases hget : s.blocks.get cur.next with
      | none => rfl
      | some ptr =>
          obtain ⟨block, hload⟩ := hloads _ _ hget
          exact absurd (hmissing.symm.trans hload) (by simp)
  | @pruned cur t u block opsUsed _ hle hload _ _ hdone ih =>
      obtain ⟨htrimmed, hcursored⟩ := ih
      obtain ⟨hadvanced, hnext⟩ := hcursored.afterBlock hle hlt opsUsed
      refine ⟨?_, hadvanced⟩
      obtain ⟨v, hv, hforgets, -⟩ := pruneOneBlock_forgets (c := c)
        htrimmed.shelved
      obtain ⟨-, rfl⟩ := Prod.mk.inj (hv.symm.trans hdone)
      rw [htrimmed.loads hs (le_refl _)] at hload
      rw [hnext]
      exact htrimmed.forget hload hforgets

-- a prune call that is not refused
structure Prunes (c : Crypto) (retain : Nat) (s t : StableState W) : Prop where
  trimmed : Trimmed c t.pruneState.nextPruneBlock s t
  clean : Clean t
  next : t.pruneState.nextPruneBlock = nextBlock t.pruneState.prunedBefore
  monotone : s.pruneState.nextPruneBlock ≤ t.pruneState.nextPruneBlock
  bounded : t.pruneState.prunedBefore = s.pruneState.prunedBefore ∨
    ∃ q, t.pruneState.prunedBefore = some q ∧ q + retain ≤ s.head.number

theorem Trimmed.bookkeeping {next : Nat} {s t : StableState W} (h : Trimmed c next s t)
    (q : PruneState) (oldest : Option (Nat × Nat)) :
    Trimmed c next s { t with pruneState := q, oldestBlock := oldest } :=
  ⟨h.shelved, h.blocks, h.gone, h.kept, h.fewer, h.vacated, h.holds, h.unhashed, h.hashed,
    h.unpruned, h.fees⟩

theorem Window.recover {s : StableState W} (h : Window s) :
    recoverPruneJournal c s = (.ok (), s) := by
  have hnone : s.pruneState.journalBlock = none := if_pos h.clean.cursor
  have hsame : normalizeCursor s.pruneState = s.pruneState := by
    have hnext := h.next
    rw [normalizeCursor, hnext, normalize_nextBlock, ← hnext]
  rw [recover_of_clean h.clean.journal hnone, hsame]

theorem Window.prunes {s : StableState W} (h : Window s) {retain maxOps : Nat}
    (hlimits : ¬ (retain = 0 ∨ maxOps = 0)) :
    ∃ result t, pruneBlocks c retain maxOps s = (.ok result, t) ∧ Prunes c retain s t := by
  rw [pruneBlocks, if_neg hlimits, h.recover]
  dsimp only
  cases hbefore : pruneBeforeBlock s.head.number retain with
  | none =>
      exact ⟨_, s, rfl, trimmed_start h.shelved h.gone, h.clean, h.next, le_refl _, .inl rfl⟩
  | some pruneBefore =>
      have hlt := pruneBeforeBlock_lt h.clean.head_le hbefore
      have hle : pruneBefore + retain ≤ s.head.number := by
        rw [pruneBeforeBlock] at hbefore
        split_ifs at hbefore
        obtain rfl := Option.some.inj hbefore
        omega
      have hnext : (startCursor s.pruneState).next = s.pruneState.nextPruneBlock := by
        change normalizeNextPruneBlock s.pruneState.nextPruneBlock s.pruneState.prunedBefore = _
        rw [h.next, normalize_nextBlock]
      have hstart : Cursored pruneBefore (startCursor s.pruneState) (startCursor s.pruneState) :=
        ⟨hnext.trans h.next, le_refl _, .inl rfl⟩
      have hgone : ∀ n, n < (startCursor s.pruneState).next → s.blocks.get n = none := by
        rw [hnext]
        exact h.gone
      dsimp only
      rcases hloop : pruneLoop c pruneBefore maxOps
        (pruneBefore + 1 - (startCursor s.pruneState).next) (startCursor s.pruneState) s
        with ⟨r, t⟩
      cases pruneLoop_end .here hloop with
      | @failed cur u t block e hreach _ _ _ herror =>
          obtain ⟨htrimmed, -⟩ := trimmed_reach h.shelved h.loads hlt hstart hgone hreach
          obtain ⟨v, hv, -, -⟩ := pruneOneBlock_forgets (c := c)
            htrimmed.shelved
          exact absurd (congrArg Prod.fst (hv.symm.trans herror)) (by simp)
      | @stopped cur t hreach =>
          obtain ⟨htrimmed, hcursored⟩ := trimmed_reach h.shelved h.loads hlt hstart hgone hreach
          have hsteady := steady_reach hlt (steady_startCursor h.clean) hreach
          obtain ⟨oldest, hold⟩ := refreshOldest_eq
            { t with pruneState := { cur.pruneState with nextPruneBlock := cur.next } }
          dsimp only [finishPrune]
          rw [hold]
          refine ⟨_, _, rfl, htrimmed.bookkeeping _ oldest, ?_, hcursored.next, ?_, ?_⟩
          · exact ⟨hsteady.head_le, hsteady.pruned_le, hsteady.journal, hsteady.cursor⟩
          · rw [← hnext]
            exact hcursored.monotone
          · rcases hcursored.bounded with hsame | ⟨q, hq, hqle⟩
            · exact .inl hsame
            · exact .inr ⟨q, hq, by omega⟩

theorem Window.pruned {retain : Nat} {s t : StableState W} (h : Window s) (hretain : retain ≠ 0)
    (hstocked : Stocked t) (hp : Prunes c retain s t) : Window t := by
  have hhead : t.head = s.head := congrArg UnprunedView.head hp.trimmed.unpruned
  have hget := hp.trimmed.blocks
  have hmono := hp.monotone
  refine ⟨hp.trimmed.shelved, hstocked, hp.clean, hp.next, ?_, ?_, ?_, ?_⟩
  · rw [hhead, hp.next]
    rcases hp.bounded with hsame | ⟨q, hq, hle⟩
    · rw [hsame, ← h.next]
      exact h.next_le
    · rw [hq]
      dsimp only [nextBlock]
      omega
  · intro n hn
    rw [hget, if_pos hn]
  · intro n hn hlow hhigh
    rw [hget, if_neg (not_lt.mpr hlow)]
    rw [hhead] at hhigh
    exact h.present n hn (hmono.trans hlow) hhigh
  · intro n ptr hptr
    rw [hget] at hptr
    split_ifs at hptr
    rw [hhead]
    exact h.within n ptr hptr

theorem window_pruneBlocks (retain maxOps : Nat) {s : StableState W} (h : Window s) :
    Window (pruneBlocks c retain maxOps s).2 := by
  have hstocked := (pruneClosed_stocked (c := c)).pruneBlocks retain maxOps h.stocked
  by_cases hlimits : retain = 0 ∨ maxOps = 0
  · rw [pruneBlocks, if_pos hlimits]
    exact h
  · obtain ⟨result, t, heq, hprunes⟩ := h.prunes (c := c) hlimits
    rw [heq] at hstocked ⊢
    exact h.pruned (fun hzero => hlimits (.inl hzero)) hstocked hprunes

end Kasane.Chain
