import Kasane.Chain.PruneSteps

namespace Kasane.Chain

open BigEndian Codec Word Blob

variable {W : Type} {c : Crypto}

structure Journaled (s : StableState W) : Prop where
  head_le : s.head.number ≤ u64Max
  pruned_le : s.pruneState.prunedBeforeBlock ≤ u64Max
  cursor_le : s.pruneState.journalBlockNumber ≤ u64Max
  keyed : ∀ j ptrs, s.pruneJournal.get j = some ptrs →
    j = s.pruneState.journalBlockNumber ∧ j < u64Max

theorem journaled_init (world : W) : Journaled (StableState.init world) where
  head_le := Nat.zero_le _
  pruned_le := le_refl _
  cursor_le := le_refl _
  keyed := by simp [StableState.init]

structure Clean (s : StableState W) : Prop where
  head_le : s.head.number ≤ u64Max
  pruned_le : s.pruneState.prunedBeforeBlock ≤ u64Max
  journal : s.pruneJournal = .empty
  cursor : s.pruneState.journalBlockNumber = u64Max

theorem Clean.journaled {s : StableState W} (h : Clean s) : Journaled s where
  head_le := h.head_le
  pruned_le := h.pruned_le
  cursor_le := le_of_eq h.cursor
  keyed := by simp [h.journal]

theorem journaled_runSteps {s t : StableState W} {steps : List PruneStep}
    {r : Except ChainError Unit} (hs : Journaled s) (hrun : runSteps c steps s = (r, t))
    (h : ∀ step ∈ steps, ¬ step.SetsState) : Journaled t := by
  have hstate := runSteps_pruneState hrun h
  refine ⟨?_, ?_, ?_, ?_⟩
  · rw [runSteps_head hrun]
    exact hs.head_le
  · rw [hstate]
    exact hs.pruned_le
  · rw [hstate]
    exact hs.cursor_le
  · intro j ptrs hget
    rw [hstate]
    exact hs.keyed j ptrs (runSteps_journal_get hrun hget)

theorem journaled_journaledState {cur : PruneCursor} {s : StableState W} (hi : Interruptible cur s)
    (block : BlockData) : Journaled (journaledState cur block s) where
  head_le := hi.head_le
  pruned_le := hi.pruned_le
  cursor_le := le_of_lt hi.next_lt
  keyed := by
    intro j ptrs h
    rw [journaledState, writeJournal, hi.journal, OrdMap.get_insert] at h
    split_ifs at h with hj
    · exact ⟨hj, hj ▸ hi.next_lt⟩
    · simp at h

theorem clean_pruneOneBlock {cur : PruneCursor} {block : BlockData} {s t : StableState W}
    (hi : Interruptible cur s) (hdone : pruneOneBlock c cur block s = (.ok (), t)) : Clean t := by
  have hhead := pruneOneBlock_head hdone
  have hjournal := full_pruneJournal hi hdone
  obtain ⟨u, -, rfl⟩ := pruneOneBlock_ok hi.next_lt hdone
  exact ⟨le_of_eq_of_le (congrArg Head.number hhead) hi.head_le, le_of_lt hi.next_lt, hjournal, rfl⟩

theorem journaled_pruneOneBlock {cur : PruneCursor} {block : BlockData} {s t : StableState W}
    {r : Except ChainError Unit} (hi : Interruptible cur s)
    (hrun : pruneOneBlock c cur block s = (r, t)) : Journaled t := by
  cases r with
  | error e =>
      exact journaled_runSteps (journaled_journaledState hi block)
        (pruneOneBlock_error hi.next_lt hrun) (fun step hm => not_setsState_removalSteps hm)
  | ok a => exact (clean_pruneOneBlock hi hrun).journaled

theorem journaled_crashed {cur : PruneCursor} {block : BlockData} {s : StableState W}
    (hi : Interruptible cur s) (k : Nat) : Journaled (crashed c cur block k s) := by
  rcases Nat.lt_or_ge k (blockSteps cur block s).length with hk | hk
  · rw [crashed, take_blockSteps hi.next_lt hk]
    exact journaled_runSteps (journaled_journaledState hi block) rfl
      (fun step hm => not_setsState_removalSteps (List.mem_of_mem_take hm))
  · rw [crashed_all hk]
    exact journaled_pruneOneBlock hi rfl

inductive PruneReach (c : Crypto) (pruneBefore maxOps : Nat) (start : PruneCursor)
    (s₀ : StableState W) : PruneCursor → StableState W → Prop
  | here : PruneReach c pruneBefore maxOps start s₀ start s₀
  | skip {cur : PruneCursor} {s : StableState W}
      (reach : PruneReach c pruneBefore maxOps start s₀ cur s) (next_le : cur.next ≤ pruneBefore)
      (missing : loadBlock s cur.next = none) :
      PruneReach c pruneBefore maxOps start s₀ (cur.advance cur.opsUsed) s
  | pruned {cur : PruneCursor} {s t : StableState W} {block : BlockData} {opsUsed : Nat}
      (reach : PruneReach c pruneBefore maxOps start s₀ cur s) (next_le : cur.next ≤ pruneBefore)
      (load : loadBlock s cur.next = some block)
      (ops : opsUsed =
        saturatingAdd u64Max cur.opsUsed (pruneOpsNeededForBlock c s cur.next block))
      (ops_le : opsUsed ≤ maxOps) (done : pruneOneBlock c cur block s = (.ok (), t)) :
      PruneReach c pruneBefore maxOps start s₀ (cur.afterBlock opsUsed) t

structure Pruning (c : Crypto) (retain maxOps : Nat) (s : StableState W) (cur : PruneCursor)
    (block : BlockData) (t : StableState W) : Prop where
  limits : retain ≠ 0 ∧ maxOps ≠ 0
  reach : ∃ s₁ pruneBefore, recoverPruneJournal c s = (.ok (), s₁) ∧
    pruneBeforeBlock s₁.head.number retain = some pruneBefore ∧ cur.next ≤ pruneBefore ∧
    PruneReach c pruneBefore maxOps (startCursor s₁.pruneState) s₁ cur t
  load : loadBlock t cur.next = some block
  ops_le : saturatingAdd u64Max cur.opsUsed (pruneOpsNeededForBlock c t cur.next block) ≤ maxOps

theorem steady_advance {cur : PruneCursor} {s : StableState W} (h : Steady cur s)
    (hn : cur.next < u64Max) (ops : Nat) : Steady (cur.advance ops) s where
  journal := h.journal
  cursor := h.cursor
  pruned_lt := by
    intro v hv
    have hnext : (cur.advance ops).pruneState.prunedBefore = some cur.next :=
      prunedBefore_setPrunedBefore _ hn
    obtain rfl := Option.some.inj (hnext.symm.trans hv)
    exact lt_min (Nat.lt_succ_self _) hn
  pruned_le := le_of_lt hn
  head_le := h.head_le

theorem steady_afterBlock {cur : PruneCursor} {block : BlockData} {s t : StableState W}
    (hi : Interruptible cur s) (hdone : pruneOneBlock c cur block s = (.ok (), t)) (ops : Nat) :
    Steady (cur.afterBlock ops) t where
  journal := full_pruneJournal hi hdone
  cursor := rfl
  pruned_lt := (steady_advance hi.toSteady hi.next_lt ops).pruned_lt
  pruned_le := le_of_lt hi.next_lt
  head_le := by
    have hhead := pruneOneBlock_head hdone
    rw [hhead]
    exact hi.head_le

theorem steady_reach {pruneBefore maxOps : Nat} {start cur : PruneCursor} {s₀ s : StableState W}
    (hlt : pruneBefore < u64Max) (hstart : Steady start s₀)
    (h : PruneReach c pruneBefore maxOps start s₀ cur s) : Steady cur s := by
  induction h with
  | here => exact hstart
  | skip _ hle _ ih => exact steady_advance ih (lt_of_le_of_lt hle hlt) _
  | pruned _ hle _ _ _ hdone ih => exact steady_afterBlock ⟨ih, lt_of_le_of_lt hle hlt⟩ hdone _

theorem pruneBeforeBlock_lt {head retain pruneBefore : Nat} (hhead : head ≤ u64Max)
    (h : pruneBeforeBlock head retain = some pruneBefore) : pruneBefore < u64Max := by
  rw [pruneBeforeBlock] at h
  split_ifs at h with hcond
  obtain rfl := Option.some.inj h
  omega

theorem empty_of_keyed {s : StableState W} (h : Journaled s)
    (hget : s.pruneJournal.get s.pruneState.journalBlockNumber = none) :
    s.pruneJournal = .empty := by
  apply OrdMap.ext_get
  intro j
  cases hj : s.pruneJournal.get j with
  | none => rfl
  | some ptrs =>
      obtain ⟨rfl, -⟩ := h.keyed j ptrs hj
      exact absurd (hget.symm.trans hj) (by simp)

theorem clean_finishRecovery {p : PruneState} {s : StableState W} (hhead : s.head.number ≤ u64Max)
    (hpruned : p.prunedBeforeBlock ≤ u64Max) (hjournal : s.pruneJournal = .empty) :
    Clean (finishRecovery p s).2 := by
  obtain ⟨oldest, h⟩ := refreshOldest_eq { s with pruneState := normalizeCursor p.clearJournal }
  rw [finishRecovery, h]
  exact ⟨hhead, hpruned, hjournal, rfl⟩

theorem recoverPruned_le {p : PruneState} {n : Nat} (hp : p.prunedBeforeBlock ≤ u64Max)
    (hn : n ≤ u64Max) : (recoverPruned p n).prunedBeforeBlock ≤ u64Max := by
  change recoverPrunedBefore p.prunedBefore n ≤ u64Max
  rw [PruneState.prunedBefore]
  split_ifs
  · exact hn
  · exact max_le hp hn

def finishSteps (c : Crypto) (p : PruneState) (steps : List PruneStep) (s : StableState W) :
    Except ChainError Unit × StableState W :=
  match runSteps c steps s with
  | (.error e, s) => (.error e, s)
  | (.ok (), s) => finishRecovery p s

theorem clean_finishSteps {n : Nat} {p : PruneState} {steps : List PruneStep}
    {ptrs : List BlobPtr} {s t : StableState W} (h : Journaled s)
    (hn : s.pruneState.journalBlockNumber = n) (hp : p.prunedBeforeBlock ≤ u64Max)
    (hrun : finishSteps c p (steps ++ reclaimSteps n ptrs) s = (.ok (), t)) : Clean t := by
  rw [finishSteps] at hrun
  rcases hu : runSteps c (steps ++ reclaimSteps n ptrs) s with ⟨r, u⟩
  rw [hu] at hrun
  cases r with
  | error e => exact absurd (congrArg Prod.fst hrun) (by simp)
  | ok a =>
      have hhead := runSteps_head hu
      rw [reclaimSteps, ← List.append_assoc] at hu
      obtain ⟨v, hv, hremove⟩ := runSteps_append_ok hu
      obtain ⟨-, rfl⟩ := Prod.mk.inj hremove
      have hempty : v.pruneJournal.remove n = .empty := by
        apply OrdMap.ext_get
        intro j
        rw [OrdMap.get_remove]
        split_ifs with hj
        · rfl
        · cases hget : v.pruneJournal.get j with
          | none => rfl
          | some ptrs =>
              exact absurd ((h.keyed j ptrs (runSteps_journal_get hv hget)).1.trans hn) hj
      have hclean := clean_finishRecovery (p := p)
        (s := { v with pruneJournal := v.pruneJournal.remove n })
        (le_of_eq_of_le (congrArg Head.number hhead) h.head_le) hp hempty
      dsimp only at hrun
      rwa [hrun] at hclean

theorem recoverJournalBlock_eq (p : PruneState) (n : Nat) (s : StableState W) :
    recoverJournalBlock c p n s =
      match s.pruneJournal.get n, loadBlock s n with
      | none, _ => finishRecovery p s
      | some ptrs, none => finishSteps c p ([] ++ reclaimSteps n ptrs) s
      | some ptrs, some block =>
          finishSteps c (recoverPruned p n) (dropBlockSteps n block ++ reclaimSteps n ptrs) s := by
  rw [recoverJournalBlock]
  cases s.pruneJournal.get n with
  | none => rfl
  | some ptrs =>
      cases loadBlock s n with
      | none => rfl
      | some block => rfl

theorem clean_recoverJournalBlock {n : Nat} {s t : StableState W} (h : Journaled s)
    (hn : s.pruneState.journalBlockNumber = n) (hle : n ≤ u64Max)
    (hrec : recoverJournalBlock c s.pruneState n s = (.ok (), t)) : Clean t := by
  rw [recoverJournalBlock_eq] at hrec
  split at hrec
  · rename_i hget
    have hclean := clean_finishRecovery h.head_le h.pruned_le (empty_of_keyed h (hn ▸ hget))
    rwa [hrec] at hclean
  · exact clean_finishSteps h hn h.pruned_le hrec
  · exact clean_finishSteps h hn (recoverPruned_le h.pruned_le hle) hrec

theorem finishSteps_error {p : PruneState} {steps : List PruneStep} {s t : StableState W}
    {e : ChainError} (h : finishSteps c p steps s = (.error e, t)) :
    runSteps c steps s = (.error e, t) := by
  rw [finishSteps] at h
  rcases hrun : runSteps c steps s with ⟨r, u⟩
  rw [hrun] at h
  cases r with
  | error e' => exact h
  | ok a => exact absurd (congrArg Prod.fst h) (by simp [finishRecovery])

theorem journaled_recoverJournalBlock {p : PruneState} {n : Nat} {s t : StableState W}
    {e : ChainError} (h : Journaled s) (hrec : recoverJournalBlock c p n s = (.error e, t)) :
    Journaled t := by
  rw [recoverJournalBlock_eq] at hrec
  split at hrec
  · exact absurd (congrArg Prod.fst hrec) (by simp [finishRecovery])
  · exact journaled_runSteps h (finishSteps_error hrec)
      (fun step hm => not_setsState_reclaimSteps hm)
  · refine journaled_runSteps h (finishSteps_error hrec) ?_
    intro step hm
    rcases List.mem_append.mp hm with hm | hm
    · exact (mem_dropBlockSteps hm).1
    · exact not_setsState_reclaimSteps hm

theorem recover_cases {s : StableState W} (h : Journaled s) :
    recoverPruneJournal c s =
        recoverJournalBlock c s.pruneState s.pruneState.journalBlockNumber s ∨
      (Clean s ∧ recoverPruneJournal c s =
        (.ok (), { s with pruneState := normalizeCursor s.pruneState })) := by
  rcases Nat.lt_or_eq_of_le h.cursor_le with hlt | hnone
  · have hblock : s.pruneState.journalBlock = some s.pruneState.journalBlockNumber := by
      rw [PruneState.journalBlock, if_neg (ne_of_lt hlt)]
    exact Or.inl (by rw [recoverPruneJournal, hblock])
  · have hblock : s.pruneState.journalBlock = none := by
      rw [PruneState.journalBlock, if_pos hnone]
    have hempty : s.pruneJournal = .empty := by
      apply empty_of_keyed h
      cases hget : s.pruneJournal.get s.pruneState.journalBlockNumber with
      | none => rfl
      | some ptrs =>
          have hkey := (h.keyed _ ptrs hget).2
          omega
    exact Or.inr ⟨⟨h.head_le, h.pruned_le, hempty, hnone⟩, recover_of_clean hempty hblock⟩

theorem clean_recover {s t : StableState W} (h : Journaled s)
    (hrec : recoverPruneJournal c s = (.ok (), t)) : Clean t := by
  rcases recover_cases (c := c) h with heq | ⟨hclean, heq⟩
  · exact clean_recoverJournalBlock h rfl h.cursor_le (heq.symm.trans hrec)
  · obtain ⟨-, rfl⟩ := Prod.mk.inj (heq.symm.trans hrec)
    exact ⟨hclean.head_le, hclean.pruned_le, hclean.journal, hclean.cursor⟩

theorem journaled_recover {s t : StableState W} {r : Except ChainError Unit} (h : Journaled s)
    (hrec : recoverPruneJournal c s = (r, t)) : Journaled t := by
  cases r with
  | ok a => exact (clean_recover h hrec).journaled
  | error e =>
      rcases recover_cases (c := c) h with heq | ⟨-, heq⟩
      · exact journaled_recoverJournalBlock h (heq.symm.trans hrec)
      · exact absurd (congrArg Prod.fst (heq.symm.trans hrec)) (by simp)

theorem steady_startCursor {s : StableState W} (h : Clean s) : Steady (startCursor s.pruneState) s where
  journal := h.journal
  cursor := h.cursor
  pruned_lt := by
    intro v hv
    change v < normalizeNextPruneBlock s.pruneState.nextPruneBlock s.pruneState.prunedBefore
    have hv' : s.pruneState.prunedBefore = some v := hv
    have hlt : v < u64Max := by
      have hle := h.pruned_le
      rw [PruneState.prunedBefore] at hv'
      split_ifs at hv' with hne
      obtain rfl := Option.some.inj hv'
      omega
    rw [hv', normalizeNextPruneBlock]
    split_ifs with hle
    · exact lt_min (Nat.lt_succ_self _) hlt
    · exact not_le.mp hle
  pruned_le := h.pruned_le
  head_le := h.head_le

theorem journaled_pruneLoop {pruneBefore maxOps fuel : Nat} {cur : PruneCursor} {s t : StableState W}
    {r : Except ChainError PruneCursor} (hlt : pruneBefore < u64Max) (h : Steady cur s)
    (hclean : Clean s) (hrun : pruneLoop c pruneBefore maxOps fuel cur s = (r, t)) :
    Journaled t ∧ ∀ cur', r = .ok cur' → Steady cur' t := by
  induction fuel generalizing cur s with
  | zero =>
      obtain ⟨rfl, rfl⟩ := Prod.mk.inj hrun
      exact ⟨hclean.journaled, fun cur' hcur => Except.ok.inj hcur ▸ h⟩
  | succ fuel ih =>
      rw [pruneLoop] at hrun
      split_ifs at hrun with hle
      · obtain ⟨rfl, rfl⟩ := Prod.mk.inj hrun
        exact ⟨hclean.journaled, fun cur' hcur => Except.ok.inj hcur ▸ h⟩
      · have hn : cur.next < u64Max := lt_of_le_of_lt (not_lt.mp hle) hlt
        split at hrun
        · exact ih (steady_advance h hn _) hclean hrun
        · rename_i block hload
          dsimp only at hrun
          split_ifs at hrun with hops
          · obtain ⟨rfl, rfl⟩ := Prod.mk.inj hrun
            exact ⟨hclean.journaled, fun cur' hcur => Except.ok.inj hcur ▸ h⟩
          · have hi : Interruptible cur s := ⟨h, hn⟩
            split at hrun
            · rename_i e u hone
              obtain ⟨rfl, rfl⟩ := Prod.mk.inj hrun
              exact ⟨journaled_pruneOneBlock hi hone, fun cur' hcur => absurd hcur (by simp)⟩
            · rename_i u hone
              exact ih (steady_afterBlock hi hone _) (clean_pruneOneBlock hi hone) hrun

theorem journaled_pruneBlocks (retain maxOps : Nat) {s : StableState W} (h : Journaled s) :
    Journaled (pruneBlocks c retain maxOps s).2 := by
  rw [pruneBlocks]
  split_ifs
  · exact h
  · rcases hrec : recoverPruneJournal c s with ⟨r, s₁⟩
    cases r with
    | error e => exact journaled_recover h hrec
    | ok a =>
        have hclean := clean_recover h hrec
        dsimp only
        cases hbefore : pruneBeforeBlock s₁.head.number retain with
        | none => exact hclean.journaled
        | some pruneBefore =>
            have hlt := pruneBeforeBlock_lt hclean.head_le hbefore
            dsimp only
            rcases hloop : pruneLoop c pruneBefore maxOps
              (pruneBefore + 1 - (startCursor s₁.pruneState).next) (startCursor s₁.pruneState) s₁
              with ⟨r, t⟩
            obtain ⟨ht, hsteady⟩ := journaled_pruneLoop hlt (steady_startCursor hclean) hclean hloop
            cases r with
            | error e => exact ht
            | ok cur =>
                have hcur := hsteady cur rfl
                obtain ⟨oldest, hold⟩ := refreshOldest_eq
                  { t with pruneState := { cur.pruneState with nextPruneBlock := cur.next } }
                simp only [finishPrune, hold]
                refine Clean.journaled ⟨hcur.head_le, hcur.pruned_le, hcur.journal, hcur.cursor⟩

inductive PruneRun (c : Crypto) (s₀ : StableState W) : StableState W → Prop
  | start : PruneRun c s₀ s₀
  | call {s : StableState W} (run : PruneRun c s₀ s) (retain maxOps : Nat) :
      PruneRun c s₀ (pruneBlocks c retain maxOps s).2
  | crash {s t : StableState W} {cur : PruneCursor} {block : BlockData} {retain maxOps : Nat}
      (run : PruneRun c s₀ s) (pruning : Pruning c retain maxOps s cur block t) (k : Nat) :
      PruneRun c s₀ (crashed c cur block k t)

theorem interruptible_of_pruning {retain maxOps : Nat} {s t : StableState W} {cur : PruneCursor}
    {block : BlockData} (hs : Journaled s) (h : Pruning c retain maxOps s cur block t) :
    Interruptible cur t := by
  obtain ⟨s₁, pruneBefore, hrec, hbefore, hnext, hreach⟩ := h.reach
  have hclean := clean_recover hs hrec
  have hlt := pruneBeforeBlock_lt hclean.head_le hbefore
  exact ⟨steady_reach hlt (steady_startCursor hclean) hreach, lt_of_le_of_lt hnext hlt⟩

theorem journaled_run {s₀ s : StableState W} (h : Journaled s₀) (run : PruneRun c s₀ s) :
    Journaled s := by
  induction run with
  | start => exact h
  | call _ retain maxOps ih => exact journaled_pruneBlocks retain maxOps ih
  | crash _ pruning k ih => exact journaled_crashed (interruptible_of_pruning ih pruning) k

theorem pruneOneBlock_ok_of_recovered {s : StableState W} {cur : PruneCursor} {block : BlockData}
    {k : Nat} (hi : Interruptible cur s)
    (h : Recovered c (crashed c cur block k s) (pruneOneBlock c cur block s).2) :
    ∃ t, pruneOneBlock c cur block s = (.ok (), t) := by
  rcases hrun : pruneOneBlock c cur block s with ⟨r, t⟩
  cases r with
  | ok a => exact ⟨t, rfl⟩
  | error e =>
      rcases hrec : recoverPruneJournal c (crashed c cur block k s) with ⟨r, u⟩
      rw [hrun] at h
      have hok := h.ok
      have hview := h.view
      rw [hrec] at hok hview
      obtain rfl : r = .ok () := hok
      have hclean := clean_recover (journaled_crashed hi k) hrec
      have hempty : t.pruneJournal = .empty :=
        (congrArg PruneView.pruneJournal hview).symm.trans hclean.journal
      exact absurd hempty (pruneJournal_of_error hi.next_lt hrun)

theorem prune_recovery_iff {s₀ s t : StableState W} {retain maxOps : Nat} {cur : PruneCursor}
    {block : BlockData} (h : Journaled s₀) (run : PruneRun c s₀ s)
    (pruning : Pruning c retain maxOps s cur block t) :
    ∀ k ≤ (blockSteps cur block t).length,
      (Recovered c (crashed c cur block k t) (pruneOneBlock c cur block t).2 ↔
        PtrsLive t.blobStore (collectPtrsForBlock t cur.next block) ∧
          (k = 0 ∨ k = (blockSteps cur block t).length)) := by
  intro k hk
  have hi := interruptible_of_pruning (journaled_run h run) pruning
  rw [← pruneOneBlock_ok_iff (c := c) hi.next_lt]
  constructor
  · intro hrec
    obtain ⟨u, hdone⟩ := pruneOneBlock_ok_of_recovered hi hrec
    rw [hdone] at hrec
    exact ⟨by rw [hdone], (recovered_iff hi pruning.load hdone hk).mp hrec⟩
  · rintro ⟨hok, hcut⟩
    have hdone : pruneOneBlock c cur block t = (.ok (), (pruneOneBlock c cur block t).2) :=
      Prod.ext hok rfl
    exact (recovered_iff hi pruning.load hdone hk).mpr hcut

def oneTxBlock : BlockData :=
  { corruptBlock with number := 1, txIds := [zeroArr 32] }

theorem length_oneTxBlock : oneTxBlock.toBytes.length = 224 := by
  rw [BlockData.toBytes_of_bounded (by decide), BlockData.length_encodeWith]
  rfl

def oneTxPtr : BlobPtr := ⟨0, 224, class8K, 1⟩

def oneTxBlobs : BlobStore where
  arena := BlobStore.writeArena (fun _ => 0) 0 oneTxBlock.toBytes
  arenaPages := 1
  arenaEnd := class8K
  allocTable := OrdMap.empty.insert ⟨class8K, 0⟩ ⟨1, .used⟩
  freeListByClass := .empty
  usageTotals := ⟨class8K, 0, 0, class8K⟩

theorem storeBytes_oneTxBlock :
    BlobStore.empty.storeBytes (fun _ => true) oneTxBlock.toBytes = (.ok oneTxPtr, oneTxBlobs) := by
  have hwrite : oneTxBlock.toBytes.length = oneTxPtr.len := length_oneTxBlock
  have halloc : BlobStore.empty.allocate (fun _ => true) 224 =
      (.ok oneTxPtr, { oneTxBlobs with arena := fun _ => 0 }) := by
    have hclass : smallestClass 224 = .ok class8K := by decide
    have hextend : BlobStore.empty.extend (fun _ => true) class8K =
        .ok { oneTxBlobs with arena := fun _ => 0 } := by
      have hend : checkedAdd u64Max BlobStore.empty.arenaEnd class8K = .ok class8K := if_pos (by decide)
      have hpages : pagesRequired class8K = .ok 1 := by
        rw [pagesRequired, if_neg (by decide), checkedAdd, if_pos (by decide)]
        rfl
      rw [BlobStore.extend, hend]
      have hused : saturatingAdd u64Max 0 class8K = class8K := by decide
      simp only [bind, Except.bind, BlobStore.ensureCapacity, hpages, BlobStore.empty, oneTxBlobs,
        hused, gt_iff_lt, Nat.lt_one_iff, if_true]
    rw [BlobStore.allocate, hclass]
    dsimp only
    rw [if_neg (by decide)]
    have hpop : BlobStore.empty.popFree class8K = (none, .empty) := rfl
    rw [hpop]
    dsimp only
    rw [hextend]
    rfl
  rw [BlobStore.storeBytes, length_oneTxBlock, halloc]
  dsimp only
  rw [BlobStore.write, if_neg (not_not.mpr hwrite)]
  rfl

def emptyCrypto : Crypto where
  keccak256 := fun _ => zeroArr 32
  deriveEvmAddress := fun _ => none
  recoverEthTx := fun _ => none

def oneStoredTx : StoredTxBytes where
  version := storedTxVersion
  txId := zeroArr 32
  kind := .ethSigned
  raw := [1]
  callerEvm := none
  canisterId := ⟨[], by decide⟩
  callerPrincipal := ⟨[7], by decide⟩
  maxFeePerGas := 1
  maxPriorityFeePerGas := 0
  isDynamicFee := false

def oneBlockState : StableState Unit :=
  { StableState.init () with
    head := ⟨2, zeroArr 32, 0⟩
    blobStore := oneTxBlobs
    blocks := OrdMap.empty.insert 1 oneTxPtr
    txStore := OrdMap.empty.insert (zeroArr 32) oneStoredTx
    txLocs := OrdMap.empty.insert (zeroArr 32) (.included 1 0)
    seenTx := OrdMap.empty.insert (zeroArr 32) 1 }

def oneBlockCursor : PruneCursor := (startCursor PruneState.new).advance 0

theorem loadBlock_oneBlockState : loadBlock oneBlockState 1 = some oneTxBlock := by
  have hs : oneTxBlobs.Sound :=
    BlobStore.sound_of_placed BlobStore.sound_empty (BlobStore.storeBytes_ok storeBytes_oneTxBlock).1
  have hread : oneTxBlobs.read oneTxPtr = .ok oneTxBlock.toBytes :=
    BlobStore.read_of_holds hs (BlobStore.holds_storeBytes storeBytes_oneTxBlock)
  have hget : oneBlockState.blocks.get 1 = some oneTxPtr := rfl
  have hblobs : oneBlockState.blobStore = oneTxBlobs := rfl
  have hdecode : BlockData.fromBytes oneTxBlock.toBytes = oneTxBlock :=
    BlockData.fromBytes_toBytes (by decide)
  simp only [loadBlock, hget, hblobs, hread, hdecode]
  rfl

theorem journaled_oneBlockState : Journaled oneBlockState where
  head_le := by decide
  pruned_le := le_refl _
  cursor_le := le_refl _
  keyed := by simp [oneBlockState, StableState.init]

theorem pruning_oneBlockState :
    Pruning emptyCrypto 1 100 oneBlockState oneBlockCursor oneTxBlock oneBlockState where
  limits := by decide
  reach := by
    refine ⟨oneBlockState, 1, ?_, rfl, by decide, ?_⟩
    · rw [recover_of_clean rfl rfl]
      rfl
    · exact PruneReach.skip PruneReach.here (by decide) (loadBlock_none_of_blocks rfl)
  load := loadBlock_oneBlockState
  ops_le := by decide

theorem prune_oneBlockState :
    pruneOneBlock emptyCrypto oneBlockCursor oneTxBlock oneBlockState =
      (.ok (), (pruneOneBlock emptyCrypto oneBlockCursor oneTxBlock oneBlockState).2) := rfl

theorem ptrsLive_oneTxBlobs : PtrsLive oneTxBlobs [oneTxPtr] := by
  intro ptr hm
  obtain rfl := List.mem_singleton.mp hm
  exact ⟨⟨1, .used⟩, rfl, rfl⟩

theorem oneBlockState_recovered :
    Recovered emptyCrypto (crashed emptyCrypto oneBlockCursor oneTxBlock 0 oneBlockState)
        (pruneOneBlock emptyCrypto oneBlockCursor oneTxBlock oneBlockState).2 ∧
      Recovered emptyCrypto (crashed emptyCrypto oneBlockCursor oneTxBlock 13 oneBlockState)
        (pruneOneBlock emptyCrypto oneBlockCursor oneTxBlock oneBlockState).2 := by
  have h := prune_recovery_iff journaled_oneBlockState .start pruning_oneBlockState
  exact ⟨(h 0 (by decide)).mpr ⟨ptrsLive_oneTxBlobs, .inl rfl⟩,
    (h 13 (by decide)).mpr ⟨ptrsLive_oneTxBlobs, .inr rfl⟩⟩

theorem oneBlockState_not_recovered :
    PruneRun emptyCrypto oneBlockState oneBlockState ∧
      Pruning emptyCrypto 1 100 oneBlockState oneBlockCursor oneTxBlock oneBlockState ∧
      (pruneOneBlock emptyCrypto oneBlockCursor oneTxBlock oneBlockState).1 = .ok () ∧
      1 < (blockSteps oneBlockCursor oneTxBlock oneBlockState).length ∧
      ¬ Recovered emptyCrypto (crashed emptyCrypto oneBlockCursor oneTxBlock 1 oneBlockState)
        (pruneOneBlock emptyCrypto oneBlockCursor oneTxBlock oneBlockState).2 := by
  have hi := interruptible_of_pruning journaled_oneBlockState pruning_oneBlockState
  have hlen : 1 < (blockSteps oneBlockCursor oneTxBlock oneBlockState).length := by decide
  exact ⟨.start, pruning_oneBlockState, rfl, hlen,
    not_recovered_in_between hi prune_oneBlockState Nat.one_pos hlen⟩

end Kasane.Chain
