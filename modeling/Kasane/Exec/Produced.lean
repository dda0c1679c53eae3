import Kasane.Chain.ExportView
import Kasane.Exec.ProduceCases

namespace Kasane.Chain

open BigEndian Codec Word Blob

variable {W : Type} {c : Crypto} {evm : Evm W} {env : CallEnv} {maxTxs : Nat} {s s' t : StableState W}

-- whether a record is stored depends on the blob store only
theorem storeBytes_congr {bytes : Bytes} {ptr : BlobPtr} (hblobs : s'.blobStore = s.blobStore)
    (h : storeBytes env s bytes = some (ptr, t)) :
    ∃ t', storeBytes env s' bytes = some (ptr, t') ∧ t'.blobStore = t.blobStore := by
  rw [storeBytes] at h ⊢
  rw [hblobs]
  cases hstore : s.blobStore.storeBytes env.grow bytes with
  | mk r blobs =>
      rw [hstore] at h
      cases r with
      | error e => cases h
      | ok p =>
          obtain ⟨rfl, rfl⟩ := Prod.mk.inj (Option.some.inj h)
          exact ⟨_, rfl, rfl⟩

theorem storeInternalTraces_congr {bytes : Option Bytes} {ptr : Option BlobPtr}
    (hblobs : s'.blobStore = s.blobStore) (h : storeInternalTraces env s bytes = some (ptr, t)) :
    ∃ t', storeInternalTraces env s' bytes = some (ptr, t') ∧ t'.blobStore = t.blobStore := by
  cases bytes with
  | none =>
      obtain ⟨rfl, rfl⟩ := Prod.mk.inj (Option.some.inj h)
      exact ⟨s', rfl, hblobs⟩
  | some bytes =>
      obtain ⟨⟨p, u⟩, hstore, heq⟩ := Option.map_eq_some_iff.mp h
      obtain ⟨rfl, rfl⟩ := Prod.mk.inj heq
      obtain ⟨u', hstore', hsame⟩ := storeBytes_congr hblobs hstore
      refine ⟨u', ?_, hsame⟩
      rw [storeInternalTraces, hstore', Option.map_some]

theorem persistIncluded_congr {number : Nat} {staged : StagedIncluded} {p : StagedPersist}
    (hblobs : s'.blobStore = s.blobStore) (h : persistIncluded env number s staged = some (p, t)) :
    ∃ t', persistIncluded env number s' staged = some (p, t') ∧ t'.blobStore = t.blobStore := by
  obtain ⟨⟨ptr₁, u₁⟩, h₁, h⟩ := Option.bind_eq_some_iff.mp h
  obtain ⟨⟨ptr₂, u₂⟩, h₂, h⟩ := Option.bind_eq_some_iff.mp h
  obtain ⟨⟨ptr₃, u₃⟩, h₃, h⟩ := Option.bind_eq_some_iff.mp h
  obtain ⟨rfl, rfl⟩ := Prod.mk.inj (Option.some.inj h)
  obtain ⟨v₁, h₁', hsame₁⟩ := storeBytes_congr hblobs h₁
  obtain ⟨v₂, h₂', hsame₂⟩ := storeBytes_congr hsame₁ h₂
  obtain ⟨v₃, h₃', hsame₃⟩ := storeInternalTraces_congr hsame₂ h₃
  refine ⟨v₃, ?_, hsame₃⟩
  rw [persistIncluded, h₁', Option.bind_eq_bind, Option.bind_some]
  dsimp only
  rw [h₂', Option.bind_eq_bind, Option.bind_some]
  dsimp only
  rw [h₃']
  rfl

theorem persistAll_congr {number : Nat} {included : List StagedIncluded}
    {persisted : List StagedPersist} (hblobs : s'.blobStore = s.blobStore)
    (h : persistAll env number included s = some (persisted, t)) :
    ∃ t', persistAll env number included s' = some (persisted, t') ∧ t'.blobStore = t.blobStore := by
  induction included generalizing s s' persisted with
  | nil =>
      obtain ⟨rfl, rfl⟩ := Prod.mk.inj (Option.some.inj h)
      exact ⟨s', rfl, hblobs⟩
  | cons staged rest ih =>
      obtain ⟨⟨p, u⟩, hstaged, h⟩ := Option.bind_eq_some_iff.mp h
      obtain ⟨⟨tail, v⟩, hrest, h⟩ := Option.bind_eq_some_iff.mp h
      obtain ⟨rfl, rfl⟩ := Prod.mk.inj (Option.some.inj h)
      obtain ⟨u', hstaged', hsame⟩ := persistIncluded_congr hblobs hstaged
      obtain ⟨v', hrest', hsame'⟩ := ih hsame hrest
      refine ⟨v', ?_, hsame'⟩
      rw [persistAll, hstaged', Option.bind_eq_bind, Option.bind_some]
      dsimp only
      rw [hrest']
      rfl

theorem storeBlock_congr {block : BlockData} {ptr : BlobPtr} (hblobs : s'.blobStore = s.blobStore)
    (h : storeBlock env s block = some (ptr, t)) :
    ∃ t', storeBlock env s' block = some (ptr, t') := by
  obtain ⟨⟨p, u⟩, hstore, heq⟩ := Option.map_eq_some_iff.mp h
  obtain ⟨u', hstore', -⟩ := storeBytes_congr hblobs hstore
  obtain rfl := (Prod.mk.inj heq).1
  rw [storeBlock, hstore', Option.map_some]
  exact ⟨_, rfl⟩

-- a world does not decide whether a block is committed
theorem commitBlock_congr {ctx : BlockExecContext} {gasUsed : Nat} {block : BlockData}
    {drops : List QueuedDrop} {included : List StagedIncluded} (world : W)
    (hblobs : s'.blobStore = s.blobStore)
    (h : commitBlock c evm env ctx gasUsed block drops included s = some t) :
    ∃ t', commitBlock c evm env ctx gasUsed block drops included { s' with world := world } = some t' := by
  have hdropped (s : StableState W) : (applyDrops c evm s drops).blobStore = s.blobStore :=
    congrArg ExportView.blobStore (view_applyDrops s drops)
  obtain ⟨⟨persisted, u⟩, hpersist, h⟩ := Option.bind_eq_some_iff.mp h
  obtain ⟨⟨ptr, v⟩, hstore, -⟩ := Option.bind_eq_some_iff.mp h
  have hstart : (applyDrops c evm { s' with world := world } drops).blobStore = (applyDrops c evm s drops).blobStore := by
    rw [hdropped, hdropped]
    exact hblobs
  obtain ⟨u', hpersist', hsame⟩ := persistAll_congr hstart hpersist
  obtain ⟨v', hstore'⟩ := storeBlock_congr hsame hstore
  rw [commitBlock]
  dsimp only
  rw [hpersist', Option.bind_eq_bind, Option.bind_some]
  dsimp only
  rw [hstore']
  exact ⟨_, rfl⟩

theorem prepared_ne_nil {x : ExecState evm} (h : executeBlock c evm env maxTxs s = .ok x)
    (hincluded : x.included ≠ []) : stagedTxs c env maxTxs s ≠ [] := by
  intro hnone
  rw [executeBlock, hnone] at h
  obtain rfl := Except.ok.inj h
  exact hincluded rfl

theorem selected_ne_nil {x : ExecState evm} (h : executeBlock c evm env maxTxs s = .ok x)
    (hincluded : x.included ≠ []) : selectReadyCandidates c s s.chainState.baseFee maxTxs ≠ [] := by
  intro hnone
  have hlen := (executeBlock_selected h).length_le
  rw [hnone, List.length_append, List.length_map, List.length_map, List.length_nil] at hlen
  exact hincluded (List.length_eq_zero_iff.mp (by omega))

-- a block whose root is prepared and whose records fit is produced
theorem produceBlock_of_prepared {u : StableState W} {x : ExecState evm} {root : evm.Root} {world : W}
    (hmax : maxTxs ≠ 0) (hexecuted : executeBlock c evm env maxTxs s = .ok x)
    (hincluded : x.included ≠ [])
    (hprepared : evm.prepare s.world x.diffs (blockContext env s).blockNumber s.head.blockHash
      (blockContext env s).timestamp = (.ok root, world))
    (hcommitted : commitBlock c evm env (blockContext env s) x.gasUsed
      (makeBlock c s.head.blockHash (blockContext env s) x.gasUsed
        (x.included.map StagedIncluded.txId) (evm.stateRoot root)) x.drops x.included s = some u) :
    ∃ outcome t, produceBlock c evm env maxTxs s = some (.ok outcome, t) := by
  obtain ⟨m, hstate⟩ := (prepareBlock_prepares c env maxTxs s).1
  have hblobs : (prepareBlock c env maxTxs s).state.blobStore = s.blobStore :=
    by rw [hstate]
  have hstaged := prepared_ne_nil hexecuted hincluded
  have hselected := selected_ne_nil hexecuted hincluded
  rw [executeBlock_eq] at hexecuted
  rw [← world_prepareBlock (c := c) env maxTxs s] at hprepared
  rw [produceBlock, if_neg hmax]
  dsimp only
  rw [if_neg hselected]
  split
  · rename_i hnone
    exact absurd hnone hstaged
  · split
    · rename_i e he
      cases he.symm.trans hexecuted
    · rename_i y hy
      obtain rfl := Except.ok.inj (hy.symm.trans hexecuted)
      rw [if_neg hincluded]
      split
      · rename_i reason w hw
        cases (Prod.mk.inj (hw.symm.trans hprepared)).1
      · rename_i root' w hw
        obtain ⟨hroot, rfl⟩ := Prod.mk.inj (hw.symm.trans hprepared)
        obtain rfl := Except.ok.inj hroot
        obtain ⟨t, ht⟩ := commitBlock_congr _ hblobs hcommitted
        exact ⟨_, t, Option.map_eq_some_iff.mpr ⟨t, ht, rfl⟩⟩

end Kasane.Chain
