import Kasane.Lib.BatchWalk
import Kasane.Chain.State

namespace Kasane.Chain

open BigEndian Codec Word Blob BatchWalk

structure TxLocMaps where
  txLocs : OrdMap TxId TxLoc
  txLocsV3 : OrdMap TxId TxLoc

def copyTxLoc (s : TxLocMaps) (entry : TxId × TxLoc) : TxLocMaps :=
  { s with txLocsV3 := s.txLocsV3.insert entry.1 entry.2 }

def migrateTxLocsBatch (startKey : Option TxId) (maxItems : Nat) (s : TxLocMaps) :
    TxLocMaps × Option TxId × Nat × Bool :=
  batch TxLocMaps.txLocs copyTxLoc startKey maxItems s

variable {W : Type} (c : Crypto)

def indexEthTxHash (s : StableState W) (entry : TxId × StoredTxBytes) : StableState W :=
  match StoredTx.tryFrom c entry.2 with
  | .ok stored =>
      if stored.kind = .ethSigned then
        { s with ethTxHashIndex := s.ethTxHashIndex.insert (c.keccak256 stored.raw) entry.1 }
      else s
  | .error _ => s

def rebuildEthTxHashIndexBatch (startKey : Option TxId) (maxItems : Nat) (s : StableState W) :
    StableState W × Option TxId × Nat × Bool :=
  batch StableState.txStore (indexEthTxHash c) startKey maxItems s

-- an Ethereum transaction that decodes, with this hash of its raw bytes
def HashesTo (hash : TxId) (bytes : StoredTxBytes) : Prop :=
  ∃ stored, StoredTx.tryFrom c bytes = .ok stored ∧ stored.kind = .ethSigned ∧
    c.keccak256 stored.raw = hash

structure TxLocsMigrated (s t : TxLocMaps) (counts : List Nat) : Prop where
  source : t.txLocs = s.txLocs
  once : t = s.txLocs.entries.foldl copyTxLoc s
  counted : counts.sum = s.txLocs.len
  target : ∀ id, t.txLocsV3.get id = (s.txLocs.get id).or (s.txLocsV3.get id)

structure EthTxHashesIndexed (s t : StableState W) (counts : List Nat) : Prop where
  source : t.txStore = s.txStore
  once : t = s.txStore.entries.foldl (indexEthTxHash c) s
  counted : counts.sum = s.txStore.len
  target : ∀ hash id, t.ethTxHashIndex.get hash = some id ↔
    (∃ bytes, s.txStore.get id = some bytes ∧ HashesTo c hash bytes ∧
      ∀ j other, s.txStore.get j = some other → HashesTo c hash other → j ≤ id) ∨
    ((∀ j other, s.txStore.get j = some other → ¬ HashesTo c hash other) ∧
      s.ethTxHashIndex.get hash = some id)

theorem target_copied (s : TxLocMaps) (id : TxId) :
    (s.txLocs.entries.foldl copyTxLoc s).txLocsV3.get id =
      (s.txLocs.get id).or (s.txLocsV3.get id) := by
  have hget := OrdMap.get_foldl_keyed (fun s : TxLocMaps => s.txLocsV3.get) copyTxLoc
    (fun _ loc => some loc) (fun s e => (OrdMap.get_insert ..).trans (if_pos rfl))
    (fun s e k hne => (OrdMap.get_insert ..).trans (if_neg hne)) s.txLocs.keys_nodup s id
  refine hget.trans ?_
  cases hloc : s.txLocs.get id with
  | none => rw [show OrdMap.lookupIn id s.txLocs.entries = none from hloc]; rfl
  | some loc => rw [show OrdMap.lookupIn id s.txLocs.entries = some loc from hloc]; rfl

variable {c}

theorem get_indexEthTxHash (s : StableState W) (entry : TxId × StoredTxBytes) (hash id : TxId) :
    (indexEthTxHash c s entry).ethTxHashIndex.get hash = some id ↔
      (HashesTo c hash entry.2 ∧ entry.1 = id) ∨
        (¬ HashesTo c hash entry.2 ∧ s.ethTxHashIndex.get hash = some id) := by
  rw [indexEthTxHash, HashesTo]
  cases htx : StoredTx.tryFrom c entry.2 with
  | error e => simp
  | ok stored =>
      dsimp only
      split_ifs with hkind
      · rw [OrdMap.get_insert]
        by_cases hhash : c.keccak256 stored.raw = hash
        · simp [hkind, hhash]
        · simp [hkind, hhash, Ne.symm hhash]
      · simp [hkind]

theorem frame_indexEthTxHash (s : StableState W) (entry : TxId × StoredTxBytes) :
    (indexEthTxHash c s entry).txStore = s.txStore := by
  rw [indexEthTxHash]
  split
  · split_ifs
    · rfl
    · rfl
  · rfl

-- entries come in the order of their ids, so the greatest id that has a hash keeps it
theorem get_foldl_indexEthTxHash {entries : List (TxId × StoredTxBytes)}
    (sorted : entries.Pairwise (fun a b => a.1 < b.1)) (s : StableState W) (hash id : TxId) :
    (entries.foldl (indexEthTxHash c) s).ethTxHashIndex.get hash = some id ↔
      (∃ e ∈ entries, e.1 = id ∧ HashesTo c hash e.2 ∧
        ∀ e' ∈ entries, HashesTo c hash e'.2 → e'.1 ≤ id) ∨
      ((∀ e ∈ entries, ¬ HashesTo c hash e.2) ∧ s.ethTxHashIndex.get hash = some id) := by
  induction entries generalizing s with
  | nil => simp
  | cons e entries ih =>
      obtain ⟨hlater, hsorted⟩ := List.pairwise_cons.mp sorted
      rw [List.foldl_cons, ih hsorted, get_indexEthTxHash, List.exists_mem_cons_iff]
      simp only [List.forall_mem_cons]
      constructor
      · rintro (⟨e', hmem, rfl, hhash, hgreatest⟩ | ⟨hnone, ⟨hhash, rfl⟩ | ⟨hnot, hget⟩⟩)
        · exact .inl (.inr ⟨e', hmem, rfl, hhash, fun _ => le_of_lt (hlater e' hmem), hgreatest⟩)
        · exact .inl (.inl ⟨rfl, hhash, fun _ => le_rfl,
            fun e' hmem h => absurd h (hnone e' hmem)⟩)
        · exact .inr ⟨⟨hnot, hnone⟩, hget⟩
      · rintro ((⟨rfl, hhash, -, hgreatest⟩ | ⟨e', hmem, rfl, hhash, -, hgreatest⟩) |
          ⟨⟨hnot, hnone⟩, hget⟩)
        · exact .inr ⟨fun e' hmem h => absurd (hgreatest e' hmem h) (not_le.mpr (hlater e' hmem)),
            .inl ⟨hhash, rfl⟩⟩
        · exact .inl ⟨e', hmem, rfl, hhash, hgreatest⟩
        · exact .inr ⟨hnone, .inr ⟨hnot, hget⟩⟩

theorem target_indexed (s : StableState W) (hash id : TxId) :
    (s.txStore.entries.foldl (indexEthTxHash c) s).ethTxHashIndex.get hash = some id ↔
      (∃ bytes, s.txStore.get id = some bytes ∧ HashesTo c hash bytes ∧
        ∀ j other, s.txStore.get j = some other → HashesTo c hash other → j ≤ id) ∨
      ((∀ j other, s.txStore.get j = some other → ¬ HashesTo c hash other) ∧
        s.ethTxHashIndex.get hash = some id) := by
  rw [get_foldl_indexEthTxHash s.txStore.sorted]
  simp only [Prod.forall, Prod.exists, OrdMap.mem_entries]
  refine or_congr ⟨?_, ?_⟩ Iff.rfl
  · rintro ⟨j, bytes, hget, rfl, hhash, hgreatest⟩
    exact ⟨bytes, hget, hhash, hgreatest⟩
  · rintro ⟨bytes, hget, hhash, hgreatest⟩
    exact ⟨id, bytes, hget, rfl, hhash, hgreatest⟩

theorem frame_copyTxLoc (s : TxLocMaps) (entry : TxId × TxLoc) :
    (copyTxLoc s entry).txLocs = s.txLocs := rfl

theorem tx_locs_migrated {s t : TxLocMaps} {limits counts : List Nat}
    (hlimits : ∀ limit ∈ limits, 1 ≤ limit ∧ limit ≤ u32Max)
    (calls : Calls migrateTxLocsBatch none s limits counts t) : TxLocsMigrated s t counts := by
  obtain ⟨rfl, hcount⟩ := Calls.complete frame_copyTxLoc hlimits calls
  exact ⟨source_foldl frame_copyTxLoc s.txLocs.entries s, rfl, hcount, target_copied s⟩

theorem eth_tx_hashes_indexed {s t : StableState W} {limits counts : List Nat}
    (hlimits : ∀ limit ∈ limits, 1 ≤ limit ∧ limit ≤ u32Max)
    (calls : Calls (rebuildEthTxHashIndexBatch c) none s limits counts t) :
    EthTxHashesIndexed c s t counts := by
  obtain ⟨rfl, hcount⟩ := Calls.complete frame_indexEthTxHash hlimits calls
  exact ⟨source_foldl frame_indexEthTxHash s.txStore.entries s, rfl, hcount, target_indexed s⟩

def IsEthTxHashIndex (c : Crypto) (store : OrdMap TxId StoredTxBytes) (index : OrdMap TxId TxId) :
    Prop :=
  ∀ hash id, index.get hash = some id ↔
    ∃ bytes, store.get id = some bytes ∧ HashesTo c hash bytes ∧
      ∀ j other, store.get j = some other → HashesTo c hash other → j ≤ id

theorem TxLocsMigrated.equal_iff {s t : TxLocMaps} {counts : List Nat}
    (h : TxLocsMigrated s t counts) : t.txLocsV3 = s.txLocs ↔
      ∀ id, (s.txLocsV3.get id).isSome → (s.txLocs.get id).isSome := by
  constructor
  · intro hsame id hold
    have hget := h.target id
    rw [hsame] at hget
    cases hloc : s.txLocs.get id with
    | none =>
        rw [hloc, Option.none_or] at hget
        rw [← hget] at hold
        exact hold
    | some loc => rfl
  · intro hsub
    refine OrdMap.ext_get (fun id => ?_)
    rw [h.target]
    cases hloc : s.txLocs.get id with
    | none =>
        have hnone : s.txLocsV3.get id = none := by
          by_contra hsome
          have := hsub id (Option.isSome_iff_ne_none.mpr hsome)
          rw [hloc] at this
          exact absurd this (by simp)
        rw [hnone]
        rfl
    | some loc => rfl

theorem EthTxHashesIndexed.index_iff {s t : StableState W} {counts : List Nat}
    (h : EthTxHashesIndexed c s t counts) : IsEthTxHashIndex c t.txStore t.ethTxHashIndex ↔
      ∀ hash, (s.ethTxHashIndex.get hash).isSome →
        ∃ id bytes, s.txStore.get id = some bytes ∧ HashesTo c hash bytes := by
  rw [h.source]
  constructor
  · intro hindex hash hold
    obtain ⟨id, hid⟩ := Option.isSome_iff_exists.mp hold
    by_contra hnone
    have hkept := (h.target hash id).mpr
      (.inr ⟨fun j other hj hhash => hnone ⟨j, other, hj, hhash⟩, hid⟩)
    obtain ⟨bytes, hbytes, hhash, -⟩ := (hindex hash id).mp hkept
    exact hnone ⟨id, bytes, hbytes, hhash⟩
  · intro hfresh hash id
    refine (h.target hash id).trans ⟨?_, .inl⟩
    rintro (hindexed | ⟨hnone, hold⟩)
    · exact hindexed
    · obtain ⟨j, other, hj, hhash⟩ := hfresh hash (Option.isSome_iff_exists.mpr ⟨id, hold⟩)
      exact absurd hhash (hnone j other hj)

theorem batches_complete (c : Crypto) {limits : Nat → Nat}
    (hlimits : ∀ i, 1 ≤ limits i ∧ limits i ≤ u32Max) :
    (∀ s : TxLocMaps,
      (∃ n counts t, n ≤ s.txLocs.len + 1 ∧
        Calls migrateTxLocsBatch none s ((List.range n).map limits) counts t) ∧
      ∀ n counts t, Calls migrateTxLocsBatch none s ((List.range n).map limits) counts t →
        TxLocsMigrated s t counts ∧ (t.txLocsV3 = s.txLocs ↔
          ∀ id, (s.txLocsV3.get id).isSome → (s.txLocs.get id).isSome)) ∧
    (∀ s : StableState W,
      (∃ n counts t, n ≤ s.txStore.len + 1 ∧
        Calls (rebuildEthTxHashIndexBatch c) none s ((List.range n).map limits) counts t) ∧
      ∀ n counts t,
        Calls (rebuildEthTxHashIndexBatch c) none s ((List.range n).map limits) counts t →
        EthTxHashesIndexed c s t counts ∧
          (IsEthTxHashIndex c t.txStore t.ethTxHashIndex ↔
            ∀ hash, (s.ethTxHashIndex.get hash).isSome →
              ∃ id bytes, s.txStore.get id = some bytes ∧ HashesTo c hash bytes)) := by
  have hmem (n : Nat) : ∀ limit ∈ (List.range n).map limits, 1 ≤ limit ∧ limit ≤ u32Max := by
    intro limit hlimit
    obtain ⟨i, -, rfl⟩ := List.mem_map.mp hlimit
    exact hlimits i
  refine ⟨fun s => ⟨?_, fun n counts t calls => ?_⟩, fun s => ⟨?_, fun n counts t calls => ?_⟩⟩
  · obtain ⟨n, counts, t, hn, calls⟩ := Calls.ends frame_copyTxLoc hlimits none s 0
    exact ⟨n, counts, t, hn, List.range_eq_range' ▸ calls⟩
  · have migrated := tx_locs_migrated (hmem n) calls
    exact ⟨migrated, migrated.equal_iff⟩
  · obtain ⟨n, counts, t, hn, calls⟩ :=
      Calls.ends (frame_indexEthTxHash (c := c)) hlimits none s 0
    exact ⟨n, counts, t, hn, List.range_eq_range' ▸ calls⟩
  · have indexed := eth_tx_hashes_indexed (hmem n) calls
    exact ⟨indexed, indexed.index_iff⟩

def twoTxLocs : TxLocMaps where
  txLocs := (OrdMap.empty.insert (zeroArr 32) (.queued 0)).insert (.replicate 32 1) (.included 1 0)
  txLocsV3 := .empty

theorem twoTxLocs_migrated :
    ∃ n counts t, n ≤ 3 ∧
      Calls migrateTxLocsBatch none twoTxLocs ((List.range n).map (fun _ => 1)) counts t ∧
      counts.sum = 2 ∧ t.txLocsV3 = twoTxLocs.txLocs := by
  obtain ⟨htxLocs, -⟩ := @batches_complete Unit ⟨fun _ => zeroArr 32, fun _ => none, fun _ => none⟩
    (fun _ => 1) (fun _ => ⟨le_rfl, by decide⟩)
  obtain ⟨⟨n, counts, t, hn, calls⟩, hall⟩ := htxLocs twoTxLocs
  obtain ⟨migrated, hequal⟩ := hall n counts t calls
  exact ⟨n, counts, t, hn, calls, migrated.counted, hequal.mpr (fun _ h => absurd h (by simp [twoTxLocs]))⟩

-- an entry that only the target holds survives a migration that is done
theorem staleTarget_kept :
    ¬ ∀ (s t : TxLocMaps) (limits counts : List Nat),
      (∀ limit ∈ limits, 1 ≤ limit ∧ limit ≤ u32Max) →
      Calls migrateTxLocsBatch none s limits counts t → t.txLocsV3 = s.txLocs := by
  intro h
  have hsame := h ⟨.empty, OrdMap.empty.insert (zeroArr 32) (.dropped 1)⟩ _ [1] [0] (by decide)
    (.last rfl)
  exact absurd (congrArg OrdMap.len hsame) (by decide)

end Kasane.Chain
