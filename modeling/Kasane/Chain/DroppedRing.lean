import Kasane.Chain.Located

namespace Kasane.Chain

open BigEndian Codec Word Blob

variable {W : Type} {c : Crypto}

-- anything that neither touches the ring nor marks a transaction as dropped
structure KeepsRing (s t : StableState W) : Prop where
  ring : t.droppedRing = s.droppedRing
  state : t.droppedRingState = s.droppedRingState
  locs : ∀ id loc, t.txLocs.get id = some loc → loc.kind = .dropped → s.txLocs.get id = some loc

theorem KeepsRing.of_eq {s t : StableState W} (hring : t.droppedRing = s.droppedRing)
    (hstate : t.droppedRingState = s.droppedRingState) (hlocs : t.txLocs = s.txLocs) :
    KeepsRing s t :=
  ⟨hring, hstate, fun _ _ hloc _ => hlocs ▸ hloc⟩

-- a run in which the listed transactions were dropped, in this order
inductive Drops (c : Crypto) (s : StableState W) : List TxId → StableState W → Prop
  | start : Drops c s [] s
  | drop {ids : List TxId} {t : StableState W} (run : Drops c s ids t) (id : TxId)
      (code : DropCode) : Drops c s (ids ++ [id]) (markDroppedAndPurgePayload c t id code)
  | other {ids : List TxId} {t u : StableState W} (run : Drops c s ids t) (keeps : KeepsRing t u) :
      Drops c s ids u

theorem Drops.trans {s t u : StableState W} {ids ids' : List TxId} (h : Drops c s ids t)
    (h' : Drops c t ids' u) : Drops c s (ids ++ ids') u := by
  induction h' with
  | start => rwa [List.append_nil]
  | drop _ id code ih =>
      rw [← List.append_assoc]
      exact ih.drop id code
  | other _ keeps ih => exact ih.other keeps

def Remembered (s : StableState W) (id : TxId) : Prop := ∃ k, s.droppedRing.get k = some id

-- the ring after n drops, as long as the sequence counter has not saturated
structure Ringed (ids : List TxId) (s : StableState W) : Prop where
  nextSeq : s.droppedRingState.nextSeq = ids.length
  len : s.droppedRingState.len = min ids.length droppedRingCapacity
  held : ∀ k id, s.droppedRing.get k = some id ↔
    ids.length ≤ k + droppedRingCapacity ∧ ids[k]? = some id
  located : ∀ id loc, s.txLocs.get id = some loc → loc.kind = .dropped → Remembered s id

theorem ringed_init (world : W) : Ringed [] (StableState.init world) where
  nextSeq := rfl
  len := rfl
  held := fun k id => by simp [StableState.init]
  located := fun id loc h => absurd h (by simp [StableState.init])

theorem Ringed.keeps {ids : List TxId} {s t : StableState W} (h : Ringed ids s)
    (keeps : KeepsRing s t) : Ringed ids t where
  nextSeq := keeps.state ▸ h.nextSeq
  len := keeps.state ▸ h.len
  held := keeps.ring ▸ h.held
  located := by
    intro id loc hloc hkind
    rw [Remembered, keeps.ring]
    exact h.located id loc (keeps.locs id loc hloc hkind) hkind

theorem insertSeq_push (ring : DroppedRingState) (capacity : Nat) :
    (ring.push capacity).insertSeq = ring.nextSeq := by
  rw [DroppedRingState.push]
  split_ifs
  · rfl
  · rfl

def evictedBy (s : StableState W) (id : TxId) : Option TxId :=
  (s.droppedRingState.push droppedRingCapacity).evictSeq.bind
    (s.droppedRing.insert s.droppedRingState.nextSeq id).get

theorem ringState_push (s : StableState W) (id : TxId) :
    (pushDroppedRing s id).droppedRingState =
      (s.droppedRingState.push droppedRingCapacity).next := rfl

theorem ring_push (s : StableState W) (id : TxId) (k : Nat) :
    (pushDroppedRing s id).droppedRing.get k =
      if (s.droppedRingState.push droppedRingCapacity).evictSeq = some k then none
      else if k = s.droppedRingState.nextSeq then some id
      else s.droppedRing.get k := by
  rw [pushDroppedRing, ← OrdMap.get_insert]
  simp only [insertSeq_push]
  split
  · rename_i hevict
    rw [hevict, if_neg (by simp)]
  · rename_i e hevict
    rw [hevict]
    simp only [Option.some.injEq]
    split
    · rename_i hnone
      split_ifs with hk
      · exact hk ▸ hnone
      · rfl
    · have hremoved :
          ((s.droppedRing.insert s.droppedRingState.nextSeq id).remove e).get k =
            if e = k then none else (s.droppedRing.insert s.droppedRingState.nextSeq id).get k :=
        (OrdMap.get_remove ..).trans (if_congr eq_comm rfl rfl)
      split
      · split
        · exact hremoved
        · exact hremoved
      · exact hremoved

theorem locs_push (s : StableState W) (id j : TxId) :
    (pushDroppedRing s id).txLocs.get j =
      if evictedBy s id = some j then (s.txLocs.get j).filter (fun loc => loc.kind ≠ .dropped)
      else s.txLocs.get j := by
  rw [pushDroppedRing, evictedBy]
  simp only [insertSeq_push]
  split
  · rename_i hevict
    rw [hevict, Option.bind_none, if_neg (by simp)]
  · rename_i e hevict
    rw [hevict, Option.bind_some]
    split
    · rename_i hnone
      rw [hnone, if_neg (by simp)]
    · rename_i evicted hget
      rw [hget]
      simp only [Option.some.injEq]
      split
      · rename_i loc hloc
        have hfound : s.txLocs.get evicted = some loc := (Option.filter_eq_some_iff.mp hloc).1
        split
        · rename_i hkind
          refine (OrdMap.get_remove ..).trans ?_
          by_cases hj : j = evicted
          · rw [if_pos hj, if_pos hj.symm, hj, hfound, Option.filter_some, if_neg (by simp [hkind])]
          · rw [if_neg hj, if_neg (Ne.symm hj)]
        · rename_i hkind
          by_cases hj : evicted = j
          · subst hj
            rw [if_pos rfl]
            exact hfound.trans (by rw [hfound, Option.filter_some, if_pos (by simp [hkind])])
          · rw [if_neg hj]
      · rename_i hunread
        by_cases hj : evicted = j
        · subst hj
          rw [if_pos rfl]
          cases hfound : s.txLocs.get evicted with
          | none => rfl
          | some loc =>
              have hplaceholder := Option.filter_eq_none_iff.mp hunread loc hfound
              have hkind : loc.kind = .queued := by
                simp only [TxLoc.isDecodeFailurePlaceholder, Bool.not_eq_true', Bool.not_eq_false,
                  decide_eq_true_eq] at hplaceholder
                exact hplaceholder.1
              rw [Option.filter_some, if_pos (by simp [hkind])]
        · rw [if_neg hj]

-- what dropping a transaction does to the ring and to the locations
theorem ring_markDropped (s : StableState W) (id : TxId) (code : DropCode) :
    ∃ u : StableState W, u.droppedRing = s.droppedRing ∧ u.droppedRingState = s.droppedRingState ∧
      u.txLocs = s.txLocs.insert id (.dropped code.toNat) ∧
      markDroppedAndPurgePayload c s id code = pushDroppedRing u id := by
  obtain ⟨keys, index, hfee⟩ := removePendingFeeIndexByTxId_eq s id
  obtain ⟨hashes, hhashes⟩ := removeEthTxHashIndexForTxId_eq c
    { s with pendingFeeKeyByTxId := keys, pendingFeeIndex := index } id
  rw [markDroppedAndPurgePayload, hfee, hhashes]
  refine ⟨_, ?_, ?_, ?_, rfl⟩
  · rfl
  · rfl
  · rfl

theorem evictSeq_push {ring : DroppedRingState} {n : Nat} (hseq : ring.nextSeq = n)
    (hlen : ring.len = min n droppedRingCapacity) (k : Nat) :
    (ring.push droppedRingCapacity).evictSeq = some k ↔ k + droppedRingCapacity = n := by
  have hcap : droppedRingCapacity = 1000 := rfl
  rw [DroppedRingState.push]
  split_ifs with hroom
  · simp only [false_iff]
    omega
  · simp only [Option.some.injEq]
    omega

theorem Ringed.drop {ids : List TxId} {s : StableState W} (h : Ringed ids s)
    (few : ids.length < u64Max) (id : TxId) (code : DropCode) :
    Ringed (ids ++ [id]) (markDroppedAndPurgePayload c s id code) := by
  have hcap : droppedRingCapacity = 1000 := rfl
  have hword : droppedRingCapacity ≤ u32Max := by decide
  obtain ⟨u, hring, hstate, hlocs, heq⟩ := ring_markDropped (c := c) s id code
  have hevict := evictSeq_push (hstate ▸ h.nextSeq) (hstate ▸ h.len)
  have hseq : u.droppedRingState.nextSeq = ids.length := hstate ▸ h.nextSeq
  have hlen : u.droppedRingState.len = min ids.length droppedRingCapacity := hstate ▸ h.len
  have hheld (k : Nat) (j : TxId) : (pushDroppedRing u id).droppedRing.get k = some j ↔
      (ids ++ [id]).length ≤ k + droppedRingCapacity ∧ (ids ++ [id])[k]? = some j := by
    rw [ring_push, hring, hseq, List.length_append, List.length_singleton]
    by_cases hgone : k + droppedRingCapacity = ids.length
    · rw [if_pos ((hevict k).mpr hgone)]
      simp only [reduceCtorEq, false_iff, not_and]
      omega
    · rw [if_neg (fun h => hgone ((hevict k).mp h))]
      rcases lt_trichotomy k ids.length with hk | rfl | hk
      · rw [if_neg (by omega), h.held, List.getElem?_append_left hk]
        exact and_congr (by omega) Iff.rfl
      · rw [if_pos rfl, List.getElem?_concat_length]
        exact ⟨fun h => ⟨by omega, h⟩, fun h => h.2⟩
      · rw [if_neg (by omega), h.held, List.getElem?_eq_none (by omega),
          List.getElem?_eq_none (by rw [List.length_append, List.length_singleton]; omega)]
        simp
  rw [heq]
  refine ⟨?_, ?_, hheld, ?_⟩
  · rw [ringState_push, DroppedRingState.push, List.length_append, List.length_singleton]
    split_ifs
    · exact (Nat.min_eq_left (by omega)).trans (by rw [hseq])
    · exact (Nat.min_eq_left (by omega)).trans (by rw [hseq])
  · rw [ringState_push, DroppedRingState.push, List.length_append, List.length_singleton]
    split_ifs with hroom
    · exact (Nat.min_eq_left (by omega)).trans (by omega)
    · dsimp only
      omega
  · intro j loc hloc hkind
    rw [locs_push, hlocs] at hloc
    split_ifs at hloc with hleft
    · exact absurd hkind (by simpa using (Option.filter_eq_some_iff.mp hloc).2)
    · by_cases hj : j = id
      · exact ⟨ids.length, (hheld _ _).mpr ⟨by simp [hcap], by simp [hj]⟩⟩
      · rw [OrdMap.get_insert, if_neg hj] at hloc
        obtain ⟨k, hk⟩ := h.located j loc hloc hkind
        obtain ⟨-, hk'⟩ := (h.held k j).mp hk
        have hbefore := (List.getElem?_eq_some_iff.mp hk').1
        have hkept : ¬ (u.droppedRingState.push droppedRingCapacity).evictSeq = some k := by
          intro hgone
          apply hleft
          rw [evictedBy, hgone, Option.bind_some, OrdMap.get_insert, if_neg (by omega), hring, hk]
        refine ⟨k, ?_⟩
        rw [ring_push, if_neg hkept, if_neg (by omega), hring, hk]

theorem ringed_drops {world : W} {ids : List TxId} {s : StableState W}
    (drops : Drops c (.init world) ids s) (few : ids.length ≤ u64Max) : Ringed ids s := by
  induction drops with
  | start => exact ringed_init world
  | @drop ids t _ id code ih =>
      rw [List.length_append, List.length_singleton] at few
      exact (ih (Nat.le_of_succ_le few)).drop few id code
  | other _ keeps ih => exact (ih few).keeps keeps

def lastDropped (ids : List TxId) : List TxId := ids.drop (ids.length - droppedRingCapacity)

structure RingHolds (ids : List TxId) (s : StableState W) : Prop where
  len : s.droppedRingState.len = min ids.length droppedRingCapacity
  room : s.droppedRingState.len ≤ s.droppedRingState.nextSeq
  held : ∀ k id, s.droppedRing.get k = some id ↔
    ∃ i, k + s.droppedRingState.len = s.droppedRingState.nextSeq + i ∧
      (lastDropped ids)[i]? = some id
  forgotten : ∀ id ∈ ids, ¬ Remembered s id →
    ∀ loc, s.txLocs.get id = some loc → loc.kind ≠ .dropped

theorem Ringed.holds {ids : List TxId} {s : StableState W} (h : Ringed ids s) : RingHolds ids s where
  len := h.len
  room := by
    rw [h.len, h.nextSeq]
    exact Nat.min_le_left ..
  held := by
    intro k id
    have hcap : droppedRingCapacity = 1000 := rfl
    rw [h.held, h.len, h.nextSeq]
    simp only [lastDropped, List.getElem?_drop]
    constructor
    · rintro ⟨hrecent, hget⟩
      have hlt := (List.getElem?_eq_some_iff.mp hget).1
      refine ⟨k + min ids.length droppedRingCapacity - ids.length, by omega, ?_⟩
      rw [← hget]
      congr 1
      omega
    · rintro ⟨i, hk, hget⟩
      have hlt := (List.getElem?_eq_some_iff.mp hget).1
      refine ⟨by omega, ?_⟩
      rw [← hget]
      congr 1
      omega
  forgotten := fun id _ hleft loc hloc hkind => hleft (h.located id loc hloc hkind)

theorem located_markDropped (s : StableState W) {id j : TxId} (code : DropCode) {loc : TxLoc}
    (hne : j ≠ id) (hloc : s.txLocs.get j = some loc) (hkind : loc.kind ≠ .dropped) :
    (markDroppedAndPurgePayload c s id code).txLocs.get j = some loc := by
  have hinsert : (s.txLocs.insert id (.dropped code.toNat)).get j = some loc := by
    rw [OrdMap.get_insert, if_neg hne, hloc]
  rcases locs_markDropped (c := c) s id j code with heq | ⟨-, old, hold, hdropped⟩
  · rw [heq, hinsert]
  · obtain rfl := Option.some.inj (hinsert.symm.trans hold)
    exact absurd hdropped hkind

theorem dropped_ring_holds {world : W} {ids : List TxId} {s : StableState W}
    (drops : Drops c (.init world) ids s) (few : ids.length < 2 ^ 64) :
    RingHolds ids s ∧ ∀ id code j loc, j ≠ id → s.txLocs.get j = some loc → loc.kind ≠ .dropped →
      (markDroppedAndPurgePayload c s id code).txLocs.get j = some loc :=
  ⟨(ringed_drops drops (Nat.le_of_lt_succ few)).holds,
    fun _ code _ _ hne hloc hkind => located_markDropped s code hne hloc hkind⟩

def plainCrypto : Crypto := ⟨fun _ => zeroArr 32, fun _ => none, fun _ => none⟩

theorem dropped_ring_holds_twice : ∃ s : StableState Unit,
    Drops plainCrypto (.init ()) [zeroArr 32, zeroArr 32] s ∧
      RingHolds [zeroArr 32, zeroArr 32] s := by
  have drops : Drops plainCrypto (.init ()) [zeroArr 32, zeroArr 32] _ :=
    (Drops.start.drop (zeroArr 32) .exec).drop (zeroArr 32) .replaced
  exact ⟨_, drops, (dropped_ring_holds drops (by decide)).1⟩

theorem drops_replicate (c : Crypto) (id : TxId) (n : Nat) :
    ∃ s : StableState Unit, Drops c (.init ()) (List.replicate n id) s := by
  induction n with
  | zero => exact ⟨_, .start⟩
  | succ n ih =>
      obtain ⟨s, drops⟩ := ih
      rw [List.replicate_succ']
      exact ⟨_, drops.drop id .exec⟩

-- the sequence counter saturates, and the last key written is not below it
theorem saturated_ring_fails :
    ¬ ∀ (c : Crypto) (ids : List TxId) (s : StableState Unit),
      Drops c (.init ()) ids s → RingHolds ids s := by
  intro h
  have hcap : droppedRingCapacity = 1000 := rfl
  obtain ⟨s, drops⟩ := drops_replicate plainCrypto (zeroArr 32) u64Max
  have hringed := ringed_drops drops (by rw [List.length_replicate])
  have holds := h plainCrypto _ _ (drops.drop (zeroArr 32) .exec)
  obtain ⟨u, hring, hstate, -, heq⟩ := ring_markDropped (c := plainCrypto) s (zeroArr 32) .exec
  have hseq : u.droppedRingState.nextSeq = u64Max := by
    rw [hstate, hringed.nextSeq, List.length_replicate]
  have hlen : u.droppedRingState.len = droppedRingCapacity := by
    rw [hstate, hringed.len, List.length_replicate]
    decide
  have hnext : (pushDroppedRing u (zeroArr 32)).droppedRingState = ⟨u64Max, droppedRingCapacity⟩ := by
    rw [ringState_push, DroppedRingState.push, if_neg (by omega), hseq, hlen]
    rfl
  have hnew : (pushDroppedRing u (zeroArr 32)).droppedRing.get u64Max = some (zeroArr 32) := by
    have hkept := evictSeq_push (hringed.nextSeq) (hringed.len) u64Max
    rw [List.length_replicate] at hkept
    rw [ring_push, hstate, if_neg (fun hgone => absurd (hkept.mp hgone) (by omega)), ← hstate, hseq,
      if_pos rfl]
  rw [heq] at holds
  obtain ⟨i, hi, hget⟩ := (holds.held _ _).mp hnew
  rw [hnext] at hi
  have hlast := (List.getElem?_eq_some_iff.mp hget).1
  rw [lastDropped, List.length_drop] at hlast
  dsimp only at hi
  omega

end Kasane.Chain
