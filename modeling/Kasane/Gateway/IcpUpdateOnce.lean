import Kasane.Gateway.Grounded
import Kasane.Gateway.IcpUpdates
import Kasane.Gateway.MintOnce

namespace Kasane.Gateway

open BigEndian Codec Word Chain Exec

variable {T : Type}

namespace IcpUpdateDispatchRequest

def key (req : IcpUpdateDispatchRequest) : TxId × UInt32 := (req.txId, req.logIndex)

variable {now : Nat} {req : IcpUpdateDispatchRequest}

theorem repairStale_key : (req.repairStale now).key = req.key := by
  rw [repairStale]
  split_ifs
  · rfl
  · rfl

theorem repairStale_queued (h : (req.repairStale now).status = .queued) : req.status = .queued := by
  rw [repairStale] at h
  split_ifs at h
  · exact absurd h (by simp [markUncertain])
  · exact h

theorem recoverAfterUpgrade_key : (req.recoverAfterUpgrade now).key = req.key := by
  rw [recoverAfterUpgrade]
  split_ifs
  · rfl
  · rfl

theorem recoverAfterUpgrade_queued (h : (req.recoverAfterUpgrade now).status = .queued) :
    req.status = .queued := by
  rw [recoverAfterUpgrade] at h
  split_ifs at h
  · exact absurd h (by simp [markUncertain])
  · exact h

end IcpUpdateDispatchRequest

def IcpUpdateCall.key (call : IcpUpdateCall) : TxId × UInt32 :=
  (call.envelope.txId, call.envelope.logIndex)

theorem IcpUpdateResponse.outcome_completed (response : IcpUpdateResponse) :
    response.outcome.status.completed = true := by
  cases response with
  | replied reply =>
      rw [outcome, icpUpdateSuccessOutcome]
      split_ifs
      · rfl
      · rfl
  | failed uncertain detail =>
      cases uncertain with
      | true => rfl
      | false => rfl

def intentId (c : Crypto) (key : TxId × UInt32) : TxId := c.keccak256 (key.1.toList ++ u32Bytes key.2)

def Callable (s : IcpGatewayState T) (id : TxId) (req : IcpUpdateDispatchRequest) : Prop :=
  req.status = .queued ∨ s.icpUpdateDispatchQueue.count id ≠ 0

structure CalledOnce (c : Crypto) (s : IcpGatewayState T) : Prop where
  wellFormed : s.icpUpdateDispatchQueue.WellFormed
  unknown : ∀ id, s.icpUpdateRequests.get id = none → s.icpUpdateDispatchQueue.count id = 0
  once : ∀ id, s.icpUpdateDispatchQueue.count id ≤ 1
  derived : ∀ id req, s.icpUpdateRequests.get id = some req → intentId c req.key = id
  fresh : ∀ id req, s.icpUpdateRequests.get id = some req → Callable s id req →
    req.key ∉ s.icpUpdateCalls.map IcpUpdateCall.key
  distinct : (s.icpUpdateCalls.map IcpUpdateCall.key).Nodup
  included : ∀ call ∈ s.icpUpdateCalls, s.gateway.chain.receipts.get call.envelope.txId ≠ none
  recorded : ∀ id req, s.icpUpdateRequests.get id = some req →
    s.gateway.chain.receipts.get req.txId ≠ none

open IcpUpdateDispatchRequest IcpGatewayState

section

variable {c : Crypto} {s t : IcpGatewayState T} {id : TxId} {now : Nat}

theorem calledOnce_init (world : World T) (config : WrapConfig)
    (ledgers : Principal → DedupLedger.Ledger Principal) (allowlist : List Bytes) :
    CalledOnce c (init world config ledgers allowlist) where
  wellFormed := SeqQueue.wellFormed_empty
  unknown := fun _ _ => rfl
  once := fun _ => Nat.zero_le 1
  derived := fun _ _ hreq => absurd hreq (by simp [init])
  fresh := fun _ _ hreq => absurd hreq (by simp [init])
  distinct := List.nodup_nil
  included := fun _ hcall => absurd hcall List.not_mem_nil
  recorded := fun _ _ hreq => absurd hreq (by simp [init])

-- no new record and no new call
structure Settles (s t : IcpGatewayState T) : Prop where
  wellFormed : s.icpUpdateDispatchQueue.WellFormed → t.icpUpdateDispatchQueue.WellFormed
  calls : t.icpUpdateCalls = s.icpUpdateCalls
  receipts : ∀ id, s.gateway.chain.receipts.get id ≠ none → t.gateway.chain.receipts.get id ≠ none
  unknown : ∀ id, t.icpUpdateRequests.get id = none → s.icpUpdateRequests.get id = none ∨
    t.icpUpdateDispatchQueue.count id = 0
  queued : s.icpUpdateDispatchQueue.WellFormed → ∀ id, t.icpUpdateDispatchQueue.count id ≤
    max 1 (s.icpUpdateDispatchQueue.count id)
  idle : s.icpUpdateDispatchQueue.WellFormed → ∀ id, s.icpUpdateRequests.get id = none →
    t.icpUpdateDispatchQueue.count id ≤ s.icpUpdateDispatchQueue.count id
  known : s.icpUpdateDispatchQueue.WellFormed → ∀ id new, t.icpUpdateRequests.get id = some new →
    ∃ old, s.icpUpdateRequests.get id = some old ∧ new.key = old.key ∧
      (Callable t id new → Callable s id old)

theorem CalledOnce.settles (h : CalledOnce c s) (hs : Settles s t) : CalledOnce c t where
  wellFormed := hs.wellFormed h.wellFormed
  unknown := by
    intro id hnone
    rcases hs.unknown id hnone with hold | hzero
    · have hidle := hs.idle h.wellFormed id hold
      rw [h.unknown id hold] at hidle
      exact Nat.le_zero.mp hidle
    · exact hzero
  once := by
    intro id
    have hqueued := hs.queued h.wellFormed id
    rw [Nat.max_eq_left (h.once id)] at hqueued
    exact hqueued
  derived := by
    intro id new hnew
    obtain ⟨old, hold, hkey, -⟩ := hs.known h.wellFormed id new hnew
    rw [hkey]
    exact h.derived id old hold
  fresh := by
    intro id new hnew hcallable
    obtain ⟨old, hold, hkey, hback⟩ := hs.known h.wellFormed id new hnew
    rw [hkey, hs.calls]
    exact h.fresh id old hold (hback hcallable)
  distinct := by
    rw [hs.calls]
    exact h.distinct
  included := by
    rw [hs.calls]
    exact fun call hcall => hs.receipts _ (h.included call hcall)
  recorded := by
    intro id new hnew
    obtain ⟨old, hold, hkey, -⟩ := hs.known h.wellFormed id new hnew
    have htx : new.txId = old.txId := congrArg Prod.fst hkey
    rw [htx]
    exact hs.receipts _ (h.recorded id old hold)

theorem settles_map {f : IcpUpdateDispatchRequest → IcpUpdateDispatchRequest}
    (hf : ∀ req, (f req).key = req.key ∧ ((f req).status = .queued → req.status = .queued))
    (hget : ∀ id, t.icpUpdateRequests.get id = (s.icpUpdateRequests.get id).map f ∨
      t.icpUpdateRequests.get id = s.icpUpdateRequests.get id)
    (hqueue : t.icpUpdateDispatchQueue = s.icpUpdateDispatchQueue)
    (hcalls : t.icpUpdateCalls = s.icpUpdateCalls)
    (hreceipts : ∀ id, s.gateway.chain.receipts.get id ≠ none →
      t.gateway.chain.receipts.get id ≠ none) : Settles s t where
  wellFormed := by
    rw [hqueue]
    exact id
  calls := hcalls
  receipts := hreceipts
  unknown := by
    intro id hnone
    rcases hget id with hmap | hsame
    · exact Or.inl (Option.map_eq_none_iff.mp (hmap.symm.trans hnone))
    · exact Or.inl (hsame.symm.trans hnone)
  queued := by
    intro _ id
    rw [hqueue]
    exact le_max_right _ _
  idle := by
    intro _ id _
    rw [hqueue]
  known := by
    intro _ id new hnew
    rcases hget id with hmap | hsame
    · obtain ⟨old, hold, rfl⟩ := Option.map_eq_some_iff.mp (hmap.symm.trans hnew)
      refine ⟨old, hold, (hf old).1, ?_⟩
      rw [Callable, Callable, hqueue]
      exact Or.imp_left (hf old).2
    · refine ⟨new, hsame.symm.trans hnew, rfl, ?_⟩
      rw [Callable, Callable, hqueue]
      exact fun h => h

theorem settles_remove (s : IcpGatewayState T) (id : TxId) :
    Settles s (s.removeIcpUpdateRequest id) := by
  have hcount (other : TxId) : (s.removeIcpUpdateRequest id).icpUpdateDispatchQueue.count other =
      if decide (other = id) = true then 0 else s.icpUpdateDispatchQueue.count other :=
    SeqQueue.count_drop ..
  have hle (other : TxId) : (s.removeIcpUpdateRequest id).icpUpdateDispatchQueue.count other ≤
      s.icpUpdateDispatchQueue.count other := by
    rw [hcount]
    split_ifs
    · exact Nat.zero_le _
    · exact le_refl _
  have hget (other : TxId) (hne : other ≠ id) :
      (s.removeIcpUpdateRequest id).icpUpdateRequests.get other = s.icpUpdateRequests.get other :=
    (OrdMap.get_remove ..).trans (if_neg hne)
  have hself : (s.removeIcpUpdateRequest id).icpUpdateRequests.get id = none :=
    (OrdMap.get_remove ..).trans (if_pos rfl)
  refine ⟨fun hw => hw.drop (fun queued => decide (queued = id)), rfl, fun _ h => h, ?_, ?_,
    fun _ other _ => hle other, ?_⟩
  · intro other hnone
    by_cases hother : other = id
    · refine Or.inr ?_
      rw [hcount, if_pos (decide_eq_true hother)]
    · exact Or.inl ((hget other hother).symm.trans hnone)
  · intro _ other
    exact (hle other).trans (le_max_right _ _)
  · intro _ other new hnew
    by_cases hother : other = id
    · subst hother
      exact absurd (hself.symm.trans hnew) (by simp)
    · refine ⟨new, (hget other hother).symm.trans hnew, rfl, ?_⟩
      have hsame := hcount other
      rw [if_neg (by simp [hother])] at hsame
      rw [Callable, Callable, hsame]
      exact fun h => h

theorem settles_finalize (applied : AppliedIcpUpdateDispatchOutcome)
    (hcompleted : applied.status.completed = true) : Settles s (s.finalize id now applied) := by
  refine settles_map (f := finalizeIcpUpdateDispatchAttempt now applied) ?_ ?_ rfl rfl
    (fun _ h => h)
  · intro req
    refine ⟨rfl, fun hqueued => ?_⟩
    have hstatus : applied.status = .queued := hqueued
    exact absurd (hstatus ▸ hcompleted) (by decide)
  · intro other
    by_cases hother : other = id
    · subst hother
      exact Or.inl (OrdMap.get_modify_self ..)
    · exact Or.inr (OrdMap.get_modify_of_ne _ _ hother)

theorem settles_repair (s : IcpGatewayState T) (now : Nat) : Settles s (repairIcpUpdates now s) :=
  settles_map (f := IcpUpdateDispatchRequest.repairStale now)
    (fun _ => ⟨repairStale_key, repairStale_queued⟩) (fun _ => Or.inl (OrdMap.get_map ..)) rfl rfl
    (fun _ h => h)

theorem settles_recover (s : IcpGatewayState T) (now : Nat) :
    Settles s (recoverIcpUpdateDispatchStateAfterUpgrade now s) := by
  have hget (id : TxId) :
      (recoverIcpUpdateDispatchStateAfterUpgrade now s).icpUpdateRequests.get id =
        (s.icpUpdateRequests.get id).map (IcpUpdateDispatchRequest.recoverAfterUpgrade now) :=
    OrdMap.get_map ..
  have hcount (hw : s.icpUpdateDispatchQueue.WellFormed) (id : TxId) :
      (recoverIcpUpdateDispatchStateAfterUpgrade now s).icpUpdateDispatchQueue.count id =
        if (s.icpUpdateRequests.get id).any upgradeRequeues = true then
          max 1 (s.icpUpdateDispatchQueue.count id)
        else s.icpUpdateDispatchQueue.count id := by
    have hcount := SeqQueue.count_requeue hw
      (GatewayState.keysWhere upgradeRequeues s.icpUpdateRequests) id
    simp only [GatewayState.mem_keysWhere] at hcount
    exact hcount
  refine ⟨fun hw => hw.requeue _, rfl, fun _ h => h, ?_, ?_, ?_, ?_⟩
  · intro id hnone
    exact Or.inl (Option.map_eq_none_iff.mp ((hget id).symm.trans hnone))
  · intro hw id
    rw [hcount hw]
    split_ifs
    · exact le_refl _
    · exact le_max_right _ _
  · intro hw id hnone
    rw [hcount hw, hnone]
    exact le_refl _
  · intro hw id new hnew
    obtain ⟨old, hold, rfl⟩ := Option.map_eq_some_iff.mp ((hget id).symm.trans hnew)
    refine ⟨old, hold, recoverAfterUpgrade_key, ?_⟩
    rintro (hqueued | hcounted)
    · exact Or.inl (recoverAfterUpgrade_queued hqueued)
    · rw [hcount hw, hold] at hcounted
      by_cases hrequeues : old.upgradeRequeues = true
      · exact Or.inl (of_decide_eq_true hrequeues)
      · rw [if_neg (by simpa using hrequeues)] at hcounted
        exact Or.inr hcounted

theorem settles_pop {rest : SeqQueue TxId} {old new : IcpUpdateDispatchRequest}
    (hpop : s.icpUpdateDispatchQueue.pop = some (some id, rest))
    (hold : s.icpUpdateRequests.get id = some old) (hkey : new.key = old.key) :
    Settles s { s with
      icpUpdateDispatchQueue := rest
      icpUpdateRequests := s.icpUpdateRequests.insert id new } := by
  have hcount (hw : s.icpUpdateDispatchQueue.WellFormed) := (SeqQueue.pop_some hw hpop).2
  have hself : (s.icpUpdateRequests.insert id new).get id = some new :=
    (OrdMap.get_insert ..).trans (if_pos rfl)
  have hother (other : TxId) (hne : other ≠ id) :
      (s.icpUpdateRequests.insert id new).get other = s.icpUpdateRequests.get other :=
    (OrdMap.get_insert ..).trans (if_neg hne)
  refine ⟨fun hw => (SeqQueue.pop_some hw hpop).1, rfl, fun _ h => h, ?_, ?_, ?_, ?_⟩
  · intro other hnone
    by_cases hne : other = id
    · subst hne
      exact absurd (hself.symm.trans hnone) (by simp)
    · exact Or.inl ((hother other hne).symm.trans hnone)
  · intro hw other
    have hother := hcount hw other
    dsimp only
    omega
  · intro hw other _
    have hother := hcount hw other
    dsimp only
    omega
  · intro hw other found hfound
    by_cases hne : other = id
    · subst hne
      obtain rfl := Option.some.inj (hself.symm.trans hfound)
      have hself := hcount hw other
      rw [if_pos rfl] at hself
      refine ⟨old, hold, hkey, fun _ => Or.inr ?_⟩
      omega
    · refine ⟨found, (hother other hne).symm.trans hfound, rfl, ?_⟩
      have hsame := hcount hw other
      rw [if_neg (Ne.symm hne)] at hsame
      rintro (hqueued | hcounted)
      · exact Or.inl hqueued
      · refine Or.inr ?_
        rw [← hsame]
        exact hcounted

theorem settles_forget {key : Option TxId} {rest : SeqQueue TxId}
    (hpop : s.icpUpdateDispatchQueue.pop = some (key, rest))
    (hunknown : ∀ id, key = some id → s.icpUpdateRequests.get id = none) :
    Settles s { s with icpUpdateDispatchQueue := rest } := by
  have hrest (hw : s.icpUpdateDispatchQueue.WellFormed) :
      rest.WellFormed ∧ ∀ other, rest.count other ≤ s.icpUpdateDispatchQueue.count other ∧
        (s.icpUpdateRequests.get other ≠ none →
          rest.count other = s.icpUpdateDispatchQueue.count other) := by
    cases key with
    | none =>
        obtain ⟨hrest, hcount⟩ := SeqQueue.pop_missing hw hpop
        exact ⟨hrest, fun other => ⟨le_of_eq (hcount other), fun _ => hcount other⟩⟩
    | some id =>
        obtain ⟨hrest, hcount⟩ := SeqQueue.pop_some hw hpop
        refine ⟨hrest, fun other => ⟨?_, ?_⟩⟩
        · have hother := hcount other
          omega
        · intro hknown
          have hne : id ≠ other := by
            rintro rfl
            exact hknown (hunknown id rfl)
          have hother := hcount other
          rw [if_neg hne] at hother
          exact hother
  refine ⟨fun hw => (hrest hw).1, rfl, fun _ h => h, fun _ h => Or.inl h, ?_, ?_, ?_⟩
  · intro hw other
    exact ((hrest hw).2 other).1.trans (le_max_right _ _)
  · intro hw other _
    exact ((hrest hw).2 other).1
  · intro hw other new hnew
    have hsame := ((hrest hw).2 other).2 (by rw [hnew]; simp)
    refine ⟨new, hnew, rfl, ?_⟩
    rintro (hqueued | hcounted)
    · exact Or.inl hqueued
    · refine Or.inr ?_
      rw [← hsame]
      exact hcounted

theorem CalledOnce.call (h : CalledOnce c s) {req : IcpUpdateDispatchRequest} {new : IcpUpdateCall}
    {tasks : List TxId} (hfound : s.icpUpdateRequests.get id = some req)
    (hcalled : ¬ Callable s id req) (hkey : new.key = req.key)
    (hfresh : req.key ∉ s.icpUpdateCalls.map IcpUpdateCall.key) :
    CalledOnce c { s with icpUpdateCalls := s.icpUpdateCalls ++ [new], icpUpdateTasks := tasks } where
  wellFormed := h.wellFormed
  unknown := h.unknown
  once := h.once
  derived := h.derived
  fresh := by
    intro other found hget hcallable hmem
    rw [List.map_append, List.mem_append, List.map_singleton, List.mem_singleton, hkey] at hmem
    rcases hmem with hold | hnew
    · exact h.fresh other found hget hcallable hold
    · -- two records of one intent would be stored under one derived id
      have hid : other = id := by
        rw [← h.derived other found hget, ← h.derived id req hfound, hnew]
      subst hid
      obtain rfl := Option.some.inj (hfound.symm.trans hget)
      exact hcalled hcallable
  distinct := by
    rw [List.map_append, List.map_singleton, hkey]
    exact List.nodup_append.mpr ⟨h.distinct, List.nodup_singleton _, by
      intro a ha b hb
      rw [List.mem_singleton] at hb
      subst hb
      rintro rfl
      exact hfresh ha⟩
  included := by
    intro call hcall
    rcases List.mem_append.mp hcall with hold | hnew
    · exact h.included call hold
    · rw [List.mem_singleton] at hnew
      subst hnew
      have htx : call.envelope.txId = req.txId := congrArg Prod.fst hkey
      rw [htx]
      exact h.recorded id req hfound
  recorded := h.recorded

theorem CalledOnce.insert (h : CalledOnce c s) {req : IcpUpdateDispatchRequest}
    (hnone : s.icpUpdateRequests.get id = none) (hid : intentId c req.key = id)
    (hreceipt : s.gateway.chain.receipts.get req.txId ≠ none)
    (hnew : ∀ call ∈ s.icpUpdateCalls, call.envelope.txId ≠ req.txId) :
    CalledOnce c { s with
      icpUpdateRequests := s.icpUpdateRequests.insert id req
      icpUpdateDispatchQueue := s.icpUpdateDispatchQueue.push id } := by
  have hself : (s.icpUpdateRequests.insert id req).get id = some req :=
    (OrdMap.get_insert ..).trans (if_pos rfl)
  have hother (other : TxId) (hne : other ≠ id) :
      (s.icpUpdateRequests.insert id req).get other = s.icpUpdateRequests.get other :=
    (OrdMap.get_insert ..).trans (if_neg hne)
  have hcount := SeqQueue.count_push h.wellFormed id
  have hzero := h.unknown id hnone
  refine ⟨h.wellFormed.push id, ?_, ?_, ?_, ?_, h.distinct, h.included, ?_⟩
  · intro other hget
    by_cases hne : other = id
    · subst hne
      exact absurd (hself.symm.trans hget) (by simp)
    · have hold := h.unknown other ((hother other hne).symm.trans hget)
      exact (hcount other).trans (by rw [if_neg (Ne.symm hne), hold])
  · intro other
    refine le_of_eq_of_le (hcount other) ?_
    split_ifs with hne
    · subst hne
      rw [hzero]
    · exact h.once other
  · intro other found hget
    by_cases hne : other = id
    · subst hne
      obtain rfl := Option.some.inj (hself.symm.trans hget)
      exact hid
    · exact h.derived other found ((hother other hne).symm.trans hget)
  · intro other found hget hcallable
    by_cases hne : other = id
    · subst hne
      obtain rfl := Option.some.inj (hself.symm.trans hget)
      intro hmem
      obtain ⟨call, hcall, hkey⟩ := List.mem_map.mp hmem
      exact hnew call hcall (congrArg Prod.fst hkey)
    · apply h.fresh other found ((hother other hne).symm.trans hget)
      refine hcallable.imp_right (fun hcounted => ?_)
      have hsame := hcount other
      rw [if_neg (Ne.symm hne), Nat.add_zero] at hsame
      rw [← hsame]
      exact hcounted
  · intro other found hget
    by_cases hne : other = id
    · subst hne
      obtain rfl := Option.some.inj (hself.symm.trans hget)
      exact hreceipt
    · exact h.recorded other found ((hother other hne).symm.trans hget)

-- what the recording of intents and the trimming leave as it was
structure Records (s t : IcpGatewayState T) : Prop where
  gateway : t.gateway = s.gateway
  calls : t.icpUpdateCalls = s.icpUpdateCalls
  kept : ∀ id req, s.icpUpdateRequests.get id = some req →
    t.icpUpdateRequests.get id = some req ∨ req.status.completed = true

theorem Records.refl (s : IcpGatewayState T) : Records s s := ⟨rfl, rfl, fun _ _ h => Or.inl h⟩

theorem Records.trans {u : IcpGatewayState T} (h : Records s t) (h' : Records t u) : Records s u := by
  refine ⟨h'.gateway.trans h.gateway, h'.calls.trans h.calls, ?_⟩
  intro id req hreq
  rcases h.kept id req hreq with hkept | hcompleted
  · exact h'.kept id req hkept
  · exact Or.inr hcompleted

theorem records_insertIcpUpdate (hnone : s.icpUpdateRequests.get id = none) (req : IcpUpdateDispatchRequest) :
    Records s { s with
      icpUpdateRequests := s.icpUpdateRequests.insert id req
      icpUpdateDispatchQueue := s.icpUpdateDispatchQueue.push id } := by
  refine ⟨rfl, rfl, ?_⟩
  intro other old hold
  refine Or.inl ((OrdMap.get_insert ..).trans ((if_neg ?_).trans hold))
  rintro rfl
  exact absurd (hnone.symm.trans hold) (by simp)

theorem get_removeIcpUpdateRequest (s : IcpGatewayState T) (id other : TxId) :
    (s.removeIcpUpdateRequest id).icpUpdateRequests.get other =
      if other = id then none else s.icpUpdateRequests.get other := by
  by_cases hother : other = id
  · rw [if_pos hother]
    exact (OrdMap.get_remove ..).trans (if_pos hother)
  · rw [if_neg hother]
    exact (OrdMap.get_remove ..).trans (if_neg hother)

def Completed (s : IcpGatewayState T) (id : TxId) : Prop :=
  ∀ req, s.icpUpdateRequests.get id = some req → req.status.completed = true

theorem records_removeIcpUpdate (h : Completed s id) : Records s (s.removeIcpUpdateRequest id) := by
  refine ⟨rfl, rfl, ?_⟩
  intro other req hreq
  rw [get_removeIcpUpdateRequest]
  split_ifs with hother
  · subst hother
    exact Or.inr (h req hreq)
  · exact Or.inl hreq

theorem trimCompleted_records (remaining : Nat) (ids : List (Nat × TxId))
    (hcompleted : ∀ e ∈ ids, Completed s e.2) : Records s (trimCompleted remaining ids s) := by
  induction ids generalizing s remaining with
  | nil => exact .refl s
  | cons e ids ih =>
      obtain ⟨updatedAt, id⟩ := e
      rw [trimCompleted]
      split_ifs
      · exact .refl s
      · have hhead : Completed s id := hcompleted (updatedAt, id) (List.mem_cons_self ..)
        have htail : ∀ e ∈ ids, Completed (s.removeIcpUpdateRequest id) e.2 := by
          intro e he req hreq
          rw [get_removeIcpUpdateRequest] at hreq
          split_ifs at hreq
          exact hcompleted e (List.mem_cons_of_mem _ he) req hreq
        exact (records_removeIcpUpdate hhead).trans (ih (remaining - 1) htail)

theorem CalledOnce.trimCompleted (h : CalledOnce c s) (remaining : Nat) (ids : List (Nat × TxId)) :
    CalledOnce c (trimCompleted remaining ids s) := by
  induction ids generalizing s remaining with
  | nil => exact h
  | cons e ids ih =>
      obtain ⟨updatedAt, id⟩ := e
      rw [IcpGatewayState.trimCompleted]
      split_ifs
      · exact h
      · exact ih (h.settles (settles_remove s id)) (remaining - 1)

theorem completed_of_listed {e : Nat × TxId} (h : e ∈ s.completedIcpUpdateRequests) :
    Completed s e.2 := by
  rw [completedIcpUpdateRequests, List.mem_insertionSort] at h
  obtain ⟨entry, hentry, rfl⟩ := List.mem_map.mp h
  obtain ⟨hmem, hstatus⟩ := List.mem_filter.mp hentry
  intro req hreq
  have hget : s.icpUpdateRequests.get entry.1 = some entry.2 := OrdMap.mem_entries.mp hmem
  obtain rfl := Option.some.inj (hget.symm.trans hreq)
  exact hstatus

theorem trimIcpUpdateRequests_records (s : IcpGatewayState T) : Records s s.trimIcpUpdateRequests := by
  rw [trimIcpUpdateRequests]
  split_ifs
  · exact .refl s
  · exact trimCompleted_records _ _ (fun _ he => completed_of_listed he)

theorem CalledOnce.trimIcpUpdateRequests (h : CalledOnce c s) :
    CalledOnce c s.trimIcpUpdateRequests := by
  rw [IcpGatewayState.trimIcpUpdateRequests]
  split_ifs
  · exact h
  · exact h.trimCompleted _ _

theorem records_foldl {A : Type} {f : IcpGatewayState T → A → IcpGatewayState T}
    (hf : ∀ s a, Records s (f s a)) (l : List A) : Records s (l.foldl f s) := by
  induction l generalizing s with
  | nil => exact .refl s
  | cons a l ih => exact (hf s a).trans ih

section

variable {txId : TxId} {receipt : Receipt.ReceiptLike} {envelope : StoredTxBytes}
  {evmSender : Address}

theorem records_recordIcpUpdateRequest (s : IcpGatewayState T) (log : Receipt.LogEntry × Nat) :
    Records s (recordIcpUpdateRequest c now txId receipt envelope evmSender s log) := by
  rw [recordIcpUpdateRequest]
  split
  · rename_i intent id _ hid
    by_cases hknown : (s.icpUpdateRequests.get id).isSome = true
    · rw [if_pos hknown]
      exact .refl s
    · rw [if_neg hknown]
      exact (records_insertIcpUpdate (by simpa using hknown) _).trans (trimIcpUpdateRequests_records _)
  · exact .refl s

theorem records_recordIcpUpdateRequestsFromTx (s : IcpGatewayState T) (txId : TxId) :
    Records s (recordIcpUpdateRequestsFromTx c now s txId) := by
  rw [recordIcpUpdateRequestsFromTx]
  split
  · split
    · exact .refl s
    · exact records_foldl records_recordIcpUpdateRequest _
  · exact .refl s

theorem records_recordIcpUpdateRequestsFromBlock (s : IcpGatewayState T) (txIds : List TxId) :
    Records s (recordIcpUpdateRequestsFromBlock c now txIds s) :=
  records_foldl records_recordIcpUpdateRequestsFromTx txIds

theorem CalledOnce.recordIcpUpdateRequest (h : CalledOnce c s)
    (hreceipt : s.gateway.chain.receipts.get txId ≠ none)
    (hnew : ∀ call ∈ s.icpUpdateCalls, call.envelope.txId ≠ txId) (log : Receipt.LogEntry × Nat) :
    CalledOnce c (recordIcpUpdateRequest c now txId receipt envelope evmSender s log) := by
  rw [IcpGatewayState.recordIcpUpdateRequest]
  split
  · rename_i intent id _ hid
    by_cases hknown : (s.icpUpdateRequests.get id).isSome = true
    · rw [if_pos hknown]
      exact h
    · rw [if_neg hknown]
      have hnone : s.icpUpdateRequests.get id = none := by simpa using hknown
      obtain ⟨index, hindex, hderived⟩ := Option.map_eq_some_iff.mp hid
      have hlogIndex : (u32TryFrom log.2).getD (UInt32.ofNat u32Max) = index := by
        rw [hindex, Option.getD_some]
      rw [hlogIndex]
      apply CalledOnce.trimIcpUpdateRequests
      exact h.insert hnone hderived hreceipt hnew
  · exact h

theorem CalledOnce.recordIcpUpdateLogs (h : CalledOnce c s)
    (hreceipt : s.gateway.chain.receipts.get txId ≠ none)
    (hnew : ∀ call ∈ s.icpUpdateCalls, call.envelope.txId ≠ txId)
    (logs : List (Receipt.LogEntry × Nat)) : CalledOnce c
      (logs.foldl (IcpGatewayState.recordIcpUpdateRequest c now txId receipt envelope evmSender) s) := by
  induction logs generalizing s with
  | nil => exact h
  | cons log logs ih =>
      have hrecords : Records s (IcpGatewayState.recordIcpUpdateRequest c now txId receipt envelope
          evmSender s log) := records_recordIcpUpdateRequest s log
      have hhead : CalledOnce c (IcpGatewayState.recordIcpUpdateRequest c now txId receipt envelope
          evmSender s log) := h.recordIcpUpdateRequest hreceipt hnew log
      rw [← hrecords.gateway] at hreceipt
      rw [← hrecords.calls] at hnew
      exact ih hhead hreceipt hnew

end

theorem CalledOnce.recordIcpUpdateRequestsFromTx {txId : TxId} (h : CalledOnce c s)
    (hnew : ∀ call ∈ s.icpUpdateCalls, call.envelope.txId ≠ txId) :
    CalledOnce c (recordIcpUpdateRequestsFromTx c now s txId) := by
  rw [IcpGatewayState.recordIcpUpdateRequestsFromTx]
  split
  · rename_i receipt envelope hreceipt _
    split
    · exact h
    · have hknown : s.gateway.chain.receipts.get txId ≠ none := by
        intro hnone
        rw [getReceipt, hnone] at hreceipt
        exact absurd hreceipt (by simp)
      exact h.recordIcpUpdateLogs hknown hnew _
  · exact h

theorem CalledOnce.recordIcpUpdateRequestsFromBlock {txIds : List TxId} (h : CalledOnce c s)
    (hnew : ∀ call ∈ s.icpUpdateCalls, call.envelope.txId ∉ txIds) :
    CalledOnce c (recordIcpUpdateRequestsFromBlock c now txIds s) := by
  induction txIds generalizing s with
  | nil => exact h
  | cons txId txIds ih =>
      have hfirst : ∀ call ∈ s.icpUpdateCalls, call.envelope.txId ≠ txId := by
        rintro call hcall rfl
        exact hnew call hcall (List.mem_cons_self ..)
      apply ih (h.recordIcpUpdateRequestsFromTx hfirst)
      rw [(records_recordIcpUpdateRequestsFromTx s txId).calls]
      exact fun call hcall hmem => hnew call hcall (List.mem_cons_of_mem _ hmem)

def Drops (s t : IcpGatewayState T) : Prop :=
  ∀ id req, s.icpUpdateRequests.get id = some req → t.icpUpdateRequests.get id = none →
    req.status.completed = true

theorem Records.drops (h : Records s t) : Drops s t := by
  intro id req hreq hnone
  rcases h.kept id req hreq with hkept | hcompleted
  · exact absurd (hkept.symm.trans hnone) (by simp)
  · exact hcompleted

theorem drops_of_kept (h : ∀ id, t.icpUpdateRequests.get id = none →
    s.icpUpdateRequests.get id = none) : Drops s t := by
  intro id req hreq hnone
  exact absurd ((h id hnone).symm.trans hreq) (by simp)

theorem get_finalize_none {applied : AppliedIcpUpdateDispatchOutcome} {other : TxId}
    (hnone : (s.finalize id now applied).icpUpdateRequests.get other = none) :
    s.icpUpdateRequests.get other = none := by
  by_cases hother : other = id
  · subst hother
    exact Option.map_eq_none_iff.mp ((OrdMap.get_modify_self ..).symm.trans hnone)
  · exact (OrdMap.get_modify_of_ne _ _ hother).symm.trans hnone

theorem CalledOnce.icpUpdateDispatchTick (h : CalledOnce c s)
    (hdone : IcpGatewayState.icpUpdateDispatchTick now s = some t) : CalledOnce c t ∧ Drops s t := by
  rw [IcpGatewayState.icpUpdateDispatchTick] at hdone
  split at hdone
  · exact absurd hdone (by simp)
  · rename_i rest hpop
    obtain rfl := Option.some.inj hdone
    exact ⟨h.settles (settles_forget hpop (fun _ hkey => absurd hkey (by simp))),
      drops_of_kept (fun _ hnone => hnone)⟩
  · rename_i id rest hpop
    dsimp only at hdone
    cases hget : s.icpUpdateRequests.get id with
    | none =>
        rw [hget] at hdone
        obtain rfl := Option.some.inj hdone
        refine ⟨h.settles (settles_forget hpop ?_), drops_of_kept (fun _ hnone => hnone)⟩
        intro other hother
        obtain rfl := Option.some.inj hother
        exact hget
    | some req =>
        rw [hget] at hdone
        have hkept (new : IcpUpdateDispatchRequest) (other : TxId)
            (hnone : (s.icpUpdateRequests.insert id new).get other = none) :
            s.icpUpdateRequests.get other = none := by
          rw [OrdMap.get_insert] at hnone
          split_ifs at hnone
          exact hnone
        have hmarked : CalledOnce c { s with
            icpUpdateDispatchQueue := rest
            icpUpdateRequests := s.icpUpdateRequests.insert id (req.markDispatching now) } :=
          h.settles (settles_pop hpop hget rfl)
        have hcount := (SeqQueue.pop_some h.wellFormed hpop).2 id
        rw [if_pos rfl] at hcount
        dsimp only at hdone
        split_ifs at hdone with hfailed
        · obtain rfl := Option.some.inj hdone
          exact ⟨h.settles (settles_pop hpop hget rfl), drops_of_kept (hkept _)⟩
        · obtain rfl := Option.some.inj hdone
          rw [dispatchIcpUpdateRequestInternal]
          split_ifs with hallowed
          · refine ⟨hmarked.settles (settles_finalize _ rfl), drops_of_kept ?_⟩
            intro other hnone
            exact hkept _ other (get_finalize_none hnone)
          · have hself : (s.icpUpdateRequests.insert id (req.markDispatching now)).get id =
                some (req.markDispatching now) := (OrdMap.get_insert ..).trans (if_pos rfl)
            have honce := h.once id
            have hcallable : Callable s id req := by
              refine Or.inr ?_
              omega
            refine ⟨hmarked.call hself ?_ rfl (h.fresh id req hget hcallable),
              drops_of_kept (hkept _)⟩
            rintro (hqueued | hcounted)
            · exact absurd hqueued (by simp [markDispatching])
            · apply hcounted
              dsimp only
              omega

theorem drops_of_map {f : IcpUpdateDispatchRequest → IcpUpdateDispatchRequest}
    (hget : ∀ id, t.icpUpdateRequests.get id = (s.icpUpdateRequests.get id).map f) : Drops s t :=
  drops_of_kept (fun id hnone => Option.map_eq_none_iff.mp ((hget id).symm.trans hnone))

theorem CalledOnce.resumeIcpUpdate {i : Nat} {response : IcpUpdateResponse} (h : CalledOnce c s)
    (hdone : IcpGatewayState.resumeIcpUpdate now i response s = some t) :
    CalledOnce c t ∧ Drops s t := by
  obtain ⟨id, -, rfl⟩ := Option.map_eq_some_iff.mp hdone
  have hresumed : CalledOnce c { s with icpUpdateTasks := s.icpUpdateTasks.eraseIdx i } :=
    ⟨h.wellFormed, h.unknown, h.once, h.derived, h.fresh, h.distinct, h.included, h.recorded⟩
  refine ⟨hresumed.settles (settles_finalize _ response.outcome_completed), drops_of_kept ?_⟩
  intro other hnone
  have hfinalized := get_finalize_none hnone
  exact hfinalized

theorem settles_gateway (s : IcpGatewayState T) {gateway : GatewayState T}
    (hreceipts : ∀ id, s.gateway.chain.receipts.get id ≠ none →
      gateway.chain.receipts.get id ≠ none) : Settles s { s with gateway := gateway } :=
  settles_map (f := fun req => req) (fun _ => ⟨rfl, fun h => h⟩) (fun _ => Or.inr rfl) rfl rfl
    hreceipts

end

section

variable {env : Env T} {s t : IcpGatewayState T} {gateway : GatewayState T} {a : Action}

theorem receiptless_producedTxIds {chain : StableState (World T)} {call : CallEnv}
    (hg : Grounded env.crypto chain) : ∀ id ∈ producedTxIds env call chain,
      chain.receipts.get id = none := by
  intro id hid
  obtain ⟨⟨p, hp⟩, hbooks, -⟩ := hg
  rw [producedTxIds] at hid
  split at hid
  · rename_i outcome c' hproduced
    exact receiptless_produceBlock hp hbooks hproduced id hid
  · exact absurd hid List.not_mem_nil

theorem CalledOnce.followGateway (h : CalledOnce env.crypto s)
    (hg : Grounded env.crypto s.gateway.chain) (hdone : perform env a s.gateway = some gateway) :
    CalledOnce env.crypto (s.followGateway env gateway a) ∧
      Drops s (s.followGateway env gateway a) := by
  have hreceipts (id : TxId) (hknown : s.gateway.chain.receipts.get id ≠ none) :
      gateway.chain.receipts.get id ≠ none := by
    obtain ⟨⟨p, hp⟩, hbooks, -⟩ := hg
    obtain ⟨ptr, hptr⟩ := Option.ne_none_iff_exists'.mp hknown
    have hkept := ((perform_chain hdone).advances hp).receipts hbooks id ptr hptr
    rw [hkept]
    simp
  have hfollowed : CalledOnce env.crypto { s with gateway := gateway } :=
    h.settles (settles_gateway s hreceipts)
  have hsame : Drops s { s with gateway := gateway } := drops_of_kept (fun _ hnone => hnone)
  cases a with
  | miningTick now call =>
      have hnew : ∀ made ∈ s.icpUpdateCalls,
          made.envelope.txId ∉ producedTxIds env call s.gateway.chain := by
        intro made hmade hmem
        exact h.included made hmade (receiptless_producedTxIds hg _ hmem)
      have hrecords : Records { s with gateway := gateway }
          (s.followGateway env gateway (.miningTick now call)) :=
        records_recordIcpUpdateRequestsFromBlock _ _
      exact ⟨hfollowed.recordIcpUpdateRequestsFromBlock hnew, hrecords.drops⟩
  | repairStaleOperations now =>
      refine ⟨hfollowed.settles (settles_repair _ now), ?_⟩
      exact drops_of_map (f := IcpUpdateDispatchRequest.repairStale now) (fun _ => OrdMap.get_map ..)
  | postUpgrade now config =>
      refine ⟨hfollowed.settles (settles_recover _ now), ?_⟩
      exact drops_of_map (f := IcpUpdateDispatchRequest.recoverAfterUpgrade now)
        (fun _ => OrdMap.get_map ..)
  | submitWrapRequest | submitNativeDeposit | wrapWorkerTick | resumeWrap | recoverFailedWrap
  | retryNativeDeposit | setFeePolicy | unwrapDispatchTick | resumeDispatch | retryUnwrapDispatch
  | dispatchUnwrapRequest | submitTx | submitIcTx | ledgerExecutes | ledgerFee | ledgerClock
  | ledgerReceives => exact ⟨hfollowed, hsame⟩

theorem CalledOnce.performIcp {action : IcpAction} (h : CalledOnce env.crypto s)
    (hg : Grounded env.crypto s.gateway.chain) (hdone : performIcp env action s = some t) :
    CalledOnce env.crypto t ∧ Drops s t := by
  cases action with
  | gateway a =>
      obtain ⟨gateway, hgateway, rfl⟩ := Option.map_eq_some_iff.mp hdone
      exact h.followGateway hg hgateway
  | icpUpdateDispatchTick now => exact h.icpUpdateDispatchTick hdone
  | resumeIcpUpdate now i response => exact h.resumeIcpUpdate hdone
  | setIcpUpdatePrecompileAllowlist allowlist =>
      obtain rfl := Option.some.inj hdone
      exact ⟨⟨h.wellFormed, h.unknown, h.once, h.derived, h.fresh, h.distinct, h.included,
        h.recorded⟩, drops_of_kept (fun _ hnone => hnone)⟩

end

theorem gateway_followGateway {env : Env T} (s : IcpGatewayState T) (gateway : GatewayState T)
    (a : Action) : (s.followGateway env gateway a).gateway = gateway := by
  cases a with
  | miningTick now call => exact (records_recordIcpUpdateRequestsFromBlock _ _).gateway
  | _ => rfl

theorem gateway_icpUpdateDispatchTick {now : Nat} {s t : IcpGatewayState T}
    (hdone : icpUpdateDispatchTick now s = some t) : t.gateway = s.gateway := by
  rw [icpUpdateDispatchTick] at hdone
  split at hdone
  · exact absurd hdone (by simp)
  · obtain rfl := Option.some.inj hdone
    rfl
  · dsimp only at hdone
    split at hdone
    · obtain rfl := Option.some.inj hdone
      rfl
    · split_ifs at hdone
      · obtain rfl := Option.some.inj hdone
        rfl
      · obtain rfl := Option.some.inj hdone
        rw [dispatchIcpUpdateRequestInternal]
        split_ifs
        · rfl
        · rfl

theorem length_calls_le_one {calls : List IcpUpdateCall} (h : (calls.map IcpUpdateCall.key).Nodup)
    (txId : TxId) (logIndex : UInt32) : (calls.filter (fun call =>
      decide (call.envelope.txId = txId ∧ call.envelope.logIndex = logIndex))).length ≤ 1 := by
  rw [← List.countP_eq_length_filter]
  calc calls.countP (fun call =>
        decide (call.envelope.txId = txId ∧ call.envelope.logIndex = logIndex))
      = (calls.map IcpUpdateCall.key).count (txId, logIndex) := by
        rw [List.count, List.countP_map]
        apply List.countP_congr
        intro call _
        simp [IcpUpdateCall.key, Prod.ext_iff]
    _ ≤ 1 := List.nodup_iff_count_le_one.mp h _

theorem icpRun_calledOnce {env : Env T} {world : World T} {config : WrapConfig}
    {ledgers : Principal → DedupLedger.Ledger Principal} {allowlist : List Bytes}
    {s : IcpGatewayState T} (run : IcpRun env (init world config ledgers allowlist) s) :
    Grounded env.crypto s.gateway.chain ∧ CalledOnce env.crypto s := by
  induction run with
  | start => exact ⟨grounded_init env.crypto world, calledOnce_init world config ledgers allowlist⟩
  | @step s t action _ hdone ih =>
      obtain ⟨hg, hcalled⟩ := ih
      refine ⟨?_, (hcalled.performIcp hg hdone).1⟩
      cases action with
      | gateway a =>
          obtain ⟨gateway, hgateway, rfl⟩ := Option.map_eq_some_iff.mp hdone
          rw [gateway_followGateway]
          exact (perform_chain hgateway).grounded hg
      | icpUpdateDispatchTick now =>
          rw [gateway_icpUpdateDispatchTick hdone]
          exact hg
      | resumeIcpUpdate now i response =>
          obtain ⟨id, -, rfl⟩ := Option.map_eq_some_iff.mp hdone
          exact hg
      | setIcpUpdatePrecompileAllowlist allowlist =>
          obtain rfl := Option.some.inj hdone
          exact hg

theorem icp_update_called_once {env : Env T} {world : World T} {config : WrapConfig}
    {ledgers : Principal → DedupLedger.Ledger Principal} {allowlist : List Bytes}
    {s : IcpGatewayState T} (run : IcpRun env (init world config ledgers allowlist) s) :
    (∀ txId logIndex, (s.icpUpdateCalls.filter (fun call =>
      decide (call.envelope.txId = txId ∧ call.envelope.logIndex = logIndex))).length ≤ 1) ∧
    (∀ id req, s.icpUpdateRequests.get id = some req →
      s.trimIcpUpdateRequests.icpUpdateRequests.get id = none → req.status.completed = true) ∧
    ∀ action t, performIcp env action s = some t → ∀ id req,
      s.icpUpdateRequests.get id = some req → t.icpUpdateRequests.get id = none →
        req.status.completed = true := by
  obtain ⟨hg, hcalled⟩ := icpRun_calledOnce run
  refine ⟨?_, (trimIcpUpdateRequests_records s).drops, ?_⟩
  · intro txId logIndex
    exact length_calls_le_one hcalled.distinct txId logIndex
  · intro action t hdone
    exact (hcalled.performIcp hg hdone).2

section

open Precompile (icpUpdateIntentPrecompileAddress icpUpdateIntentEventSignature)

def intentLog : Receipt.LogEntry where
  address := icpUpdateIntentPrecompileAddress
  topics := [sampleGatewayCrypto.keccak256 icpUpdateIntentEventSignature]
  data := [1, 80, 1, 109, 0, 0, 0, 1, 5]

def intentRevm : Revm where
  inspectTx := fun _ _ _ => .ok (.success 21000 (.call []) [intentLog], OrdMap.empty)
  exceeds := fun _ _ _ _ => false
  pendingQuery := fun _ _ _ => false
  traces := fun _ _ _ _ => none

def intentGateway : Env Unit := { sampleGateway with revm := intentRevm }

def intentStart : IcpGatewayState Unit :=
  init emptyWorld sampleConfig (fun _ => sampleLedger) [precompileAllowKey [80] [109]]

def intentTx : IcSyntheticTxInput where
  dest := some (sampleAddress 3)
  value := zeroArr 32
  gasLimit := 100000
  nonce := 0
  maxFeePerGas := .ofNat 128 (10 ^ 20)
  maxPriorityFeePerGas := .ofNat 128 (10 ^ 19)
  data := []

def intentActions : List IcpAction :=
  [.gateway (.submitIcTx 1 (samplePrincipalOf 70).principal intentTx),
    .gateway (.miningTick 1 sampleEnv), .icpUpdateDispatchTick 1]

theorem icp_update_called_once_run :
    ∃ s, IcpRun intentGateway intentStart s ∧ s.icpUpdateCalls.length = 1 ∧
      ∀ txId logIndex, (s.icpUpdateCalls.filter (fun call =>
        decide (call.envelope.txId = txId ∧ call.envelope.logIndex = logIndex))).length ≤ 1 := by
  have hcalled : (performIcpAll intentGateway intentActions intentStart).any (fun s =>
      decide (s.icpUpdateCalls.length = 1)) = true := by decide +kernel
  obtain ⟨s, hs, hone⟩ := (Option.any_eq_true _ _).mp hcalled
  have hrun := icpRun_of_performIcpAll .start hs
  exact ⟨s, hrun, of_decide_eq_true hone, (icp_update_called_once hrun).1⟩

end

end Kasane.Gateway
