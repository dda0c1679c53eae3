import Kasane.Blob.Settled

namespace Kasane.Blob

open BigEndian Word

def addUsage (stats : BlobUsageStats) (e : AllocKey × AllocEntry) : BlobUsageStats :=
  match e.2.state with
  | .used =>
      { stats with usedClassBytes := saturatingAdd u64Max stats.usedClassBytes e.1.cls }
  | .quarantine =>
      { stats with
        quarantineClassBytes := saturatingAdd u64Max stats.quarantineClassBytes e.1.cls }
  | .free =>
      { stats with freeClassBytes := saturatingAdd u64Max stats.freeClassBytes e.1.cls }

def scanUsageTotals (allocTable : OrdMap AllocKey AllocEntry) (arenaEndBytes : Nat) :
    BlobUsageStats :=
  allocTable.entries.foldl addUsage ⟨0, 0, 0, arenaEndBytes⟩

namespace BlobUsageStats

def classBytes (stats : BlobUsageStats) : BlobState → Nat
  | .used => stats.usedClassBytes
  | .quarantine => stats.quarantineClassBytes
  | .free => stats.freeClassBytes

theorem ext_classBytes {a b : BlobUsageStats} (h : ∀ state, a.classBytes state = b.classBytes state)
    (hend : a.arenaEndBytes = b.arenaEndBytes) : a = b := by
  have hused := h .used
  have hquarantine := h .quarantine
  have hfree := h .free
  cases a
  cases b
  simp_all [classBytes]

end BlobUsageStats

def weight (state : BlobState) (e : AllocKey × AllocEntry) : Nat :=
  if e.2.state = state then e.1.cls else 0

def bytesIn (table : OrdMap AllocKey AllocEntry) (state : BlobState) : Nat :=
  table.total (weight state)

theorem weight_sum (e : AllocKey × AllocEntry) :
    weight .used e + weight .quarantine e + weight .free e = e.1.cls := by
  obtain ⟨key, gen, state⟩ := e
  cases state <;> simp [weight]

theorem bytesIn_sum (table : OrdMap AllocKey AllocEntry) :
    bytesIn table .used + bytesIn table .quarantine + bytesIn table .free =
      table.total (fun e => e.1.cls) := by
  simp only [bytesIn, ← OrdMap.total_add, weight_sum]

theorem addUsage_classBytes (stats : BlobUsageStats) (e : AllocKey × AllocEntry)
    (state : BlobState) (h : stats.classBytes state + weight state e ≤ u64Max) :
    (addUsage stats e).classBytes state = stats.classBytes state + weight state e := by
  obtain ⟨key, gen, old⟩ := e
  cases old <;> cases state <;>
    simp_all [addUsage, BlobUsageStats.classBytes, weight, saturatingAdd]

theorem addUsage_arenaEndBytes (stats : BlobUsageStats) (e : AllocKey × AllocEntry) :
    (addUsage stats e).arenaEndBytes = stats.arenaEndBytes := by
  obtain ⟨key, gen, old⟩ := e
  cases old <;> rfl

theorem foldl_addUsage_classBytes (state : BlobState) (es : List (AllocKey × AllocEntry))
    (stats : BlobUsageStats)
    (h : stats.classBytes state + (es.map (weight state)).sum ≤ u64Max) :
    (es.foldl addUsage stats).classBytes state =
      stats.classBytes state + (es.map (weight state)).sum := by
  induction es generalizing stats with
  | nil => simp
  | cons e es ih =>
      simp only [List.map_cons, List.sum_cons, List.foldl_cons] at h ⊢
      have hone := addUsage_classBytes stats e state (by omega)
      rw [ih (addUsage stats e) (by omega), hone]
      omega

theorem foldl_addUsage_arenaEndBytes (es : List (AllocKey × AllocEntry)) (stats : BlobUsageStats) :
    (es.foldl addUsage stats).arenaEndBytes = stats.arenaEndBytes := by
  induction es generalizing stats with
  | nil => rfl
  | cons e es ih =>
      rw [List.foldl_cons, ih, addUsage_arenaEndBytes]

namespace BlobStore

structure Tallied (s : BlobStore) : Prop where
  arenaEnd_le : s.arenaEnd ≤ u64Max
  classBytes : ∀ state, s.usageTotals.classBytes state = bytesIn s.allocTable state
  arenaEndBytes : s.usageTotals.arenaEndBytes = s.arenaEnd
  covered : s.allocTable.total (fun e => e.1.cls) = s.arenaEnd

theorem tallied_empty : empty.Tallied where
  arenaEnd_le := Nat.zero_le _
  classBytes := by intro state; cases state <;> rfl
  arenaEndBytes := rfl
  covered := rfl

theorem bytesIn_le {s : BlobStore} (h : s.Tallied) (state : BlobState) :
    bytesIn s.allocTable state ≤ s.arenaEnd := by
  have hsum := bytesIn_sum s.allocTable
  rw [h.covered] at hsum
  cases state <;> omega

theorem usageTotals_of_tallied {s : BlobStore} (h : s.Tallied) :
    s.usageTotals = scanUsageTotals s.allocTable s.arenaEnd := by
  apply BlobUsageStats.ext_classBytes
  · intro state
    have hstart : (⟨0, 0, 0, s.arenaEnd⟩ : BlobUsageStats).classBytes state = 0 := by
      cases state <;> rfl
    have hle := le_trans (bytesIn_le h state) h.arenaEnd_le
    rw [scanUsageTotals, foldl_addUsage_classBytes state s.allocTable.entries, h.classBytes state,
      hstart, Nat.zero_add]
    · rfl
    · rw [hstart, Nat.zero_add]
      exact hle
  · rw [scanUsageTotals, foldl_addUsage_arenaEndBytes]
    exact h.arenaEndBytes

theorem tallied_of_restate {s s' : BlobStore} (key : AllocKey) {old new : AllocEntry}
    (h : s.Tallied) (hget : s.allocTable.get key = some old) (hend : s'.arenaEnd = s.arenaEnd)
    (htotal : s'.usageTotals.arenaEndBytes = s.usageTotals.arenaEndBytes)
    (htable : s'.allocTable = s.allocTable.insert key new)
    (hbytes : ∀ state, s'.usageTotals.classBytes state + weight state (key, old) =
      s.usageTotals.classBytes state + weight state (key, new)) : s'.Tallied where
  arenaEnd_le := by rw [hend]; exact h.arenaEnd_le
  classBytes := by
    intro state
    have hmoved := hbytes state
    have hbefore := OrdMap.total_of_get_some (weight state) hget
    have hafter := OrdMap.total_insert s.allocTable key new (weight state)
    rw [h.classBytes state] at hmoved
    rw [htable]
    simp only [bytesIn] at hmoved ⊢
    omega
  arenaEndBytes := by rw [htotal, hend]; exact h.arenaEndBytes
  covered := by
    have hbefore := OrdMap.total_of_get_some (fun e => e.1.cls) hget
    rw [htable, OrdMap.total_insert, hend, ← h.covered, hbefore]

theorem room_of_get {s : BlobStore} {key : AllocKey} {gen : Nat} {old : BlobState} (h : s.Tallied)
    (hget : s.allocTable.get key = some ⟨gen, old⟩) (new : BlobState) (hne : old ≠ new) :
    key.cls ≤ s.usageTotals.classBytes old ∧
      s.usageTotals.classBytes new + key.cls ≤ u64Max := by
  have hsum := bytesIn_sum s.allocTable
  have hle := h.arenaEnd_le
  have hown : key.cls ≤ bytesIn s.allocTable old := by
    rw [bytesIn, OrdMap.total_of_get_some _ hget]
    simp [weight]
  rw [h.covered] at hsum
  rw [h.classBytes, h.classBytes]
  refine ⟨hown, ?_⟩
  cases old <;> cases new <;> first | exact absurd rfl hne | omega

theorem tallied_markQuarantine {s s' : BlobStore} {ptr : BlobPtr} (h : s.Tallied)
    (hrun : s.markQuarantine ptr = .ok s') : s'.Tallied := by
  obtain ⟨-, rfl⟩ | ⟨hget, rfl⟩ := markQuarantine_cases hrun
  · exact h
  · obtain ⟨hown, hroom⟩ := room_of_get h hget .quarantine (by simp)
    refine tallied_of_restate ptr.key h hget rfl rfl rfl ?_
    intro state
    cases state <;>
      simp_all [BlobUsageStats.classBytes, weight, saturatingAdd, BlobPtr.key]

theorem tallied_markFree {s s' : BlobStore} {ptr : BlobPtr} (h : s.Tallied)
    (hrun : s.markFree ptr = .ok s') : s'.Tallied := by
  obtain ⟨-, rfl⟩ | ⟨hget, rfl⟩ := markFree_cases hrun
  · exact h
  · obtain ⟨hown, hroom⟩ := room_of_get h hget .free (by simp)
    refine tallied_of_restate ptr.key h hget rfl rfl rfl ?_
    intro state
    cases state <;>
      simp_all [BlobUsageStats.classBytes, weight, saturatingAdd, BlobPtr.key]

theorem tallied_reclaimForPrune {s s' : BlobStore} {ptr : BlobPtr} (h : s.Tallied)
    (hrun : s.reclaimForPrune ptr = .ok s') : s'.Tallied := by
  obtain ⟨-, rfl⟩ | ⟨old, hne, hget, rfl⟩ := reclaimForPrune_cases hrun
  · exact h
  · obtain ⟨hown, hroom⟩ := room_of_get h hget .free hne
    refine tallied_of_restate ptr.key h hget rfl ?_ rfl ?_
    · cases old <;> rfl
    · intro state
      cases old <;> cases state <;>
        simp_all [BlobUsageStats.classBytes, weight, saturatingAdd, BlobPtr.key, releaseTotals]

theorem tallied_reuse {s s' : BlobStore} {cls offset : Nat} (h : s.Tallied)
    (hrun : s.reuse cls offset = .ok s') : s'.Tallied := by
  obtain ⟨gen, hget, rfl⟩ := reuse_ok hrun
  obtain ⟨hown, hroom⟩ := room_of_get h hget .used (by simp)
  refine tallied_of_restate ⟨cls, offset⟩ h hget rfl rfl rfl ?_
  intro state
  cases state <;> simp_all [BlobUsageStats.classBytes, weight, saturatingAdd]

theorem tallied_extend {grow : Nat → Bool} {s s' : BlobStore} {cls : Nat} (h : s.Tallied)
    (hnew : s.allocTable.get ⟨cls, s.arenaEnd⟩ = none) (hrun : s.extend grow cls = .ok s') :
    s'.Tallied := by
  obtain ⟨pages, hfit, rfl⟩ := extend_ok hrun
  have hremove := OrdMap.remove_of_get_none hnew
  refine ⟨hfit, ?_, rfl, ?_⟩
  · intro state
    have hle := bytesIn_le h state
    have hbytes := h.classBytes state
    simp only [bytesIn, OrdMap.total_insert, hremove] at hle hbytes ⊢
    cases state with
    | used =>
        simp only [BlobUsageStats.classBytes] at hbytes
        simp only [BlobUsageStats.classBytes, weight, saturatingAdd, if_pos]
        omega
    | quarantine => simpa [weight, BlobUsageStats.classBytes] using hbytes
    | free => simpa [weight, BlobUsageStats.classBytes] using hbytes
  · simp only [OrdMap.total_insert, hremove, h.covered]
    omega

theorem get_arenaEnd {s : BlobStore} (hs : s.Sound) {cls : Nat} (hpos : 0 < cls) :
    s.allocTable.get ⟨cls, s.arenaEnd⟩ = none := by
  cases hget : s.allocTable.get ⟨cls, s.arenaEnd⟩ with
  | none => rfl
  | some entry =>
      have hin := hs.inside _ entry hget
      simp only at hin
      omega

theorem tallied_allocate (grow : Nat → Bool) {s : BlobStore} (hs : s.Sound) (h : s.Tallied)
    (len : Nat) : (s.allocate grow len).2.Tallied := by
  rw [allocate]
  cases hcls : smallestClass len with
  | error e => exact h
  | ok cls =>
      obtain ⟨hpos, hle, -⟩ := smallestClass_ok hcls
      simp only
      split_ifs with hlen
      · exact h
      · obtain ⟨offset, freeList, hpop⟩ := s.popFree_eq cls
        have hpopped : Tallied { s with freeListByClass := freeList } :=
          ⟨h.arenaEnd_le, h.classBytes, h.arenaEndBytes, h.covered⟩
        rw [hpop]
        cases offset with
        | some offset =>
            cases hreuse : reuse { s with freeListByClass := freeList } cls offset with
            | error e => simpa only [hreuse] using hpopped
            | ok t => simpa only [hreuse] using tallied_reuse hpopped hreuse
        | none =>
            cases hextend : extend grow { s with freeListByClass := freeList } cls with
            | error e => simpa only [hextend] using hpopped
            | ok t =>
                have hnew := get_arenaEnd hs (lt_of_lt_of_le hpos hle)
                simpa only [hextend] using tallied_extend hpopped hnew hextend

theorem tallied_storeBytes (grow : Nat → Bool) {s : BlobStore} (hs : s.Sound) (h : s.Tallied)
    (data : Bytes) : (s.storeBytes grow data).2.Tallied := by
  have halloc := tallied_allocate grow hs h data.length
  rw [storeBytes]
  generalize s.allocate grow data.length = r at halloc
  obtain ⟨result, t⟩ := r
  cases result with
  | error e => exact halloc
  | ok ptr =>
      cases hwrite : t.write grow ptr data with
      | error e => simpa only [hwrite] using halloc
      | ok u =>
          obtain ⟨-, pages, rfl⟩ := write_ok hwrite
          simp only [hwrite]
          exact ⟨halloc.arenaEnd_le, halloc.classBytes, halloc.arenaEndBytes, halloc.covered⟩

theorem not_free_of_markQuarantine {s s' : BlobStore} {ptr : BlobPtr}
    (h : s.markQuarantine ptr = .ok s') : s.allocTable.get ptr.key ≠ some ⟨ptr.gen, .free⟩ := by
  obtain ⟨hget, -⟩ | ⟨hget, -⟩ := markQuarantine_cases h
  · simp [hget]
  · simp [hget]

theorem dead_markQuarantine {s s' : BlobStore} {ptr q : BlobPtr} (h : s.Dead ptr)
    (hrun : s.markQuarantine q = .ok s') : s'.Dead ptr := by
  obtain ⟨entry, hget, hdead⟩ := h
  have hr := markQuarantine_ok hrun
  obtain ⟨old, hold⟩ := hr.entry
  rw [Dead, hr.table]
  simp only [OrdMap.get_insert]
  split_ifs with hkey
  · rw [hkey, hold] at hget
    obtain rfl := Option.some.inj hget
    refine ⟨_, rfl, ?_⟩
    rcases hdead with hlt | ⟨hgen, hfree⟩
    · exact Or.inl hlt
    · have hstate : old = .free := hfree
      subst hstate
      exact absurd hold (not_free_of_markQuarantine hrun)
  · exact ⟨entry, hget, hdead⟩

end BlobStore

namespace BlobOp

theorem run_rule {P : BlobStore → Prop} {s : BlobStore} (hs : P s)
    (hstore : ∀ grow data, P (s.storeBytes grow data).2)
    (hquarantine : ∀ ptr t, s.markQuarantine ptr = .ok t → P t)
    (hfree : ∀ ptr t, s.markFree ptr = .ok t → P t)
    (hreclaim : ∀ ptr t, s.reclaimForPrune ptr = .ok t → P t) (op : BlobOp) : P (op.run s) := by
  cases op with
  | store grow data => exact hstore grow data
  | quarantine ptr =>
      cases hrun : s.markQuarantine ptr with
      | error e => simpa [run, hrun, Except.toOption] using hs
      | ok t => simpa [run, hrun, Except.toOption] using hquarantine ptr t hrun
  | free ptr =>
      cases hrun : s.markFree ptr with
      | error e => simpa [run, hrun, Except.toOption] using hs
      | ok t => simpa [run, hrun, Except.toOption] using hfree ptr t hrun
  | reclaim ptr =>
      cases hrun : s.reclaimForPrune ptr with
      | error e => simpa [run, hrun, Except.toOption] using hs
      | ok t => simpa [run, hrun, Except.toOption] using hreclaim ptr t hrun

theorem tallied_run {s : BlobStore} (hs : s.Sound) (h : s.Tallied) (op : BlobOp) :
    (op.run s).Tallied :=
  run_rule h (fun grow data => BlobStore.tallied_storeBytes grow hs h data)
    (fun _ _ hrun => BlobStore.tallied_markQuarantine h hrun)
    (fun _ _ hrun => BlobStore.tallied_markFree h hrun)
    (fun _ _ hrun => BlobStore.tallied_reclaimForPrune h hrun) op

theorem dead_run {s : BlobStore} (hs : s.Sound) {ptr : BlobPtr} (h : s.Dead ptr) (op : BlobOp) :
    (op.run s).Dead ptr := by
  refine run_rule h ?_ (fun _ _ hrun => BlobStore.dead_markQuarantine h hrun)
    (fun _ _ hrun => BlobStore.dead_of_restated h (BlobStore.markFree_ok hrun) rfl)
    (fun _ _ hrun => BlobStore.dead_of_restated h (BlobStore.reclaimForPrune_ok hrun) rfl) op
  intro grow data
  cases s.storeBytes_outcome grow data with
  | refused ha he ht =>
      rw [BlobStore.Dead, ht]
      exact h
  | placed q hp hl ha => exact BlobStore.dead_of_placed hs h hp

end BlobOp

inductive BlobCall where
  | read (ptr : BlobPtr)
  | update (op : BlobOp)

namespace BlobCall

def run (s : BlobStore) : BlobCall → BlobStore
  | .read _ => s
  | .update op => op.run s

def Frees (s : BlobStore) (ptr : BlobPtr) : BlobCall → Prop
  | .update (.free q) => q.key = ptr.key ∧ q.gen = ptr.gen ∧ ∃ s', s.markFree q = .ok s'
  | .update (.reclaim q) =>
      q.key = ptr.key ∧ q.gen = ptr.gen ∧ ∃ s', s.reclaimForPrune q = .ok s'
  | _ => False

def Quarantines (s : BlobStore) (ptr : BlobPtr) : BlobCall → Prop
  | .update (.quarantine q) =>
      q.key = ptr.key ∧ q.gen = ptr.gen ∧ ∃ s', s.markQuarantine q = .ok s'
  | _ => False

def Untouched (ptr : BlobPtr) (s : BlobStore) : List BlobCall → Prop
  | [] => True
  | call :: calls =>
      ¬ call.Quarantines s ptr ∧ ¬ call.Frees s ptr ∧ Untouched ptr (call.run s) calls

def Stored (calls : List BlobCall) (ptr : BlobPtr) (data : Bytes) : Prop :=
  ∃ before grow after s',
    calls = before ++ .update (.store grow data) :: after ∧
    (before.foldl run .empty).storeBytes grow data = (.ok ptr, s') ∧ Untouched ptr s' after

def Freed (calls : List BlobCall) (ptr : BlobPtr) : Prop :=
  ∃ before call after, calls = before ++ call :: after ∧
    call.Frees (before.foldl run .empty) ptr

structure Inv (s : BlobStore) : Prop where
  sound : s.Sound
  tallied : s.Tallied

theorem inv_empty : Inv .empty := ⟨BlobStore.sound_empty, BlobStore.tallied_empty⟩

theorem inv_run {s : BlobStore} (h : Inv s) (call : BlobCall) : Inv (call.run s) := by
  cases call with
  | read ptr => exact h
  | update op => exact ⟨BlobOp.sound_run h.sound op, BlobOp.tallied_run h.sound h.tallied op⟩

theorem inv_foldl {s : BlobStore} (h : Inv s) (calls : List BlobCall) :
    Inv (calls.foldl run s) := by
  induction calls generalizing s with
  | nil => exact h
  | cons call calls ih => exact ih (inv_run h call)

theorem dead_foldl {s : BlobStore} (hs : Inv s) {ptr : BlobPtr} (h : s.Dead ptr)
    (calls : List BlobCall) : (calls.foldl run s).Dead ptr := by
  induction calls generalizing s with
  | nil => exact h
  | cons call calls ih =>
      refine ih (inv_run hs call) ?_
      cases call with
      | read q => exact h
      | update op => exact BlobOp.dead_run hs.sound h op

theorem dead_of_frees {s : BlobStore} {ptr : BlobPtr} {call : BlobCall} (h : call.Frees s ptr) :
    (call.run s).Dead ptr := by
  have freed {q : BlobPtr} {t : BlobStore} (hkey : q.key = ptr.key) (hgen : q.gen = ptr.gen)
      (hr : BlobStore.Restated s t q .free) : t.Dead ptr := by
    refine ⟨⟨q.gen, .free⟩, ?_, Or.inr ⟨hgen, rfl⟩⟩
    rw [hr.table, ← hkey, OrdMap.get_insert, if_pos rfl]
  cases call with
  | read q => exact absurd h id
  | update op =>
      cases op with
      | store grow data => exact absurd h id
      | quarantine q => exact absurd h id
      | free q =>
          obtain ⟨hkey, hgen, t, hrun⟩ := h
          simpa [run, BlobOp.run, hrun, Except.toOption] using
            freed hkey hgen (BlobStore.markFree_ok hrun)
      | reclaim q =>
          obtain ⟨hkey, hgen, t, hrun⟩ := h
          simpa [run, BlobOp.run, hrun, Except.toOption] using
            freed hkey hgen (BlobStore.reclaimForPrune_ok hrun)

theorem holds_of_untouched {s : BlobStore} {ptr : BlobPtr} {data : Bytes} (hs : s.Sound)
    (h : s.Holds ptr data) (call : BlobCall) (hq : ¬ call.Quarantines s ptr)
    (hf : ¬ call.Frees s ptr) : (call.run s).Holds ptr data := by
  cases call with
  | read q => exact h
  | update op =>
      cases op with
      | store grow other => exact BlobStore.holds_run hs h (.store grow other) trivial
      | quarantine q =>
          cases hrun : s.markQuarantine q with
          | error e => simpa [run, BlobOp.run, hrun, Except.toOption] using h
          | ok t =>
              refine BlobStore.holds_run hs h (.quarantine q) ?_
              intro hkey hgen
              exact hq ⟨hkey, hgen, t, hrun⟩
      | free q =>
          cases hrun : s.markFree q with
          | error e => simpa [run, BlobOp.run, hrun, Except.toOption] using h
          | ok t =>
              refine BlobStore.holds_run hs h (.free q) ?_
              intro hkey hgen
              exact hf ⟨hkey, hgen, t, hrun⟩
      | reclaim q =>
          cases hrun : s.reclaimForPrune q with
          | error e => simpa [run, BlobOp.run, hrun, Except.toOption] using h
          | ok t =>
              refine BlobStore.holds_run hs h (.reclaim q) ?_
              intro hkey hgen
              exact hf ⟨hkey, hgen, t, hrun⟩

theorem holds_foldl_untouched {s : BlobStore} {ptr : BlobPtr} {data : Bytes} (hs : Inv s)
    (h : s.Holds ptr data) (calls : List BlobCall) (hcalls : Untouched ptr s calls) :
    (calls.foldl run s).Holds ptr data := by
  induction calls generalizing s with
  | nil => exact h
  | cons call calls ih =>
      obtain ⟨hq, hf, hrest⟩ := hcalls
      exact ih (inv_run hs call) (holds_of_untouched hs.sound h call hq hf) hrest

theorem blob_store_runs (calls : List BlobCall) :
    (∀ ptr data, Stored calls ptr data → (calls.foldl run .empty).read ptr = .ok data) ∧
    (∀ k₁ k₂ e₁ e₂, (calls.foldl run .empty).allocTable.get k₁ = some e₁ →
      (calls.foldl run .empty).allocTable.get k₂ = some e₂ → e₁.state ≠ .free → e₂.state ≠ .free →
      k₁ ≠ k₂ → k₁.offset + k₁.cls ≤ k₂.offset ∨ k₂.offset + k₂.cls ≤ k₁.offset) ∧
    (∀ ptr data, Freed calls ptr → (calls.foldl run .empty).read ptr ≠ .ok data) ∧
    (calls.foldl run .empty).usageTotals =
      scanUsageTotals (calls.foldl run .empty).allocTable (calls.foldl run .empty).arenaEnd := by
  have hinv := inv_foldl inv_empty calls
  refine ⟨?_, ?_, ?_, BlobStore.usageTotals_of_tallied hinv.tallied⟩
  · rintro ptr data ⟨before, grow, after, s', rfl, hstore, huntouched⟩
    have hbefore := inv_foldl inv_empty before
    have hs' : Inv s' := by
      have hrun := inv_run hbefore (.update (.store grow data))
      rwa [run, BlobOp.run, hstore] at hrun
    have hholds := holds_foldl_untouched hs' (BlobStore.holds_storeBytes hstore) after huntouched
    have hrun : (before ++ .update (.store grow data) :: after).foldl run .empty =
        after.foldl run s' := by
      rw [List.foldl_append, List.foldl_cons, run, BlobOp.run, hstore]
    rw [hrun]
    exact BlobStore.read_of_holds (inv_foldl hs' after).sound hholds
  · intro k₁ k₂ e₁ e₂ h₁ h₂ _ _ hne
    exact hinv.sound.apart k₁ k₂ e₁ e₂ h₁ h₂ hne
  · rintro ptr data ⟨before, call, after, rfl, hfrees⟩
    rw [List.foldl_append, List.foldl_cons]
    apply BlobStore.not_read_of_dead
    exact dead_foldl (inv_run (inv_foldl inv_empty before) call) (dead_of_frees hfrees) after

def samplePtr (offset len gen : Nat) : BlobPtr := ⟨offset, len, class8K, gen⟩

def sampleCalls : List BlobCall :=
  [.update (.store (fun _ => true) [1, 2, 3]), .update (.store (fun _ => true) [4]),
    .update (.quarantine (samplePtr 0 3 1)), .update (.free (samplePtr 0 3 1)),
    .read (samplePtr 0 3 1), .update (.store (fun _ => true) [5, 6])]

theorem sampleCalls_stored : Stored sampleCalls (samplePtr class8K 1 1) [4] := by
  refine ⟨[.update (.store (fun _ => true) [1, 2, 3])], fun _ => true,
    [.update (.quarantine (samplePtr 0 3 1)), .update (.free (samplePtr 0 3 1)),
      .read (samplePtr 0 3 1), .update (.store (fun _ => true) [5, 6])], _, rfl, rfl, ?_⟩
  have hkey : (samplePtr 0 3 1).key ≠ (samplePtr class8K 1 1).key := by decide
  exact ⟨fun h => hkey h.1, id, id, fun h => hkey h.1, id, id, id, id, trivial⟩

theorem sampleCalls_freed : Freed sampleCalls (samplePtr 0 3 1) := by
  refine ⟨[.update (.store (fun _ => true) [1, 2, 3]), .update (.store (fun _ => true) [4]),
    .update (.quarantine (samplePtr 0 3 1))], .update (.free (samplePtr 0 3 1)),
    [.read (samplePtr 0 3 1), .update (.store (fun _ => true) [5, 6])], rfl, ?_⟩
  exact ⟨rfl, rfl, _, rfl⟩

theorem sampleCalls_runs :
    (sampleCalls.foldl run .empty).read (samplePtr class8K 1 1) = .ok [4] ∧
      (sampleCalls.foldl run .empty).read (samplePtr 0 3 1) ≠ .ok [1, 2, 3] :=
  ⟨(blob_store_runs sampleCalls).1 _ _ sampleCalls_stored,
    (blob_store_runs sampleCalls).2.2.1 _ _ sampleCalls_freed⟩

end BlobCall

end Kasane.Blob
