import Kasane.Blob.Store

namespace Kasane.Blob

open BigEndian Word

namespace BlobStore

structure Sound (s : BlobStore) : Prop where
  arenaEnd_le : s.arenaEnd ≤ u64Max
  inside : ∀ key entry, s.allocTable.get key = some entry → key.offset + key.cls ≤ s.arenaEnd
  apart : ∀ k₁ k₂ e₁ e₂, s.allocTable.get k₁ = some e₁ → s.allocTable.get k₂ = some e₂ →
    k₁ ≠ k₂ → k₁.offset + k₁.cls ≤ k₂.offset ∨ k₂.offset + k₂.cls ≤ k₁.offset

theorem sound_empty : empty.Sound where
  arenaEnd_le := Nat.zero_le _
  inside := by simp [empty]
  apart := by simp [empty]

theorem smallestClass_ok {len cls : Nat} (h : smallestClass len = .ok cls) :
    0 < len ∧ len ≤ cls ∧ cls ∈ classes := by
  simp only [smallestClass] at h
  split_ifs at h with h0 h1
  split at h
  · rename_i c hfind
    have hc : c = cls := Except.ok.inj h
    subst hc
    exact ⟨Nat.pos_of_ne_zero h0, by simpa using List.find?_some hfind,
      List.mem_of_find?_eq_some hfind⟩
  · exact absurd h (by simp)

theorem checkedAdd_ok {max a b c : Nat} (h : checkedAdd max a b = .ok c) :
    c = a + b ∧ a + b ≤ max := by
  rw [checkedAdd] at h
  split_ifs at h with hle
  exact ⟨(Except.ok.inj h).symm, hle⟩

theorem ensureCapacity_ok {grow : Nat → Bool} {s s' : BlobStore} {endOffset : Nat}
    (h : s.ensureCapacity grow endOffset = .ok s') :
    ∃ pages, s' = { s with arenaPages := pages } := by
  cases hp : pagesRequired endOffset with
  | error e =>
      rw [ensureCapacity, hp] at h
      exact absurd h (by simp [bind, Except.bind])
  | ok required =>
      rw [ensureCapacity, hp] at h
      simp only [bind, Except.bind] at h
      split_ifs at h with h1 h2
      · exact ⟨required, (Except.ok.inj h).symm⟩
      · exact ⟨s.arenaPages, (Except.ok.inj h).symm⟩

theorem popFree_eq (s : BlobStore) (cls : Nat) :
    ∃ offset freeList, s.popFree cls = (offset, { s with freeListByClass := freeList }) := by
  rw [popFree]
  split
  · exact ⟨_, _, rfl⟩
  · exact ⟨_, s.freeListByClass, rfl⟩

theorem reuse_ok {s s' : BlobStore} {cls offset : Nat} (h : s.reuse cls offset = .ok s') :
    ∃ gen, s.allocTable.get ⟨cls, offset⟩ = some ⟨gen, .free⟩ ∧
      s' = { s with
        allocTable := s.allocTable.insert ⟨cls, offset⟩ ⟨gen + 1, .used⟩
        usageTotals := { s.usageTotals with
          freeClassBytes := s.usageTotals.freeClassBytes - cls
          usedClassBytes := saturatingAdd u64Max s.usageTotals.usedClassBytes cls } } := by
  rw [reuse] at h
  split at h
  · exact absurd h (by simp)
  · rename_i entry hget
    split_ifs at h with hfree
    obtain ⟨gen, state⟩ := entry
    have hstate : state = .free := not_not.mp hfree
    subst hstate
    cases hc : checkedAdd u32Max gen 1 with
    | error e => exact absurd h (by simp [hc, bind, Except.bind])
    | ok g =>
        obtain ⟨rfl, -⟩ := checkedAdd_ok hc
        simp only [hc, bind, Except.bind] at h
        exact ⟨gen, hget, (Except.ok.inj h).symm⟩

theorem extend_ok {grow : Nat → Bool} {s s' : BlobStore} {cls : Nat}
    (h : s.extend grow cls = .ok s') :
    ∃ pages, s.arenaEnd + cls ≤ u64Max ∧
      s' = { s with
        arenaPages := pages
        arenaEnd := s.arenaEnd + cls
        allocTable := s.allocTable.insert ⟨cls, s.arenaEnd⟩ ⟨1, .used⟩
        usageTotals := { s.usageTotals with
          usedClassBytes := saturatingAdd u64Max s.usageTotals.usedClassBytes cls
          arenaEndBytes := s.arenaEnd + cls } } := by
  rw [extend] at h
  cases hc : checkedAdd u64Max s.arenaEnd cls with
  | error e => exact absurd h (by simp [hc, bind, Except.bind])
  | ok newEnd =>
      obtain ⟨rfl, hle⟩ := checkedAdd_ok hc
      cases he : s.ensureCapacity grow (s.arenaEnd + cls) with
      | error e => exact absurd h (by simp [hc, he, bind, Except.bind])
      | ok t =>
          obtain ⟨pages, rfl⟩ := ensureCapacity_ok he
          simp only [hc, he, bind, Except.bind] at h
          exact ⟨pages, hle, (Except.ok.inj h).symm⟩

theorem ptrAt_of_get {s : BlobStore} {cls offset len gen : Nat} {state : BlobState}
    (h : s.allocTable.get ⟨cls, offset⟩ = some ⟨gen, state⟩) :
    s.ptrAt cls offset len = .ok ⟨offset, len, cls, gen⟩ := by
  simp [ptrAt, currentGen, h, bind, Except.bind]

inductive Slot (s : BlobStore) (cls offset gen : Nat) : Nat → Prop
  | reused (g : Nat) (free : s.allocTable.get ⟨cls, offset⟩ = some ⟨g, .free⟩)
      (next : gen = g + 1) : Slot s cls offset gen s.arenaEnd
  | fresh (atEnd : offset = s.arenaEnd) (fits : s.arenaEnd + cls ≤ u64Max) (first : gen = 1) :
      Slot s cls offset gen (s.arenaEnd + cls)

structure Placed (s s' : BlobStore) (ptr : BlobPtr) : Prop where
  slot : Slot s ptr.cls ptr.offset ptr.gen s'.arenaEnd
  table : s'.allocTable = s.allocTable.insert ptr.key ⟨ptr.gen, .used⟩
  len_pos : 0 < ptr.len
  len_le : ptr.len ≤ ptr.cls
  cls_mem : ptr.cls ∈ classes

theorem allocate_ok {grow : Nat → Bool} {s s' : BlobStore} {len : Nat} {ptr : BlobPtr}
    (h : s.allocate grow len = (.ok ptr, s')) :
    Placed s s' ptr ∧ ptr.len = len ∧ s'.arena = s.arena := by
  rw [allocate] at h
  split at h
  · exact absurd h (by simp)
  · rename_i cls hcls
    obtain ⟨hpos, hle, hmem⟩ := smallestClass_ok hcls
    split_ifs at h with hlen
    · exact absurd h (by simp)
    · obtain ⟨offset, freeList, hpop⟩ := s.popFree_eq cls
      rw [hpop] at h
      cases offset with
      | some offset =>
          simp only at h
          split at h
          · exact absurd h (by simp)
          · rename_i t hreuse
            obtain ⟨gen, hget, rfl⟩ := reuse_ok hreuse
            obtain ⟨hptr, rfl⟩ := Prod.mk.inj h
            rw [ptrAt_of_get (OrdMap.get_insert _ _ _ _ |>.trans (if_pos rfl))] at hptr
            obtain rfl := Except.ok.inj hptr
            exact ⟨⟨.reused gen hget rfl, rfl, hpos, hle, hmem⟩, rfl, rfl⟩
      | none =>
          simp only at h
          split at h
          · exact absurd h (by simp)
          · rename_i t hextend
            obtain ⟨pages, hfit, rfl⟩ := extend_ok hextend
            obtain ⟨hptr, rfl⟩ := Prod.mk.inj h
            rw [ptrAt_of_get (OrdMap.get_insert _ _ _ _ |>.trans (if_pos rfl))] at hptr
            obtain rfl := Except.ok.inj hptr
            exact ⟨⟨.fresh rfl hfit rfl, rfl, hpos, hle, hmem⟩, rfl, rfl⟩

theorem write_ok {grow : Nat → Bool} {s s' : BlobStore} {ptr : BlobPtr} {data : Bytes}
    (h : s.write grow ptr data = .ok s') :
    data.length = ptr.len ∧
      ∃ pages, s' = { s with
        arenaPages := pages
        arena := writeArena s.arena ptr.offset data } := by
  rw [write] at h
  split_ifs at h with hlen
  split at h
  · exact absurd h (by simp)
  · rename_i entry hget
    split_ifs at h with hstate
    cases hc : checkedAdd u64Max ptr.offset ptr.cls with
    | error e => exact absurd h (by simp [hc, bind, Except.bind])
    | ok endOffset =>
        cases he : s.ensureCapacity grow endOffset with
        | error e => exact absurd h (by simp [hc, he, bind, Except.bind])
        | ok t =>
            obtain ⟨pages, rfl⟩ := ensureCapacity_ok he
            simp only [hc, he, bind, Except.bind] at h
            exact ⟨not_not.mp hlen, pages, (Except.ok.inj h).symm⟩

theorem storeBytes_ok {grow : Nat → Bool} {s s' : BlobStore} {data : Bytes} {ptr : BlobPtr}
    (h : s.storeBytes grow data = (.ok ptr, s')) :
    Placed s s' ptr ∧ ptr.len = data.length ∧
      s'.arena = writeArena s.arena ptr.offset data := by
  rw [storeBytes] at h
  split at h
  · exact absurd h (by simp)
  · rename_i q t halloc
    obtain ⟨⟨hslot, htable, hpos, hle, hmem⟩, hlen, harena⟩ := allocate_ok halloc
    split at h
    · exact absurd h (by simp)
    · rename_i u hwrite
      obtain ⟨-, pages, rfl⟩ := write_ok hwrite
      obtain ⟨hptr, rfl⟩ := Prod.mk.inj h
      obtain rfl := Except.ok.inj hptr
      exact ⟨⟨hslot, htable, hpos, hle, hmem⟩, hlen, by rw [← harena]⟩

theorem sound_of_table_eq {s s' : BlobStore} (hs : s.Sound) (harena : s'.arenaEnd = s.arenaEnd)
    (htable : s'.allocTable = s.allocTable) : s'.Sound := by
  obtain ⟨hle, hin, hap⟩ := hs
  constructor
  · rw [harena]; exact hle
  · rw [harena, htable]; exact hin
  · rw [htable]; exact hap

theorem sound_of_restate {s s' : BlobStore} (key : AllocKey) {old new : AllocEntry}
    (hs : s.Sound) (hget : s.allocTable.get key = some old) (harena : s'.arenaEnd = s.arenaEnd)
    (htable : s'.allocTable = s.allocTable.insert key new) : s'.Sound := by
  have present : ∀ k e, s'.allocTable.get k = some e → ∃ e₀, s.allocTable.get k = some e₀ := by
    intro k e hk
    rw [htable, OrdMap.get_insert] at hk
    split_ifs at hk with heq
    · exact ⟨old, heq ▸ hget⟩
    · exact ⟨e, hk⟩
  obtain ⟨hle, hin, hap⟩ := hs
  constructor
  · rw [harena]; exact hle
  · intro k e hk
    obtain ⟨e₀, h₀⟩ := present k e hk
    rw [harena]
    exact hin k e₀ h₀
  · intro k₁ k₂ e₁ e₂ h₁ h₂ hne
    obtain ⟨f₁, hf₁⟩ := present k₁ e₁ h₁
    obtain ⟨f₂, hf₂⟩ := present k₂ e₂ h₂
    exact hap k₁ k₂ f₁ f₂ hf₁ hf₂ hne

theorem sound_of_placed {s s' : BlobStore} {ptr : BlobPtr} (hs : s.Sound)
    (hp : Placed s s' ptr) : s'.Sound := by
  obtain ⟨hslot, htable, hpos, hle, hmem⟩ := hp
  generalize hend : s'.arenaEnd = e at hslot
  cases hslot with
  | reused g hfree hnext => exact sound_of_restate ptr.key hs hfree hend htable
  | fresh hat hfit hfirst =>
      have split : ∀ k e, s'.allocTable.get k = some e →
          k = ptr.key ∨ s.allocTable.get k = some e := by
        intro k e hk
        rw [htable, OrdMap.get_insert] at hk
        split_ifs at hk with heq
        · exact Or.inl heq
        · exact Or.inr hk
      obtain ⟨-, hin, hap⟩ := hs
      constructor
      · rw [hend]; exact hfit
      · intro k e hk
        rw [hend]
        rcases split k e hk with rfl | hold
        · exact le_of_eq (by rw [BlobPtr.key, hat])
        · exact le_trans (hin k e hold) (Nat.le_add_right _ _)
      · intro k₁ k₂ e₁ e₂ h₁ h₂ hne
        rcases split k₁ e₁ h₁ with rfl | h₁
        · rcases split k₂ e₂ h₂ with rfl | h₂
          · exact absurd rfl hne
          · right
            exact le_trans (hin k₂ e₂ h₂) (le_of_eq hat.symm)
        · rcases split k₂ e₂ h₂ with rfl | h₂
          · left
            exact le_trans (hin k₁ e₁ h₁) (le_of_eq hat.symm)
          · exact hap k₁ k₂ e₁ e₂ h₁ h₂ hne

theorem allocate_error {grow : Nat → Bool} {s s' : BlobStore} {len : Nat} {e : BlobError}
    (h : s.allocate grow len = (.error e, s')) :
    ∃ freeList, s' = { s with freeListByClass := freeList } := by
  rw [allocate] at h
  split at h
  · exact ⟨s.freeListByClass, (Prod.mk.inj h).2.symm⟩
  · rename_i cls hcls
    split_ifs at h with hlen
    · exact ⟨s.freeListByClass, (Prod.mk.inj h).2.symm⟩
    · obtain ⟨offset, freeList, hpop⟩ := s.popFree_eq cls
      rw [hpop] at h
      cases offset with
      | some offset =>
          simp only at h
          split at h
          · exact ⟨freeList, (Prod.mk.inj h).2.symm⟩
          · rename_i t hreuse
            obtain ⟨gen, hget, rfl⟩ := reuse_ok hreuse
            rw [ptrAt_of_get (OrdMap.get_insert _ _ _ _ |>.trans (if_pos rfl))] at h
            exact absurd h (by simp)
      | none =>
          simp only at h
          split at h
          · exact ⟨freeList, (Prod.mk.inj h).2.symm⟩
          · rename_i t hextend
            obtain ⟨pages, hfit, rfl⟩ := extend_ok hextend
            rw [ptrAt_of_get (OrdMap.get_insert _ _ _ _ |>.trans (if_pos rfl))] at h
            exact absurd h (by simp)

inductive StoreOutcome (s s' : BlobStore) (data : Bytes) : Prop
  | refused (arena : s'.arena = s.arena) (arenaEnd : s'.arenaEnd = s.arenaEnd)
      (table : s'.allocTable = s.allocTable)
  | placed (ptr : BlobPtr) (at_ : Placed s s' ptr) (len : ptr.len = data.length)
      (arena : s'.arena = s.arena ∨ s'.arena = writeArena s.arena ptr.offset data)

theorem storeBytes_outcome (grow : Nat → Bool) (s : BlobStore) (data : Bytes) :
    StoreOutcome s (s.storeBytes grow data).2 data := by
  cases halloc : s.allocate grow data.length with
  | mk result t =>
      cases result with
      | error e =>
          obtain ⟨freeList, rfl⟩ := allocate_error halloc
          rw [storeBytes, halloc]
          exact .refused rfl rfl rfl
      | ok ptr =>
          obtain ⟨hplaced, hlen, harena⟩ := allocate_ok halloc
          rw [storeBytes, halloc]
          cases hwrite : t.write grow ptr data with
          | error e =>
              simp only [hwrite]
              exact .placed ptr hplaced hlen (Or.inl harena)
          | ok u =>
              simp only [hwrite]
              have hstore : s.storeBytes grow data = (.ok ptr, u) := by
                simp only [storeBytes, halloc, hwrite]
              obtain ⟨hp, hl, ha⟩ := storeBytes_ok hstore
              exact .placed ptr hp hl (Or.inr ha)

structure Restated (s s' : BlobStore) (ptr : BlobPtr) (state : BlobState) : Prop where
  arena : s'.arena = s.arena
  arenaEnd : s'.arenaEnd = s.arenaEnd
  entry : ∃ old, s.allocTable.get ptr.key = some ⟨ptr.gen, old⟩
  table : s'.allocTable = s.allocTable.insert ptr.key ⟨ptr.gen, state⟩

theorem insert_same {s : BlobStore} {key : AllocKey} {entry : AllocEntry}
    (h : s.allocTable.get key = some entry) : s.allocTable = s.allocTable.insert key entry := by
  apply OrdMap.ext_get
  intro k
  rw [OrdMap.get_insert]
  split_ifs with hk
  · rw [hk, h]
  · rfl

theorem restated_same {s : BlobStore} {ptr : BlobPtr} {state : BlobState}
    (h : s.allocTable.get ptr.key = some ⟨ptr.gen, state⟩) : Restated s s ptr state :=
  ⟨rfl, rfl, ⟨_, h⟩, insert_same h⟩

theorem markQuarantine_cases {s s' : BlobStore} {ptr : BlobPtr}
    (h : s.markQuarantine ptr = .ok s') :
    (s.allocTable.get ptr.key = some ⟨ptr.gen, .quarantine⟩ ∧ s' = s) ∨
    (s.allocTable.get ptr.key = some ⟨ptr.gen, .used⟩ ∧
      s' = { s with
        allocTable := s.allocTable.insert ptr.key ⟨ptr.gen, .quarantine⟩
        usageTotals := { s.usageTotals with
          usedClassBytes := s.usageTotals.usedClassBytes - ptr.cls
          quarantineClassBytes :=
            saturatingAdd u64Max s.usageTotals.quarantineClassBytes ptr.cls } }) := by
  rw [markQuarantine] at h
  split at h
  · exact absurd h (by simp)
  · rename_i entry hget
    obtain ⟨gen, state⟩ := entry
    simp only [ne_eq] at h
    split_ifs at h with hgen hq hu
    · subst hgen
      subst hq
      exact Or.inl ⟨hget, (Except.ok.inj h).symm⟩
    · subst hgen
      subst hu
      exact Or.inr ⟨hget, (Except.ok.inj h).symm⟩

theorem markQuarantine_ok {s s' : BlobStore} {ptr : BlobPtr} (h : s.markQuarantine ptr = .ok s') :
    Restated s s' ptr .quarantine := by
  obtain ⟨hget, rfl⟩ | ⟨hget, rfl⟩ := markQuarantine_cases h
  · exact restated_same hget
  · exact ⟨rfl, rfl, ⟨_, hget⟩, rfl⟩

theorem markFree_cases {s s' : BlobStore} {ptr : BlobPtr} (h : s.markFree ptr = .ok s') :
    (s.allocTable.get ptr.key = some ⟨ptr.gen, .free⟩ ∧ s' = s) ∨
    (s.allocTable.get ptr.key = some ⟨ptr.gen, .quarantine⟩ ∧
      s' = { s with
        allocTable := s.allocTable.insert ptr.key ⟨ptr.gen, .free⟩
        freeListByClass := s.freeListByClass.insert ptr.key ()
        usageTotals := { s.usageTotals with
          quarantineClassBytes := s.usageTotals.quarantineClassBytes - ptr.cls
          freeClassBytes := saturatingAdd u64Max s.usageTotals.freeClassBytes ptr.cls } }) := by
  rw [markFree] at h
  split at h
  · exact absurd h (by simp)
  · rename_i entry hget
    obtain ⟨gen, state⟩ := entry
    simp only [ne_eq] at h
    split_ifs at h with hgen hf hq hd
    · subst hgen
      subst hf
      exact Or.inl ⟨hget, (Except.ok.inj h).symm⟩
    · subst hgen
      subst hq
      exact Or.inr ⟨hget, (Except.ok.inj h).symm⟩

theorem markFree_ok {s s' : BlobStore} {ptr : BlobPtr} (h : s.markFree ptr = .ok s') :
    Restated s s' ptr .free := by
  obtain ⟨hget, rfl⟩ | ⟨hget, rfl⟩ := markFree_cases h
  · exact restated_same hget
  · exact ⟨rfl, rfl, ⟨_, hget⟩, rfl⟩

theorem reclaimForPrune_cases {s s' : BlobStore} {ptr : BlobPtr}
    (h : s.reclaimForPrune ptr = .ok s') :
    (s.allocTable.get ptr.key = some ⟨ptr.gen, .free⟩ ∧ s' = s) ∨
    ∃ state, state ≠ .free ∧ s.allocTable.get ptr.key = some ⟨ptr.gen, state⟩ ∧
      s' = { s with
        allocTable := s.allocTable.insert ptr.key ⟨ptr.gen, .free⟩
        usageTotals := { releaseTotals state ptr.cls s.usageTotals with
          freeClassBytes := saturatingAdd u64Max
            (releaseTotals state ptr.cls s.usageTotals).freeClassBytes ptr.cls } } := by
  rw [reclaimForPrune] at h
  split at h
  · exact absurd h (by simp)
  · rename_i entry hget
    obtain ⟨gen, state⟩ := entry
    simp only [ne_eq] at h
    split_ifs at h with hgen hf hq
    · subst hgen
      subst hf
      exact Or.inl ⟨hget, (Except.ok.inj h).symm⟩
    · subst hgen
      exact Or.inr ⟨state, hf, hget, (Except.ok.inj h).symm⟩

theorem reclaimForPrune_ok {s s' : BlobStore} {ptr : BlobPtr}
    (h : s.reclaimForPrune ptr = .ok s') : Restated s s' ptr .free := by
  obtain ⟨hget, rfl⟩ | ⟨state, -, hget, rfl⟩ := reclaimForPrune_cases h
  · exact restated_same hget
  · exact ⟨rfl, rfl, ⟨_, hget⟩, rfl⟩

theorem sound_of_restated {s s' : BlobStore} {ptr : BlobPtr} {state : BlobState} (hs : s.Sound)
    (h : Restated s s' ptr state) : s'.Sound := by
  obtain ⟨old, hold⟩ := h.entry
  exact sound_of_restate ptr.key hs hold h.arenaEnd h.table

theorem sound_of_storeOutcome {s s' : BlobStore} {data : Bytes} (hs : s.Sound)
    (h : StoreOutcome s s' data) : s'.Sound := by
  cases h with
  | refused ha he ht => exact sound_of_table_eq hs he ht
  | placed ptr hp hl ha => exact sound_of_placed hs hp

end BlobStore

inductive BlobOp where
  | store (grow : Nat → Bool) (data : Bytes)
  | quarantine (ptr : BlobPtr)
  | free (ptr : BlobPtr)
  | reclaim (ptr : BlobPtr)

namespace BlobOp

def run (s : BlobStore) : BlobOp → BlobStore
  | .store grow data => (s.storeBytes grow data).2
  | .quarantine ptr => (s.markQuarantine ptr).toOption.getD s
  | .free ptr => (s.markFree ptr).toOption.getD s
  | .reclaim ptr => (s.reclaimForPrune ptr).toOption.getD s

def Spares (ptr : BlobPtr) : BlobOp → Prop
  | .store _ _ => True
  | .quarantine q => q.key = ptr.key → q.gen ≠ ptr.gen
  | .free q => q.key = ptr.key → q.gen ≠ ptr.gen
  | .reclaim q => q.key = ptr.key → q.gen ≠ ptr.gen

inductive Effect (s s' : BlobStore) : BlobOp → Prop
  | same (op : BlobOp) (eq : s' = s) : Effect s s' op
  | store (grow : Nat → Bool) (data : Bytes) (outcome : BlobStore.StoreOutcome s s' data) :
      Effect s s' (.store grow data)
  | quarantine (ptr : BlobPtr) (h : BlobStore.Restated s s' ptr .quarantine) :
      Effect s s' (.quarantine ptr)
  | free (ptr : BlobPtr) (h : BlobStore.Restated s s' ptr .free) : Effect s s' (.free ptr)
  | reclaim (ptr : BlobPtr) (h : BlobStore.Restated s s' ptr .free) : Effect s s' (.reclaim ptr)

theorem effect_run (s : BlobStore) (op : BlobOp) : Effect s (op.run s) op := by
  cases op with
  | store grow data => exact .store grow data (s.storeBytes_outcome grow data)
  | quarantine ptr =>
      cases h : s.markQuarantine ptr with
      | error e => exact .same _ (by simp [run, h, Except.toOption])
      | ok t =>
          have ht : run s (.quarantine ptr) = t := by simp [run, h, Except.toOption]
          exact ht ▸ .quarantine ptr (BlobStore.markQuarantine_ok h)
  | free ptr =>
      cases h : s.markFree ptr with
      | error e => exact .same _ (by simp [run, h, Except.toOption])
      | ok t =>
          have ht : run s (.free ptr) = t := by simp [run, h, Except.toOption]
          exact ht ▸ .free ptr (BlobStore.markFree_ok h)
  | reclaim ptr =>
      cases h : s.reclaimForPrune ptr with
      | error e => exact .same _ (by simp [run, h, Except.toOption])
      | ok t =>
          have ht : run s (.reclaim ptr) = t := by simp [run, h, Except.toOption]
          exact ht ▸ .reclaim ptr (BlobStore.reclaimForPrune_ok h)

theorem sound_run {s : BlobStore} (hs : s.Sound) (op : BlobOp) : (op.run s).Sound := by
  cases effect_run s op with
  | same _ h => rw [h]; exact hs
  | store _ _ h => exact BlobStore.sound_of_storeOutcome hs h
  | quarantine _ h => exact BlobStore.sound_of_restated hs h
  | free _ h => exact BlobStore.sound_of_restated hs h
  | reclaim _ h => exact BlobStore.sound_of_restated hs h

theorem sound_foldl {s : BlobStore} (hs : s.Sound) (ops : List BlobOp) :
    (ops.foldl run s).Sound := by
  induction ops generalizing s with
  | nil => exact hs
  | cons op ops ih => exact ih (sound_run hs op)

end BlobOp

namespace BlobStore

structure Holds (s : BlobStore) (ptr : BlobPtr) (data : Bytes) : Prop where
  entry : s.allocTable.get ptr.key = some ⟨ptr.gen, .used⟩
  len : ptr.len = data.length
  len_le : ptr.len ≤ ptr.cls
  bytes : readArena s.arena ptr.offset ptr.len = data

theorem read_of_holds {s : BlobStore} {ptr : BlobPtr} {data : Bytes} (hs : s.Sound)
    (h : s.Holds ptr data) : s.read ptr = .ok data := by
  have hin : ptr.offset + ptr.cls ≤ s.arenaEnd := hs.inside ptr.key _ h.entry
  have hend : ptr.offset + ptr.len ≤ s.arenaEnd := le_trans (Nat.add_le_add_left h.len_le _) hin
  have hmax : ptr.offset + ptr.len ≤ u64Max := le_trans hend hs.arenaEnd_le
  have hnot : ¬ ptr.offset + ptr.len > s.arenaEnd := not_lt.mpr hend
  simp [read, h.entry, checkedAdd, hmax, hnot, bind, Except.bind, h.bytes]

theorem readArena_writeArena (arena : Nat → UInt8) (offset : Nat) (data : Bytes) :
    readArena (writeArena arena offset data) offset data.length = data := by
  apply List.ext_getElem
  · simp [readArena]
  · intro i h₁ h₂
    simp [readArena, writeArena, h₂]

theorem readArena_writeArena_of_apart (arena : Nat → UInt8) {o₁ l₁ o₂ : Nat} {data : Bytes}
    (h : o₁ + l₁ ≤ o₂ ∨ o₂ + data.length ≤ o₁) :
    readArena (writeArena arena o₂ data) o₁ l₁ = readArena arena o₁ l₁ := by
  apply List.map_congr_left
  intro i hi
  have hil : i < l₁ := List.mem_range.mp hi
  simp only [writeArena]
  split_ifs with hle
  · have hout : data.length ≤ o₁ + i - o₂ := by omega
    simp [List.getElem?_eq_none hout]
  · rfl

theorem holds_storeBytes {grow : Nat → Bool} {s s' : BlobStore} {data : Bytes} {ptr : BlobPtr}
    (h : s.storeBytes grow data = (.ok ptr, s')) : s'.Holds ptr data := by
  obtain ⟨hp, hlen, harena⟩ := storeBytes_ok h
  refine ⟨?_, hlen, hp.len_le, ?_⟩
  · rw [hp.table, OrdMap.get_insert, if_pos rfl]
  · rw [harena, hlen, readArena_writeArena]

theorem holds_of_restated {s s' : BlobStore} {ptr q : BlobPtr} {data : Bytes} {state : BlobState}
    (h : s.Holds ptr data) (hr : Restated s s' q state) (hne : q.key = ptr.key → q.gen ≠ ptr.gen) :
    s'.Holds ptr data := by
  obtain ⟨old, hold⟩ := hr.entry
  have hkey : ptr.key ≠ q.key := by
    intro heq
    have hsame := h.entry
    rw [heq, hold] at hsame
    exact hne heq.symm (AllocEntry.mk.inj (Option.some.inj hsame)).1
  refine ⟨?_, h.len, h.len_le, ?_⟩
  · rw [hr.table, OrdMap.get_insert, if_neg hkey]
    exact h.entry
  · rw [hr.arena]
    exact h.bytes

theorem key_ne_of_placed {s s' : BlobStore} {ptr q : BlobPtr} {data : Bytes} (hs : s.Sound) (hq : s.Holds q data)
    (hp : Placed s s' ptr) : ptr.key ≠ q.key := by
  intro hkey
  have hslot := hp.slot
  generalize s'.arenaEnd = e at hslot
  cases hslot with
  | reused g hfree hnext =>
      have hused : s.allocTable.get ptr.key = some ⟨q.gen, .used⟩ := hkey ▸ hq.entry
      exact absurd (hfree.symm.trans hused) (by simp)
  | fresh hat hfit hfirst =>
      have hin : q.key.offset + q.key.cls ≤ s.arenaEnd := hs.inside q.key _ hq.entry
      have hpos : 0 < ptr.cls := lt_of_lt_of_le hp.len_pos hp.len_le
      have hoffset : q.key.offset = s.arenaEnd := (congrArg AllocKey.offset hkey).symm.trans hat
      have hcls : q.key.cls = ptr.cls := (congrArg AllocKey.cls hkey).symm
      omega

theorem holds_of_placed {s s' : BlobStore} {ptr q : BlobPtr} {data other : Bytes} (hs : s.Sound)
    (h : s.Holds ptr data) (hp : Placed s s' q) (hlen : q.len = other.length)
    (ha : s'.arena = s.arena ∨ s'.arena = writeArena s.arena q.offset other) :
    s'.Holds ptr data := by
  have hs' : s'.Sound := sound_of_placed hs hp
  have hkey : ptr.key ≠ q.key := (key_ne_of_placed hs h hp).symm
  have hentry : s'.allocTable.get ptr.key = some ⟨ptr.gen, .used⟩ := by
    rw [hp.table, OrdMap.get_insert, if_neg hkey]
    exact h.entry
  have hq : s'.allocTable.get q.key = some ⟨q.gen, .used⟩ := by
    rw [hp.table, OrdMap.get_insert, if_pos rfl]
  refine ⟨hentry, h.len, h.len_le, ?_⟩
  rcases ha with ha | ha
  · rw [ha]
    exact h.bytes
  · rw [ha, readArena_writeArena_of_apart]
    · exact h.bytes
    · have hap := hs'.apart ptr.key q.key _ _ hentry hq hkey
      have hle := h.len_le
      have hqle := hp.len_le
      simp only [BlobPtr.key] at hap
      omega

theorem holds_run {s : BlobStore} {ptr : BlobPtr} {data : Bytes} (hs : s.Sound)
    (h : s.Holds ptr data) (op : BlobOp) (hop : op.Spares ptr) : (op.run s).Holds ptr data := by
  cases BlobOp.effect_run s op with
  | same _ heq => rw [heq]; exact h
  | store _ other ho =>
      cases ho with
      | refused ha he ht => exact ⟨ht ▸ h.entry, h.len, h.len_le, ha ▸ h.bytes⟩
      | placed q hp hl ha => exact holds_of_placed hs h hp hl ha
  | quarantine _ hr => exact holds_of_restated h hr hop
  | free _ hr => exact holds_of_restated h hr hop
  | reclaim _ hr => exact holds_of_restated h hr hop

theorem holds_foldl {s : BlobStore} {ptr : BlobPtr} {data : Bytes} (hs : s.Sound)
    (h : s.Holds ptr data) (ops : List BlobOp) (hops : ∀ op ∈ ops, op.Spares ptr) :
    (ops.foldl BlobOp.run s).Holds ptr data := by
  induction ops generalizing s with
  | nil => exact h
  | cons op ops ih =>
      obtain ⟨hop, hrest⟩ := List.forall_mem_cons.mp hops
      exact ih (BlobOp.sound_run hs op) (holds_run hs h op hop) hrest

theorem read_after_store {grow : Nat → Bool} {s s' : BlobStore} {data : Bytes} {ptr : BlobPtr}
    (hs : s.Sound) (h : s.storeBytes grow data = (.ok ptr, s')) (ops : List BlobOp)
    (hops : ∀ op ∈ ops, op.Spares ptr) : (ops.foldl BlobOp.run s').read ptr = .ok data := by
  have hs' : s'.Sound := sound_of_placed hs (storeBytes_ok h).1
  exact read_of_holds (BlobOp.sound_foldl hs' ops) (holds_foldl hs' (holds_storeBytes h) ops hops)

end BlobStore

end Kasane.Blob
