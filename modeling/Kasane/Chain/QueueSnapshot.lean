import Kasane.Chain.PoolSteps
import Kasane.Lib.Paging

namespace Kasane.Chain

open BigEndian Codec Word Blob

variable {W : Type} (c : Crypto)

structure QueueItem where
  seq : Nat
  txId : TxId
  kind : TxKind
deriving DecidableEq

structure QueueSnapshot where
  items : List QueueItem
  nextCursor : Option Nat

def snapshotLimitReached (itemCount limit : Nat) : Bool := decide (limit ≤ itemCount)

def nextExclusiveCursor (lastSeq : Nat) : Nat := saturatingAdd u64Max lastSeq 1

def queueItem (s : StableState W) (entry : ReadySeqKey × TxId) : Option QueueItem :=
  match storedTx c s entry.2 with
  | some (.ok stored) => some ⟨entry.1.seq, entry.2, stored.kind⟩
  | _ => none

def snapshotLoop (s : StableState W) (limit : Nat) :
    List (ReadySeqKey × TxId) → List QueueItem → Option Nat → QueueSnapshot
  | [], items, _ => ⟨items, none⟩
  | entry :: rest, items, lastSeq =>
      if snapshotLimitReached items.length limit then ⟨items, lastSeq.map nextExclusiveCursor⟩
      else
        match queueItem c s entry with
        | none => snapshotLoop s limit rest items lastSeq
        | some item => snapshotLoop s limit rest (items ++ [item]) (some entry.1.seq)

def getQueueSnapshot (s : StableState W) (limit : Nat) (cursor : Option Nat) : QueueSnapshot :=
  snapshotLoop c s limit (s.readyBySeq.rangeFrom ⟨cursor.getD 0, zeroArr 32⟩) [] none

variable {c} {s : StableState W} {limit : Nat}

def leftFrom (s : StableState W) (cursor : Option Nat) : List (ReadySeqKey × TxId) :=
  s.readyBySeq.rangeFrom ⟨cursor.getD 0, zeroArr 32⟩

-- a snapshot lists everything left, or stops after the last entry of a front part
inductive Snapped (c : Crypto) (s : StableState W) (entries : List (ReadySeqKey × TxId))
    (items : List QueueItem) (lastSeq : Option Nat) : QueueSnapshot → Prop
  | passed : Snapped c s entries items lastSeq ⟨items ++ entries.filterMap (queueItem c s), none⟩
  | full {seq : Nat} (last : lastSeq = some seq) (more : entries ≠ []) :
      Snapped c s entries items lastSeq ⟨items, some (nextExclusiveCursor seq)⟩
  | cut {front back : List (ReadySeqKey × TxId)} {entry : ReadySeqKey × TxId}
      (split : entries = front ++ entry :: back) (more : back ≠ []) :
      Snapped c s entries items lastSeq
        ⟨items ++ (front ++ [entry]).filterMap (queueItem c s),
          some (nextExclusiveCursor entry.1.seq)⟩

theorem Snapped.skip {entry : ReadySeqKey × TxId} {rest : List (ReadySeqKey × TxId)}
    {items : List QueueItem} {lastSeq : Option Nat} {page : QueueSnapshot}
    (hitem : queueItem c s entry = none) (h : Snapped c s rest items lastSeq page) :
    Snapped c s (entry :: rest) items lastSeq page := by
  cases h with
  | passed =>
      rw [← List.filterMap_cons_none hitem]
      exact .passed
  | full last more => exact .full last (List.cons_ne_nil _ _)
  | @cut front back e split more =>
      rw [← List.filterMap_cons_none (l := front ++ [e]) hitem, ← List.cons_append]
      exact .cut (by rw [split, List.cons_append]) more

theorem Snapped.list {entry : ReadySeqKey × TxId} {rest : List (ReadySeqKey × TxId)}
    {items : List QueueItem} {lastSeq : Option Nat} {page : QueueSnapshot} {item : QueueItem}
    (hitem : queueItem c s entry = some item)
    (h : Snapped c s rest (items ++ [item]) (some entry.1.seq) page) :
    Snapped c s (entry :: rest) items lastSeq page := by
  have hcons (l : List (ReadySeqKey × TxId)) : (items ++ [item]) ++ l.filterMap (queueItem c s) =
      items ++ (entry :: l).filterMap (queueItem c s) := by
    rw [List.filterMap_cons_some hitem, List.append_assoc, List.singleton_append]
  cases h with
  | passed =>
      rw [hcons]
      exact .passed
  | full last more =>
      obtain rfl := Option.some.inj last
      have hone := hcons []
      rw [List.filterMap_nil, List.append_nil] at hone
      rw [hone]
      exact .cut (List.nil_append _).symm more
  | @cut front back e split more =>
      rw [hcons, ← List.cons_append]
      exact .cut (by rw [split, List.cons_append]) more

theorem snapped_loop (entries : List (ReadySeqKey × TxId)) (items : List QueueItem)
    (lastSeq : Option Nat) (hlast : limit ≤ items.length → lastSeq.isSome) :
    Snapped c s entries items lastSeq (snapshotLoop c s limit entries items lastSeq) := by
  induction entries generalizing items lastSeq with
  | nil => simpa [snapshotLoop] using @Snapped.passed W c s [] items lastSeq
  | cons entry rest ih =>
      rw [snapshotLoop]
      split_ifs with hfull
      · obtain ⟨seq, hseq⟩ := Option.isSome_iff_exists.mp (hlast (of_decide_eq_true hfull))
        rw [hseq]
        exact .full rfl (List.cons_ne_nil _ _)
      · cases hitem : queueItem c s entry with
        | none => exact (ih items lastSeq hlast).skip hitem
        | some item => exact (ih (items ++ [item]) (some entry.1.seq) (fun _ => rfl)).list hitem

-- no two ready transactions hold one sequence number
structure Sequenced (s : StableState W) : Prop where
  rising : s.readyBySeq.entries.Pairwise (fun a b => a.1.seq < b.1.seq)
  word : ∀ entry ∈ s.readyBySeq.entries, entry.1.seq ≤ u64Max

theorem zero_le_digits (l : Bytes) : digits (List.replicate l.length 0) ≤ digits l := by
  induction l with
  | nil => exact le_refl _
  | cons b l ih =>
      rw [List.length_cons, List.replicate_succ]
      refine le_of_not_gt (fun hlt => ?_)
      rcases List.cons_lt_cons_iff.mp hlt with hb | ⟨-, htail⟩
      · exact absurd hb (by simp)
      · exact absurd htail (not_lt.mpr ih)

theorem zeroArr_le (n : Nat) (a : ByteArr n) : zeroArr n ≤ a := by
  have h := zero_le_digits a.toList
  rwa [List.Vector.toList_length] at h

theorem seqKey_lt {a b : ReadySeqKey} :
    a < b ↔ a.seq < b.seq ∨ a.seq = b.seq ∧ a.txHash < b.txHash :=
  Prod.Lex.toLex_lt_toLex

theorem seqKey_le {seq : Nat} {key : ReadySeqKey} : ⟨seq, zeroArr 32⟩ ≤ key ↔ seq ≤ key.seq := by
  rw [← not_lt, seqKey_lt, ← not_lt (a := key.seq)]
  refine not_congr ⟨?_, .inl⟩
  rintro (hlt | ⟨-, hlt⟩)
  · exact hlt
  · exact absurd hlt (not_lt.mpr (zeroArr_le 32 key.txHash))

theorem leftFrom_eq (s : StableState W) (cursor : Option Nat) :
    leftFrom s cursor =
      s.readyBySeq.entries.filter (fun entry => decide (cursor.getD 0 ≤ entry.1.seq)) := by
  rw [leftFrom, OrdMap.rangeFrom]
  simp only [seqKey_le]

theorem leftFrom_next (h : Sequenced s) {cursor : Option Nat}
    {front back : List (ReadySeqKey × TxId)} {entry : ReadySeqKey × TxId}
    (split : leftFrom s cursor = front ++ entry :: back) (more : back ≠ []) :
    leftFrom s (some (nextExclusiveCursor entry.1.seq)) = back := by
  have hrising : (leftFrom s cursor).Pairwise (fun a b => a.1.seq < b.1.seq) := by
    rw [leftFrom_eq]
    exact h.rising.filter _
  have hmem {e : ReadySeqKey × TxId} (he : e ∈ leftFrom s cursor) :
      e ∈ s.readyBySeq.entries ∧ cursor.getD 0 ≤ e.1.seq := by
    rw [leftFrom_eq] at he
    simpa using he
  rw [split] at hrising
  obtain ⟨-, htail, hfront⟩ := List.pairwise_append.mp hrising
  have hlater := (List.pairwise_cons.mp htail).1
  have hstart : cursor.getD 0 ≤ entry.1.seq := (hmem (split ▸ by simp)).2
  have hnext : nextExclusiveCursor entry.1.seq = entry.1.seq + 1 := by
    obtain ⟨e, he⟩ := List.exists_mem_of_ne_nil back more
    have hword := h.word e (hmem (split ▸ by simp [he])).1
    exact Nat.min_eq_left ((hlater e he).trans_le hword)
  have hfiltered : leftFrom s (some (nextExclusiveCursor entry.1.seq)) =
      (leftFrom s cursor).filter (fun e => decide (entry.1.seq + 1 ≤ e.1.seq)) := by
    rw [leftFrom_eq, leftFrom_eq, List.filter_filter, hnext]
    refine List.filter_congr (fun e _ => ?_)
    rw [Option.getD_some, Bool.eq_iff_iff]
    simp only [decide_eq_true_eq, Bool.and_eq_true]
    omega
  have hgone : front.filter (fun e => decide (entry.1.seq + 1 ≤ e.1.seq)) = [] := by
    refine List.filter_eq_nil_iff.mpr (fun e he => ?_)
    have hbefore := hfront e he entry List.mem_cons_self
    simp only [decide_eq_true_eq]
    omega
  rw [hfiltered, split, List.filter_append, hgone, List.nil_append,
    List.filter_cons_of_neg (by simp)]
  exact List.filter_eq_self.mpr (fun e he => decide_eq_true (hlater e he))

variable (c s) in
def snapshotPage : Paging.Fetch Nat QueueItem Empty := fun cursor limit =>
  .ok ((getQueueSnapshot c s limit cursor).items, (getQueueSnapshot c s limit cursor).nextCursor)

theorem snapped_page (hlimit : 1 ≤ limit) (cursor : Option Nat) :
    Snapped c s (leftFrom s cursor) [] none (getQueueSnapshot c s limit cursor) :=
  snapped_loop _ _ _ (fun hfull => absurd hlimit (by simpa using hfull))

theorem resumes_snapshotPage (h : Sequenced s) :
    Paging.Resumes (snapshotPage c s) (fun _ => True)
      (fun cursor => (leftFrom s cursor).filterMap (queueItem c s))
      (fun cursor => (leftFrom s cursor).length) where
  last := by
    intro cursor limit items _ hlimit hfetched
    have hpage := snapped_page (c := c) (s := s) hlimit cursor
    obtain ⟨rfl, hnext⟩ := Prod.mk.inj (Except.ok.inj hfetched)
    generalize getQueueSnapshot c s limit cursor = page at hpage hnext ⊢
    cases hpage with
    | passed => exact List.nil_append _
    | full last => exact absurd last (by simp)
    | cut split more => exact absurd hnext (by simp)
  more := by
    intro cursor limit items next _ hlimit hfetched
    have hpage := snapped_page (c := c) (s := s) hlimit cursor
    obtain ⟨rfl, hnext⟩ := Prod.mk.inj (Except.ok.inj hfetched)
    generalize getQueueSnapshot c s limit cursor = page at hpage hnext ⊢
    cases hpage with
    | passed => exact absurd hnext (by simp)
    | full last => exact absurd last (by simp)
    | @cut front back entry split more =>
        obtain rfl := Option.some.inj hnext
        rw [leftFrom_next h split more, split]
        refine ⟨trivial, ?_, ?_⟩
        · rw [List.nil_append, ← List.filterMap_append, List.append_assoc, List.singleton_append]
        · rw [List.length_append, List.length_cons]
          omega

-- every ready transaction with a decodable payload once, by rising sequence numbers
structure ListsReady (c : Crypto) (s : StableState W) (items : List QueueItem) : Prop where
  rising : items.Pairwise (fun a b => a.seq < b.seq)
  once : (items.map QueueItem.txId).Nodup
  listed : ∀ item, item ∈ items ↔ ∃ key stored, s.readyKeyByTxId.get item.txId = some key ∧
    storedTx c s item.txId = some (.ok stored) ∧ item.seq = key.seq ∧ item.kind = stored.kind

theorem queueItem_some {entry : ReadySeqKey × TxId} {item : QueueItem} :
    queueItem c s entry = some item ↔ ∃ stored, storedTx c s entry.2 = some (.ok stored) ∧
      item = ⟨entry.1.seq, entry.2, stored.kind⟩ := by
  rw [queueItem]
  split
  · rename_i stored hstored
    simp [hstored, eq_comm]
  · rename_i hother
    simp only [reduceCtorEq, false_iff, not_exists, not_and]
    exact fun stored hstored => absurd hstored (hother stored)

-- the sequence index holds exactly the ready transactions
def SeqIndexed (s : StableState W) : Prop := ∀ id seqKey, s.readyBySeq.get seqKey = some id ↔
  ∃ key, s.readyKeyByTxId.get id = some key ∧ seqKey = ⟨key.seq, id⟩

theorem listsReady_entries (h : Sequenced s) (hindexed : SeqIndexed s) :
    ListsReady c s (s.readyBySeq.entries.filterMap (queueItem c s)) := by
  have hlisted (item : QueueItem) : item ∈ s.readyBySeq.entries.filterMap (queueItem c s) ↔
      ∃ key stored, s.readyKeyByTxId.get item.txId = some key ∧
        storedTx c s item.txId = some (.ok stored) ∧ item.seq = key.seq ∧
          item.kind = stored.kind := by
    rw [List.mem_filterMap]
    constructor
    · rintro ⟨⟨seqKey, id⟩, hmem, hitem⟩
      obtain ⟨stored, hstored, rfl⟩ := queueItem_some.mp hitem
      obtain ⟨key, hkey, rfl⟩ := (hindexed id seqKey).mp (OrdMap.mem_entries.mp hmem)
      exact ⟨key, stored, hkey, hstored, rfl, rfl⟩
    · rintro ⟨key, stored, hkey, hstored, hseq, hkind⟩
      refine ⟨(⟨key.seq, item.txId⟩, item.txId), OrdMap.mem_entries.mpr ?_,
        queueItem_some.mpr ⟨stored, hstored, ?_⟩⟩
      · exact (hindexed _ _).mpr ⟨key, hkey, rfl⟩
      · rw [← hseq, ← hkind]
  have hrising : (s.readyBySeq.entries.filterMap (queueItem c s)).Pairwise
      (fun a b => a.seq < b.seq) := by
    refine h.rising.filterMap _ (fun a b hlt item hitem item' hitem' => ?_)
    obtain ⟨stored, -, rfl⟩ := queueItem_some.mp hitem
    obtain ⟨stored', -, rfl⟩ := queueItem_some.mp hitem'
    exact hlt
  refine ⟨hrising, List.pairwise_map.mpr (hrising.imp_of_mem ?_), hlisted⟩
  intro item item' hmem hmem' hlt hsame
  obtain ⟨key, -, hkey, -, hseq, -⟩ := (hlisted item).mp hmem
  obtain ⟨key', -, hkey', -, hseq', -⟩ := (hlisted item').mp hmem'
  rw [hsame, hkey'] at hkey
  rw [hseq, hseq', Option.some.inj hkey] at hlt
  exact lt_irrefl _ hlt

theorem leftFrom_none (s : StableState W) : leftFrom s none = s.readyBySeq.entries := by
  rw [leftFrom_eq]
  exact List.filter_eq_self.mpr (fun e _ => decide_eq_true (Nat.zero_le _))

structure Enumerates (c : Crypto) (s : StableState W) : Prop where
  ends : ∀ limits : Nat → Nat, (∀ i, 1 ≤ limits i) →
    ∃ n items, Paging.Walk (snapshotPage c s) none ((List.range n).map limits) items
  lists : ∀ limits items, (∀ limit ∈ limits, 1 ≤ limit) →
    Paging.Walk (snapshotPage c s) none limits items → ListsReady c s items

theorem enumerates_of_sequenced (h : Sequenced s) (hindexed : SeqIndexed s) : Enumerates c s where
  ends := by
    intro limits hlimits
    obtain ⟨n, items, walk⟩ := (resumes_snapshotPage (c := c) h).ends hlimits
      (fun _ _ _ => ⟨_, rfl⟩) trivial 0
    exact ⟨n, items, by rwa [List.range_eq_range']⟩
  lists := by
    intro limits items hlimits walk
    have hitems := (resumes_snapshotPage h).items trivial hlimits walk
    rw [leftFrom_none] at hitems
    rw [hitems]
    exact listsReady_entries h hindexed

-- behind the last sequence number the cursor stands still
theorem walk_stands_still (hlast : ∀ e ∈ s.readyBySeq.entries, e.1.seq = u64Max)
    (hlisted : ∀ e ∈ s.readyBySeq.entries, (queueItem c s e).isSome)
    (htwo : ∃ a ∈ s.readyBySeq.entries, ∃ b ∈ s.readyBySeq.entries, a ≠ b) (n : Nat)
    (items : List QueueItem) :
    ¬ Paging.Walk (snapshotPage c s) none (List.replicate n 1) items := by
  have hpage : ∃ item, ∀ cursor : Option Nat, cursor.getD 0 ≤ u64Max →
      snapshotPage c s cursor 1 = .ok ([item], some u64Max) := by
    obtain ⟨a, ha, b, hb, hne⟩ := htwo
    have hfrom (cursor : Option Nat) (hcursor : cursor.getD 0 ≤ u64Max) :
        leftFrom s cursor = s.readyBySeq.entries := by
      rw [leftFrom_eq]
      exact List.filter_eq_self.mpr (fun e he => decide_eq_true (hlast e he ▸ hcursor))
    generalize s.readyBySeq.entries = entries at ha hb hlast hlisted hfrom
    match entries with
    | [] => simp at ha
    | [e] => simp_all
    | e :: e' :: rest =>
        obtain ⟨item, hitem⟩ := Option.isSome_iff_exists.mp (hlisted e List.mem_cons_self)
        have hseq := hlast e List.mem_cons_self
        refine ⟨item, fun cursor hcursor => ?_⟩
        have hloop : getQueueSnapshot c s 1 cursor = ⟨[item], some u64Max⟩ := by
          have hleft := hfrom cursor hcursor
          rw [leftFrom] at hleft
          rw [getQueueSnapshot, hleft]
          simp [snapshotLoop, snapshotLimitReached, hitem, hseq, nextExclusiveCursor, saturatingAdd]
        rw [snapshotPage, hloop]
  obtain ⟨item, hpage⟩ := hpage
  have hstill (cursor : Option Nat) (hcursor : cursor.getD 0 ≤ u64Max) (limits : List Nat)
      (hlimits : ∀ limit ∈ limits, limit = 1) (items : List QueueItem) :
      ¬ Paging.Walk (snapshotPage c s) cursor limits items := by
    intro walk
    induction walk with
    | last fetched =>
        rw [hlimits _ List.mem_cons_self, hpage _ hcursor] at fetched
        exact absurd (Prod.mk.inj (Except.ok.inj fetched)).2 (by simp)
    | more fetched _ ih =>
        rw [hlimits _ List.mem_cons_self, hpage _ hcursor] at fetched
        obtain rfl := Option.some.inj (Prod.mk.inj (Except.ok.inj fetched)).2
        exact ih le_rfl (fun limit hmem => hlimits limit (List.mem_cons_of_mem _ hmem))
  exact hstill none (Nat.zero_le _) _ (fun limit hmem => (List.mem_replicate.mp hmem).2) items

end Kasane.Chain
