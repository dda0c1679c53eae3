import Kasane.Chain.PruneProgress

namespace Kasane.Chain

open BigEndian Codec Word Blob

variable {W : Type} {c : Crypto}

def Increasing (s : StableState W) : Prop :=
  ∀ m n a b, m < n → loadBlock s m = some a → loadBlock s n = some b →
    a.timestamp.toNat < b.timestamp.toNat

structure Narrowed (s : StableState W) (cutoff first low high : Nat) (best : Option (Nat × Nat)) :
    Prop where
  first_le : first ≤ low
  low_le : low ≤ high + 1
  high_le : high ≤ s.head.number
  older : ∀ n block, loadBlock s n = some block → n < low → block.timestamp.toNat ≤ cutoff
  newer : ∀ n block, loadBlock s n = some block → high < n → cutoff < block.timestamp.toNat
  best : low = first ∧ best = none ∨
    ∃ n block, low = n + 1 ∧ loadBlock s n = some block ∧ best = some (n, block.timestamp.toNat)

theorem Increasing.older {s : StableState W} (h : Increasing s) {m n cutoff : Nat}
    {a b : BlockData} (ha : loadBlock s m = some a) (hb : loadBlock s n = some b) (hle : m ≤ n)
    (hold : b.timestamp.toNat ≤ cutoff) : a.timestamp.toNat ≤ cutoff := by
  rcases hle.lt_or_eq with hlt | rfl
  · exact (h m n a b hlt ha hb).le.trans hold
  · obtain rfl := Option.some.inj (ha.symm.trans hb)
    exact hold

theorem Increasing.newer {s : StableState W} (h : Increasing s) {m n cutoff : Nat}
    {a b : BlockData} (ha : loadBlock s m = some a) (hb : loadBlock s n = some b) (hle : m ≤ n)
    (hnew : cutoff < a.timestamp.toNat) : cutoff < b.timestamp.toNat := by
  rcases hle.lt_or_eq with hlt | rfl
  · exact hnew.trans (h m n a b hlt ha hb)
  · obtain rfl := Option.some.inj (ha.symm.trans hb)
    exact hnew

section Search

variable {s : StableState W} {cutoff first low high : Nat} {best : Option (Nat × Nat)}

theorem Narrowed.raise {block : BlockData} {mid : Nat} (h : Narrowed s cutoff first low high best)
    (hinc : Increasing s) (hlow : low ≤ mid) (hhigh : mid ≤ high)
    (hload : loadBlock s mid = some block) (hold : block.timestamp.toNat ≤ cutoff) :
    Narrowed s cutoff first (mid + 1) high (some (mid, block.timestamp.toNat)) where
  first_le := h.first_le.trans (hlow.trans (Nat.le_succ mid))
  low_le := Nat.succ_le_succ hhigh
  high_le := h.high_le
  older := fun _ _ hn hlt => hinc.older hn hload (Nat.lt_succ_iff.mp hlt) hold
  newer := h.newer
  best := .inr ⟨mid, block, rfl, hload, rfl⟩

theorem Narrowed.lower {block : BlockData} {mid : Nat} (h : Narrowed s cutoff first low high best)
    (hinc : Increasing s) (hlow : low ≤ mid) (hhigh : mid ≤ high)
    (hload : loadBlock s mid = some block) (hnew : cutoff < block.timestamp.toNat) :
    Narrowed s cutoff first low (mid - 1) best where
  first_le := h.first_le
  low_le := by omega
  high_le := (Nat.sub_le mid 1).trans (hhigh.trans h.high_le)
  older := h.older
  newer := fun _ _ hn hlt => hinc.newer hload hn (by omega) hnew
  best := h.best

end Search

section Keeps

variable {control : PruneControl} {s : StableState W}

end Keeps

end Kasane.Chain
