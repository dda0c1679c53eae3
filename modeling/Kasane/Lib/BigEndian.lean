import Mathlib.Data.List.Basic
import Mathlib.Data.List.Lex
import Mathlib.Data.List.Induction
import Mathlib.Data.Vector.Basic
import Mathlib.Tactic.Ring

namespace BigEndian

abbrev Bytes := List UInt8

instance lawfulBEqBytes : LawfulBEq Bytes := inferInstance

abbrev ByteArr (n : Nat) := List.Vector UInt8 n

def digits (l : Bytes) : List Nat := l.map UInt8.toNat

theorem digits_injective : Function.Injective digits :=
  List.map_injective_iff.mpr (fun _ _ h => UInt8.toNat_inj.mp h)

instance (n : Nat) : LinearOrder (ByteArr n) :=
  LinearOrder.lift' (fun a => digits a.toList)
    (fun _ _ h => Subtype.val_injective (digits_injective h))

def zeroArr (n : Nat) : ByteArr n := List.Vector.replicate n 0

def encode : Nat → Nat → Bytes
  | 0, _ => []
  | w + 1, n => encode w (n / 256) ++ [UInt8.ofNat n]

def decode (l : Bytes) : Nat := l.foldl (fun acc b => acc * 256 + b.toNat) 0

@[simp] theorem length_encode (w n : Nat) : (encode w n).length = w := by
  induction w generalizing n with
  | zero => rfl
  | succ w ih => simp [encode, ih]

theorem decode_append_singleton (l : Bytes) (b : UInt8) :
    decode (l ++ [b]) = decode l * 256 + b.toNat := by
  simp [decode, List.foldl_append]

theorem decode_encode (w n : Nat) : decode (encode w n) = n % 256 ^ w := by
  induction w generalizing n with
  | zero => simp [encode, decode, Nat.mod_one]
  | succ w ih =>
      have hb : (UInt8.ofNat n).toNat = n % 256 := by simp
      rw [encode, decode_append_singleton, ih, hb, pow_succ, Nat.mul_comm (256 ^ w) 256,
        Nat.mod_mul]
      ring

theorem decode_encode_of_lt {w n : Nat} (h : n < 256 ^ w) : decode (encode w n) = n := by
  rw [decode_encode, Nat.mod_eq_of_lt h]

theorem decode_replicate_zero_append (k : Nat) (l : Bytes) :
    decode (List.replicate k 0 ++ l) = decode l := by
  induction k with
  | zero => rfl
  | succ k ih =>
      rw [List.replicate_succ, List.cons_append, ← ih]
      rfl

theorem encode_decode (l : Bytes) : encode l.length (decode l) = l := by
  induction l using List.reverseRecOn with
  | nil => rfl
  | append_singleton l b ih =>
      have hb : b.toNat < 256 := b.toNat_lt
      have hdiv : (decode l * 256 + b.toNat) / 256 = decode l := by omega
      have hlast : UInt8.ofNat (decode l * 256 + b.toNat) = b := by
        apply UInt8.toNat_inj.mp
        rw [UInt8.toNat_ofNat']
        omega
      rw [List.length_append, List.length_singleton, encode, decode_append_singleton, hdiv, hlast,
        ih]

theorem decode_injective {n : Nat} {a b : ByteArr n} (h : decode a.toList = decode b.toList) :
    a = b := by
  apply Subtype.ext
  have ha := encode_decode a.toList
  have hb := encode_decode b.toList
  rw [a.toList_length] at ha
  rw [b.toList_length] at hb
  exact ha.symm.trans ((congrArg (encode n) h).trans hb)

theorem decode_lt (l : Bytes) : decode l < 256 ^ l.length := by
  induction l using List.reverseRecOn with
  | nil => simp [decode]
  | append_singleton l b ih =>
      have hb : b.toNat < 256 := b.toNat_lt
      rw [decode_append_singleton, List.length_append, List.length_singleton, pow_succ]
      omega

end BigEndian
