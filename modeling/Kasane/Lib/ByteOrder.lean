import Kasane.Lib.BigEndian

namespace BigEndian

theorem append_lt_append_iff {l l' : List Nat} (hlen : l.length = l'.length) (x y : List Nat) :
    l ++ x < l' ++ y ↔ l < l' ∨ l = l' ∧ x < y := by
  induction l generalizing l' with
  | nil =>
      obtain rfl := List.length_eq_zero_iff.mp hlen.symm
      simp
  | cons a l ih =>
      cases l' with
      | nil => simp at hlen
      | cons b l' =>
          have htail := ih (Nat.succ.inj hlen)
          rw [List.cons_append, List.cons_append, List.cons_lt_cons_iff, List.cons_lt_cons_iff,
            htail, List.cons.injEq]
          tauto

-- the order in which a map keeps keys stored as these bytes
def Before (a b : Bytes) : Prop := digits a < digits b

theorem before_append {l l' : Bytes} (hlen : l.length = l'.length) (x y : Bytes) :
    Before (l ++ x) (l' ++ y) ↔ Before l l' ∨ l = l' ∧ Before x y := by
  have hdigits : (digits l).length = (digits l').length := by
    rw [digits, digits, List.length_map, List.length_map, hlen]
  rw [Before, digits, digits, List.map_append, List.map_append]
  exact (append_lt_append_iff hdigits _ _).trans
    (or_congr Iff.rfl (and_congr digits_injective.eq_iff Iff.rfl))

theorem before_singleton (a b : UInt8) : Before [a] [b] ↔ a.toNat < b.toNat := by
  rw [Before, digits, digits, List.map_singleton, List.map_singleton, List.cons_lt_cons_iff]
  simp

theorem encode_inj {w a b : Nat} (ha : a < 256 ^ w) (hb : b < 256 ^ w) :
    encode w a = encode w b ↔ a = b := by
  refine ⟨fun h => ?_, fun h => h ▸ rfl⟩
  rw [← decode_encode_of_lt ha, ← decode_encode_of_lt hb, h]

theorem before_encode {w a b : Nat} (ha : a < 256 ^ w) (hb : b < 256 ^ w) :
    Before (encode w a) (encode w b) ↔ a < b := by
  induction w generalizing a b with
  | zero =>
      have hsame : a = b := by rw [pow_zero] at ha hb; omega
      simp [encode, Before, hsame]
  | succ w ih =>
      rw [pow_succ] at ha hb
      have hhigh : a / 256 < 256 ^ w := by omega
      have hhigh' : b / 256 < 256 ^ w := by omega
      rw [encode, encode, before_append (by rw [length_encode, length_encode]), ih hhigh hhigh',
        encode_inj hhigh hhigh', before_singleton, UInt8.toNat_ofNat', UInt8.toNat_ofNat']
      omega

theorem before_encode_append {w a b : Nat} (ha : a < 256 ^ w) (hb : b < 256 ^ w) (x y : Bytes) :
    Before (encode w a ++ x) (encode w b ++ y) ↔ a < b ∨ a = b ∧ Before x y := by
  rw [before_append (by rw [length_encode, length_encode]), before_encode ha hb, encode_inj ha hb]

theorem encode_append_inj {w a b : Nat} (ha : a < 256 ^ w) (hb : b < 256 ^ w) {x y : Bytes} :
    encode w a ++ x = encode w b ++ y ↔ a = b ∧ x = y := by
  constructor
  · intro h
    obtain ⟨hhead, htail⟩ := List.append_inj h (by rw [length_encode, length_encode])
    exact ⟨(encode_inj ha hb).mp hhead, htail⟩
  · rintro ⟨rfl, rfl⟩
    rfl

-- a number in decimal, as text and filled up with zeros to a fixed width
def decimal (n : Nat) : Bytes := (Nat.toDigits 10 n).map (fun c => c.val.toUInt8)

def fixedDecimal : Nat → Nat → Bytes
  | 0, _ => []
  | w + 1, n => fixedDecimal w (n / 10) ++ [UInt8.ofNat (48 + n % 10)]

@[simp] theorem length_fixedDecimal (w n : Nat) : (fixedDecimal w n).length = w := by
  induction w generalizing n with
  | zero => rfl
  | succ w ih => rw [fixedDecimal, List.length_append, ih, List.length_singleton]

theorem fixedDecimal_zero (w : Nat) : fixedDecimal w 0 = List.replicate w 0x30 := by
  induction w with
  | zero => rfl
  | succ w ih =>
      rw [fixedDecimal, Nat.zero_div, ih, List.replicate_succ']
      rfl

theorem digitChar_byte : ∀ d < 10, (Nat.digitChar d).val.toUInt8 = UInt8.ofNat (48 + d) := by
  decide

theorem decimal_of_lt {n : Nat} (h : n < 10) : decimal n = [UInt8.ofNat (48 + n)] := by
  rw [decimal, Nat.toDigits_of_lt_base h, List.map_singleton, digitChar_byte n h]

theorem decimal_of_le {n : Nat} (h : 10 ≤ n) :
    decimal n = decimal (n / 10) ++ [UInt8.ofNat (48 + n % 10)] := by
  rw [decimal, Nat.toDigits_of_base_le (by decide) h, List.map_append, List.map_singleton,
    digitChar_byte _ (Nat.mod_lt n (by decide)), decimal]

theorem padded_decimal {w n : Nat} (h : n < 10 ^ (w + 1)) :
    List.replicate (w + 1 - (decimal n).length) 0x30 ++ decimal n = fixedDecimal (w + 1) n := by
  induction w generalizing n with
  | zero =>
      have hn : n < 10 := h
      rw [decimal_of_lt hn, fixedDecimal, fixedDecimal, Nat.mod_eq_of_lt hn]
      rfl
  | succ w ih =>
      rcases Nat.lt_or_ge n 10 with hn | hn
      · rw [decimal_of_lt hn, fixedDecimal, Nat.div_eq_of_lt hn, Nat.mod_eq_of_lt hn, fixedDecimal_zero]
        rfl
      · have hdiv : n / 10 < 10 ^ (w + 1) := by
          rw [pow_succ] at h
          exact Nat.div_lt_of_lt_mul (by rw [Nat.mul_comm]; exact h)
        rw [decimal_of_le hn, fixedDecimal, ← ih hdiv, List.length_append, List.length_singleton,
          Nat.add_sub_add_right, List.append_assoc]

theorem digit_toNat (n : Nat) : (UInt8.ofNat (48 + n % 10)).toNat = 48 + n % 10 :=
  UInt8.toNat_ofNat_of_lt (show 48 + n % 10 < 256 by omega)

theorem before_fixedDecimal {w m n : Nat} (h : m < n) (hn : n < 10 ^ w) :
    Before (fixedDecimal w m) (fixedDecimal w n) := by
  induction w generalizing m n with
  | zero =>
      rw [pow_zero] at hn
      omega
  | succ w ih =>
      rw [fixedDecimal, fixedDecimal, before_append (by simp), before_singleton]
      rcases Nat.lt_or_ge (m / 10) (n / 10) with hdiv | hdiv
      · exact .inl (ih hdiv (by omega))
      · refine .inr ⟨by rw [show m / 10 = n / 10 by omega], ?_⟩
        rw [digit_toNat, digit_toNat]
        omega

theorem before_cons (b : UInt8) (l l' : Bytes) : Before (b :: l) (b :: l') ↔ Before l l' := by
  simp [Before, digits]

theorem before_nil_cons (b : UInt8) (l : Bytes) : Before [] (b :: l) := List.nil_lt_cons _ _

theorem mem_decimal {n : Nat} {b : UInt8} (h : b ∈ decimal n) : 0x30 ≤ b ∧ b ≤ 0x39 := by
  obtain ⟨c, hc, rfl⟩ := List.mem_map.mp h
  have hdigit := Nat.isDigit_of_mem_toDigits (by decide) (by decide) hc
  simp only [Char.isDigit, Bool.and_eq_true, decide_eq_true_eq, ge_iff_le, UInt32.le_iff_toNat_le]
    at hdigit
  have hlow : 48 ≤ c.val.toNat := hdigit.1
  have hhigh : c.val.toNat ≤ 57 := hdigit.2
  have hbyte : c.val.toUInt8.toNat = c.val.toNat := by
    rw [UInt32.toNat_toUInt8]
    omega
  rw [UInt8.le_iff_toNat_le, UInt8.le_iff_toNat_le, hbyte]
  exact ⟨hlow, hhigh⟩

theorem decimal_ne_nil (n : Nat) : decimal n ≠ [] := by
  simp [decimal]

end BigEndian
