import Mathlib

/-! # Words as digits: carries and short division

A machine word of `w` bits is a digit in base `B = 2^w`, and wide arithmetic is
digit arithmetic with explicit carries.  Three facts carry the routines built
that way: a wrapped sum is below an operand exactly when the true sum overflowed
(and, with an incoming carry bit, also when the wrapped sum is the largest
digit); short division by a one-digit divisor brings down one digit at a time,
each quotient digit fitting in a digit while the remainder stays below the
divisor; and two half words side by side are their weighted sum. -/
set_option autoImplicit false

namespace WordArith

section Carry

variable {B a b : Nat}

theorem add_mod_lt_left_iff (ha : a < B) (hb : b < B) : (a + b) % B < a ↔ B ≤ a + b := by
  by_cases overflow : B ≤ a + b
  · rw [Nat.mod_eq_sub_mod overflow, Nat.mod_eq_of_lt (by omega)]
    omega
  · rw [Nat.mod_eq_of_lt (by omega)]
    omega

theorem add_mod_carry_iff (ha : a < B) (hb : b < B) (carry : Bool) :
    ((a + b) % B < a ∨ (carry = true ∧ (a + b) % B = B - 1)) ↔ B ≤ a + b + carry.toNat := by
  rw [add_mod_lt_left_iff ha hb]
  cases carry with
  | false => simp
  | true =>
    by_cases overflow : B ≤ a + b
    · simp only [overflow, true_or, Bool.toNat_true, true_iff]
      omega
    · rw [Nat.mod_eq_of_lt (by omega)]
      simp only [overflow, false_or, true_and, Bool.toNat_true]
      omega

end Carry

section ShortDivision

variable {m B : Nat}

theorem div_bringDown (hm : 0 < m) (n d : Nat) :
    (n * B + d) / m = n / m * B + (n % m * B + d) / m := by
  have split : n * B + d = n % m * B + d + m * (n / m * B) := by
    calc n * B + d = (n % m + m * (n / m)) * B + d := by rw [Nat.mod_add_div]
      _ = n % m * B + d + m * (n / m * B) := by ring
  rw [split, Nat.add_mul_div_left _ _ hm, Nat.add_comm]

theorem mod_bringDown (n d : Nat) : (n * B + d) % m = (n % m * B + d) % m := by
  have split : n * B + d = n % m * B + d + m * (n / m * B) := by
    calc n * B + d = (n % m + m * (n / m)) * B + d := by rw [Nat.mod_add_div]
      _ = n % m * B + d + m * (n / m * B) := by ring
  rw [split, Nat.add_mul_mod_self_left]

theorem bringDown_div_lt {r d : Nat} (hr : r < m) (hd : d < B) : (r * B + d) / m < B := by
  rw [Nat.div_lt_iff_lt_mul (by omega)]
  calc r * B + d < r * B + B := by omega
    _ = (r + 1) * B := by ring
    _ ≤ m * B := Nat.mul_le_mul_right B hr
    _ = B * m := Nat.mul_comm m B

end ShortDivision

theorem toNat_shiftLeft_or {hi lo : UInt64} (hhi : hi.toNat < 2 ^ 32) (hlo : lo.toNat < 2 ^ 32) :
    (hi <<< 32 ||| lo).toNat = hi.toNat * 2 ^ 32 + lo.toNat := by
  have shifted : (hi <<< 32).toNat = hi.toNat * 2 ^ 32 := by
    rw [UInt64.toNat_shiftLeft, show (32 : UInt64).toNat % 64 = 32 from rfl, Nat.shiftLeft_eq]
    exact Nat.mod_eq_of_lt (by omega)
  rw [UInt64.toNat_or, shifted, ← Nat.shiftLeft_eq, ← Nat.shiftLeft_add_eq_or_of_lt hlo]

theorem toNat_foldr_bytes : ∀ bytes : List UInt8, bytes.length ≤ 8 →
    (bytes.foldr (fun (byte : UInt8) (value : UInt64) => value * 256 + byte.toUInt64) 0).toNat =
      Nat.ofDigits 256 (bytes.map UInt8.toNat)
  | [], _ => rfl
  | byte :: rest, short => by
    have shorter : rest.length ≤ 7 := by simp only [List.length_cons] at short; omega
    have value := toNat_foldr_bytes rest (by omega)
    have bound : Nat.ofDigits 256 (rest.map UInt8.toNat) < 256 ^ 7 := by
      calc Nat.ofDigits 256 (rest.map UInt8.toNat) < 256 ^ (rest.map UInt8.toNat).length :=
            Nat.ofDigits_lt_base_pow_length (by norm_num) (by simpa using fun b _ => UInt8.toNat_lt b)
        _ ≤ 256 ^ 7 := Nat.pow_le_pow_right (by norm_num) (by simpa using shorter)
    have digit : byte.toNat < 256 := UInt8.toNat_lt byte
    simp only [List.foldr_cons, List.map_cons, Nat.ofDigits_cons, UInt64.toNat_add, UInt64.toNat_mul,
      UInt8.toNat_toUInt64, value]
    rw [show (256 : UInt64).toNat = 256 from rfl]
    omega

theorem toNat_foldl_add (words : List UInt64) (acc : UInt64) :
    (words.foldl (· + ·) acc).toNat = (acc.toNat + (words.map UInt64.toNat).sum) % 2 ^ 64 := by
  induction words generalizing acc with
  | nil => simp [Nat.mod_eq_of_lt acc.toNat_lt_size]
  | cons word words ih =>
    rw [List.foldl_cons, ih, UInt64.toNat_add, List.map_cons, List.sum_cons]
    omega

/-! ## Two-digit numbers -/

section Compare

variable {B hi lo hi' lo' : Nat}

theorem twoDigit_div (hlo : lo < B) : (hi * B + lo) / B = hi := by
  rw [Nat.add_comm, Nat.add_mul_div_right _ _ (by omega), Nat.div_eq_of_lt hlo, Nat.zero_add]

theorem twoDigit_mod (hlo : lo < B) : (hi * B + lo) % B = lo := by
  rw [Nat.add_comm, Nat.add_mul_mod_self_right, Nat.mod_eq_of_lt hlo]

theorem twoDigit_eq_iff (hlo : lo < B) (hlo' : lo' < B) :
    hi * B + lo = hi' * B + lo' ↔ hi = hi' ∧ lo = lo' := by
  constructor
  · intro same
    exact ⟨by rw [← @twoDigit_div B hi lo hlo, same, twoDigit_div hlo'],
      by rw [← @twoDigit_mod B hi lo hlo, same, twoDigit_mod hlo']⟩
  · rintro ⟨rfl, rfl⟩
    rfl

theorem twoDigit_lt_iff (hlo : lo < B) (hlo' : lo' < B) :
    hi * B + lo < hi' * B + lo' ↔ hi < hi' ∨ hi = hi' ∧ lo < lo' := by
  constructor
  · intro lt
    rcases Nat.lt_trichotomy hi hi' with below | same | above
    · exact .inl below
    · exact .inr ⟨same, by subst same; omega⟩
    · -- a higher digit outweighs every low digit
      have outweighs : (hi' + 1) * B ≤ hi * B := Nat.mul_le_mul_right B above
      rw [Nat.succ_mul] at outweighs
      omega
  · rintro (below | ⟨rfl, lt⟩)
    · have outweighs : (hi + 1) * B ≤ hi' * B := Nat.mul_le_mul_right B below
      rw [Nat.succ_mul] at outweighs
      omega
    · omega

end Compare

end WordArith
