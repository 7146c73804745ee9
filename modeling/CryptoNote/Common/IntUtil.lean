import CryptoNote.Lib.WordArith

/-! # Wide integer helpers (`Common/int-util.h`)

`mul128` multiplies two 64-bit words through their 32-bit halves and gives the
128-bit product as a low and a high word; `div128_32` divides a 128-bit number,
given as two words, by a 32-bit divisor: long division in base `2^32`, one
`div_with_reminder` per 32-bit digit, the remainder carried from digit to digit.
An out-parameter is returned in the result, after the C return value. -/
set_option autoImplicit false

namespace IntUtil

open WordArith

def hiDword (val : UInt64) : UInt64 := val >>> 32

def loDword (val : UInt64) : UInt64 := val &&& 0xFFFFFFFF

/-- `mul128(multiplier, multiplicand, &product_hi)`: the low word it returns and
the high word it stores. -/
def mul128 (multiplier multiplicand : UInt64) : UInt64 × UInt64 :=
  -- multiplier = a * 2^32 + b, multiplicand = c * 2^32 + d
  let a := hiDword multiplier
  let b := loDword multiplier
  let c := hiDword multiplicand
  let d := loDword multiplicand
  let ac := a * c
  let ad := a * d
  let bc := b * c
  let bd := b * d
  let adbc := ad + bc
  let adbcCarry : UInt64 := if adbc < ad then 1 else 0
  let productLo := bd + (adbc <<< 32)
  let productLoCarry : UInt64 := if productLo < bd then 1 else 0
  let productHi := ac + (adbc >>> 32) + (adbcCarry <<< 32) + productLoCarry
  (productLo, productHi)

/-- `div_with_reminder(dividend, divisor, &remainder)`: the quotient it returns and
the remainder it stores, the incoming remainder standing above `dividend`. -/
def divWithReminder (dividend : UInt64) (divisor remainder : UInt32) : UInt64 × UInt32 :=
  let dividend := dividend ||| (remainder.toUInt64 <<< 32)
  (dividend / divisor.toUInt64, (dividend % divisor.toUInt64).toUInt32)

/-- `div128_32(dividend_hi, dividend_lo, divisor, &quotient_hi, &quotient_lo)`: the
remainder it returns and the two quotient words it stores. -/
def div128_32 (dividendHi dividendLo : UInt64) (divisor : UInt32) : UInt32 × UInt64 × UInt64 :=
  let dividendDword3 := hiDword dividendHi
  let dividendDword2 := loDword dividendHi
  let dividendDword1 := hiDword dividendLo
  let dividendDword0 := loDword dividendLo
  let (quotient3, remainder) := divWithReminder dividendDword3 divisor 0
  let (quotient2, remainder) := divWithReminder dividendDword2 divisor remainder
  let (quotient1, remainder) := divWithReminder dividendDword1 divisor remainder
  let (quotient0, remainder) := divWithReminder dividendDword0 divisor remainder
  (remainder, quotient3 <<< 32 ||| quotient2, quotient1 <<< 32 ||| quotient0)

@[simp] theorem toNat_hiDword (val : UInt64) : (hiDword val).toNat = val.toNat / 2 ^ 32 := by
  simp [hiDword, UInt64.toNat_shiftRight, Nat.shiftRight_eq_div_pow]

@[simp] theorem toNat_loDword (val : UInt64) : (loDword val).toNat = val.toNat % 2 ^ 32 := by
  simp only [loDword, UInt64.toNat_and]
  exact Nat.and_two_pow_sub_one_eq_mod val.toNat 32

theorem hiDword_loDword (val : UInt64) : (hiDword val).toNat < 2 ^ 32 ∧ (loDword val).toNat < 2 ^ 32 ∧
    val.toNat = (hiDword val).toNat * 2 ^ 32 + (loDword val).toNat := by
  have : val.toNat < 2 ^ 64 := val.toNat_lt_size
  simp only [toNat_hiDword, toNat_loDword]
  omega

theorem toNat_mul_of_lt {u v : UInt64} (hu : u.toNat < 2 ^ 32) (hv : v.toNat < 2 ^ 32) :
    (u * v).toNat = u.toNat * v.toNat := by
  rw [UInt64.toNat_mul, Nat.mod_eq_of_lt]
  calc u.toNat * v.toNat < 2 ^ 32 * 2 ^ 32 := Nat.mul_lt_mul'' hu hv
    _ = 2 ^ 64 := by norm_num

theorem mul128_spec (multiplier multiplicand : UInt64) :
    (mul128 multiplier multiplicand).2.toNat * 2 ^ 64 + (mul128 multiplier multiplicand).1.toNat =
      multiplier.toNat * multiplicand.toNat := by
  obtain ⟨ha, hb, hx⟩ := hiDword_loDword multiplier
  obtain ⟨hc, hd, hy⟩ := hiDword_loDword multiplicand
  have shift : (32 : UInt64).toNat % 64 = 32 := rfl
  have fits : multiplier.toNat * multiplicand.toNat < 2 ^ 128 := by
    calc multiplier.toNat * multiplicand.toNat < 2 ^ 64 * 2 ^ 64 :=
          Nat.mul_lt_mul'' multiplier.toNat_lt_size multiplicand.toNat_lt_size
      _ = 2 ^ 128 := by norm_num
  simp only [mul128, UInt64.toNat_add, UInt64.lt_iff_toNat_lt, toNat_mul_of_lt ha hc, toNat_mul_of_lt ha hd,
    toNat_mul_of_lt hb hc, toNat_mul_of_lt hb hd, UInt64.toNat_shiftLeft, UInt64.toNat_shiftRight, shift,
    Nat.shiftLeft_eq, Nat.shiftRight_eq_div_pow]
  rw [hx, hy] at fits ⊢
  generalize (hiDword multiplier).toNat = a at *
  generalize (loDword multiplier).toNat = b at *
  generalize (hiDword multiplicand).toNat = c at *
  generalize (loDword multiplicand).toNat = d at *
  -- the schoolbook expansion, with each partial product a word
  have expand : (a * 2 ^ 32 + b) * (c * 2 ^ 32 + d) = a * c * 2 ^ 64 + (a * d + b * c) * 2 ^ 32 + b * d := by
    ring
  have word : ∀ u v, u < 2 ^ 32 → v < 2 ^ 32 → u * v < 2 ^ 64 := fun u v hu hv => by
    calc u * v < 2 ^ 32 * 2 ^ 32 := Nat.mul_lt_mul'' hu hv
      _ = 2 ^ 64 := by norm_num
  have := word a c ha hc
  have := word a d ha hd
  have := word b c hb hc
  have := word b d hb hd
  rw [expand] at fits ⊢
  split_ifs <;> simp only [UInt64.toNat_one, UInt64.toNat_zero] <;> omega

example : mul128 0xFFFFFFFFFFFFFFFF 0xFFFFFFFFFFFFFFFF = (1, 0xFFFFFFFFFFFFFFFE) := by decide

theorem divWithReminder_step {n : Nat} {dividend : UInt64} {divisor remainder : UInt32}
    (hdivisor : 0 < divisor.toNat) (hdividend : dividend.toNat < 2 ^ 32)
    (hremainder : remainder.toNat = n % divisor.toNat) :
    n / divisor.toNat * 2 ^ 32 + (divWithReminder dividend divisor remainder).1.toNat =
        (n * 2 ^ 32 + dividend.toNat) / divisor.toNat ∧
      (divWithReminder dividend divisor remainder).2.toNat = (n * 2 ^ 32 + dividend.toNat) % divisor.toNat ∧
      (divWithReminder dividend divisor remainder).1.toNat < 2 ^ 32 := by
  have below : remainder.toNat < divisor.toNat := hremainder ▸ Nat.mod_lt n hdivisor
  have small : divisor.toNat < 2 ^ 32 := divisor.toNat_lt_size
  have joined : (dividend ||| remainder.toUInt64 <<< 32).toNat = remainder.toNat * 2 ^ 32 + dividend.toNat := by
    rw [UInt64.or_comm, toNat_shiftLeft_or (by simp; omega) hdividend, UInt32.toNat_toUInt64]
  have wide : divisor.toUInt64.toNat = divisor.toNat := UInt32.toNat_toUInt64 divisor
  simp only [divWithReminder, UInt64.toNat_div, UInt64.toNat_mod, UInt64.toNat_toUInt32, joined, wide]
  refine ⟨?_, ?_, bringDown_div_lt below hdividend⟩
  · rw [div_bringDown hdivisor n, hremainder]
  · rw [Nat.mod_eq_of_lt (by have := Nat.mod_lt (remainder.toNat * 2 ^ 32 + dividend.toNat) hdivisor; omega),
      mod_bringDown n, hremainder]

theorem div128_32_spec (dividendHi dividendLo : UInt64) {divisor : UInt32} (hdivisor : 0 < divisor.toNat) :
    (div128_32 dividendHi dividendLo divisor).2.1.toNat * 2 ^ 64 +
        (div128_32 dividendHi dividendLo divisor).2.2.toNat =
      (dividendHi.toNat * 2 ^ 64 + dividendLo.toNat) / divisor.toNat ∧
    (div128_32 dividendHi dividendLo divisor).1.toNat =
      (dividendHi.toNat * 2 ^ 64 + dividendLo.toNat) % divisor.toNat := by
  obtain ⟨digit3, digit2, hi⟩ := hiDword_loDword dividendHi
  obtain ⟨digit1, digit0, lo⟩ := hiDword_loDword dividendLo
  dsimp only [div128_32]
  -- one call per digit; the running remainder is that of the digits brought down so far
  rcases step3 : divWithReminder (hiDword dividendHi) divisor 0 with ⟨quotient3, remainder3⟩
  obtain ⟨q3, r3, small3⟩ := step3 ▸ divWithReminder_step (n := 0) hdivisor digit3 (by simp)
  rcases step2 : divWithReminder (loDword dividendHi) divisor remainder3 with ⟨quotient2, remainder2⟩
  obtain ⟨q2, r2, small2⟩ := step2 ▸ divWithReminder_step hdivisor digit2 r3
  rcases step1 : divWithReminder (hiDword dividendLo) divisor remainder2 with ⟨quotient1, remainder1⟩
  obtain ⟨q1, r1, small1⟩ := step1 ▸ divWithReminder_step hdivisor digit1 r2
  rcases step0 : divWithReminder (loDword dividendLo) divisor remainder1 with ⟨quotient0, remainder0⟩
  obtain ⟨q0, r0, small0⟩ := step0 ▸ divWithReminder_step hdivisor digit0 r1
  dsimp only at q3 r3 q2 r2 small3 small2 q1 r1 small1 q0 r0 small0 ⊢
  have whole : dividendHi.toNat * 2 ^ 64 + dividendLo.toNat =
      (((0 * 2 ^ 32 + (hiDword dividendHi).toNat) * 2 ^ 32 + (loDword dividendHi).toNat) * 2 ^ 32 +
        (hiDword dividendLo).toNat) * 2 ^ 32 + (loDword dividendLo).toNat := by
    rw [hi, lo]
    ring
  rw [whole, toNat_shiftLeft_or small3 small2, toNat_shiftLeft_or small1 small0]
  refine ⟨?_, r0⟩
  rw [← q0, ← q1, ← q2, ← q3, Nat.zero_div]
  ring

example : div128_32 1 0 3 = (1, 0, 0x5555555555555555) := by decide

end IntUtil
