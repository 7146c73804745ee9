import CryptoNote.Common.IntUtil
import CryptoNote.Crypto.Types

/-! # Proof-of-work check (`CryptoNoteCore/Difficulty.cpp`)

`check_hash(hash, difficulty)` accepts a hash when the hash, read as a 256-bit
little-endian number, times the difficulty stays below `2^256`.  It multiplies
each of the hash's four 64-bit words by the difficulty, checks the top word's
high half first, and then adds up the columns with explicit carries (`cadd`,
`cadc`), returning whether the last column does not carry out.

`mul` is compiled either through `unsigned __int128` or through `mul128`; the
model uses `mul128`, and `mul_eq_int128` shows the two agree. -/
set_option autoImplicit false

namespace CryptoNote

open WordArith IntUtil

/-- `mul(a, b, low, high)`: the 128-bit product as its low and high word. -/
def mul (a b : UInt64) : UInt64 × UInt64 := mul128 a b

/-- `cadd(a, b)`: whether `a + b` overflows. -/
def cadd (a b : UInt64) : Bool := a + b < a

/-- `cadc(a, b, c)`: whether `a + b + c` overflows. -/
def cadc (a b : UInt64) (c : Bool) : Bool := a + b < a || (c && a + b == -1)

/-- `swap64le(((const uint64_t *) &hash)[i])`: bytes `8i .. 8i+7` of the hash read
as a little-endian word. -/
def hashWord (hash : Crypto.Hash) (i : Nat) : UInt64 :=
  ((hash.data.drop (8 * i)).take 8).foldr (fun byte value => value * 256 + byte.toUInt64) 0

def checkHash (hash : Crypto.Hash) (difficulty : UInt64) : Bool :=
  -- the highest word first: this fails for almost every random hash
  let (top, high) := mul (hashWord hash 3) difficulty
  if high != 0 then false
  else
    let (_, cur) := mul (hashWord hash 0) difficulty
    let (low, high) := mul (hashWord hash 1) difficulty
    let carry := cadd cur low
    let cur := high
    let (low, high) := mul (hashWord hash 2) difficulty
    let carry := cadc cur low carry
    let carry := cadc high top carry
    !carry

/-- The hash as the 256-bit number the check compares: its bytes, the first lowest. -/
def hashValue (hash : Crypto.Hash) : Nat := Nat.ofDigits 256 (hash.data.map UInt8.toNat)

/-! ## Words, products and carries -/

theorem mul_spec (a b : UInt64) : (mul a b).2.toNat * 2 ^ 64 + (mul a b).1.toNat = a.toNat * b.toNat :=
  mul128_spec a b

theorem mul_eq_int128 (a b : UInt64) :
    mul a b = (UInt64.ofNat (a.toNat * b.toNat), UInt64.ofNat (a.toNat * b.toNat / 2 ^ 64)) := by
  have product := mul_spec a b
  have low : (mul a b).1.toNat < 2 ^ 64 := (mul a b).1.toNat_lt_size
  have high : (mul a b).2.toNat < 2 ^ 64 := (mul a b).2.toNat_lt_size
  ext <;> simp only [UInt64.toNat_ofNat'] <;> omega

theorem cadd_iff (a b : UInt64) : cadd a b = true ↔ 2 ^ 64 ≤ a.toNat + b.toNat := by
  rw [cadd, decide_eq_true_iff, UInt64.lt_iff_toNat_lt, UInt64.toNat_add]
  exact add_mod_lt_left_iff a.toNat_lt_size b.toNat_lt_size

theorem cadc_iff (a b : UInt64) (c : Bool) : cadc a b c = true ↔ 2 ^ 64 ≤ a.toNat + b.toNat + c.toNat := by
  have largest : (-1 : UInt64).toNat = 2 ^ 64 - 1 := rfl
  rw [← add_mod_carry_iff (B := 2 ^ 64) a.toNat_lt_size b.toNat_lt_size c, cadc]
  simp only [Bool.or_eq_true, decide_eq_true_iff, UInt64.lt_iff_toNat_lt, UInt64.toNat_add, Bool.and_eq_true,
    beq_iff_eq, ← UInt64.toNat_inj, largest]

theorem hashValue_eq_words (hash : Crypto.Hash) :
    hashValue hash = (hashWord hash 0).toNat + 2 ^ 64 * (hashWord hash 1).toNat +
      2 ^ 128 * (hashWord hash 2).toNat + 2 ^ 192 * (hashWord hash 3).toNat := by
  obtain ⟨data, size⟩ := hash
  -- the 32 bytes are four runs of 8, one per word
  have chunk : ∀ i, i < 4 → data.drop (8 * i) = (data.drop (8 * i)).take 8 ++ data.drop (8 * (i + 1)) ∧
      ((data.drop (8 * i)).take 8).length = 8 := fun i below => by
    refine ⟨?_, by simp [size]; omega⟩
    rw [show 8 * (i + 1) = 8 * i + 8 by ring, ← List.drop_drop, List.take_append_drop]
  have word : ∀ i, i < 4 → (hashWord ⟨data, size⟩ i).toNat =
      Nat.ofDigits 256 (((data.drop (8 * i)).take 8).map UInt8.toNat) := fun i below =>
    toNat_foldr_bytes _ (chunk i below).2.le
  have whole : data = (data.drop (8 * 0)).take 8 ++ ((data.drop (8 * 1)).take 8 ++
      ((data.drop (8 * 2)).take 8 ++ (data.drop (8 * 3)).take 8)) := by
    calc data = data.drop (8 * 0) := rfl
      _ = (data.drop (8 * 0)).take 8 ++ ((data.drop (8 * 1)).take 8 ++ ((data.drop (8 * 2)).take 8 ++
          ((data.drop (8 * 3)).take 8 ++ data.drop (8 * 4)))) := by
        rw [← (chunk 3 (by norm_num)).1, ← (chunk 2 (by norm_num)).1, ← (chunk 1 (by norm_num)).1,
          ← (chunk 0 (by norm_num)).1]
      _ = _ := by rw [@List.drop_eq_nil_of_le _ data (8 * 4) (by omega), List.append_nil]
  show Nat.ofDigits 256 (data.map UInt8.toNat) = _
  rw [congrArg (List.map UInt8.toNat) whole, word 0 (by norm_num), word 1 (by norm_num), word 2 (by norm_num),
    word 3 (by norm_num)]
  simp only [List.map_append, Nat.ofDigits_append, List.length_map, (chunk 0 (by norm_num)).2,
    (chunk 1 (by norm_num)).2, (chunk 2 (by norm_num)).2]
  ring

/-! ## The check -/

theorem hashValue_mul_columns {hash : Crypto.Hash} {difficulty low0 high0 low1 high1 low2 high2 top high3 : UInt64}
    (product0 : mul (hashWord hash 0) difficulty = (low0, high0))
    (product1 : mul (hashWord hash 1) difficulty = (low1, high1))
    (product2 : mul (hashWord hash 2) difficulty = (low2, high2))
    (product3 : mul (hashWord hash 3) difficulty = (top, high3)) :
    hashValue hash * difficulty.toNat = low0.toNat + 2 ^ 64 * (high0.toNat + low1.toNat) +
      2 ^ 128 * (high1.toNat + low2.toNat) + 2 ^ 192 * (high2.toNat + top.toNat) + 2 ^ 256 * high3.toNat := by
  have value0 := product0 ▸ mul_spec (hashWord hash 0) difficulty
  have value1 := product1 ▸ mul_spec (hashWord hash 1) difficulty
  have value2 := product2 ▸ mul_spec (hashWord hash 2) difficulty
  have value3 := product3 ▸ mul_spec (hashWord hash 3) difficulty
  dsimp only at value0 value1 value2 value3
  rw [hashValue_eq_words]
  calc _ = (hashWord hash 0).toNat * difficulty.toNat + 2 ^ 64 * ((hashWord hash 1).toNat * difficulty.toNat) +
        2 ^ 128 * ((hashWord hash 2).toNat * difficulty.toNat) +
        2 ^ 192 * ((hashWord hash 3).toNat * difficulty.toNat) := by ring
    _ = _ := by rw [← value0, ← value1, ← value2, ← value3]; ring

/-- `check_hash` accepts exactly the hashes whose value times the difficulty is
below `2^256`. -/
theorem checkHash_iff (hash : Crypto.Hash) (difficulty : UInt64) :
    checkHash hash difficulty = true ↔ hashValue hash * difficulty.toNat < 2 ^ 256 := by
  rcases product3 : mul (hashWord hash 3) difficulty with ⟨top, high3⟩
  rcases product0 : mul (hashWord hash 0) difficulty with ⟨low0, high0⟩
  rcases product1 : mul (hashWord hash 1) difficulty with ⟨low1, high1⟩
  rcases product2 : mul (hashWord hash 2) difficulty with ⟨low2, high2⟩
  have value := hashValue_mul_columns product0 product1 product2 product3
  simp only [checkHash, product3, product0, product1, product2]
  by_cases overflow : high3 = 0
  · -- the columns' carries: the product fits exactly when the last column does not carry out
    have small : ∀ word : UInt64, word.toNat < 2 ^ 64 := fun word => word.toNat_lt_size
    subst overflow
    have := small low0
    have := small high0
    have := small low1
    have := small high1
    have := small low2
    have := small high2
    have := small top
    simp only [bne_self_eq_false, Bool.false_eq_true, if_false, Bool.not_eq_true', Bool.eq_false_iff, ne_eq,
      cadc_iff, UInt64.toNat_zero, mul_zero, add_zero] at value ⊢
    rw [value]
    generalize first : cadd high0 low1 = carry1
    generalize second : cadc high1 low2 carry1 = carry2
    have carried1 := first ▸ cadd_iff high0 low1
    have carried2 := second ▸ cadc_iff high1 low2 carry1
    cases carry1 <;> cases carry2 <;>
      simp only [Bool.toNat_false, Bool.toNat_true, Bool.false_eq_true, false_iff, true_iff, not_le]
        at carried1 carried2 ⊢ <;>
      omega
  · -- the top word alone already reaches 2^256
    have : 0 < high3.toNat := by
      rw [Nat.pos_iff_ne_zero, Ne, ← UInt64.toNat_zero, UInt64.toNat_inj]
      exact overflow
    simp only [bne_iff_ne, ne_eq, overflow, not_false_eq_true, if_true, Bool.false_eq_true, false_iff, not_lt]
    omega

-- the hash with every byte 1 is (2^256 - 1) / 255: difficulty 255 is the largest it meets
example : checkHash (Crypto.Hash.ofByte 1) 255 = true ∧ checkHash (Crypto.Hash.ofByte 1) 256 = false := by
  decide

end CryptoNote
