import CryptoNote.Common.IntUtil
import CryptoNote.Common.Varint
import CryptoNote.Lib.BlockCodec

/-! # Base58 (`Common/Base58.cpp`)

`encode` cuts its input into blocks of eight bytes and a shorter last block and
writes each block, read as a big-endian number, as base-58 digits into a slot of
`encoded_block_sizes[size]` characters filled with `alphabet[0]`.  `decode`
cuts at eleven characters, rejects a last block whose length no block size
encodes to, and rejects a block whose value does not fit its bytes.  Both
directions of the round trip hold (`decode_encode`, `encode_decode`), and so
does the address format, a varint tag and a four-byte checksum of
`cn_fast_hash` (a parameter here) before the encoding.

Strings are byte lists.  `encode` writes each block into its slot of the
prefilled result; the slots do not overlap, so the result is the slots one
after the other. -/

set_option autoImplicit false

namespace Tools.Base58

open BlockCodec

def alphabet : List UInt8 :=
  "123456789ABCDEFGHJKLMNPQRSTUVWXYZabcdefghijkmnopqrstuvwxyz".toList.map fun c => c.toNat.toUInt8

def alphabetSize : Nat := alphabet.length

def encodedBlockSizes : List Nat := [0, 2, 3, 5, 6, 7, 9, 10, 11]

def fullBlockSize : Nat := encodedBlockSizes.length - 1

def fullEncodedBlockSize : Nat := encodedBlockSizes.getD fullBlockSize 0

def addrChecksumSize : Nat := 4

/-- `reverse_alphabet::m_data`: entry `alphabet[i] - alphabet[0]` holds `i`. -/
def reverseAlphabetData : List Int :=
  inverseTable ((alphabet.getD (alphabetSize - 1) 0).toNat - (alphabet.getD 0 0).toNat + 1) alphabetSize
    fun i => ((alphabet.getD i 0).toUInt64 - (alphabet.getD 0 0).toUInt64).toNat

/-- `reverse_alphabet::operator()`.  The offset is taken as a `size_t`, so a
letter below `alphabet[0]` wraps to a large index; a signed or an unsigned
`char` gives the same answers. -/
def reverseAlphabet (letter : UInt8) : Int :=
  let idx : UInt64 := letter.toUInt64 - (alphabet.getD 0 0).toUInt64
  if idx.toNat < reverseAlphabetData.length then reverseAlphabetData.getD idx.toNat (-1) else -1

def decodedBlockSizesData : List Int :=
  inverseTable (fullEncodedBlockSize + 1) (fullBlockSize + 1) fun i => encodedBlockSizes.getD i 0

/-- `decoded_block_sizes::operator()`, which asserts its argument is at most
`full_encoded_block_size`; every caller keeps to that. -/
def decodedBlockSizes (encodedBlockSize : Nat) : Int := decodedBlockSizesData.getD encodedBlockSize (-1)

/-- `uint_8be_to_64`: the cases of the `switch` fall through, and each shifts
one more byte in. -/
def uint8beTo64 (data : List UInt8) : UInt64 :=
  data.foldl (fun res byte => res <<< 8 ||| byte.toUInt64) 0

/-- `uint_64_to_8be`: the last `size` of the eight bytes of `SWAP64BE(num)`. -/
def uint64To8be (num : UInt64) (size : Nat) : List UInt8 :=
  ((List.range 8).reverse.map fun k => (num >>> (8 * k).toUInt64).toUInt8).drop (8 - size)

/-- The loop of `encode_block`, writing digits from position `i` leftwards.
`num` falls at every turn, so `num.toNat` turns are enough. -/
def encodeBlockLoop : (fuel : Nat) → (num : UInt64) → (i : Nat) → List UInt8 → List UInt8
  | 0, _, _, res => res
  | fuel + 1, num, i, res =>
    if 0 < num then
      let remainder := num % alphabetSize.toUInt64
      encodeBlockLoop fuel (num / alphabetSize.toUInt64) (i - 1) (res.set i (alphabet.getD remainder.toNat 0))
    else res

/-- `encode_block`, on its slot of the result. -/
def encodeBlock (block : List UInt8) : List UInt8 :=
  let num := uint8beTo64 block
  let size := encodedBlockSizes.getD block.length 0
  encodeBlockLoop num.toNat num (size - 1) (List.replicate size (alphabet.getD 0 0))

/-- The loop of `decode_block`, over the characters from the last one. -/
def decodeBlockLoop : List UInt8 → (resNum order : UInt64) → Option UInt64
  | [], resNum, _ => some resNum
  | letter :: rest, resNum, order =>
    let digit := reverseAlphabet letter
    if digit < 0 then none
    else
      let product := IntUtil.mul128 order digit.toNat.toUInt64
      let tmp := resNum + product.1
      if tmp < resNum ∨ product.2 ≠ 0 then none
      else decodeBlockLoop rest tmp (order * alphabetSize.toUInt64)

def decodeBlock (block : List UInt8) : Option (List UInt8) :=
  let resSize := decodedBlockSizes block.length
  if resSize ≤ 0 then none
  else do
    let resNum ← decodeBlockLoop block.reverse 0 1
    if resSize.toNat < fullBlockSize ∧ (1 : UInt64) <<< (8 * resSize.toNat).toUInt64 ≤ resNum then none
    else some (uint64To8be resNum resSize.toNat)

def encode (data : List UInt8) : List UInt8 :=
  if data.isEmpty then []
  else
    let fullBlockCount := data.length / fullBlockSize
    let lastBlockSize := data.length % fullBlockSize
    let full := ((List.range fullBlockCount).map fun i => encodeBlock (block fullBlockSize data i)).flatten
    if 0 < lastBlockSize then full ++ encodeBlock (data.drop (fullBlockCount * fullBlockSize)) else full

def decode (enc : List UInt8) : Option (List UInt8) :=
  if enc.isEmpty then some []
  else
    let fullBlockCount := enc.length / fullEncodedBlockSize
    let lastBlockSize := enc.length % fullEncodedBlockSize
    if decodedBlockSizes lastBlockSize < 0 then none
    else do
      let full ← (List.range fullBlockCount).mapM fun i => decodeBlock (block fullEncodedBlockSize enc i)
      if 0 < lastBlockSize then
        let last ← decodeBlock (enc.drop (fullBlockCount * fullEncodedBlockSize))
        pure (full.flatten ++ last)
      else pure full.flatten

def encodeAddr (cnFastHash : List UInt8 → Crypto.Hash) (tag : UInt64) (data : List UInt8) :
    List UInt8 :=
  let buf := Tools.writeVarint tag.toNat ++ data
  let hash := cnFastHash buf
  encode (buf ++ hash.data.take addrChecksumSize)

def decodeAddr (cnFastHash : List UInt8 → Crypto.Hash) (addr : List UInt8) :
    Option (UInt64 × List UInt8) := do
  let addrData ← decode addr
  if addrData.length ≤ addrChecksumSize then none
  else
    let checksum := addrData.drop (addrData.length - addrChecksumSize)
    let addrData := addrData.take (addrData.length - addrChecksumSize)
    let expectedChecksum := (cnFastHash addrData).data.take addrChecksumSize
    if expectedChecksum ≠ checksum then none
    else
      let read := (Tools.readVarint 64 addrData).1
      let tag := (Tools.readVarint 64 addrData).2
      if read ≤ 0 then none else some (UInt64.ofNat tag, addrData.drop read.toNat)

/-! ## Constants and tables -/

theorem alphabetSize_eq : alphabetSize = 58 := by decide

theorem fullBlockSize_eq : fullBlockSize = 8 := rfl

theorem fullEncodedBlockSize_eq : fullEncodedBlockSize = 11 := rfl

theorem encodedBlockSizes_bounds : ∀ r < 9, 256 ^ r ≤ 58 ^ encodedBlockSizes.getD r 0 ∧
    (0 < r → 2 ≤ encodedBlockSizes.getD r 0) ∧ (r < 8 → encodedBlockSizes.getD r 0 < 11) ∧
    encodedBlockSizes.getD r 0 ≤ 11 := by
  decide

theorem reverseAlphabet_alphabet : ∀ d < 58, reverseAlphabet (alphabet.getD d 0) = d := by decide

theorem alphabet_reverseAlphabet (letter : UInt8) (valid : 0 ≤ reverseAlphabet letter) :
    (reverseAlphabet letter).toNat < 58 ∧ alphabet.getD (reverseAlphabet letter).toNat 0 = letter := by
  simp only [reverseAlphabet] at valid ⊢
  by_cases inside : (letter.toUInt64 - (alphabet.getD 0 0).toUInt64).toNat < reverseAlphabetData.length
  · rw [if_pos inside] at valid ⊢
    generalize found : reverseAlphabetData.getD _ (-1) = j at valid ⊢
    obtain ⟨below, atKey⟩ := inverseTable_of_nonneg _ _ j found valid
    rw [alphabetSize_eq] at below
    refine ⟨below, ?_⟩
    have offsets := UInt64.toNat_inj.mp atKey
    have same : (alphabet.getD j.toNat 0).toUInt64 = letter.toUInt64 := sub_left_inj.mp offsets
    exact UInt8.toNat_inj.mp (by simpa using congrArg UInt64.toNat same)
  · rw [if_neg inside] at valid
    omega

theorem decodedBlockSizes_encodedBlockSizes :
    ∀ r < 9, decodedBlockSizes (encodedBlockSizes.getD r 0) = r := by
  decide

theorem encodedBlockSizes_of_decodedBlockSizes {size : Nat} {r : Int} (found : decodedBlockSizes size = r)
    (nonneg : 0 ≤ r) : r.toNat < 9 ∧ encodedBlockSizes.getD r.toNat 0 = size :=
  inverseTable_of_nonneg _ size r found nonneg

/-! ## Words -/

theorem shiftLeft_or_byte (res : UInt64) (byte : UInt8) :
    res <<< 8 ||| byte.toUInt64 = res * 256 + byte.toUInt64 := by
  apply UInt64.toNat_inj.mp
  have small : byte.toNat < 2 ^ 8 := byte.toNat_lt
  have low : res.toNat * 2 ^ 8 % 2 ^ 64 = 2 ^ 8 * (res.toNat % 2 ^ 56) := by omega
  rw [UInt64.toNat_or, UInt64.toNat_shiftLeft, UInt64.toNat_add, UInt64.toNat_mul, UInt8.toNat_toUInt64,
    show (8 : UInt64).toNat % 64 = 8 from rfl, Nat.shiftLeft_eq, show (256 : UInt64).toNat = 2 ^ 8 from rfl,
    low, ← Nat.two_pow_add_eq_or_of_lt small]
  omega

theorem toNat_uint8beTo64 (data : List UInt8) (short : data.length ≤ 8) :
    (uint8beTo64 data).toNat = Nat.ofDigits 256 (data.reverse.map UInt8.toNat) := by
  have steps : uint8beTo64 data =
      data.reverse.foldr (fun (byte : UInt8) (value : UInt64) => value * 256 + byte.toUInt64) 0 := by
    rw [uint8beTo64, List.foldl_eq_foldr_reverse]
    simp only [shiftLeft_or_byte]
  rw [steps, WordArith.toNat_foldr_bytes _ (by simpa using short)]

theorem uint64To8be_eq (num : UInt64) {size : Nat} (short : size ≤ 8) :
    uint64To8be num size = (digitsLE 256 size num.toNat).reverse.map UInt8.ofNat := by
  have cut : (List.range 8).reverse.drop (8 - size) = (List.range size).reverse := by
    rw [show 8 = size + (8 - size) by omega, List.range_add, List.reverse_append,
      Nat.add_sub_cancel_left, List.drop_left' (by simp)]
  have byte : ∀ k ∈ List.range size,
      (num >>> (8 * k).toUInt64).toUInt8 = UInt8.ofNat (num.toNat / 256 ^ k % 256) := by
    intro k mem
    have below : k < 8 := by simp at mem; omega
    apply UInt8.toNat_inj.mp
    rw [UInt64.toNat_toUInt8, UInt64.toNat_shiftRight, UInt8.toNat_ofNat', Nat.shiftRight_eq_div_pow,
      show (8 * k).toUInt64.toNat % 64 = 8 * k by simp; omega, pow_mul]
    norm_num
  rw [uint64To8be, ← List.map_drop, cut, digitsLE]
  simp only [List.map_reverse, List.map_map]
  exact congrArg List.reverse (List.map_congr_left byte)

open BlockCodec

theorem uint64To8be_uint8beTo64 (block : List UInt8) (short : block.length ≤ 8) :
    uint64To8be (uint8beTo64 block) block.length = block := by
  have digits := @digitsLE_ofDigits 256 (block.reverse.map UInt8.toNat)
    (by simpa using fun b _ => UInt8.toNat_lt b)
  rw [List.length_map, List.length_reverse] at digits
  rw [uint64To8be_eq _ short, toNat_uint8beTo64 block short, digits]
  simp only [List.map_reverse, List.reverse_reverse, List.map_map]
  exact (List.map_congr_left fun b _ => UInt8.ofNat_toNat).trans (List.map_id _)

theorem toNat_uint8beTo64_uint64To8be (num : UInt64) {size : Nat} (short : size ≤ 8)
    (fits : num.toNat < 256 ^ size) : (uint8beTo64 (uint64To8be num size)).toNat = num.toNat := by
  have bytes := uint64To8be_eq num short
  have roundTrip : ((digitsLE 256 size num.toNat).reverse.map UInt8.ofNat).reverse.map UInt8.toNat =
      digitsLE 256 size num.toNat := by
    simp only [List.map_reverse, List.reverse_reverse, List.map_map]
    refine (List.map_congr_left fun d mem => ?_).trans (List.map_id _)
    have := digitsLE_lt (by norm_num) size num.toNat d mem
    simp [UInt8.toNat_ofNat', Nat.mod_eq_of_lt this]
  rw [toNat_uint8beTo64 _ (by simp [bytes, short]), bytes, roundTrip, ofDigits_digitsLE _ _ fits]

theorem shiftedOne_le_iff {r : Nat} (small : r < 8) (resNum : UInt64) :
    (1 : UInt64) <<< (8 * r).toUInt64 ≤ resNum ↔ 256 ^ r ≤ resNum.toNat := by
  have bound : 2 ^ (8 * r) < 2 ^ 64 := Nat.pow_lt_pow_right (by norm_num) (by omega)
  have shifted : ((1 : UInt64) <<< (8 * r).toUInt64).toNat = 256 ^ r := by
    rw [UInt64.toNat_shiftLeft, show (8 * r).toUInt64.toNat % 64 = 8 * r by simp; omega,
      UInt64.toNat_one, Nat.one_shiftLeft, Nat.mod_eq_of_lt bound, pow_mul]
    norm_num
  rw [UInt64.le_iff_toNat_le, shifted]

theorem addProduct_ok_iff (resNum order digit : UInt64) :
    ¬(resNum + (IntUtil.mul128 order digit).1 < resNum ∨ (IntUtil.mul128 order digit).2 ≠ 0) ↔
      resNum.toNat + order.toNat * digit.toNat < 2 ^ 64 := by
  have product := IntUtil.mul128_spec order digit
  have low := (IntUtil.mul128 order digit).1.toNat_lt
  have resBound := resNum.toNat_lt
  rw [UInt64.lt_iff_toNat_lt, UInt64.toNat_add, ne_eq, ← UInt64.toNat_inj, UInt64.toNat_zero]
  omega

theorem toNat_addProduct (resNum order digit : UInt64)
    (fits : resNum.toNat + order.toNat * digit.toNat < 2 ^ 64) :
    (resNum + (IntUtil.mul128 order digit).1).toNat = resNum.toNat + order.toNat * digit.toNat := by
  have product := IntUtil.mul128_spec order digit
  rw [UInt64.toNat_add]
  omega

/-! ## Blocks -/

theorem encodeBlockLoop_zero (fuel i : Nat) (res : List UInt8) : encodeBlockLoop fuel 0 i res = res := by
  cases fuel <;> simp [encodeBlockLoop]

theorem encodeBlockLoop_step (fuel : Nat) {num : UInt64} (i : Nat) (res : List UInt8) (positive : 0 < num.toNat) :
    encodeBlockLoop (fuel + 1) num i res =
      encodeBlockLoop fuel (num / 58) (i - 1) (res.set i (alphabet.getD (num.toNat % 58) 0)) := by
  have : 0 < num := UInt64.lt_iff_toNat_lt.mpr positive
  simp [encodeBlockLoop, this, alphabetSize_eq, UInt64.toNat_mod]

theorem set_replicate_append {a : UInt8} (c : UInt8) (i : Nat) (suffix : List UInt8) :
    (List.replicate (i + 1) a ++ suffix).set i c = List.replicate i a ++ c :: suffix := by
  rw [List.replicate_succ', List.append_assoc, List.singleton_append, List.set_append_right _ _ (by simp)]
  simp

theorem encodeBlockLoop_digits : ∀ (i fuel : Nat) (num : UInt64) (suffix : List UInt8),
    num.toNat ≤ fuel → num.toNat < 58 ^ (i + 1) →
      encodeBlockLoop fuel num i (List.replicate (i + 1) (alphabet.getD 0 0) ++ suffix) =
        (digitsLE 58 (i + 1) num.toNat).reverse.map (fun d => alphabet.getD d 0) ++ suffix := by
  intro i
  induction i with
  | zero =>
    intro fuel num suffix enough fits
    by_cases zero : num.toNat = 0
    · rw [show num = 0 from UInt64.toNat_inj.mp zero, encodeBlockLoop_zero]
      simp [digitsLE]
    · obtain ⟨fuel, rfl⟩ : ∃ f, fuel = f + 1 := ⟨fuel - 1, by omega⟩
      have last : num / 58 = 0 := UInt64.toNat_inj.mp (by rw [UInt64.toNat_div]; simp; omega)
      rw [encodeBlockLoop_step _ _ _ (by omega), last, encodeBlockLoop_zero, set_replicate_append]
      simp [digitsLE]
  | succ i ih =>
    intro fuel num suffix enough fits
    by_cases zero : num.toNat = 0
    · rw [show num = 0 from UInt64.toNat_inj.mp zero, encodeBlockLoop_zero]
      simp [digitsLE_zero]
    · obtain ⟨fuel, rfl⟩ : ∃ f, fuel = f + 1 := ⟨fuel - 1, by omega⟩
      have quotient : (num / 58).toNat = num.toNat / 58 := by rw [UInt64.toNat_div]; rfl
      have rest := ih fuel (num / 58) (alphabet.getD (num.toNat % 58) 0 :: suffix)
        (by rw [quotient]; omega) (by rw [quotient, Nat.div_lt_iff_lt_mul (by norm_num), ← pow_succ]; exact fits)
      rw [encodeBlockLoop_step _ _ _ (by omega), set_replicate_append, Nat.add_sub_cancel, rest, quotient,
        digitsLE_succ (i + 1) num.toNat]
      simp

theorem encodeBlock_eq (block : List UInt8) (nonempty : 0 < block.length) (short : block.length ≤ 8) :
    encodeBlock block = (digitsLE 58 (encodedBlockSizes.getD block.length 0)
      (Nat.ofDigits 256 (block.reverse.map UInt8.toNat))).reverse.map (fun d => alphabet.getD d 0) := by
  obtain ⟨fitsDigits, wide, -, -⟩ := encodedBlockSizes_bounds block.length (by omega)
  have value := toNat_uint8beTo64 block short
  have fits : (uint8beTo64 block).toNat < 58 ^ encodedBlockSizes.getD block.length 0 := by
    calc (uint8beTo64 block).toNat < 256 ^ block.length := by
          rw [value]
          simpa using Nat.ofDigits_lt_base_pow_length (b := 256) (l := block.reverse.map UInt8.toNat)
            (by norm_num) (by simpa using fun b _ => UInt8.toNat_lt b)
      _ ≤ 58 ^ encodedBlockSizes.getD block.length 0 := fitsDigits
  have slot := encodeBlockLoop_digits (encodedBlockSizes.getD block.length 0 - 1) (uint8beTo64 block).toNat
    (uint8beTo64 block) [] le_rfl (by rw [Nat.sub_add_cancel (by omega)]; exact fits)
  rw [Nat.sub_add_cancel (by omega), List.append_nil, List.append_nil] at slot
  rw [← value]
  exact slot

theorem encodeBlock_nil : encodeBlock [] = [] := rfl

theorem length_encodeBlock (block : List UInt8) (short : block.length ≤ 8) :
    (encodeBlock block).length = encodedBlockSizes.getD block.length 0 := by
  rcases Nat.eq_zero_or_pos block.length with empty | nonempty
  · rw [List.length_eq_zero_iff.mp empty, encodeBlock_nil]
    rfl
  · simp [encodeBlock_eq block nonempty short]

/-- The digits `reverse_alphabet` gives letters. -/
def letterDigits (letters : List UInt8) : List Nat := letters.map fun c => (reverseAlphabet c).toNat

theorem decodeBlockLoop_eq_some : ∀ (letters : List UInt8) (j : Nat) (resNum order r : UInt64),
    (letters = [] ∨ order.toNat = 58 ^ j) → j + letters.length ≤ 11 →
      (decodeBlockLoop letters resNum order = some r ↔
        (∀ c ∈ letters, 0 ≤ reverseAlphabet c) ∧
          resNum.toNat + order.toNat * Nat.ofDigits 58 (letterDigits letters) < 2 ^ 64 ∧
          r.toNat = resNum.toNat + order.toNat * Nat.ofDigits 58 (letterDigits letters)) := by
  intro letters
  induction letters with
  | nil =>
    intro j resNum order r _ _
    simp only [decodeBlockLoop, Option.some.injEq, List.not_mem_nil, IsEmpty.forall_iff, implies_true,
      letterDigits, List.map_nil, Nat.ofDigits_nil, mul_zero, add_zero, resNum.toNat_lt, true_and]
    exact ⟨fun same => by rw [same], fun same => (UInt64.toNat_inj.mp same).symm⟩
  | cons c rest ih =>
    intro j resNum order r scaled short
    have orderValue : order.toNat = 58 ^ j := by simpa using scaled
    simp only [List.length_cons] at short
    simp only [decodeBlockLoop, letterDigits, List.map_cons, Nat.ofDigits_cons, List.forall_mem_cons]
    by_cases invalid : reverseAlphabet c < 0
    · simp only [if_pos invalid, reduceCtorEq, false_iff, not_and]
      intro valid
      omega
    rw [if_neg invalid]
    obtain ⟨digitBound, -⟩ := alphabet_reverseAlphabet c (by omega)
    have digitValue : (reverseAlphabet c).toNat.toUInt64.toNat = (reverseAlphabet c).toNat := by
      simp only [Nat.toUInt64_eq, UInt64.toNat_ofNat']; omega
    have ok := addProduct_ok_iff resNum order (reverseAlphabet c).toNat.toUInt64
    rw [digitValue] at ok
    by_cases overflow : resNum + (IntUtil.mul128 order (reverseAlphabet c).toNat.toUInt64).1 < resNum ∨
        (IntUtil.mul128 order (reverseAlphabet c).toNat.toUInt64).2 ≠ 0
    · simp only [if_pos overflow, reduceCtorEq, false_iff, not_and]
      have exceeds := mt ok.mpr (not_not.mpr overflow)
      intro _ fits
      rw [mul_add] at fits
      omega
    rw [if_neg overflow]
    have fits := ok.mp overflow
    have tmpValue := toNat_addProduct resNum order _ (by rwa [digitValue])
    rw [digitValue] at tmpValue
    -- the order goes one digit up; once the letters run out it is no longer read
    have nextScaled : rest = [] ∨ (order * alphabetSize.toUInt64).toNat = 58 ^ (j + 1) := by
      rcases rest with _ | ⟨c', rest⟩
      · exact Or.inl rfl
      · refine Or.inr ?_
        simp only [List.length_cons] at short
        have small : 58 ^ (j + 1) < 2 ^ 64 :=
          calc 58 ^ (j + 1) ≤ 58 ^ 10 := Nat.pow_le_pow_right (by norm_num) (by omega)
            _ < 2 ^ 64 := by norm_num
        rw [UInt64.toNat_mul, alphabetSize_eq, show (Nat.toUInt64 58).toNat = 58 from rfl, orderValue,
          ← pow_succ, Nat.mod_eq_of_lt small]
    have nextValue : (order * alphabetSize.toUInt64).toNat * Nat.ofDigits 58 (letterDigits rest) =
        order.toNat * (58 * Nat.ofDigits 58 (letterDigits rest)) := by
      rcases nextScaled with rfl | exact
      · simp [letterDigits]
      · rw [exact, orderValue, pow_succ]
        ring
    rw [ih (j + 1) _ _ r nextScaled (by omega), tmpValue, nextValue, mul_add]
    simp only [letterDigits] at nextValue ⊢
    constructor
    · rintro ⟨valid, bound, value⟩
      exact ⟨⟨by omega, valid⟩, by omega, by omega⟩
    · rintro ⟨⟨-, valid⟩, bound, value⟩
      exact ⟨valid, by omega, by omega⟩

theorem letterDigits_map_alphabet (ds : List Nat) (small : ∀ d ∈ ds, d < 58) :
    letterDigits (ds.map fun d => alphabet.getD d 0) = ds ∧
      ∀ c ∈ ds.map (fun d => alphabet.getD d 0), 0 ≤ reverseAlphabet c := by
  constructor
  · simp only [letterDigits, List.map_map]
    refine (List.map_congr_left fun d mem => ?_).trans (List.map_id _)
    rw [Function.comp_apply, reverseAlphabet_alphabet d (small d mem)]
    rfl
  · intro c mem
    obtain ⟨d, inDigits, rfl⟩ := List.mem_map.mp mem
    rw [reverseAlphabet_alphabet d (small d inDigits)]
    omega

theorem decodeBlock_encodeBlock (block : List UInt8) (nonempty : 0 < block.length) (short : block.length ≤ 8) :
    decodeBlock (encodeBlock block) = some block := by
  obtain ⟨-, -, -, notLong⟩ := encodedBlockSizes_bounds block.length (by omega)
  have value := toNat_uint8beTo64 block short
  have fits : (uint8beTo64 block).toNat < 256 ^ block.length := by
    rw [value]
    simpa using Nat.ofDigits_lt_base_pow_length (b := 256) (l := block.reverse.map UInt8.toNat)
      (by norm_num) (by simpa using fun b _ => UInt8.toNat_lt b)
  obtain ⟨fitsDigits, -, -, -⟩ := encodedBlockSizes_bounds block.length (by omega)
  have small := @digitsLE_lt 58 (by norm_num) (encodedBlockSizes.getD block.length 0)
    (uint8beTo64 block).toNat
  obtain ⟨read, valid⟩ := letterDigits_map_alphabet _ small
  have loop : decodeBlockLoop ((digitsLE 58 (encodedBlockSizes.getD block.length 0)
      (uint8beTo64 block).toNat).map fun d => alphabet.getD d 0) 0 1 = some (uint8beTo64 block) := by
    rw [decodeBlockLoop_eq_some _ 0 0 1 _ (Or.inr rfl) (by simpa using notLong), read,
      ofDigits_digitsLE _ _ (lt_of_lt_of_le fits fitsDigits)]
    exact ⟨valid, by simpa using (uint8beTo64 block).toNat_lt, by simp⟩
  rw [encodeBlock_eq block nonempty short, ← value]
  simp only [decodeBlock, List.length_reverse, List.length_map, length_digitsLE,
    decodedBlockSizes_encodedBlockSizes block.length (by omega), List.map_reverse, List.reverse_reverse]
  rw [if_neg (by omega), loop, Option.bind_eq_bind, Option.bind_some,
    if_neg (fun check => absurd ((shiftedOne_le_iff check.1 _).mp check.2) (by simpa using fits)),
    Int.toNat_natCast, uint64To8be_uint8beTo64 block short]

theorem decodeBlock_canonical {chars bytes : List UInt8} (decoded : decodeBlock chars = some bytes) :
    encodeBlock bytes = chars ∧ decodedBlockSizes chars.length = bytes.length ∧
      0 < bytes.length ∧ bytes.length ≤ 8 := by
  simp only [decodeBlock] at decoded
  split at decoded
  · contradiction
  rename_i positive
  obtain ⟨below, sizeEq⟩ := @encodedBlockSizes_of_decodedBlockSizes chars.length _ rfl (by omega)
  obtain ⟨-, -, -, notLong⟩ := encodedBlockSizes_bounds _ below
  rw [Option.bind_eq_bind, Option.bind_eq_some_iff] at decoded
  obtain ⟨resNum, loop, checked⟩ := decoded
  rw [decodeBlockLoop_eq_some _ 0 0 1 resNum (Or.inr rfl) (by simp; omega)] at loop
  obtain ⟨valid, -, value⟩ := loop
  simp only [UInt64.toNat_zero, UInt64.toNat_one, one_mul, zero_add] at value
  split at checked
  · contradiction
  rename_i unchecked
  simp only [Option.some.injEq] at checked
  subst checked
  generalize rDef : (decodedBlockSizes chars.length).toNat = r at below sizeEq unchecked notLong ⊢
  have fits : resNum.toNat < 256 ^ r := by
    by_cases lastBlock : r < 8
    · exact Nat.lt_of_not_le fun big => unchecked ⟨lastBlock, (shiftedOne_le_iff lastBlock resNum).mpr big⟩
    · rw [show r = 8 by omega]
      simpa using resNum.toNat_lt
  have len : (uint64To8be resNum r).length = r := by simp [uint64To8be_eq resNum (show r ≤ 8 by omega)]
  refine ⟨?_, by rw [len, ← rDef]; omega, by omega, by omega⟩
  have small : ∀ d ∈ letterDigits chars.reverse, d < 58 := by
    intro d mem
    obtain ⟨c, inChars, rfl⟩ := List.mem_map.mp mem
    exact (alphabet_reverseAlphabet c (valid c inChars)).1
  have lengthEq : (letterDigits chars.reverse).length = chars.length := by simp [letterDigits]
  rw [encodeBlock_eq _ (by omega) (by omega), ← toNat_uint8beTo64 _ (by omega),
    toNat_uint8beTo64_uint64To8be resNum (by omega) fits, len, sizeEq, value, ← lengthEq,
    digitsLE_ofDigits _ small]
  simp only [letterDigits, List.map_reverse, List.reverse_reverse, List.map_map]
  refine (List.map_congr_left fun c inChars => ?_).trans (List.map_id _)
  exact (alphabet_reverseAlphabet c (valid c (List.mem_reverse.mpr inChars))).2

/-! ## Round trips -/

theorem encode_eq (data : List UInt8) :
    encode data = ((List.range (data.length / 8)).map fun i => encodeBlock (block 8 data i)).flatten ++
      encodeBlock (data.drop (data.length / 8 * 8)) := by
  have whole : data.length % 8 = 0 → data.drop (data.length / 8 * 8) = [] := fun zero =>
    List.drop_eq_nil_of_le (by omega)
  by_cases empty : data = []
  · subst empty
    rfl
  simp only [encode, List.isEmpty_eq_false_iff.mpr empty, Bool.false_eq_true, if_false]
  split
  · rfl
  · rename_i noLast
    rw [fullBlockSize_eq] at noLast
    rw [whole (by omega), encodeBlock_nil, List.append_nil]
    rfl

theorem encode_flatten (blocks : List (List UInt8)) (last : List UInt8) (sized : ∀ b ∈ blocks, b.length = 8)
    (short : last.length < 8) :
    encode (blocks.flatten ++ last) = (blocks.map encodeBlock).flatten ++ encodeBlock last := by
  have flatLength := length_flatten_of_sized blocks sized
  have cut := map_block_flatten blocks last sized
  rw [encode_eq, List.length_append, flatLength, show (blocks.length * 8 + last.length) / 8 = blocks.length by omega,
    List.drop_left' flatLength, ← cut, List.map_map, cut]
  rfl

theorem encodeBlock_sized {blocks : List (List UInt8)} (sized : ∀ b ∈ blocks, b.length = 8) :
    ∀ piece ∈ blocks.map encodeBlock, piece.length = 11 := by
  intro piece mem
  obtain ⟨b, inBlocks, rfl⟩ := List.mem_map.mp mem
  rw [length_encodeBlock _ (by rw [sized b inBlocks]), sized b inBlocks]
  rfl

theorem mapM_decodeBlock_flatten (blocks : List (List UInt8)) (rest : List UInt8)
    (sized : ∀ b ∈ blocks, b.length = 8) :
    (List.range blocks.length).mapM (fun i => decodeBlock (block 11 ((blocks.map encodeBlock).flatten ++ rest) i)) =
      some blocks := by
  have encodedSized := encodeBlock_sized sized
  have mapped := mapM_eq_some_map (f := fun i => decodeBlock (block 11 ((blocks.map encodeBlock).flatten ++ rest) i))
    (g := fun i => blocks.getD i []) (List.range blocks.length) fun i inside => by
      have below : i < blocks.length := List.mem_range.mp inside
      rw [block_flatten_append rest _ encodedSized i (by simpa using below), List.getElem_map,
        decodeBlock_encodeBlock _ (by rw [sized _ (List.getElem_mem below)]; omega)
          (by rw [sized _ (List.getElem_mem below)])]
      simp [below]
  rw [mapped]
  congr 1
  apply List.ext_getElem (by simp)
  intro i inRange inside
  simp [inside]

theorem decode_flatten (blocks : List (List UInt8)) (last : List UInt8) (sized : ∀ b ∈ blocks, b.length = 8)
    (short : last.length < 8) :
    decode ((blocks.map encodeBlock).flatten ++ encodeBlock last) = some (blocks.flatten ++ last) := by
  obtain ⟨-, lastWide, lastShort, -⟩ := encodedBlockSizes_bounds last.length (by omega)
  replace lastShort := lastShort short
  have piecesLength : (blocks.map encodeBlock).flatten.length = blocks.length * 11 := by
    rw [length_flatten_of_sized _ (encodeBlock_sized sized), List.length_map]
  have encLength : ((blocks.map encodeBlock).flatten ++ encodeBlock last).length =
      blocks.length * 11 + encodedBlockSizes.getD last.length 0 := by
    rw [List.length_append, piecesLength, length_encodeBlock last (by omega)]
  by_cases empty : blocks.length * 11 + encodedBlockSizes.getD last.length 0 = 0
  · have noBlocks : blocks = [] := List.length_eq_zero_iff.mp (by omega)
    have noLast : last = [] := List.length_eq_zero_iff.mp (by omega)
    subst noBlocks noLast
    rfl
  rw [decode, if_neg (by rw [List.isEmpty_iff, ← List.length_eq_zero_iff, encLength]; exact empty)]
  simp only [encLength, fullEncodedBlockSize_eq]
  rw [show (blocks.length * 11 + encodedBlockSizes.getD last.length 0) / 11 = blocks.length by omega,
    show (blocks.length * 11 + encodedBlockSizes.getD last.length 0) % 11 =
      encodedBlockSizes.getD last.length 0 by omega,
    decodedBlockSizes_encodedBlockSizes _ (by omega), if_neg (by omega),
    mapM_decodeBlock_flatten blocks _ sized, Option.bind_eq_bind, Option.bind_some]
  split
  · rename_i lastBlock
    have positive : 0 < last.length := by
      by_contra zero
      rw [show last.length = 0 by omega] at lastBlock
      exact absurd lastBlock (by decide)
    rw [List.drop_left' piecesLength, decodeBlock_encodeBlock last positive (by omega),
      Option.bind_eq_bind, Option.bind_some]
    rfl
  · rename_i noLast
    have zero : last.length = 0 := by
      by_contra nonzero
      have := lastWide (by omega)
      omega
    rw [List.length_eq_zero_iff.mp zero, List.append_nil]
    rfl

theorem decode_encode (data : List UInt8) : decode (encode data) = some data := by
  obtain ⟨blocks, last, sized, short, rfl⟩ : ∃ (blocks : List (List UInt8)) (last : List UInt8),
      (∀ b ∈ blocks, b.length = 8) ∧ last.length < 8 ∧ data = blocks.flatten ++ last := by
    refine ⟨(List.range (data.length / 8)).map (block 8 data), data.drop (data.length / 8 * 8), ?_, ?_, ?_⟩
    · intro b mem
      obtain ⟨i, inside, rfl⟩ := List.mem_map.mp mem
      exact length_block (by simp only [List.mem_range] at inside; omega)
    · simp only [List.length_drop]
      omega
    · rw [flatten_map_block 8 data _ (Nat.div_mul_le_self _ _), List.take_append_drop]
  rw [encode_flatten blocks last sized short, decode_flatten blocks last sized short]

theorem decode_fullBlocks {enc : List UInt8} {q : Nat} {blocks : List (List UInt8)} (inside : q * 11 ≤ enc.length)
    (mapped : (List.range q).mapM (fun i => decodeBlock (block 11 enc i)) = some blocks) :
    (∀ b ∈ blocks, b.length = 8) ∧ (blocks.map encodeBlock).flatten = enc.take (q * 11) := by
  have related := forall₂_of_mapM_eq_some _ _ mapped
  have blockLength : ∀ i ∈ List.range q, (block 11 enc i).length = 11 := fun i below =>
    length_block (by simp only [List.mem_range] at below; omega)
  have lengths : blocks.map List.length =
      (List.range q).map fun i => (decodedBlockSizes (block 11 enc i).length).toNat :=
    map_eq_of_forall₂ (g := List.length) (h := fun i => (decodedBlockSizes (block 11 enc i).length).toNat)
      (fun _ _ decodedBlock => by rw [(decodeBlock_canonical decodedBlock).2.1]; simp) related
  refine ⟨fun b mem => ?_, ?_⟩
  · have counted : b.length ∈ blocks.map List.length := List.mem_map_of_mem mem
    rw [lengths] at counted
    obtain ⟨i, below, found⟩ := List.mem_map.mp counted
    rw [← found, blockLength i below]
    rfl
  · rw [map_eq_of_forall₂ (g := encodeBlock) (h := block 11 enc)
      (fun _ _ decodedBlock => (decodeBlock_canonical decodedBlock).1) related, flatten_map_block 11 enc q inside]

theorem decode_eq_some {enc data : List UInt8} (decoded : decode enc = some data) :
    ∃ (blocks : List (List UInt8)) (last : List UInt8), (∀ b ∈ blocks, b.length = 8) ∧ last.length < 8 ∧
      data = blocks.flatten ++ last ∧ (blocks.map encodeBlock).flatten ++ encodeBlock last = enc := by
  by_cases empty : enc = []
  · subst empty
    simp only [decode, List.isEmpty_nil, if_true, Option.some.injEq] at decoded
    exact ⟨[], [], by simp, by simp, by simp [← decoded], rfl⟩
  set q := enc.length / 11 with qDef
  simp only [decode, List.isEmpty_eq_false_iff.mpr empty, Bool.false_eq_true, if_false,
    fullEncodedBlockSize_eq, ← qDef] at decoded
  split at decoded
  · contradiction
  rename_i lastSized
  obtain ⟨below, sizeEq⟩ := @encodedBlockSizes_of_decodedBlockSizes (enc.length % 11) _ rfl (by omega)
  rw [Option.bind_eq_bind, Option.bind_eq_some_iff] at decoded
  obtain ⟨blocks, mapped, rest⟩ := decoded
  obtain ⟨sized, fullEnc⟩ := decode_fullBlocks (by omega) mapped
  refine ⟨blocks, ?_⟩
  have dropLength : (enc.drop (q * 11)).length = enc.length % 11 := by
    simp only [List.length_drop]
    omega
  split at rest
  · rw [Option.bind_eq_bind, Option.bind_eq_some_iff] at rest
    obtain ⟨last, lastDecoded, returned⟩ := rest
    obtain ⟨reencoded, sizes, -, -⟩ := decodeBlock_canonical lastDecoded
    rw [dropLength] at sizes
    -- the last block decodes to fewer than eight bytes, since eight would need eleven letters
    have lastShort : last.length < 8 := by
      by_contra full
      have notEleven : enc.length % 11 < 11 := Nat.mod_lt _ (by norm_num)
      have lastBelow : last.length < 9 := by simpa [sizes] using below
      rw [← sizeEq, sizes, Int.toNat_natCast, show last.length = 8 by omega] at notEleven
      exact absurd notEleven (by decide)
    refine ⟨last, sized, lastShort, (Option.some.inj returned).symm, ?_⟩
    rw [fullEnc, reencoded, List.take_append_drop]
  · rename_i noLast
    refine ⟨[], sized, by simp, by rw [List.append_nil]; exact (Option.some.inj rest).symm, ?_⟩
    rw [fullEnc, encodeBlock_nil, List.append_nil, List.take_of_length_le (by omega)]

theorem encode_decode {enc data : List UInt8} (decoded : decode enc = some data) : encode data = enc := by
  obtain ⟨blocks, last, sized, short, rfl, encoded⟩ := decode_eq_some decoded
  rw [encode_flatten blocks last sized short, encoded]

theorem decodeAddr_encodeAddr (cnFastHash : List UInt8 → Crypto.Hash) (tag : UInt64) (data : List UInt8) :
    decodeAddr cnFastHash (encodeAddr cnFastHash tag data) = some (tag, data) := by
  have varintEq : Tools.writeVarint tag.toNat = Common.writeVarint tag.toNat := writeVarint_eq_common _
  have varintNonempty : 0 < (Common.writeVarint tag.toNat).length := by
    rw [Common.writeVarint_eq]
    split <;> simp
  have tagRead : Tools.readVarint 64 (Common.writeVarint tag.toNat ++ data) =
      (((Common.writeVarint tag.toNat).length : Int), tag.toNat) := by
    have read := readVarintLoop_writeVarint 64 data tag.toNat 0 0 0 (by norm_num)
      (by simpa using tag.toNat_lt) (Or.inl rfl)
    simpa [readVarint] using read
  simp only [decodeAddr, encodeAddr, varintEq, decode_encode, Option.bind_eq_bind, Option.bind_some]
  set checksum := (cnFastHash (Common.writeVarint tag.toNat ++ data)).data.take addrChecksumSize
    with checksumDef
  have checksumLength : checksum.length = 4 := by
    simp [checksumDef, (cnFastHash _).size_eq, addrChecksumSize]
  have payload : (Common.writeVarint tag.toNat ++ data ++ checksum).length - addrChecksumSize =
      (Common.writeVarint tag.toNat ++ data).length := by
    simp only [List.length_append, checksumLength, addrChecksumSize]
    omega
  rw [if_neg (by simp only [List.length_append, checksumLength, addrChecksumSize]; omega), payload,
    List.drop_left, List.take_left, if_neg (not_not.mpr checksumDef.symm), tagRead]
  simpa using List.ne_nil_of_length_pos varintNonempty

theorem base58_roundTrip :
    (∀ data, decode (encode data) = some data) ∧
      (∀ enc data, decode enc = some data → encode data = enc) ∧
      ∀ (cnFastHash : List UInt8 → Crypto.Hash) (tag : UInt64) (data : List UInt8),
        decodeAddr cnFastHash (encodeAddr cnFastHash tag data) = some (tag, data) :=
  ⟨decode_encode, fun _ _ decoded => encode_decode decoded, decodeAddr_encodeAddr⟩

end Tools.Base58
