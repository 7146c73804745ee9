import CryptoNote.Common.StreamTools

/-! # The iterator varint codec (`Common/Varint.h`)

`Tools::write_varint` writes the same bytes as `Common::writeVarint`.
`Tools::read_varint<bits>(first, last, i)` is a second decoder: it returns the
number of bytes read, `-1` on overflow or `-2` on a zero byte after the first.
It makes the same checks as `Common::readVarint` in the same order, but where
the stream reader throws at the end of its input, `read_varint` returns the
bytes read so far: an input that ends inside a varint is accepted with the
value of the bytes seen.  The loop consumes a byte per iteration, so it is
structural recursion on the input. -/
set_option autoImplicit false

namespace Tools

/-- The loop of `write_varint`, with a fuel that bounds the bytes written. -/
def writeVarintLoop : (fuel : Nat) → (i : Nat) → List UInt8
  | 0, i => [UInt8.ofNat i]
  | fuel + 1, i => if i ≥ 0x80 then (UInt8.ofNat i &&& 0x7f ||| 0x80) :: writeVarintLoop fuel (i >>> 7)
      else [UInt8.ofNat i]

def writeVarint (i : Nat) : List UInt8 := writeVarintLoop i i

/-- The loop of `read_varint` from bit position `shift`, after `read` bytes with
value `i`.  The pieces fill disjoint bits, so `i |= (byte & 0x7f) << shift` is an
addition. -/
def readVarintLoop (bits : Nat) (shift read i : Nat) : List UInt8 → Int × Nat
  | [] => (read, i)
  | byte :: rest =>
    let read := read + 1
    if shift + 7 ≥ bits ∧ byte.toNat ≥ 2 ^ (bits - shift) then (-1, i)
    else if byte = 0 ∧ shift ≠ 0 then (-2, i)
    else
      let i := i + byte.toNat % 128 * 2 ^ shift
      if byte.toNat < 128 then (read, i) else readVarintLoop bits (shift + 7) read i rest

/-- `read_varint<bits>(first, last, i)`: the count it returns and the value of `i`. -/
def readVarint (bits : Nat) (bytes : List UInt8) : Int × Nat := readVarintLoop bits 0 0 0 bytes

theorem writeVarintLoop_eq : ∀ fuel i, writeVarintLoop fuel i = Common.writeVarintLoop fuel i
  | 0, _ => rfl
  | fuel + 1, i => by
    have byte : UInt8.ofNat i &&& 0x7f ||| 0x80 = UInt8.ofNat (i ||| 0x80) := by
      have low : ∀ b : UInt8, (b &&& 0x7f ||| 0x80).toNat = b.toNat % 128 + 128 := fun b => by
        have masked : b.toNat &&& 2 ^ 7 - 1 = b.toNat % 2 ^ 7 := Nat.and_two_pow_sub_one_eq_mod _ _
        rw [UInt8.toNat_or, UInt8.toNat_and, show (0x7f : UInt8).toNat = 2 ^ 7 - 1 from rfl, masked,
          show (0x80 : UInt8).toNat = 2 ^ 7 * 1 from rfl, Nat.or_comm,
          ← Nat.two_pow_add_eq_or_of_lt (Nat.mod_lt _ (by norm_num))]
        omega
      rw [← UInt8.toNat_inj, low, Common.toNat_ofNat_or_0x80, UInt8.toNat_ofNat']
      omega
    simp only [writeVarintLoop, Common.writeVarintLoop, byte, writeVarintLoop_eq fuel]

theorem writeVarint_eq_common (i : Nat) : writeVarint i = Common.writeVarint i := writeVarintLoop_eq i i

theorem readVarintLoop_writeVarint (bits : Nat) (rest : List UInt8) (value : Nat) :
    ∀ shift read i, shift < bits → value < 2 ^ (bits - shift) → (shift = 0 ∨ 0 < value) →
      readVarintLoop bits shift read i (Common.writeVarint value ++ rest) =
        (((read + (Common.writeVarint value).length : Nat) : Int), i + value * 2 ^ shift) := by
  induction value using Nat.strong_induction_on with
  | _ value ih =>
    intro shift read i left fits nonzero
    rw [Common.writeVarint_eq]
    split
    · rename_i big
      have left := Common.eight_bits_left big fits
      have piece := Common.toNat_ofNat_or_0x80 value
      have byteNonzero : UInt8.ofNat (value ||| 128) ≠ 0 := by
        intro zero
        have := congrArg UInt8.toNat zero
        rw [piece, UInt8.toNat_zero] at this
        omega
      simp only [List.cons_append, readVarintLoop, piece]
      rw [if_neg (by omega), if_neg (by tauto), if_neg (by omega),
        ih (value / 128) (by omega) (shift + 7) _ _ (by omega) (Common.div_fits left fits) (by omega)]
      simp only [List.length_cons, Prod.mk.injEq]
      refine ⟨by push_cast; ring, ?_⟩
      rw [show (value % 128 + 128) % 128 = value % 128 by omega, Common.add_pieces]
    · rename_i small
      have piece : (UInt8.ofNat value).toNat = value := by simp; omega
      simp only [List.singleton_append, readVarintLoop, piece]
      rw [if_neg (by omega), if_neg, if_pos (by omega)]
      · simp [Nat.mod_eq_of_lt (show value < 128 by omega)]
      · rintro ⟨zero, moved⟩
        have : value = 0 := by simpa [piece] using congrArg UInt8.toNat zero
        omega

theorem readVarintLoop_cases (bits : Nat) :
    ∀ (bytes : List UInt8) (shift read i : Nat) (n : Int) (v : Nat),
      readVarintLoop bits shift read i bytes = (n, v) → 0 ≤ n →
        (∃ value rest, bytes = Common.writeVarint value ++ rest ∧ value < 2 ^ (bits - shift) ∧
            (shift = 0 ∨ 0 < value) ∧ n = ((read + (Common.writeVarint value).length : Nat) : Int) ∧
            v = i + value * 2 ^ shift) ∨
          (n = ((read + bytes.length : Nat) : Int) ∧ (∀ byte ∈ bytes, 128 ≤ byte.toNat) ∧
            (bytes = [] ∨ shift + 7 * bytes.length < bits)) := by
  intro bytes
  induction bytes with
  | nil =>
      intro shift read i n v returned _
      simp only [readVarintLoop, Prod.mk.injEq] at returned
      exact Or.inr ⟨by simp [← returned.1], by simp, Or.inl rfl⟩
  | cons byte rest ih =>
      intro shift read i n v returned nonneg
      have small := byte.toNat_lt
      simp only [readVarintLoop] at returned
      split_ifs at returned with overflow zero last
      · simp only [Prod.mk.injEq] at returned
        omega
      · simp only [Prod.mk.injEq] at returned
        omega
      · -- the last byte of a varint
        simp only [Prod.mk.injEq] at returned
        obtain ⟨rfl, rfl⟩ := returned
        refine Or.inl ⟨byte.toNat, rest, by rw [Common.writeVarint_byte last]; rfl, ?_, ?_, ?_, ?_⟩
        · by_cases high : shift + 7 ≥ bits
          · exact Nat.lt_of_not_le fun ge => overflow ⟨high, ge⟩
          · calc byte.toNat < 2 ^ 8 := small
              _ ≤ 2 ^ (bits - shift) := Nat.pow_le_pow_right (by norm_num) (by omega)
        · by_cases moved : shift = 0
          · exact Or.inl moved
          · exact Or.inr (Nat.pos_of_ne_zero fun none => zero ⟨UInt8.toNat_inj.mp none, moved⟩)
        · rw [Common.writeVarint_byte last]
          rfl
        · rw [Nat.mod_eq_of_lt last]
      · -- a flagged byte: at least eight bits were left for it
        have left : shift + 8 ≤ bits := by
          by_cases high : shift + 7 ≥ bits
          · exact Common.eight_bits_left (by omega) (Nat.lt_of_not_le fun ge => overflow ⟨high, ge⟩)
          · omega
        rcases ih _ _ _ n v returned nonneg with
          ⟨value, rest, rfl, fits, nonzero, rfl, rfl⟩ | ⟨rfl, flags, short⟩
        · refine Or.inl ⟨byte.toNat % 128 + 128 * value, rest, ?_, Common.continued_fits _ left fits,
            Or.inr (by omega), ?_, ?_⟩
          · rw [Common.writeVarint_continued (by omega) (by omega), List.cons_append]
          · rw [Common.writeVarint_continued (by omega) (by omega), List.length_cons]
            push_cast
            ring
          · rw [pow_add]
            ring
        · refine Or.inr ⟨by simp only [List.length_cons]; push_cast; ring, ?_, Or.inr ?_⟩
          · intro piece mem
            rcases List.mem_cons.mp mem with rfl | mem
            · omega
            · exact flags piece mem
          · rcases short with rfl | short
            · simp only [List.length_singleton]
              omega
            · simp only [List.length_cons]
              omega

theorem readVarint_positive {bits : Nat} (wide : 0 < bits) (bytes : List UInt8)
    (positive : 0 < (readVarint bits bytes).1) :
    (∃ rest, bytes = Common.writeVarint (readVarint bits bytes).2 ++ rest ∧
        (readVarint bits bytes).1 = (Common.writeVarint (readVarint bits bytes).2).length ∧
        Common.readVarint bits bytes = .ok ((readVarint bits bytes).2, rest)) ∨
      ((readVarint bits bytes).1 = bytes.length ∧ (∀ byte ∈ bytes, 128 ≤ byte.toNat) ∧
        Common.readVarint bits bytes = .error Common.readFailure) := by
  rcases returned : readVarint bits bytes with ⟨n, v⟩
  rw [returned] at positive
  dsimp only at positive ⊢
  rcases readVarintLoop_cases bits bytes 0 0 0 n v returned (by omega) with
    ⟨value, rest, rfl, fits, -, rfl, rfl⟩ | ⟨rfl, flags, short⟩
  · simp only [Nat.sub_zero] at fits
    rw [show 0 + value * 2 ^ 0 = value by simp]
    exact Or.inl ⟨rest, rfl, by simp, Common.readVarint_writeVarint bits value rest wide fits⟩
  · rcases short with rfl | short
    · simp at positive
    · refine Or.inr ⟨by simp, flags, ?_⟩
      exact Common.readVarintLoop_truncated bits bytes _ 0 0 flags (Or.inr short) (by omega)

theorem readVarint_of_common {bits : Nat} (wide : 0 < bits) {bytes rest : List UInt8} {value : Nat}
    (returned : Common.readVarint bits bytes = .ok (value, rest)) :
    bytes = Common.writeVarint value ++ rest ∧
      readVarint bits bytes = (((Common.writeVarint value).length : Int), value) := by
  obtain ⟨fits, rfl⟩ := Common.readVarint_canonical returned
  refine ⟨rfl, ?_⟩
  have read := readVarintLoop_writeVarint bits rest value 0 0 0 wide (by simpa using fits) (Or.inl rfl)
  simpa [readVarint] using read

/-- `read_varint` and the stream reader `Common::readVarint` agree.  Whatever
the stream reader reads, `read_varint` reads with the same count; where
`read_varint` returns a positive count, it has read a canonical encoding that
the stream reader reads too, or an input cut off inside a varint, on which the
stream reader throws. -/
theorem readVarint_agrees {bits : Nat} (wide : 0 < bits) :
    (∀ bytes rest value, Common.readVarint bits bytes = .ok (value, rest) →
      bytes = Common.writeVarint value ++ rest ∧
        readVarint bits bytes = (((Common.writeVarint value).length : Int), value)) ∧
    ∀ bytes, 0 < (readVarint bits bytes).1 →
      (∃ rest, bytes = Common.writeVarint (readVarint bits bytes).2 ++ rest ∧
          (readVarint bits bytes).1 = (Common.writeVarint (readVarint bits bytes).2).length ∧
          Common.readVarint bits bytes = .ok ((readVarint bits bytes).2, rest)) ∨
        ((readVarint bits bytes).1 = bytes.length ∧ (∀ byte ∈ bytes, 128 ≤ byte.toNat) ∧
          Common.readVarint bits bytes = .error Common.readFailure) :=
  ⟨fun _ _ _ returned => readVarint_of_common wide returned, readVarint_positive wide⟩

/-- For `uint64_t`, the width `read_varint` is called with for address tags. -/
theorem readVarint_agrees_uint64 :
    0 < 64 ∧
      (∀ bytes rest value, Common.readVarint 64 bytes = .ok (value, rest) →
        bytes = Common.writeVarint value ++ rest ∧
          readVarint 64 bytes = (((Common.writeVarint value).length : Int), value)) ∧
      ∀ bytes, 0 < (readVarint 64 bytes).1 →
        (∃ rest, bytes = Common.writeVarint (readVarint 64 bytes).2 ++ rest ∧
            (readVarint 64 bytes).1 = (Common.writeVarint (readVarint 64 bytes).2).length ∧
            Common.readVarint 64 bytes = .ok ((readVarint 64 bytes).2, rest)) ∨
          ((readVarint 64 bytes).1 = bytes.length ∧ (∀ byte ∈ bytes, 128 ≤ byte.toNat) ∧
            Common.readVarint 64 bytes = .error Common.readFailure) :=
  ⟨by decide, readVarint_agrees (by decide)⟩

/-- An input that ends after a flagged byte: `read_varint` counts one byte with
value zero, the stream reader throws, and zero is written as a single `0x00`. -/
theorem readVarint_truncated :
    readVarint 64 [0x80] = (1, 0) ∧ Common.readVarint 64 [0x80] = .error Common.readFailure ∧
      Common.writeVarint 0 = [0] := ⟨rfl, rfl, rfl⟩

end Tools
