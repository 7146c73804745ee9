import CryptoNote.Crypto.Types

/-! # Byte streams and varints

`Common::read`, `Common::readVarint` and `Common::writeVarint`
(`Common/StreamTools.cpp`) over a `MemoryInputStream`.  A stream being read is
the list of bytes not yet read; a read that runs past the end throws, as
`read` does when `readSome` returns `0`.

`readVarint` for an unsigned type of `bits` bits reads seven bits a byte, low
first.  It throws on a piece that would overflow the type and on a last byte
`0` after the first, so only the shortest encoding of a value is accepted.  The
loop runs at most `bits / 7 + 1` times (`readVarintLoop` takes that as fuel). -/
set_option autoImplicit false

namespace Common

/-- A `MemoryInputStream` together with the exceptions its readers throw. -/
abbrev InputStream := StateT (List UInt8) (Except String)

def readFailure : String := "Failed to read from IInputStream"

/-- `read(in, data, size)`: exactly `size` bytes, or throw. -/
def read (size : Nat) : InputStream {data : List UInt8 // data.length = size} := fun bytes =>
  if h : size ≤ bytes.length then .ok (⟨bytes.take size, List.length_take_of_le h⟩, bytes.drop size)
  else .error readFailure

def readUInt8 : InputStream UInt8 := fun bytes =>
  match bytes with
  | [] => .error readFailure
  | byte :: rest => .ok (byte, rest)

/-- A 32-byte POD (`Crypto::Hash`, `Crypto::PublicKey`, ...) read by `binary(&pod, sizeof(pod))`. -/
def readHash : InputStream Crypto.Hash := do
  let data ← read 32
  pure ⟨data.1, data.2⟩

def readPublicKey : InputStream Crypto.PublicKey := do
  let data ← read 32
  pure ⟨data.1, data.2⟩

def readKeyImage : InputStream Crypto.KeyImage := do
  let data ← read 32
  pure ⟨data.1, data.2⟩

def readSignature : InputStream Crypto.Signature := do
  let data ← read 64
  pure ⟨data.1, data.2⟩

/-- A `uint32_t` read as its four bytes, least significant first. -/
def readUInt32Pod : InputStream UInt32 := do
  let data ← read 4
  pure (data.1.foldr (fun byte value => value * 256 + byte.toUInt32) 0)

def writeUInt32Pod (value : UInt32) : List UInt8 :=
  [value.toUInt8, (value >>> 8).toUInt8, (value >>> 16).toUInt8, (value >>> 24).toUInt8]

def endOfStream : InputStream Bool := fun bytes => .ok (bytes.isEmpty, bytes)

/-- The loop of `readVarint`: `shift` bits are already in `temp`.  The pieces
fill disjoint bits, so `temp |= (piece & 0x7f) << shift` is an addition. -/
def readVarintLoop (bits : Nat) : (fuel : Nat) → (shift temp : Nat) → InputStream Nat
  | 0, _, _ => throw "readVarint, value overflow"
  | fuel + 1, shift, temp => do
      let piece ← readUInt8
      if shift ≥ bits - 7 ∧ piece.toNat ≥ 2 ^ (bits - shift) then
        throw "readVarint, value overflow"
      else
        let temp := temp + piece.toNat % 128 * 2 ^ shift
        if piece.toNat < 128 then
          if piece = 0 ∧ shift ≠ 0 then throw "readVarint, invalid value representation"
          else pure temp
        else readVarintLoop bits fuel (shift + 7) temp

/-- `readVarint(in, value)` for an unsigned type of `bits` bits. -/
def readVarint (bits : Nat) : InputStream Nat := readVarintLoop bits (bits / 7 + 1) 0 0

/-- The loop of `writeVarint`, with a fuel that bounds the bytes written. -/
def writeVarintLoop : (fuel : Nat) → (value : Nat) → List UInt8
  | 0, value => [UInt8.ofNat value]
  | fuel + 1, value =>
      if value ≥ 0x80 then UInt8.ofNat (value ||| 0x80) :: writeVarintLoop fuel (value >>> 7)
      else [UInt8.ofNat value]

/-- `writeVarint(out, value)`: every byte but the last has its high bit set. -/
def writeVarint (value : Nat) : List UInt8 := writeVarintLoop value value

/-! ## Varints -/

theorem writeVarintLoop_fuel :
    ∀ (fuel fuel' value : Nat), value ≤ fuel → value ≤ fuel' →
      writeVarintLoop fuel value = writeVarintLoop fuel' value := by
  intro fuel
  induction fuel with
  | zero =>
      intro fuel' value small _
      obtain rfl : value = 0 := by omega
      cases fuel' <;> simp [writeVarintLoop]
  | succ fuel ih =>
      intro fuel' value small small'
      cases fuel' with
      | zero =>
          obtain rfl : value = 0 := by omega
          simp [writeVarintLoop]
      | succ fuel' =>
          simp only [writeVarintLoop]
          split
          · rw [ih fuel' (value >>> 7) (by rw [Nat.shiftRight_eq_div_pow]; omega)
              (by rw [Nat.shiftRight_eq_div_pow]; omega)]
          · rfl

theorem writeVarint_eq (value : Nat) :
    writeVarint value = if value ≥ 0x80 then UInt8.ofNat (value ||| 0x80) :: writeVarint (value / 128)
      else [UInt8.ofNat value] := by
  unfold writeVarint
  cases value with
  | zero => simp [writeVarintLoop]
  | succ value =>
      simp only [writeVarintLoop, Nat.shiftRight_eq_div_pow]
      split
      · rw [writeVarintLoop_fuel value ((value + 1) / 2 ^ 7) _ (by omega) (by omega)]
        rfl
      · rfl

theorem toNat_ofNat_or_0x80 (value : Nat) :
    (UInt8.ofNat (value ||| 0x80)).toNat = value % 128 + 128 := by
  have low : ∀ r < 2 ^ 8, (r ||| 128) = r % 128 + 128 := by decide +kernel
  have mod : (value ||| 128) % 2 ^ 8 = (value % 2 ^ 8) ||| 128 := by
    rw [Nat.or_mod_two_pow]
  simp only [UInt8.toNat_ofNat']
  rw [mod, low _ (Nat.mod_lt _ (by norm_num))]
  simp only [Nat.reducePow]
  omega

theorem eight_bits_left {bits shift m : Nat} (flag : 128 ≤ m) (fits : m < 2 ^ (bits - shift)) :
    shift + 8 ≤ bits := by
  by_contra short
  have : 2 ^ (bits - shift) ≤ 2 ^ 7 := Nat.pow_le_pow_right (by norm_num) (by omega)
  omega

theorem div_fits {bits shift value : Nat} (left : shift + 8 ≤ bits)
    (fits : value < 2 ^ (bits - shift)) : value / 128 < 2 ^ (bits - (shift + 7)) := by
  have split : 2 ^ (bits - shift) = 2 ^ (bits - (shift + 7)) * 128 := by
    rw [show bits - shift = bits - (shift + 7) + 7 by omega, pow_add]; rfl
  rw [Nat.div_lt_iff_lt_mul (by norm_num), ← split]
  exact fits

theorem continued_fits {bits shift value : Nat} (r : Nat) (left : shift + 8 ≤ bits)
    (fits : value < 2 ^ (bits - (shift + 7))) : r % 128 + 128 * value < 2 ^ (bits - shift) := by
  have split : 2 ^ (bits - shift) = 2 ^ (bits - (shift + 7)) * 128 := by
    rw [show bits - shift = bits - (shift + 7) + 7 by omega, pow_add]; rfl
  have : r % 128 < 128 := Nat.mod_lt _ (by norm_num)
  rw [split]
  omega

theorem add_pieces (temp value shift : Nat) :
    temp + value % 128 * 2 ^ shift + value / 128 * 2 ^ (shift + 7) = temp + value * 2 ^ shift := by
  rw [pow_add]
  calc temp + value % 128 * 2 ^ shift + value / 128 * (2 ^ shift * 2 ^ 7)
      = temp + (value % 128 + 128 * (value / 128)) * 2 ^ shift := by ring
    _ = temp + value * 2 ^ shift := by rw [Nat.mod_add_div]

theorem writeVarint_byte {byte : UInt8} (last : byte.toNat < 128) : writeVarint byte.toNat = [byte] := by
  rw [writeVarint_eq, if_neg (by omega)]
  simp

theorem writeVarint_continued {byte : UInt8} {value : Nat} (flag : 128 ≤ byte.toNat)
    (positive : 0 < value) :
    writeVarint (byte.toNat % 128 + 128 * value) = byte :: writeVarint value := by
  rw [writeVarint_eq, if_pos (by omega)]
  congr 1
  · apply UInt8.toNat_inj.mp
    rw [toNat_ofNat_or_0x80]
    have := byte.toNat_lt
    omega
  · rw [show (byte.toNat % 128 + 128 * value) / 128 = value by omega]

theorem readVarintLoop_writeVarint (bits : Nat) :
    ∀ (fuel shift temp value : Nat) (rest : List UInt8), shift < bits → bits ≤ shift + 7 * fuel →
      value < 2 ^ (bits - shift) → (shift = 0 ∨ 0 < value) →
        readVarintLoop bits fuel shift temp (writeVarint value ++ rest) =
          .ok (temp + value * 2 ^ shift, rest) := by
  intro fuel
  induction fuel with
  | zero =>
      intro shift temp value rest left enough
      exact absurd enough (by omega)
  | succ fuel ih =>
      intro shift temp value rest left enough fits nonzero
      rw [writeVarint_eq]
      split
      · rename_i big
        have left := eight_bits_left big fits
        have piece := toNat_ofNat_or_0x80 value
        simp only [readVarintLoop, readUInt8, List.cons_append, bind, StateT.bind, Except.bind,
          piece]
        rw [if_neg (by omega), if_neg (by omega)]
        rw [ih (shift + 7) _ (value / 128) rest (by omega) (by omega) (div_fits left fits) (by omega)]
        congr 2
        rw [show (value % 128 + 128) % 128 = value % 128 by omega, add_pieces]
      · rename_i small
        have piece : (UInt8.ofNat value).toNat = value := by simp; omega
        simp only [readVarintLoop, readUInt8, List.singleton_append, bind, StateT.bind, Except.bind,
          piece]
        rw [if_neg (by omega), if_pos (by omega), if_neg]
        · simp [Nat.mod_eq_of_lt (show value < 128 by omega)]
          rfl
        · rintro ⟨zero, moved⟩
          have : value = 0 := by
            have := congrArg UInt8.toNat zero
            simpa [piece] using this
          omega

theorem readVarint_writeVarint (bits value : Nat) (rest : List UInt8) (wide : 0 < bits)
    (fits : value < 2 ^ bits) : readVarint bits (writeVarint value ++ rest) = .ok (value, rest) := by
  have read := readVarintLoop_writeVarint bits (bits / 7 + 1) 0 0 value rest wide (by omega)
    (by simpa using fits) (Or.inl rfl)
  simpa [readVarint] using read

theorem readVarintLoop_truncated (bits : Nat) :
    ∀ (bytes : List UInt8) (fuel shift temp : Nat), (∀ piece ∈ bytes, 128 ≤ piece.toNat) →
      (bytes = [] ∨ shift + 7 * bytes.length < bits) → bytes.length < fuel →
        readVarintLoop bits fuel shift temp bytes = .error readFailure := by
  intro bytes
  induction bytes with
  | nil =>
      intro fuel shift temp _ _ enough
      obtain ⟨fuel, rfl⟩ : ∃ f, fuel = f + 1 := ⟨fuel - 1, by simp at enough; omega⟩
      rfl
  | cons piece bytes ih =>
      intro fuel shift temp flags short enough
      obtain ⟨fuel, rfl⟩ : ∃ f, fuel = f + 1 := ⟨fuel - 1, by simp at enough; omega⟩
      have flag := flags piece List.mem_cons_self
      simp only [List.cons_ne_nil, List.length_cons, false_or] at short enough
      simp only [readVarintLoop, readUInt8, bind, StateT.bind, Except.bind]
      rw [if_neg (by omega), if_neg (by omega)]
      exact ih fuel (shift + 7) _ (fun p mem => flags p (List.mem_cons_of_mem _ mem))
        (Or.inr (by omega)) (by omega)

theorem readVarintLoop_canonical (bits : Nat) :
    ∀ (fuel shift temp : Nat) (bytes rest : List UInt8) (value : Nat),
      readVarintLoop bits fuel shift temp bytes = .ok (value, rest) →
        ∃ read, value = temp + read * 2 ^ shift ∧ bytes = writeVarint read ++ rest ∧
          read < 2 ^ (bits - shift) ∧ (shift = 0 ∨ 0 < read) := by
  intro fuel
  induction fuel with
  | zero =>
      intro shift temp bytes rest value returned
      simp [readVarintLoop, throw, throwThe, MonadExceptOf.throw, StateT.lift] at returned
  | succ fuel ih =>
      intro shift temp bytes rest value returned
      cases bytes with
      | nil => simp [readVarintLoop, readUInt8, bind, StateT.bind, Except.bind] at returned
      | cons piece bytes =>
          simp only [readVarintLoop, readUInt8, bind, StateT.bind, Except.bind] at returned
          split at returned
          · simp [throw, throwThe, MonadExceptOf.throw, StateT.lift] at returned
          rename_i fitsPiece
          have pieceSmall := piece.toNat_lt
          split at returned
          · rename_i last
            split at returned
            · simp [throw, throwThe, MonadExceptOf.throw, StateT.lift] at returned
            rename_i notZero
            simp only [pure, StateT.pure, Except.pure, Except.ok.injEq, Prod.mk.injEq] at returned
            obtain ⟨rfl, rfl⟩ := returned
            refine ⟨piece.toNat, by rw [Nat.mod_eq_of_lt last], ?_, ?_, ?_⟩
            · rw [writeVarint_byte last]
              rfl
            · by_cases high : shift ≥ bits - 7
              · exact Nat.lt_of_not_le fun ge => fitsPiece ⟨high, ge⟩
              · calc piece.toNat < 2 ^ 8 := pieceSmall
                  _ ≤ 2 ^ (bits - shift) := Nat.pow_le_pow_right (by norm_num) (by omega)
            · by_cases moved : shift = 0
              · exact Or.inl moved
              · refine Or.inr (Nat.pos_of_ne_zero fun zero => notZero ⟨?_, moved⟩)
                exact UInt8.toNat_inj.mp zero
          · rename_i continued
            obtain ⟨read, rfl, rfl, fits, nonzero⟩ := ih _ _ bytes rest value returned
            -- the piece carried a flag, so at least eight bits were left before it
            have left : shift + 8 ≤ bits := by
              by_cases high : shift ≥ bits - 7
              · exact eight_bits_left (by omega) (Nat.lt_of_not_le fun ge => fitsPiece ⟨high, ge⟩)
              · omega
            refine ⟨piece.toNat % 128 + 128 * read, ?_, ?_, continued_fits _ left fits, Or.inr (by omega)⟩
            · rw [pow_add]; ring
            · rw [writeVarint_continued (by omega) (by omega), List.cons_append]

theorem readVarint_canonical {bits : Nat} {bytes rest : List UInt8} {value : Nat}
    (returned : readVarint bits bytes = .ok (value, rest)) :
    value < 2 ^ bits ∧ bytes = writeVarint value ++ rest := by
  obtain ⟨read, rfl, written, fits, -⟩ :=
    readVarintLoop_canonical bits _ 0 0 bytes rest value returned
  simp only [pow_zero, mul_one, zero_add, Nat.sub_zero] at fits written ⊢
  exact ⟨fits, written⟩

end Common
