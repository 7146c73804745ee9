import CryptoNote.Core.TransactionValidator

/-! # Amounts as decimal text (`Common/FormatTools.cpp`, `Currency::formatAmount`,
`Currency::parseAmount`)

An amount is a count of atomic units, written with `numberOfDecimalPlaces`
digits after the point.  The `Currency` methods call the `Common` functions,
and those read the file-level constant `numberOfDecimalPlaces =
CRYPTONOTE_DISPLAY_DECIMAL_POINT`, not the currency's own
`m_numberOfDecimalPlaces`: every currency formats and parses with two places.

Strings are lists of characters.  `fromString<uint64_t>` is only called on a
non-empty string of digits, and is modelled there: `stream >> value` fails when
the value does not fit in 64 bits. -/

set_option autoImplicit false

namespace Common

open CryptoNote.parameters

/-- The file-level `numberOfDecimalPlaces` of `FormatTools.cpp`. -/
def numberOfDecimalPlaces : Nat := CRYPTONOTE_DISPLAY_DECIMAL_POINT

/-- `std::to_string` of an unsigned value. -/
def toDecimalString (value : Nat) : List Char := Nat.toDigits 10 value

def formatAmount (amount : UInt64) : List Char :=
  let s := toDecimalString amount.toNat
  let s := if s.length < numberOfDecimalPlaces + 1 then
      List.replicate (numberOfDecimalPlaces + 1 - s.length) '0' ++ s
    else s
  s.take (s.length - numberOfDecimalPlaces) ++ '.' :: s.drop (s.length - numberOfDecimalPlaces)

/-- `formatAmount(int64_t)`.  `std::abs(INT64_MIN)` is undefined; the model
takes the two's complement result, whose cast to `uint64_t` is `2^63`. -/
def formatAmountSigned (amount : Int64) : List Char :=
  let s := formatAmount (UInt64.ofNat amount.toInt.natAbs)
  if amount < 0 then '-' :: s else s

def isSpace (c : Char) : Bool :=
  c == ' ' || c == '\t' || c == '\n' || c == '\x0b' || c == '\x0c' || c == '\r'

def trim (s : List Char) : List Char := ((s.dropWhile isSpace).reverse.dropWhile isSpace).reverse

def decimalValue (s : List Char) : Nat := s.foldl (fun value c => 10 * value + (c.toNat - '0'.toNat)) 0

def fromString (text : List Char) : Option UInt64 :=
  if decimalValue text < 2 ^ 64 then some (UInt64.ofNat (decimalValue text)) else none

/-- The loop of `parseAmount` that drops trailing zeros of a fraction longer
than `numberOfDecimalPlaces`.  Each turn shortens the fraction, so `fuel`
equal to the fraction's size never stops the loop early. -/
def trimFraction : Nat → List Char → Nat → List Char × Nat
  | 0, strAmount, fractionSize => (strAmount, fractionSize)
  | fuel + 1, strAmount, fractionSize =>
    if numberOfDecimalPlaces < fractionSize ∧ strAmount.getLast? = some '0' then
      trimFraction fuel strAmount.dropLast (fractionSize - 1)
    else (strAmount, fractionSize)

/-- `parseAmount(str, amount)`: the amount when it returns `true`. -/
def parseAmount (str : List Char) : Option UInt64 :=
  let strAmount := trim str
  let pointed : Option (List Char × Nat) :=
    match strAmount.findIdx? (· == '.') with
    | some pointIndex =>
      let (strAmount, fractionSize) :=
        trimFraction (strAmount.length - pointIndex - 1) strAmount (strAmount.length - pointIndex - 1)
      if numberOfDecimalPlaces < fractionSize then none
      else some (strAmount.eraseIdx pointIndex, fractionSize)
    | none => some (strAmount, 0)
  match pointed with
  | none => none
  | some (strAmount, fractionSize) =>
    if strAmount.isEmpty then none
    else if !strAmount.all Char.isDigit then none
    else
      let strAmount := if fractionSize < numberOfDecimalPlaces then
          strAmount ++ List.replicate (numberOfDecimalPlaces - fractionSize) '0'
        else strAmount
      fromString strAmount

/-! ## Digits -/

theorem decimalValue_append (a b : List Char) :
    decimalValue (a ++ b) = decimalValue a * 10 ^ b.length + decimalValue b := by
  -- the fold over `b` from any start adds the start times `10 ^ b.length`
  have shift : ∀ (b : List Char) (start : Nat),
      b.foldl (fun value c => 10 * value + (c.toNat - '0'.toNat)) start =
        start * 10 ^ b.length + decimalValue b := by
    intro b
    induction b using List.reverseRecOn with
    | nil => intro start; simp [decimalValue]
    | append_singleton b c ih =>
      intro start
      simp only [decimalValue, List.foldl_append, List.foldl_cons, List.foldl_nil, List.length_append,
        List.length_singleton] at ih ⊢
      rw [ih start, ih 0]
      ring
  rw [decimalValue, List.foldl_append, shift]
  rfl

theorem decimalValue_zeros (k : Nat) : decimalValue (List.replicate k '0') = 0 := by
  induction k with
  | zero => rfl
  | succ k ih =>
    rw [List.replicate_succ', decimalValue_append, ih]
    rfl

theorem decimalValue_toDecimalString (n : Nat) : decimalValue (toDecimalString n) = n := by
  induction n using Nat.strong_induction_on with
  | _ n ih =>
    by_cases small : n < 10
    · rw [toDecimalString, Nat.toDigits_of_lt_base small]
      interval_cases n <;> rfl
    · -- the last digit and the digits of `n / 10`
      have split : Nat.toDigits 10 (n / 10) ++ Nat.toDigits 10 (n % 10) = Nat.toDigits 10 n := by
        rw [Nat.toDigits_append_toDigits (by norm_num) (by omega) (Nat.mod_lt _ (by norm_num)),
          Nat.div_add_mod]
      have last : decimalValue (Nat.toDigits 10 (n % 10)) = n % 10 :=
        ih (n % 10) (by omega)
      have length : (Nat.toDigits 10 (n % 10)).length = 1 := by
        rw [Nat.toDigits_of_lt_base (Nat.mod_lt _ (by norm_num))]
        rfl
      have high : decimalValue (Nat.toDigits 10 (n / 10)) = n / 10 := ih (n / 10) (by omega)
      rw [toDecimalString, ← split, decimalValue_append, length, last, high]
      omega

theorem isDigit_of_mem_toDecimalString {n : Nat} {c : Char} (mem : c ∈ toDecimalString n) : c.isDigit = true :=
  Nat.isDigit_of_mem_toDigits (by norm_num) (by norm_num) mem

theorem toDecimalString_ne_nil (n : Nat) : toDecimalString n ≠ [] := by
  intro empty
  have := congrArg decimalValue empty
  rw [decimalValue_toDecimalString] at this
  -- only `0` could have no digits, and `0` is written `0`
  subst this
  exact absurd empty (by decide)

/-! ## Parsing what `formatAmount` writes -/

/-- The digits `formatAmount` writes: `to_string`, padded with zeros to more
than `numberOfDecimalPlaces` digits. -/
def paddedDigits (amount : UInt64) : List Char :=
  let s := toDecimalString amount.toNat
  if s.length < numberOfDecimalPlaces + 1 then List.replicate (numberOfDecimalPlaces + 1 - s.length) '0' ++ s else s

theorem paddedDigits_spec (amount : UInt64) :
    numberOfDecimalPlaces < (paddedDigits amount).length ∧ (∀ c ∈ paddedDigits amount, c.isDigit = true) ∧
      decimalValue (paddedDigits amount) = amount.toNat := by
  have digits : ∀ c ∈ toDecimalString amount.toNat, c.isDigit = true := fun _ => isDigit_of_mem_toDecimalString
  have nonempty := toDecimalString_ne_nil amount.toNat
  dsimp only [paddedDigits]
  split_ifs with short
  · refine ⟨by simp; omega, ?_, by rw [decimalValue_append, decimalValue_zeros, decimalValue_toDecimalString]; simp⟩
    intro c mem
    rcases List.mem_append.mp mem with zero | digit
    · rw [List.eq_of_mem_replicate zero]
      rfl
    · exact digits c digit
  · exact ⟨by omega, digits, decimalValue_toDecimalString _⟩

theorem formatAmount_eq (amount : UInt64) :
    formatAmount amount = (paddedDigits amount).take ((paddedDigits amount).length - numberOfDecimalPlaces) ++
      '.' :: (paddedDigits amount).drop ((paddedDigits amount).length - numberOfDecimalPlaces) := rfl

theorem trim_eq_self {s : List Char} (first : ∀ c, s.head? = some c → isSpace c = false)
    (last : ∀ c, s.getLast? = some c → isSpace c = false) : trim s = s := by
  have keepFront : s.dropWhile isSpace = s := by
    rw [List.dropWhile_eq_self_iff]
    intro positive
    rw [first _ (List.head?_eq_getElem? ▸ List.getElem?_eq_getElem positive)]
    decide
  have keepBack : s.reverse.dropWhile isSpace = s.reverse := by
    rw [List.dropWhile_eq_self_iff]
    intro positive
    have lastIs : s.getLast? = some s.reverse[0] := by
      rw [List.getLast?_eq_head?_reverse, List.head?_eq_getElem?, List.getElem?_eq_getElem positive]
    rw [last _ lastIs]
    decide
  rw [trim, keepFront, keepBack, List.reverse_reverse]

theorem isSpace_of_isDigit {c : Char} (digit : c.isDigit = true) : isSpace c = false := by
  simp only [Char.isDigit, Bool.and_eq_true, decide_eq_true_eq] at digit
  obtain ⟨low, -⟩ := digit
  simp only [isSpace, Bool.or_eq_false_iff, beq_eq_false_iff_ne]
  refine ⟨⟨⟨⟨⟨?_, ?_⟩, ?_⟩, ?_⟩, ?_⟩, ?_⟩ <;>
  · rintro rfl
    exact absurd low (by decide)

theorem trimFraction_of_le {fuel fractionSize : Nat} (s : List Char) (le : fractionSize ≤ numberOfDecimalPlaces) :
    trimFraction fuel s fractionSize = (s, fractionSize) := by
  cases fuel with
  | zero => rfl
  | succ fuel =>
    rw [trimFraction, if_neg (by omega)]

theorem parseAmount_formatAmount (amount : UInt64) : parseAmount (formatAmount amount) = some amount := by
  rw [formatAmount_eq]
  obtain ⟨long, digits, value⟩ := paddedDigits_spec amount
  set padded := paddedDigits amount
  set whole := padded.take (padded.length - numberOfDecimalPlaces)
  set fraction := padded.drop (padded.length - numberOfDecimalPlaces)
  have fractionLength : fraction.length = numberOfDecimalPlaces := by simp [fraction]; omega
  have wholeLength : whole.length = padded.length - numberOfDecimalPlaces := by simp [whole]
  have wholeDigits : ∀ c ∈ whole, c.isDigit = true := fun c mem => digits c (List.mem_of_mem_take mem)
  have fractionDigits : ∀ c ∈ fraction, c.isDigit = true := fun c mem => digits c (List.mem_of_mem_drop mem)
  have noPoint : ∀ c ∈ whole, (c == '.') = false := fun c mem => by
    have := wholeDigits c mem
    revert this
    simp only [Char.isDigit, Bool.and_eq_true, decide_eq_true_eq, beq_eq_false_iff_ne]
    rintro ⟨low, -⟩ rfl
    exact absurd low (by decide)
  -- the text starts with a digit and ends with one, so `trim` keeps it
  have trimmed : trim (whole ++ '.' :: fraction) = whole ++ '.' :: fraction := by
    have wholeNonempty : whole ≠ [] := by
      rw [← List.length_pos_iff, wholeLength]
      omega
    have fractionNonempty : fraction ≠ [] := by
      rw [← List.length_pos_iff, fractionLength]
      decide
    apply trim_eq_self
    · intro c first
      obtain ⟨d, rest, split⟩ := List.exists_cons_of_ne_nil wholeNonempty
      rw [split, List.cons_append, List.head?_cons, Option.some.injEq] at first
      exact isSpace_of_isDigit (wholeDigits c (first ▸ split ▸ List.mem_cons_self))
    · intro c lastIs
      have regroup : whole ++ '.' :: fraction = (whole ++ ['.']) ++ fraction := by simp
      rw [regroup, List.getLast?_append_of_ne_nil _ fractionNonempty] at lastIs
      exact isSpace_of_isDigit (fractionDigits c (List.mem_of_getLast? lastIs))
  have point : (whole ++ '.' :: fraction).findIdx? (· == '.') = some whole.length := by
    rw [List.findIdx?_append, List.findIdx?_eq_none_iff.mpr noPoint, List.findIdx?_cons]
    simp
  have sizes : (whole ++ '.' :: fraction).length - whole.length - 1 = numberOfDecimalPlaces := by
    simp [fractionLength]
  have erased : (whole ++ '.' :: fraction).eraseIdx whole.length = padded := by
    rw [List.eraseIdx_append_of_length_le le_rfl, Nat.sub_self, List.eraseIdx_cons_zero, List.take_append_drop]
  have nonempty : padded.isEmpty = false := by
    rw [List.isEmpty_eq_false_iff, ← List.length_pos_iff]
    omega
  rw [parseAmount]
  simp only [trimmed, point, sizes, trimFraction_of_le _ le_rfl, lt_irrefl, if_false, erased, nonempty,
    Bool.false_eq_true, List.all_eq_true.mpr digits, Bool.not_true]
  rw [fromString, value, if_pos amount.toNat_lt, UInt64.ofNat_toNat]

end Common

namespace CryptoNote

/-! ## The currency's methods -/

def Currency.formatAmount (_currency : Currency) (amount : UInt64) : List Char := Common.formatAmount amount

def Currency.formatAmountSigned (_currency : Currency) (amount : Int64) : List Char :=
  Common.formatAmountSigned amount

def Currency.parseAmount (_currency : Currency) (str : List Char) : Option UInt64 := Common.parseAmount str

/-- Whatever its `numberOfDecimalPlaces`, a currency writes one atomic unit as
`0.01` and refuses `0.00000001`, the one unit of a currency with eight places. -/
theorem parseAmount_ignoresDecimalPlaces (currency : Currency) :
    currency.parseAmount "0.00000001".toList = none ∧ currency.formatAmount 1 = "0.01".toList := by
  show Common.parseAmount _ = none ∧ Common.formatAmount 1 = _
  constructor <;> decide

end CryptoNote
