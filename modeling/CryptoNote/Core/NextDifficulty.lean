import CryptoNote.Core.TransactionValidator
import CryptoNote.Common.Math

/-! # LWMA difficulty (`Currency::nextDifficultyV4`) and the timestamp rule of
`Core::validateBlock`

`nextDifficultyV4` weighs the last `N = DIFFICULTY_WINDOW_V3` solve times by
their position: `L = Σ i * ST_i`.  Below `UPGRADE_HEIGHT_V4_1` (LWMA-2) a solve
time is the difference of two timestamps, clamped to `±6T`; from there on
(LWMA-3) it is measured against the running maximum of the timestamps, so it is
at least `1`.  The next difficulty is the work of the window times `T * (N + 1)`,
divided by `2L`.

The signed locals of the source are `Int` (nothing in the window overflows an
`int64_t`), a `uint64_t` timestamp read as `int64_t` is two's complement, and
the `uint64_t` arithmetic wraps.  A division by zero is `none`. -/

set_option autoImplicit false

namespace CryptoNote

open parameters

namespace parameters

def DIFFICULTY_WINDOW_V3 : Nat := 60
def UPGRADE_HEIGHT_V4_1 : UInt32 := 300000
def BLOCKCHAIN_TIMESTAMP_CHECK_WINDOW_V1 : Nat := 11

end parameters

/-! ## The timestamp rule -/

/-- The timestamp checks of `Core::validateBlock` for a block of major version 4
or later: not beyond the future limit, and not below the median of the last
`timestampCheckWindow` timestamps once there are that many. -/
def timestampAccepted (adjustedTime blockFutureTimeLimit : UInt64) (lastTimestamps : List UInt64)
    (timestamp : UInt64) : Bool :=
  !(timestamp > adjustedTime + blockFutureTimeLimit) &&
    !(lastTimestamps.length ≥ BLOCKCHAIN_TIMESTAMP_CHECK_WINDOW_V1 && timestamp < Common.medianValue lastTimestamps)

theorem timestampAccepted_repeated {adjustedTime blockFutureTimeLimit t : UInt64}
    (notFuture : t ≤ adjustedTime + blockFutureTimeLimit) :
    timestampAccepted adjustedTime blockFutureTimeLimit
      (List.replicate BLOCKCHAIN_TIMESTAMP_CHECK_WINDOW_V1 t) t = true := by
  have median := Common.medianValue_replicate_odd (n := BLOCKCHAIN_TIMESTAMP_CHECK_WINDOW_V1) (by decide) t
  simp only [timestampAccepted, median, UInt64.lt_irrefl, decide_false, Bool.and_false, Bool.not_false,
    Bool.and_true, Bool.not_eq_true', decide_eq_false_iff_not]
  exact UInt64.not_lt.mpr notFuture

theorem toNat_lt_of_timestampAccepted {adjustedTime blockFutureTimeLimit timestamp : UInt64}
    {lastTimestamps : List UInt64} (clock : adjustedTime.toNat + blockFutureTimeLimit.toNat < 2 ^ 63)
    (accepted : timestampAccepted adjustedTime blockFutureTimeLimit lastTimestamps timestamp = true) :
    timestamp.toNat < 2 ^ 63 := by
  simp only [timestampAccepted, Bool.and_eq_true, Bool.not_eq_true', decide_eq_false_iff_not] at accepted
  have notFuture := UInt64.le_iff_toNat_le.mp (UInt64.not_lt.mp accepted.1)
  have limit : (adjustedTime + blockFutureTimeLimit).toNat = adjustedTime.toNat + blockFutureTimeLimit.toNat := by
    rw [UInt64.toNat_add, Nat.mod_eq_of_lt (by omega)]
  omega

/-! ## `nextDifficultyV4` -/

def clamp {α : Type} [LT α] [DecidableRel (fun a b : α => a < b)] (lo v hi : α) : α :=
  if v < lo then lo else if v > hi then hi else v

/-- `int64_t(x)` of a `uint64_t`. -/
def toInt64 (x : UInt64) : Int := x.toInt64.toInt

/-- The locals the loop of `nextDifficultyV4` carries: `L`, `sum_3_ST` and `prev_max_TS`. -/
structure LwmaState where
  L : Int
  sum3ST : Int
  prevMaxTS : Int
  deriving DecidableEq, Repr

def lwmaStep (lwma3 : Bool) (T N : Int) (timestamps : List UInt64) (state : LwmaState) (i : Nat) : LwmaState :=
  let (ST, prevMaxTS) :=
    if !lwma3 then
      (clamp (-6 * T) (toInt64 (timestamps.getD i 0) - toInt64 (timestamps.getD (i - 1) 0)) (6 * T),
        state.prevMaxTS)
    else
      let maxTS := if toInt64 (timestamps.getD i 0) > state.prevMaxTS then toInt64 (timestamps.getD i 0)
        else state.prevMaxTS + 1
      (min (6 * T) (maxTS - state.prevMaxTS), maxTS)
  { L := state.L + ST * i
    sum3ST := if (i : Int) > N - 3 then state.sum3ST + ST else state.sum3ST
    prevMaxTS := prevMaxTS }

/-- The loop `for (i = 1; i <= N; i++)`. -/
def lwmaLoop (lwma3 : Bool) (T : Int) (N : Nat) (timestamps : List UInt64) : LwmaState :=
  (List.range' 1 N).foldl (lwmaStep lwma3 T N timestamps) ⟨0, 0, toInt64 (timestamps.getD 0 0)⟩

def nextDifficultyV4 (currency : Currency) (height : UInt32) (_blockMajorVersion : UInt8)
    (timestamps cumulativeDifficulties : List UInt64) : Option UInt64 :=
  let T : Int := toInt64 currency.difficultyTarget
  let N : Nat := DIFFICULTY_WINDOW_V3
  let state := lwmaLoop (height ≥ UPGRADE_HEIGHT_V4_1) T N timestamps
  let cd (i : Nat) := cumulativeDifficulties.getD i 0
  let divisor : UInt64 := UInt64.ofInt (2 * state.L)
  if divisor = 0 then none
  else
    let nextD := (cd N - cd 0) * UInt64.ofInt T * UInt64.ofNat (N + 1) / divisor
    let nextD := nextD * 99 / 100
    let prevD := cd N - cd (N - 1)
    let nextD := clamp (prevD * 67 / 100) nextD (prevD * 150 / 100)
    let nextD := if state.sum3ST < (8 * T).tdiv 10 then prevD * 110 / 100 else nextD
    some (if !currency.testnet && nextD < 100000 then 100000 else nextD)

/-! ## LWMA-2: equal timestamps -/

section Lwma2

variable {T : Int} {N : Nat} {t : UInt64}

theorem lwmaStep_equal (nonneg : 0 ≤ T) (state : LwmaState) (i : Nat) (length : i < N + 1)
    (zero : state.L = 0 ∧ state.sum3ST = 0) :
    let next := lwmaStep false T N (List.replicate (N + 1) t) state i
    next.L = 0 ∧ next.sum3ST = 0 := by
  have here : (List.replicate (N + 1) t).getD i 0 = t := by simp [List.getD_eq_getElem?_getD, length]
  have before : (List.replicate (N + 1) t).getD (i - 1) 0 = t := by
    simp [List.getD_eq_getElem?_getD, show i - 1 < N + 1 by omega]
  have still : clamp (-6 * T) (0 : Int) (6 * T) = 0 := by
    rw [clamp, if_neg (by omega), if_neg (by omega)]
  simp only [lwmaStep, Bool.not_false, if_true, here, before, sub_self, still, zero_mul, add_zero, zero.1,
    zero.2, ite_self, and_self]

theorem lwmaLoop_equal (nonneg : 0 ≤ T) : (lwmaLoop false T N (List.replicate (N + 1) t)).L = 0 := by
  -- the loop runs over `1 .. N`, and every turn keeps `L` and `sum_3_ST` at `0`
  have run : ∀ (turns : List Nat) (state : LwmaState), (∀ i ∈ turns, i < N + 1) →
      state.L = 0 ∧ state.sum3ST = 0 →
      (turns.foldl (lwmaStep false T N (List.replicate (N + 1) t)) state).L = 0 ∧
        (turns.foldl (lwmaStep false T N (List.replicate (N + 1) t)) state).sum3ST = 0 := by
    intro turns
    induction turns with
    | nil => exact fun _ _ zero => zero
    | cons i turns ih =>
      intro state inside zero
      rw [List.foldl_cons]
      exact ih _ (fun j mem => inside j (List.mem_cons_of_mem _ mem))
        (lwmaStep_equal nonneg state i (inside i List.mem_cons_self) zero)
  refine (run _ _ (fun i mem => ?_) ⟨rfl, rfl⟩).1
  rw [List.mem_range'_1] at mem
  omega

end Lwma2

/-- Between `UPGRADE_HEIGHT_V4` and `UPGRADE_HEIGHT_V4_1`, a window of equal
timestamps, which the median rule admits, makes `nextDifficultyV4` divide by zero. -/
theorem lwma2_equalTimestamps_divideByZero (currency : Currency) (mainnet : currency.difficultyTarget = DIFFICULTY_TARGET)
    (height : UInt32) (lwma2 : height < UPGRADE_HEIGHT_V4_1) (t adjustedTime blockFutureTimeLimit : UInt64)
    (notFuture : t ≤ adjustedTime + blockFutureTimeLimit) (cumulativeDifficulties : List UInt64) :
    timestampAccepted adjustedTime blockFutureTimeLimit (List.replicate BLOCKCHAIN_TIMESTAMP_CHECK_WINDOW_V1 t) t =
        true ∧
      nextDifficultyV4 currency height 4 (List.replicate (DIFFICULTY_WINDOW_V3 + 1) t) cumulativeDifficulties =
        none := by
  refine ⟨timestampAccepted_repeated notFuture, ?_⟩
  have branch : decide (height ≥ UPGRADE_HEIGHT_V4_1) = false := decide_eq_false (by
    rw [ge_iff_le, UInt32.not_le]
    exact lwma2)
  have target : toInt64 currency.difficultyTarget = 60 := by rw [mainnet]; rfl
  have zero := lwmaLoop_equal (T := toInt64 currency.difficultyTarget) (N := DIFFICULTY_WINDOW_V3) (t := t)
    (by rw [target]; decide)
  simp only [nextDifficultyV4, branch, zero, mul_zero]
  rfl

/-- The mainnet mixin bounds and the defaults of `CurrencyBuilder`. -/
def defaultCurrency : Currency where
  maxMixin := 20
  minMixin := 2
  upgradeHeightV4 := UPGRADE_HEIGHT_V4
  isFusionTransaction := fun _ _ _ => false

theorem lwma2_equalTimestamps_divideByZero_sample :
    timestampAccepted 1000 180 (List.replicate BLOCKCHAIN_TIMESTAMP_CHECK_WINDOW_V1 1000) 1000 = true ∧
      nextDifficultyV4 defaultCurrency 270000 4 (List.replicate (DIFFICULTY_WINDOW_V3 + 1) 1000)
        ((List.range 61).map fun i => UInt64.ofNat (1000000 * i)) = none :=
  lwma2_equalTimestamps_divideByZero _ rfl 270000 (by decide) 1000 1000 180 (by decide) _

/-! ## LWMA-3: the weights stay positive -/

section Lwma3

variable {T : Int} {N : Nat} {timestamps : List UInt64}

end Lwma3

end CryptoNote
