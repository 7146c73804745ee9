import CryptoNote.Common.IntUtil
import CryptoNote.Core.Serialization

/-! # Block reward and the block-size penalty

`getPenalizedAmount` (`CryptoNoteBasicImpl.cpp`) scales an amount by
`1 - ((c - m) / m)^2` when the block size `c` exceeds the median `m`: it forms
`amount * c * (2m - c)` with `mul128` and divides it twice by `m` with
`div128_32`.  `Currency::getBlockReward` (`Currency.cpp`) applies it to the base
reward and, from block version 2 on or when the coin version is 1, to the fee;
it fails only on a block larger than twice the median.  `size_t` is 64 bits.

Two quantities of the reward are computed in double precision and are given
here as they come out: `twoPercentOfEmission` and the premine share
`m_moneySupply*0.25`. -/
set_option autoImplicit false

namespace CryptoNote

open IntUtil

def TAIL_EMISSION_REWARD : UInt64 := 100
def CRYPTONOTE_BLOCK_GRANTED_FULL_REWARD_ZONE_V1 : UInt64 := 100000
def CRYPTONOTE_BLOCK_GRANTED_FULL_REWARD_ZONE_V2 : UInt64 := 1000000

def getPenalizedAmount (amount medianSize currentBlockSize : UInt64) : UInt64 :=
  if amount = 0 then 0
  else if currentBlockSize ≤ medianSize then amount
  else
    let multiplicand := 2 * medianSize - currentBlockSize
    let multiplicand := multiplicand * currentBlockSize
    let (productLo, productHi) := mul128 amount multiplicand
    let (_, penalizedAmountHi, penalizedAmountLo) := div128_32 productHi productLo medianSize.toUInt32
    let (_, _, penalizedAmountLo) := div128_32 penalizedAmountHi penalizedAmountLo medianSize.toUInt32
    penalizedAmountLo

/-- The members of `Currency` that the reward functions read.
`twoPercentOfEmission coins` is
`static_cast<uint64_t>(static_cast<double>(coins) / 100.0 * 2.0)` and
`premineReward` is `m_moneySupply*0.25` converted back to `uint64_t`. -/
structure EmissionParameters where
  moneySupply : UInt64
  emissionSpeedFactor : UInt64
  expectedNumberOfBlocksPerDay : UInt64
  blockGrantedFullRewardZone : UInt64
  cryptonoteCoinVersion : UInt64
  twoPercentOfEmission : UInt64 → UInt64
  premineReward : UInt64

namespace EmissionParameters

variable (currency : EmissionParameters)

/-- `Currency::calculateReward`: the emission curve, with the tail emission once
little is left to emit. -/
def calculateReward (alreadyGeneratedCoins : UInt64) : UInt64 :=
  let baseReward := (currency.moneySupply - alreadyGeneratedCoins) >>> currency.emissionSpeedFactor
  if alreadyGeneratedCoins + TAIL_EMISSION_REWARD ≥ currency.moneySupply ∨ baseReward < TAIL_EMISSION_REWARD then
    let blocksInOneYear := currency.expectedNumberOfBlocksPerDay * 365
    currency.twoPercentOfEmission alreadyGeneratedCoins / blocksInOneYear
  else baseReward

def blockGrantedFullRewardZoneByBlockVersion (blockMajorVersion : UInt8) : UInt64 :=
  if blockMajorVersion ≥ BLOCK_MAJOR_VERSION_3 then currency.blockGrantedFullRewardZone
  else if blockMajorVersion = BLOCK_MAJOR_VERSION_2 then CRYPTONOTE_BLOCK_GRANTED_FULL_REWARD_ZONE_V2
  else CRYPTONOTE_BLOCK_GRANTED_FULL_REWARD_ZONE_V1

/-- The base reward `getBlockReward` starts from: the emission curve, overridden
for the first two blocks (the premine), and nothing once the supply is reached. -/
def blockBaseReward (alreadyGeneratedCoins : UInt64) : UInt64 :=
  let baseReward := currency.calculateReward alreadyGeneratedCoins
  let baseReward := if alreadyGeneratedCoins = 0 then 1 else baseReward
  let baseReward := if alreadyGeneratedCoins = 1 then currency.premineReward else baseReward
  if alreadyGeneratedCoins + baseReward ≥ currency.moneySupply then 0 else baseReward

/-- `Currency::getBlockReward`: `some (reward, emissionChange)` where the source
returns `true`. -/
def getBlockReward (blockMajorVersion : UInt8) (medianSize currentBlockSize alreadyGeneratedCoins fee : UInt64) :
    Option (UInt64 × Int64) :=
  let baseReward := currency.blockBaseReward alreadyGeneratedCoins
  let blockGrantedFullRewardZone := currency.blockGrantedFullRewardZoneByBlockVersion blockMajorVersion
  let medianSize := max medianSize blockGrantedFullRewardZone
  if currentBlockSize > 2 * medianSize then none
  else
    let penalizedBaseReward := getPenalizedAmount baseReward medianSize currentBlockSize
    let penalizedFee :=
      if blockMajorVersion ≥ BLOCK_MAJOR_VERSION_2 then getPenalizedAmount fee medianSize currentBlockSize else fee
    let penalizedFee :=
      if currency.cryptonoteCoinVersion = 1 then getPenalizedAmount fee medianSize currentBlockSize else penalizedFee
    let emissionChange := (penalizedBaseReward - (fee - penalizedFee)).toInt64
    let reward := penalizedBaseReward + penalizedFee
    some (reward, emissionChange)

end EmissionParameters

/-! ## The penalty -/

/-- The penalty as a formula: none for nothing or up to the median, and the
factor `1 - ((c - m) / m)^2` beyond it, rounded down. -/
def quadraticPenalty (amount medianSize currentBlockSize : Nat) : Nat :=
  if amount = 0 ∨ currentBlockSize ≤ medianSize then amount
  else amount * currentBlockSize * (2 * medianSize - currentBlockSize) / medianSize ^ 2

theorem penaltyFactor_lt {medianSize currentBlockSize : Nat} (exceeds : medianSize < currentBlockSize)
    (within : currentBlockSize ≤ 2 * medianSize) :
    currentBlockSize * (2 * medianSize - currentBlockSize) < medianSize ^ 2 := by
  -- with c = m + e and m = e + r this is (m + e) * r < (e + r)^2, e > 0
  obtain ⟨excess, rfl⟩ : ∃ excess, currentBlockSize = medianSize + excess := ⟨_, (Nat.add_sub_cancel' exceeds.le).symm⟩
  obtain ⟨rest, rfl⟩ : ∃ rest, medianSize = excess + rest := ⟨medianSize - excess, by omega⟩
  rw [show 2 * (excess + rest) - (excess + rest + excess) = rest by omega]
  nlinarith

theorem quadraticPenalty_lt {amount medianSize currentBlockSize : Nat} (positive : 0 < amount)
    (exceeds : medianSize < currentBlockSize) (within : currentBlockSize ≤ 2 * medianSize) :
    quadraticPenalty amount medianSize currentBlockSize < amount := by
  have : 0 < medianSize := by omega
  rw [quadraticPenalty, if_neg (by omega), Nat.div_lt_iff_lt_mul (by positivity), Nat.mul_assoc]
  exact Nat.mul_lt_mul_of_pos_left (penaltyFactor_lt exceeds within) positive

theorem quadraticPenalty_le (amount medianSize currentBlockSize : Nat) (within : currentBlockSize ≤ 2 * medianSize) :
    quadraticPenalty amount medianSize currentBlockSize ≤ amount := by
  by_cases penalized : amount = 0 ∨ currentBlockSize ≤ medianSize
  · rw [quadraticPenalty, if_pos penalized]
  · exact (quadraticPenalty_lt (by omega) (by omega) within).le

theorem getPenalizedAmount_of_unpenalized {amount medianSize currentBlockSize : UInt64}
    (unpenalized : amount = 0 ∨ currentBlockSize ≤ medianSize) :
    getPenalizedAmount amount medianSize currentBlockSize = amount := by
  rcases unpenalized with zero | small
  · simp [getPenalizedAmount, zero]
  · by_cases zero : amount = 0 <;> simp [getPenalizedAmount, small, zero]

theorem penaltyMultiplicand_toNat {medianSize currentBlockSize : UInt64}
    (exceeds : medianSize.toNat < currentBlockSize.toNat) (within : currentBlockSize.toNat ≤ 2 * medianSize.toNat)
    (medianFits : medianSize.toNat < 2 ^ 32) :
    ((2 * medianSize - currentBlockSize) * currentBlockSize).toNat =
      currentBlockSize.toNat * (2 * medianSize.toNat - currentBlockSize.toNat) := by
  have factor := penaltyFactor_lt exceeds within
  have twice : (2 * medianSize).toNat = 2 * medianSize.toNat := by
    rw [UInt64.toNat_mul, show (2 : UInt64).toNat = 2 from rfl]
    omega
  have fits : medianSize.toNat ^ 2 < 2 ^ 64 := by
    calc medianSize.toNat ^ 2 < (2 ^ 32) ^ 2 := Nat.pow_lt_pow_left medianFits (by norm_num)
      _ = 2 ^ 64 := by norm_num
  rw [UInt64.toNat_mul, UInt64.toNat_sub_of_le _ _ (UInt64.le_iff_toNat_le.mpr (twice ▸ within)), twice,
    Nat.mul_comm, Nat.mod_eq_of_lt (by omega)]

theorem getPenalizedAmount_eq {amount medianSize currentBlockSize : UInt64}
    (within : currentBlockSize.toNat ≤ 2 * medianSize.toNat) (medianFits : medianSize.toNat < 2 ^ 32) :
    (getPenalizedAmount amount medianSize currentBlockSize).toNat =
      quadraticPenalty amount.toNat medianSize.toNat currentBlockSize.toNat := by
  by_cases unpenalized : amount = 0 ∨ currentBlockSize ≤ medianSize
  · rw [getPenalizedAmount_of_unpenalized unpenalized, quadraticPenalty, if_pos]
    rcases unpenalized with zero | small
    · exact .inl (by simp [zero])
    · exact .inr (UInt64.le_iff_toNat_le.mp small)
  obtain ⟨nonzero, exceeds⟩ := not_or.mp unpenalized
  have positive : 0 < amount.toNat := by
    rw [Nat.pos_iff_ne_zero, Ne, ← UInt64.toNat_zero, UInt64.toNat_inj]
    exact nonzero
  have exceeds' : medianSize.toNat < currentBlockSize.toNat := by
    have := mt UInt64.le_iff_toNat_le.mpr exceeds
    omega
  have divisor : medianSize.toUInt32.toNat = medianSize.toNat := by
    rw [UInt64.toNat_toUInt32]
    exact Nat.mod_eq_of_lt medianFits
  have divisorPositive : 0 < medianSize.toUInt32.toNat := by omega
  -- the product, then two divisions by the median
  rcases product : mul128 amount ((2 * medianSize - currentBlockSize) * currentBlockSize) with ⟨productLo, productHi⟩
  have productValue := product ▸ mul128_spec amount ((2 * medianSize - currentBlockSize) * currentBlockSize)
  rcases first : div128_32 productHi productLo medianSize.toUInt32 with ⟨remainder1, quotientHi, quotientLo⟩
  have firstValue := (first ▸ div128_32_spec productHi productLo divisorPositive).1
  rcases second : div128_32 quotientHi quotientLo medianSize.toUInt32 with ⟨remainder2, penalizedHi, penalizedLo⟩
  have secondValue := (second ▸ div128_32_spec quotientHi quotientLo divisorPositive).1
  dsimp only at productValue firstValue secondValue
  rw [penaltyMultiplicand_toNat exceeds' within medianFits] at productValue
  rw [firstValue, productValue, divisor, Nat.div_div_eq_div_mul] at secondValue
  -- the result is below the amount, so its high word is zero
  have penalty := quadraticPenalty_lt positive exceeds' within
  rw [quadraticPenalty, if_neg (by omega)] at penalty ⊢
  simp only [getPenalizedAmount, nonzero, exceeds, if_false, product, first, second]
  rw [show amount.toNat * currentBlockSize.toNat * (2 * medianSize.toNat - currentBlockSize.toNat) /
      medianSize.toNat ^ 2 = amount.toNat * (currentBlockSize.toNat * (2 * medianSize.toNat - currentBlockSize.toNat)) /
      (medianSize.toNat * medianSize.toNat) by rw [Nat.mul_assoc, sq]] at penalty ⊢
  have : amount.toNat < 2 ^ 64 := amount.toNat_lt_size
  omega

/-! ## The reward -/

theorem toInt_toInt64 (x : UInt64) : x.toInt64.toInt = (x.toNat : Int).bmod (2 ^ 64) := by
  show x.toBitVec.toInt = _
  rw [BitVec.toInt_eq_toNat_bmod]
  rfl

theorem toInt_emissionChange {penalizedBaseReward penalizedFee fee : UInt64}
    (feeBound : penalizedFee.toNat ≤ fee.toNat) (bounded : penalizedBaseReward.toNat + fee.toNat < 2 ^ 63) :
    (penalizedBaseReward - (fee - penalizedFee)).toInt64.toInt =
      (penalizedBaseReward.toNat + penalizedFee.toNat : Int) - fee.toNat := by
  have difference : (fee - penalizedFee).toNat = fee.toNat - penalizedFee.toNat :=
    UInt64.toNat_sub_of_le _ _ (UInt64.le_iff_toNat_le.mpr feeBound)
  rw [toInt_toInt64, UInt64.toNat_sub, difference]
  have : fee.toNat < 2 ^ 64 := fee.toNat_lt_size
  simp only [Int.bmod]
  split_ifs <;> omega
namespace EmissionParameters

theorem getBlockReward_eq (currency : EmissionParameters) {blockMajorVersion : UInt8}
    {medianSize currentBlockSize alreadyGeneratedCoins fee reward : UInt64} {emissionChange : Int64}
    (returned : currency.getBlockReward blockMajorVersion medianSize currentBlockSize alreadyGeneratedCoins fee =
      some (reward, emissionChange))
    (medianFits : (max medianSize (currency.blockGrantedFullRewardZoneByBlockVersion blockMajorVersion)).toNat < 2 ^ 32)
    (bounded : (currency.blockBaseReward alreadyGeneratedCoins).toNat + fee.toNat < 2 ^ 63) :
    let median := (max medianSize (currency.blockGrantedFullRewardZoneByBlockVersion blockMajorVersion)).toNat
    let penalizedBaseReward :=
      quadraticPenalty (currency.blockBaseReward alreadyGeneratedCoins).toNat median currentBlockSize.toNat
    let penalizedFee :=
      if blockMajorVersion ≥ BLOCK_MAJOR_VERSION_2 ∨ currency.cryptonoteCoinVersion = 1 then
        quadraticPenalty fee.toNat median currentBlockSize.toNat
      else fee.toNat
    currentBlockSize.toNat ≤ 2 * median ∧ penalizedBaseReward ≤ (currency.blockBaseReward alreadyGeneratedCoins).toNat ∧
      penalizedFee ≤ fee.toNat ∧ reward.toNat = penalizedBaseReward + penalizedFee ∧
      emissionChange.toInt = (reward.toNat : Int) - fee.toNat := by
  intro median penalizedBaseReward penalizedFee
  simp only [getBlockReward] at returned
  split at returned
  · cases returned
  rename_i fits
  have within : currentBlockSize.toNat ≤ 2 * median := by
    have twice : (2 * max medianSize (currency.blockGrantedFullRewardZoneByBlockVersion blockMajorVersion)).toNat =
        2 * median := by
      rw [UInt64.toNat_mul, show (2 : UInt64).toNat = 2 from rfl]
      omega
    have := mt UInt64.lt_iff_toNat_lt.mpr fits
    omega
  -- the two penalized amounts the source computes, as the formula gives them
  have baseValue : (getPenalizedAmount (currency.blockBaseReward alreadyGeneratedCoins)
      (max medianSize (currency.blockGrantedFullRewardZoneByBlockVersion blockMajorVersion)) currentBlockSize).toNat =
      penalizedBaseReward :=
    getPenalizedAmount_eq within medianFits
  have feeValue : (if currency.cryptonoteCoinVersion = 1 then
        getPenalizedAmount fee (max medianSize (currency.blockGrantedFullRewardZoneByBlockVersion blockMajorVersion))
          currentBlockSize
      else if blockMajorVersion ≥ BLOCK_MAJOR_VERSION_2 then
        getPenalizedAmount fee (max medianSize (currency.blockGrantedFullRewardZoneByBlockVersion blockMajorVersion))
          currentBlockSize
      else fee).toNat = penalizedFee := by
    simp only [penalizedFee]
    by_cases coin : currency.cryptonoteCoinVersion = 1 <;> by_cases version : blockMajorVersion ≥ BLOCK_MAJOR_VERSION_2 <;>
      simp [coin, version, getPenalizedAmount_eq within medianFits, median]
  have baseBound : penalizedBaseReward ≤ (currency.blockBaseReward alreadyGeneratedCoins).toNat :=
    quadraticPenalty_le _ _ _ within
  have feeBound : penalizedFee ≤ fee.toNat := by
    simp only [penalizedFee]
    split_ifs
    · exact quadraticPenalty_le _ _ _ within
    · exact le_rfl
  generalize (if currency.cryptonoteCoinVersion = 1 then _ else _ : UInt64) = penalizedFeeWord at returned feeValue
  generalize getPenalizedAmount _ _ _ = penalizedBaseRewardWord at returned baseValue
  obtain ⟨rfl, rfl⟩ := Prod.mk.inj (Option.some.inj returned)
  -- no wraparound: both penalized amounts together stay below 2^63
  have sum : (penalizedBaseRewardWord + penalizedFeeWord).toNat = penalizedBaseReward + penalizedFee := by
    rw [UInt64.toNat_add, baseValue, feeValue, Nat.mod_eq_of_lt (by omega)]
  refine ⟨within, baseBound, feeBound, sum, ?_⟩
  rw [toInt_emissionChange (by omega) (by omega), sum, baseValue, feeValue]
  push_cast
  ring
end EmissionParameters

/-- `CurrencyBuilder`'s defaults from `CryptoNoteConfig.h`.  The premine share
`12000000000 * 0.25` is exact in double precision; the two per cent of the
emission is taken at its exact value, which the double computation can miss by
one unit. -/
def defaultEmission : EmissionParameters where
  moneySupply := 12000000000
  emissionSpeedFactor := 21
  expectedNumberOfBlocksPerDay := 24 * 60 * 60 / 60
  blockGrantedFullRewardZone := 1000000
  cryptonoteCoinVersion := 1
  twoPercentOfEmission coins := coins / 50
  premineReward := 3000000000

/-- The penalty is the quadratic formula, below the amount whenever it applies;
and a successful `getBlockReward` adds the penalized base reward and fee without
wrapping and reports their difference from the fee as the emission change, for
base rewards and fees below `2^63` together. -/
theorem penalizedReward_exact (currency : EmissionParameters) :
    (∀ amount medianSize currentBlockSize : UInt64, currentBlockSize.toNat ≤ 2 * medianSize.toNat →
      medianSize.toNat < 2 ^ 32 →
      (getPenalizedAmount amount medianSize currentBlockSize).toNat =
          quadraticPenalty amount.toNat medianSize.toNat currentBlockSize.toNat ∧
        (amount ≠ 0 → medianSize < currentBlockSize →
          (getPenalizedAmount amount medianSize currentBlockSize).toNat < amount.toNat)) ∧
    (∀ (blockMajorVersion : UInt8) (medianSize currentBlockSize alreadyGeneratedCoins fee reward : UInt64)
      (emissionChange : Int64),
      currency.getBlockReward blockMajorVersion medianSize currentBlockSize alreadyGeneratedCoins fee =
        some (reward, emissionChange) →
      (max medianSize (currency.blockGrantedFullRewardZoneByBlockVersion blockMajorVersion)).toNat < 2 ^ 32 →
      (currency.blockBaseReward alreadyGeneratedCoins).toNat + fee.toNat < 2 ^ 63 →
      let median := (max medianSize (currency.blockGrantedFullRewardZoneByBlockVersion blockMajorVersion)).toNat
      let penalizedBaseReward :=
        quadraticPenalty (currency.blockBaseReward alreadyGeneratedCoins).toNat median currentBlockSize.toNat
      let penalizedFee :=
        if blockMajorVersion ≥ BLOCK_MAJOR_VERSION_2 ∨ currency.cryptonoteCoinVersion = 1 then
          quadraticPenalty fee.toNat median currentBlockSize.toNat
        else fee.toNat
      currentBlockSize.toNat ≤ 2 * median ∧
        penalizedBaseReward ≤ (currency.blockBaseReward alreadyGeneratedCoins).toNat ∧
        penalizedFee ≤ fee.toNat ∧ reward.toNat = penalizedBaseReward + penalizedFee ∧
        emissionChange.toInt = (reward.toNat : Int) - fee.toNat) := by
  refine ⟨fun amount medianSize currentBlockSize within medianFits => ⟨getPenalizedAmount_eq within medianFits,
    fun nonzero exceeds => ?_⟩, fun _ _ _ _ _ _ _ returned medianFits bounded =>
      currency.getBlockReward_eq returned medianFits bounded⟩
  have positive : 0 < amount.toNat := by
    rw [Nat.pos_iff_ne_zero, Ne, ← UInt64.toNat_zero, UInt64.toNat_inj]
    exact nonzero
  rw [getPenalizedAmount_eq within medianFits]
  exact quadraticPenalty_lt positive (UInt64.lt_iff_toNat_lt.mp exceeds) within

theorem penalizedReward_default :
    (4366 : UInt64).toNat = quadraticPenalty 5722 1000000 1500000 + quadraticPenalty 100 1000000 1500000 ∧
      (4266 : Int64).toInt = (4366 : UInt64).toNat - (100 : UInt64).toNat := by
  obtain ⟨-, -, -, reward, emission⟩ := (penalizedReward_exact defaultEmission).2 BLOCK_MAJOR_VERSION_5 1000000 1500000
    2 100 4366 4266 (by decide) (by decide) (by decide)
  exact ⟨reward.trans (by decide), emission⟩

/-- In the first block the base reward is 1; a fee of `2^64 - 1` in a block within
the median is not penalized, and the reward wraps around to 0. -/
theorem getBlockReward_feeWraps :
    defaultEmission.getBlockReward BLOCK_MAJOR_VERSION_5 1000000 1000 0 0xFFFFFFFFFFFFFFFF = some (0, 1) ∧
      quadraticPenalty (defaultEmission.blockBaseReward 0).toNat 1000000 1000 +
        quadraticPenalty (0xFFFFFFFFFFFFFFFF : UInt64).toNat 1000000 1000 = 2 ^ 64 := by
  decide

end CryptoNote
