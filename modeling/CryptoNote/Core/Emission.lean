import CryptoNote.Core.BlockReward
import CryptoNote.Core.TransactionExtra
import CryptoNote.Common.Math
import CryptoNote.Core.TransactionValidator
import CryptoNote.Core.NextDifficulty

/-! # Emission along the chain

`Core::addBlock` checks a block's reward: `validateBlock` sums the coinbase
outputs, `Currency::getBlockReward` computes the reward from the median of the
last `rewardBlocksWindow` block sizes, the block's cumulative size, its fees and
the coins generated up to its parent, and the two must agree.  `pushBlock` then
stores `alreadyGeneratedCoins` of the parent plus the `int64_t` emission change,
passed as `uint64_t` and added in `uint64_t`, and the block size cast to
`uint32_t`.  The root segment starts with the genesis block, whose coinbase
`Currency::generateGenesisBlock` reads from `GENESIS_COINBASE_TX_HEX`.

The chain here is the main chain read block by block, its sizes window being
what `getLastBlocksSizes` returns over the segments (`segmentWindows_eq`).  The
accumulator is `uint64_t`: a negative emission change is added as its two's
complement.

For a currency whose parameters keep the supply checks of `getBlockReward` from
wrapping (`SoundEmission`), and blocks whose fees are covered by the coins
generated before them, the accumulator stays below the money supply and is the
exact sum of the emission changes (`alreadyGeneratedCoins_lt_moneySupply`).

The median of the sizes, like the median of the timestamps `validateBlock`
compares a block's timestamp with, never meets the wrap of
`Common::medianValue` (`medianValue_exact`). -/

set_option autoImplicit false

namespace Common

/-- `fromHex(text, data)` into a `std::vector<uint8_t>`: `false` on an odd length
or on a character that is not a hexadecimal digit. -/
def fromHexVector (text : List UInt8) : Option (List UInt8) :=
  if text.length % 2 ≠ 0 then none else fromHexLoop text

end Common

namespace CryptoNote

def GENESIS_COINBASE_TX_HEX : String :=
  "010a01ff000101029b2e4c0281c0b02e7c53291a94d1d0cbff8883f8024f5142ee494ffbbd0880712101555d71857e96f53fd26e39b682ce32b89d6f78fe7a8e6cbd5d6d20129dc5e216"

/-- The coinbase of the genesis block, as `Currency::generateGenesisBlock` reads
it; `none` where that fails. -/
def genesisBaseTransaction : Option Transaction := do
  let minerTxBlob ← Common.fromHexVector (GENESIS_COINBASE_TX_HEX.toList.map Char.toUInt8)
  (Transaction.fromBinaryArray minerTxBlob).toOption

/-- The fields of `CachedBlockInfo` that the reward check reads and `pushBlock`
writes. -/
structure EmissionInfo where
  blockSize : UInt32
  alreadyGeneratedCoins : UInt64
  deriving DecidableEq, Repr, Inhabited

/-- The genesis block as the `BlockchainCache` constructor pushes it: its
coinbase's outputs summed in `uint64_t`, and the coinbase's size. -/
def genesisEmissionInfo (baseTransaction : Transaction) : Option EmissionInfo := do
  let coinbase ← baseTransaction.toBinaryArray.toOption
  pure { blockSize := coinbase.length.toUInt32,
         alreadyGeneratedCoins := (baseTransaction.outputs.map (·.amount)).foldl (· + ·) 0 }

theorem genesisEmissionInfo_eq :
    genesisBaseTransaction.bind genesisEmissionInfo = some { blockSize := 74, alreadyGeneratedCoins := 1 } := by
  decide +kernel

/-- What `Core::addBlock` reads of a block for its reward check: the version,
the amounts of the coinbase outputs, the cumulative size of the coinbase and
the transactions, and the sum of the transactions' fees. -/
structure RewardedBlock where
  majorVersion : UInt8
  baseOutputAmounts : List UInt64
  cumulativeBlockSize : UInt64
  cumulativeFee : UInt64
  deriving DecidableEq, Repr

/-- The errors of the reward check: those of `validateBlock`'s output loop, and
the two of `addBlock` itself. -/
inductive AddBlockRewardError where
  | transaction (error : TransactionValidationError)
  | CUMULATIVE_BLOCK_SIZE_TOO_BIG
  | BLOCK_REWARD_MISMATCH
  deriving DecidableEq, Repr

/-- The amounts of `Core::validateBlock`'s loop over the coinbase outputs: a zero
amount is refused, and so is a sum past `2^64 - 1`. -/
def sumMinerReward : List UInt64 → UInt64 → Except TransactionValidationError UInt64
  | [], minerReward => pure minerReward
  | amount :: amounts, minerReward =>
    if amount = 0 then throw .OUTPUT_ZERO_AMOUNT
    else if 0xFFFFFFFFFFFFFFFF - amount < minerReward then throw .OUTPUTS_AMOUNT_OVERFLOW
    else sumMinerReward amounts (minerReward + amount)

/-- `getLastBlocksSizes(count, top, addGenesisBlock)`: the sizes of the last
`count` blocks, the genesis block included. -/
def lastBlocksSizes (count : Nat) (chain : List EmissionInfo) : List UInt64 :=
  (chain.drop (chain.length - count)).map (·.blockSize.toUInt64)

/-- The reward check of `Core::addBlock` for a block on top of `chain`, and the
block information `pushBlock` stores for it. -/
def addBlockReward (currency : EmissionParameters) (rewardBlocksWindow : Nat) (chain : List EmissionInfo)
    (block : RewardedBlock) : Except AddBlockRewardError EmissionInfo := do
  let minerReward ← (sumMinerReward block.baseOutputAmounts 0).mapError .transaction
  let alreadyGeneratedCoins := (chain.getLastD default).alreadyGeneratedCoins
  let blocksSizeMedian := Common.medianValue (lastBlocksSizes rewardBlocksWindow chain)
  match currency.getBlockReward block.majorVersion blocksSizeMedian block.cumulativeBlockSize alreadyGeneratedCoins
      block.cumulativeFee with
  | none => throw .CUMULATIVE_BLOCK_SIZE_TOO_BIG
  | some (reward, emissionChange) =>
    if minerReward ≠ reward then throw .BLOCK_REWARD_MISMATCH
    else pure { blockSize := block.cumulativeBlockSize.toUInt32,
                alreadyGeneratedCoins := alreadyGeneratedCoins + emissionChange.toUInt64 }

/-- Blocks added one after another on top of the main chain, each accepted. -/
def addBlocks (currency : EmissionParameters) (rewardBlocksWindow : Nat) :
    List EmissionInfo → List RewardedBlock → Except AddBlockRewardError (List EmissionInfo)
  | chain, [] => pure chain
  | chain, block :: blocks => do
    let info ← addBlockReward currency rewardBlocksWindow chain block
    addBlocks currency rewardBlocksWindow (chain ++ [info]) blocks

/-! ## One block -/

theorem sumMinerReward_ok : ∀ (amounts : List UInt64) (minerReward total : UInt64),
    sumMinerReward amounts minerReward = .ok total →
      total.toNat = minerReward.toNat + (amounts.map UInt64.toNat).sum
  | [], minerReward, total, summed => by
    cases summed
    simp
  | amount :: amounts, minerReward, total, summed => by
    unfold sumMinerReward at summed
    split at summed
    · cases summed
    split at summed
    · cases summed
    next fits =>
      -- the check leaves room for the amount below `2^64`
      have room : minerReward.toNat + amount.toNat < 2 ^ 64 := by
        have bound : amount.toNat < 2 ^ 64 := amount.toNat_lt
        have top : (0xFFFFFFFFFFFFFFFF : UInt64).toNat = 2 ^ 64 - 1 := rfl
        have le : amount ≤ 0xFFFFFFFFFFFFFFFF := UInt64.le_iff_toNat_le.mpr (by rw [top]; omega)
        have := UInt64.lt_iff_toNat_lt.not.mp fits
        rw [UInt64.toNat_sub_of_le _ _ le, top] at this
        omega
      rw [sumMinerReward_ok amounts _ total summed, UInt64.toNat_add, Nat.mod_eq_of_lt room]
      simp only [List.map_cons, List.sum_cons]
      omega

theorem addBlockReward_ok {currency : EmissionParameters} {rewardBlocksWindow : Nat} {chain : List EmissionInfo}
    {block : RewardedBlock} {info : EmissionInfo}
    (added : addBlockReward currency rewardBlocksWindow chain block = .ok info) :
    ∃ reward emissionChange, sumMinerReward block.baseOutputAmounts 0 = .ok reward ∧
      currency.getBlockReward block.majorVersion (Common.medianValue (lastBlocksSizes rewardBlocksWindow chain))
          block.cumulativeBlockSize (chain.getLastD default).alreadyGeneratedCoins block.cumulativeFee =
        some (reward, emissionChange) ∧
      info = { blockSize := block.cumulativeBlockSize.toUInt32,
               alreadyGeneratedCoins := (chain.getLastD default).alreadyGeneratedCoins + emissionChange.toUInt64 } := by
  unfold addBlockReward at added
  cases summed : sumMinerReward block.baseOutputAmounts 0 with
  | error e =>
    rw [summed] at added
    cases added
  | ok minerReward =>
    rw [summed] at added
    simp only [Except.mapError, bind, Except.bind] at added
    split at added
    · cases added
    next reward emissionChange returned =>
      split at added
      · cases added
      next same =>
        cases added
        exact ⟨reward, emissionChange, by rw [not_not.mp same], returned, rfl⟩

theorem getLastD_take_succ {α : Type} (l : List α) (d : α) {i : Nat} (inside : i < l.length) :
    (l.take (i + 1)).getLastD d = l.getD i d := by
  rw [List.getLastD_eq_getLast?, List.getLast?_take, if_neg (by omega), Nat.add_sub_cancel,
    List.getElem?_eq_getElem inside, Option.some_or, Option.getD_some, List.getD_eq_getElem _ _ inside]

theorem addBlocks_ok {currency : EmissionParameters} {rewardBlocksWindow : Nat} :
    ∀ (blocks : List RewardedBlock) (chain result : List EmissionInfo),
      addBlocks currency rewardBlocksWindow chain blocks = .ok result →
      result.length = chain.length + blocks.length ∧ result.take chain.length = chain ∧
        ∀ i (inside : i < blocks.length),
          addBlockReward currency rewardBlocksWindow (result.take (chain.length + i)) blocks[i] =
            .ok (result.getD (chain.length + i) default)
  | [], chain, result, ran => by
    cases ran
    simp
  | block :: blocks, chain, result, ran => by
    simp only [addBlocks, bind, Except.bind] at ran
    split at ran
    · cases ran
    next info added =>
      obtain ⟨length, front, later⟩ := addBlocks_ok blocks (chain ++ [info]) result ran
      rw [List.length_append, List.length_singleton] at length front later
      -- the new block sits right after the chain it was added to
      have before : result.take chain.length = chain := by
        rw [← Nat.min_eq_left (Nat.le_succ chain.length), ← List.take_take, front, List.take_left']
        rfl
      have here : result.getD chain.length default = info := by
        rw [← getLastD_take_succ result default (by omega), front, List.getLastD_concat]
      refine ⟨by simp only [List.length_cons]; omega, before, fun i inside => ?_⟩
      cases i with
      | zero => rw [Nat.add_zero, before, here, ← added]; rfl
      | succ j =>
        rw [← Nat.add_assoc, Nat.add_right_comm]
        exact later j (by simpa using inside)


theorem toNat_toUInt64 (x : Int64) : (x.toUInt64.toNat : Int) = x.toInt % 2 ^ 64 := by
  have size : x.toUInt64.toNat < 2 ^ 64 := x.toUInt64.toNat_lt
  rw [← Int64.toInt_toBitVec, BitVec.toInt_eq_toNat_bmod, show ((2 : Int) ^ 64) = ((2 ^ 64 : Nat) : Int) by norm_cast,
    Int.bmod_emod, ← Int64.toBitVec_toUInt64, UInt64.toNat_toBitVec, Int.emod_eq_of_lt (by omega) (by omega)]

theorem toNat_accumulate (coins : UInt64) (change : Int64) (nonneg : 0 ≤ coins.toNat + change.toInt)
    (fits : coins.toNat + change.toInt < 2 ^ 64) :
    ((coins + change.toUInt64).toNat : Int) = coins.toNat + change.toInt := by
  rw [UInt64.toNat_add, Int.natCast_mod, Nat.cast_add, toNat_toUInt64 change, Nat.cast_pow, Nat.cast_ofNat,
    Int.add_emod_emod, Int.emod_eq_of_lt nonneg fits]

/-! ## Currencies whose supply checks do not wrap -/

/-- A currency whose parameters keep the supply checks of `getBlockReward` from
wrapping: a supply of at most `2^63`, two per cent of the emission at most the
coins it is taken of (the double computation of `calculateReward` has that),
a premine within the supply, and a full-reward zone within the `uint32_t` that
`getPenalizedAmount` casts the median to. -/
structure SoundEmission extends EmissionParameters where
  rewardBlocksWindow : Nat
  moneySupply_le : moneySupply.toNat ≤ 2 ^ 63
  twoPercentOfEmission_le : ∀ coins, (twoPercentOfEmission coins).toNat ≤ coins.toNat
  premineReward_le : premineReward.toNat ≤ moneySupply.toNat
  blockGrantedFullRewardZone_lt : blockGrantedFullRewardZone.toNat < 2 ^ 32

namespace SoundEmission

variable (currency : SoundEmission)

theorem calculateReward_fits {coins : UInt64} (below : coins.toNat < currency.moneySupply.toNat) :
    coins.toNat + (currency.calculateReward coins).toNat < 2 ^ 64 := by
  have supply := currency.moneySupply_le
  simp only [EmissionParameters.calculateReward]
  split
  · -- the tail: two per cent of the coins, spread over a year of blocks
    have share := currency.twoPercentOfEmission_le coins
    have spread := Nat.div_le_self (currency.twoPercentOfEmission coins).toNat
      (currency.expectedNumberOfBlocksPerDay * 365).toNat
    rw [UInt64.toNat_div]
    omega
  · -- the curve: a fraction of what is left of the supply
    have left : (currency.moneySupply - coins).toNat = currency.moneySupply.toNat - coins.toNat :=
      UInt64.toNat_sub_of_le _ _ (UInt64.le_iff_toNat_le.mpr below.le)
    have shifted := Nat.shiftRight_le (currency.moneySupply - coins).toNat (currency.emissionSpeedFactor.toNat % 64)
    rw [UInt64.toNat_shiftRight]
    omega

theorem blockBaseReward_bounded {coins : UInt64} (below : coins.toNat < currency.moneySupply.toNat) :
    (currency.blockBaseReward coins).toNat = 0 ∨
      coins.toNat + (currency.blockBaseReward coins).toNat < currency.moneySupply.toNat := by
  simp only [EmissionParameters.blockBaseReward]
  generalize preGuard : (if coins = 1 then currency.premineReward
    else if coins = 0 then 1 else currency.calculateReward coins) = baseReward
  have fits : coins.toNat + baseReward.toNat < 2 ^ 64 := by
    have supply := currency.moneySupply_le
    rw [← preGuard]
    split_ifs with premine genesis
    · have := currency.premineReward_le
      omega
    · rw [genesis]
      decide
    · exact currency.calculateReward_fits below
  split_ifs with reached
  · exact .inl rfl
  · right
    have := UInt64.le_iff_toNat_le.not.mp reached
    rw [UInt64.toNat_add, Nat.mod_eq_of_lt fits] at this
    omega

theorem medianValue_lt_of_small {v : List UInt64} (small : ∀ x ∈ v, x.toNat < 2 ^ 32) :
    (Common.medianValue v).toNat < 2 ^ 32 := by
  by_cases empty : v = []
  · subst empty
    decide
  have noWrap := Common.noWrap_of_lt fun x mem => (small x mem).trans (by norm_num)
  obtain ⟨-, -, y, mem, le⟩ := Common.medianExact_of_noWrap empty noWrap
  exact lt_of_le_of_lt (UInt64.le_iff_toNat_le.mp le) (small y mem)

theorem lastBlocksSizes_small (count : Nat) (chain : List EmissionInfo) :
    ∀ x ∈ lastBlocksSizes count chain, x.toNat < 2 ^ 32 := by
  intro x mem
  obtain ⟨info, -, rfl⟩ := List.mem_map.mp mem
  rw [UInt32.toNat_toUInt64]
  exact info.blockSize.toNat_lt

theorem rewardMedian_fits (blockMajorVersion : UInt8) {medianSize : UInt64} (small : medianSize.toNat < 2 ^ 32) :
    (max medianSize (currency.blockGrantedFullRewardZoneByBlockVersion blockMajorVersion)).toNat < 2 ^ 32 := by
  have zone : (currency.blockGrantedFullRewardZoneByBlockVersion blockMajorVersion).toNat < 2 ^ 32 := by
    unfold EmissionParameters.blockGrantedFullRewardZoneByBlockVersion
    split_ifs
    · exact currency.blockGrantedFullRewardZone_lt
    · decide
    · decide
  rw [UInt64.toNat_max]
  exact max_lt small zone

theorem addBlockReward_step {chain : List EmissionInfo} {block : RewardedBlock} {info : EmissionInfo}
    (added : addBlockReward currency.toEmissionParameters currency.rewardBlocksWindow chain block = .ok info)
    (below : (chain.getLastD default).alreadyGeneratedCoins.toNat < currency.moneySupply.toNat)
    (covered : block.cumulativeFee.toNat ≤ (chain.getLastD default).alreadyGeneratedCoins.toNat) :
    info.alreadyGeneratedCoins.toNat < currency.moneySupply.toNat ∧
      ∃ reward emissionChange,
        currency.getBlockReward block.majorVersion (Common.medianValue (lastBlocksSizes currency.rewardBlocksWindow chain))
            block.cumulativeBlockSize (chain.getLastD default).alreadyGeneratedCoins block.cumulativeFee =
          some (reward, emissionChange) ∧
        reward.toNat = (block.baseOutputAmounts.map UInt64.toNat).sum ∧
        emissionChange.toInt = reward.toNat - block.cumulativeFee.toNat ∧
        (info.alreadyGeneratedCoins.toNat : Int) =
          (chain.getLastD default).alreadyGeneratedCoins.toNat + emissionChange.toInt := by
  obtain ⟨reward, emissionChange, summed, returned, rfl⟩ := addBlockReward_ok added
  have paid := sumMinerReward_ok _ 0 reward summed
  have medianFits := currency.rewardMedian_fits block.majorVersion
    (medianValue_lt_of_small (lastBlocksSizes_small currency.rewardBlocksWindow chain))
  have base := currency.blockBaseReward_bounded below
  have supply := currency.moneySupply_le
  have bounded : (currency.blockBaseReward (chain.getLastD default).alreadyGeneratedCoins).toNat +
      block.cumulativeFee.toNat < 2 ^ 63 := by
    omega
  obtain ⟨-, penalizedBase, penalizedFee, rewardValue, change⟩ :=
    currency.getBlockReward_eq returned medianFits bounded
  -- what the block emits is at most the base reward, and takes back at most the fee
  have pushed := toNat_accumulate (chain.getLastD default).alreadyGeneratedCoins emissionChange
    (by rw [change]; omega) (by rw [change]; omega)
  refine ⟨?_, reward, emissionChange, returned, by simpa using paid, change, pushed⟩
  dsimp only
  rw [change] at pushed
  omega

end SoundEmission

/-- The repository's currency: `CurrencyBuilder`'s defaults, with the reward
window `CRYPTONOTE_REWARD_BLOCKS_WINDOW`. -/
def defaultSoundEmission : SoundEmission where
  toEmissionParameters := defaultEmission
  rewardBlocksWindow := 100
  moneySupply_le := by decide
  twoPercentOfEmission_le coins := by
    show (coins / 50).toNat ≤ coins.toNat
    rw [UInt64.toNat_div]
    exact Nat.div_le_self _ _
  premineReward_le := by decide
  blockGrantedFullRewardZone_lt := by decide

/-! ## The chain -/

/-- Along a chain accepted block by block from a genesis block below the supply,
with each block's fees covered by the coins generated before it: every block's
coins stay below the money supply, its miner reward is what `getBlockReward`
computes from the sizes window and its parent's coins, and the `uint64_t`
accumulator is the parent's coins plus the emission change, without wrapping. -/
theorem alreadyGeneratedCoins_lt_moneySupply (currency : SoundEmission) (genesis : EmissionInfo)
    (genesisBelow : genesis.alreadyGeneratedCoins.toNat < currency.moneySupply.toNat)
    (blocks : List RewardedBlock) (chain : List EmissionInfo)
    (accepted : addBlocks currency.toEmissionParameters currency.rewardBlocksWindow [genesis] blocks = .ok chain)
    (feesCovered : ∀ i (inside : i < blocks.length),
      blocks[i].cumulativeFee.toNat ≤ (chain.getD i default).alreadyGeneratedCoins.toNat) :
    chain.length = blocks.length + 1 ∧
      ∀ i (inside : i < blocks.length),
        (chain.getD (i + 1) default).alreadyGeneratedCoins.toNat < currency.moneySupply.toNat ∧
        ∃ reward emissionChange,
          currency.getBlockReward blocks[i].majorVersion
              (Common.medianValue (lastBlocksSizes currency.rewardBlocksWindow (chain.take (i + 1))))
              blocks[i].cumulativeBlockSize (chain.getD i default).alreadyGeneratedCoins blocks[i].cumulativeFee =
            some (reward, emissionChange) ∧
          reward.toNat = (blocks[i].baseOutputAmounts.map UInt64.toNat).sum ∧
          emissionChange.toInt = reward.toNat - blocks[i].cumulativeFee.toNat ∧
          ((chain.getD (i + 1) default).alreadyGeneratedCoins.toNat : Int) =
            (chain.getD i default).alreadyGeneratedCoins.toNat + emissionChange.toInt := by
  obtain ⟨length, front, steps⟩ := addBlocks_ok blocks [genesis] chain accepted
  rw [List.length_singleton] at length front steps
  -- block `i` is added on top of the first `i + 1` entries, whose last is entry `i`
  have step : ∀ i (inside : i < blocks.length),
      (chain.getD i default).alreadyGeneratedCoins.toNat < currency.moneySupply.toNat →
      (chain.getD (i + 1) default).alreadyGeneratedCoins.toNat < currency.moneySupply.toNat ∧
        ∃ reward emissionChange,
          currency.getBlockReward blocks[i].majorVersion
              (Common.medianValue (lastBlocksSizes currency.rewardBlocksWindow (chain.take (i + 1))))
              blocks[i].cumulativeBlockSize (chain.getD i default).alreadyGeneratedCoins blocks[i].cumulativeFee =
            some (reward, emissionChange) ∧
          reward.toNat = (blocks[i].baseOutputAmounts.map UInt64.toNat).sum ∧
          emissionChange.toInt = reward.toNat - blocks[i].cumulativeFee.toNat ∧
          ((chain.getD (i + 1) default).alreadyGeneratedCoins.toNat : Int) =
            (chain.getD i default).alreadyGeneratedCoins.toNat + emissionChange.toInt := by
    intro i inside below
    have added := steps i inside
    rw [Nat.add_comm 1 i] at added
    have parent := getLastD_take_succ chain default (i := i) (by omega)
    rw [← parent] at below ⊢
    exact currency.addBlockReward_step added below (parent ▸ feesCovered i inside)
  -- the coins stay below the supply from the genesis block on
  have below : ∀ i, i ≤ blocks.length → (chain.getD i default).alreadyGeneratedCoins.toNat < currency.moneySupply.toNat := by
    intro i
    induction i with
    | zero =>
      intro _
      rw [← getLastD_take_succ chain default (by omega), Nat.zero_add, front]
      exact genesisBelow
    | succ i ih =>
      intro inside
      exact (step i inside (ih (by omega))).1
  exact ⟨by omega, fun i inside => step i inside (below i inside.le)⟩

/-- The premine block: on top of the genesis block's one coin, `getBlockReward`
pays the premine of 3000000000 to a block of version 1 within the median. -/
def premineBlock : RewardedBlock where
  majorVersion := BLOCK_MAJOR_VERSION_1
  baseOutputAmounts := [3000000000]
  cumulativeBlockSize := 100
  cumulativeFee := 0

theorem alreadyGeneratedCoins_premine :
    (3000000001 : UInt64).toNat < defaultSoundEmission.moneySupply.toNat ∧
      ∃ reward emissionChange,
        defaultEmission.getBlockReward BLOCK_MAJOR_VERSION_1 (Common.medianValue [74]) 100 1 0 =
          some (reward, emissionChange) ∧
        reward.toNat = 3000000000 ∧ emissionChange.toInt = reward.toNat - 0 ∧
        ((3000000001 : UInt64).toNat : Int) = (1 : UInt64).toNat + emissionChange.toInt := by
  obtain ⟨-, step⟩ := alreadyGeneratedCoins_lt_moneySupply defaultSoundEmission ⟨74, 1⟩ (by decide)
    [premineBlock] [⟨74, 1⟩, ⟨100, 3000000001⟩] (by decide +kernel) (fun i inside => by simp [premineBlock])
  exact step 0 (by decide)

/-! ## The medians of `Core::validateBlock` and `Core::addBlock` -/

/-- `Common::medianValue` of `uint64_t` values halves, for an even count, the sum
of the two middle values modulo `2^64`; it is the exact median, between the least
and the greatest value, when that sum does not wrap.  At its two call sites it
does not: the timestamps `Core::validateBlock` reads passed its future limit
under a clock below `2^63`, and the sizes `Core::addBlock` reads are the
`uint32_t` block sizes. -/
theorem medianValue_exact :
    (∀ v : List UInt64, v ≠ [] → v.length % 2 = 0 →
      (Common.medianValue v).toNat =
        (((Common.sorted v).getD (v.length / 2 - 1) 0).toNat + ((Common.sorted v).getD (v.length / 2) 0).toNat) %
          2 ^ 64 / 2) ∧
    (∀ v : List UInt64, v ≠ [] → Common.NoWrap v → Common.MedianExact v) ∧
    (∀ (blockFutureTimeLimit : UInt64) (timestamps : List UInt64), timestamps ≠ [] →
      (∀ t ∈ timestamps, ∃ adjustedTime lastTimestamps,
        adjustedTime.toNat + blockFutureTimeLimit.toNat < 2 ^ 63 ∧
          timestampAccepted adjustedTime blockFutureTimeLimit lastTimestamps t = true) →
      Common.MedianExact timestamps) ∧
    ∀ (count : Nat) (chain : List EmissionInfo), lastBlocksSizes count chain ≠ [] →
      Common.MedianExact (lastBlocksSizes count chain) := by
  refine ⟨fun v nonempty even => Common.toNat_medianValue_even nonempty even,
    fun v nonempty noWrap => Common.medianExact_of_noWrap nonempty noWrap, ?_, ?_⟩
  · intro blockFutureTimeLimit timestamps nonempty accepted
    refine Common.medianExact_of_noWrap nonempty (Common.noWrap_of_lt fun t mem => ?_)
    obtain ⟨adjustedTime, lastTimestamps, clock, passed⟩ := accepted t mem
    exact toNat_lt_of_timestampAccepted clock passed
  · intro count chain nonempty
    exact Common.medianExact_of_noWrap nonempty
      (Common.noWrap_of_lt fun x mem => (SoundEmission.lastBlocksSizes_small count chain x mem).trans (by norm_num))

/-- Two middle values of `2^63` sum to `2^64`: the median is `0`, below both. -/
theorem medianValue_wraps :
    Common.medianValue ([9223372036854775808, 9223372036854775808] : List UInt64) = 0 ∧
      Common.exactMedian [9223372036854775808, 9223372036854775808] = 9223372036854775808 := by
  decide

end CryptoNote
