import CryptoNote.Core.ValidatorState
import CryptoNote.Lib.GreedyMatch

/-! # Transaction validation

`TransactionValidator` (`TransactionValidator.cpp`).  The validator object has
const members fixed by its constructor (`TransactionValidator` below) and
members that the stage functions write (`ValidationRun`): the result, the
spent-output state shared with the caller, the two sums and the fusion flag.
Each stage returns whether `validate` goes on, and the members it wrote, so a
stage that records an error and still returns `true` is expressible.

The blockchain queries are those of the `IBlockchainCache` interface the
validator is written against; the curve operations of `src/crypto` are
parameters (`CryptoOps`).  `validateTransactionFee` is the one stage that can
throw, so the chain runs in `Except String`. -/
set_option autoImplicit false

namespace CryptoNote

open Crypto

namespace parameters

def MINIMUM_FEE_V1 : UInt64 := 1
def MINIMUM_FEE_V2 : UInt64 := 10
def CRYPTONOTE_BLOCK_GRANTED_FULL_REWARD_ZONE_CURRENT : Nat := 1000000
def CRYPTONOTE_COINBASE_BLOB_RESERVED_SIZE : Nat := 600
def MAX_TRANSACTION_SIZE_LIMIT : Nat :=
  CRYPTONOTE_BLOCK_GRANTED_FULL_REWARD_ZONE_CURRENT / 4 - CRYPTONOTE_COINBASE_BLOB_RESERVED_SIZE
def KEY_IMAGE_CHECKING_BLOCK_INDEX : UInt32 := 0
def UPGRADE_HEIGHT_V3_1 : UInt32 := 216394
def UPGRADE_HEIGHT_V4 : UInt32 := 266000
def UPGRADE_HEIGHT_V4_2 : UInt32 := 500000
def UPGRADE_HEIGHT_V5 : UInt32 := 4294967294
def CRYPTONOTE_DISPLAY_DECIMAL_POINT : Nat := 2
def DIFFICULTY_TARGET : UInt64 := 60

end parameters

open parameters

inductive TransactionValidationError where
  | VALIDATION_SUCCESS
  | EMPTY_INPUTS
  | INPUT_UNKNOWN_TYPE
  | INPUT_EMPTY_OUTPUT_USAGE
  | INPUT_INVALID_DOMAIN_KEYIMAGES
  | INPUT_IDENTICAL_KEYIMAGES
  | INPUT_IDENTICAL_OUTPUT_INDEXES
  | INPUT_KEYIMAGE_ALREADY_SPENT
  | INPUT_MULTISIGNATURE_ALREADY_SPENT
  | INPUT_INVALID_GLOBAL_INDEX
  | INPUT_SPEND_LOCKED_OUT
  | INPUT_INVALID_SIGNATURES
  | INPUT_WRONG_SIGNATURES_COUNT
  | INPUTS_AMOUNT_OVERFLOW
  | INPUT_WRONG_COUNT
  | INPUT_UNEXPECTED_TYPE
  | BASE_INPUT_WRONG_BLOCK_INDEX
  | OUTPUT_ZERO_AMOUNT
  | OUTPUT_INVALID_KEY
  | OUTPUT_INVALID_REQUIRED_SIGNATURES_COUNT
  | OUTPUT_INVALID_MULTISIGNATURE_KEY
  | OUTPUT_UNKNOWN_TYPE
  | OUTPUTS_AMOUNT_OVERFLOW
  | WRONG_AMOUNT
  | WRONG_TRANSACTION_UNLOCK_TIME
  | INVALID_MIXIN
  | EXTRA_TOO_LARGE
  | BASE_INVALID_SIGNATURES_COUNT
  | INPUT_INVALID_SIGNATURES_COUNT
  | OUTPUT_INVALID_DECOMPOSED_AMOUNT
  | INVALID_FEE
  | SIZE_TOO_LARGE
  deriving DecidableEq, Repr

/-- `TransactionValidationResult`, with the source's member defaults. -/
structure TransactionValidationResult where
  errorCode : TransactionValidationError := .VALIDATION_SUCCESS
  errorMessage : String := ""
  valid : Bool := false
  fee : UInt64 := 0
  deriving DecidableEq, Repr

inductive ExtractOutputKeysResult where
  | SUCCESS
  | INVALID_GLOBAL_INDEX
  | OUTPUT_LOCKED
  deriving DecidableEq, Repr

/-- The `IBlockchainCache` queries the validator makes (the overloads taking a
block index). -/
structure IBlockchainCache where
  checkIfSpent : KeyImage → UInt32 → Bool
  checkIfSpentMultisignature : UInt64 → UInt32 → UInt32 → Bool
  isTransactionSpendTimeUnlocked : UInt64 → UInt32 → Bool
  getMultisignatureOutputIfExists : UInt64 → UInt32 → UInt32 → Option (MultisignatureOutput × UInt64)
  extractKeyOutputKeys : UInt64 → UInt32 → List UInt32 → ExtractOutputKeysResult × List PublicKey

/-- The currency parameters and predicates the validator, the amount formatter
and the difficulty read.  `isFusionTransaction` (`Currency.cpp`) depends on the
fusion limits of the currency and is kept abstract; the later fields have the
defaults `CurrencyBuilder` gives them. -/
structure Currency where
  maxMixin : Nat
  minMixin : Nat
  upgradeHeightV4 : UInt32
  isFusionTransaction : Transaction → Nat → UInt32 → Bool
  numberOfDecimalPlaces : Nat := CRYPTONOTE_DISPLAY_DECIMAL_POINT
  difficultyTarget : UInt64 := DIFFICULTY_TARGET
  testnet : Bool := false

def Currency.getFeePerByte (txExtraSize minFee : UInt64) : UInt64 :=
  if txExtraSize > 100 then minFee / 100 * (txExtraSize - 100) else 0

/-- `Checkpoints`: the `points` map from block index to block hash. -/
structure Checkpoints where
  points : List (UInt32 × Hash)

/-- `Checkpoints::isInCheckpointZone`: at or below the last checkpoint. -/
def Checkpoints.isInCheckpointZone (checkpoints : Checkpoints) (index : UInt32) : Bool :=
  checkpoints.points.any fun point => index ≤ point.1

/-- The curve operations of `src/crypto`.  `keyImageL` and `keyImageI` are
`EllipticCurveScalar2KeyImage(Crypto::L)` and `(Crypto::I)`. -/
structure CryptoOps where
  scalarmultKey : KeyImage → KeyImage → KeyImage
  keyImageL : KeyImage
  keyImageI : KeyImage
  checkKey : PublicKey → Bool
  checkRingSignature : Hash → KeyImage → List PublicKey → List Signature → Bool → Bool
  checkSignature : Hash → PublicKey → Signature → Bool

/-- `Currency::PRETTY_AMOUNTS`: `c * 10^k` for `1 ≤ c ≤ 9`, `k ≤ 18`, and `10^19`. -/
def PRETTY_AMOUNTS : List UInt64 :=
  ((List.range 19).flatMap fun k => (List.range 9).map fun c => UInt64.ofNat ((c + 1) * 10 ^ k)) ++
    [10000000000000000000]

/-- `is_valid_decomposed_amount`: the amount is one of `PRETTY_AMOUNTS`. -/
def isValidDecomposedAmount (amount : UInt64) : Bool :=
  PRETTY_AMOUNTS.contains amount

/-- The const members of a `TransactionValidator`, as its constructor sets them. -/
structure TransactionValidator where
  cachedTransaction : CachedTransaction
  blockchainCache : IBlockchainCache
  currency : Currency
  checkpoints : Checkpoints
  crypto : CryptoOps
  blockHeight : UInt32
  blockSizeMedian : UInt64
  minFee : UInt64
  isPoolTransaction : Bool

/-- The members the stages write.  `validatorState` is the caller's state,
held by reference. -/
structure ValidationRun where
  validatorState : TransactionValidatorState
  validationResult : TransactionValidationResult := {}
  sumOfOutputs : UInt64 := 0
  sumOfInputs : UInt64 := 0
  isFusion : Bool := false
  deriving DecidableEq

/-- What every failing check does: record the error code and message. -/
def ValidationRun.reject (run : ValidationRun) (code : TransactionValidationError)
    (message : String) : Bool × ValidationRun :=
  (false, { run with validationResult :=
    { run.validationResult with errorCode := code, errorMessage := message } })

namespace TransactionValidator

variable (v : TransactionValidator)

def transaction : Transaction := v.cachedTransaction.transaction

def validateTransactionSize (run : ValidationRun) : Bool × ValidationRun :=
  if v.blockHeight > UPGRADE_HEIGHT_V4 ∧
      v.cachedTransaction.transactionBinaryArray.length > MAX_TRANSACTION_SIZE_LIMIT then
    run.reject .SIZE_TOO_LARGE "Transaction is too large (in bytes)"
  else (true, run)

/-- The body of the `KeyInput` branch of `validateTransactionInputs`: the checks
in source order; on success the key image goes into the shared state. -/
def checkKeyInput (ki : Finset KeyImage) (input : KeyInput) (run : ValidationRun) :
    Bool × ValidationRun :=
  if input.keyImage ∈ ki then
    run.reject .INPUT_IDENTICAL_KEYIMAGES "Transaction contains identical key images"
  else if input.outputIndexes = [] then
    run.reject .INPUT_EMPTY_OUTPUT_USAGE "Transaction contains no output indexes"
  else if !v.checkpoints.isInCheckpointZone (v.blockHeight + 1) &&
      !(v.crypto.scalarmultKey input.keyImage v.crypto.keyImageL == v.crypto.keyImageI) then
    run.reject .INPUT_INVALID_DOMAIN_KEYIMAGES "Transaction contains key images in an invalid domain"
  -- the first offset is absolute, every later one must be non-zero
  else if 0 ∈ input.outputIndexes.tail then
    run.reject .INPUT_IDENTICAL_OUTPUT_INDEXES "Transaction contains identical output indexes"
  else if input.keyImage ∈ run.validatorState.spentKeyImages then
    run.reject .INPUT_KEYIMAGE_ALREADY_SPENT
      "Transaction contains key image that has already been spent"
  else
    (true, { run with validatorState := { run.validatorState with
      spentKeyImages := insert input.keyImage run.validatorState.spentKeyImages } })

/-- The body of the `MultisignatureInput` branch: the pair is inserted into the
shared state first, so it stays there when a later check of the branch fails. -/
def checkMultisignatureInput (input : MultisignatureInput) (run : ValidationRun) :
    Bool × ValidationRun :=
  let pair := (input.amount, input.outputIndex)
  if pair ∈ run.validatorState.spentMultisignatureGlobalIndexes then
    run.reject .INPUT_MULTISIGNATURE_ALREADY_SPENT "Transaction uses spent multisignature"
  else
    let run := { run with validatorState := { run.validatorState with
      spentMultisignatureGlobalIndexes := insert pair run.validatorState.spentMultisignatureGlobalIndexes } }
    match v.blockchainCache.getMultisignatureOutputIfExists input.amount input.outputIndex
        v.blockHeight with
    | none => run.reject .INPUT_INVALID_GLOBAL_INDEX "Transaction has input with invalid global index"
    | some (output, unlockTime) =>
        if v.blockchainCache.checkIfSpentMultisignature input.amount input.outputIndex v.blockHeight then
          run.reject .INPUT_MULTISIGNATURE_ALREADY_SPENT "Transaction uses spent multisignature"
        else if !v.blockchainCache.isTransactionSpendTimeUnlocked unlockTime v.blockHeight then
          run.reject .INPUT_SPEND_LOCKED_OUT "Transaction uses locked input"
        else if output.requiredSignatureCount != input.signatureCount then
          run.reject .INPUT_WRONG_SIGNATURES_COUNT "Transaction has input with wrong signatures count"
        else (true, run)

/-- The loop of `validateTransactionInputs` over the inputs, with the local set
`ki` of key images seen and the running `sumOfInputs`.  Only a key input adds
its amount: `amount` stays `0` in the multisignature branch. -/
def validateInputsLoop (ki : Finset KeyImage) (sumOfInputs : UInt64) :
    List TransactionInput → ValidationRun → Bool × ValidationRun
  | [], run => (true, { run with sumOfInputs := sumOfInputs })
  | input :: rest, run =>
      let checked : Bool × ValidationRun × UInt64 × Finset KeyImage :=
        match input with
        | .key keyInput =>
            let r := v.checkKeyInput ki keyInput run
            (r.1, r.2, keyInput.amount, insert keyInput.keyImage ki)
        | .multisignature msInput =>
            let r := v.checkMultisignatureInput msInput run
            (r.1, r.2, 0, ki)
        | .base _ =>
            let r := run.reject .INPUT_UNKNOWN_TYPE "Transaction input has an unknown input type"
            (r.1, r.2, 0, ki)
      let (ok, run, amount, ki) := checked
      if !ok then (false, run)
      else if UInt64.ofNat (2 ^ 64 - 1) - amount < sumOfInputs then
        run.reject .INPUTS_AMOUNT_OVERFLOW "Transaction inputs will overflow"
      else validateInputsLoop ki (sumOfInputs + amount) rest run

def validateTransactionInputs (run : ValidationRun) : Bool × ValidationRun :=
  if v.transaction.inputs = [] then
    run.reject .EMPTY_INPUTS "Transaction has no inputs"
  else v.validateInputsLoop ∅ 0 v.transaction.inputs run

/-- One output of `validateTransactionOutputs`, before the overflow check. -/
def checkOutput (output : TransactionOutput) (run : ValidationRun) : Bool × ValidationRun :=
  if output.amount = 0 then
    run.reject .OUTPUT_ZERO_AMOUNT "Transaction has an output amount of zero"
  else if v.blockHeight ≥ UPGRADE_HEIGHT_V5 && !isValidDecomposedAmount output.amount then
    run.reject .OUTPUT_INVALID_DECOMPOSED_AMOUNT "Invalid decomposed output amount (unmixable output)"
  else
    match output.target with
    | .key keyOutput =>
        if !v.crypto.checkKey keyOutput.key then
          run.reject .OUTPUT_INVALID_KEY "Transaction output has an invalid output key"
        else (true, run)
    | .multisignature msOutput =>
        if msOutput.requiredSignatureCount.toNat > msOutput.keys.length then
          run.reject .OUTPUT_INVALID_REQUIRED_SIGNATURES_COUNT
            "Transaction has output with invalid signatures count"
        else if msOutput.keys.any fun key => !v.crypto.checkKey key then
          run.reject .OUTPUT_INVALID_MULTISIGNATURE_KEY
            "Transaction has output with invalid multisignature key"
        else (true, run)

def validateOutputsLoop (sumOfOutputs : UInt64) :
    List TransactionOutput → ValidationRun → Bool × ValidationRun
  | [], run => (true, { run with sumOfOutputs := sumOfOutputs })
  | output :: rest, run =>
      let (ok, run) := v.checkOutput output run
      if !ok then (false, run)
      else if UInt64.ofNat (2 ^ 64 - 1) - output.amount < sumOfOutputs then
        run.reject .OUTPUTS_AMOUNT_OVERFLOW "Transaction outputs will overflow"
      else validateOutputsLoop (sumOfOutputs + output.amount) rest run

def validateTransactionOutputs (run : ValidationRun) : Bool × ValidationRun :=
  v.validateOutputsLoop 0 v.transaction.outputs run

/-- The minimum-fee rule of `validateTransactionFee` for a non-fusion transaction. -/
def feeBelowMinimum (fee : UInt64) : Bool :=
  v.blockHeight ≤ UPGRADE_HEIGHT_V3_1 && fee < MINIMUM_FEE_V1 ||
    v.blockHeight > UPGRADE_HEIGHT_V3_1 && v.blockHeight ≤ UPGRADE_HEIGHT_V4 && fee < MINIMUM_FEE_V2 ||
    v.blockHeight > UPGRADE_HEIGHT_V4 && fee < v.minFee - v.minFee * 20 / 100

/-- The text of the `std::runtime_error` thrown by `validateTransactionFee`. -/
def feeStageMessage : String :=
  "Error! You must call validateTransactionInputs() and validateTransactionOutputs() before calling validateTransactionFee()!"

/-- `validateTransactionFee`.  A zero input sum is taken as "the input stage was
not run" and thrown. -/
def validateTransactionFee (run : ValidationRun) : Except String (Bool × ValidationRun) :=
  if run.sumOfInputs = 0 then
    .error feeStageMessage
  else if run.sumOfOutputs > run.sumOfInputs then
    .ok (run.reject .WRONG_AMOUNT "Sum of outputs is greater than sum of inputs")
  else
    let fee := run.sumOfInputs - run.sumOfOutputs
    let isFusion := fee == 0 && v.currency.isFusionTransaction v.transaction
      v.cachedTransaction.transactionBinaryArray.length v.blockHeight
    let run := { run with isFusion := isFusion }
    if !run.isFusion && v.feeBelowMinimum fee then
      .ok (run.reject .INVALID_FEE "Transaction fee is below minimum fee and is not a fusion transaction")
    else
      .ok (true, { run with validationResult := { run.validationResult with fee := fee } })

def validateTransactionExtra (run : ValidationRun) : Bool × ValidationRun :=
  if v.blockHeight > UPGRADE_HEIGHT_V4_2 then
    let min := v.minFee + Currency.getFeePerByte (UInt64.ofNat v.transaction.extra.length) v.minFee
    if run.validationResult.fee < min - min * 20 / 100 && !run.isFusion then
      run.reject .INVALID_FEE "Transaction fee is insufficient due to additional data in extra"
    else (true, run)
  else (true, run)

def validateInputOutputRatio (run : ValidationRun) : Bool × ValidationRun := (true, run)

def mixinOf : List TransactionInput → Nat
  | [] => 0
  | .key input :: rest => max input.outputIndexes.length (mixinOf rest)
  | _ :: rest => mixinOf rest

/-- `validateTransactionMixin` records `INVALID_MIXIN` when the ring size is out
of range, and returns `true` on both branches. -/
def validateTransactionMixin (run : ValidationRun) : Bool × ValidationRun :=
  let mixin := mixinOf v.transaction.inputs
  if v.blockHeight > UPGRADE_HEIGHT_V3_1 ∧ mixin > v.currency.maxMixin ∨
      v.blockHeight > v.currency.upgradeHeightV4 ∧ mixin < v.currency.minMixin ∧ mixin ≠ 1 then
    ((run.reject .INVALID_MIXIN "Transaction has wrong mixin").2 |> fun run => (true, run))
  else (true, run)

/-- Relative output offsets to absolute global indexes:
`globalIndexes[i] = globalIndexes[i - 1] + outputIndexes[i]` in `uint32_t`. -/
def absoluteIndexes (previous : UInt32) : List UInt32 → List UInt32
  | [] => []
  | offset :: rest => (previous + offset) :: absoluteIndexes (previous + offset) rest

/-- The job of a key input in `validateTransactionInputsExpensive`; `none` when
it returns `true`, else the error it records. -/
def expensiveKeyInputCheck (prefixHash : Hash) (signatures : List Signature) (input : KeyInput) :
    Option (TransactionValidationError × String) :=
  if v.blockchainCache.checkIfSpent input.keyImage v.blockHeight then
    some (.INPUT_KEYIMAGE_ALREADY_SPENT, "Transaction contains key image that has already been spent")
  else
    let (result, outputKeys) := v.blockchainCache.extractKeyOutputKeys input.amount v.blockHeight
      (absoluteIndexes 0 input.outputIndexes)
    if result = .INVALID_GLOBAL_INDEX then
      some (.INPUT_INVALID_GLOBAL_INDEX, "Transaction contains invalid global indexes")
    else if result = .OUTPUT_LOCKED then
      some (.INPUT_SPEND_LOCKED_OUT, "Transaction includes an input which is still locked")
    else if outputKeys.length ≠ signatures.length then
      some (.INPUT_INVALID_SIGNATURES_COUNT, "Transaction has an invalid number of signatures")
    else if !v.crypto.checkRingSignature prefixHash input.keyImage outputKeys signatures
        (v.blockHeight > KEY_IMAGE_CHECKING_BLOCK_INDEX) then
      some (.INPUT_INVALID_SIGNATURES, "Transaction contains invalid signatures")
    else none

end TransactionValidator

/-- The signature walk of the multisignature branch of
`validateTransactionInputsExpensive`: `pending` is `signatureCount -
inputSignatureIndex`, `signatures` holds `signatures[i]` from
`inputSignatureIndex` on and `keys` the output keys from `outputKeyIndex` on.
A key is consumed on every step, a signature only when it verifies.  Reading
past the end of `signatures[i]` is undefined in the source; a decoded
transaction has exactly `signatureCount` of them, and the walk treats a missing
one as not verifying. -/
def multisignatureWalk (check : PublicKey → Signature → Bool) :
    Nat → List Signature → List PublicKey → Bool
  | 0, _, _ => true
  | _ + 1, _, [] => false
  | pending + 1, [], _ :: keys => multisignatureWalk check (pending + 1) [] keys
  | pending + 1, signature :: rest, key :: keys =>
      if check key signature then multisignatureWalk check pending rest keys
      else multisignatureWalk check (pending + 1) (signature :: rest) keys

namespace TransactionValidator

variable (v : TransactionValidator)

/-- The job of a multisignature input.  The source declares a local
`MultisignatureOutput output;` and walks its keys: the output the input refers
to is not fetched in this function, so the walk runs over no keys. -/
def expensiveMultisignatureInputCheck (prefixHash : Hash) (signatures : List Signature)
    (input : MultisignatureInput) : Option (TransactionValidationError × String) :=
  let output : MultisignatureOutput := { keys := [], requiredSignatureCount := 0 }
  if multisignatureWalk (v.crypto.checkSignature prefixHash) input.signatureCount.toNat signatures
      output.keys then none
  else some (.INPUT_INVALID_SIGNATURES, "Transaction has input with invalid signature")

def expensiveInputCheck (prefixHash : Hash) (inputIndex : Nat) :
    TransactionInput → Option (TransactionValidationError × String)
  | .key input => v.expensiveKeyInputCheck prefixHash (v.transaction.signatures.getD inputIndex []) input
  | .multisignature input =>
      v.expensiveMultisignatureInputCheck prefixHash (v.transaction.signatures.getD inputIndex []) input
  | .base _ => some (.INPUT_UNKNOWN_TYPE, "Transaction has input with unknown type")

def expensiveJobs : List (Option (TransactionValidationError × String)) :=
  (v.transaction.inputs.zipIdx).map fun (input, inputIndex) =>
    v.expensiveInputCheck v.cachedTransaction.transactionPrefixHash inputIndex input

/-- `validateTransactionInputsExpensive`.  One thread-pool job per input; the
results are read in input order and the first failure cancels the jobs not yet
started.  Under the schedule where each job runs after the previous result was
read, the error left in the result is that of the first failing input, which is
what is modelled; the returned flag is the conjunction of the jobs under every
schedule.  In the checkpoint zone nothing is checked. -/
def validateTransactionInputsExpensive (run : ValidationRun) : Bool × ValidationRun :=
  if v.checkpoints.isInCheckpointZone (v.blockHeight + 1) then (true, run)
  else
    match v.expensiveJobs.findSome? id with
    | none => (true, run)
    | some (code, message) => run.reject code message

/-- `if (!stage()) return m_validationResult;` followed by the rest of the chain. -/
def continueWith (step : Bool × ValidationRun)
    (rest : ValidationRun → Except String (TransactionValidationResult × ValidationRun)) :
    Except String (TransactionValidationResult × ValidationRun) :=
  if step.1 then rest step.2 else .ok (step.2.validationResult, step.2)

/-- The closing assignment of `validate` and `revalidateAfterHeightChange`. -/
def succeed (run : ValidationRun) : Except String (TransactionValidationResult × ValidationRun) :=
  let run := { run with validationResult :=
    { run.validationResult with valid := true, errorCode := .VALIDATION_SUCCESS } }
  .ok (run.validationResult, run)

/-- `TransactionValidator::validate`: the eight stages in order, stopping at the
first that returns `false`. -/
def validate (run : ValidationRun) : Except String (TransactionValidationResult × ValidationRun) :=
  continueWith (v.validateTransactionSize run) fun run =>
  continueWith (v.validateTransactionInputs run) fun run =>
  continueWith (v.validateTransactionOutputs run) fun run =>
  match v.validateTransactionFee run with
  | .error message => .error message
  | .ok step =>
  continueWith step fun run =>
  continueWith (v.validateTransactionExtra run) fun run =>
  continueWith (validateInputOutputRatio run) fun run =>
  continueWith (v.validateTransactionMixin run) fun run =>
  continueWith (v.validateTransactionInputsExpensive run) succeed

def revalidateAfterHeightChange (run : ValidationRun) :
    Except String (TransactionValidationResult × ValidationRun) :=
  continueWith (v.validateTransactionSize run) fun run =>
  continueWith (v.validateTransactionExtra run) fun run =>
  continueWith (v.validateTransactionMixin run) succeed

end TransactionValidator

end CryptoNote
