import CryptoNote.Core.ValidationOutcome

/-! # Faults of `TransactionValidator`

* The mixin rule is recorded and dropped: `validateTransactionMixin` returns
  `true` after writing `INVALID_MIXIN`, and `validate` then overwrites the code
  (`validate_outcome`).  `Core::checkAndRemoveInvalidPoolTransactions` applies
  the same bounds and does reject.
* `validateTransactionFee` throws when the input sum is zero, which the input
  stage lets through: a key input may carry amount `0`, and multisignature
  inputs never add their amount.
* The multisignature branch of `validateTransactionInputsExpensive` walks the
  keys of a default-constructed local output, so a spend with signatures is
  rejected whatever it references, while the walk over the referenced output is
  exactly in-order signature matching.
* The ring of a key input is rebuilt from offsets summed in `uint32_t`: the
  non-zero offsets the input stage asks for make the members increase only
  while the sum stays below `2^32` (`absoluteIndexes_increasing_iff`), and
  nothing checks that, so a ring may name one output twice. -/
set_option autoImplicit false

namespace CryptoNote

open Crypto parameters GreedyMatch

/-- The amount an input adds to `sumOfInputs` in `validateTransactionInputs`. -/
def keyInputAmount : TransactionInput → Nat
  | .key input => input.amount.toNat
  | _ => 0

theorem add_toNat_of_not_overflow (sum amount : UInt64)
    (noOverflow : ¬ (UInt64.ofNat (2 ^ 64 - 1) - amount < sum)) :
    (sum + amount).toNat = sum.toNat + amount.toNat := by
  have amountBound := amount.toNat_lt
  have sumBound := sum.toNat_lt
  rw [UInt64.lt_iff_toNat_lt, UInt64.toNat_sub_of_le] at noOverflow
  · simp at noOverflow
    rw [UInt64.toNat_add]
    omega
  · rw [UInt64.le_iff_toNat_le]
    simp
    omega

namespace TransactionValidator

variable (v : TransactionValidator)

/-! ## The input sum -/

theorem validateInputsLoop_step_sum (rest : List TransactionInput) (ki' : Finset KeyImage)
    (sumOfInputs amount : UInt64) (step : Bool × ValidationRun) (final : ValidationRun)
    (restSum : ∀ next final : ValidationRun,
      v.validateInputsLoop ki' (sumOfInputs + amount) rest next = (true, final) →
        final.sumOfInputs.toNat = (sumOfInputs + amount).toNat + (rest.map keyInputAmount).sum)
    (returned : (if !step.1 then (false, step.2)
       else if UInt64.ofNat (2 ^ 64 - 1) - amount < sumOfInputs then
         step.2.reject .INPUTS_AMOUNT_OVERFLOW "Transaction inputs will overflow"
       else v.validateInputsLoop ki' (sumOfInputs + amount) rest step.2) = (true, final)) :
    final.sumOfInputs.toNat = sumOfInputs.toNat + amount.toNat + (rest.map keyInputAmount).sum := by
  obtain ⟨ok, next⟩ := step
  cases ok with
  | false => simp at returned
  | true =>
      simp only [Bool.not_true, Bool.false_eq_true, if_false] at returned
      by_cases overflow : UInt64.ofNat (2 ^ 64 - 1) - amount < sumOfInputs
      · rw [if_pos overflow] at returned
        simp [ValidationRun.reject] at returned
      · rw [if_neg overflow] at returned
        rw [restSum next final returned, add_toNat_of_not_overflow sumOfInputs amount overflow]

theorem validateInputsLoop_sum :
    ∀ (inputs : List TransactionInput) (ki : Finset KeyImage) (sumOfInputs : UInt64)
      (run final : ValidationRun), v.validateInputsLoop ki sumOfInputs inputs run = (true, final) →
        final.sumOfInputs.toNat = sumOfInputs.toNat + (inputs.map keyInputAmount).sum := by
  intro inputs
  induction inputs with
  | nil =>
      intro ki sumOfInputs run final returned
      simp only [TransactionValidator.validateInputsLoop, Prod.mk.injEq, true_and] at returned
      subst final
      simp
  | cons input rest ih =>
      intro ki sumOfInputs run final returned
      cases input with
      | key keyInput =>
          have summed := v.validateInputsLoop_step_sum rest _ sumOfInputs keyInput.amount _ final
            (fun next final => ih _ _ next final) returned
          simp only [List.map_cons, List.sum_cons, keyInputAmount] at summed ⊢
          omega
      | multisignature msInput =>
          have summed := v.validateInputsLoop_step_sum rest ki sumOfInputs 0 _ final
            (fun next final => ih _ _ next final) returned
          simpa [keyInputAmount] using summed
      | base baseInput =>
          -- a base input is rejected on the spot
          simp [TransactionValidator.validateInputsLoop, ValidationRun.reject] at returned

theorem validateTransactionInputs_sum {run final : ValidationRun}
    (returned : v.validateTransactionInputs run = (true, final)) :
    final.sumOfInputs.toNat = (v.transaction.inputs.map keyInputAmount).sum := by
  unfold TransactionValidator.validateTransactionInputs at returned
  split at returned
  · simp [ValidationRun.reject] at returned
  · simpa using v.validateInputsLoop_sum _ ∅ 0 run final returned

theorem checkOutput_sumOfInputs (output : TransactionOutput) (run : ValidationRun) :
    (v.checkOutput output run).2.sumOfInputs = run.sumOfInputs := by
  unfold TransactionValidator.checkOutput
  repeat' split
  all_goals rfl

theorem validateOutputsLoop_sumOfInputs :
    ∀ (outputs : List TransactionOutput) (sumOfOutputs : UInt64) (run : ValidationRun),
      (v.validateOutputsLoop sumOfOutputs outputs run).2.sumOfInputs = run.sumOfInputs := by
  intro outputs
  induction outputs with
  | nil => intro sumOfOutputs run; rfl
  | cons output rest ih =>
      intro sumOfOutputs run
      have kept := v.checkOutput_sumOfInputs output run
      simp only [TransactionValidator.validateOutputsLoop]
      generalize v.checkOutput output run = step at kept ⊢
      obtain ⟨ok, next⟩ := step
      cases ok with
      | false => exact kept
      | true =>
          simp only [Bool.not_true, Bool.false_eq_true, if_false]
          split
          · exact kept
          · rw [ih]
            exact kept

/-! ## When `validate` throws -/

theorem validateTransactionFee_error_iff (run : ValidationRun) (message : String) :
    v.validateTransactionFee run = .error message ↔
      run.sumOfInputs = 0 ∧ message = feeStageMessage := by
  unfold TransactionValidator.validateTransactionFee
  by_cases noInputs : run.sumOfInputs = 0
  · rw [if_pos noInputs]
    simp only [Except.error.injEq, noInputs, true_and]
    exact eq_comm
  · rw [if_neg noInputs]
    simp only [noInputs, false_and, iff_false]
    split
    · simp
    · split <;> simp

def NeverThrows (returned : Except String (TransactionValidationResult × ValidationRun)) : Prop :=
  ∀ message, returned ≠ .error message

theorem continueWith_neverThrows (step : Bool × ValidationRun)
    {rest : ValidationRun → Except String (TransactionValidationResult × ValidationRun)}
    (restSafe : ∀ next, NeverThrows (rest next)) : NeverThrows (continueWith step rest) := by
  intro message thrown
  unfold continueWith at thrown
  split at thrown
  · exact restSafe _ message thrown
  · cases thrown

theorem continueWith_eq_error (step : Bool × ValidationRun)
    (rest : ValidationRun → Except String (TransactionValidationResult × ValidationRun))
    (message : String) :
    continueWith step rest = .error message ↔ step.1 = true ∧ rest step.2 = .error message := by
  unfold continueWith
  split <;> simp_all

theorem validate_error_iff (run : ValidationRun) (message : String) :
    v.validate run = .error message ↔
      ∃ afterSize afterInputs afterOutputs,
        v.validateTransactionSize run = (true, afterSize) ∧
        v.validateTransactionInputs afterSize = (true, afterInputs) ∧
        v.validateTransactionOutputs afterInputs = (true, afterOutputs) ∧
        afterOutputs.sumOfInputs = 0 ∧ message = feeStageMessage := by
  -- the stages after the fee stage are pure, and `succeed` returns
  have tailSafe : ∀ step : Bool × ValidationRun, NeverThrows (continueWith step fun run =>
      continueWith (v.validateTransactionExtra run) fun run =>
      continueWith (validateInputOutputRatio run) fun run =>
      continueWith (v.validateTransactionMixin run) fun run =>
      continueWith (v.validateTransactionInputsExpensive run) succeed) := fun step =>
    continueWith_neverThrows _ fun _ => continueWith_neverThrows _ fun _ =>
      continueWith_neverThrows _ fun _ => continueWith_neverThrows _ fun _ =>
        continueWith_neverThrows _ fun _ _ thrown => by cases thrown
  unfold TransactionValidator.validate
  simp only [continueWith_eq_error]
  constructor
  · rintro ⟨sizeOk, inputsOk, outputsOk, feeThrown⟩
    split at feeThrown
    · rename_i feeMessage feeReturned
      cases feeThrown
      obtain ⟨noInputs, rfl⟩ := (v.validateTransactionFee_error_iff _ _).mp feeReturned
      exact ⟨_, _, _, Prod.ext sizeOk rfl, Prod.ext inputsOk rfl, Prod.ext outputsOk rfl,
        noInputs, rfl⟩
    · exact absurd feeThrown (tailSafe _ message)
  · rintro ⟨afterSize, afterInputs, afterOutputs, sizeOk, inputsOk, outputsOk, noInputs, rfl⟩
    have feeThrown : v.validateTransactionFee afterOutputs = .error feeStageMessage :=
      (v.validateTransactionFee_error_iff _ _).mpr ⟨noInputs, rfl⟩
    simp only [sizeOk, inputsOk, outputsOk, feeThrown, true_and]

/-- `validate` throws exactly when the size, input and output stages pass and
the key inputs carry no amount at all. -/
theorem validate_throws_iff (run : ValidationRun) :
    (∃ message, v.validate run = .error message) ↔
      ∃ afterSize afterInputs afterOutputs,
        v.validateTransactionSize run = (true, afterSize) ∧
        v.validateTransactionInputs afterSize = (true, afterInputs) ∧
        v.validateTransactionOutputs afterInputs = (true, afterOutputs) ∧
        (v.transaction.inputs.map keyInputAmount).sum = 0 := by
  -- the input sum reaching the fee stage is the key-input sum: the output stage keeps it
  have sumAtFee : ∀ {afterSize afterInputs afterOutputs : ValidationRun},
      v.validateTransactionInputs afterSize = (true, afterInputs) →
      v.validateTransactionOutputs afterInputs = (true, afterOutputs) →
      afterOutputs.sumOfInputs.toNat = (v.transaction.inputs.map keyInputAmount).sum := by
    intro afterSize afterInputs afterOutputs inputsOk outputsOk
    have kept : afterOutputs.sumOfInputs = afterInputs.sumOfInputs := by
      have loopKeeps := v.validateOutputsLoop_sumOfInputs v.transaction.outputs 0 afterInputs
      rwa [show v.validateOutputsLoop 0 v.transaction.outputs afterInputs = (true, afterOutputs)
        from outputsOk] at loopKeeps
    rw [kept]
    exact v.validateTransactionInputs_sum inputsOk
  constructor
  · rintro ⟨message, thrown⟩
    obtain ⟨afterSize, afterInputs, afterOutputs, sizeOk, inputsOk, outputsOk, noInputs, -⟩ :=
      (v.validate_error_iff run message).mp thrown
    refine ⟨afterSize, afterInputs, afterOutputs, sizeOk, inputsOk, outputsOk, ?_⟩
    rw [← sumAtFee inputsOk outputsOk, noInputs]
    rfl
  · rintro ⟨afterSize, afterInputs, afterOutputs, sizeOk, inputsOk, outputsOk, zeroSum⟩
    refine ⟨feeStageMessage, (v.validate_error_iff run _).mpr
      ⟨afterSize, afterInputs, afterOutputs, sizeOk, inputsOk, outputsOk, ?_, rfl⟩⟩
    have summed := sumAtFee inputsOk outputsOk
    rw [zeroSum] at summed
    exact UInt64.toNat_inj.mp summed

/-! ## The multisignature signature walk -/

theorem multisignatureWalk_eq_greedyMatch (check : PublicKey → Signature → Bool) :
    ∀ (keys : List PublicKey) (signatures : List Signature),
      multisignatureWalk check signatures.length signatures keys =
        greedyMatch (fun signature key => check key signature) signatures keys := by
  intro keys
  induction keys with
  | nil =>
      intro signatures
      cases signatures <;> rfl
  | cons key keys ih =>
      intro signatures
      cases signatures with
      | nil => rfl
      | cons signature rest =>
          simp only [List.length_cons, multisignatureWalk, greedyMatch]
          split
          · exact ih rest
          · exact ih (signature :: rest)

/-- Over an output's keys, the walk accepts exactly when the signatures can be
matched in order to keys they verify against. -/
theorem multisignatureWalk_iff (check : PublicKey → Signature → Bool) (keys : List PublicKey)
    (signatures : List Signature) :
    multisignatureWalk check signatures.length signatures keys = true ↔
      List.SublistForall₂ (fun signature key => check key signature = true) signatures keys := by
  rw [multisignatureWalk_eq_greedyMatch]
  exact greedyMatch_iff _ signatures keys

end TransactionValidator

/-! ## Runs at fixed inputs

A validator at block height 300000 (past `UPGRADE_HEIGHT_V3_1` and
`UPGRADE_HEIGHT_V4`, below `UPGRADE_HEIGHT_V4_2`), outside any checkpoint
zone, with the mainnet mixin bounds.  The curve operations answer as they do
for well-formed keys and correct signatures: the key image lies in the prime
subgroup, every ring signature verifies, and a multisignature signature verifies
against the one key it was made with. -/

/-- `MIN_TX_MIXIN_SIZE = 2`, `MAX_TX_MIXIN_SIZE = 20`, `UPGRADE_HEIGHT_V4`. -/
def mainnetMixinCurrency : Currency where
  maxMixin := 20
  minMixin := 2
  upgradeHeightV4 := UPGRADE_HEIGHT_V4
  isFusionTransaction := fun _ _ _ => false

def signingKey : PublicKey := PublicKey.ofByte 4

def signingSignature : Signature := Signature.ofByte 6

def signedCrypto : CryptoOps where
  scalarmultKey := fun _ _ => KeyImage.ofByte 1
  keyImageL := KeyImage.ofByte 2
  keyImageI := KeyImage.ofByte 1
  checkKey := fun _ => true
  checkRingSignature := fun _ _ _ _ _ => true
  checkSignature := fun _ key signature => key == signingKey && signature == signingSignature

def referencedOutput : MultisignatureOutput := ⟨[signingKey], 1⟩

/-- A chain where nothing is spent or locked, every ring member exists, and
the multisignature output above is unspent. -/
def unspentChain : IBlockchainCache where
  checkIfSpent := fun _ _ => false
  checkIfSpentMultisignature := fun _ _ _ => false
  isTransactionSpendTimeUnlocked := fun _ _ => true
  getMultisignatureOutputIfExists := fun amount globalIndex _ =>
    if amount = 5000 ∧ globalIndex = 0 then some (referencedOutput, 0) else none
  extractKeyOutputKeys := fun _ _ globalIndexes =>
    (.SUCCESS, globalIndexes.map fun _ => PublicKey.ofByte 9)

def validatorAt (transaction : Transaction) : TransactionValidator where
  cachedTransaction := ⟨transaction, List.replicate 300 0, Hash.ofByte 1, Hash.ofByte 2⟩
  blockchainCache := unspentChain
  currency := mainnetMixinCurrency
  checkpoints := ⟨[]⟩
  crypto := signedCrypto
  blockHeight := 300000
  blockSizeMedian := 0
  minFee := 100000
  isPoolTransaction := true

def wideRingTransaction : Transaction where
  version := 1
  unlockTime := 0
  inputs := [.key ⟨1000000, 5 :: List.replicate 20 1, KeyImage.ofByte 7⟩]
  outputs := [⟨900000, .key ⟨PublicKey.ofByte 3⟩⟩]
  extra := []
  signatures := [List.replicate 21 (Signature.ofByte 5)]

theorem wideRing_accepted :
    TransactionValidator.mixinOf wideRingTransaction.inputs = 21 ∧
      (validatorAt wideRingTransaction).blockHeight > UPGRADE_HEIGHT_V3_1 ∧
      ((validatorAt wideRingTransaction).validate (ValidationRun.fresh .empty)).toOption.map
        (fun returned => (returned.1.valid, returned.1.errorCode)) =
        some (true, .VALIDATION_SUCCESS) := by
  decide +kernel

def zeroAmountTransaction : Transaction where
  version := 1
  unlockTime := 0
  inputs := [.key ⟨0, [3], KeyImage.ofByte 7⟩]
  outputs := [⟨1000, .key ⟨PublicKey.ofByte 3⟩⟩]
  extra := []
  signatures := [[Signature.ofByte 5]]

theorem zeroAmount_throws :
    (validatorAt zeroAmountTransaction).validate (ValidationRun.fresh .empty) =
      .error TransactionValidator.feeStageMessage := by
  decide +kernel

def multisignatureTransaction : Transaction where
  version := 1
  unlockTime := 0
  inputs := [.multisignature ⟨5000, 1, 0⟩]
  outputs := [⟨4000, .key ⟨PublicKey.ofByte 3⟩⟩]
  extra := []
  signatures := [[signingSignature]]

theorem signedMultisignature_rejected :
    unspentChain.getMultisignatureOutputIfExists 5000 0 300000 = some (referencedOutput, 0) ∧
      List.SublistForall₂
        (fun signature key => signedCrypto.checkSignature (Hash.ofByte 2) key signature = true)
        [signingSignature] referencedOutput.keys ∧
      ((validatorAt multisignatureTransaction).validateTransactionInputs
        (ValidationRun.fresh .empty)).1 = true ∧
      ((validatorAt multisignatureTransaction).validateTransactionInputsExpensive
        (ValidationRun.fresh .empty)).2.validationResult.errorCode = .INPUT_INVALID_SIGNATURES ∧
      ((validatorAt multisignatureTransaction).validateTransactionInputsExpensive
        (ValidationRun.fresh .empty)).1 = false := by
  refine ⟨by decide, List.SublistForall₂.cons (by decide) List.SublistForall₂.nil, ?_⟩
  decide +kernel

/-! ## Ring members from offsets -/

section Offsets

open TransactionValidator

theorem lt_add_iff_no_wrap (previous offset : UInt32) :
    previous < previous + offset ↔ 0 < offset.toNat ∧ previous.toNat + offset.toNat < 2 ^ 32 := by
  have previousBound := previous.toNat_lt
  have offsetBound := offset.toNat_lt
  rw [UInt32.lt_iff_toNat_lt, UInt32.toNat_add]
  by_cases wraps : 2 ^ 32 ≤ previous.toNat + offset.toNat
  · rw [Nat.mod_eq_sub_mod wraps, Nat.mod_eq_of_lt (by omega)]
    omega
  · rw [Nat.mod_eq_of_lt (by omega)]
    omega

theorem absoluteIndexes_increasing_iff (previous : UInt32) (offsets : List UInt32)
    (nonzero : ∀ o ∈ offsets, o ≠ 0) :
    (previous :: absoluteIndexes previous offsets).Pairwise (· < ·) ↔
      previous.toNat + (offsets.map UInt32.toNat).sum < 2 ^ 32 := by
  induction offsets generalizing previous with
  | nil => simp [absoluteIndexes, previous.toNat_lt]
  | cons offset rest ih =>
    have positive : 0 < offset.toNat := by
      rw [Nat.pos_iff_ne_zero, Ne, ← UInt32.toNat_zero, UInt32.toNat_inj]
      exact nonzero offset List.mem_cons_self
    have tail := ih (previous + offset) fun o mem => nonzero o (List.mem_cons_of_mem _ mem)
    rw [absoluteIndexes, List.pairwise_cons, tail, List.map_cons, List.sum_cons]
    constructor
    · rintro ⟨below, fits⟩
      -- the first step does not wrap, so the sums add up
      obtain ⟨-, noWrap⟩ := (lt_add_iff_no_wrap previous offset).mp (below _ List.mem_cons_self)
      rw [UInt32.toNat_add, Nat.mod_eq_of_lt noWrap] at fits
      omega
    · intro fits
      have step : previous < previous + offset := (lt_add_iff_no_wrap previous offset).mpr ⟨positive, by omega⟩
      have sum : (previous + offset).toNat = previous.toNat + offset.toNat := by
        rw [UInt32.toNat_add, Nat.mod_eq_of_lt (by omega)]
      refine ⟨?_, by omega⟩
      -- every later index is above `previous + offset`, which is above `previous`
      have later := tail.mpr (by omega)
      intro x mem
      rcases List.mem_cons.mp mem with rfl | mem
      · exact step
      · exact UInt32.lt_trans step (List.rel_of_pairwise_cons later mem)

end Offsets

/-- One key input whose offsets `5, 1, 2^32 - 1` name the outputs `5, 6, 5`. -/
def repeatedRingTransaction : Transaction where
  version := 1
  unlockTime := 0
  inputs := [.key ⟨1000000, [5, 1, 4294967295], KeyImage.ofByte 7⟩]
  outputs := [⟨900000, .key ⟨PublicKey.ofByte 3⟩⟩]
  extra := []
  signatures := [List.replicate 3 (Signature.ofByte 5)]

theorem repeatedRing_accepted :
    TransactionValidator.absoluteIndexes 0 [5, 1, 4294967295] = [5, 6, 5] ∧
      ((validatorAt repeatedRingTransaction).validate (ValidationRun.fresh .empty)).toOption.map
        (fun returned => (returned.1.valid, returned.1.errorCode)) =
        some (true, .VALIDATION_SUCCESS) := by
  decide +kernel

end CryptoNote
