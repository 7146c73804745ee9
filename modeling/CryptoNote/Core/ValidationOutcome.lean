import CryptoNote.Core.TransactionValidator

/-! # What `validate` can return

Every stage of `TransactionValidator::validate` either goes on or stops after
recording an error code; no stage touches `valid`.  So the result of a fresh
validator is valid with `VALIDATION_SUCCESS`, or invalid with the code of the
stage that stopped it.  The mixin stage records `INVALID_MIXIN` and goes on, so
that code is overwritten by a later stage or by the closing success assignment
and never reaches a result.  The fee stage throws exactly when the first three
stages pass and the key inputs carry no amount. -/
set_option autoImplicit false

namespace CryptoNote

open Crypto parameters

/-- The validator as its constructor leaves it, around the caller's state. -/
def ValidationRun.fresh (state : TransactionValidatorState) : ValidationRun :=
  { validatorState := state }

/-- A code a stopping stage may leave: an error other than the mixin one. -/
def StopCode (code : TransactionValidationError) : Prop :=
  code ≠ .VALIDATION_SUCCESS ∧ code ≠ .INVALID_MIXIN

/-- A stage kept `valid`, and if it stopped, it recorded a `StopCode`. -/
def WellBehaved (run : ValidationRun) (step : Bool × ValidationRun) : Prop :=
  step.2.validationResult.valid = run.validationResult.valid ∧
    (step.1 = false → StopCode step.2.validationResult.errorCode)

namespace TransactionValidator

variable (v : TransactionValidator)

theorem wellBehaved_reject (run : ValidationRun) (code : TransactionValidationError)
    (message : String) (stop : StopCode code) : WellBehaved run (run.reject code message) :=
  ⟨rfl, fun _ => stop⟩

theorem wellBehaved_continue {run next : ValidationRun}
    (keeps : next.validationResult.valid = run.validationResult.valid) :
    WellBehaved run (true, next) :=
  ⟨keeps, fun stopped => absurd stopped (by simp)⟩

theorem WellBehaved.trans {run middle : ValidationRun} {step : Bool × ValidationRun}
    (first : middle.validationResult.valid = run.validationResult.valid)
    (second : WellBehaved middle step) : WellBehaved run step :=
  ⟨second.1.trans first, second.2⟩

theorem validateTransactionSize_wellBehaved (run : ValidationRun) :
    WellBehaved run (v.validateTransactionSize run) := by
  unfold TransactionValidator.validateTransactionSize
  split
  · exact wellBehaved_reject _ _ _ (by simp [StopCode])
  · exact wellBehaved_continue rfl

theorem checkKeyInput_wellBehaved (ki : Finset KeyImage) (input : KeyInput) (run : ValidationRun) :
    WellBehaved run (v.checkKeyInput ki input run) := by
  unfold TransactionValidator.checkKeyInput
  split_ifs
  all_goals first
    | exact wellBehaved_reject _ _ _ (by simp [StopCode])
    | exact wellBehaved_continue rfl

theorem checkMultisignatureInput_wellBehaved (input : MultisignatureInput) (run : ValidationRun) :
    WellBehaved run (v.checkMultisignatureInput input run) := by
  unfold TransactionValidator.checkMultisignatureInput
  dsimp only
  -- every branch of the source either rejects or returns `true`
  repeat' split
  all_goals first
    | exact wellBehaved_reject _ _ _ (by simp [StopCode])
    | exact wellBehaved_continue rfl

theorem validateInputsLoop_step_wellBehaved (rest : List TransactionInput) (ki' : Finset KeyImage)
    (sumOfInputs amount : UInt64) (run : ValidationRun) (step : Bool × ValidationRun)
    (checked : WellBehaved run step)
    (restBehaves : ∀ next : ValidationRun,
      WellBehaved next (v.validateInputsLoop ki' (sumOfInputs + amount) rest next)) :
    WellBehaved run
      (if !step.1 then (false, step.2)
       else if UInt64.ofNat (2 ^ 64 - 1) - amount < sumOfInputs then
         step.2.reject .INPUTS_AMOUNT_OVERFLOW "Transaction inputs will overflow"
       else v.validateInputsLoop ki' (sumOfInputs + amount) rest step.2) := by
  obtain ⟨ok, next⟩ := step
  cases ok with
  | false => exact checked
  | true =>
      have keeps := checked.1
      simp only [Bool.not_true, Bool.false_eq_true, if_false]
      split
      · exact WellBehaved.trans keeps (wellBehaved_reject _ _ _ (by simp [StopCode]))
      · exact WellBehaved.trans keeps (restBehaves next)

theorem validateInputsLoop_wellBehaved :
    ∀ (inputs : List TransactionInput) (ki : Finset KeyImage) (sumOfInputs : UInt64)
      (run : ValidationRun), WellBehaved run (v.validateInputsLoop ki sumOfInputs inputs run) := by
  intro inputs
  induction inputs with
  | nil => intro ki sumOfInputs run; exact wellBehaved_continue rfl
  | cons input rest ih =>
      intro ki sumOfInputs run
      cases input with
      | key keyInput =>
          exact validateInputsLoop_step_wellBehaved v rest _ sumOfInputs keyInput.amount run _
            (v.checkKeyInput_wellBehaved ki keyInput run) (ih _ _)
      | multisignature msInput =>
          exact validateInputsLoop_step_wellBehaved v rest ki sumOfInputs 0 run _
            (v.checkMultisignatureInput_wellBehaved msInput run) (ih _ _)
      | base baseInput =>
          exact validateInputsLoop_step_wellBehaved v rest ki sumOfInputs 0 run _
            (wellBehaved_reject _ _ _ (by simp [StopCode])) (ih _ _)

theorem validateTransactionInputs_wellBehaved (run : ValidationRun) :
    WellBehaved run (v.validateTransactionInputs run) := by
  unfold TransactionValidator.validateTransactionInputs
  split
  · exact wellBehaved_reject _ _ _ (by simp [StopCode])
  · exact v.validateInputsLoop_wellBehaved _ _ _ run

theorem checkOutput_wellBehaved (output : TransactionOutput) (run : ValidationRun) :
    WellBehaved run (v.checkOutput output run) := by
  unfold TransactionValidator.checkOutput
  repeat' split
  all_goals first
    | exact wellBehaved_reject _ _ _ (by simp [StopCode])
    | exact wellBehaved_continue rfl

theorem validateOutputsLoop_wellBehaved :
    ∀ (outputs : List TransactionOutput) (sumOfOutputs : UInt64) (run : ValidationRun),
      WellBehaved run (v.validateOutputsLoop sumOfOutputs outputs run) := by
  intro outputs
  induction outputs with
  | nil => intro sumOfOutputs run; exact wellBehaved_continue rfl
  | cons output rest ih =>
      intro sumOfOutputs run
      have checked := v.checkOutput_wellBehaved output run
      simp only [TransactionValidator.validateOutputsLoop]
      generalize v.checkOutput output run = step at checked ⊢
      obtain ⟨ok, next⟩ := step
      cases ok with
      | false => exact checked
      | true =>
          simp only [Bool.not_true, Bool.false_eq_true, if_false]
          split
          · exact WellBehaved.trans checked.1 (wellBehaved_reject _ _ _ (by simp [StopCode]))
          · exact WellBehaved.trans checked.1 (ih _ next)

theorem validateTransactionOutputs_wellBehaved (run : ValidationRun) :
    WellBehaved run (v.validateTransactionOutputs run) :=
  v.validateOutputsLoop_wellBehaved _ 0 run

theorem validateTransactionFee_wellBehaved {run : ValidationRun} {step : Bool × ValidationRun}
    (returned : v.validateTransactionFee run = .ok step) : WellBehaved run step := by
  unfold TransactionValidator.validateTransactionFee at returned
  by_cases noInputs : run.sumOfInputs = 0
  · rw [if_pos noInputs] at returned
    cases returned
  · rw [if_neg noInputs] at returned
    by_cases wrongAmount : run.sumOfOutputs > run.sumOfInputs
    · rw [if_pos wrongAmount] at returned
      cases returned
      exact wellBehaved_reject _ _ _ (by simp [StopCode])
    · rw [if_neg wrongAmount] at returned
      dsimp only at returned
      split at returned
      · cases returned
        exact wellBehaved_reject _ _ _ (by simp [StopCode])
      · cases returned
        exact wellBehaved_continue rfl

theorem validateTransactionExtra_wellBehaved (run : ValidationRun) :
    WellBehaved run (v.validateTransactionExtra run) := by
  unfold TransactionValidator.validateTransactionExtra
  dsimp only
  repeat' split
  all_goals first
    | exact wellBehaved_reject _ _ _ (by simp [StopCode])
    | exact wellBehaved_continue rfl

theorem validateTransactionMixin_continues (run : ValidationRun) :
    (v.validateTransactionMixin run).1 = true := by
  unfold TransactionValidator.validateTransactionMixin
  dsimp only
  split <;> rfl

theorem validateTransactionMixin_valid (run : ValidationRun) :
    (v.validateTransactionMixin run).2.validationResult.valid = run.validationResult.valid := by
  unfold TransactionValidator.validateTransactionMixin
  dsimp only
  split <;> rfl

theorem expensiveInputCheck_stopCode (prefixHash : Hash) (inputIndex : Nat)
    (input : TransactionInput) {code : TransactionValidationError} {message : String}
    (failed : v.expensiveInputCheck prefixHash inputIndex input = some (code, message)) :
    StopCode code := by
  cases input with
  | key keyInput =>
      simp only [TransactionValidator.expensiveInputCheck,
        TransactionValidator.expensiveKeyInputCheck] at failed
      repeat' split at failed
      all_goals (cases failed <;> simp [StopCode])
  | multisignature msInput =>
      simp only [TransactionValidator.expensiveInputCheck,
        TransactionValidator.expensiveMultisignatureInputCheck] at failed
      split at failed
      · cases failed
      · cases failed; simp [StopCode]
  | base baseInput =>
      simp only [TransactionValidator.expensiveInputCheck] at failed
      cases failed; simp [StopCode]

theorem validateTransactionInputsExpensive_wellBehaved (run : ValidationRun) :
    WellBehaved run (v.validateTransactionInputsExpensive run) := by
  unfold TransactionValidator.validateTransactionInputsExpensive
  split
  · exact wellBehaved_continue rfl
  · split
    · exact wellBehaved_continue rfl
    · rename_i code message found
      -- the recorded error is that of some job, and every job records a stop code
      obtain ⟨job, member, jobFailed⟩ := List.exists_of_findSome?_eq_some found
      obtain ⟨⟨input, inputIndex⟩, _, rfl⟩ := List.mem_map.mp member
      exact wellBehaved_reject _ _ _ (v.expensiveInputCheck_stopCode _ inputIndex input jobFailed)

theorem validateTransactionMixin_wellBehaved (run : ValidationRun) :
    WellBehaved run (v.validateTransactionMixin run) :=
  ⟨v.validateTransactionMixin_valid run, fun stopped => by
    rw [v.validateTransactionMixin_continues run] at stopped
    cases stopped⟩

/-- What a chain of stages may return, when `valid` was `initial` before it:
success, or `initial` with a stop code. -/
def Outcome (initial : Bool) (returned : Except String (TransactionValidationResult × ValidationRun)) :
    Prop :=
  ∀ result run, returned = .ok (result, run) →
    (result.valid = true ∧ result.errorCode = .VALIDATION_SUCCESS) ∨
      (result.valid = initial ∧ StopCode result.errorCode)

theorem succeed_outcome (initial : Bool) (run : ValidationRun) : Outcome initial (succeed run) := by
  intro result next returned
  cases returned
  exact Or.inl ⟨rfl, rfl⟩

theorem continueWith_outcome (initial : Bool) {run : ValidationRun} {step : Bool × ValidationRun}
    {rest : ValidationRun → Except String (TransactionValidationResult × ValidationRun)}
    (stage : WellBehaved run step) (before : run.validationResult.valid = initial)
    (after : ∀ next : ValidationRun, next.validationResult.valid = initial → Outcome initial (rest next)) :
    Outcome initial (continueWith step rest) := by
  obtain ⟨ok, next⟩ := step
  cases ok with
  | true => exact after next (stage.1.trans before)
  | false =>
      intro result final returned
      cases returned
      exact Or.inr ⟨stage.1.trans before, stage.2 rfl⟩

/-- Every run of `validate` ends valid with `VALIDATION_SUCCESS`, or with the
`valid` it started with and the code of the stage that stopped it; that code
is never `INVALID_MIXIN`. -/
theorem validate_outcome (run : ValidationRun) :
    Outcome run.validationResult.valid (v.validate run) := by
  unfold TransactionValidator.validate
  refine continueWith_outcome _ (v.validateTransactionSize_wellBehaved run) rfl ?_
  intro afterSize sizeValid
  refine continueWith_outcome _ (v.validateTransactionInputs_wellBehaved afterSize) sizeValid ?_
  intro afterInputs inputsValid
  refine continueWith_outcome _ (v.validateTransactionOutputs_wellBehaved afterInputs) inputsValid ?_
  intro afterOutputs outputsValid
  split
  · intro result final returned
    cases returned
  · rename_i step feeReturned
    refine continueWith_outcome _ (v.validateTransactionFee_wellBehaved feeReturned) outputsValid ?_
    intro afterFee feeValid
    refine continueWith_outcome _ (v.validateTransactionExtra_wellBehaved afterFee) feeValid ?_
    intro afterExtra extraValid
    refine continueWith_outcome _ (wellBehaved_continue rfl) extraValid ?_
    intro afterRatio ratioValid
    refine continueWith_outcome _ (v.validateTransactionMixin_wellBehaved afterRatio) ratioValid ?_
    intro afterMixin mixinValid
    exact continueWith_outcome _ (v.validateTransactionInputsExpensive_wellBehaved afterMixin)
      mixinValid fun _ _ => succeed_outcome _ _

end TransactionValidator

end CryptoNote
