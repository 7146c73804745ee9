import CryptoNote.Lib.CancellableJobs
import CryptoNote.Core.ValidationFaults
import CryptoNote.Core.SerializationRoundTrip

/-! # `validateTransactionInputsExpensive` on the thread pool

`validateTransactionInputsExpensive` hands one job per input to `m_threadPool`
and then reads the futures in input order.  A job that finds
`cancelValidation` set returns `false`; a failing job writes
`m_validationResult.errorCode` and `errorMessage` and returns `false`; the
loop over the futures clears `valid` and sets `cancelValidation` on every
`false`.  That is the pattern of `CancellableJobs` with `expensiveJobs` as the
checks, and `validateTransactionInputsExpensiveUnder` runs it under a schedule
of the pool.  The sequential schedule is `validateTransactionInputsExpensive`.

The returned flag is the same under every schedule.  The error left in
`m_validationResult` is not: two failing jobs that run before the loop reads a
failure both write it, and nothing orders the two writes to the `std::string`,
a data race; the error kept is the last writer's. -/

set_option autoImplicit false

namespace CryptoNote

open Crypto CancellableJobs

namespace TransactionValidator

variable (v : TransactionValidator)

/-- `m_validationResult` after the jobs: with the last error a job wrote, if one did. -/
def storeError (run : ValidationRun) : Option (TransactionValidationError × String) → ValidationRun
  | none => run
  | some (code, message) => (run.reject code message).2

/-- `validateTransactionInputsExpensive` when the pool and the loop over the
futures follow `schedule`; `none` while a future is still unread. -/
def validateTransactionInputsExpensiveUnder (schedule : List Event) (run : ValidationRun) :
    Option (Bool × ValidationRun) :=
  if v.checkpoints.isInCheckpointZone (v.blockHeight + 1) then some (true, run)
  else
    (runSchedule v.expensiveJobs schedule (start v.expensiveJobs)).bind fun final =>
      if final.collected = v.expensiveJobs.length then some (final.valid, storeError run final.shared)
      else none

@[simp] theorem length_expensiveJobs : v.expensiveJobs.length = v.transaction.inputs.length := by
  simp [expensiveJobs]

theorem validateTransactionInputsExpensive_eq (outside : v.checkpoints.isInCheckpointZone (v.blockHeight + 1) = false)
    (run : ValidationRun) :
    v.validateTransactionInputsExpensive run =
      (v.expensiveJobs.all Option.isNone, storeError run (v.expensiveJobs.findSome? id)) := by
  rw [validateTransactionInputsExpensive, if_neg (by simp [outside])]
  cases found : v.expensiveJobs.findSome? id with
  | none => simp [storeError, (findSome?_id_eq_none_iff _).mp found]
  | some error =>
    -- a failing job: the conjunction is false
    have failing : v.expensiveJobs.all Option.isNone = false := by
      cases all : v.expensiveJobs.all Option.isNone
      · rfl
      · rw [(findSome?_id_eq_none_iff _).mpr all] at found
        cases found
    obtain ⟨code, message⟩ := error
    simp [storeError, failing, ValidationRun.reject]

theorem validateTransactionInputsExpensiveUnder_sequential (run : ValidationRun) :
    v.validateTransactionInputsExpensiveUnder (sequential v.transaction.inputs.length) run =
      some (v.validateTransactionInputsExpensive run) := by
  unfold validateTransactionInputsExpensiveUnder
  cases zone : v.checkpoints.isInCheckpointZone (v.blockHeight + 1)
  · obtain ⟨final, ran, complete, valid, shared⟩ := runSchedule_sequential v.expensiveJobs
    rw [length_expensiveJobs] at ran
    rw [if_neg (by simp), ran, Option.bind_some, if_pos complete, valid, shared,
      validateTransactionInputsExpensive_eq v zone]
  · simp [validateTransactionInputsExpensive, zone]

theorem validateTransactionInputsExpensiveUnder_flag {schedule : List Event} {run : ValidationRun}
    {returned : Bool × ValidationRun} (ran : v.validateTransactionInputsExpensiveUnder schedule run = some returned) :
    returned.1 = (v.validateTransactionInputsExpensive run).1 := by
  unfold validateTransactionInputsExpensiveUnder at ran
  cases zone : v.checkpoints.isInCheckpointZone (v.blockHeight + 1)
  · rw [if_neg (by simp [zone])] at ran
    obtain ⟨final, pool, done⟩ := Option.bind_eq_some_iff.mp ran
    by_cases complete : final.collected = v.expensiveJobs.length
    · rw [if_pos complete] at done
      cases done
      rw [validateTransactionInputsExpensive_eq v zone, valid_of_complete pool complete]
    · rw [if_neg complete] at done
      cases done
  · rw [if_pos (by simp [zone])] at ran
    cases ran
    simp [validateTransactionInputsExpensive, zone]

/-- On the thread pool, the expensive input check refines the sequential loop:
the sequential schedule computes what `validateTransactionInputsExpensive`
computes, and every schedule under which it returns gives the loop's flag. -/
theorem validateTransactionInputsExpensiveUnder_refines (run : ValidationRun) :
    v.validateTransactionInputsExpensiveUnder (sequential v.transaction.inputs.length) run =
        some (v.validateTransactionInputsExpensive run) ∧
      ∀ schedule returned, v.validateTransactionInputsExpensiveUnder schedule run = some returned →
        returned.1 = (v.validateTransactionInputsExpensive run).1 :=
  ⟨v.validateTransactionInputsExpensiveUnder_sequential run,
    fun _ _ ran => v.validateTransactionInputsExpensiveUnder_flag ran⟩

theorem expensiveSchedule_extends {schedule : List Event} {s : PoolState (TransactionValidationError × String)}
    (ran : runSchedule v.expensiveJobs schedule (start v.expensiveJobs) = some s)
    (waiting : s.collected < v.transaction.inputs.length) :
    ∃ event s', runSchedule v.expensiveJobs (schedule ++ [event]) (start v.expensiveJobs) = some s' := by
  obtain ⟨event, s', stepped⟩ :=
    step_enabled (runSchedule_invariant schedule ran) (by rwa [length_expensiveJobs])
  refine ⟨event, s', ?_⟩
  rw [runSchedule_append, ran, Option.bind_some]
  simp [runSchedule, stepped]

end TransactionValidator

def keyImageSpentChain : IBlockchainCache :=
  { unspentChain with checkIfSpent := fun keyImage _ => decide (keyImage = KeyImage.ofByte 7) }

def twoFailingInputsTransaction : Transaction where
  version := 1
  unlockTime := 0
  inputs := [.key ⟨1000000, [5, 1, 1], KeyImage.ofByte 7⟩, .multisignature ⟨5000, 1, 0⟩]
  outputs := [⟨900000, .key ⟨PublicKey.ofByte 3⟩⟩]
  extra := []
  signatures := [List.replicate 3 (Signature.ofByte 5), [signingSignature]]

def doubleSpendValidator : TransactionValidator :=
  { validatorAt twoFailingInputsTransaction with blockchainCache := keyImageSpentChain }

theorem expensiveValidation_scheduleDependent :
    (∃ blob, twoFailingInputsTransaction.toBinaryArray = .ok blob ∧
        Transaction.fromBinaryArray blob = .ok twoFailingInputsTransaction) ∧
      doubleSpendValidator.expensiveJobs =
        [some (.INPUT_KEYIMAGE_ALREADY_SPENT, "Transaction contains key image that has already been spent"),
          some (.INPUT_INVALID_SIGNATURES, "Transaction has input with invalid signature")] ∧
      (doubleSpendValidator.validate (ValidationRun.fresh .empty)).toOption.map
          (fun returned => returned.1.errorCode) = some .INPUT_KEYIMAGE_ALREADY_SPENT ∧
      (runSchedule doubleSpendValidator.expensiveJobs [.run 0, .run 1]
          (start doubleSpendValidator.expensiveJobs)).map (fun s => (s.shared, s.writers)) =
        some (some (.INPUT_INVALID_SIGNATURES, "Transaction has input with invalid signature"), [0, 1]) ∧
      (doubleSpendValidator.validateTransactionInputsExpensiveUnder
          [.run 0, .run 1, .collect, .collect] (ValidationRun.fresh .empty)).map
          (fun returned => (returned.1, returned.2.validationResult.errorCode)) =
        some (false, .INPUT_INVALID_SIGNATURES) ∧
      (doubleSpendValidator.validateTransactionInputsExpensiveUnder
          [.run 1, .run 0, .collect, .collect] (ValidationRun.fresh .empty)).map
          (fun returned => (returned.1, returned.2.validationResult.errorCode)) =
        some (false, .INPUT_KEYIMAGE_ALREADY_SPENT) := by
  have decodable := Transaction.fromBinaryArray_toBinaryArray twoFailingInputsTransaction (by decide)
    ⟨by simp [twoFailingInputsTransaction], by simp [twoFailingInputsTransaction],
      by simp [twoFailingInputsTransaction], by simp [twoFailingInputsTransaction, TransactionInput.SizesFit],
      by simp [twoFailingInputsTransaction, TransactionOutput.SizesFit]⟩
    (by simp [SignaturesShaped, twoFailingInputsTransaction, Transaction.onlyBaseInput,
      TransactionInput.getSignaturesCount])
  have jobs : doubleSpendValidator.expensiveJobs =
      [some (.INPUT_KEYIMAGE_ALREADY_SPENT, "Transaction contains key image that has already been spent"),
        some (.INPUT_INVALID_SIGNATURES, "Transaction has input with invalid signature")] := by
    decide +kernel
  refine ⟨decodable, jobs, by decide +kernel, ?_, ?_, ?_⟩
  · rw [jobs]
    exact two_failures_both_write (by decide) rfl rfl
  all_goals
    simp only [TransactionValidator.validateTransactionInputsExpensiveUnder, jobs]
    decide

end CryptoNote
