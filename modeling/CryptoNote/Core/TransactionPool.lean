import CryptoNote.Core.ValidationFaults
import CryptoNote.Core.TransactionExtra

/-!
# Transaction pool

`TransactionPool::pushTransaction` and `removeTransaction`
(`CryptoNoteCore/TransactionPool.cpp`).  The pool keeps a multi-index container
of pending transactions, unique by hash, and beside it `poolState`, the entries
spent by the pooled transactions.  A push is handed the state that the validator
filled for the transaction; a removal rebuilds the entries from the
transaction's inputs with `excludeFromState`.  The two agree because a
successful `validateTransactionInputs` fills exactly what the inputs spend.
-/

set_option autoImplicit false

namespace CryptoNote

open Crypto

/-! ## What `validateTransactionInputs` fills -/

namespace TransactionValidator

variable (v : TransactionValidator)

theorem checkKeyInput_accepted {ki : Finset KeyImage} {input : KeyInput} {run next : ValidationRun}
    (accepted : v.checkKeyInput ki input run = (true, next)) :
    input.keyImage ∉ run.validatorState.spentKeyImages ∧
      next.validatorState = { run.validatorState with
        spentKeyImages := insert input.keyImage run.validatorState.spentKeyImages } := by
  unfold TransactionValidator.checkKeyInput at accepted
  split_ifs at accepted with identical empty domain repeated spent
  all_goals try simp [ValidationRun.reject] at accepted
  subst accepted
  exact ⟨spent, rfl⟩

theorem checkMultisignatureInput_accepted {input : MultisignatureInput} {run next : ValidationRun}
    (accepted : v.checkMultisignatureInput input run = (true, next)) :
    (input.amount, input.outputIndex) ∉ run.validatorState.spentMultisignatureGlobalIndexes ∧
      next.validatorState = { run.validatorState with
        spentMultisignatureGlobalIndexes :=
          insert (input.amount, input.outputIndex) run.validatorState.spentMultisignatureGlobalIndexes } := by
  unfold TransactionValidator.checkMultisignatureInput at accepted
  dsimp only at accepted
  split at accepted
  · simp [ValidationRun.reject] at accepted
  · rename_i fresh
    repeat' split at accepted
    all_goals try simp [ValidationRun.reject] at accepted
    subst accepted
    exact ⟨fresh, rfl⟩

theorem validateInputsLoop_continued {rest : List TransactionInput} {ki' : Finset KeyImage}
    {sumOfInputs amount : UInt64} {step : Bool × ValidationRun} {final : ValidationRun}
    (returned : (if !step.1 then (false, step.2)
       else if UInt64.ofNat (2 ^ 64 - 1) - amount < sumOfInputs then
         step.2.reject .INPUTS_AMOUNT_OVERFLOW "Transaction inputs will overflow"
       else v.validateInputsLoop ki' (sumOfInputs + amount) rest step.2) = (true, final)) :
    step = (true, step.2) ∧ v.validateInputsLoop ki' (sumOfInputs + amount) rest step.2 = (true, final) := by
  obtain ⟨ok, next⟩ := step
  cases ok with
  | false => simp at returned
  | true =>
      simp only [Bool.not_true, Bool.false_eq_true, if_false] at returned
      split at returned
      · simp [ValidationRun.reject] at returned
      · exact ⟨rfl, returned⟩

theorem validateInputsLoop_fills :
    ∀ (inputs : List TransactionInput) (ki : Finset KeyImage) (sumOfInputs : UInt64)
      (run final : ValidationRun), v.validateInputsLoop ki sumOfInputs inputs run = (true, final) →
        SpendsDistinct inputs ∧ (extractInputs inputs).Separate run.validatorState ∧
          final.validatorState = mergeStates run.validatorState (extractInputs inputs) := by
  intro inputs
  induction inputs with
  | nil =>
      intro ki sumOfInputs run final returned
      simp only [TransactionValidator.validateInputsLoop, Prod.mk.injEq, true_and] at returned
      subst final
      refine ⟨trivial, ⟨by simp [extractInputs, inputKeyImages], by simp [extractInputs, inputMultisignatures]⟩, ?_⟩
      exact (mergeStates_empty _).symm
  | cons input rest ih =>
      intro ki sumOfInputs run final returned
      cases input with
      | key keyInput =>
          obtain ⟨accepted, continued⟩ := v.validateInputsLoop_continued returned
          obtain ⟨fresh, filled⟩ := v.checkKeyInput_accepted accepted
          obtain ⟨distinct, separate, merged⟩ := ih _ _ _ final continued
          rw [filled] at separate merged
          have notInRest : keyInput.keyImage ∉ inputKeyImages rest := fun mem =>
            Finset.disjoint_left.mp separate.1 mem (Finset.mem_insert_self _ _)
          refine ⟨⟨notInRest, distinct⟩, ⟨?_, separate.2⟩, ?_⟩
          · simp only [extractInputs, inputKeyImages, Finset.disjoint_insert_left]
            exact ⟨fresh, Finset.disjoint_of_subset_right (Finset.subset_insert _ _) separate.1⟩
          · rw [merged]
            ext1
            · simp only [mergeStates_spentKeyImages, extractInputs, inputKeyImages,
                Finset.insert_union, Finset.union_insert]
            · rfl
      | multisignature msInput =>
          obtain ⟨accepted, continued⟩ := v.validateInputsLoop_continued returned
          obtain ⟨fresh, filled⟩ := v.checkMultisignatureInput_accepted accepted
          obtain ⟨distinct, separate, merged⟩ := ih _ _ _ final continued
          rw [filled] at separate merged
          have notInRest : (msInput.amount, msInput.outputIndex) ∉ inputMultisignatures rest :=
            fun mem => Finset.disjoint_left.mp separate.2 mem (Finset.mem_insert_self _ _)
          refine ⟨⟨notInRest, distinct⟩, ⟨separate.1, ?_⟩, ?_⟩
          · simp only [extractInputs, inputMultisignatures, Finset.disjoint_insert_left]
            exact ⟨fresh, Finset.disjoint_of_subset_right (Finset.subset_insert _ _) separate.2⟩
          · rw [merged]
            ext1
            · rfl
            · simp only [mergeStates_spentMultisignatureGlobalIndexes, extractInputs,
                inputMultisignatures, Finset.insert_union, Finset.union_insert]
      | base baseInput =>
          simp [TransactionValidator.validateInputsLoop, ValidationRun.reject] at returned

theorem validateTransactionInputs_fills {run final : ValidationRun}
    (returned : v.validateTransactionInputs run = (true, final)) :
    SpendsDistinct v.transaction.inputs ∧
      (extractSpentOutputs v.cachedTransaction).Separate run.validatorState ∧
      final.validatorState = mergeStates run.validatorState (extractSpentOutputs v.cachedTransaction) := by
  unfold TransactionValidator.validateTransactionInputs at returned
  split at returned
  · simp [ValidationRun.reject] at returned
  · exact v.validateInputsLoop_fills _ ∅ 0 run final returned

end TransactionValidator

/-- What `Core::addTransactionToPool` hands to the pool with a transaction: the
state that a validator of it filled, from an empty one, in a successful
`validateTransactionInputs`. -/
def ValidatedState (transaction : CachedTransaction) (state : TransactionValidatorState) : Prop :=
  ∃ (v : TransactionValidator) (run : ValidationRun), v.cachedTransaction = transaction ∧
    v.validateTransactionInputs (ValidationRun.fresh .empty) = (true, run) ∧
      run.validatorState = state

theorem ValidatedState.eq_extract {transaction : CachedTransaction} {state : TransactionValidatorState}
    (validated : ValidatedState transaction state) :
    state = extractSpentOutputs transaction ∧ SpendsDistinct transaction.transaction.inputs := by
  obtain ⟨v, run, rfl, returned, rfl⟩ := validated
  obtain ⟨distinct, -, filled⟩ := v.validateTransactionInputs_fills returned
  exact ⟨by simpa [ValidationRun.fresh] using filled, distinct⟩

/-! ## The pool -/

structure PendingTransactionInfo where
  receiveTime : UInt64
  cachedTransaction : CachedTransaction
  paymentId : Option Hash

namespace PendingTransactionInfo

def getTransactionHash (info : PendingTransactionInfo) : Hash :=
  info.cachedTransaction.transactionHash

def spent (info : PendingTransactionInfo) : TransactionValidatorState :=
  extractSpentOutputs info.cachedTransaction

end PendingTransactionInfo

/-- The pool.  Its container is unique by hash (the `hashed_unique` index); the
cost and payment-id indexes order and look up the same elements. -/
structure TransactionPool where
  transactions : List PendingTransactionInfo
  hashesUnique : (transactions.map PendingTransactionInfo.getTransactionHash).Nodup
  poolState : TransactionValidatorState

namespace TransactionPool

def empty : TransactionPool := ⟨[], List.nodup_nil, .empty⟩

/-- `transactionHashIndex.count(hash) > 0`. -/
def hasTransaction (pool : TransactionPool) (hash : Hash) : Bool :=
  pool.transactions.any (·.getTransactionHash == hash)

/-- `transactionHashIndex.emplace(info)`, refused for a hash already present. -/
def emplace (pool : TransactionPool) (info : PendingTransactionInfo) : Bool × TransactionPool :=
  if present : pool.hasTransaction info.getTransactionHash then (false, pool)
  else
    (true, { pool with
      transactions := pool.transactions ++ [info]
      hashesUnique := by
        rw [List.map_append, List.nodup_append]
        refine ⟨pool.hashesUnique, List.nodup_singleton _, ?_⟩
        simp only [hasTransaction, Bool.not_eq_true, List.any_eq_false, beq_iff_eq] at present
        simp only [List.mem_map, List.mem_singleton]
        rintro _ ⟨other, mem, rfl⟩ _ ⟨_, rfl, rfl⟩ same
        exact present other mem same })

/-- `pushTransaction(transaction, transactionState)` at time `now`. -/
def pushTransaction (pool : TransactionPool) (now : UInt64) (transaction : CachedTransaction)
    (transactionState : TransactionValidatorState) : Bool × TransactionPool :=
  let pendingTx : PendingTransactionInfo :=
    { receiveTime := now, cachedTransaction := transaction,
      paymentId := getPaymentIdFromTxExtra transaction.transaction.extra }
  if pool.hasTransaction pendingTx.getTransactionHash then (false, pool)
  else if hasIntersections pool.poolState transactionState then (false, pool)
  else { pool with poolState := mergeStates pool.poolState transactionState }.emplace pendingTx

/-- `removeTransaction(hash)`; `none` is a failed assertion of `excludeFromState`. -/
def removeTransaction (pool : TransactionPool) (hash : Hash) : Option (Bool × TransactionPool) :=
  match pool.transactions.find? (·.getTransactionHash == hash) with
  | none => some (false, pool)
  | some info => do
      let poolState ← excludeFromState pool.poolState info.cachedTransaction
      -- the hash is unique, so erasing the found element erases every one with its hash
      some (true,
        { transactions := pool.transactions.filter (·.getTransactionHash != hash)
          hashesUnique := pool.hashesUnique.sublist (List.filter_sublist.map _)
          poolState })

end TransactionPool

inductive PoolOperation
  | push (now : UInt64) (transaction : CachedTransaction) (transactionState : TransactionValidatorState)
  | remove (hash : Hash)

namespace PoolOperation

/-- The operation applied; `none` when an assertion fails. -/
def apply : PoolOperation → TransactionPool → Option TransactionPool
  | .push now transaction transactionState, pool =>
      some (pool.pushTransaction now transaction transactionState).2
  | .remove hash, pool => (pool.removeTransaction hash).map Prod.snd

/-- A push carries the state its transaction's validation filled. -/
def Admissible : PoolOperation → Prop
  | .push _ transaction transactionState => ValidatedState transaction transactionState
  | .remove _ => True

end PoolOperation

def runPool : List PoolOperation → TransactionPool → Option TransactionPool
  | [], pool => some pool
  | op :: ops, pool => do
      let next ← op.apply pool
      runPool ops next

/-! ## The spent-state invariant -/

def statesUnion : List PendingTransactionInfo → TransactionValidatorState
  | [] => .empty
  | info :: rest => mergeStates info.spent (statesUnion rest)

/-- `poolState` is what the pooled transactions spend, and they spend distinct
entries, each transaction within itself and all of them among each other. -/
structure PoolInvariant (pool : TransactionPool) : Prop where
  spendsDistinct : ∀ info ∈ pool.transactions, SpendsDistinct info.cachedTransaction.transaction.inputs
  separate : pool.transactions.Pairwise fun a b => a.spent.Separate b.spent
  poolState_eq : pool.poolState = statesUnion pool.transactions

theorem statesUnion_append (first second : List PendingTransactionInfo) :
    statesUnion (first ++ second) = mergeStates (statesUnion first) (statesUnion second) := by
  induction first with
  | nil => simp [statesUnion]
  | cons info rest ih => simp [statesUnion, ih, mergeStates_assoc]

theorem separate_statesUnion_iff (state : TransactionValidatorState) :
    ∀ transactions : List PendingTransactionInfo,
      state.Separate (statesUnion transactions) ↔ ∀ info ∈ transactions, state.Separate info.spent := by
  intro transactions
  induction transactions with
  | nil => simp [statesUnion, TransactionValidatorState.Separate, TransactionValidatorState.empty]
  | cons info rest ih => simp [statesUnion, separate_mergeStates_iff, ih]

theorem statesUnion_eq_filter (hash : Hash) :
    ∀ (transactions : List PendingTransactionInfo) (info : PendingTransactionInfo),
      (transactions.map PendingTransactionInfo.getTransactionHash).Nodup → info ∈ transactions →
        info.getTransactionHash = hash →
        statesUnion transactions =
          mergeStates (statesUnion (transactions.filter (·.getTransactionHash != hash))) info.spent := by
  intro transactions
  induction transactions with
  | nil => simp
  | cons first rest ih =>
      intro info unique mem hashed
      rw [List.map_cons, List.nodup_cons] at unique
      by_cases same : first.getTransactionHash = hash
      · -- the hash is unique: `first` is `info`, and nothing else is filtered out
        have firstIsInfo : first = info := by
          rcases List.mem_cons.mp mem with rfl | inRest
          · rfl
          · exact absurd (List.mem_map.mpr ⟨info, inRest, hashed.trans same.symm⟩) unique.1
        have kept : rest.filter (·.getTransactionHash != hash) = rest := by
          rw [List.filter_eq_self]
          intro other inRest
          simp only [bne_iff_ne, ne_eq]
          intro otherHashed
          exact unique.1 (List.mem_map.mpr ⟨other, inRest, otherHashed.trans same.symm⟩)
        subst firstIsInfo
        simp [same, kept, statesUnion, mergeStates_comm]
      · have inRest : info ∈ rest := by
          rcases List.mem_cons.mp mem with rfl | inRest
          · exact absurd hashed same
          · exact inRest
        simp [same, statesUnion, ih info unique.2 inRest hashed, mergeStates_assoc]

namespace TransactionPool

theorem pushTransaction_rejected (pool : TransactionPool) (now : UInt64)
    (transaction : CachedTransaction) (transactionState : TransactionValidatorState)
    (rejected : (pool.pushTransaction now transaction transactionState).1 = false) :
    (pool.pushTransaction now transaction transactionState).2 = pool := by
  unfold pushTransaction at rejected ⊢
  dsimp only at rejected ⊢
  split
  · rfl
  · rename_i absent
    split
    · rfl
    · -- the hash was checked absent, so `emplace` does not refuse it
      rw [if_neg absent] at rejected
      split at rejected
      · contradiction
      · unfold emplace at rejected
        split at rejected
        · rename_i present
          exact absurd present absent
        · simp at rejected

theorem pushTransaction_invariant {pool : TransactionPool} (invariant : PoolInvariant pool)
    (now : UInt64) {transaction : CachedTransaction} {transactionState : TransactionValidatorState}
    (validated : ValidatedState transaction transactionState) :
    PoolInvariant (pool.pushTransaction now transaction transactionState).2 := by
  obtain ⟨rfl, distinct⟩ := validated.eq_extract
  unfold pushTransaction
  dsimp only
  split
  · exact invariant
  · rename_i absent
    split
    · exact invariant
    · rename_i disjoint
      rw [Bool.not_eq_true, hasIntersections_eq_false_iff, invariant.poolState_eq,
        separate_statesUnion_iff] at disjoint
      unfold emplace
      split
      · rename_i present
        exact absurd present absent
      refine ⟨?_, ?_, ?_⟩
      · intro info mem
        rcases List.mem_append.mp mem with pooled | added
        · exact invariant.spendsDistinct info pooled
        · rw [List.mem_singleton.mp added]
          exact distinct
      · rw [List.pairwise_append]
        refine ⟨invariant.separate, List.pairwise_singleton _ _, ?_⟩
        intro info pooled added added'
        rw [List.mem_singleton.mp added']
        exact (disjoint info pooled).symm
      · simp [statesUnion_append, statesUnion, invariant.poolState_eq,
          PendingTransactionInfo.spent]

theorem removeTransaction_found {pool : TransactionPool} (invariant : PoolInvariant pool)
    {hash : Hash} {info : PendingTransactionInfo}
    (found : pool.transactions.find? (·.getTransactionHash == hash) = some info) :
    ∃ rest, pool.removeTransaction hash = some (true, rest) ∧ PoolInvariant rest ∧
      rest.poolState.Separate info.spent ∧ mergeStates rest.poolState info.spent = pool.poolState := by
  have mem := List.mem_of_find?_eq_some found
  have hashed : info.getTransactionHash = hash := by simpa using List.find?_some found
  have split := statesUnion_eq_filter hash pool.transactions info pool.hashesUnique mem hashed
  have separate : info.spent.Separate (statesUnion (pool.transactions.filter
      (·.getTransactionHash != hash))) := by
    rw [separate_statesUnion_iff]
    intro other kept
    have otherMem := (List.mem_filter.mp kept).1
    have differs : info ≠ other := by
      rintro rfl
      simp [hashed] at kept
    have : Std.Symm fun a b : PendingTransactionInfo => a.spent.Separate b.spent :=
      ⟨fun _ _ separate => separate.symm⟩
    exact invariant.separate.forall mem otherMem differs
  have excluded := excludeInputs_mergeStates _ info.cachedTransaction.transaction.inputs
    (invariant.spendsDistinct info mem) separate
  have removed : pool.removeTransaction hash = some (true,
      { transactions := pool.transactions.filter (·.getTransactionHash != hash)
        hashesUnique := pool.hashesUnique.sublist (List.filter_sublist.map _)
        poolState := statesUnion (pool.transactions.filter (·.getTransactionHash != hash)) }) := by
    simp only [removeTransaction, found, excludeFromState, invariant.poolState_eq, split,
      PendingTransactionInfo.spent, extractSpentOutputs]
    rw [excluded]
    rfl
  refine ⟨_, removed, ⟨?_, invariant.separate.filter _, rfl⟩, separate.symm,
    split.symm.trans invariant.poolState_eq.symm⟩
  intro other kept
  exact invariant.spendsDistinct other (List.mem_filter.mp kept).1

theorem removeTransaction_invariant {pool : TransactionPool} (invariant : PoolInvariant pool)
    (hash : Hash) : ∃ next, (pool.removeTransaction hash).map Prod.snd = some next ∧ PoolInvariant next := by
  cases found : pool.transactions.find? (·.getTransactionHash == hash) with
  | none => exact ⟨pool, by simp [removeTransaction, found], invariant⟩
  | some info =>
      obtain ⟨rest, removed, restInvariant, -⟩ := removeTransaction_found invariant found
      exact ⟨rest, by simp [removed], restInvariant⟩

theorem find?_getTransactionHash {pool : TransactionPool} {info : PendingTransactionInfo}
    (mem : info ∈ pool.transactions) :
    pool.transactions.find? (·.getTransactionHash == info.getTransactionHash) = some info := by
  cases found : pool.transactions.find? (·.getTransactionHash == info.getTransactionHash) with
  | none => exact absurd (List.find?_eq_none.mp found info mem) (by simp)
  | some other =>
      have sameHash : other.getTransactionHash = info.getTransactionHash := by
        simpa using List.find?_some found
      rw [List.inj_on_of_nodup_map pool.hashesUnique (List.mem_of_find?_eq_some found) mem sameHash]

theorem empty_invariant : PoolInvariant empty :=
  ⟨by simp [empty], List.Pairwise.nil, rfl⟩

end TransactionPool

theorem PoolOperation.apply_invariant {pool : TransactionPool} (invariant : PoolInvariant pool) :
    ∀ op : PoolOperation, op.Admissible → ∃ next, op.apply pool = some next ∧ PoolInvariant next
  | .push now _ _, validated => ⟨_, rfl, TransactionPool.pushTransaction_invariant invariant now validated⟩
  | .remove hash, _ => TransactionPool.removeTransaction_invariant invariant hash

theorem runPool_invariant :
    ∀ (ops : List PoolOperation) (pool : TransactionPool), PoolInvariant pool →
      (∀ op ∈ ops, op.Admissible) → ∃ final, runPool ops pool = some final ∧ PoolInvariant final := by
  intro ops
  induction ops with
  | nil => intro pool invariant _; exact ⟨pool, rfl, invariant⟩
  | cons op ops ih =>
      intro pool invariant admissible
      obtain ⟨next, applied, nextInvariant⟩ :=
        op.apply_invariant invariant (admissible op (List.mem_cons_self ..))
      obtain ⟨final, ran, finalInvariant⟩ :=
        ih next nextInvariant fun other mem => admissible other (List.mem_cons_of_mem _ mem)
      exact ⟨final, by simp [runPool, applied, ran], finalInvariant⟩

/-- Along every sequence of pushes of validated states and removals, the pool
never fails an assertion; its state is the union of what its transactions
spend, which are pairwise separate; removing a pooled transaction takes out
exactly its entries; and a rejected push changes nothing. -/
theorem runPool_spentState (ops : List PoolOperation) (admissible : ∀ op ∈ ops, op.Admissible) :
    ∃ pool, runPool ops TransactionPool.empty = some pool ∧ PoolInvariant pool ∧
      (∀ info ∈ pool.transactions, ∃ rest,
        pool.removeTransaction info.getTransactionHash = some (true, rest) ∧
          rest.poolState.Separate info.spent ∧ mergeStates rest.poolState info.spent = pool.poolState) ∧
      (∀ now transaction transactionState,
        (pool.pushTransaction now transaction transactionState).1 = false →
          (pool.pushTransaction now transaction transactionState).2 = pool) := by
  obtain ⟨pool, ran, invariant⟩ :=
    runPool_invariant ops .empty TransactionPool.empty_invariant admissible
  refine ⟨pool, ran, invariant, ?_, TransactionPool.pushTransaction_rejected pool⟩
  intro info mem
  obtain ⟨rest, removed, -, separate, merged⟩ :=
    TransactionPool.removeTransaction_found invariant (TransactionPool.find?_getTransactionHash mem)
  exact ⟨rest, removed, separate, merged⟩

def wideRingState : TransactionValidatorState := ⟨{KeyImage.ofByte 7}, ∅⟩

theorem runPool_spentState_pushRemove :
    (∀ op ∈ [PoolOperation.push 0 (validatorAt wideRingTransaction).cachedTransaction wideRingState,
      .remove (Hash.ofByte 1)], op.Admissible) ∧
    ∃ pool, runPool [.push 0 (validatorAt wideRingTransaction).cachedTransaction wideRingState,
        .remove (Hash.ofByte 1)] TransactionPool.empty = some pool ∧ PoolInvariant pool ∧
      (∀ info ∈ pool.transactions, ∃ rest,
        pool.removeTransaction info.getTransactionHash = some (true, rest) ∧
          rest.poolState.Separate info.spent ∧ mergeStates rest.poolState info.spent = pool.poolState) ∧
      (∀ now transaction transactionState,
        (pool.pushTransaction now transaction transactionState).1 = false →
          (pool.pushTransaction now transaction transactionState).2 = pool) := by
  have validated : ValidatedState (validatorAt wideRingTransaction).cachedTransaction wideRingState :=
    ⟨validatorAt wideRingTransaction, _, rfl,
      Prod.ext (by decide +kernel) rfl, by decide +kernel⟩
  have admissible : ∀ op ∈ [PoolOperation.push 0 (validatorAt wideRingTransaction).cachedTransaction
      wideRingState, .remove (Hash.ofByte 1)], op.Admissible := by
    simp only [List.mem_cons, List.not_mem_nil, or_false, forall_eq_or_imp, forall_eq]
    exact ⟨validated, trivial⟩
  exact ⟨admissible, runPool_spentState _ admissible⟩

end CryptoNote
