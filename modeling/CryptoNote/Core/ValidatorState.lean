import CryptoNote.Core.Transaction

/-! # Transaction validator state

`TransactionValidatorState` (`TransactionValidatorState.h`) records what a
transaction or a block spends: key images, and multisignature outputs as
`(amount, global index)` pairs.  Both containers are sets in the source
(`unordered_set`, `set`), so they are `Finset`s here.  `excludeFromState`
asserts that every input it removes is present; a failed assertion is `none`. -/
set_option autoImplicit false

namespace CryptoNote

open Crypto

@[ext] structure TransactionValidatorState where
  spentKeyImages : Finset KeyImage
  spentMultisignatureGlobalIndexes : Finset (UInt64 × UInt32)
  deriving DecidableEq

namespace TransactionValidatorState

def empty : TransactionValidatorState := ⟨∅, ∅⟩

def Separate (a b : TransactionValidatorState) : Prop :=
  Disjoint a.spentKeyImages b.spentKeyImages ∧
    Disjoint a.spentMultisignatureGlobalIndexes b.spentMultisignatureGlobalIndexes

end TransactionValidatorState

/-- `mergeStates`: `destination` gains every entry of `source`. -/
def mergeStates (destination source : TransactionValidatorState) : TransactionValidatorState where
  spentKeyImages := destination.spentKeyImages ∪ source.spentKeyImages
  spentMultisignatureGlobalIndexes :=
    destination.spentMultisignatureGlobalIndexes ∪ source.spentMultisignatureGlobalIndexes

/-- `hasIntersections`: some entry of `source` is already in `destination`. -/
def hasIntersections (destination source : TransactionValidatorState) : Bool :=
  decide (∃ keyImage ∈ source.spentKeyImages, keyImage ∈ destination.spentKeyImages) ||
    decide (∃ pair ∈ source.spentMultisignatureGlobalIndexes,
      pair ∈ destination.spentMultisignatureGlobalIndexes)

/-- One iteration of `excludeFromState`: the input's entry must be present
(`assert`) and is erased.  A base input reaches `assert(false)`. -/
def excludeInput (state : TransactionValidatorState) : TransactionInput → Option TransactionValidatorState
  | .key input =>
      if input.keyImage ∈ state.spentKeyImages then
        some { state with spentKeyImages := state.spentKeyImages.erase input.keyImage }
      else none
  | .multisignature input =>
      if (input.amount, input.outputIndex) ∈ state.spentMultisignatureGlobalIndexes then
        some { state with
          spentMultisignatureGlobalIndexes :=
            state.spentMultisignatureGlobalIndexes.erase (input.amount, input.outputIndex) }
      else none
  | .base _ => none

/-- `excludeFromState`: erase the entries of every input of the transaction,
in input order; `none` when one of its assertions fails. -/
def excludeFromState (state : TransactionValidatorState) (cachedTransaction : CachedTransaction) :
    Option TransactionValidatorState :=
  cachedTransaction.transaction.inputs.foldlM excludeInput state

/-- The entry an input spends, as `extractSpentOutputs` inserts it. -/
def inputKeyImages : List TransactionInput → Finset KeyImage
  | [] => ∅
  | .key input :: rest => insert input.keyImage (inputKeyImages rest)
  | _ :: rest => inputKeyImages rest

def inputMultisignatures : List TransactionInput → Finset (UInt64 × UInt32)
  | [] => ∅
  | .multisignature input :: rest => insert (input.amount, input.outputIndex) (inputMultisignatures rest)
  | _ :: rest => inputMultisignatures rest

def extractInputs (inputs : List TransactionInput) : TransactionValidatorState where
  spentKeyImages := inputKeyImages inputs
  spentMultisignatureGlobalIndexes := inputMultisignatures inputs

/-- `extractSpentOutputs` (`Core.cpp`): what a transaction spends.  Its
`assert`s (no repeated entry, no base input) are debug checks that do not
change the value. -/
def extractSpentOutputs (cachedTransaction : CachedTransaction) : TransactionValidatorState :=
  extractInputs cachedTransaction.transaction.inputs

/-- What the assertions of `extractSpentOutputs` require: no base input, and no
key image or multisignature output spent twice. -/
def SpendsDistinct : List TransactionInput → Prop
  | [] => True
  | .key input :: rest => input.keyImage ∉ inputKeyImages rest ∧ SpendsDistinct rest
  | .multisignature input :: rest =>
      (input.amount, input.outputIndex) ∉ inputMultisignatures rest ∧ SpendsDistinct rest
  | .base _ :: _ => False

section Lemmas

@[simp] theorem mergeStates_spentKeyImages (a b : TransactionValidatorState) :
    (mergeStates a b).spentKeyImages = a.spentKeyImages ∪ b.spentKeyImages := rfl

@[simp] theorem mergeStates_spentMultisignatureGlobalIndexes (a b : TransactionValidatorState) :
    (mergeStates a b).spentMultisignatureGlobalIndexes =
      a.spentMultisignatureGlobalIndexes ∪ b.spentMultisignatureGlobalIndexes := rfl

theorem hasIntersections_eq_false_iff (a b : TransactionValidatorState) :
    hasIntersections a b = false ↔ TransactionValidatorState.Separate b a := by
  simp only [hasIntersections, Bool.or_eq_false_iff, decide_eq_false_iff_not, not_exists, not_and,
    TransactionValidatorState.Separate, Finset.disjoint_left]

theorem mergeStates_comm (a b : TransactionValidatorState) : mergeStates a b = mergeStates b a := by
  ext <;> simp [Finset.mem_union, or_comm]

theorem mergeStates_assoc (a b c : TransactionValidatorState) :
    mergeStates (mergeStates a b) c = mergeStates a (mergeStates b c) := by
  ext <;> simp [Finset.union_assoc]

@[simp] theorem mergeStates_empty (a : TransactionValidatorState) :
    mergeStates a .empty = a := by
  ext <;> simp [TransactionValidatorState.empty]

@[simp] theorem empty_mergeStates (a : TransactionValidatorState) :
    mergeStates .empty a = a := by
  ext <;> simp [TransactionValidatorState.empty]

theorem TransactionValidatorState.Separate.symm {a b : TransactionValidatorState} (separate : a.Separate b) : b.Separate a :=
  ⟨separate.1.symm, separate.2.symm⟩

theorem separate_mergeStates_iff (a b c : TransactionValidatorState) :
    a.Separate (mergeStates b c) ↔ a.Separate b ∧ a.Separate c := by
  simp only [TransactionValidatorState.Separate, mergeStates_spentKeyImages,
    mergeStates_spentMultisignatureGlobalIndexes, Finset.disjoint_union_right]
  tauto

theorem excludeInputs_mergeStates (rest : TransactionValidatorState) :
    ∀ inputs : List TransactionInput, SpendsDistinct inputs →
      (extractInputs inputs).Separate rest →
        inputs.foldlM excludeInput (mergeStates rest (extractInputs inputs)) = some rest := by
  intro inputs
  induction inputs with
  | nil =>
      intro _ _
      show some (mergeStates rest .empty) = some rest
      rw [mergeStates_empty]
  | cons input inputs ih =>
      intro distinct separate
      cases input with
      | key input =>
          obtain ⟨fresh, distinctRest⟩ := distinct
          have notInRest : input.keyImage ∉ rest.spentKeyImages :=
            Finset.disjoint_left.mp separate.1 (by simp [extractInputs, inputKeyImages])
          have separateRest : (extractInputs inputs).Separate rest :=
            ⟨Finset.disjoint_of_subset_left (by simp [extractInputs, inputKeyImages]) separate.1,
              separate.2⟩
          have present : input.keyImage ∈
              (mergeStates rest (extractInputs (.key input :: inputs))).spentKeyImages := by
            simp [extractInputs, inputKeyImages]
          have removed : excludeInput (mergeStates rest (extractInputs (.key input :: inputs)))
              (.key input) = some (mergeStates rest (extractInputs inputs)) := by
            rw [excludeInput, if_pos present]
            congr 1
            ext1
            · simp only [mergeStates_spentKeyImages, extractInputs, inputKeyImages,
                Finset.union_insert]
              exact Finset.erase_insert (by simp [notInRest, fresh])
            · rfl
          rw [List.foldlM_cons, removed]
          exact ih distinctRest separateRest
      | multisignature input =>
          obtain ⟨fresh, distinctRest⟩ := distinct
          have notInRest : (input.amount, input.outputIndex) ∉ rest.spentMultisignatureGlobalIndexes :=
            Finset.disjoint_left.mp separate.2 (by simp [extractInputs, inputMultisignatures])
          have separateRest : (extractInputs inputs).Separate rest :=
            ⟨separate.1, Finset.disjoint_of_subset_left
              (by simp [extractInputs, inputMultisignatures]) separate.2⟩
          have present : (input.amount, input.outputIndex) ∈
              (mergeStates rest (extractInputs (.multisignature input :: inputs))).spentMultisignatureGlobalIndexes := by
            simp [extractInputs, inputMultisignatures]
          have removed : excludeInput (mergeStates rest (extractInputs (.multisignature input :: inputs)))
              (.multisignature input) = some (mergeStates rest (extractInputs inputs)) := by
            rw [excludeInput, if_pos present]
            congr 1
            ext1
            · rfl
            · simp only [mergeStates_spentMultisignatureGlobalIndexes, extractInputs,
                inputMultisignatures, Finset.union_insert]
              exact Finset.erase_insert (by simp [notInRest, fresh])
          rw [List.foldlM_cons, removed]
          exact ih distinctRest separateRest
      | base _ => exact absurd distinct id

end Lemmas

end CryptoNote
