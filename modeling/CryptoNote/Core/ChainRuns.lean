import CryptoNote.Core.ChainSplit
import CryptoNote.Core.Serialization

/-!
# Runs of the segment operations

`Reachable blocks chain`: after some run of the operations `Core` applies to
segments, the chain of segments `chain`, from a segment down to the root, holds
the blocks `blocks`.  The operations are the creation of the root segment
(`BlockchainCache` with a null parent, which pushes the genesis block at once:
here that push is the run's first `push`), `pushBlock` onto the segment a chain
is seen from, `split` of any segment of the chain (the upper half takes the
segment's place below the segments above it, as `fixChildrenParent` makes it),
a new segment above the top of one that holds blocks, and the chain seen from a
segment's parent.

Every reachable chain keeps `ChainInvariant` (`Reachable.invariant`), so the
chain queries answer what the blocks say.  The multisignature spends are the
exception: a chain reports every spend of its blocks, and after a split the
lower half also reports the spends of the blocks that moved up.
-/

set_option autoImplicit false

namespace CryptoNote

open ListAlgorithms BlockchainCache Ledger

theorem Ledger.WellFormed.nil : WellFormed [] where
  blockIndex_eq i h := absurd h (Nat.not_lt_zero i)
  blockHashes_nodup := List.nodup_nil
  transactionHashes_nodup := List.nodup_nil
  keyImages_once _ i _ hi := absurd hi (Nat.not_lt_zero i)

/-- The chains of segments a run builds, each with the blocks it holds. -/
inductive Reachable : List PushedBlock → List BlockchainCache → Prop
  | root : Reachable [] [create 0]
  | push {blocks : List PushedBlock} {cache : BlockchainCache} {parent : List BlockchainCache}
      (block : PushedBlock) :
      Reachable blocks (cache :: parent) → WellFormed (blocks ++ [block]) →
      Reachable (blocks ++ [block])
        (pushBlock parent cache block.cachedBlock block.cachedTransactions block.validatorState
          block.generatedCoins block.blockDifficulty :: parent)
  | split {blocks : List PushedBlock} {above below : List BlockchainCache} {cache : BlockchainCache}
      (splitBlockIndex : Nat) :
      Reachable blocks (above ++ cache :: below) → cache.startIndex < splitBlockIndex →
      splitBlockIndex ≤ cache.getTopBlockIndex →
      Reachable blocks (above ++ (cache.split splitBlockIndex).2 :: (cache.split splitBlockIndex).1 :: below)
  | toParent {blocks : List PushedBlock} {cache : BlockchainCache} {below : List BlockchainCache} :
      Reachable blocks (cache :: below) → Reachable (blocks.take cache.startIndex) below
  | fork {blocks : List PushedBlock} {cache : BlockchainCache} {parent : List BlockchainCache} :
      Reachable blocks (cache :: parent) → 0 < cache.getBlockCount →
      Reachable blocks (create (cache.getTopBlockIndex + 1) :: cache :: parent)

theorem SegmentInvariant.lt_of_le_getTopBlockIndex {blocks : List PushedBlock} {cache : BlockchainCache}
    {stop splitBlockIndex : Nat} (segment : SegmentInvariant blocks cache stop)
    (low : cache.startIndex < splitBlockIndex) (high : splitBlockIndex ≤ cache.getTopBlockIndex) :
    splitBlockIndex < stop := by
  have count := segment.storageBlockCount_eq
  unfold getTopBlockIndex at high
  omega

theorem Reachable.invariant {blocks : List PushedBlock} {chain : List BlockchainCache}
    (reach : Reachable blocks chain) : WellFormed blocks ∧ ChainInvariant blocks chain blocks.length := by
  induction reach with
  | root =>
      refine ⟨WellFormed.nil, create_segmentInvariant [] 0, ?_, rfl⟩
      rintro output ⟨j, block, -, inside, -⟩
      exact absurd inside (Nat.not_lt_zero j)
  | push block _ wellFormed ih => exact ⟨wellFormed, pushBlock_chainInvariant ih.2 wellFormed⟩
  | @split blocks above below cache splitBlockIndex _ low high ih =>
      -- the split segment's end is where the segment above it starts, wherever it sits
      refine ⟨ih.1, chainInvariant_replace (fun stop inv => ?_) (checkIfSpentMultisignature_split below) above ih.2⟩
      exact split_chainInvariant inv ih.1 low.le (inv.1.lt_of_le_getTopBlockIndex low high).le
  | @toParent blocks cache below _ ih =>
      obtain ⟨wellFormed, segment, -, rest⟩ := ih
      have le : cache.startIndex ≤ blocks.length := segment.startIndex_le
      have length : (blocks.take cache.startIndex).length = cache.startIndex := by simp [le]
      have whole := wellFormed
      rw [← List.take_append_drop cache.startIndex blocks] at whole
      refine ⟨whole.of_append, ?_⟩
      rw [length]
      exact rest.take le
  | fork _ holding ih => exact ⟨ih.1, fork_chainInvariant ih.2 holding⟩

/-! ## Queries of reachable chains -/

section Queries

variable {blocks : List PushedBlock} {chain : List BlockchainCache}

theorem Reachable.getBlockInfo_eq (reach : Reachable blocks chain) (blockIndex : Nat) :
    getBlockInfo chain blockIndex = blockInfo blocks blockIndex := by
  rw [CryptoNote.getBlockInfo_eq reach.invariant.2]
  split_ifs with inside
  · rfl
  · exact (blockInfo_eq_none (Nat.le_of_not_lt inside)).symm

theorem Reachable.checkIfSpent_eq (reach : Reachable blocks chain) (keyImage : Crypto.KeyImage)
    (blockIndex : Nat) :
    checkIfSpent chain keyImage blockIndex = (spentKeyImage blocks keyImage).any fun i => decide (i ≤ blockIndex) := by
  rw [CryptoNote.checkIfSpent_eq reach.invariant.2]
  cases spent : spentKeyImage blocks keyImage with
  | none => rfl
  | some i => simp [spentKeyImage_lt spent]

theorem Reachable.getTransactionHashesByPaymentId_eq (reach : Reachable blocks chain) (paymentId : Crypto.Hash) :
    getTransactionHashesByPaymentId chain paymentId =
      (((paymentIds blocks).map Prod.snd).filter (·.paymentId == paymentId)).map (·.transactionHash) := by
  -- every pair belongs to a block of the chain
  have below : ((paymentIds blocks).filter fun pair => pair.1 < blocks.length) = paymentIds blocks := by
    apply List.filter_eq_self.mpr
    intro pair mem
    obtain ⟨tx, placed, paid⟩ := List.mem_filterMap.mp mem
    rw [paymentPair_blockIndex paid]
    exact decide_eq_true (mem_chainTransactions placed)
  rw [CryptoNote.getTransactionHashesByPaymentId_eq reach.invariant.2, below]

theorem ChainInvariant.transactions_mem : ∀ {chain : List BlockchainCache} {stop : Nat},
    ChainInvariant blocks chain stop → ∀ cache ∈ chain, ∀ info ∈ cache.transactions, info ∈ transactionInfos blocks
  | [], _, _, _, mem => by simp at mem
  | cache :: parent, _, ⟨segment, _, rest⟩, cache', mem => by
      rcases List.mem_cons.mp mem with same | later
      · intro info stored
        rw [same, segment.transactions_eq] at stored
        exact (List.mem_filter.mp stored).1
      · exact ChainInvariant.transactions_mem rest cache' later

theorem ChainInvariant.exists_transactions_mem : ∀ {chain : List BlockchainCache} {stop : Nat},
    ChainInvariant blocks chain stop → ∀ info ∈ transactionInfos blocks, info.blockIndex < stop →
      ∃ cache ∈ chain, info ∈ cache.transactions
  | [], _, inv, _, _, inside => by
      cases inv
      omega
  | cache :: parent, _, ⟨segment, _, rest⟩, info, mem, inside => by
      by_cases early : info.blockIndex < cache.startIndex
      · obtain ⟨holder, member, stored⟩ := ChainInvariant.exists_transactions_mem rest info mem early
        exact ⟨holder, List.mem_cons_of_mem cache member, stored⟩
      · refine ⟨cache, List.mem_cons_self, ?_⟩
        rw [segment.transactions_eq]
        exact List.mem_filter.mpr ⟨mem, decide_eq_true ⟨by omega, inside⟩⟩

end Queries

/-! ## Global indexes of key outputs -/

section KeyOutputs

variable {blocks : List PushedBlock} {cache : BlockchainCache} {parent : List BlockchainCache}

theorem transactionAt_of_mem_chainOutputs {o : ChainOutput} (mem : o ∈ chainOutputs blocks) :
    ∃ info, transactionAt blocks o.packed = some info ∧ info.unlockTime = o.unlockTime ∧
      info.outputs[o.packed.outputIndex]? = some o.output.target := by
  obtain ⟨tx, placed, out⟩ := List.mem_flatMap.mp mem
  obtain ⟨-, -, sameTime, stored⟩ := mem_transactionOutputs out
  refine ⟨_, transactionAt_of_mem placed out, sameTime.symm, ?_⟩
  simp [transactionInfoIn, stored]

theorem outputIndexes_filter_lt_length (key : Bool) (blocks : List PushedBlock) (amount : UInt64) :
    ((outputIndexes key blocks amount).filter fun p => p.blockIndex < blocks.length) = outputIndexes key blocks amount :=
  List.filter_eq_self.mpr fun _ mem => decide_eq_true (mem_outputIndexes mem)

theorem extractStep_of_length_le {α : Type}
    (pred : CachedTransactionInfo → PackedOutIndex → Nat → Except ExtractOutputKeysResult α) (amount : UInt64)
    {j : Nat} (past : (outputsOfKind true blocks amount).length ≤ j) :
    extractStep (outputIndexes true blocks amount) blocks.length (transactionAt blocks) pred j =
      .error .INVALID_GLOBAL_INDEX := by
  have none : (outputIndexes true blocks amount)[j]? = none := by
    rw [List.getElem?_eq_none_iff, outputIndexes, List.length_map]
    exact past
  simp only [extractStep, outputIndexes_filter_lt_length, none]

theorem extractStep_of_getElem? {α : Type}
    (pred : CachedTransactionInfo → PackedOutIndex → Nat → Except ExtractOutputKeysResult α) (amount : UInt64)
    {j : Nat} {o : ChainOutput} (stored : (outputsOfKind true blocks amount)[j]? = some o) :
    ∃ info, extractStep (outputIndexes true blocks amount) blocks.length (transactionAt blocks) pred j =
        pred info o.packed j ∧ info.unlockTime = o.unlockTime ∧
        info.outputs[o.packed.outputIndex]? = some o.output.target := by
  have mem : o ∈ chainOutputs blocks := (mem_kindOutputs.mp (List.mem_of_getElem? stored)).1
  obtain ⟨info, found, sameTime, target⟩ := transactionAt_of_mem_chainOutputs mem
  have packed : (outputIndexes true blocks amount)[j]? = some o.packed := by
    rw [outputIndexes, List.getElem?_map, stored, Option.map_some]
  refine ⟨info, ?_, sameTime, target⟩
  simp only [extractStep, outputIndexes_filter_lt_length, packed, found]

theorem keyAt_of_getElem? {amount : UInt64} {j : Nat} {o : ChainOutput}
    (stored : (outputsOfKind true blocks amount)[j]? = some o) :
    ∃ output, o.output.target = .key output ∧ keyAt blocks amount j = some output.key := by
  have isKey := (mem_kindOutputs.mp (List.mem_of_getElem? stored)).2.2
  cases target : o.output.target with
  | key output =>
      refine ⟨output, rfl, ?_⟩
      simp [keyAt, stored, target, TransactionOutputTarget.publicKey]
  | multisignature output =>
      rw [target] at isKey
      contradiction

theorem keyOutputStep_of_unlocked (isTransactionSpendTimeUnlocked : UInt64 → Nat → Bool) (amount : UInt64)
    (blockIndex : Nat) {j : Nat} {o : ChainOutput} (stored : (outputsOfKind true blocks amount)[j]? = some o)
    (unlocked : isTransactionSpendTimeUnlocked o.unlockTime blockIndex = true) :
    ∃ key, extractStep (outputIndexes true blocks amount) blocks.length (transactionAt blocks)
        (fun info index _ =>
          if !isTransactionSpendTimeUnlocked info.unlockTime blockIndex then .error .OUTPUT_LOCKED
          else
            match info.outputs[index.outputIndex]? with
            | some (.key output) => .ok output.key
            | _ => .error .INVALID_GLOBAL_INDEX) j = .ok key ∧
      keyAt blocks amount j = some key := by
  obtain ⟨info, step, sameTime, target⟩ := extractStep_of_getElem? _ amount stored
  obtain ⟨output, keyTarget, found⟩ := keyAt_of_getElem? stored
  refine ⟨output.key, ?_, found⟩
  rw [step, sameTime, unlocked, target, keyTarget]
  rfl

theorem Reachable.getKeyOutputsCountForAmount_eq (reach : Reachable blocks (cache :: parent)) (amount : UInt64)
    {blockIndex : Nat} (started : cache.startIndex ≤ blockIndex) :
    getKeyOutputsCountForAmount (cache :: parent) amount blockIndex =
      ((outputsOfKind true blocks amount).filter fun o => o.packed.blockIndex < blockIndex).length := by
  have indexed := reach.invariant.2.indexChain true amount
  show getOutputsCountForAmount (globalIndexesOf true) (cache :: parent) amount blockIndex = _
  rw [getOutputsCountForAmount_eq (outputIndexes_sorted true blocks amount) _ _ _ indexed
    fun c mem => by rw [List.head?_cons, Option.mem_some_iff] at mem; exact mem ▸ started]
  rw [outputIndexes, List.filter_map, List.length_map]
  congr 1
  apply List.filter_congr
  intro o mem
  have inside := mem_chainOutputs (mem_kindOutputs.mp mem).1
  simp [inside]

theorem Reachable.extractKeyOutputKeys_eq (reach : Reachable blocks (cache :: parent))
    (isTransactionSpendTimeUnlocked : UInt64 → Nat → Bool) (amount : UInt64) {blockIndex : Nat}
    (started : cache.startIndex ≤ blockIndex) {globalIndexes : List Nat} (nonempty : globalIndexes ≠ [])
    (increasing : globalIndexes.Pairwise (· < ·))
    (valid : ∀ j ∈ globalIndexes, ∃ o, (outputsOfKind true blocks amount)[j]? = some o ∧
      isTransactionSpendTimeUnlocked o.unlockTime blockIndex = true) :
    (extractKeyOutputKeys isTransactionSpendTimeUnlocked (cache :: parent) amount blockIndex globalIndexes).1 =
        .SUCCESS ∧
      (extractKeyOutputKeys isTransactionSpendTimeUnlocked (cache :: parent) amount blockIndex globalIndexes).2.map
        some = globalIndexes.map (keyAt blocks amount) := by
  unfold extractKeyOutputKeys
  rw [extractKeyOutputs_eq (outputIndexes_sorted true blocks amount) (by intros; split <;> (try split) <;> simp)
    _ _ _ _ (reach.invariant.2.indexChain true amount)
    (fun c mem => by rw [List.head?_cons, Option.mem_some_iff] at mem; exact mem ▸ started) nonempty increasing]
  -- each requested index is a valid, unlocked key output, so every step yields its key
  obtain ⟨none, values⟩ := @mapUntilError_of_ok_eq _ _ _
    (extractStep (outputIndexes true blocks amount) blocks.length (transactionAt blocks) _) (keyAt blocks amount)
    globalIndexes fun j mem => by
      obtain ⟨o, stored, unlocked⟩ := valid j mem
      exact keyOutputStep_of_unlocked isTransactionSpendTimeUnlocked amount blockIndex stored unlocked
  -- the step of `keyOutputStep_of_unlocked` is the source's callback up to its matcher, hence `exact`
  exact ⟨congrArg (fun result => result.getD ExtractOutputKeysResult.SUCCESS) none, values⟩

theorem Reachable.extractKeyOutputKeys_invalid (reach : Reachable blocks (cache :: parent))
    (isTransactionSpendTimeUnlocked : UInt64 → Nat → Bool) (amount : UInt64) {blockIndex : Nat}
    (started : cache.startIndex ≤ blockIndex) {before after : List Nat} {j : Nat}
    (increasing : (before ++ j :: after).Pairwise (· < ·))
    (valid : ∀ i ∈ before, ∃ o, (outputsOfKind true blocks amount)[i]? = some o ∧
      isTransactionSpendTimeUnlocked o.unlockTime blockIndex = true)
    (past : (outputsOfKind true blocks amount).length ≤ j) :
    (extractKeyOutputKeys isTransactionSpendTimeUnlocked (cache :: parent) amount blockIndex
      (before ++ j :: after)).1 = .INVALID_GLOBAL_INDEX := by
  unfold extractKeyOutputKeys
  rw [extractKeyOutputs_eq (outputIndexes_sorted true blocks amount) (by intros; split <;> (try split) <;> simp)
    _ _ _ _ (reach.invariant.2.indexChain true amount)
    (fun c mem => by rw [List.head?_cons, Option.mem_some_iff] at mem; exact mem ▸ started) (by simp) increasing]
  -- the steps before `j` succeed and the step at `j` finds no output
  have stopped := @mapUntilError_of_error _ _ _
    (extractStep (outputIndexes true blocks amount) blocks.length (transactionAt blocks) _) before after j _
    (fun i mem => by
      obtain ⟨o, stored, unlocked⟩ := valid i mem
      obtain ⟨key, step, -⟩ :=
        keyOutputStep_of_unlocked isTransactionSpendTimeUnlocked amount blockIndex stored unlocked
      exact ⟨key, step⟩)
    (extractStep_of_length_le _ amount past)
  exact congrArg (fun result => result.getD ExtractOutputKeysResult.SUCCESS) stopped

end KeyOutputs

/-! ## A run with a split -/

section ExampleRun

open Crypto

def exampleCoinbase (blockIndex : UInt32) : Transaction :=
  ⟨⟨1, 0, [.base ⟨blockIndex⟩], [⟨7, .key ⟨PublicKey.ofByte blockIndex.toUInt8⟩⟩], []⟩, []⟩

def exampleBlock (blockIndex : UInt32) (spends : Finset (UInt64 × UInt32)) : PushedBlock where
  cachedBlock :=
    { block := { emptyBlockTemplate with baseTransaction := exampleCoinbase blockIndex }
      blockHash := Hash.ofByte blockIndex.toUInt8
      cachedBaseTransaction := ⟨exampleCoinbase blockIndex, [], Hash.ofByte (blockIndex.toUInt8 + 100), nullHash⟩
      baseTransaction_eq := rfl }
  cachedTransactions := []
  validatorState := ⟨∅, spends⟩
  generatedCoins := 0
  blockDifficulty := 1

/-- Two blocks; the second spends the multisignature output `(5000, 0)`. -/
def exampleBlocks : List PushedBlock := [exampleBlock 0 ∅, exampleBlock 1 {(5000, 0)}]

def exampleSegment : BlockchainCache :=
  let push (cache : BlockchainCache) (block : PushedBlock) :=
    pushBlock [] cache block.cachedBlock block.cachedTransactions block.validatorState block.generatedCoins
      block.blockDifficulty
  push (push (create 0) (exampleBlock 0 ∅)) (exampleBlock 1 {(5000, 0)})

theorem exampleBlocks_wellFormed : WellFormed exampleBlocks where
  blockIndex_eq i h := by
    simp only [exampleBlocks, List.length_cons, List.length_nil] at h
    interval_cases i <;> rfl
  blockHashes_nodup := by decide
  transactionHashes_nodup := by decide
  keyImages_once keyImage i j hi hj spentI _ := by
    simp only [exampleBlocks, List.length_cons, List.length_nil] at hi
    interval_cases i <;> simp [exampleBlocks, exampleBlock] at spentI

theorem exampleSegment_reachable : Reachable exampleBlocks [exampleSegment] :=
  (Reachable.root.push (exampleBlock 0 ∅)
    (@WellFormed.of_append [exampleBlock 0 ∅] [exampleBlock 1 {(5000, 0)}] exampleBlocks_wellFormed)).push
    (exampleBlock 1 {(5000, 0)}) exampleBlocks_wellFormed

theorem exampleSplit_reachable :
    Reachable exampleBlocks [(exampleSegment.split 1).2, (exampleSegment.split 1).1] :=
  @Reachable.split exampleBlocks [] [] exampleSegment 1 exampleSegment_reachable (by decide) (by decide)

end ExampleRun

/-! ## Global indexes along a chain -/

section Indexes

variable {blocks : List PushedBlock} {cache : BlockchainCache} {parent : List BlockchainCache}

/-- Along every reachable chain the global indexes recorded for the key outputs
of an amount number them 0, 1, 2, ... in chain order, and counting from the top
segment's start up and extracting read that numbering. -/
theorem keyOutputGlobalIndexes_chain (reach : Reachable blocks (cache :: parent)) (amount : UInt64)
    (isTransactionSpendTimeUnlocked : UInt64 → Nat → Bool) :
    (∀ c ∈ cache :: parent, ∀ info ∈ c.transactions,
        ∃ tx ∈ chainTransactions blocks, info = transactionInfoIn (chainOutputs blocks) tx) ∧
      (∀ tx ∈ chainTransactions blocks,
        ∃ c ∈ cache :: parent, transactionInfoIn (chainOutputs blocks) tx ∈ c.transactions) ∧
      (outputsOfKind true blocks amount).Pairwise (fun o o' => o.packed.Before o'.packed) ∧
      (outputsOfKind true blocks amount).map (globalIndex blocks) =
        List.range (outputsOfKind true blocks amount).length ∧
      (∀ b, cache.startIndex ≤ b → getKeyOutputsCountForAmount (cache :: parent) amount b =
        ((outputsOfKind true blocks amount).filter fun o => o.packed.blockIndex < b).length) ∧
      (∀ blockIndex globalIndexes, cache.startIndex ≤ blockIndex → globalIndexes ≠ [] →
        globalIndexes.Pairwise (· < ·) →
        (∀ j ∈ globalIndexes, ∃ o, (outputsOfKind true blocks amount)[j]? = some o ∧
          isTransactionSpendTimeUnlocked o.unlockTime blockIndex = true) →
        (extractKeyOutputKeys isTransactionSpendTimeUnlocked (cache :: parent) amount blockIndex globalIndexes).1 =
            .SUCCESS ∧
          (extractKeyOutputKeys isTransactionSpendTimeUnlocked (cache :: parent) amount blockIndex
            globalIndexes).2.map some = globalIndexes.map (keyAt blocks amount)) ∧
      (∀ blockIndex before j after, cache.startIndex ≤ blockIndex → (before ++ j :: after).Pairwise (· < ·) →
        (∀ i ∈ before, ∃ o, (outputsOfKind true blocks amount)[i]? = some o ∧
          isTransactionSpendTimeUnlocked o.unlockTime blockIndex = true) →
        (outputsOfKind true blocks amount).length ≤ j →
        (extractKeyOutputKeys isTransactionSpendTimeUnlocked (cache :: parent) amount blockIndex
          (before ++ j :: after)).1 = .INVALID_GLOBAL_INDEX) := by
  have inv := reach.invariant.2
  refine ⟨fun c member info stored => ?_, fun tx placed => ?_,
    (chainOutputs_sorted blocks).sublist List.filter_sublist, globalIndexes_outputsOfKind true blocks amount,
    fun b started => reach.getKeyOutputsCountForAmount_eq amount started,
    fun blockIndex globalIndexes started nonempty increasing valid =>
      reach.extractKeyOutputKeys_eq isTransactionSpendTimeUnlocked amount started nonempty increasing valid,
    fun blockIndex before j after started increasing valid past =>
      reach.extractKeyOutputKeys_invalid isTransactionSpendTimeUnlocked amount started increasing valid past⟩
  · -- a stored info is the info of a transaction of the chain
    obtain ⟨tx, placed, same⟩ := List.mem_map.mp (inv.transactions_mem c member info stored)
    exact ⟨tx, placed, same.symm⟩
  · exact inv.exists_transactions_mem _ (List.mem_map_of_mem placed) (mem_chainTransactions placed)

theorem keyOutputGlobalIndexes_exampleSplit :
    getKeyOutputsCountForAmount [(exampleSegment.split 1).2, (exampleSegment.split 1).1] 7 2 = 2 := by
  rw [(keyOutputGlobalIndexes_chain exampleSplit_reachable 7 fun _ _ => true).2.2.2.2.1 2 (by decide)]
  decide

/-- Below the top segment's start the count is that segment's first global index:
after the split at block 1 the upper segment counts one output below block 0. -/
theorem keyOutputsCount_belowSegmentStart :
    Reachable exampleBlocks [(exampleSegment.split 1).2, (exampleSegment.split 1).1] ∧
      getKeyOutputsCountForAmount [(exampleSegment.split 1).2, (exampleSegment.split 1).1] 7 0 = 1 ∧
      ((outputsOfKind true exampleBlocks 7).filter fun o => o.packed.blockIndex < 0).length = 0 :=
  ⟨exampleSplit_reachable, by decide, by simp⟩

end Indexes

/-! ## A spend that survives a split -/

/-- After the split at block 1 the chain seen from the lower segment holds block 0
only, which spends nothing, and still reports the output spent in block 1 spent. -/
theorem split_lowerKeepsUpperSpend :
    Reachable exampleBlocks [exampleSegment] ∧ SpentMultisignatureIn exampleBlocks 1 2 (5000, 0) ∧
      Reachable (exampleBlocks.take 1) [(exampleSegment.split 1).1] ∧
      ¬SpentMultisignatureIn (exampleBlocks.take 1) 0 1 (5000, 0) ∧
      checkIfSpentMultisignature [(exampleSegment.split 1).1] 5000 0 = true := by
  refine ⟨exampleSegment_reachable, ⟨1, exampleBlock 1 {(5000, 0)}, le_rfl, by decide, rfl, Finset.mem_singleton_self _⟩,
    exampleSplit_reachable.toParent, ?_, by decide⟩
  rintro ⟨i, block, -, below, stored, spent⟩
  obtain rfl : i = 0 := by omega
  simp only [exampleBlocks, List.take_succ_cons, List.take_zero, List.getElem?_cons_zero,
    Option.some.injEq] at stored
  subst stored
  simp [exampleBlock] at spent

end CryptoNote
