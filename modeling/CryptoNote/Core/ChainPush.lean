import CryptoNote.Core.ChainInvariant

/-!
# Pushing a block keeps the invariant

`pushBlock` on the top segment of a chain holding the blocks `blocks` gives a
chain holding `blocks ++ [block]`.  The work is in the two loops of
`pushTransactions`: each output gets, from the segment's entry or from the
parent's count, the number of outputs of its kind and amount before it, and
each transaction's info is appended with those numbers as its global indexes.
The loops are proved for any list `done` of outputs already indexed, so that
one step of each loop is one step of the induction.
-/

set_option autoImplicit false

namespace CryptoNote

open ListAlgorithms BlockchainCache Ledger

namespace BlockchainCache

/-- The cache with the entry of `amount` in the container of `key` replaced. -/
def setGlobalIndexes (cache : BlockchainCache) : Bool → UInt64 → OutputGlobalIndexesForAmount → BlockchainCache
  | true, amount, entry =>
      { cache with keyOutputsGlobalIndexes := Function.update cache.keyOutputsGlobalIndexes amount (some entry) }
  | false, amount, entry =>
      { cache with multisignatureStorage := Function.update cache.multisignatureStorage amount (some entry) }

theorem globalIndexesOf_setGlobalIndexes (cache : BlockchainCache) (key : Bool) (amount : UInt64)
    (entry : OutputGlobalIndexesForAmount) (key' : Bool) (amount' : UInt64) :
    globalIndexesOf key' (cache.setGlobalIndexes key amount entry) amount' =
      if key' = key ∧ amount' = amount then some entry else globalIndexesOf key' cache amount' := by
  cases key <;> cases key' <;> simp [setGlobalIndexes, globalIndexesOf, Function.update_apply]

theorem setGlobalIndexes_eq (cache : BlockchainCache) (key : Bool) (amount : UInt64)
    (entry : OutputGlobalIndexesForAmount) :
    ∃ keys multis, cache.setGlobalIndexes key amount entry =
      { cache with keyOutputsGlobalIndexes := keys, multisignatureStorage := multis } := by
  cases key
  · exact ⟨_, _, rfl⟩
  · exact ⟨_, _, rfl⟩

theorem insertOutputs_cons (parent : List BlockchainCache) (blockIndex transactionIndex : Nat)
    (cache : BlockchainCache) (output : TransactionOutput) (outputs : List TransactionOutput) (outputIndex : Nat) :
    insertOutputs parent blockIndex transactionIndex cache (output :: outputs) outputIndex =
      ((insertOutputs parent blockIndex transactionIndex
          (cache.setGlobalIndexes output.target.isKey output.amount
            (insertToGlobalIndex (globalIndexesOf output.target.isKey cache output.amount)
              (getOutputsCountForAmount (globalIndexesOf output.target.isKey) parent output.amount blockIndex)
              ⟨blockIndex, transactionIndex, outputIndex⟩).1)
          outputs (outputIndex + 1)).1,
        (insertToGlobalIndex (globalIndexesOf output.target.isKey cache output.amount)
            (getOutputsCountForAmount (globalIndexesOf output.target.isKey) parent output.amount blockIndex)
            ⟨blockIndex, transactionIndex, outputIndex⟩).2 ::
          (insertOutputs parent blockIndex transactionIndex
            (cache.setGlobalIndexes output.target.isKey output.amount
              (insertToGlobalIndex (globalIndexesOf output.target.isKey cache output.amount)
                (getOutputsCountForAmount (globalIndexesOf output.target.isKey) parent output.amount blockIndex)
                ⟨blockIndex, transactionIndex, outputIndex⟩).1)
            outputs (outputIndex + 1)).2) := by
  rcases output with ⟨amount, target⟩
  cases target <;> rfl

end BlockchainCache

/-! ## The output loop -/

/-- The containers of a segment ending at `stop` index the outputs `outs`. -/
def HoldsOutputs (cache : BlockchainCache) (outs : List ChainOutput) (stop : Nat) : Prop :=
  ∀ key amount, globalIndexesOf key cache amount =
    windowEntry ((kindOutputs key amount outs).map (·.packed)) cache.startIndex stop

/-- The parent counts, for every kind and amount, the outputs of `outs` below `start`. -/
def CountsBelow (parent : List BlockchainCache) (start blockIndex : Nat) (outs : List ChainOutput) : Prop :=
  ∀ key amount, getOutputsCountForAmount (globalIndexesOf key) parent amount blockIndex =
    (((kindOutputs key amount outs).map (·.packed)).filter fun p => p.blockIndex < start).length

section Outputs

variable {parent : List BlockchainCache} {blockIndex : Nat}

theorem HoldsOutputs.congr {cache cache' : BlockchainCache} {outs : List ChainOutput} {stop : Nat}
    (holds : HoldsOutputs cache outs stop) (start : cache'.startIndex = cache.startIndex)
    (keys : cache'.keyOutputsGlobalIndexes = cache.keyOutputsGlobalIndexes)
    (multis : cache'.multisignatureStorage = cache.multisignatureStorage) : HoldsOutputs cache' outs stop := by
  intro key amount
  rw [start]
  cases key
  · rw [globalIndexesOf, multis]
    exact holds false amount
  · rw [globalIndexesOf, keys]
    exact holds true amount

theorem CountsBelow.append {start : Nat} {done more : List ChainOutput}
    (counts : CountsBelow parent start blockIndex done) (above : ∀ o ∈ more, start ≤ o.packed.blockIndex) :
    CountsBelow parent start blockIndex (done ++ more) := by
  intro key amount
  rw [counts key amount, kindOutputs_append, List.map_append, List.filter_append]
  have none : (((kindOutputs key amount more).map (·.packed)).filter fun p => p.blockIndex < start) = [] := by
    rw [List.filter_eq_nil_iff]
    intro p mem
    obtain ⟨o, kept, rfl⟩ := List.mem_map.mp mem
    have := above o (mem_kindOutputs.mp kept).1
    simp only [decide_eq_true_eq]
    omega
  rw [none, List.append_nil]

theorem kindOutputs_singleton (key : Bool) (amount : UInt64) (o : ChainOutput) :
    kindOutputs key amount [o] = if o.output.target.isKey = key ∧ o.output.amount = amount then [o] else [] := by
  by_cases same : o.output.target.isKey = key ∧ o.output.amount = amount
  · simp [kindOutputs, same]
  · rw [if_neg same, kindOutputs, List.filter_eq_nil_iff]
    intro o' mem
    rw [List.mem_singleton.mp mem]
    simp only [Bool.and_eq_true, beq_iff_eq]
    tauto

theorem insertToGlobalIndex_step {cache : BlockchainCache} {done : List ChainOutput} {o : ChainOutput}
    (holds : HoldsOutputs cache done (blockIndex + 1)) (counts : CountsBelow parent cache.startIndex blockIndex done)
    (started : cache.startIndex ≤ blockIndex) (here : o.packed.blockIndex = blockIndex)
    (before : ∀ d ∈ done, d.packed.Before o.packed) :
    HoldsOutputs (cache.setGlobalIndexes o.output.target.isKey o.output.amount
        (insertToGlobalIndex (globalIndexesOf o.output.target.isKey cache o.output.amount)
          (getOutputsCountForAmount (globalIndexesOf o.output.target.isKey) parent o.output.amount blockIndex)
          o.packed).1) (done ++ [o]) (blockIndex + 1) ∧
      (insertToGlobalIndex (globalIndexesOf o.output.target.isKey cache o.output.amount)
          (getOutputsCountForAmount (globalIndexesOf o.output.target.isKey) parent o.output.amount blockIndex)
          o.packed).2 = indexIn (done ++ [o]) o := by
  have earlier : ∀ q ∈ (kindOutputs o.output.target.isKey o.output.amount done).map (·.packed),
      q.blockIndex < blockIndex + 1 := by
    intro q mem
    obtain ⟨d, kept, rfl⟩ := List.mem_map.mp mem
    have := (before d (mem_kindOutputs.mp kept).1).blockIndex_le
    omega
  obtain ⟨entry, grown, inserted⟩ := @insertToGlobalIndex_windowEntry
    ((kindOutputs o.output.target.isKey o.output.amount done).map (·.packed)) cache.startIndex (blockIndex + 1)
    o.packed ⟨by omega, by omega⟩ earlier
  rw [← holds, ← counts] at inserted
  rw [inserted]
  have fresh : o.packed ∉ done.map (·.packed) := by
    intro mem
    obtain ⟨d, inDone, same⟩ := List.mem_map.mp mem
    exact (before d inDone).ne same
  refine ⟨fun key amount => ?_, ?_⟩
  · have start : (cache.setGlobalIndexes o.output.target.isKey o.output.amount entry).startIndex = cache.startIndex := by
      cases o.output.target.isKey <;> rfl
    rw [globalIndexesOf_setGlobalIndexes, start, kindOutputs_append, kindOutputs_singleton]
    by_cases same : key = o.output.target.isKey ∧ amount = o.output.amount
    · obtain ⟨rfl, rfl⟩ := same
      simp only [and_self, if_true, List.map_append, List.map_singleton]
      exact grown.symm
    · have other : ¬(o.output.target.isKey = key ∧ o.output.amount = amount) := fun ⟨k, a⟩ => same ⟨k.symm, a.symm⟩
      rw [if_neg same, if_neg other, List.append_nil, holds]
  · rw [List.length_map, indexIn_append_cons fresh]

theorem insertOutputs_spec {transactionIndex : Nat} (unlockTime : UInt64) :
    ∀ (outputs : List TransactionOutput) (outputIndex : Nat) (cache : BlockchainCache) (done : List ChainOutput),
      HoldsOutputs cache done (blockIndex + 1) → CountsBelow parent cache.startIndex blockIndex done →
      cache.startIndex ≤ blockIndex → (∀ d ∈ done, d.packed.Before ⟨blockIndex, transactionIndex, outputIndex⟩) →
      (∃ keys multis, (insertOutputs parent blockIndex transactionIndex cache outputs outputIndex).1 =
          { cache with keyOutputsGlobalIndexes := keys, multisignatureStorage := multis }) ∧
        HoldsOutputs (insertOutputs parent blockIndex transactionIndex cache outputs outputIndex).1
          (done ++ outputsFrom blockIndex transactionIndex unlockTime outputs outputIndex) (blockIndex + 1) ∧
        (insertOutputs parent blockIndex transactionIndex cache outputs outputIndex).2 =
          (outputsFrom blockIndex transactionIndex unlockTime outputs outputIndex).map
            (indexIn (done ++ outputsFrom blockIndex transactionIndex unlockTime outputs outputIndex))
  | [], outputIndex, cache, done, holds, _, _, _ =>
      ⟨⟨_, _, rfl⟩, by simpa [outputsFrom, insertOutputs] using holds, rfl⟩
  | output :: outputs, outputIndex, cache, done, holds, counts, started, before => by
      -- the first output is inserted by one step, the others by the loop on the grown entry
      have step := insertToGlobalIndex_step (o := ⟨output, ⟨blockIndex, transactionIndex, outputIndex⟩, unlockTime⟩)
        holds counts started rfl before
      dsimp only at step
      obtain ⟨holds₁, index₁⟩ := step
      obtain ⟨keys₁, multis₁, frame₁⟩ := setGlobalIndexes_eq cache output.target.isKey output.amount
        (insertToGlobalIndex (globalIndexesOf output.target.isKey cache output.amount)
          (getOutputsCountForAmount (globalIndexesOf output.target.isKey) parent output.amount blockIndex)
          ⟨blockIndex, transactionIndex, outputIndex⟩).1
      rw [frame₁] at holds₁
      rw [insertOutputs_cons, frame₁]
      have counts₁ : CountsBelow parent cache.startIndex blockIndex
          (done ++ [⟨output, ⟨blockIndex, transactionIndex, outputIndex⟩, unlockTime⟩]) :=
        counts.append (by simpa using started)
      have before₁ : ∀ d ∈ done ++ [⟨output, ⟨blockIndex, transactionIndex, outputIndex⟩, unlockTime⟩],
          d.packed.Before ⟨blockIndex, transactionIndex, outputIndex + 1⟩ := by
        intro d mem
        rcases List.mem_append.mp mem with old | new
        · have := before d old
          simp only [PackedOutIndex.Before] at this ⊢
          omega
        · rw [List.mem_singleton.mp new]
          simp [PackedOutIndex.Before]
      obtain ⟨⟨keys, multis, frame⟩, holds₂, indexes⟩ :=
        insertOutputs_spec unlockTime outputs (outputIndex + 1)
          { cache with keyOutputsGlobalIndexes := keys₁, multisignatureStorage := multis₁ } _
          holds₁ counts₁ started before₁
      have whole : done ++ [⟨output, ⟨blockIndex, transactionIndex, outputIndex⟩, unlockTime⟩] ++
          outputsFrom blockIndex transactionIndex unlockTime outputs (outputIndex + 1) =
            done ++ outputsFrom blockIndex transactionIndex unlockTime (output :: outputs) outputIndex := by
        simp [outputsFrom]
      refine ⟨⟨keys, multis, frame⟩, by rw [← whole]; exact holds₂, ?_⟩
      dsimp only
      rw [indexes, index₁, ← whole, outputsFrom, List.map_cons]
      congr 1
      exact (indexIn_append_of_mem (by simp)).symm

/-! ## The transaction loop -/

theorem pushTransaction_spec {cache : BlockchainCache} {done : List ChainOutput} (transaction : CachedTransaction)
    {transactionIndex : Nat}
    (holds : HoldsOutputs cache done (blockIndex + 1)) (counts : CountsBelow parent cache.startIndex blockIndex done)
    (started : cache.startIndex ≤ blockIndex) (before : ∀ d ∈ done, d.packed.Before ⟨blockIndex, transactionIndex, 0⟩)
    (freshPlace : ∀ info ∈ cache.transactions,
      ¬(info.blockIndex = blockIndex ∧ info.transactionIndex = transactionIndex))
    (freshHash : transaction.transactionHash ∉ cache.transactions.map (·.transactionHash))
    (freshPayment : transaction.transactionHash ∉ cache.paymentIds.map (·.transactionHash)) :
    (∃ keys multis, pushTransaction parent cache transaction blockIndex transactionIndex =
      { cache with
        keyOutputsGlobalIndexes := keys
        multisignatureStorage := multis
        transactions := cache.transactions ++ [transactionInfoIn
          (done ++ transactionOutputs ⟨blockIndex, transactionIndex, transaction⟩) ⟨blockIndex, transactionIndex, transaction⟩]
        paymentIds := cache.paymentIds ++
          ((paymentPair ⟨blockIndex, transactionIndex, transaction⟩).map Prod.snd).toList }) ∧
      HoldsOutputs (pushTransaction parent cache transaction blockIndex transactionIndex)
        (done ++ transactionOutputs ⟨blockIndex, transactionIndex, transaction⟩) (blockIndex + 1) := by
  obtain ⟨⟨keys, multis, frame⟩, inserted, indexes⟩ := insertOutputs_spec transaction.transaction.unlockTime
    transaction.transaction.outputs 0 cache done holds counts started before
  -- neither the info nor the payment id is a duplicate, so both inserts append
  have notStored : (cache.transactions.any fun other =>
      (other.blockIndex == blockIndex && other.transactionIndex == transactionIndex) ||
        other.transactionHash == transaction.transactionHash) = false := by
    rw [List.any_eq_false]
    intro other mem
    have hash : other.transactionHash ≠ transaction.transactionHash :=
      fun same => freshHash (List.mem_map.mpr ⟨other, mem, same⟩)
    simpa [hash] using freshPlace other mem
  have notPaid : (cache.paymentIds.any fun pair => pair.transactionHash == transaction.transactionHash) = false := by
    rw [List.any_eq_false]
    intro pair mem same
    exact freshPayment (List.mem_map.mpr ⟨pair, mem, by simpa using same⟩)
  have pushed : pushTransaction parent cache transaction blockIndex transactionIndex =
      { cache with
        keyOutputsGlobalIndexes := keys
        multisignatureStorage := multis
        transactions := cache.transactions ++ [transactionInfoIn
          (done ++ transactionOutputs ⟨blockIndex, transactionIndex, transaction⟩) ⟨blockIndex, transactionIndex, transaction⟩]
        paymentIds := cache.paymentIds ++
          ((paymentPair ⟨blockIndex, transactionIndex, transaction⟩).map Prod.snd).toList } := by
    simp only [pushTransaction, frame, indexes, insertTransactionInfo, notStored, paymentPair]
    cases getPaymentIdFromTxExtra transaction.transaction.extra with
    | none => simp [transactionInfoIn, transactionOutputs]
    | some paymentId => simp [insertPaymentId, notPaid, transactionInfoIn, transactionOutputs]
  rw [frame] at inserted
  exact ⟨⟨keys, multis, pushed⟩, by rw [pushed]; exact HoldsOutputs.congr inserted rfl rfl rfl⟩

theorem pushTransactions_spec :
    ∀ (transactions : List CachedTransaction) (transactionIndex : Nat) (cache : BlockchainCache)
      (done : List ChainOutput),
      HoldsOutputs cache done (blockIndex + 1) → CountsBelow parent cache.startIndex blockIndex done →
      cache.startIndex ≤ blockIndex → (∀ d ∈ done, d.packed.Before ⟨blockIndex, transactionIndex, 0⟩) →
      (∀ info ∈ cache.transactions, info.blockIndex < blockIndex ∨
        (info.blockIndex = blockIndex ∧ info.transactionIndex < transactionIndex)) →
      (cache.transactions.map (·.transactionHash) ++ transactions.map (·.transactionHash)).Nodup →
      (∀ pair ∈ cache.paymentIds, pair.transactionHash ∈ cache.transactions.map (·.transactionHash)) →
      (∃ keys multis, pushTransactions parent blockIndex cache transactions transactionIndex =
        { cache with
          keyOutputsGlobalIndexes := keys
          multisignatureStorage := multis
          transactions := cache.transactions ++ (placeTransactions blockIndex transactions transactionIndex).map
            (transactionInfoIn
              (done ++ (placeTransactions blockIndex transactions transactionIndex).flatMap transactionOutputs))
          paymentIds := cache.paymentIds ++
            ((placeTransactions blockIndex transactions transactionIndex).filterMap paymentPair).map Prod.snd }) ∧
      HoldsOutputs (pushTransactions parent blockIndex cache transactions transactionIndex)
        (done ++ (placeTransactions blockIndex transactions transactionIndex).flatMap transactionOutputs)
        (blockIndex + 1)
  | [], transactionIndex, cache, done, holds, _, _, _, _, _, _ =>
      ⟨⟨cache.keyOutputsGlobalIndexes, cache.multisignatureStorage, by simp [pushTransactions, placeTransactions]⟩,
        by simpa [pushTransactions, placeTransactions] using holds⟩
  | transaction :: transactions, transactionIndex, cache, done, holds, counts, started, before, placed, hashes,
      paid => by
      rw [List.map_cons] at hashes
      have freshHash : transaction.transactionHash ∉ cache.transactions.map (·.transactionHash) :=
        fun mem => List.disjoint_of_nodup_append hashes mem List.mem_cons_self
      obtain ⟨⟨keys₁, multis₁, pushed₁⟩, holds₁⟩ := pushTransaction_spec transaction holds counts
        started before (fun info mem same => by have := placed info mem; omega) freshHash
        (fun mem => by
          obtain ⟨pair, stored, same⟩ := List.mem_map.mp mem
          exact freshHash (same ▸ paid pair stored))
      -- the rest of the loop starts from the cache with this transaction pushed
      rw [pushed₁] at holds₁
      set tx : ChainTransaction := ⟨blockIndex, transactionIndex, transaction⟩ with txDef
      have txBlock : tx.blockIndex = blockIndex := by rw [txDef]
      have txPlace : tx.transactionIndex = transactionIndex := by rw [txDef]
      have counts₁ : CountsBelow parent cache.startIndex blockIndex (done ++ transactionOutputs tx) :=
        counts.append fun o out => by
          rw [(mem_transactionOutputs out).1]
          exact started
      have before₁ : ∀ d ∈ done ++ transactionOutputs tx, d.packed.Before ⟨blockIndex, transactionIndex + 1, 0⟩ := by
        intro d mem
        rcases List.mem_append.mp mem with old | new
        · have := before d old
          simp only [PackedOutIndex.Before] at this ⊢
          omega
        · obtain ⟨sameBlock, samePlace, -⟩ := mem_transactionOutputs new
          simp only [PackedOutIndex.Before]
          omega
      have placed₁ : ∀ info ∈ cache.transactions ++ [transactionInfoIn (done ++ transactionOutputs tx) tx],
          info.blockIndex < blockIndex ∨ (info.blockIndex = blockIndex ∧ info.transactionIndex < transactionIndex + 1) := by
        intro info mem
        rcases List.mem_append.mp mem with old | new
        · have := placed info old
          omega
        · rw [List.mem_singleton.mp new]
          exact Or.inr ⟨rfl, Nat.lt_succ_self transactionIndex⟩
      have hashes₁ : ((cache.transactions ++ [transactionInfoIn (done ++ transactionOutputs tx) tx]).map
          (·.transactionHash) ++ transactions.map (·.transactionHash)).Nodup := by
        simpa [transactionInfoIn, tx] using hashes
      have paid₁ : ∀ pair ∈ cache.paymentIds ++ ((paymentPair tx).map Prod.snd).toList,
          pair.transactionHash ∈ (cache.transactions ++ [transactionInfoIn (done ++ transactionOutputs tx) tx]).map
            (·.transactionHash) := by
        intro pair mem
        rcases List.mem_append.mp mem with old | new
        · exact List.mem_map.mpr (by
            obtain ⟨info, stored, same⟩ := List.mem_map.mp (paid pair old)
            exact ⟨info, List.mem_append_left _ stored, same⟩)
        · obtain ⟨full, paidFull, rfl⟩ : ∃ full, paymentPair tx = some full ∧ full.2 = pair := by
            simpa using new
          simp [paymentPair_transactionHash paidFull, transactionInfoIn, tx]
      obtain ⟨⟨keys, multis, pushed⟩, holds₂⟩ := pushTransactions_spec transactions (transactionIndex + 1) _ _
        holds₁ counts₁ started before₁ placed₁ hashes₁ paid₁
      have whole : done ++ transactionOutputs tx ++
          (placeTransactions blockIndex transactions (transactionIndex + 1)).flatMap transactionOutputs =
            done ++ (placeTransactions blockIndex (transaction :: transactions) transactionIndex).flatMap
              transactionOutputs := by
        simp [placeTransactions, tx]
      rw [whole] at pushed holds₂
      rw [pushTransactions, pushed₁]
      refine ⟨⟨keys, multis, ?_⟩, holds₂⟩
      rw [pushed]
      -- the first info and payment id are those of the whole run
      have first : transactionInfoIn (done ++ transactionOutputs tx) tx =
          transactionInfoIn (done ++ (placeTransactions blockIndex (transaction :: transactions)
            transactionIndex).flatMap transactionOutputs) tx := by
        rw [← whole]
        exact (transactionInfoIn_append fun o out => List.mem_append_right _ out).symm
      simp only [placeTransactions, List.map_cons, List.append_assoc, List.singleton_append, ← txDef, first]
      congr 2
      cases paying : paymentPair tx <;> simp [paying]

end Outputs

/-! ## Pushing a block -/

section Block

variable {blocks : List PushedBlock} {block : PushedBlock} {cache : BlockchainCache} {parent : List BlockchainCache}

/-- The segment after `pushBlock` has recorded the block's info, key images and
multisignature spends, before its transaction loop. -/
def recordBlock (cache : BlockchainCache) (cachedBlock : CachedBlock) (cachedTransactions : List CachedTransaction)
    (validatorState : TransactionValidatorState) (generatedCoins blockDifficulty : UInt64) (blockIndex : Nat)
    (totals : UInt64 × UInt64 × UInt64) : BlockchainCache :=
  { cache with
    blockInfos := cache.blockInfos ++
      [{ blockHash := cachedBlock.blockHash
         timestamp := cachedBlock.block.timestamp
         cumulativeDifficulty := totals.1 + blockDifficulty
         alreadyGeneratedCoins := totals.2.1 + generatedCoins
         alreadyGeneratedTransactions := totals.2.2 + cachedTransactions.length.toUInt64 + 1 }]
    spentKeyImages := addSpentKeyImages cache.spentKeyImages validatorState.spentKeyImages blockIndex
    spentMultisigOutputs := cache.spentMultisigOutputs ∪ validatorState.spentMultisignatureGlobalIndexes }

theorem pushBlock_eq {cachedBlock : CachedBlock} {cachedTransactions : List CachedTransaction}
    {validatorState : TransactionValidatorState} {generatedCoins blockDifficulty : UInt64} {blockIndex : Nat}
    {totals : UInt64 × UInt64 × UInt64}
    (index : cachedBlock.getBlockIndex = blockIndex) (fresh : cache.hasBlock cachedBlock.blockHash = false)
    (previous : (∃ last, cache.blockInfos.getLast? = some last ∧
        (last.cumulativeDifficulty, last.alreadyGeneratedCoins, last.alreadyGeneratedTransactions) = totals) ∨
      (cache.blockInfos.getLast? = none ∧
        ((getCurrentCumulativeDifficulty parent (blockIndex - 1)).getD 0,
          (getAlreadyGeneratedCoins parent (blockIndex - 1)).getD 0,
          (getAlreadyGeneratedTransactions parent (blockIndex - 1)).getD 0) = totals)) :
    pushBlock parent cache cachedBlock cachedTransactions validatorState generatedCoins blockDifficulty =
      { pushTransactions parent blockIndex
          (recordBlock cache cachedBlock cachedTransactions validatorState generatedCoins blockDifficulty blockIndex
            totals) (cachedBlock.cachedBaseTransaction :: cachedTransactions) 0 with
        storageBlockCount := (pushTransactions parent blockIndex
          (recordBlock cache cachedBlock cachedTransactions validatorState generatedCoins blockDifficulty blockIndex
            totals) (cachedBlock.cachedBaseTransaction :: cachedTransactions) 0).storageBlockCount + 1 } := by
  rcases previous with ⟨last, top, rfl⟩ | ⟨none, rfl⟩
  · simp only [pushBlock, index, fresh, top, Bool.false_eq_true, if_false]
    rfl
  · simp only [pushBlock, index, fresh, none, Bool.false_eq_true, if_false]
    rfl

theorem SegmentInvariant.length_blockInfos {stop : Nat} (segment : SegmentInvariant blocks cache stop)
    (le : stop ≤ blocks.length) : cache.blockInfos.length = stop - cache.startIndex := by
  have past := segment.blockInfos_eq (stop - cache.startIndex)
  rw [if_neg (by omega)] at past
  have short := List.getElem?_eq_none_iff.mp past
  by_cases empty : stop - cache.startIndex = 0
  · omega
  · have top := segment.blockInfos_eq (stop - cache.startIndex - 1)
    rw [if_pos (by omega)] at top
    obtain ⟨info, stored⟩ : ∃ info, blockInfo blocks (cache.startIndex + (stop - cache.startIndex - 1)) = some info :=
      Option.ne_none_iff_exists'.mp (by simp [blockInfo]; omega)
    have := (List.getElem?_eq_some_iff.mp (top.trans stored)).1
    omega

theorem SegmentInvariant.previousTotals (segment : SegmentInvariant blocks cache blocks.length)
    (rest : ChainInvariant blocks parent cache.startIndex) :
    (∃ last, cache.blockInfos.getLast? = some last ∧
        (last.cumulativeDifficulty, last.alreadyGeneratedCoins, last.alreadyGeneratedTransactions) = chainTotals blocks) ∨
      (cache.blockInfos.getLast? = none ∧
        ((getCurrentCumulativeDifficulty parent (blocks.length - 1)).getD 0,
          (getAlreadyGeneratedCoins parent (blocks.length - 1)).getD 0,
          (getAlreadyGeneratedTransactions parent (blocks.length - 1)).getD 0) = chainTotals blocks) := by
  have length := segment.length_blockInfos le_rfl
  -- the totals of the chain sit in the info of its top block, when it has one
  have top : blocks ≠ [] → ∃ info, blockInfo blocks (blocks.length - 1) = some info ∧
      (info.cumulativeDifficulty, info.alreadyGeneratedCoins, info.alreadyGeneratedTransactions) = chainTotals blocks := by
    intro nonempty
    exact Option.map_eq_some_iff.mp (blockInfo_top nonempty)
  by_cases holding : cache.startIndex < blocks.length
  · left
    obtain ⟨info, stored, totals⟩ := top (List.ne_nil_of_length_pos (by omega))
    refine ⟨info, ?_, totals⟩
    rw [List.getLast?_eq_getElem?, length, segment.blockInfos_eq, if_pos (by omega), ← stored]
    congr 1
    omega
  · right
    have empty : cache.blockInfos = [] := List.length_eq_zero_iff.mp (by omega)
    refine ⟨by rw [empty]; rfl, ?_⟩
    have below := getBlockInfo_eq rest (blocks.length - 1)
    by_cases nonempty : blocks = []
    · subst nonempty
      have zero : cache.startIndex = 0 := by simpa using segment.startIndex_le
      simp only [List.length_nil, Nat.zero_sub, zero, Nat.lt_irrefl, if_false] at below
      simp [getCurrentCumulativeDifficulty, getAlreadyGeneratedCoins, getAlreadyGeneratedTransactions, below,
        chainTotals]
    · obtain ⟨info, stored, totals⟩ := top nonempty
      have positive : 0 < blocks.length := List.length_pos_of_ne_nil nonempty
      rw [if_pos (by omega), stored] at below
      simp [getCurrentCumulativeDifficulty, getAlreadyGeneratedCoins, getAlreadyGeneratedTransactions, below, ← totals]

theorem SegmentInvariant.hasBlock_eq_false (segment : SegmentInvariant blocks cache blocks.length)
    (wellFormed : WellFormed (blocks ++ [block])) : cache.hasBlock block.cachedBlock.blockHash = false := by
  rw [hasBlock, List.any_eq_false]
  intro info mem same
  obtain ⟨i, stored⟩ := List.mem_iff_getElem?.mp mem
  rw [segment.blockInfos_eq] at stored
  split_ifs at stored with inside
  obtain ⟨inside, hash⟩ := blockInfo_blockHash stored
  have apart := (List.nodup_append.mp (List.map_append ▸ wellFormed.blockHashes_nodup)).2.2
  exact apart _ (List.mem_map.mpr ⟨_, List.getElem_mem inside, rfl⟩) _ (List.mem_map.mpr ⟨block, by simp, rfl⟩)
    (hash.symm.trans (by simpa using same))

theorem SegmentInvariant.addSpentKeyImages_eq (segment : SegmentInvariant blocks cache blocks.length)
    (wellFormed : WellFormed (blocks ++ [block])) (keyImage : Crypto.KeyImage) :
    addSpentKeyImages cache.spentKeyImages block.validatorState.spentKeyImages blocks.length keyImage =
      (spentKeyImage (blocks ++ [block]) keyImage).filter fun i => cache.startIndex ≤ i ∧ i < blocks.length + 1 := by
  have started := segment.startIndex_le
  rw [addSpentKeyImages, spentKeyImage_append, segment.spentKeyImages_eq]
  by_cases spends : keyImage ∈ block.validatorState.spentKeyImages
  · -- a key image spends once, so no block below spends it
    have unspent : spentKeyImage blocks keyImage = none := by
      cases spent : spentKeyImage blocks keyImage with
      | none => rfl
      | some j =>
          obtain ⟨inside, found, -⟩ := List.findIdx?_eq_some_iff_getElem.mp spent
          have once := wellFormed.keyImages_once keyImage j blocks.length (by simp; omega) (by simp)
            (by rw [List.getElem_append_left inside]; simpa using found)
            (by rw [List.getElem_concat_length rfl]; exact spends)
          omega
    rw [if_pos spends, unspent]
    simp [spentKeyImage, spends, started, Option.filter_some]
  · have later : spentKeyImage [block] keyImage = none := by simp [spentKeyImage, spends]
    rw [if_neg spends, later, Option.map_none, Option.or_none]
    cases spent : spentKeyImage blocks keyImage with
    | none => rfl
    | some i =>
        have := spentKeyImage_lt spent
        simp only [Option.filter_some, decide_eq_true_eq]
        congr 1
        apply propext
        omega

theorem SegmentInvariant.transactionHashes {stop : Nat} (segment : SegmentInvariant blocks cache stop) :
    cache.transactions.map (·.transactionHash) =
      (window ChainTransaction.blockIndex (chainTransactions blocks) cache.startIndex stop).map
        (·.transaction.transactionHash) := by
  rw [segment.transactions_eq, window_transactionInfos, List.map_map]
  rfl

theorem SegmentInvariant.paymentIds_mem {stop : Nat} (segment : SegmentInvariant blocks cache stop) :
    ∀ pair ∈ cache.paymentIds, pair.transactionHash ∈ cache.transactions.map (·.transactionHash) := by
  intro pair mem
  rw [segment.paymentIds_eq, window_paymentIds] at mem
  obtain ⟨full, paidFull, rfl⟩ := List.mem_map.mp mem
  obtain ⟨tx, placed, paid⟩ := List.mem_filterMap.mp paidFull
  rw [segment.transactionHashes]
  exact List.mem_map.mpr ⟨tx, placed, (paymentPair_transactionHash paid).symm⟩

theorem pushBlock_chainInvariant (inv : ChainInvariant blocks (cache :: parent) blocks.length)
    (wellFormed : WellFormed (blocks ++ [block])) :
    ChainInvariant (blocks ++ [block])
      (pushBlock parent cache block.cachedBlock block.cachedTransactions block.validatorState block.generatedCoins
        block.blockDifficulty :: parent) (blocks ++ [block]).length := by
  obtain ⟨segment, covered, rest⟩ := inv
  have started := segment.startIndex_le
  have index : block.cachedBlock.getBlockIndex = blocks.length := by
    have := wellFormed.blockIndex_eq blocks.length (by simp)
    rwa [List.getElem_concat_length rfl] at this
  rw [pushBlock_eq index (segment.hasBlock_eq_false wellFormed) (segment.previousTotals rest)]
  obtain ⟨recorded, recordedDef⟩ : ∃ recorded, recorded = recordBlock cache block.cachedBlock block.cachedTransactions
      block.validatorState block.generatedCoins block.blockDifficulty blocks.length (chainTotals blocks) := ⟨_, rfl⟩
  rw [← recordedDef]
  have sameStart : recorded.startIndex = cache.startIndex := by rw [recordedDef]; rfl
  have sameTransactions : recorded.transactions = cache.transactions := by rw [recordedDef]; rfl
  have samePayments : recorded.paymentIds = cache.paymentIds := by rw [recordedDef]; rfl
  have sameIndexes : ∀ key, globalIndexesOf key recorded = globalIndexesOf key cache := by
    intro key
    rw [recordedDef]
    cases key <;> rfl
  have sameStorage : recorded.storageBlockCount = cache.storageBlockCount := by rw [recordedDef]; rfl
  have recordedInfos : recorded.blockInfos = cache.blockInfos ++
      [{ blockHash := block.cachedBlock.blockHash
         timestamp := block.cachedBlock.block.timestamp
         cumulativeDifficulty := (chainTotals blocks).1 + block.blockDifficulty
         alreadyGeneratedCoins := (chainTotals blocks).2.1 + block.generatedCoins
         alreadyGeneratedTransactions := (chainTotals blocks).2.2 + block.cachedTransactions.length.toUInt64 + 1 }] := by
    rw [recordedDef]; rfl
  have recordedKeyImages : recorded.spentKeyImages =
      addSpentKeyImages cache.spentKeyImages block.validatorState.spentKeyImages blocks.length := by
    rw [recordedDef]; rfl
  have recordedSpends : recorded.spentMultisigOutputs =
      cache.spentMultisigOutputs ∪ block.validatorState.spentMultisignatureGlobalIndexes := by
    rw [recordedDef]; rfl
  -- the transaction loop runs after the outputs of the chain below the block
  have below : ∀ o ∈ chainOutputs blocks, o.packed.blockIndex < blocks.length := fun o mem => mem_chainOutputs mem
  have holds : HoldsOutputs recorded (chainOutputs blocks) (blocks.length + 1) := by
    intro key amount
    rw [sameIndexes, sameStart, segment.globalIndexes_eq, windowEntry_of_lt _ (Nat.le_succ _)]
    · rfl
    · intro p mem
      exact mem_outputIndexes mem
  have counts : CountsBelow parent recorded.startIndex blocks.length (chainOutputs blocks) := by
    intro key amount
    have parentAbove : ∀ c ∈ parent.head?, c.startIndex ≤ blocks.length :=
      fun c mem => (rest.startIndex_le c mem).trans started
    rw [sameStart, getOutputsCountForAmount_eq (outputIndexes_sorted key blocks amount) parent cache.startIndex
      blocks.length (rest.indexChain key amount) parentAbove]
    congr 1
    apply List.filter_congr
    intro p _
    by_cases early : p.blockIndex < cache.startIndex
    · simp [early, show p.blockIndex < blocks.length by omega]
    · simp [early]
  have placed : ∀ info ∈ recorded.transactions, info.blockIndex < blocks.length ∨
      (info.blockIndex = blocks.length ∧ info.transactionIndex < 0) := by
    intro info mem
    rw [sameTransactions, segment.transactions_eq] at mem
    have inside := (List.mem_filter.mp mem).2
    simp only [decide_eq_true_eq] at inside
    exact Or.inl inside.2
  have hashes : (recorded.transactions.map (·.transactionHash) ++
      (block.cachedBlock.cachedBaseTransaction :: block.cachedTransactions).map (·.transactionHash)).Nodup := by
    have all := wellFormed.transactionHashes_nodup
    rw [chainTransactions_append_singleton, List.map_append] at all
    have own : (placeTransactions blocks.length (transactionsOf block) 0).map (·.transaction.transactionHash) =
        (block.cachedBlock.cachedBaseTransaction :: block.cachedTransactions).map (·.transactionHash) := by
      have named := congrArg (List.map (·.transactionHash))
        (placeTransactions_transaction blocks.length (transactionsOf block) 0)
      rw [List.map_map] at named
      exact named
    rw [own] at all
    rw [sameTransactions, segment.transactionHashes]
    exact all.sublist ((List.filter_sublist.map _).append (List.Sublist.refl _))
  obtain ⟨⟨keys, multis, pushed⟩, holdsAfter⟩ := pushTransactions_spec
    (block.cachedBlock.cachedBaseTransaction :: block.cachedTransactions) 0 recorded (chainOutputs blocks)
    holds counts (sameStart ▸ started) (fun d mem => Or.inl (below d mem)) placed hashes
    (by rw [samePayments, sameTransactions]; exact segment.paymentIds_mem)
  have whole : chainOutputs blocks ++ (placeTransactions blocks.length
      (block.cachedBlock.cachedBaseTransaction :: block.cachedTransactions) 0).flatMap transactionOutputs =
        chainOutputs (blocks ++ [block]) := by
    rw [chainOutputs_append]
    simp [chainTransactionsFrom, transactionsOf]
  rw [whole] at pushed holdsAfter
  rw [pushed] at holdsAfter
  have placedBlock : chainTransactionsFrom [block] blocks.length =
      placeTransactions blocks.length (block.cachedBlock.cachedBaseTransaction :: block.cachedTransactions) 0 := by
    simp [chainTransactionsFrom, transactionsOf]
  have onTop : ∀ tx ∈ placeTransactions blocks.length
      (block.cachedBlock.cachedBaseTransaction :: block.cachedTransactions) 0, tx.blockIndex = blocks.length :=
    fun tx mem => (mem_placeTransactions mem).1
  have grown : (blocks ++ [block]).length = blocks.length + 1 := by simp
  rw [pushed, grown]
  refine ⟨⟨?_, ?_, ?_, ?_, ?_, ?_, ?_⟩, ?_, ?_⟩
  · show recorded.startIndex ≤ blocks.length + 1
    omega
  · show recorded.storageBlockCount + 1 = blocks.length + 1 - recorded.startIndex
    rw [sameStorage, sameStart, segment.storageBlockCount_eq]
    omega
  · -- the segment's infos, then the pushed block's
    intro i
    show recorded.blockInfos[i]? = if recorded.startIndex + i < blocks.length + 1 then
      blockInfo (blocks ++ [block]) (recorded.startIndex + i) else none
    have length := segment.length_blockInfos le_rfl
    rw [recordedInfos, sameStart]
    by_cases old : i < blocks.length - cache.startIndex
    · rw [List.getElem?_append_left (by omega), segment.blockInfos_eq, if_pos (by omega), if_pos (by omega),
        blockInfo_append [block] (by omega)]
    · by_cases top : i = blocks.length - cache.startIndex
      · rw [List.getElem?_append_right (by omega), length, top, Nat.sub_self, List.getElem?_cons_zero,
          if_pos (by omega), show cache.startIndex + (blocks.length - cache.startIndex) = blocks.length by omega,
          blockInfo_length, UInt64.add_assoc]
      · rw [List.getElem?_eq_none (by simp; omega), if_neg (by omega)]
  · intro keyImage
    show recorded.spentKeyImages keyImage = _
    rw [recordedKeyImages, segment.addSpentKeyImages_eq wellFormed, sameStart]
  · show recorded.transactions ++ _ = _
    rw [sameTransactions, sameStart, segment.transactions_eq, transactionInfos_append, placedBlock,
      window_append_of_top started]
    · intro info mem
      obtain ⟨tx, placed, rfl⟩ := List.mem_map.mp mem
      exact mem_chainTransactions placed
    · intro info mem
      obtain ⟨tx, placed, rfl⟩ := List.mem_map.mp mem
      exact onTop tx placed
  · exact HoldsOutputs.congr holdsAfter rfl rfl rfl
  · show recorded.paymentIds ++ _ = _
    rw [samePayments, sameStart, segment.paymentIds_eq, paymentIds_append, placedBlock,
      window_append_of_top started, List.map_append]
    · intro pair mem
      obtain ⟨tx, placed, paid⟩ := List.mem_filterMap.mp mem
      rw [paymentPair_blockIndex paid]
      exact mem_chainTransactions placed
    · intro pair mem
      obtain ⟨tx, placed, paid⟩ := List.mem_filterMap.mp mem
      rw [paymentPair_blockIndex paid]
      exact onTop tx placed
  · -- a spend below the block was found before; the block's own spends are now in the set
    rintro output ⟨j, spender, low, high, stored, spent⟩
    have recordedHas : output ∈ cache.spentMultisigOutputs → output ∈ recorded.spentMultisigOutputs := by
      rw [recordedSpends]
      exact Finset.mem_union_left _
    show (decide (output ∈ recorded.spentMultisigOutputs) || checkIfSpentMultisignature parent output.1 output.2) = true
    by_cases earlier : j < blocks.length
    · rw [List.getElem?_append_left earlier] at stored
      have found := covered output ⟨j, spender, by rw [← sameStart]; exact low, earlier, stored, spent⟩
      rw [checkIfSpentMultisignature, Bool.or_eq_true, decide_eq_true_eq] at found
      rcases found with here | below
      · simp only [recordedHas here, decide_true, Bool.true_or]
      · simp only [below, Bool.or_true]
    · have same : j = blocks.length := by omega
      rw [same, List.getElem?_concat_length, Option.some.injEq] at stored
      subst stored
      simp [recordedSpends, spent]
  · show ChainInvariant _ parent recorded.startIndex
    rw [sameStart]
    exact (chainInvariant_append [block] started).mpr rest

end Block

end CryptoNote
