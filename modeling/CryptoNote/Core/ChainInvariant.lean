import CryptoNote.Core.SegmentIndexes

/-!
# What a chain of segments holds

`ChainInvariant blocks chain stop`: the segments of `chain`, the top one first,
hold the blocks `[0, stop)` of the chain `blocks` between them, each segment the
blocks from its `startIndex` to the start of the segment above it, and each of
its containers holds exactly what those blocks put there.  The set of spent
multisignature outputs is the exception: `split` leaves the lower segment all of
it, so the invariant only asks that a segment's spends be found from that
segment down.

Over such a chain every query of the cache answers what the chain of blocks says
(`Ledger`), whichever segments the blocks are spread over.
-/

set_option autoImplicit false

namespace CryptoNote

open ListAlgorithms BlockchainCache Ledger

namespace BlockchainCache

/-- The index container of the key outputs (`true`) or of the multisignature outputs. -/
def globalIndexesOf : Bool → BlockchainCache → UInt64 → Option OutputGlobalIndexesForAmount
  | true => keyOutputsGlobalIndexes
  | false => multisignatureStorage

end BlockchainCache

/-- A segment holding the blocks `[cache.startIndex, stop)` of `blocks`. -/
structure SegmentInvariant (blocks : List PushedBlock) (cache : BlockchainCache) (stop : Nat) : Prop where
  startIndex_le : cache.startIndex ≤ stop
  storageBlockCount_eq : cache.storageBlockCount = stop - cache.startIndex
  blockInfos_eq : ∀ i, cache.blockInfos[i]? =
    if cache.startIndex + i < stop then blockInfo blocks (cache.startIndex + i) else none
  spentKeyImages_eq : ∀ keyImage, cache.spentKeyImages keyImage =
    (spentKeyImage blocks keyImage).filter fun i => cache.startIndex ≤ i ∧ i < stop
  transactions_eq : cache.transactions =
    window CachedTransactionInfo.blockIndex (transactionInfos blocks) cache.startIndex stop
  globalIndexes_eq : ∀ key amount, globalIndexesOf key cache amount =
    windowEntry (outputIndexes key blocks amount) cache.startIndex stop
  paymentIds_eq : cache.paymentIds = (window Prod.fst (paymentIds blocks) cache.startIndex stop).map Prod.snd

/-- The segments of a chain, the top one first, hold the blocks below `stop`. -/
def ChainInvariant (blocks : List PushedBlock) : List BlockchainCache → Nat → Prop
  | [], stop => stop = 0
  | cache :: parent, stop =>
      SegmentInvariant blocks cache stop ∧
        (∀ output, SpentMultisignatureIn blocks cache.startIndex stop output →
          checkIfSpentMultisignature (cache :: parent) output.1 output.2 = true) ∧
        ChainInvariant blocks parent cache.startIndex

/-! ## Pushing blocks above a chain -/

section Append

variable {blocks : List PushedBlock} (more : List PushedBlock)

theorem segmentInvariant_append {cache : BlockchainCache} {stop : Nat} (le : stop ≤ blocks.length) :
    SegmentInvariant (blocks ++ more) cache stop ↔ SegmentInvariant blocks cache stop := by
  have infos : ∀ i, (if cache.startIndex + i < stop then blockInfo (blocks ++ more) (cache.startIndex + i) else none) =
      if cache.startIndex + i < stop then blockInfo blocks (cache.startIndex + i) else none := by
    intro i
    split_ifs with inside
    · exact blockInfo_append more (by omega)
    · rfl
  have entries : ∀ key amount, cache.startIndex ≤ stop →
      windowEntry (outputIndexes key (blocks ++ more) amount) cache.startIndex stop =
        windowEntry (outputIndexes key blocks amount) cache.startIndex stop := by
    intro key amount started
    obtain ⟨rest, split, above⟩ := outputIndexes_append key blocks more amount
    rw [split, windowEntry_append_of_le started fun p mem => le.trans (above p mem)]
  have spent := fun keyImage => @spentKeyImage_append_filter blocks more cache.startIndex stop le keyImage
  have transactions := @window_transactionInfos_append blocks more cache.startIndex stop le
  have payments := @window_paymentIds_append blocks more cache.startIndex stop le
  constructor
  · intro inv
    exact ⟨inv.startIndex_le, inv.storageBlockCount_eq, fun i => (inv.blockInfos_eq i).trans (infos i),
      fun keyImage => (inv.spentKeyImages_eq keyImage).trans (spent keyImage),
      inv.transactions_eq.trans transactions,
      fun key amount => (inv.globalIndexes_eq key amount).trans (entries key amount inv.startIndex_le),
      inv.paymentIds_eq.trans (by rw [payments])⟩
  · intro inv
    exact ⟨inv.startIndex_le, inv.storageBlockCount_eq, fun i => (inv.blockInfos_eq i).trans (infos i).symm,
      fun keyImage => (inv.spentKeyImages_eq keyImage).trans (spent keyImage).symm,
      inv.transactions_eq.trans transactions.symm,
      fun key amount => (inv.globalIndexes_eq key amount).trans (entries key amount inv.startIndex_le).symm,
      inv.paymentIds_eq.trans (by rw [payments])⟩

theorem chainInvariant_append {chain : List BlockchainCache} {stop : Nat} (le : stop ≤ blocks.length) :
    ChainInvariant (blocks ++ more) chain stop ↔ ChainInvariant blocks chain stop := by
  induction chain generalizing stop with
  | nil => rfl
  | cons cache parent ih =>
      simp only [ChainInvariant]
      rw [segmentInvariant_append more le]
      constructor
      · rintro ⟨segment, spent, rest⟩
        have low : cache.startIndex ≤ blocks.length := segment.startIndex_le.trans le
        exact ⟨segment, fun output inside => spent output ((spentMultisignatureIn_append more le output).mpr inside),
          (ih low).mp rest⟩
      · rintro ⟨segment, spent, rest⟩
        have low : cache.startIndex ≤ blocks.length := segment.startIndex_le.trans le
        exact ⟨segment, fun output inside => spent output ((spentMultisignatureIn_append more le output).mp inside),
          (ih low).mpr rest⟩

end Append

theorem ChainInvariant.take {blocks : List PushedBlock} {chain : List BlockchainCache} {stop : Nat}
    (inv : ChainInvariant blocks chain stop) (le : stop ≤ blocks.length) :
    ChainInvariant (blocks.take stop) chain stop := by
  have short : stop ≤ (blocks.take stop).length := by simp [le]
  rw [← chainInvariant_append (blocks.drop stop) short, List.take_append_drop]
  exact inv

/-! ## Queries over the chain -/

section Queries

variable {blocks : List PushedBlock}

theorem ChainInvariant.startIndex_le {chain : List BlockchainCache} {stop : Nat}
    (inv : ChainInvariant blocks chain stop) : ∀ cache ∈ chain.head?, cache.startIndex ≤ stop := by
  cases chain with
  | nil => simp
  | cons cache parent => simpa using inv.1.startIndex_le

theorem getBlockInfo_eq : ∀ {chain : List BlockchainCache} {stop : Nat}, ChainInvariant blocks chain stop →
    ∀ blockIndex, getBlockInfo chain blockIndex = if blockIndex < stop then blockInfo blocks blockIndex else none
  | [], stop, inv, blockIndex => by
      cases inv
      rfl
  | cache :: parent, stop, ⟨segment, _, rest⟩, blockIndex => by
      rw [getBlockInfo]
      by_cases below : blockIndex < cache.startIndex
      · have inside : blockIndex < stop := by have := segment.startIndex_le; omega
        rw [if_pos below, getBlockInfo_eq rest, if_pos below, if_pos inside]
      · rw [if_neg below, segment.blockInfos_eq, Nat.add_sub_cancel' (by omega)]

theorem checkIfSpent_eq : ∀ {chain : List BlockchainCache} {stop : Nat}, ChainInvariant blocks chain stop →
    ∀ keyImage blockIndex, checkIfSpent chain keyImage blockIndex =
      (spentKeyImage blocks keyImage).any fun i => decide (i < stop ∧ i ≤ blockIndex)
  | [], stop, inv, keyImage, blockIndex => by
      cases inv
      cases spentKeyImage blocks keyImage <;> simp [checkIfSpent]
  | cache :: parent, stop, ⟨segment, _, rest⟩, keyImage, blockIndex => by
      have le := segment.startIndex_le
      rw [checkIfSpent]
      by_cases below : blockIndex < cache.startIndex
      · rw [if_pos below, checkIfSpent_eq rest]
        cases spentKeyImage blocks keyImage with
        | none => rfl
        | some i =>
            -- below the segment's start the two bounds on `i` agree
            by_cases early : i ≤ blockIndex
            · have : i < cache.startIndex := by omega
              simp [early, this, show i < stop by omega]
            · simp [early]
      · rw [if_neg below, segment.spentKeyImages_eq]
        cases spent : spentKeyImage blocks keyImage with
        | none => simp [checkIfSpent_eq rest, spent]
        | some i =>
            by_cases inside : cache.startIndex ≤ i ∧ i < stop
            · rw [Option.filter_some, if_pos (by simpa using inside)]
              simp [inside.2]
            · simp only [Option.filter_some, decide_eq_true_eq, inside, if_false, checkIfSpent_eq rest, spent,
                Option.any_some]
              by_cases early : i < cache.startIndex
              · simp [early, show i < stop by omega]
              · simp [early, show ¬i < stop by omega]

theorem checkIfSpentEver_eq : ∀ {chain : List BlockchainCache} {stop : Nat}, ChainInvariant blocks chain stop →
    ∀ keyImage, checkIfSpentEver chain keyImage = (spentKeyImage blocks keyImage).any fun i => decide (i < stop)
  | [], stop, inv, keyImage => by
      cases inv
      cases spentKeyImage blocks keyImage <;> simp [checkIfSpentEver]
  | cache :: parent, stop, ⟨segment, _, rest⟩, keyImage => by
      have le := segment.startIndex_le
      rw [checkIfSpentEver, segment.spentKeyImages_eq, checkIfSpentEver_eq rest]
      cases spentKeyImage blocks keyImage with
      | none => rfl
      | some i =>
          by_cases inside : cache.startIndex ≤ i ∧ i < stop
          · simp [inside]
          · by_cases early : i < cache.startIndex
            · simp [early, show i < stop by omega]
            · simp [early, show ¬i < stop by omega]

theorem checkIfSpentMultisignature_of_spent : ∀ {chain : List BlockchainCache} {stop : Nat},
    ChainInvariant blocks chain stop → ∀ output, SpentMultisignatureIn blocks 0 stop output →
      checkIfSpentMultisignature chain output.1 output.2 = true
  | [], stop, inv, output, ⟨blockIndex, block, _, high, _⟩ => by
      cases inv
      omega
  | cache :: parent, stop, ⟨_, covered, rest⟩, output, ⟨blockIndex, block, _, high, stored, spent⟩ => by
      by_cases early : blockIndex < cache.startIndex
      · -- spent below the segment: the parent reports it
        have below := checkIfSpentMultisignature_of_spent rest output
          ⟨blockIndex, block, Nat.zero_le _, early, stored, spent⟩
        rw [checkIfSpentMultisignature, below, Bool.or_true]
      · exact covered output ⟨blockIndex, block, by omega, high, stored, spent⟩

theorem findTransactionInBlock_eq {cache : BlockchainCache} {stop : Nat} (segment : SegmentInvariant blocks cache stop)
    {p : PackedOutIndex} (inside : cache.startIndex ≤ p.blockIndex ∧ p.blockIndex < stop) :
    cache.findTransactionInBlock p.blockIndex p.transactionIndex = transactionAt blocks p := by
  rw [findTransactionInBlock, segment.transactions_eq, window, List.find?_filter, transactionAt]
  apply List.find?_congr
  intro info _
  by_cases same : info.blockIndex = p.blockIndex
  · by_cases samePlace : info.transactionIndex = p.transactionIndex <;> simp [same, samePlace, inside.1, inside.2]
  · simp [same]

theorem ChainInvariant.indexChain (key : Bool) (amount : UInt64) :
    ∀ {chain : List BlockchainCache} {stop : Nat}, ChainInvariant blocks chain stop →
      IndexChain (globalIndexesOf key) amount (outputIndexes key blocks amount) (transactionAt blocks) chain stop
  | [], stop, inv => inv
  | cache :: parent, stop, ⟨segment, _, rest⟩ =>
      ⟨segment.startIndex_le, segment.globalIndexes_eq key amount,
        fun p mem => findTransactionInBlock_eq segment (by simpa [window] using (List.mem_filter.mp mem).2),
        ChainInvariant.indexChain key amount rest⟩

theorem paymentIds_sorted (blocks : List PushedBlock) :
    (paymentIds blocks).Pairwise fun x y => x.1 ≤ y.1 := by
  apply List.Pairwise.filterMap paymentPair _ (chainTransactions_sorted blocks)
  intro tx tx' earlier pair paid pair' paid'
  rw [paymentPair_blockIndex paid, paymentPair_blockIndex paid']
  unfold ChainTransaction.Earlier at earlier
  omega

theorem getTransactionHashesByPaymentId_eq : ∀ {chain : List BlockchainCache} {stop : Nat},
    ChainInvariant blocks chain stop → ∀ paymentId,
      getTransactionHashesByPaymentId chain paymentId =
        ((((paymentIds blocks).filter fun pair => pair.1 < stop).map Prod.snd).filter
          (·.paymentId == paymentId)).map (·.transactionHash)
  | [], stop, inv, paymentId => by
      cases inv
      simp [getTransactionHashesByPaymentId]
  | cache :: parent, stop, ⟨segment, _, rest⟩, paymentId => by
      -- the pairs below the end are the parent's, then the segment's own
      rw [getTransactionHashesByPaymentId, getTransactionHashesByPaymentId_eq rest, segment.paymentIds_eq,
        @filter_lt_eq_append_window _ Prod.fst _ (paymentIds_sorted blocks) _ _ segment.startIndex_le]
      simp only [List.map_append, List.filter_append]

end Queries

end CryptoNote
