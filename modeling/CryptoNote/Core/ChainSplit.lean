import CryptoNote.Core.ChainPush

/-!
# Splitting a segment and forking from one

`split` cuts a segment holding `[start, stop)` at `splitBlockIndex` into a lower
segment holding `[start, splitBlockIndex)` and an upper one holding
`[splitBlockIndex, stop)`; every container is cut by its own mechanism, and the
payment ids follow the moved transactions by hash, which is where the chain's
distinct transaction hashes are needed.  The spent multisignature outputs are
not cut: the lower segment keeps all of them and the upper one starts empty, so
the chain still finds every spend, and the lower segment alone reports the
spends of the upper one's blocks.

A fork starts an empty segment above the top of a segment that has blocks.
-/

set_option autoImplicit false

namespace CryptoNote

open ListAlgorithms BlockchainCache Ledger

namespace BlockchainCache

@[simp] theorem create_startIndex (startIndex : Nat) : (create startIndex).startIndex = startIndex := rfl

@[simp] theorem split_fst_startIndex (cache : BlockchainCache) (splitBlockIndex : Nat) :
    (cache.split splitBlockIndex).1.startIndex = cache.startIndex := rfl

@[simp] theorem split_snd_startIndex (cache : BlockchainCache) (splitBlockIndex : Nat) :
    (cache.split splitBlockIndex).2.startIndex = splitBlockIndex := rfl

end BlockchainCache

section Split

variable {blocks : List PushedBlock} {cache : BlockchainCache} {stop splitBlockIndex : Nat}

theorem Ledger.WellFormed.window_hashes_nodup (wellFormed : WellFormed blocks) (start stop : Nat) :
    ((window ChainTransaction.blockIndex (chainTransactions blocks) start stop).map
      (·.transaction.transactionHash)).Nodup :=
  wellFormed.transactionHashes_nodup.sublist (List.filter_sublist.map _)

theorem any_transactionHash_filter (wellFormed : WellFormed blocks) {start stop : Nat}
    (test : ChainTransaction → Bool) {tx : ChainTransaction}
    (mem : tx ∈ window ChainTransaction.blockIndex (chainTransactions blocks) start stop) :
    (((window ChainTransaction.blockIndex (chainTransactions blocks) start stop).filter test).map
      (transactionInfoIn (chainOutputs blocks))).any (·.transactionHash == tx.transaction.transactionHash) =
      test tx := by
  rw [List.any_map]
  exact any_key_filter (wellFormed.window_hashes_nodup start stop) test mem

theorem find?_window_paymentIds (wellFormed : WellFormed blocks) {start stop : Nat} {tx : ChainTransaction}
    (mem : tx ∈ window ChainTransaction.blockIndex (chainTransactions blocks) start stop) :
    ((window Prod.fst (paymentIds blocks) start stop).map Prod.snd).find?
      (·.transactionHash == tx.transaction.transactionHash) = (paymentPair tx).map Prod.snd := by
  rw [window_paymentIds, List.find?_map, List.find?_filterMap]
  have byHash : ∀ y ∈ window ChainTransaction.blockIndex (chainTransactions blocks) start stop,
      (paymentPair y).any ((·.transactionHash == tx.transaction.transactionHash) ∘ Prod.snd) =
        (y.transaction.transactionHash == tx.transaction.transactionHash && (paymentPair y).isSome) := by
    intro y _
    cases paid : paymentPair y with
    | none => simp
    | some pair => simp [paymentPair_transactionHash paid]
  have found : (window ChainTransaction.blockIndex (chainTransactions blocks) start stop).find?
      (fun y => y.transaction.transactionHash == tx.transaction.transactionHash && (paymentPair y).isSome) =
        if (paymentPair tx).isSome then some tx else none :=
    find?_key_eq (wellFormed.window_hashes_nodup start stop) mem _
  rw [List.find?_congr byHash, found]
  cases paid : paymentPair tx <;> simp [paid]

theorem SegmentInvariant.transactions_from (segment : SegmentInvariant blocks cache stop) (bound : Nat) :
    cache.transactions.filter (fun info => bound ≤ info.blockIndex) =
      ((window ChainTransaction.blockIndex (chainTransactions blocks) cache.startIndex stop).filter
        fun tx => bound ≤ tx.blockIndex).map (transactionInfoIn (chainOutputs blocks)) := by
  rw [segment.transactions_eq, window_transactionInfos, List.filter_map]
  rfl

theorem split_paymentIds_lower (segment : SegmentInvariant blocks cache stop) (wellFormed : WellFormed blocks)
    (high : splitBlockIndex ≤ stop) :
    (cache.split splitBlockIndex).1.paymentIds =
      (window Prod.fst (paymentIds blocks) cache.startIndex splitBlockIndex).map Prod.snd := by
  show cache.paymentIds.filter (fun pair => !((cache.transactions.filter fun tx => splitBlockIndex ≤ tx.blockIndex).any
    (·.transactionHash == pair.transactionHash))) = _
  rw [segment.transactions_from, segment.paymentIds_eq, window_paymentIds, window_paymentIds,
    ← filter_lt_window _ high, List.filter_map, List.filter_filterMap, List.filterMap_filter]
  congr 1
  apply List.filterMap_congr
  intro tx mem
  cases paid : paymentPair tx with
  | none => simp
  | some pair =>
      -- the pair leaves exactly when its transaction moves up
      simp only [Option.filter_some, Function.comp_apply, paymentPair_transactionHash paid,
        any_transactionHash_filter wellFormed _ mem]
      by_cases early : tx.blockIndex < splitBlockIndex
      · simp [early, show ¬splitBlockIndex ≤ tx.blockIndex by omega]
      · simp [early, show splitBlockIndex ≤ tx.blockIndex by omega]

theorem split_paymentIds_upper (segment : SegmentInvariant blocks cache stop) (wellFormed : WellFormed blocks)
    (low : cache.startIndex ≤ splitBlockIndex) :
    (cache.split splitBlockIndex).2.paymentIds =
      (window Prod.fst (paymentIds blocks) splitBlockIndex stop).map Prod.snd := by
  show (cache.transactions.filter fun tx => splitBlockIndex ≤ tx.blockIndex).filterMap
    (fun tx => cache.paymentIds.find? (·.transactionHash == tx.transactionHash)) = _
  rw [segment.transactions_from, List.filterMap_map, window_paymentIds, ← filter_ge_window _ low,
    List.map_filterMap]
  apply List.filterMap_congr
  intro tx mem
  rw [Function.comp_apply, segment.paymentIds_eq]
  exact find?_window_paymentIds wellFormed (List.mem_filter.mp mem).1

theorem globalIndexesOf_split (key : Bool) (cache : BlockchainCache) (splitBlockIndex : Nat) :
    globalIndexesOf key (cache.split splitBlockIndex).1 =
        (splitGlobalIndexes (globalIndexesOf key cache) splitBlockIndex).1 ∧
      globalIndexesOf key (cache.split splitBlockIndex).2 =
        (splitGlobalIndexes (globalIndexesOf key cache) splitBlockIndex).2 := by
  cases key <;> exact ⟨rfl, rfl⟩

theorem split_lower (segment : SegmentInvariant blocks cache stop) (wellFormed : WellFormed blocks)
    (low : cache.startIndex ≤ splitBlockIndex) (high : splitBlockIndex ≤ stop) :
    SegmentInvariant blocks (cache.split splitBlockIndex).1 splitBlockIndex where
  startIndex_le := low
  storageBlockCount_eq := rfl
  blockInfos_eq i := by
    show (cache.blockInfos.take (splitBlockIndex - cache.startIndex))[i]? = _
    rw [List.getElem?_take, segment.blockInfos_eq]
    by_cases below : cache.startIndex + i < splitBlockIndex
    · rw [if_pos (by omega), if_pos (by omega)]
      exact (if_pos below).symm
    · rw [if_neg (by omega)]
      exact (if_neg below).symm
  spentKeyImages_eq keyImage := by
    show (cache.spentKeyImages keyImage).filter (· < splitBlockIndex) = _
    rw [segment.spentKeyImages_eq, Option.filter_filter, split_fst_startIndex]
    congr 1
    funext i
    -- below the split the segment's own end bound holds
    by_cases below : i < splitBlockIndex
    · simp [below, show i < stop by omega]
    · simp [below]
  transactions_eq := by
    show cache.transactions.filter (·.blockIndex < splitBlockIndex) = _
    rw [segment.transactions_eq, filter_lt_window _ high, split_fst_startIndex]
  globalIndexes_eq key amount := by
    rw [(globalIndexesOf_split key cache splitBlockIndex).1]
    exact (splitGlobalIndexes_windowEntry (outputIndexes_sorted key blocks amount) low high
      (segment.globalIndexes_eq key amount)).1
  paymentIds_eq := split_paymentIds_lower segment wellFormed high

theorem split_upper (segment : SegmentInvariant blocks cache stop) (wellFormed : WellFormed blocks)
    (low : cache.startIndex ≤ splitBlockIndex) (high : splitBlockIndex ≤ stop) :
    SegmentInvariant blocks (cache.split splitBlockIndex).2 stop where
  startIndex_le := high
  storageBlockCount_eq := by
    show cache.storageBlockCount - (splitBlockIndex - cache.startIndex) = stop - splitBlockIndex
    rw [segment.storageBlockCount_eq]
    omega
  blockInfos_eq i := by
    show (cache.blockInfos.drop (splitBlockIndex - cache.startIndex))[i]? = _
    rw [List.getElem?_drop, segment.blockInfos_eq,
      show cache.startIndex + (splitBlockIndex - cache.startIndex + i) = splitBlockIndex + i by omega]
    rfl
  spentKeyImages_eq keyImage := by
    show (cache.spentKeyImages keyImage).filter (splitBlockIndex ≤ ·) = _
    rw [segment.spentKeyImages_eq, Option.filter_filter, split_snd_startIndex]
    congr 1
    funext i
    by_cases above : splitBlockIndex ≤ i
    · simp [above, show cache.startIndex ≤ i by omega]
    · simp [above]
  transactions_eq := by
    show cache.transactions.filter (splitBlockIndex ≤ ·.blockIndex) = _
    rw [segment.transactions_eq, filter_ge_window _ low, split_snd_startIndex]
  globalIndexes_eq key amount := by
    rw [(globalIndexesOf_split key cache splitBlockIndex).2]
    exact (splitGlobalIndexes_windowEntry (outputIndexes_sorted key blocks amount) low high
      (segment.globalIndexes_eq key amount)).2
  paymentIds_eq := split_paymentIds_upper segment wellFormed low

theorem checkIfSpentMultisignature_append (chain more : List BlockchainCache) (amount : UInt64)
    (globalIndex : UInt32) :
    checkIfSpentMultisignature (chain ++ more) amount globalIndex =
      (checkIfSpentMultisignature chain amount globalIndex || checkIfSpentMultisignature more amount globalIndex) := by
  induction chain with
  | nil => simp [checkIfSpentMultisignature]
  | cons cache chain ih => simp [checkIfSpentMultisignature, ih, Bool.or_assoc]

theorem checkIfSpentMultisignature_split_lower (below : List BlockchainCache) (amount : UInt64)
    (globalIndex : UInt32) :
    checkIfSpentMultisignature ((cache.split splitBlockIndex).1 :: below) amount globalIndex =
      checkIfSpentMultisignature (cache :: below) amount globalIndex := rfl

theorem checkIfSpentMultisignature_split (below : List BlockchainCache) (amount : UInt64) (globalIndex : UInt32) :
    checkIfSpentMultisignature ((cache.split splitBlockIndex).2 :: (cache.split splitBlockIndex).1 :: below)
        amount globalIndex =
      checkIfSpentMultisignature (cache :: below) amount globalIndex := by
  have upper : (cache.split splitBlockIndex).2.spentMultisigOutputs = ∅ := rfl
  rw [checkIfSpentMultisignature, upper, checkIfSpentMultisignature_split_lower]
  simp

theorem split_chainInvariant {below : List BlockchainCache} (inv : ChainInvariant blocks (cache :: below) stop)
    (wellFormed : WellFormed blocks) (low : cache.startIndex ≤ splitBlockIndex) (high : splitBlockIndex ≤ stop) :
    ChainInvariant blocks ((cache.split splitBlockIndex).2 :: (cache.split splitBlockIndex).1 :: below) stop := by
  obtain ⟨segment, covered, rest⟩ := inv
  refine ⟨split_upper segment wellFormed low high, ?_, split_lower segment wellFormed low high, ?_, rest⟩
  · -- the upper half's spends are found in the lower half, which kept them all
    rintro output ⟨j, spender, above, inside, stored, spent⟩
    rw [checkIfSpentMultisignature_split]
    rw [split_snd_startIndex] at above
    exact covered output ⟨j, spender, by omega, inside, stored, spent⟩
  · rintro output ⟨j, spender, above, inside, stored, spent⟩
    rw [split_snd_startIndex] at inside
    exact covered output ⟨j, spender, above, by omega, stored, spent⟩

end Split

/-! ## Changing the bottom of a chain -/

theorem chainInvariant_replace {blocks : List PushedBlock} {rest rest' : List BlockchainCache}
    (replace : ∀ stop, ChainInvariant blocks rest stop → ChainInvariant blocks rest' stop)
    (spends : ∀ amount globalIndex,
      checkIfSpentMultisignature rest' amount globalIndex = checkIfSpentMultisignature rest amount globalIndex)
    (above : List BlockchainCache) :
    ∀ {stop : Nat}, ChainInvariant blocks (above ++ rest) stop → ChainInvariant blocks (above ++ rest') stop := by
  induction above with
  | nil => exact replace _
  | cons cache above ih =>
      rintro stop ⟨segment, covered, inv⟩
      refine ⟨segment, fun output spent => ?_, ih inv⟩
      show checkIfSpentMultisignature (cache :: above ++ rest') output.1 output.2 = true
      rw [checkIfSpentMultisignature_append, spends, ← checkIfSpentMultisignature_append]
      exact covered output spent

/-! ## Empty segments -/

theorem create_segmentInvariant (blocks : List PushedBlock) (startIndex : Nat) :
    SegmentInvariant blocks (create startIndex) startIndex where
  startIndex_le := le_rfl
  storageBlockCount_eq := by simp [create]
  blockInfos_eq i := by simp [create]
  spentKeyImages_eq keyImage := by
    show none = _
    rw [create_startIndex, eq_comm, Option.filter_eq_none_iff]
    intro i _ inside
    have := of_decide_eq_true inside
    omega
  transactions_eq := by
    show [] = _
    rw [create_startIndex, window_self]
  globalIndexes_eq key amount := by
    cases key <;> simp [globalIndexesOf, create, windowEntry, window_self]
  paymentIds_eq := by
    show [] = _
    rw [create_startIndex, window_self, List.map_nil]

theorem fork_chainInvariant {blocks : List PushedBlock} {cache : BlockchainCache} {parent : List BlockchainCache}
    (inv : ChainInvariant blocks (cache :: parent) blocks.length) (holding : 0 < cache.getBlockCount) :
    ChainInvariant blocks (create (cache.getTopBlockIndex + 1) :: cache :: parent) blocks.length := by
  have length := inv.1.length_blockInfos le_rfl
  have top : cache.getTopBlockIndex + 1 = blocks.length := by
    unfold getTopBlockIndex
    unfold getBlockCount at holding
    rw [inv.1.storageBlockCount_eq]
    omega
  rw [top]
  refine ⟨create_segmentInvariant blocks blocks.length, ?_, inv⟩
  -- the new segment holds no block, so no spend lies in it
  rintro output ⟨j, spender, above, inside, -⟩
  rw [create_startIndex] at above
  omega

end CryptoNote
