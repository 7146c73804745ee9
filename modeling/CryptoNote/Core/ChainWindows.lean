import CryptoNote.Core.ChainRuns

/-! # Windows of a chain of segments

`getLastUnits` reads the values of the last `count` blocks up to a block index:
the segment takes what it holds of that window and asks its parent for the
rest, from the parent's top block down.  The root segment alone skips the
genesis block when asked to.  `getBlockHashes` reads the hashes from a block
index up the same way, the parent's part first.

Over every reachable chain both are the window of the chain of blocks
(`blockUnits`), whichever segments hold it, except that `getBlockHashes` from
an index past the top block plus one reads past the end of the top segment
with `at` and throws.  The lemmas carry the chain invariant segment by
segment; the one fact the invariant does not give is that every segment above
the root starts past block 0 (`AboveGenesis`), which is what confines the
genesis skip to the root. -/

set_option autoImplicit false

namespace CryptoNote

open BlockchainCache Ledger

namespace BlockchainCache

/-- `getTopBlockIndex` of the top segment of a chain. -/
def topOf : List BlockchainCache → Nat
  | [] => 0
  | cache :: _ => cache.getTopBlockIndex

/-- The local part of `getLastUnits`: `(from, to, realCount)` after the genesis
rule, which `skipGenesis` enables when `useGenesis` is off and the parent is
null. -/
def lastUnitsRange (startIndex count blockIndex : Nat) (skipGenesis : Bool) : Nat × Nat × Nat :=
  let toIndex := if blockIndex < startIndex then 0 else blockIndex - startIndex + 1
  let realCount := min count toIndex
  let fromIndex := toIndex - realCount
  if skipGenesis && fromIndex == 0 && realCount != 0 then (fromIndex + 1, toIndex, realCount - 1)
  else (fromIndex, toIndex, realCount)

/-- `getLastUnits(count, blockIndex, useGenesis, pred)`: the parent's part of
the window, then `pred` over the blocks `[from, to)` of the segment. -/
def getLastUnits {α : Type} (pred : CachedBlockInfo → α) :
    List BlockchainCache → Nat → Nat → Bool → List α
  | [], _, _, _ => []
  | cache :: parent, count, blockIndex, useGenesis =>
      let range := lastUnitsRange cache.startIndex count blockIndex (!useGenesis && parent.isEmpty)
      let result :=
        if range.2.2 < count && !parent.isEmpty then
          getLastUnits pred parent (count - range.2.2) (min blockIndex (topOf parent)) useGenesis
        else []
      result ++ ((cache.blockInfos.drop range.1).take (range.2.1 - range.1)).map pred

def getLastTimestamps (chain : List BlockchainCache) (count blockIndex : Nat) (useGenesis : Bool) : List UInt64 :=
  getLastUnits (·.timestamp) chain count blockIndex useGenesis

def getLastCumulativeDifficulties (chain : List BlockchainCache) (count blockIndex : Nat) (useGenesis : Bool) :
    List UInt64 :=
  getLastUnits (·.cumulativeDifficulty) chain count blockIndex useGenesis

/-- `size_t` subtraction of two sizes below `2^64`. -/
def sizeSub (a b : Nat) : Nat := if b ≤ a then a - b else 2 ^ 64 - (b - a)

/-- The loop of `getBlockHashes` over `[start, start + count)`, reading each
block info with `at`. -/
def hashesAt (cache : BlockchainCache) (start : Nat) : Nat → Except String (List Crypto.Hash)
  | 0 => .ok []
  | count + 1 =>
      match cache.blockInfos[start]? with
      | none => .error "out_of_range"
      | some info => (hashesAt cache (start + 1) count).map (info.blockHash :: ·)

/-- `getBlockHashes(startBlockIndex, maxCount)`.  The parent returns at most
`maxCount` hashes, so `maxCount - hashes.size()` does not wrap. -/
def getBlockHashes : List BlockchainCache → Nat → Nat → Except String (List Crypto.Hash)
  | [], _, _ => .error "parent == nullptr"
  | cache :: parent, startBlockIndex, maxCount =>
      if startBlockIndex < cache.startIndex then
        (getBlockHashes parent startBlockIndex maxCount).bind fun hashes =>
          let blocksLeft := min (maxCount - hashes.length) cache.blockInfos.length
          (hashesAt cache 0 blocksLeft).map (hashes ++ ·)
      else
        let start := startBlockIndex - cache.startIndex
        let blocksLeft := min (sizeSub cache.blockInfos.length start) maxCount
        hashesAt cache start blocksLeft

end BlockchainCache

/-! ## The windows of the chain of blocks -/

section Units

variable {α : Type} (pred : CachedBlockInfo → α) (blocks : List PushedBlock)

/-- `pred` of the infos of the blocks `[lo, hi)`. -/
def blockUnits (lo hi : Nat) : List α :=
  (List.range' lo (hi - lo)).filterMap fun j => (blockInfo blocks j).map pred

/-- The first block of the window of `getLastUnits`: `count` blocks back from
`blockIndex`, and not the genesis block unless `useGenesis`. -/
def lastWindowStart (count blockIndex : Nat) (useGenesis : Bool) : Nat :=
  max (if useGenesis then 0 else 1) (blockIndex + 1 - count)

variable {blocks}

theorem exists_blockInfo {j : Nat} (inside : j < blocks.length) : ∃ info, blockInfo blocks j = some info := by
  unfold blockInfo
  rw [List.getElem?_eq_getElem inside]
  exact ⟨_, rfl⟩

theorem blockUnits_of_le {lo hi : Nat} (le : hi ≤ lo) : blockUnits pred blocks lo hi = [] := by
  simp [blockUnits, Nat.sub_eq_zero_of_le le]

theorem blockUnits_cons {lo hi : Nat} {info : CachedBlockInfo} (below : lo < hi)
    (stored : blockInfo blocks lo = some info) :
    blockUnits pred blocks lo hi = pred info :: blockUnits pred blocks (lo + 1) hi := by
  rw [blockUnits, show hi - lo = (hi - (lo + 1)) + 1 by omega, List.range'_succ, List.filterMap_cons, stored]
  rfl

theorem blockUnits_append {lo mid hi : Nat} (low : lo ≤ mid) (high : mid ≤ hi) :
    blockUnits pred blocks lo mid ++ blockUnits pred blocks mid hi = blockUnits pred blocks lo hi := by
  have joined := @List.range'_append lo (mid - lo) (hi - mid) 1
  rw [show lo + 1 * (mid - lo) = mid by omega, show mid - lo + (hi - mid) = hi - lo by omega] at joined
  rw [blockUnits, blockUnits, blockUnits, ← List.filterMap_append, joined]

theorem length_blockUnits (n : Nat) : ∀ {lo : Nat}, lo + n ≤ blocks.length →
    (blockUnits pred blocks lo (lo + n)).length = n := by
  induction n with
  | zero => intro lo _; simp [blockUnits]
  | succ n ih =>
    intro lo inside
    obtain ⟨info, stored⟩ := @exists_blockInfo blocks lo (by omega)
    rw [blockUnits_cons pred (by omega) stored, List.length_cons, show lo + (n + 1) = lo + 1 + n by omega,
      ih (by omega)]

end Units

/-! ## Segments -/

section Segment

variable {α : Type} (pred : CachedBlockInfo → α) {blocks : List PushedBlock} {cache : BlockchainCache}
  {stop : Nat}

theorem SegmentInvariant.getElem?_blockInfos (segment : SegmentInvariant blocks cache stop) {i : Nat}
    (inside : cache.startIndex + i < stop) : cache.blockInfos[i]? = blockInfo blocks (cache.startIndex + i) := by
  rw [segment.blockInfos_eq, if_pos inside]

theorem SegmentInvariant.map_take_drop (segment : SegmentInvariant blocks cache stop) (le : stop ≤ blocks.length)
    (n : Nat) : ∀ (fromIndex : Nat), cache.startIndex + fromIndex + n ≤ stop →
      ((cache.blockInfos.drop fromIndex).take n).map pred =
        blockUnits pred blocks (cache.startIndex + fromIndex) (cache.startIndex + fromIndex + n) := by
  induction n with
  | zero => intro fromIndex _; simp [blockUnits]
  | succ n ih =>
    intro fromIndex inside
    obtain ⟨info, stored⟩ := @exists_blockInfo blocks (cache.startIndex + fromIndex) (by omega)
    have here := segment.getElem?_blockInfos (i := fromIndex) (by omega)
    rw [stored] at here
    obtain ⟨present, found⟩ := List.getElem?_eq_some_iff.mp here
    have next := ih (fromIndex + 1) (by omega)
    rw [← Nat.add_assoc, show cache.startIndex + fromIndex + 1 + n = cache.startIndex + fromIndex + (n + 1) by omega]
      at next
    rw [List.drop_eq_getElem_cons present, List.take_succ_cons, List.map_cons, next,
      blockUnits_cons pred (by omega) stored, found]

theorem SegmentInvariant.hashesAt_eq (segment : SegmentInvariant blocks cache stop) (le : stop ≤ blocks.length)
    (n : Nat) : ∀ (start : Nat), cache.startIndex + start + n ≤ stop →
      hashesAt cache start n =
        .ok (blockUnits (·.blockHash) blocks (cache.startIndex + start) (cache.startIndex + start + n)) := by
  induction n with
  | zero => intro start _; simp [hashesAt, blockUnits]
  | succ n ih =>
    intro start inside
    obtain ⟨info, stored⟩ := @exists_blockInfo blocks (cache.startIndex + start) (by omega)
    have here := segment.getElem?_blockInfos (i := start) (by omega)
    rw [stored] at here
    have next := ih (start + 1) (by omega)
    rw [← Nat.add_assoc, show cache.startIndex + start + 1 + n = cache.startIndex + start + (n + 1) by omega]
      at next
    rw [hashesAt, here, next, blockUnits_cons _ (by omega) stored]
    rfl

theorem SegmentInvariant.getTopBlockIndex_eq (segment : SegmentInvariant blocks cache stop) :
    cache.getTopBlockIndex = stop - 1 := by
  have started := segment.startIndex_le
  have count := segment.storageBlockCount_eq
  unfold getTopBlockIndex
  omega

end Segment

/-! ## Segments above the root -/

/-- Every segment but the root starts past the genesis block. -/
def AboveGenesis : List BlockchainCache → Prop
  | [] => True
  | [_] => True
  | cache :: next :: rest => 0 < cache.startIndex ∧ AboveGenesis (next :: rest)

theorem aboveGenesis_cons_iff {cache cache' : BlockchainCache} (same : cache'.startIndex = cache.startIndex)
    (rest : List BlockchainCache) : AboveGenesis (cache' :: rest) ↔ AboveGenesis (cache :: rest) := by
  cases rest with
  | nil => exact Iff.rfl
  | cons next rest => simp only [AboveGenesis, same]

theorem aboveGenesis_append_cons (above : List BlockchainCache) (cache : BlockchainCache)
    (rest : List BlockchainCache) :
    AboveGenesis (above ++ cache :: rest) ↔ (∀ c ∈ above, 0 < c.startIndex) ∧ AboveGenesis (cache :: rest) := by
  induction above with
  | nil => simp
  | cons first above ih =>
    cases above with
    | nil => simp [AboveGenesis]
    | cons second above =>
      simp only [List.cons_append, AboveGenesis] at ih ⊢
      rw [ih]
      simp [and_assoc]

namespace BlockchainCache

theorem setGlobalIndexes_startIndex (cache : BlockchainCache) (key : Bool) (amount : UInt64)
    (entry : OutputGlobalIndexesForAmount) : (cache.setGlobalIndexes key amount entry).startIndex = cache.startIndex := by
  cases key <;> rfl

theorem insertOutputs_startIndex (parent : List BlockchainCache) (blockIndex transactionIndex : Nat)
    (outputs : List TransactionOutput) : ∀ (cache : BlockchainCache) (outputIndex : Nat),
      (insertOutputs parent blockIndex transactionIndex cache outputs outputIndex).1.startIndex = cache.startIndex := by
  induction outputs with
  | nil => intro cache outputIndex; rfl
  | cons output outputs ih =>
    intro cache outputIndex
    rw [insertOutputs_cons, ih, setGlobalIndexes_startIndex]

theorem pushTransactions_startIndex (parent : List BlockchainCache) (blockIndex : Nat)
    (transactions : List CachedTransaction) : ∀ (cache : BlockchainCache) (transactionIndex : Nat),
      (pushTransactions parent blockIndex cache transactions transactionIndex).startIndex = cache.startIndex := by
  induction transactions with
  | nil => intro cache transactionIndex; rfl
  | cons transaction transactions ih =>
    intro cache transactionIndex
    rw [pushTransactions, ih]
    simp only [pushTransaction]
    split <;> exact insertOutputs_startIndex _ _ _ _ _ _

theorem pushBlock_startIndex (parent : List BlockchainCache) (cache : BlockchainCache) (cachedBlock : CachedBlock)
    (cachedTransactions : List CachedTransaction) (validatorState : TransactionValidatorState)
    (generatedCoins blockDifficulty : UInt64) :
    (pushBlock parent cache cachedBlock cachedTransactions validatorState generatedCoins blockDifficulty).startIndex =
      cache.startIndex := by
  unfold pushBlock
  exact pushTransactions_startIndex _ _ _ _ _

end BlockchainCache

theorem Reachable.aboveGenesis {blocks : List PushedBlock} {chain : List BlockchainCache}
    (reach : Reachable blocks chain) : AboveGenesis chain := by
  induction reach with
  | root => trivial
  | push block _ _ ih => exact (aboveGenesis_cons_iff (pushBlock_startIndex ..) _).mpr ih
  | @split blocks above below cache splitBlockIndex _ low _ ih =>
    -- the upper half starts at the split, above the segment's start; the lower half keeps the start
    rw [aboveGenesis_append_cons] at ih ⊢
    refine ⟨ih.1, ?_⟩
    cases below with
    | nil => exact ⟨by simp only [split_snd_startIndex]; omega, trivial⟩
    | cons next rest =>
      exact ⟨by simp only [split_snd_startIndex]; omega, by simpa [AboveGenesis] using ih.2⟩
  | @toParent blocks cache below _ ih =>
    cases below with
    | nil => trivial
    | cons next rest => exact ih.2
  | fork _ _ ih => exact ⟨by simp, ih⟩

/-! ## `getLastUnits` -/

section LastUnits

variable {α : Type} (pred : CachedBlockInfo → α) {blocks : List PushedBlock}

theorem lastUnitsRange_root (count blockIndex : Nat) (useGenesis : Bool) :
    lastUnitsRange 0 count blockIndex (!useGenesis) =
      (lastWindowStart count blockIndex useGenesis, blockIndex + 1,
        blockIndex + 1 - lastWindowStart count blockIndex useGenesis) := by
  simp only [lastUnitsRange, lastWindowStart, Nat.not_lt_zero, if_false, Nat.sub_zero]
  cases useGenesis with
  | true =>
    simp only [Bool.not_true, Bool.false_and, Bool.false_eq_true, if_false, if_true, Prod.mk.injEq, true_and]
    omega
  | false =>
    -- the genesis block is dropped exactly when the window reaches it
    simp only [Bool.not_false, Bool.true_and, Bool.and_eq_true, beq_iff_eq, bne_iff_ne, ne_eq, Bool.false_eq_true,
      if_false]
    split <;> simp only [Prod.mk.injEq, true_and] <;> omega

theorem getLastUnits_eq : ∀ {chain : List BlockchainCache} {stop : Nat}, ChainInvariant blocks chain stop →
    AboveGenesis chain → stop ≤ blocks.length → ∀ (count blockIndex : Nat) (useGenesis : Bool),
      blockIndex < stop →
      getLastUnits pred chain count blockIndex useGenesis =
        blockUnits pred blocks (lastWindowStart count blockIndex useGenesis) (blockIndex + 1)
  | [], stop, inv, _, _, count, blockIndex, useGenesis, inside => by
    have empty : stop = 0 := inv
    omega
  | [cache], stop, ⟨segment, _, rest⟩, _, le, count, blockIndex, useGenesis, inside => by
    -- the root: the window is local, with the genesis rule
    have root : cache.startIndex = 0 := rest
    rw [getLastUnits, root, List.isEmpty_nil, Bool.and_true, lastUnitsRange_root]
    have slice := segment.map_take_drop pred le (blockIndex + 1 - lastWindowStart count blockIndex useGenesis)
      (lastWindowStart count blockIndex useGenesis) (by unfold lastWindowStart at *; split <;> omega)
    rw [root, Nat.zero_add, show lastWindowStart count blockIndex useGenesis +
      (blockIndex + 1 - lastWindowStart count blockIndex useGenesis) = blockIndex + 1 by
        unfold lastWindowStart; split <;> omega] at slice
    simp [slice]
  | cache :: next :: rest, stop, ⟨segment, _, parent⟩, ⟨started, above⟩, le, count, blockIndex, useGenesis,
      inside => by
    have top : topOf (next :: rest) = cache.startIndex - 1 := parent.1.getTopBlockIndex_eq
    have below := segment.startIndex_le
    have parentWindow := getLastUnits_eq parent above (by omega)
    by_cases early : blockIndex < cache.startIndex
    · -- the window lies below the segment
      have range : lastUnitsRange cache.startIndex count blockIndex false = (0, 0, 0) := by
        simp [lastUnitsRange, early]
      rw [getLastUnits]
      simp only [List.isEmpty_cons, Bool.and_false, range, top, Bool.not_false, Bool.and_true,
        List.drop_zero, Nat.sub_self, List.take_zero, List.map_nil, List.append_nil, Nat.sub_zero]
      by_cases positive : 0 < count
      · rw [if_pos (by simpa using positive), parentWindow _ _ _ (by omega), Nat.min_eq_left (by omega)]
      · rw [if_neg (by simpa using positive), blockUnits_of_le pred (by unfold lastWindowStart; split <;> omega)]
    · -- the segment holds the blocks from its start up to `blockIndex`
      have toIndex : (if blockIndex < cache.startIndex then 0 else blockIndex - cache.startIndex + 1) =
          blockIndex + 1 - cache.startIndex := by
        rw [if_neg early]
        omega
      by_cases reaches : blockIndex + 1 - cache.startIndex < count
      · -- the window starts in the parent, which reads up to its top block
        have range : lastUnitsRange cache.startIndex count blockIndex false =
            (0, blockIndex + 1 - cache.startIndex, blockIndex + 1 - cache.startIndex) := by
          simp only [lastUnitsRange, toIndex, Nat.min_eq_right reaches.le, Nat.sub_self, Bool.false_and,
            Bool.false_eq_true, if_false]
        have slice := segment.map_take_drop pred le (blockIndex + 1 - cache.startIndex) 0
          (by omega)
        simp only [Nat.add_zero, List.drop_zero,
          show cache.startIndex + (blockIndex + 1 - cache.startIndex) = blockIndex + 1 by omega] at slice
        rw [getLastUnits]
        simp only [List.isEmpty_cons, Bool.and_false, range, top, Bool.not_false, Bool.and_true,
          List.drop_zero, Nat.sub_zero, slice, decide_eq_true reaches, if_true]
        rw [parentWindow _ _ _ (by omega), Nat.min_eq_right (by omega),
          show cache.startIndex - 1 + 1 = cache.startIndex by omega,
          show lastWindowStart (count - (blockIndex + 1 - cache.startIndex)) (cache.startIndex - 1) useGenesis =
            lastWindowStart count blockIndex useGenesis by unfold lastWindowStart; split <;> omega,
          blockUnits_append pred (by unfold lastWindowStart; split <;> omega) (by omega)]
      · -- the segment holds the whole window
        have range : lastUnitsRange cache.startIndex count blockIndex false =
            (blockIndex + 1 - cache.startIndex - count, blockIndex + 1 - cache.startIndex, count) := by
          simp only [lastUnitsRange, toIndex, Nat.min_eq_left (Nat.le_of_not_lt reaches), Bool.false_and,
            Bool.false_eq_true, if_false]
        have slice := segment.map_take_drop pred le count
          (blockIndex + 1 - cache.startIndex - count) (by omega)
        simp only [show cache.startIndex + (blockIndex + 1 - cache.startIndex - count) = blockIndex + 1 - count by
          omega, show blockIndex + 1 - count + count = blockIndex + 1 by omega] at slice
        rw [getLastUnits]
        simp only [List.isEmpty_cons, Bool.and_false, range, Bool.not_false, Bool.and_true,
          Nat.lt_irrefl, decide_false, Bool.false_eq_true, if_false, List.nil_append,
          show blockIndex + 1 - cache.startIndex - (blockIndex + 1 - cache.startIndex - count) = count by omega,
          slice]
        rw [show lastWindowStart count blockIndex useGenesis = blockIndex + 1 - count by
          unfold lastWindowStart; split <;> omega]

end LastUnits

/-! ## `getBlockHashes` -/

section BlockHashes

variable {blocks : List PushedBlock}

theorem getBlockHashes_eq : ∀ {chain : List BlockchainCache} {stop : Nat}, ChainInvariant blocks chain stop →
    chain ≠ [] → stop ≤ blocks.length → ∀ (startBlockIndex maxCount : Nat), startBlockIndex ≤ stop →
      getBlockHashes chain startBlockIndex maxCount =
        .ok (blockUnits (·.blockHash) blocks startBlockIndex (min stop (startBlockIndex + maxCount)))
  | [], _, _, nonempty, _, _, _, _ => absurd rfl nonempty
  | cache :: parent, stop, ⟨segment, _, rest⟩, _, le, startBlockIndex, maxCount, inside => by
    have size := segment.length_blockInfos le
    have started := segment.startIndex_le
    by_cases early : startBlockIndex < cache.startIndex
    · -- the parent reads the blocks below the segment, the segment the rest from its start
      have hasParent : parent ≠ [] := by
        rintro rfl
        have root : cache.startIndex = 0 := rest
        omega
      have below := getBlockHashes_eq rest hasParent (by omega) startBlockIndex maxCount early.le
      have counted := @length_blockUnits _ (·.blockHash) blocks
        (min cache.startIndex (startBlockIndex + maxCount) - startBlockIndex) startBlockIndex (by omega)
      rw [show startBlockIndex + (min cache.startIndex (startBlockIndex + maxCount) - startBlockIndex) =
        min cache.startIndex (startBlockIndex + maxCount) by omega] at counted
      have own := segment.hashesAt_eq le
        (min (maxCount - (min cache.startIndex (startBlockIndex + maxCount) - startBlockIndex))
          (stop - cache.startIndex)) 0 (by omega)
      rw [getBlockHashes, if_pos early, below]
      show Except.map _ (hashesAt cache 0 (min (maxCount - (blockUnits _ blocks _ _).length)
        cache.blockInfos.length)) = _
      rw [counted, size, own, Nat.add_zero]
      show Except.ok (_ ++ _) = _
      congr 1
      by_cases fits : startBlockIndex + maxCount ≤ cache.startIndex
      · rw [@blockUnits_of_le _ _ _ cache.startIndex _ (by omega), List.append_nil, Nat.min_eq_right fits,
          Nat.min_eq_right (by omega)]
      · rw [Nat.min_eq_left (by omega : cache.startIndex ≤ startBlockIndex + maxCount),
          blockUnits_append _ early.le (by omega)]
        congr 1
        omega
    · -- the window starts in the segment
      have start_le : startBlockIndex - cache.startIndex ≤ cache.blockInfos.length := by omega
      have own := segment.hashesAt_eq le
        (min (cache.blockInfos.length - (startBlockIndex - cache.startIndex)) maxCount)
        (startBlockIndex - cache.startIndex) (by omega)
      rw [getBlockHashes, if_neg early]
      simp only [sizeSub, if_pos start_le, own]
      rw [show cache.startIndex + (startBlockIndex - cache.startIndex) = startBlockIndex by omega,
        show startBlockIndex + min (cache.blockInfos.length - (startBlockIndex - cache.startIndex)) maxCount =
          min stop (startBlockIndex + maxCount) by omega]

end BlockHashes

/-! ## Over reachable chains -/

/-- Seen from any segment of a reachable chain, the last-units window, the
hashes from a block index up to one past the top, and the per-block totals
are those of the chain of blocks below it. -/
theorem segmentWindows_eq {blocks : List PushedBlock} {cache : BlockchainCache} {parent : List BlockchainCache}
    (reach : Reachable blocks (cache :: parent)) :
    (∀ {α : Type} (pred : CachedBlockInfo → α) (count blockIndex : Nat) (useGenesis : Bool),
      blockIndex < blocks.length →
      getLastUnits pred (cache :: parent) count blockIndex useGenesis =
        blockUnits pred blocks (lastWindowStart count blockIndex useGenesis) (blockIndex + 1)) ∧
    (∀ startBlockIndex maxCount : Nat, startBlockIndex ≤ blocks.length →
      getBlockHashes (cache :: parent) startBlockIndex maxCount =
        .ok (blockUnits (·.blockHash) blocks startBlockIndex (min blocks.length (startBlockIndex + maxCount)))) ∧
    ∀ blockIndex : Nat,
      getBlockHash (cache :: parent) blockIndex = (blockInfo blocks blockIndex).map (·.blockHash) ∧
      getCurrentCumulativeDifficulty (cache :: parent) blockIndex =
        (blockInfo blocks blockIndex).map (·.cumulativeDifficulty) ∧
      getAlreadyGeneratedCoins (cache :: parent) blockIndex =
        (blockInfo blocks blockIndex).map (·.alreadyGeneratedCoins) ∧
      getAlreadyGeneratedTransactions (cache :: parent) blockIndex =
        (blockInfo blocks blockIndex).map (·.alreadyGeneratedTransactions) := by
  have inv := reach.invariant.2
  refine ⟨fun pred count blockIndex useGenesis inside =>
      getLastUnits_eq pred inv reach.aboveGenesis le_rfl count blockIndex useGenesis inside,
    fun startBlockIndex maxCount inside =>
      getBlockHashes_eq inv (List.cons_ne_nil _ _) le_rfl startBlockIndex maxCount inside,
    fun blockIndex => ?_⟩
  simp only [getBlockHash, getCurrentCumulativeDifficulty, getAlreadyGeneratedCoins, getAlreadyGeneratedTransactions,
    reach.getBlockInfo_eq, and_self]

/-- The two segments that splitting the example segment at block 1 leaves: the
windows seen from the upper one reach down into the lower one. -/
theorem segmentWindows_eq_example :
    Reachable exampleBlocks [(exampleSegment.split 1).2, (exampleSegment.split 1).1] ∧
    (∀ {α : Type} (pred : CachedBlockInfo → α) (count blockIndex : Nat) (useGenesis : Bool),
      blockIndex < exampleBlocks.length →
      getLastUnits pred [(exampleSegment.split 1).2, (exampleSegment.split 1).1] count blockIndex useGenesis =
        blockUnits pred exampleBlocks (lastWindowStart count blockIndex useGenesis) (blockIndex + 1)) ∧
    (∀ startBlockIndex maxCount : Nat, startBlockIndex ≤ exampleBlocks.length →
      getBlockHashes [(exampleSegment.split 1).2, (exampleSegment.split 1).1] startBlockIndex maxCount =
        .ok (blockUnits (·.blockHash) exampleBlocks startBlockIndex
          (min exampleBlocks.length (startBlockIndex + maxCount)))) ∧
    ∀ blockIndex : Nat,
      getBlockHash [(exampleSegment.split 1).2, (exampleSegment.split 1).1] blockIndex =
        (blockInfo exampleBlocks blockIndex).map (·.blockHash) ∧
      getCurrentCumulativeDifficulty [(exampleSegment.split 1).2, (exampleSegment.split 1).1] blockIndex =
        (blockInfo exampleBlocks blockIndex).map (·.cumulativeDifficulty) ∧
      getAlreadyGeneratedCoins [(exampleSegment.split 1).2, (exampleSegment.split 1).1] blockIndex =
        (blockInfo exampleBlocks blockIndex).map (·.alreadyGeneratedCoins) ∧
      getAlreadyGeneratedTransactions [(exampleSegment.split 1).2, (exampleSegment.split 1).1] blockIndex =
        (blockInfo exampleBlocks blockIndex).map (·.alreadyGeneratedTransactions) :=
  ⟨exampleSplit_reachable, segmentWindows_eq exampleSplit_reachable⟩

/-- Past the top block plus one, `getBlockHashes` reads the segment with `at`
beyond its end and throws. -/
theorem getBlockHashes_pastTop :
    Reachable exampleBlocks [exampleSegment] ∧ exampleBlocks.length = 2 ∧
      getBlockHashes [exampleSegment] 3 1 = .error "out_of_range" :=
  ⟨exampleSegment_reachable, rfl, by decide⟩

end CryptoNote
