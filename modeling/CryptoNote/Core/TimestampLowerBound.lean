import CryptoNote.Core.ChainWindows
import CryptoNote.Core.NextDifficulty
import CryptoNote.Lib.BinarySearch

/-! # The first block at a timestamp (`getTimestampLowerBoundBlockIndex`)

`Core::queryBlocks` and `queryBlocksLite` send full blocks from the index
`getTimestampLowerBoundBlockIndex(timestamp)` of the main chain on.  A segment
whose first block is before the timestamp runs `std::lower_bound` over its block
infos by timestamp; otherwise it asks its parent, and falls back to its own
start when the parent throws because all its blocks are before the timestamp.

`std::lower_bound` is a lower bound only on a range sorted by the key.  Block
timestamps are not sorted: `Core::validateBlock` only asks a timestamp to be
within the future limit and, once there are `BLOCKCHAIN_TIMESTAMP_CHECK_WINDOW`
blocks, not below the median of the last ones.  On a chain whose timestamps
never decrease the answer is the first block at or after the timestamp
(`Reachable.getTimestampLowerBoundBlockIndex_sorted`); on an accepted chain
whose timestamps go back, the binary search can step over a block at or after
the timestamp. -/

set_option autoImplicit false

namespace CryptoNote

open BlockchainCache Ledger

/-- `INVALID_BLOCK_INDEX`, `std::numeric_limits<uint32_t>::max()`. -/
def INVALID_BLOCK_INDEX : Nat := 4294967295

namespace BlockchainCache

/-- `getTimestampLowerBoundBlockIndex(timestamp)`.  A `std::runtime_error` of the
parent is caught; a segment without blocks, which the source asserts against,
answers an error. -/
def getTimestampLowerBoundBlockIndex : List BlockchainCache → UInt64 → Except String Nat
  | [], _ => .error "parent == nullptr"
  | cache :: parent, timestamp =>
      match cache.blockInfos.head?, cache.blockInfos.getLast? with
      | some front, some back =>
          if back.timestamp < timestamp then .error "no blocks for this timestamp, too large"
          else if front.timestamp < timestamp then
            .ok (cache.startIndex + BinarySearch.lowerBound
              (fun i => (cache.blockInfos[i]?.map fun info => decide (info.timestamp < timestamp)).getD false)
              cache.blockInfos.length)
          else if parent.isEmpty then .ok 0
          else
            match getTimestampLowerBoundBlockIndex parent timestamp with
            | .ok blockIndex => .ok (if blockIndex ≠ INVALID_BLOCK_INDEX then blockIndex else cache.startIndex)
            | .error _ => .ok cache.startIndex
      | _, _ => .error "blockInfos.empty()"

end BlockchainCache

def timestampAt (blocks : List PushedBlock) (j : Nat) : UInt64 := ((blockInfo blocks j).map (·.timestamp)).getD 0

def TimestampsSorted (blocks : List PushedBlock) : Prop :=
  ∀ i j, i ≤ j → j < blocks.length → timestampAt blocks i ≤ timestampAt blocks j

/-- What the lower bound answers on a chain holding the blocks below `stop`:
an error when every block is before the timestamp, otherwise the first block at
or after it. -/
def LowerBoundAnswer (blocks : List PushedBlock) (stop : Nat) (timestamp : UInt64) (answer : Except String Nat) :
    Prop :=
  (timestampAt blocks (stop - 1) < timestamp → ∃ message, answer = .error message) ∧
    (timestamp ≤ timestampAt blocks (stop - 1) →
      ∃ r, answer = .ok r ∧ r < stop ∧ (∀ j < r, timestampAt blocks j < timestamp) ∧
        timestamp ≤ timestampAt blocks r)

section Sorted

variable {blocks : List PushedBlock} (timestamp : UInt64)

theorem timestamp_eq_timestampAt {j : Nat} {info : CachedBlockInfo} (stored : blockInfo blocks j = some info) :
    info.timestamp = timestampAt blocks j := by
  simp [timestampAt, stored]

theorem SegmentInvariant.head?_getLast? {cache : BlockchainCache} {stop : Nat}
    (segment : SegmentInvariant blocks cache stop) (le : stop ≤ blocks.length) (started : cache.startIndex < stop) :
    ∃ front back, cache.blockInfos.head? = some front ∧ cache.blockInfos.getLast? = some back ∧
      front.timestamp = timestampAt blocks cache.startIndex ∧ back.timestamp = timestampAt blocks (stop - 1) := by
  obtain ⟨front, frontStored⟩ := @exists_blockInfo blocks cache.startIndex (by omega)
  obtain ⟨back, backStored⟩ := @exists_blockInfo blocks (stop - 1) (by omega)
  have size := segment.length_blockInfos le
  refine ⟨front, back, ?_, ?_, timestamp_eq_timestampAt frontStored, timestamp_eq_timestampAt backStored⟩
  · rw [List.head?_eq_getElem?, segment.getElem?_blockInfos (by omega), Nat.add_zero, frontStored]
  · rw [List.getLast?_eq_getElem?, segment.getElem?_blockInfos (by omega), size,
      show cache.startIndex + (stop - cache.startIndex - 1) = stop - 1 by omega, backStored]

theorem SegmentInvariant.lowerBoundPredicate {cache : BlockchainCache} {stop : Nat}
    (segment : SegmentInvariant blocks cache stop) (le : stop ≤ blocks.length) {i : Nat}
    (inside : cache.startIndex + i < stop) :
    (cache.blockInfos[i]?.map fun info => decide (info.timestamp < timestamp)).getD false =
      decide (timestampAt blocks (cache.startIndex + i) < timestamp) := by
  obtain ⟨info, stored⟩ := @exists_blockInfo blocks (cache.startIndex + i) (by omega)
  rw [segment.getElem?_blockInfos inside, stored, Option.map_some, Option.getD_some,
    timestamp_eq_timestampAt stored]

theorem TimestampsSorted.lt_of_le (sorted : TimestampsSorted blocks) {i j : Nat} (le : i ≤ j)
    (inside : j < blocks.length) (before : timestampAt blocks j < timestamp) : timestampAt blocks i < timestamp := by
  have ordered := UInt64.le_iff_toNat_le.mp (sorted i j le inside)
  rw [UInt64.lt_iff_toNat_lt] at before ⊢
  omega

theorem SegmentInvariant.lowerBound_sorted {cache : BlockchainCache} {stop : Nat} (sorted : TimestampsSorted blocks)
    (segment : SegmentInvariant blocks cache stop) (le : stop ≤ blocks.length) (started : cache.startIndex < stop)
    (front : timestampAt blocks cache.startIndex < timestamp) (back : timestamp ≤ timestampAt blocks (stop - 1)) :
    let r := cache.startIndex + BinarySearch.lowerBound
      (fun i => (cache.blockInfos[i]?.map fun info => decide (info.timestamp < timestamp)).getD false)
      cache.blockInfos.length
    r < stop ∧ (∀ j < r, timestampAt blocks j < timestamp) ∧ timestamp ≤ timestampAt blocks r := by
  intro r
  have size := segment.length_blockInfos le
  obtain ⟨fits, below, above⟩ := BinarySearch.lowerBound_antitone
    (fun i => (cache.blockInfos[i]?.map fun info => decide (info.timestamp < timestamp)).getD false)
    cache.blockInfos.length (fun i j le' inside holds => by
      rw [size] at inside
      rw [segment.lowerBoundPredicate timestamp le (by omega), decide_eq_true_iff] at holds ⊢
      exact sorted.lt_of_le timestamp (by omega) (by omega) holds)
  -- the last block is not before the timestamp, so the search stops inside the segment
  have inside : r < stop := by
    by_contra past
    have last := below (cache.blockInfos.length - 1) (by omega)
    rw [segment.lowerBoundPredicate timestamp le (by omega), decide_eq_true_iff,
      show cache.startIndex + (cache.blockInfos.length - 1) = stop - 1 by omega] at last
    exact absurd back (UInt64.not_le.mpr last)
  refine ⟨inside, fun j lt => ?_, ?_⟩
  · by_cases early : j < cache.startIndex
    · exact sorted.lt_of_le timestamp early.le (by omega) front
    · have holds := below (j - cache.startIndex) (by omega)
      rwa [segment.lowerBoundPredicate timestamp le (by omega), decide_eq_true_iff,
        show cache.startIndex + (j - cache.startIndex) = j by omega] at holds
  · have fails := above _ le_rfl (by omega)
    rw [segment.lowerBoundPredicate timestamp le (by omega), decide_eq_false_iff_not] at fails
    exact UInt64.not_lt.mp fails

theorem getTimestampLowerBoundBlockIndex_sorted (sorted : TimestampsSorted blocks)
    (small : blocks.length ≤ INVALID_BLOCK_INDEX) :
    ∀ {chain : List BlockchainCache} {stop : Nat}, ChainInvariant blocks chain stop → chain ≠ [] →
      (∀ cache ∈ chain, cache.blockInfos ≠ []) → stop ≤ blocks.length →
      LowerBoundAnswer blocks stop timestamp (getTimestampLowerBoundBlockIndex chain timestamp)
  | [], _, _, nonempty, _, _ => absurd rfl nonempty
  | cache :: parent, stop, ⟨segment, _, rest⟩, _, filled, le => by
    have size := segment.length_blockInfos le
    have started : cache.startIndex < stop := by
      have := List.length_pos_iff.mpr (filled cache List.mem_cons_self)
      omega
    obtain ⟨front, back, frontEq, backEq, frontTime, backTime⟩ := segment.head?_getLast? le started
    rw [getTimestampLowerBoundBlockIndex, frontEq, backEq]
    simp only [backTime, frontTime]
    refine ⟨fun past => ⟨_, if_pos past⟩, fun notPast => ?_⟩
    rw [if_neg (UInt64.not_lt.mpr notPast)]
    by_cases early : timestampAt blocks cache.startIndex < timestamp
    · -- the segment's first block is before the timestamp: the search runs here
      rw [if_pos early]
      exact ⟨_, rfl, segment.lowerBound_sorted timestamp sorted le started early notPast⟩
    · rw [if_neg early]
      have atStart : timestamp ≤ timestampAt blocks cache.startIndex := UInt64.not_lt.mp early
      cases parent with
      | nil =>
        have root : cache.startIndex = 0 := rest
        exact ⟨0, rfl, by omega, fun j lt => absurd lt (Nat.not_lt_zero j), root ▸ atStart⟩
      | cons next more =>
        have parentAnswer := getTimestampLowerBoundBlockIndex_sorted sorted small rest (List.cons_ne_nil _ _)
          (fun c mem => filled c (List.mem_cons_of_mem _ mem)) (by omega)
        simp only [List.isEmpty_cons, Bool.false_eq_true, if_false]
        by_cases parentPast : timestampAt blocks (cache.startIndex - 1) < timestamp
        · -- the parent's blocks are all before the timestamp: it throws, and the answer is this start
          obtain ⟨message, thrown⟩ := parentAnswer.1 parentPast
          rw [thrown]
          exact ⟨_, rfl, started, fun j lt => sorted.lt_of_le timestamp (by omega) (by omega) parentPast, atStart⟩
        · obtain ⟨r, found, below, before, at_r⟩ := parentAnswer.2 (UInt64.not_lt.mp parentPast)
          rw [found]
          have valid : r ≠ INVALID_BLOCK_INDEX := by omega
          exact ⟨r, by simp [valid], by omega, before, at_r⟩

end Sorted

theorem Reachable.getTimestampLowerBoundBlockIndex_sorted {blocks : List PushedBlock} {cache : BlockchainCache}
    {parent : List BlockchainCache} (reach : Reachable blocks (cache :: parent))
    (filled : ∀ segment ∈ cache :: parent, segment.blockInfos ≠ []) (sorted : TimestampsSorted blocks)
    (small : blocks.length ≤ INVALID_BLOCK_INDEX) (timestamp : UInt64)
    (notPast : timestamp ≤ timestampAt blocks (blocks.length - 1)) :
    ∃ r, getTimestampLowerBoundBlockIndex (cache :: parent) timestamp = .ok r ∧
      (∀ j < r, timestampAt blocks j < timestamp) ∧ timestamp ≤ timestampAt blocks r := by
  obtain ⟨r, found, -, before, at_r⟩ := (CryptoNote.getTimestampLowerBoundBlockIndex_sorted timestamp sorted small
    reach.invariant.2 (List.cons_ne_nil _ _) filled le_rfl).2 notPast
  exact ⟨r, found, before, at_r⟩

/-! ## A chain whose timestamps go back -/

section Unordered

open Crypto

def timedBlock (blockIndex : UInt32) (timestamp : UInt64) : PushedBlock where
  cachedBlock :=
    { block := { emptyBlockTemplate with baseTransaction := exampleCoinbase blockIndex, timestamp := timestamp }
      blockHash := Hash.ofByte blockIndex.toUInt8
      cachedBaseTransaction := ⟨exampleCoinbase blockIndex, [], Hash.ofByte (blockIndex.toUInt8 + 100), nullHash⟩
      baseTransaction_eq := (exampleBlock blockIndex ∅).cachedBlock.baseTransaction_eq }
  cachedTransactions := []
  validatorState := ⟨∅, ∅⟩
  generatedCoins := 0
  blockDifficulty := 1

def unorderedBlocks : List PushedBlock := [timedBlock 0 0, timedBlock 1 50, timedBlock 2 5, timedBlock 3 200]

def unorderedSegment : BlockchainCache :=
  unorderedBlocks.foldl (fun cache block => pushBlock [] cache block.cachedBlock block.cachedTransactions
    block.validatorState block.generatedCoins block.blockDifficulty) (create 0)

theorem unorderedBlocks_wellFormed : WellFormed unorderedBlocks where
  blockIndex_eq i h := by
    simp only [unorderedBlocks, List.length_cons, List.length_nil] at h
    interval_cases i <;> rfl
  blockHashes_nodup := by decide
  transactionHashes_nodup := by decide
  keyImages_once keyImage i j hi hj spentI _ := by
    simp only [unorderedBlocks, List.length_cons, List.length_nil] at hi
    interval_cases i <;> simp [unorderedBlocks, timedBlock] at spentI

theorem unorderedSegment_reachable : Reachable unorderedBlocks [unorderedSegment] :=
  (((Reachable.root.push (timedBlock 0 0)
    (@WellFormed.of_append [timedBlock 0 0] [timedBlock 1 50, timedBlock 2 5, timedBlock 3 200]
      unorderedBlocks_wellFormed)).push (timedBlock 1 50)
    (@WellFormed.of_append [timedBlock 0 0, timedBlock 1 50] [timedBlock 2 5, timedBlock 3 200]
      unorderedBlocks_wellFormed)).push (timedBlock 2 5)
    (@WellFormed.of_append [timedBlock 0 0, timedBlock 1 50, timedBlock 2 5] [timedBlock 3 200]
      unorderedBlocks_wellFormed)).push (timedBlock 3 200) unorderedBlocks_wellFormed

/-- Each block after the genesis block passes the timestamp rule of
`Core::validateBlock` at adjusted time 1000 (fewer than eleven blocks precede
it, so the median rule does not apply yet), and the lower bound of 40 is block
3, past block 1 at time 50. -/
theorem timestampLowerBound_skipsBlock :
    Reachable unorderedBlocks [unorderedSegment] ∧
      (∀ i < unorderedBlocks.length, 0 < i →
        timestampAccepted 1000 7200 ((List.range i).map (timestampAt unorderedBlocks))
          (timestampAt unorderedBlocks i) = true) ∧
      40 ≤ timestampAt unorderedBlocks (unorderedBlocks.length - 1) ∧
      getTimestampLowerBoundBlockIndex [unorderedSegment] 40 = .ok 3 ∧
      40 ≤ timestampAt unorderedBlocks 1 :=
  ⟨unorderedSegment_reachable, by decide, by decide, by decide, by decide⟩

end Unordered

end CryptoNote
