import CryptoNote.Core.SegmentTreeChains
import CryptoNote.Core.ChainWindows
import CryptoNote.Lib.BlockLocator

/-! # What `Core` tells a peer about its main chain

A node that has fallen behind sends a peer a sparse chain (`buildSparseChain`):
the hash of its main chain's top block, the hashes `1, 2, 4, …` blocks below it
and the genesis hash.  The peer answers with `findBlockchainSupplement`: the
height on its own main chain of the first of those hashes it has there, and the
hashes of its main chain from that height (`getBlockHashes`).

On a tree grown from an in-memory root, `getBlockHash` reads the chain of a
segment by height (`getBlockHash_eq`), a chain repeats no hash
(`nodup_chainHashes`), and the segment where `findIndexInChain` finds a hash of
a chain gives, through `getBlockIndex`, the hash's height on the chain.  So the
sparse chain is the main chain read at the heights of a block locator, and the
supplement starts at the height of the first hash of the request that is on the
main chain. -/
set_option autoImplicit false

namespace CryptoNote

open Crypto ParentWalk BlockLocator

theorem getElem?_filterMap_range {β : Type} (f : Nat → Option β) :
    ∀ n, ((List.range n).filterMap f).length = n → ∀ k < n, ((List.range n).filterMap f)[k]? = f k
  | 0, _, k, inside => absurd inside (Nat.not_lt_zero k)
  | n + 1, full, k, inside => by
    rw [List.range_succ, List.filterMap_append] at full ⊢
    have shorter := List.length_filterMap_le f (List.range n)
    rw [List.length_range] at shorter
    cases last : f n with
    | none => simp [last] at full; omega
    | some b =>
      have single : List.filterMap f [n] = [b] := by simp [last]
      rw [single] at full ⊢
      rw [List.length_append, List.length_singleton] at full
      rcases Nat.lt_succ_iff_lt_or_eq.mp inside with below | rfl
      · rw [List.getElem?_append_left (by omega), getElem?_filterMap_range f n (by omega) k below]
      · rw [List.getElem?_append_right (by omega), Nat.sub_eq_zero_of_le (by omega), last]
        rfl

theorem getElem?_flatMap_unique {α β : Type} {f : α → List β} {l : List α} (nodup : (l.flatMap f).Nodup)
    {j j' p p' : Nat} {a a' : α} {b : β} (at_j : l[j]? = some a) (at_j' : l[j']? = some a')
    (at_p : (f a)[p]? = some b) (at_p' : (f a')[p']? = some b) : j = j' ∧ p = p' := by
  obtain ⟨each, apart⟩ := List.nodup_flatMap.mp nodup
  have sameCell : j = j' := by
    by_contra other
    obtain ⟨inside, rfl⟩ := List.getElem?_eq_some_iff.mp at_j
    obtain ⟨inside', rfl⟩ := List.getElem?_eq_some_iff.mp at_j'
    -- two different cells of the list share no value
    rcases Nat.lt_or_gt_of_ne other with lower | higher
    · exact List.pairwise_iff_getElem.mp apart j j' inside inside' lower
        (List.mem_of_getElem? at_p) (List.mem_of_getElem? at_p')
    · exact List.pairwise_iff_getElem.mp apart j' j inside' inside higher
        (List.mem_of_getElem? at_p') (List.mem_of_getElem? at_p)
  subst sameCell
  rw [at_j, Option.some.injEq] at at_j'
  subst at_j'
  exact ⟨rfl, (List.getElem?_inj (List.getElem?_eq_some_iff.mp at_p).1
    (each a (List.mem_of_getElem? at_j))).mp (at_p.trans at_p'.symm)⟩

theorem findSome?_ite {α β : Type} (p : α → Prop) [DecidablePred p] (f : α → β) (l : List α) :
    l.findSome? (fun a => if p a then some (f a) else none) = (l.find? fun a => decide (p a)).map f := by
  induction l with
  | nil => rfl
  | cons a l ih => by_cases pa : p a <;> simp [pa, ih]

namespace Segment

variable (segment : Segment)

/-- The loop of `getBlockHashes` over `[start, start + blocksLeft)`, reading each
block with `at`. -/
def hashesFrom (start blocksLeft : Nat) : Option (List Hash) :=
  (List.range' start blocksLeft).mapM fun i => segment.blocks[i]?.map (·.block.blockHash)

theorem hashesFrom_eq {start blocksLeft : Nat} (inside : start + blocksLeft ≤ segment.blocks.length) :
    segment.hashesFrom start blocksLeft =
      some (((segment.blocks.drop start).take blocksLeft).map (·.block.blockHash)) := by
  induction blocksLeft generalizing start with
  | zero => simp [hashesFrom]
  | succ blocksLeft ih =>
    have first : start < segment.blocks.length := by omega
    rw [hashesFrom, List.range'_succ, List.mapM_cons, ← hashesFrom, ih (by omega),
      List.getElem?_eq_getElem first, List.drop_eq_getElem_cons first]
    rfl

end Segment

namespace Core

variable (core : Core)

/-- `getTopBlockHash()` of `chainsLeaves[0]`: the hash of the main chain's top block. -/
def getTopBlockHash : Option Hash := do
  let main ← core.chainsLeaves.head?
  let segment ← core.chainsStorage[main]?
  let top ← segment.blocks.getLast?
  pure top.block.blockHash

/-- `getTopBlockIndex()`: the height of the main chain's top block. -/
def getTopBlockIndex : Option Nat := do
  let main ← core.chainsLeaves.head?
  let segment ← core.chainsStorage[main]?
  pure segment.getTopBlockIndex

/-- `getBlockHashByIndex(blockIndex)`: the hash at `blockIndex` on the main chain,
`NULL_HASH` above its top. -/
def getBlockHashByIndex (blockIndex : Nat) : Option Hash := do
  let main ← core.chainsLeaves.head?
  let topBlockIndex ← core.getTopBlockIndex
  if blockIndex > topBlockIndex then pure nullHash
  else core.getBlockHash main blockIndex

/-- The loop of `doBuildSparseChain`: the hashes at `blockIndex - i` on the chain
of the segment `id` for `i = 1, 2, 4, …` below `blockIndex`.  The counter is a
`uint32_t`: past `2 ^ 31` it wraps to `0`, where the loop goes on for ever, so
`none` after its 32 doublings is the loop that does not end. -/
def sparseChainFrom (id blockIndex : Nat) : Nat → Nat → Option (List Hash)
  | 0, _ => none
  | rounds + 1, i =>
    if i < blockIndex then do
      let blockHash ← core.getBlockHash id (blockIndex - i)
      let rest ← sparseChainFrom id blockIndex rounds (i * 2)
      pure (blockHash :: rest)
    else pure []

def doBuildSparseChain (blockHash : Hash) : Option (List Hash) := do
  let chain ← core.findSegmentContainingBlock blockHash
  let segment ← core.chainsStorage[chain]?
  let blockIndex := segment.getBlockIndex blockHash
  let below ← core.sparseChainFrom chain blockIndex 32 1
  let sparseChain := blockHash :: below
  let genesisBlockHash ← core.getBlockHash chain 0
  pure (if blockHash ≠ genesisBlockHash then sparseChain ++ [genesisBlockHash] else sparseChain)

/-- `buildSparseChain()`: the sparse chain from the main chain's top block. -/
def buildSparseChain : Option (List Hash) := do
  let topBlockHash ← core.getTopBlockHash
  core.doBuildSparseChain topBlockHash

def findMainChainSegmentContainingBlock (blockHash : Hash) : Option Nat := do
  let main ← core.chainsLeaves.head?
  core.findIndexInChain main blockHash

/-- `findBlockchainSupplement(remoteBlockIds)`: `0` for no ids, else the height
of the first id on the main chain; `none` is the exception when no id is there. -/
def findBlockchainSupplement (remoteBlockIds : List Hash) : Option Nat :=
  if remoteBlockIds = [] then some 0
  else remoteBlockIds.findSome? fun blockHash => do
    let segment ← core.findMainChainSegmentContainingBlock blockHash
    let cache ← core.chainsStorage[segment]?
    pure (cache.getBlockIndex blockHash)

/-- `getBlockHashes(startBlockIndex, maxCount)` of the segment `id`, walking at
most `fuel` segments: below its start the parent's hashes first, then its own.  A
start above the top makes `blockInfos.size() - start` wrap, and the loop then
reads past the end. -/
def getBlockHashesFrom (startBlockIndex maxCount : Nat) : Nat → Nat → Option (List Hash)
  | 0, _ => none
  | fuel + 1, id => do
    let segment ← core.chainsStorage[id]?
    if startBlockIndex < segment.startIndex then
      let parent ← segment.parent
      let hashes ← getBlockHashesFrom startBlockIndex maxCount fuel parent
      let blocksLeft := min (maxCount - hashes.length) segment.blocks.length
      let own ← segment.hashesFrom 0 blocksLeft
      pure (hashes ++ own)
    else
      let start := startBlockIndex - segment.startIndex
      let blocksLeft := min (BlockchainCache.sizeSub segment.blocks.length start) maxCount
      segment.hashesFrom start blocksLeft

/-- `Core::getBlockHashes(startBlockIndex, maxCount)`, read from `chainsLeaves[0]`. -/
def getBlockHashes (startBlockIndex maxCount : Nat) : Option (List Hash) := do
  let main ← core.chainsLeaves.head?
  core.getBlockHashesFrom startBlockIndex maxCount core.chainsStorage.length main

/-- `findBlockchainSupplement(remoteBlockIds, maxCount, totalBlockCount,
startBlockIndex)`: the hashes from the supplement's start, with the main chain's
block count and the start. -/
def findBlockchainSupplementUpTo (remoteBlockIds : List Hash) (maxCount : Nat) :
    Option (List Hash × Nat × Nat) := do
  let topBlockIndex ← core.getTopBlockIndex
  let totalBlockCount := topBlockIndex + 1
  let startBlockIndex ← core.findBlockchainSupplement remoteBlockIds
  let hashes ← core.getBlockHashes startBlockIndex maxCount
  pure (hashes, totalBlockCount, startBlockIndex)

def mainChainHashes : List Hash := core.mainChainBlocks.map (·.block.blockHash)

variable {core}

theorem blockAt_some {id blockIndex : Nat} {stored : SegmentBlock} (read : core.blockAt id blockIndex = some stored) :
    ∃ j segment, j ∈ core.chain id ∧ core.chainsStorage[j]? = some segment ∧ segment.startIndex ≤ blockIndex ∧
      segment.blocks[blockIndex - segment.startIndex]? = some stored := by
  simp only [blockAt, Option.bind_eq_bind, Option.bind_eq_some_iff] at read
  obtain ⟨j, found, segment, at_j, read⟩ := read
  have started := List.find?_some found
  exact ⟨j, segment, List.mem_of_find?_eq_some found, at_j, by simpa [at_j] using started, read⟩

theorem length_chainFrom_le : ∀ fuel id, (core.chainFrom fuel id).length ≤ fuel
  | 0, _ => le_rfl
  | fuel + 1, id => by
    rw [chainFrom, List.length_cons, Nat.add_le_add_iff_right]
    split
    · exact length_chainFrom_le fuel _
    · exact Nat.zero_le fuel

theorem RootedAt.startIndex_eq_zero {genesis : TreeBlock} (rooted : core.RootedAt genesis) {id : Nat}
    {segment : Segment} (found : core.chainsStorage[id]? = some segment) (root : segment.parent = none) :
    segment.startIndex = 0 := by
  have isRoot := rooted.parented id segment found root
  subst isRoot
  obtain ⟨root, rootAt, -, rootStart, -⟩ := rooted.root
  rw [found, Option.some.injEq] at rootAt
  rw [rootAt, rootStart]

theorem chain_of_root {id : Nat} {segment : Segment} (found : core.chainsStorage[id]? = some segment)
    (root : segment.parent = none) : core.chain id = [id] := by
  have inside := (List.getElem?_eq_some_iff.mp found).1
  obtain ⟨n, count⟩ : ∃ n, core.chainsStorage.length = n + 1 := ⟨_, (Nat.succ_pred_eq_of_pos (by omega)).symm⟩
  simp [chain, count, chainFrom, found, root]

namespace TreeInvariant

variable (inv : core.TreeInvariant)
include inv

theorem chainBlocks_prefix :
    ∀ (start id : Nat) (segment : Segment), core.chainsStorage[id]? = some segment → segment.startIndex = start →
      ∀ j ∈ core.chain id, core.chainBlocks j <+: core.chainBlocks id := by
  intro start
  -- by induction on the start: a parent starts below its child
  induction start using Nat.strong_induction_on with
  | _ start ih =>
    intro id segment found started j onChain
    cases linked : segment.parent with
    | none =>
      rw [chain_of_root found linked, List.mem_singleton] at onChain
      subst onChain
      exact List.prefix_refl _
    | some p =>
      obtain ⟨parent, parentAt, -, attached⟩ := (inv.segments id segment found).parent_linked p linked
      rw [inv.chain_of_parent found linked, List.mem_cons] at onChain
      rcases onChain with rfl | below
      · exact List.prefix_refl _
      · have lower := started ▸ attached.startIndex_lt (inv.segments p parent parentAt).filled
        rw [inv.chainBlocks_of_parent found linked parentAt]
        exact (ih parent.startIndex lower p parent parentAt rfl j below).trans (List.prefix_append _ _)

variable {genesis : TreeBlock} (rooted : core.RootedAt genesis)
include rooted

theorem length_chainBlocks {id : Nat} {segment : Segment} (found : core.chainsStorage[id]? = some segment) :
    (core.chainBlocks id).length = segment.startIndex + segment.blocks.length :=
  (inv.chainBlocks_fromGenesis rooted _ id segment found rfl).2.2.1

theorem getElem?_chainBlocks {id blockIndex : Nat} {segment : Segment} (found : core.chainsStorage[id]? = some segment)
    (inside : blockIndex < segment.startIndex + segment.blocks.length) :
    (core.chainBlocks id)[blockIndex]? = core.blockAt id blockIndex := by
  have full := inv.length_chainBlocks rooted found
  simp only [chainBlocks, found] at full ⊢
  exact getElem?_filterMap_range _ _ full blockIndex inside

theorem getBlockHash_eq {id : Nat} {segment : Segment} (found : core.chainsStorage[id]? = some segment)
    (blockIndex : Nat) : core.getBlockHash id blockIndex = ((core.chainBlocks id).map (·.block.blockHash))[blockIndex]? := by
  rw [getBlockHash, List.getElem?_map]
  by_cases inside : blockIndex < segment.startIndex + segment.blocks.length
  · rw [inv.getElem?_chainBlocks rooted found inside]
  · -- above the top neither reads a block
    have length := inv.length_chainBlocks rooted found
    rw [core.blockAt_self found (by omega), List.getElem?_eq_none (by omega), List.getElem?_eq_none (by omega)]

theorem getElem?_chainBlocks_self {id : Nat} {segment : Segment} (found : core.chainsStorage[id]? = some segment)
    {position : Nat} (inside : position < segment.blocks.length) :
    (core.chainBlocks id)[segment.startIndex + position]? = segment.blocks[position]? := by
  rw [inv.getElem?_chainBlocks rooted found (by omega), core.blockAt_self found (by omega), Nat.add_sub_cancel_left]

theorem drop_chainBlocks {id : Nat} {segment : Segment} (found : core.chainsStorage[id]? = some segment) :
    (core.chainBlocks id).drop segment.startIndex = segment.blocks := by
  apply List.ext_getElem?
  intro position
  rw [List.getElem?_drop]
  by_cases inside : position < segment.blocks.length
  · exact inv.getElem?_chainBlocks_self rooted found inside
  · rw [List.getElem?_eq_none (by rw [inv.length_chainBlocks rooted found]; omega), List.getElem?_eq_none (by omega)]

theorem nodup_chainHashes {id : Nat} {segment : Segment} (found : core.chainsStorage[id]? = some segment) :
    ((core.chainBlocks id).map (·.block.blockHash)).Nodup := by
  rw [List.nodup_iff_getElem?_ne_getElem?]
  intro i j lower inside same
  have length := inv.length_chainBlocks rooted found
  rw [List.length_map, length] at inside
  obtain ⟨stored, readJ⟩ := Option.isSome_iff_exists.mp
    ((core.blockAt id j).isSome_iff_exists.mpr ⟨_, (inv.getElem?_chainBlocks rooted found inside).symm.trans
      (List.getElem?_eq_getElem (by omega))⟩)
  rw [List.getElem?_map, List.getElem?_map, inv.getElem?_chainBlocks rooted found (by omega),
    inv.getElem?_chainBlocks rooted found inside, readJ] at same
  obtain ⟨stored', readI, named⟩ := Option.map_eq_some_iff.mp same
  obtain ⟨k, cell, -, atK, startK, inCell⟩ := blockAt_some readI
  obtain ⟨k', cell', -, atK', startK', inCell'⟩ := blockAt_some readJ
  have unique := inv.unique
  rw [storedHashes, List.map_flatMap] at unique
  obtain ⟨rfl, place⟩ := getElem?_flatMap_unique unique atK atK'
    (by rw [List.getElem?_map, inCell, Option.map_some, named]) (by rw [List.getElem?_map, inCell', Option.map_some])
  rw [atK, Option.some.injEq] at atK'
  subst atK'
  omega

end TreeInvariant

theorem mainChainHashes_of {main : Nat} (isMain : core.chainsLeaves.head? = some main) :
    core.mainChainHashes = (core.chainBlocks main).map (·.block.blockHash) := by
  simp [mainChainHashes, mainChainBlocks, isMain]

/-! ## The sparse chain -/

theorem sparseChainFrom_eq (id blockIndex : Nat) : ∀ rounds i, blockIndex ≤ i * 2 ^ rounds →
    core.sparseChainFrom id blockIndex (rounds + 1) i =
      (doublingsBelow blockIndex (rounds + 1) i).mapM fun d => core.getBlockHash id (blockIndex - d)
  | 0, i, enough => by
    have stop : ¬i < blockIndex := by omega
    simp [sparseChainFrom, doublingsBelow, stop]
  | rounds + 1, i, enough => by
    by_cases inside : i < blockIndex
    · rw [sparseChainFrom, if_pos inside, doublingsBelow, if_pos inside, List.mapM_cons,
        sparseChainFrom_eq id blockIndex rounds (i * 2)
          (by rwa [Nat.pow_succ, Nat.mul_comm (2 ^ rounds), ← Nat.mul_assoc] at enough)]
    · simp [sparseChainFrom, doublingsBelow, inside]

theorem sparseChainFrom_none (id blockIndex : Nat) : ∀ rounds i, i * 2 ^ rounds < blockIndex * 2 →
    core.sparseChainFrom id blockIndex rounds i = none
  | 0, _, _ => rfl
  | rounds + 1, i, short => by
    have grows : i * 2 ≤ i * 2 ^ (rounds + 1) :=
      Nat.mul_le_mul_left i (by rw [Nat.pow_succ]; have := Nat.one_le_two_pow (n := rounds); omega)
    have inside : i < blockIndex := by omega
    have rest := sparseChainFrom_none id blockIndex rounds (i * 2)
      (by rwa [Nat.pow_succ, Nat.mul_comm (2 ^ rounds), ← Nat.mul_assoc] at short)
    simp only [sparseChainFrom, if_pos inside, rest]
    cases core.getBlockHash id (blockIndex - i) <;> rfl

namespace TreeInvariant

variable (inv : core.TreeInvariant) {genesis : TreeBlock} (rooted : core.RootedAt genesis)
include inv rooted

theorem findIndexInChain_getBlockIndex {id j : Nat} {segment : Segment} (found : core.chainsStorage[id]? = some segment)
    {blockHash : Hash} (hit : core.findIndexInChain id blockHash = some j) :
    ∃ cache, core.chainsStorage[j]? = some cache ∧
      ((core.chainBlocks id).map (·.block.blockHash))[cache.getBlockIndex blockHash]? = some blockHash := by
  obtain ⟨cache, at_j, has⟩ := findIndexInChain_some hit
  have prefixed := inv.chainBlocks_prefix _ id segment found rfl j (List.mem_of_find?_eq_some hit)
  obtain ⟨stored, inCache, named⟩ := List.any_eq_true.mp has
  have inside := List.findIdx_lt_length_of_exists (p := fun stored => stored.block.blockHash == blockHash)
    ⟨stored, inCache, named⟩
  have own := inv.getElem?_chainBlocks_self rooted at_j inside
  rw [List.getElem?_eq_getElem inside] at own
  obtain ⟨bound, atIdx⟩ := List.getElem?_eq_some_iff.mp own
  refine ⟨cache, at_j, ?_⟩
  rw [Segment.getBlockIndex, List.getElem?_map, List.prefix_iff_getElem?.mp prefixed _ bound, atIdx]
  simpa using List.findIdx_getElem (w := inside)

theorem findIndexInChain_isSome {id : Nat} {segment : Segment} (found : core.chainsStorage[id]? = some segment)
    {blockHash : Hash} (onChain : blockHash ∈ (core.chainBlocks id).map (·.block.blockHash)) :
    (core.findIndexInChain id blockHash).isSome := by
  obtain ⟨h, atH⟩ := List.mem_iff_getElem?.mp onChain
  rw [List.getElem?_map] at atH
  obtain ⟨stored, readH, named⟩ := Option.map_eq_some_iff.mp atH
  have inside : h < segment.startIndex + segment.blocks.length := by
    rw [← inv.length_chainBlocks rooted found]
    exact (List.getElem?_eq_some_iff.mp readH).1
  rw [inv.getElem?_chainBlocks rooted found inside] at readH
  obtain ⟨j, cache, onChainJ, at_j, -, inCache⟩ := blockAt_some readH
  refine List.find?_isSome.mpr ⟨j, onChainJ, ?_⟩
  simpa [at_j, Segment.hasBlock] using ⟨stored, List.mem_of_getElem? inCache, named⟩

theorem findBlockchainSupplement_eq {remoteBlockIds : List Hash} (nonempty : remoteBlockIds ≠ []) :
    core.findBlockchainSupplement remoteBlockIds =
      (remoteBlockIds.find? (· ∈ core.mainChainHashes)).map core.mainChainHashes.idxOf := by
  obtain ⟨main, segment, -, isMain, found, -⟩ := inv.exists_mainLast
  have hashes := mainChainHashes_of isMain
  have nodup := inv.nodup_chainHashes rooted found
  rw [← hashes] at nodup
  have lookup : ∀ blockHash, (do
      let segment ← core.findMainChainSegmentContainingBlock blockHash
      let cache ← core.chainsStorage[segment]?
      pure (cache.getBlockIndex blockHash)) =
        if blockHash ∈ core.mainChainHashes then some (core.mainChainHashes.idxOf blockHash) else none := by
    intro blockHash
    by_cases onMain : blockHash ∈ core.mainChainHashes
    · obtain ⟨j, hit⟩ := Option.isSome_iff_exists.mp (inv.findIndexInChain_isSome rooted found (hashes ▸ onMain))
      obtain ⟨cache, at_j, atIndex⟩ := inv.findIndexInChain_getBlockIndex rooted found hit
      rw [← hashes] at atIndex
      -- the main chain repeats no hash, so the height found is the hash's first one
      have index : cache.getBlockIndex blockHash = core.mainChainHashes.idxOf blockHash :=
        (List.getElem?_inj (List.getElem?_eq_some_iff.mp atIndex).1 nodup).mp
          (atIndex.trans (List.getElem?_idxOf onMain).symm)
      simp [findMainChainSegmentContainingBlock, isMain, hit, at_j, index, onMain]
    · cases hit : core.findIndexInChain main blockHash with
      | none => simp [findMainChainSegmentContainingBlock, isMain, hit, onMain]
      | some j =>
        obtain ⟨cache, -, atIndex⟩ := inv.findIndexInChain_getBlockIndex rooted found hit
        exact absurd (hashes ▸ List.mem_of_getElem? atIndex) onMain
  rw [findBlockchainSupplement, if_neg nonempty, funext lookup, findSome?_ite]

theorem buildSparseChain_eq {top : Nat} (atTop : core.mainChainHashes.length = top + 1) :
    core.buildSparseChain = if top ≤ 2 ^ 31 then (locatorHeights top 32).mapM (core.mainChainHashes[·]?) else none := by
  obtain ⟨main, segment, last, isMain, found, lastAt⟩ := inv.exists_mainLast
  have hashes := mainChainHashes_of isMain
  have nodup := inv.nodup_chainHashes rooted found
  rw [← hashes] at nodup
  have reads : core.getBlockHash main = (core.mainChainHashes[·]?) :=
    funext fun blockIndex => by rw [inv.getBlockHash_eq rooted found, hashes]
  obtain ⟨first, -, -, lastChain⟩ := inv.chainBlocks_fromGenesis rooted _ main segment found rfl
  have length : (core.chainBlocks main).length = top + 1 := by rw [← atTop, hashes, List.length_map]
  have readTop : core.mainChainHashes[top]? = some last.block.blockHash := by
    rw [hashes, List.getElem?_map, show top = (core.chainBlocks main).length - 1 by omega,
      ← List.getLast?_eq_getElem?, lastChain, lastAt]
    rfl
  have readGenesis : core.mainChainHashes[0]? = some genesis.blockHash := by
    rw [hashes, List.getElem?_map, ← List.head?_eq_getElem?, first]
    rfl
  -- the top block is found on the main leaf, at the top height
  have onMain : core.findIndexInChain main last.block.blockHash = some main := by
    obtain ⟨rest, cons⟩ := core.chain_cons (List.getElem?_eq_some_iff.mp found).1
    have has : segment.hasBlock last.block.blockHash = true :=
      List.any_eq_true.mpr ⟨last, List.mem_of_getLast? lastAt, beq_self_eq_true _⟩
    simp [findIndexInChain, cons, found, has]
  have located : core.findSegmentContainingBlock last.block.blockHash = some main := by
    obtain ⟨alternatives, listed⟩ := List.head?_eq_some_iff.mp isMain
    simp [findSegmentContainingBlock, listed, onMain]
  have index : segment.getBlockIndex last.block.blockHash = top := by
    obtain ⟨cache, at_main, atIndex⟩ := inv.findIndexInChain_getBlockIndex rooted found onMain
    rw [found, Option.some.injEq] at at_main
    subst at_main
    rw [← hashes] at atIndex
    exact (List.getElem?_inj (List.getElem?_eq_some_iff.mp atIndex).1 nodup).mp (atIndex.trans readTop.symm)
  have topHash : core.getTopBlockHash = some last.block.blockHash := by simp [getTopBlockHash, isMain, found, lastAt]
  simp only [buildSparseChain, doBuildSparseChain, topHash, located, found, index, reads, readGenesis,
    Option.bind_eq_bind, Option.bind_some]
  by_cases low : top ≤ 2 ^ 31
  · rw [if_pos low, sparseChainFrom_eq main top 31 1 (by simpa using low), reads]
    -- the genesis hash is added under any top but the genesis block
    have sameTop : last.block.blockHash = genesis.blockHash ↔ top = 0 := by
      constructor
      · intro same
        exact (List.getElem?_inj (List.getElem?_eq_some_iff.mp readTop).1 nodup).mp
          (readTop.trans (same ▸ readGenesis.symm))
      · rintro rfl
        exact Option.some.inj (readTop.symm.trans readGenesis)
    simp only [locatorHeights, List.mapM_cons, List.mapM_append, List.mapM_map, Function.comp_def, readTop,
      Option.pure_def, Option.bind_eq_bind, Option.bind_some]
    cases loop : (doublingsBelow top 32 1).mapM fun d => core.mainChainHashes[top - d]? with
    | none => rfl
    | some below => by_cases zero : top = 0 <;> simp [zero, sameTop, readGenesis]
  · rw [if_neg low, sparseChainFrom_none main top 32 1 (by omega)]
    rfl

/-! ## The supplement -/

theorem getBlockHashesFrom_eq (startBlockIndex maxCount : Nat) :
    ∀ (start id : Nat) (segment : Segment), core.chainsStorage[id]? = some segment → segment.startIndex = start →
      startBlockIndex ≤ segment.startIndex + segment.blocks.length → ∀ fuel, (core.chain id).length ≤ fuel →
        core.getBlockHashesFrom startBlockIndex maxCount fuel id =
          some ((((core.chainBlocks id).map (·.block.blockHash)).drop startBlockIndex).take maxCount) := by
  intro start
  -- by induction on the start: a parent starts below its child
  induction start using Nat.strong_induction_on with
  | _ start ih =>
    intro id segment found started inside fuel enough
    obtain ⟨rest, cons⟩ := core.chain_cons (List.getElem?_eq_some_iff.mp found).1
    obtain ⟨fuel, rfl⟩ : ∃ fuel', fuel = fuel' + 1 := ⟨fuel - 1, by rw [cons, List.length_cons] at enough; omega⟩
    by_cases early : startBlockIndex < segment.startIndex
    · -- the parent reads the hashes below the segment, the segment the rest
      obtain ⟨p, linked⟩ : ∃ p, segment.parent = some p := by
        cases linked : segment.parent with
        | none => rw [rooted.startIndex_eq_zero found linked] at early; omega
        | some p => exact ⟨p, rfl⟩
      obtain ⟨parent, parentAt, -, attached⟩ := (inv.segments id segment found).parent_linked p linked
      have lower := started ▸ attached.startIndex_lt (inv.segments p parent parentAt).filled
      have chained := inv.chainBlocks_of_parent found linked parentAt
      have below := inv.length_chainBlocks rooted parentAt
      have whole := inv.length_chainBlocks rooted found
      rw [chained, List.length_append] at whole
      have read := ih parent.startIndex lower p parent parentAt rfl (by omega) fuel
        (by rw [inv.chain_of_parent found linked, List.length_cons] at enough; omega)
      have own : ∀ k, segment.hashesFrom 0 (min k segment.blocks.length) =
          some ((segment.blocks.take (min k segment.blocks.length)).map (·.block.blockHash)) :=
        fun k => by rw [Segment.hashesFrom_eq segment (by omega), List.drop_zero]
      simp only [getBlockHashesFrom, found, if_pos early, linked, read, own, Option.bind_eq_bind, Option.bind_some,
        Option.pure_def, chained, List.map_append]
      rw [List.drop_append_of_le_length (by rw [List.length_map]; omega), List.take_append, List.length_take,
        List.length_drop, List.length_map, List.map_take]
      congr 2
      apply List.take_eq_take_iff.mpr
      simp only [List.length_map]
      omega
    · -- the segment reads its own blocks
      have skip : startBlockIndex - segment.startIndex ≤ segment.blocks.length := by omega
      have drops : ((core.chainBlocks id).map (·.block.blockHash)).drop startBlockIndex =
          (segment.blocks.drop (startBlockIndex - segment.startIndex)).map (·.block.blockHash) := by
        rw [← List.map_drop, show startBlockIndex = segment.startIndex + (startBlockIndex - segment.startIndex) by omega,
          ← List.drop_drop, inv.drop_chainBlocks rooted found, Nat.add_sub_cancel_left]
      have own := @Segment.hashesFrom_eq segment (startBlockIndex - segment.startIndex)
        (min (segment.blocks.length - (startBlockIndex - segment.startIndex)) maxCount) (by omega)
      simp only [getBlockHashesFrom, found, if_neg early, BlockchainCache.sizeSub, if_pos skip,
        Option.bind_eq_bind, Option.bind_some, own, drops, ← List.map_take]
      congr 2
      apply List.take_eq_take_iff.mpr
      simp only [List.length_drop]
      omega

theorem getBlockHashes_eq {startBlockIndex : Nat} (maxCount : Nat)
    (inside : startBlockIndex ≤ core.mainChainHashes.length) :
    core.getBlockHashes startBlockIndex maxCount = some ((core.mainChainHashes.drop startBlockIndex).take maxCount) := by
  obtain ⟨main, segment, -, isMain, found, -⟩ := inv.exists_mainLast
  have hashes := mainChainHashes_of isMain
  rw [hashes, List.length_map, inv.length_chainBlocks rooted found] at inside
  simp only [getBlockHashes, isMain, Option.bind_eq_bind, Option.bind_some, hashes]
  exact inv.getBlockHashesFrom_eq rooted startBlockIndex maxCount _ main segment found rfl inside _
    (core.length_chainFrom_le _ main)

theorem getElem?_mainChainHashes_zero : core.mainChainHashes[0]? = some genesis.blockHash := by
  obtain ⟨main, segment, -, isMain, found, -⟩ := inv.exists_mainLast
  obtain ⟨first, -⟩ := inv.chainBlocks_fromGenesis rooted _ main segment found rfl
  rw [mainChainHashes_of isMain, List.getElem?_map, ← List.head?_eq_getElem?, first]
  rfl

theorem getTopBlockIndex_eq : core.getTopBlockIndex = some (core.mainChainHashes.length - 1) := by
  obtain ⟨main, segment, -, isMain, found, -⟩ := inv.exists_mainLast
  simp [getTopBlockIndex, isMain, found, mainChainHashes_of isMain, inv.length_chainBlocks rooted found,
    Segment.getTopBlockIndex]

theorem getBlockHashByIndex_zero : core.getBlockHashByIndex 0 = some genesis.blockHash := by
  obtain ⟨main, segment, -, isMain, found, -⟩ := inv.exists_mainLast
  simp only [getBlockHashByIndex, isMain, inv.getTopBlockIndex_eq rooted, Option.bind_eq_bind, Option.bind_some,
    gt_iff_lt, Nat.not_lt_zero, if_false, inv.getBlockHash_eq rooted found, ← mainChainHashes_of isMain]
  exact inv.getElem?_mainChainHashes_zero rooted

/-! ## The main chain -/

theorem linked_mainChainBlocks :
    Linked (·.block.blockHash) (·.block.previousBlockHash) core.mainChainBlocks ∧
      core.mainChainBlocks.head? = some { block := genesis, cumulativeDifficulty := genesis.difficulty } := by
  obtain ⟨main, segment, -, isMain, found, -⟩ := inv.exists_mainLast
  obtain ⟨first, chained, -⟩ := inv.chainBlocks_fromGenesis rooted _ main segment found rfl
  simp only [mainChainBlocks, isMain]
  exact ⟨chained.imp fun _ _ follows => follows.1, first⟩

theorem nodup_mainChainHashes : core.mainChainHashes.Nodup := by
  obtain ⟨main, segment, -, isMain, found, -⟩ := inv.exists_mainLast
  rw [mainChainHashes_of isMain]
  exact inv.nodup_chainHashes rooted found

theorem hasBlock_of_mainChainHashes {blockHash : Hash} (onMain : blockHash ∈ core.mainChainHashes) :
    core.hasBlock blockHash = true := by
  obtain ⟨main, segment, -, isMain, found, -⟩ := inv.exists_mainLast
  rw [mainChainHashes_of isMain] at onMain
  obtain ⟨stored, inChain, rfl⟩ := List.mem_map.mp onMain
  obtain ⟨h, atH⟩ := List.mem_iff_getElem?.mp inChain
  have inside : h < segment.startIndex + segment.blocks.length := by
    rw [← inv.length_chainBlocks rooted found]
    exact (List.getElem?_eq_some_iff.mp atH).1
  rw [inv.getElem?_chainBlocks rooted found inside] at atH
  obtain ⟨j, cache, -, at_j, -, inCache⟩ := blockAt_some atH
  exact inv.hasBlock_of_stored at_j (List.any_eq_true.mpr ⟨stored, List.mem_of_getElem? inCache, beq_self_eq_true _⟩)

end TreeInvariant

end Core

/-- From an in-memory root, `buildSparseChain` reads the main chain at the
heights of a block locator from its top: the top, the heights `1, 2, 4, …` below
it and the genesis block, the logarithm of the top, rounded up, and two ids in
all, the last the genesis hash.  Above the height `2 ^ 31` its `uint32_t`
counter wraps and it does not end. -/
theorem memoryRoot_buildSparseChain {genesis : TreeBlock} {core : Core} (reached : Core.Reachable .memory genesis core)
    {top : Nat} (atTop : core.mainChainHashes.length = top + 1) :
    (top ≤ 2 ^ 31 → ∃ sparse, core.buildSparseChain = some sparse ∧
        (locatorHeights top 32).mapM (core.mainChainHashes[·]?) = some sparse ∧
        sparse.length = Nat.clog 2 top + (if top = 0 then 1 else 2) ∧ sparse.getLast? = some genesis.blockHash) ∧
      (2 ^ 31 < top → core.buildSparseChain = none) := by
  have inv := reached.treeInvariant
  have rooted := reached.rootedAt
  have built := inv.buildSparseChain_eq rooted atTop
  refine ⟨fun low => ?_, fun high => by rw [built, if_neg (by omega)]⟩
  rw [if_pos low] at built
  have sparse := mapM_getElem?_locatorHeights core.mainChainHashes nullHash atTop 32
  refine ⟨_, built.trans sparse, sparse, ?_, ?_⟩
  · rw [List.length_map, length_locatorHeights (by omega)]
  · rw [List.getLast?_map, getLast?_locatorHeights, Option.map_some, List.getD_eq_getElem?_getD,
      inv.getElem?_mainChainHashes_zero rooted, Option.getD_some]

theorem memoryRoot_splitMainChain_sparseChain :
    ∃ core, Core.Reachable .memory forkGenesis core ∧ core.mainChainHashes.length = 4 + 1 ∧
      (4 ≤ 2 ^ 31 → ∃ sparse, core.buildSparseChain = some sparse ∧
        (locatorHeights 4 32).mapM (core.mainChainHashes[·]?) = some sparse ∧
        sparse.length = Nat.clog 2 4 + (if 4 = 0 then 1 else 2) ∧ sparse.getLast? = some forkGenesis.blockHash) ∧
      (2 ^ 31 < 4 → core.buildSparseChain = none) :=
  have reached := @Core.Reachable.addBlocks .memory forkGenesis splitMainChain _ _ .init rfl
  ⟨_, reached, rfl, memoryRoot_buildSparseChain reached rfl⟩

/-- After `splitMainChain` the main chain runs through blocks 1 to 5: the sparse
chain names heights 4, 3, 2 and 0. -/
example : ((Core.initRootSegment .memory forkGenesis).addBlocks splitMainChain).bind Core.buildSparseChain =
    some [Hash.ofByte 5, Hash.ofByte 4, Hash.ofByte 3, Hash.ofByte 1] := by
  decide

/-- From an in-memory root, `findBlockchainSupplement` of the ids a peer sends
gives the height on the main chain of the first of them that is there, and throws
only when none is: never for ids that end with the genesis hash. -/
theorem memoryRoot_findBlockchainSupplement {genesis : TreeBlock} {core : Core}
    (reached : Core.Reachable .memory genesis core) {remoteBlockIds : List Hash} (nonempty : remoteBlockIds ≠ []) :
    core.findBlockchainSupplement remoteBlockIds =
        (remoteBlockIds.find? (· ∈ core.mainChainHashes)).map core.mainChainHashes.idxOf ∧
      (remoteBlockIds.getLast? = some genesis.blockHash → (core.findBlockchainSupplement remoteBlockIds).isSome) := by
  have inv := reached.treeInvariant
  have rooted := reached.rootedAt
  have supplement := inv.findBlockchainSupplement_eq rooted nonempty
  refine ⟨supplement, fun endsWithGenesis => ?_⟩
  have onMain : genesis.blockHash ∈ core.mainChainHashes :=
    List.mem_of_getElem? (inv.getElem?_mainChainHashes_zero rooted)
  rw [supplement, Option.isSome_map]
  exact List.find?_isSome.mpr ⟨genesis.blockHash, List.mem_of_getLast? endsWithGenesis, by simpa using onMain⟩

theorem memoryRoot_splitMainChain_supplement :
    ∃ core, Core.Reachable .memory forkGenesis core ∧ [Hash.ofByte 14, Hash.ofByte 2, Hash.ofByte 1] ≠ [] ∧
      core.findBlockchainSupplement [Hash.ofByte 14, Hash.ofByte 2, Hash.ofByte 1] =
        ([Hash.ofByte 14, Hash.ofByte 2, Hash.ofByte 1].find? (· ∈ core.mainChainHashes)).map
          core.mainChainHashes.idxOf ∧
      ([Hash.ofByte 14, Hash.ofByte 2, Hash.ofByte 1].getLast? = some forkGenesis.blockHash →
        (core.findBlockchainSupplement [Hash.ofByte 14, Hash.ofByte 2, Hash.ofByte 1]).isSome) :=
  have reached := @Core.Reachable.addBlocks .memory forkGenesis splitMainChain _ _ .init rfl
  ⟨_, reached, by simp, memoryRoot_findBlockchainSupplement reached (by simp)⟩

end CryptoNote
