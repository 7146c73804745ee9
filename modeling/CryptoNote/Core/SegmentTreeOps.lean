import CryptoNote.Core.SegmentTree

/-! # What the operations of the segment tree do

One lemma for each operation of `Core` on the tree, stating its result from the
storage it starts from, so that the proofs about whole runs never unfold an
operation again: `pushBlock` on a segment with blocks, `addSegment` on an
in-memory segment, `BlockchainCache::split` with the children it re-points, and
the split path of `addBlock`.  A block at or above the start of a segment is read
from the segment itself, whatever its ancestors are (`blockAt_self`), which is
all that `pushBlock` and `getCurrentCumulativeDifficulty` read of the chain.  The
stored hashes change under each operation only by the blocks it adds. -/
set_option autoImplicit false

namespace CryptoNote

open Crypto

/-! ## Re-pointing children -/

theorem getElem?_fixChildrenParent (storage : List Segment) (children : List Nat) (p j : Nat) :
    (fixChildrenParent storage children p)[j]? =
      storage[j]?.map fun segment => if j ∈ children then { segment with parent := some p } else segment := by
  induction children generalizing storage with
  | nil => simp [fixChildrenParent]
  | cons child children ih =>
    simp only [fixChildrenParent, List.foldl_cons] at ih ⊢
    rw [ih, List.getElem?_modify]
    cases storage[j]? with
    | none => rfl
    | some segment =>
      by_cases same : child = j
      · subst same
        simp
      · simp [same, Ne.symm same]

theorem length_fixChildrenParent (storage : List Segment) (children : List Nat) (p : Nat) :
    (fixChildrenParent storage children p).length = storage.length := by
  induction children generalizing storage with
  | nil => rfl
  | cons child children ih =>
    simp only [fixChildrenParent, List.foldl_cons] at ih ⊢
    rw [ih, List.length_modify]

theorem map_blocks_fixChildrenParent (storage : List Segment) (children : List Nat) (p : Nat) :
    (fixChildrenParent storage children p).map (·.blocks) = storage.map (·.blocks) := by
  apply List.ext_getElem?
  intro j
  rw [List.getElem?_map, List.getElem?_map, getElem?_fixChildrenParent]
  cases storage[j]? with
  | none => rfl
  | some segment => by_cases listed : j ∈ children <;> simp [listed]

/-! ## The operations -/

/-- `block` stored on top of `below`, with the cumulative difficulty `pushBlock` gives it. -/
def SegmentBlock.stack (below : SegmentBlock) (block : TreeBlock) : SegmentBlock where
  block := block
  cumulativeDifficulty := below.cumulativeDifficulty + block.difficulty

namespace Core

variable (core : Core)

/-! What the paths of `addBlock` make of the tree: a block on top of a segment, a
new segment on top of a segment, and a segment split in two. -/

def pushedOnto (id : Nat) (segment : Segment) (stored : SegmentBlock) : Core :=
  { core with chainsStorage := core.chainsStorage.set id { segment with blocks := segment.blocks ++ [stored] } }

/-- A new segment on the top of the segment `id`, holding `stored`: it is stored
last, is a child of `id`, and is the last leaf. -/
def forkedAt (id : Nat) (segment : Segment) (stored : SegmentBlock) : Core where
  chainsStorage := core.chainsStorage.set id { segment with children := segment.children ++ [core.chainsStorage.length] } ++
    [{ kind := .memory, parent := some id, children := [], startIndex := segment.getTopBlockIndex + 1, blocks := [stored] }]
  chainsLeaves := core.chainsLeaves ++ [core.chainsStorage.length]

/-- The segment `id` split after its first `n` blocks: the upper part is stored
last with the segment's children, and takes the segment's place among the leaves
when it has none. -/
def splitAfter (id : Nat) (segment : Segment) (n : Nat) : Core where
  chainsStorage :=
    fixChildrenParent (core.chainsStorage.set id
        { segment with blocks := segment.blocks.take n, children := [core.chainsStorage.length] })
      segment.children core.chainsStorage.length ++
    [{ kind := .memory, parent := some id, children := segment.children, startIndex := segment.startIndex + n,
       blocks := segment.blocks.drop n }]
  chainsLeaves :=
    if segment.children = [] then core.chainsLeaves.set (core.chainsLeaves.idxOf id) core.chainsStorage.length
    else core.chainsLeaves

theorem chain_cons {id : Nat} (inside : id < core.chainsStorage.length) : ∃ rest, core.chain id = id :: rest := by
  obtain ⟨n, count⟩ : ∃ n, core.chainsStorage.length = n + 1 := ⟨_, (Nat.succ_pred_eq_of_pos (by omega)).symm⟩
  rw [chain, count, chainFrom]
  exact ⟨_, rfl⟩

theorem blockAt_self {id blockIndex : Nat} {segment : Segment} (found : core.chainsStorage[id]? = some segment)
    (above : segment.startIndex ≤ blockIndex) :
    core.blockAt id blockIndex = segment.blocks[blockIndex - segment.startIndex]? := by
  obtain ⟨rest, cons⟩ := core.chain_cons (List.getElem?_eq_some_iff.mp found).1
  simp [blockAt, cons, found, above]

theorem blockAt_top {id : Nat} {segment : Segment} (found : core.chainsStorage[id]? = some segment)
    (filled : segment.blocks ≠ []) :
    core.blockAt id segment.getTopBlockIndex = segment.blocks.getLast? := by
  have positive := List.length_pos_iff.mpr filled
  rw [core.blockAt_self found (by simp only [Segment.getTopBlockIndex]; omega), List.getLast?_eq_getElem?]
  congr 1
  simp only [Segment.getTopBlockIndex]
  omega

theorem getCurrentCumulativeDifficulty_of_filled {id : Nat} {segment : Segment}
    (found : core.chainsStorage[id]? = some segment) (filled : segment.blocks ≠ []) :
    core.getCurrentCumulativeDifficulty id = segment.blocks.getLast?.map (·.cumulativeDifficulty) := by
  have top := core.blockAt_top found filled
  simp only [Segment.getTopBlockIndex] at top
  simp [getCurrentCumulativeDifficulty, found, top]

theorem pushBlock_of_getLast {id : Nat} {segment : Segment} (found : core.chainsStorage[id]? = some segment)
    {last : SegmentBlock} (top : segment.blocks.getLast? = some last) (block : TreeBlock) :
    core.pushBlock id block = some (core.pushedOnto id segment (last.stack block)) := by
  simp [pushBlock, pushedOnto, SegmentBlock.stack, found, top]

theorem addSegment_eq {cacheId : Nat} {cache : Segment} (found : core.chainsStorage[cacheId]? = some cache)
    (memory : cache.kind = .memory) (fresh : core.chainsStorage.length ∉ cache.children)
    {last : SegmentBlock} (top : cache.blocks.getLast? = some last) (block : TreeBlock) :
    core.addSegment cacheId (cache.getTopBlockIndex + 1) block = some (core.forkedAt cacheId cache (last.stack block)) := by
  have inside := (List.getElem?_eq_some_iff.mp found).1
  have filled : cache.blocks ≠ [] := fun empty => by simp [empty] at top
  let added := { cache with children := cache.children ++ [core.chainsStorage.length] }
  let forked : Core :=
    { chainsStorage := core.chainsStorage.set cacheId added ++
        [{ kind := .memory, parent := some cacheId, children := [], startIndex := cache.getTopBlockIndex + 1, blocks := [] }]
      chainsLeaves := core.chainsLeaves ++ [core.chainsStorage.length] }
  have child : addChild core.chainsStorage cacheId core.chainsStorage.length = some (core.chainsStorage.set cacheId added) := by
    simp [addChild, found, memory, fresh, added]
  have addedAt : forked.chainsStorage[cacheId]? = some added := by
    simp [forked, List.getElem?_append_left, inside]
  -- the new segment has no block yet: the one below its start is the parent's top
  have parentTop : forked.blockAt cacheId cache.getTopBlockIndex = cache.blocks.getLast? :=
    @blockAt_top forked cacheId added addedAt filled
  simp only [addSegment, child, Option.bind_eq_bind, Option.bind_some]
  show forked.pushBlock core.chainsStorage.length block = _
  simp [pushBlock, parentTop, top, forked, forkedAt, SegmentBlock.stack, List.set_append_right, added]

theorem split_memory {storage : List Segment} {id splitBlockIndex upperId : Nat} {segment : Segment}
    (found : storage[id]? = some segment) (memory : segment.kind = .memory)
    (above : segment.startIndex < splitBlockIndex) (below : splitBlockIndex ≤ segment.getTopBlockIndex) :
    split storage id splitBlockIndex upperId = some
      (fixChildrenParent (storage.set id
          { segment with blocks := segment.blocks.take (splitBlockIndex - segment.startIndex), children := [upperId] })
          segment.children upperId,
       { kind := .memory, parent := some id, children := segment.children, startIndex := splitBlockIndex,
         blocks := segment.blocks.drop (splitBlockIndex - segment.startIndex) }) := by
  simp [split, found, memory, above, below]

theorem splitAndFork_eq {cacheId splitBlockIndex : Nat} {storage : List Segment} {upper lower : Segment}
    (splitted : split core.chainsStorage cacheId splitBlockIndex core.chainsStorage.length = some (storage, upper))
    (upperFilled : upper.blocks ≠ []) (lowerAt : storage[cacheId]? = some lower) (lowerFilled : lower.blocks ≠ [])
    {leaves : List Nat}
    (handedOver : (upper.children = [] ∧ ∃ k, core.chainsLeaves.idxOf? cacheId = some k ∧
        leaves = core.chainsLeaves.set k core.chainsStorage.length) ∨ (upper.children ≠ [] ∧ leaves = core.chainsLeaves))
    (block : TreeBlock) :
    core.splitAndFork cacheId splitBlockIndex block =
      ({ chainsStorage := storage ++ [upper], chainsLeaves := leaves } : Core).addSegment cacheId splitBlockIndex block := by
  have upperCount : 0 < upper.getBlockCount := List.length_pos_iff.mpr upperFilled
  have lowerCount : 0 < lower.getBlockCount := List.length_pos_iff.mpr lowerFilled
  rcases handedOver with ⟨childless, k, found, rfl⟩ | ⟨forked, rfl⟩
  · simp [splitAndFork, splitted, upperCount, lowerAt, lowerCount, Segment.getChildCount, childless, found]
  · simp [splitAndFork, splitted, upperCount, lowerAt, lowerCount, Segment.getChildCount, forked]

end Core

/-! ## Stored hashes -/

theorem flatMap_set_append_perm {α β : Type} [DecidableEq β] {l : List α} {i : Nat} (inside : i < l.length) (a : α)
    (f : α → List β) {g h : List β} (swapped : (f a ++ g).Perm (f l[i] ++ h)) :
    ((l.set i a).flatMap f ++ g).Perm (l.flatMap f ++ h) := by
  have whole : l = l.take i ++ l[i] :: l.drop (i + 1) := by
    rw [List.getElem_cons_drop, List.take_append_drop]
  have replaced : l.set i a = l.take i ++ a :: l.drop (i + 1) := by
    rw [List.set_eq_take_append_cons_drop, if_pos inside]
  rw [List.perm_iff_count]
  intro x
  have counted := List.perm_iff_count.mp swapped x
  rw [replaced]
  conv => rhs; rw [whole]
  simp only [List.flatMap_append, List.flatMap_cons, List.count_append] at counted ⊢
  omega

theorem flatMap_blocks_split {storage : List Segment} {id : Nat} {segment : Segment} (found : storage[id]? = some segment)
    (n upperId splitBlockIndex : Nat) :
    ((fixChildrenParent (storage.set id { segment with blocks := segment.blocks.take n, children := [upperId] })
        segment.children upperId ++
      [({ kind := .memory, parent := some id, children := segment.children, startIndex := splitBlockIndex,
          blocks := segment.blocks.drop n } : Segment)]).flatMap (·.blocks)).Perm (storage.flatMap (·.blocks)) := by
  obtain ⟨inside, rfl⟩ := List.getElem?_eq_some_iff.mp found
  have kept := flatMap_set_append_perm inside { storage[id] with blocks := storage[id].blocks.take n, children := [upperId] }
    (·.blocks) (show (storage[id].blocks.take n ++ storage[id].blocks.drop n).Perm (storage[id].blocks ++ []) by simp)
  rw [List.flatMap_append, List.flatMap_def, map_blocks_fixChildrenParent, ← List.flatMap_def]
  simpa using kept

namespace Core

variable (core : Core)

theorem storedHashes_pushedOnto {id : Nat} {segment : Segment} (found : core.chainsStorage[id]? = some segment)
    (stored : SegmentBlock) :
    (core.pushedOnto id segment stored).storedHashes.Perm (core.storedHashes ++ [stored.block.blockHash]) := by
  obtain ⟨inside, rfl⟩ := List.getElem?_eq_some_iff.mp found
  have moved := flatMap_set_append_perm inside { core.chainsStorage[id] with blocks := core.chainsStorage[id].blocks ++ [stored] }
    (·.blocks) (g := []) (h := [stored]) (by simp)
  simpa [storedHashes, pushedOnto] using moved.map (·.block.blockHash)

theorem storedHashes_forkedAt {id : Nat} {segment : Segment} (found : core.chainsStorage[id]? = some segment)
    (stored : SegmentBlock) :
    (core.forkedAt id segment stored).storedHashes.Perm (core.storedHashes ++ [stored.block.blockHash]) := by
  obtain ⟨inside, rfl⟩ := List.getElem?_eq_some_iff.mp found
  have moved := flatMap_set_append_perm inside
    { core.chainsStorage[id] with children := core.chainsStorage[id].children ++ [core.chainsStorage.length] }
    (·.blocks) (g := [stored]) (h := [stored]) (by simp)
  simpa [storedHashes, forkedAt] using moved.map (·.block.blockHash)

theorem getElem?_splitAfter_self {id : Nat} {segment : Segment} (found : core.chainsStorage[id]? = some segment)
    (notChild : id ∉ segment.children) (n : Nat) :
    (core.splitAfter id segment n).chainsStorage[id]? =
      some { segment with blocks := segment.blocks.take n, children := [core.chainsStorage.length] } := by
  have inside := (List.getElem?_eq_some_iff.mp found).1
  rw [splitAfter, List.getElem?_append_left (by rw [length_fixChildrenParent, List.length_set]; exact inside),
    getElem?_fixChildrenParent, List.getElem?_set_self inside]
  simp [notChild]

theorem getElem?_forkedAt_of_ne {id j : Nat} (segment : Segment) (stored : SegmentBlock)
    (below : j < core.chainsStorage.length) (other : j ≠ id) :
    (core.forkedAt id segment stored).chainsStorage[j]? = core.chainsStorage[j]? := by
  rw [forkedAt, List.getElem?_append_left (by rw [List.length_set]; exact below), List.getElem?_set_ne (Ne.symm other)]

theorem map_blocks_getElem?_splitAfter_of_ne {id j : Nat} (segment : Segment) (n : Nat)
    (below : j < core.chainsStorage.length) (other : j ≠ id) :
    (core.splitAfter id segment n).chainsStorage[j]?.map (·.blocks) = core.chainsStorage[j]?.map (·.blocks) := by
  rw [splitAfter, List.getElem?_append_left (by rw [length_fixChildrenParent, List.length_set]; exact below),
    getElem?_fixChildrenParent, List.getElem?_set_ne (Ne.symm other)]
  cases core.chainsStorage[j]? with
  | none => rfl
  | some s => by_cases child : j ∈ segment.children <;> simp [child]

theorem getElem?_splitAfter_upper (id : Nat) (segment : Segment) (n : Nat) :
    (core.splitAfter id segment n).chainsStorage[core.chainsStorage.length]? =
      some { kind := .memory, parent := some id, children := segment.children,
             startIndex := segment.startIndex + n, blocks := segment.blocks.drop n } := by
  have lengthSet : (fixChildrenParent (core.chainsStorage.set id
      { segment with blocks := segment.blocks.take n, children := [core.chainsStorage.length] })
      segment.children core.chainsStorage.length).length = core.chainsStorage.length := by
    rw [length_fixChildrenParent, List.length_set]
  rw [splitAfter, List.getElem?_append_right (le_of_eq lengthSet), lengthSet, Nat.sub_self]
  rfl

theorem storedHashes_splitAfter {id : Nat} {segment : Segment} (found : core.chainsStorage[id]? = some segment) (n : Nat) :
    (core.splitAfter id segment n).storedHashes.Perm core.storedHashes := by
  rw [storedHashes, storedHashes, splitAfter]
  exact (flatMap_blocks_split found n core.chainsStorage.length (segment.startIndex + n)).map (·.block.blockHash)

end Core

end CryptoNote
