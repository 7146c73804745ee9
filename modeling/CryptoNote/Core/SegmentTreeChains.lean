import CryptoNote.Core.SegmentTreeInvariant

/-! # The chains of the segment tree

A segment of the tree grown from an in-memory root reads, through
`getBlockHash`, the chain of its parent and then its own blocks
(`chainBlocks_of_parent`): the walk up the parents that `blockAt` makes skips
the segment for a height below its start.  The segment `0` stays the root, on the
genesis block (`RootedAt`), since a split keeps the lower part in the place of
the segment it splits and every new segment has a parent.  So the chain of every
segment runs from the genesis block to the segment's top block, each block
naming the one below it as its parent and adding its difficulty to the
cumulative difficulty.

Every call of `addBlock` is one of the steps of `AddBlockStep`, so what a step
keeps holds along every run; the results of this module are read off the steps
one by one. -/
set_option autoImplicit false

namespace CryptoNote

open Crypto ParentWalk

theorem filterMap_range_getElem? {α : Type} (l : List α) : (List.range l.length).filterMap (fun k => l[k]?) = l := by
  induction l using List.reverseRecOn with
  | nil => rfl
  | append_singleton l x ih =>
    rw [List.length_append, List.length_singleton, List.range_succ, List.filterMap_append,
      List.filterMap_congr (g := fun k => l[k]?) fun k mem => by rw [List.getElem?_append_left (List.mem_range.mp mem)], ih]
    simp

/-- The results of `addBlock` that add the block to the tree: the ones
`notifyOnSuccess` announces and `handleBlockFound` takes for a success. -/
def AddBlockResult.addsBlock : AddBlockResult → Bool
  | .ADDED_TO_MAIN => true
  | .ADDED_TO_ALTERNATIVE => true
  | .ADDED_TO_ALTERNATIVE_AND_SWITCHED => true
  | _ => false

namespace Core

variable (core : Core)

/-- The segment `0` is the root: it has no parent and starts at height `0` with
the genesis block, and every other segment has a parent. -/
structure RootedAt (genesis : TreeBlock) : Prop where
  root : ∃ root, core.chainsStorage[0]? = some root ∧ root.parent = none ∧ root.startIndex = 0 ∧
    root.blocks.head? = some { block := genesis, cumulativeDifficulty := genesis.difficulty }
  parented : ∀ i segment, core.chainsStorage[i]? = some segment → segment.parent = none → i = 0

/-- `mainChainCache->getCurrentCumulativeDifficulty()`: the cumulative difficulty
of the main chain's top block, which `addBlock` compares an alternative chain with. -/
def mainChainCumulativeDifficulty : Option UInt64 := core.chainsLeaves.head?.bind core.getCurrentCumulativeDifficulty

variable {core}

theorem chainBlocks_of_root {id : Nat} {segment : Segment} (found : core.chainsStorage[id]? = some segment)
    (start : segment.startIndex = 0) : core.chainBlocks id = segment.blocks := by
  simp only [chainBlocks, found, start, Nat.zero_add]
  rw [List.filterMap_congr (g := fun k => segment.blocks[k]?) fun k _ => by
    rw [core.blockAt_self found (by omega), start, Nat.sub_zero]]
  exact filterMap_range_getElem? _

namespace TreeInvariant

variable (inv : core.TreeInvariant)
include inv

theorem chain_of_parent {id p : Nat} {segment : Segment} (found : core.chainsStorage[id]? = some segment)
    (linked : segment.parent = some p) : core.chain id = id :: core.chain p := by
  have inside := (List.getElem?_eq_some_iff.mp found).1
  have up : core.parentOf id = some p := by simp [parentOf, found, linked]
  obtain ⟨n, count⟩ : ∃ n, core.chainsStorage.length = n + 1 := ⟨_, (Nat.succ_pred_eq_of_pos (by omega)).symm⟩
  simp only [chain, chainFrom_eq_walk, count]
  rw [walk_succ_of_parent _ up]
  -- the walk from the parent meets the segments but `id`, which starts higher than all of them
  have complete := walk_add_of_card core.startOf (fun _ _ up => inv.parentOf_lowers up) n p
    ((Finset.range (n + 1)).erase id) (fun b anc => ?_) (by simp [Finset.card_erase_of_mem, count ▸ inside]) 1
  · exact congrArg (id :: ·) complete.symm
  refine Finset.mem_erase.mpr ⟨fun same => ?_, Finset.mem_range.mpr ?_⟩
  · have below := anc.rank_le core.startOf (fun _ _ up => inv.parentOf_lowers up)
    have lower := inv.parentOf_lowers up
    subst same
    omega
  · rw [← count]
    exact anc.closed (· < core.chainsStorage.length) (fun _ _ _ up => inv.parentOf_lt up) (inv.parentOf_lt up)

theorem blockAt_below {id p blockIndex : Nat} {segment : Segment} (found : core.chainsStorage[id]? = some segment)
    (linked : segment.parent = some p) (below : blockIndex < segment.startIndex) :
    core.blockAt id blockIndex = core.blockAt p blockIndex := by
  have skipped : ¬segment.startIndex ≤ blockIndex := by omega
  simp [blockAt, inv.chain_of_parent found linked, found, skipped]

theorem chainBlocks_of_parent {id p : Nat} {segment parent : Segment} (found : core.chainsStorage[id]? = some segment)
    (linked : segment.parent = some p) (parentAt : core.chainsStorage[p]? = some parent) :
    core.chainBlocks id = core.chainBlocks p ++ segment.blocks := by
  obtain ⟨parent', parentAt', -, attached⟩ := (inv.segments id segment found).parent_linked p linked
  rw [parentAt, Option.some.injEq] at parentAt'
  subst parentAt'
  have filled := (inv.segments p parent parentAt).filled
  -- the segment starts just above its parent's top
  have start : segment.startIndex = parent.startIndex + parent.blocks.length := by
    have positive := List.length_pos_iff.mpr filled
    rw [attached.1, Segment.getTopBlockIndex]
    omega
  simp only [chainBlocks, found, parentAt]
  rw [List.range_add, List.filterMap_append, ← start]
  congr 1
  · exact List.filterMap_congr fun b mem => inv.blockAt_below found linked (List.mem_range.mp mem)
  · rw [List.filterMap_map, List.filterMap_congr (g := fun k => segment.blocks[k]?) fun k _ => by
      rw [Function.comp_apply, core.blockAt_self found (by omega), Nat.add_sub_cancel_left]]
    exact filterMap_range_getElem? _

end TreeInvariant

/-! ## The root -/

theorem initRootSegment_rootedAt (genesis : TreeBlock) : (initRootSegment .memory genesis).RootedAt genesis where
  root := ⟨_, rfl, rfl, rfl, rfl⟩
  parented i segment found _ := by
    cases i with
    | zero => rfl
    | succ i => simp [initRootSegment] at found

namespace RootedAt

variable {genesis : TreeBlock} (rooted : core.RootedAt genesis)
include rooted

theorem of_storage {core' : Core} (same : core'.chainsStorage = core.chainsStorage) : core'.RootedAt genesis where
  root := by
    rw [same]
    exact rooted.root
  parented := by
    rw [same]
    exact rooted.parented

theorem pushedOnto {id : Nat} {segment : Segment} (found : core.chainsStorage[id]? = some segment)
    (filled : segment.blocks ≠ []) (stored : SegmentBlock) : (core.pushedOnto id segment stored).RootedAt genesis where
  root := by
    have inside := (List.getElem?_eq_some_iff.mp found).1
    obtain ⟨root, rootAt, noParent, start, first⟩ := rooted.root
    by_cases same : id = 0
    · subst same
      rw [found, Option.some.injEq] at rootAt
      subst rootAt
      exact ⟨_, List.getElem?_set_self inside, noParent, start, by rw [List.head?_append_of_ne_nil _ filled]; exact first⟩
    · exact ⟨root, by rw [Core.pushedOnto, List.getElem?_set_ne same]; exact rootAt, noParent, start, first⟩
  parented i segment' found' noParent := by
    have inside := (List.getElem?_eq_some_iff.mp found).1
    by_cases same : i = id
    · subst same
      rw [Core.pushedOnto, List.getElem?_set_self inside, Option.some.injEq] at found'
      subst found'
      exact rooted.parented i segment found noParent
    · rw [Core.pushedOnto, List.getElem?_set_ne (Ne.symm same)] at found'
      exact rooted.parented i segment' found' noParent

theorem forkedAt {id : Nat} {segment : Segment} (found : core.chainsStorage[id]? = some segment) (stored : SegmentBlock) :
    (core.forkedAt id segment stored).RootedAt genesis where
  root := by
    have inside := (List.getElem?_eq_some_iff.mp found).1
    obtain ⟨root, rootAt, noParent, start, first⟩ := rooted.root
    have positive : 0 < (core.chainsStorage.set id { segment with children := segment.children ++ [core.chainsStorage.length] }).length := by
      rw [List.length_set]
      omega
    rw [Core.forkedAt, List.getElem?_append_left positive]
    by_cases same : id = 0
    · subst same
      rw [found, Option.some.injEq] at rootAt
      subst rootAt
      exact ⟨_, List.getElem?_set_self inside, noParent, start, first⟩
    · exact ⟨root, by rw [List.getElem?_set_ne same]; exact rootAt, noParent, start, first⟩
  parented i segment' found' noParent := by
    have inside := (List.getElem?_eq_some_iff.mp found).1
    have bound := (List.getElem?_eq_some_iff.mp found').1
    simp only [Core.forkedAt, List.length_append, List.length_set, List.length_singleton] at bound
    by_cases old : i < core.chainsStorage.length
    · rw [Core.forkedAt, List.getElem?_append_left (by rw [List.length_set]; exact old)] at found'
      by_cases same : i = id
      · subst same
        rw [List.getElem?_set_self inside, Option.some.injEq] at found'
        subst found'
        exact rooted.parented i segment found noParent
      · rw [List.getElem?_set_ne (Ne.symm same)] at found'
        exact rooted.parented i segment' found' noParent
    · -- the new segment, whose parent is `id`
      have top : i = (core.chainsStorage.set id { segment with children := segment.children ++ [core.chainsStorage.length] }).length := by
        rw [List.length_set]
        omega
      rw [Core.forkedAt, top, List.getElem?_concat_length, Option.some.injEq] at found'
      subst found'
      cases noParent

variable (inv : core.TreeInvariant)
include inv

theorem splitAfter {id : Nat} {segment : Segment} (found : core.chainsStorage[id]? = some segment) {n : Nat}
    (above : 0 < n) : (core.splitAfter id segment n).RootedAt genesis := by
  have inside := (List.getElem?_eq_some_iff.mp found).1
  have sound := inv.segments id segment found
  have lengthSet : (fixChildrenParent (core.chainsStorage.set id
      { segment with blocks := segment.blocks.take n, children := [core.chainsStorage.length] })
      segment.children core.chainsStorage.length).length = core.chainsStorage.length := by
    rw [length_fixChildrenParent, List.length_set]
  -- where a segment below the upper part is after the split
  have old : ∀ j, j < core.chainsStorage.length → (core.splitAfter id segment n).chainsStorage[j]? =
      if j ∈ segment.children then core.chainsStorage[j]?.map fun s => { s with parent := some core.chainsStorage.length }
      else if j = id then some { segment with blocks := segment.blocks.take n, children := [core.chainsStorage.length] }
      else core.chainsStorage[j]? := by
    intro j below
    rw [Core.splitAfter, List.getElem?_append_left (by rw [lengthSet]; exact below), getElem?_fixChildrenParent]
    by_cases same : j = id
    · subst same
      simp [inside, sound.not_mem_children found]
    · rw [List.getElem?_set_ne (Ne.symm same)]
      by_cases child : j ∈ segment.children <;> simp [child, same]
  -- the root is no child: its children have a parent
  have notChild : ∀ j, j ∈ segment.children → ∀ s, core.chainsStorage[j]? = some s → s.parent ≠ none := by
    intro j listed s at_j noParent
    obtain ⟨child, childAt, linked⟩ := sound.children_linked j listed
    rw [at_j, Option.some.injEq] at childAt
    subst childAt
    rw [noParent] at linked
    cases linked
  obtain ⟨root, rootAt, noParent, start, first⟩ := rooted.root
  refine ⟨?_, fun i segment' found' isRoot => ?_⟩
  · have rootNotChild : 0 ∉ segment.children := fun listed => notChild 0 listed root rootAt noParent
    rw [old 0 (List.getElem?_eq_some_iff.mp rootAt).1, if_neg rootNotChild]
    by_cases same : 0 = id
    · subst same
      rw [found, Option.some.injEq] at rootAt
      subst rootAt
      refine ⟨_, if_pos rfl, noParent, start, ?_⟩
      rw [List.head?_take, if_neg (by omega)]
      exact first
    · exact ⟨root, by rw [if_neg same]; exact rootAt, noParent, start, first⟩
  · have bound := (List.getElem?_eq_some_iff.mp found').1
    simp only [Core.splitAfter, List.length_append, lengthSet, List.length_singleton] at bound
    by_cases below : i < core.chainsStorage.length
    · rw [old i below] at found'
      split_ifs at found' with child same
      · obtain ⟨s, _, rfl⟩ := Option.map_eq_some_iff.mp found'
        cases isRoot
      · subst same
        rw [Option.some.injEq] at found'
        subst found'
        exact rooted.parented i segment found isRoot
      · exact rooted.parented i segment' found' isRoot
    · -- the upper part, whose parent is `id`
      have top : i = core.chainsStorage.length := by omega
      simp only [Core.splitAfter, top] at found'
      rw [List.getElem?_append_right (le_of_eq lengthSet), lengthSet, Nat.sub_self, List.getElem?_cons_zero,
        Option.some.injEq] at found'
      subst found'
      cases isRoot

theorem addBlockStep {block : TreeBlock} {result : AddBlockResult} {next : Core}
    (step : core.AddBlockStep block result next) : next.RootedAt genesis := by
  cases step with
  | known => exact rooted
  | refused => exact rooted
  | toMain _ found => exact rooted.pushedOnto found (inv.segments _ _ found).filled _
  | toAlternative _ found => exact (rooted.pushedOnto found (inv.segments _ _ found).filled _).of_storage rfl
  | fork _ found => exact rooted.forkedAt found _
  | @splitFork id position segment _ _ found =>
    have lowerAt := core.getElem?_splitAfter_self found ((inv.segments id segment found).not_mem_children found)
      (position + 1)
    exact (rooted.splitAfter inv found (Nat.succ_pos _)).forkedAt lowerAt _

end RootedAt

theorem Reachable.addBlockStep {genesis : TreeBlock} {block : TreeBlock} {checks : AddBlockChecks}
    {result : AddBlockResult} {next : Core} (reached : Reachable .memory genesis core)
    (added : core.addBlock block checks = some (result, next)) : core.AddBlockStep block result next := by
  obtain ⟨result', next', added', step⟩ := reached.treeInvariant.addBlock_step block checks
  rw [added, Option.some.injEq, Prod.mk.injEq] at added'
  obtain ⟨rfl, rfl⟩ := added'
  exact step

theorem Reachable.rootedAt {genesis : TreeBlock} (reached : Reachable .memory genesis core) : core.RootedAt genesis := by
  induction reached with
  | init => exact initRootSegment_rootedAt genesis
  | addBlock reached added rooted => exact rooted.addBlockStep reached.treeInvariant (reached.addBlockStep added)

/-! ## Every chain runs from the genesis block -/

theorem TreeInvariant.chainBlocks_fromGenesis (inv : core.TreeInvariant) {genesis : TreeBlock}
    (rooted : core.RootedAt genesis) :
    ∀ (start id : Nat) (segment : Segment), core.chainsStorage[id]? = some segment → segment.startIndex = start →
      (core.chainBlocks id).head? = some { block := genesis, cumulativeDifficulty := genesis.difficulty } ∧
      (core.chainBlocks id).IsChain SegmentBlock.Follows ∧
      (core.chainBlocks id).length = segment.startIndex + segment.blocks.length ∧
      (core.chainBlocks id).getLast? = segment.blocks.getLast? := by
  intro start
  -- by induction on the start: a parent starts below its child
  induction start using Nat.strong_induction_on with
  | _ start ih =>
    intro id segment found started
    have sound := inv.segments id segment found
    cases linked : segment.parent with
    | none =>
      -- the root, on the genesis block
      have isRoot := rooted.parented id segment found linked
      subst isRoot
      obtain ⟨root, rootAt, -, rootStart, first⟩ := rooted.root
      rw [found, Option.some.injEq] at rootAt
      subst rootAt
      rw [chainBlocks_of_root found rootStart]
      exact ⟨first, sound.chained, by rw [rootStart, Nat.zero_add], rfl⟩
    | some p =>
      obtain ⟨parent, parentAt, -, attached⟩ := sound.parent_linked p linked
      have parentFilled := (inv.segments p parent parentAt).filled
      obtain ⟨first, chained, length, last⟩ :=
        ih parent.startIndex (started ▸ attached.startIndex_lt parentFilled) p parent parentAt rfl
      have nonempty : core.chainBlocks p ≠ [] := fun empty => by simp [empty] at first
      rw [inv.chainBlocks_of_parent found linked parentAt]
      refine ⟨by rw [List.head?_append_of_ne_nil _ nonempty]; exact first,
        chained.append sound.chained fun below belowIn above aboveIn => attached.2 below (last ▸ belowIn) above aboveIn,
        ?_, List.getLast?_append_of_ne_nil _ sound.filled⟩
      have positive := List.length_pos_iff.mpr parentFilled
      rw [List.length_append, length, attached.1, Segment.getTopBlockIndex]
      omega

/-! ## The blocks the tree knows -/

theorem TreeInvariant.hasBlock_iff (inv : core.TreeInvariant) (blockHash : Hash) :
    core.hasBlock blockHash = true ↔ blockHash ∈ core.storedHashes := by
  constructor
  · intro known
    obtain ⟨j, found⟩ := Option.isSome_iff_exists.mp known
    obtain ⟨segment, at_j, has⟩ := findSegmentContainingBlock_some found
    obtain ⟨stored, inSegment, hashed⟩ := List.any_eq_true.mp has
    exact List.mem_map.mpr
      ⟨stored, List.mem_flatMap.mpr ⟨segment, List.mem_of_getElem? at_j, inSegment⟩, beq_iff_eq.mp hashed⟩
  · intro stored
    cases known : core.hasBlock blockHash
    · exact absurd stored (inv.not_mem_storedHashes known)
    · rfl

theorem TreeInvariant.storedHashes_step (inv : core.TreeInvariant) {block : TreeBlock} {result : AddBlockResult}
    {next : Core} (step : core.AddBlockStep block result next) :
    next.storedHashes.Perm (core.storedHashes ++ if result.addsBlock then [block.blockHash] else []) := by
  cases step with
  | known => simp [AddBlockResult.addsBlock]
  | refused _ refused => rcases refused with rfl | rfl <;> simp [AddBlockResult.addsBlock]
  | toMain _ found => exact core.storedHashes_pushedOnto found _
  | toAlternative _ found _ _ _ _ _ outcome =>
    rcases outcome with ⟨rfl, -⟩ | ⟨rfl, -⟩
    · exact core.storedHashes_pushedOnto found _
    · exact core.storedHashes_pushedOnto found _
  | fork _ found => exact core.storedHashes_forkedAt found _
  | @splitFork id position segment _ _ found =>
    have lowerAt := core.getElem?_splitAfter_self found ((inv.segments id segment found).not_mem_children found)
      (position + 1)
    exact ((core.splitAfter id segment (position + 1)).storedHashes_forkedAt lowerAt _).trans
      ((core.storedHashes_splitAfter found (position + 1)).append_right _)

/-- The trees reached from an in-memory root on the genesis block, with the
hashes of the blocks that the calls of `addBlock` added, in order. -/
inductive Grown (genesis : TreeBlock) : Core → List Hash → Prop
  | init : Grown genesis (initRootSegment .memory genesis) [genesis.blockHash]
  | addBlock {core next : Core} {added : List Hash} {block : TreeBlock} {checks : AddBlockChecks}
      {result : AddBlockResult} : Grown genesis core added → core.addBlock block checks = some (result, next) →
      Grown genesis next (added ++ if result.addsBlock then [block.blockHash] else [])

theorem Grown.reachable {genesis : TreeBlock} {added : List Hash} (grown : Grown genesis core added) :
    Reachable .memory genesis core := by
  induction grown with
  | init => exact .init
  | addBlock _ added reached => exact reached.addBlock added

theorem Grown.storedHashes_perm {genesis : TreeBlock} {added : List Hash} (grown : Grown genesis core added) :
    core.storedHashes.Perm added := by
  induction grown with
  | init => simp [storedHashes, initRootSegment]
  | addBlock grown added stored =>
    have step := grown.reachable.addBlockStep added
    exact (grown.reachable.treeInvariant.storedHashes_step step).trans (stored.append_right _)

/-! ## The main chain's cumulative difficulty -/

theorem TreeInvariant.mainChainCumulativeDifficulty_of (inv : core.TreeInvariant) {main : Nat}
    {blocks : List SegmentBlock} {last : SegmentBlock} (isMain : core.chainsLeaves.head? = some main)
    (found : core.chainsStorage[main]?.map (·.blocks) = some blocks) (top : blocks.getLast? = some last) :
    core.mainChainCumulativeDifficulty = some last.cumulativeDifficulty := by
  obtain ⟨segment, at_main, rfl⟩ := Option.map_eq_some_iff.mp found
  simp [mainChainCumulativeDifficulty, isMain,
    core.getCurrentCumulativeDifficulty_of_filled at_main (inv.segments main segment at_main).filled, top]

theorem TreeInvariant.exists_mainLast (inv : core.TreeInvariant) :
    ∃ main segment last, core.chainsLeaves.head? = some main ∧ core.chainsStorage[main]? = some segment ∧
      segment.blocks.getLast? = some last := by
  obtain ⟨main, rest, listed⟩ := List.exists_cons_of_ne_nil inv.leaves.nonempty
  have inside := inv.leaves.bounded main (by simp [listed])
  have found := List.getElem?_eq_getElem inside
  obtain ⟨last, top⟩ := Option.ne_none_iff_exists'.mp
    (List.getLast?_eq_none_iff.not.mpr (inv.segments main _ found).filled)
  exact ⟨main, _, last, by simp [listed], found, top⟩

theorem mainChainCumulativeDifficulty_kept {result : AddBlockResult} {before difficulty : UInt64}
    (notMain : result ≠ .ADDED_TO_MAIN) (notSwitched : result ≠ .ADDED_TO_ALTERNATIVE_AND_SWITCHED) :
    (result = .ADDED_TO_MAIN → before = before + difficulty) ∧
      (result = .ADDED_TO_ALTERNATIVE_AND_SWITCHED → before < before) ∧
      (result ≠ .ADDED_TO_MAIN → result ≠ .ADDED_TO_ALTERNATIVE_AND_SWITCHED → before = before) :=
  ⟨fun added => absurd added notMain, fun switched => absurd switched notSwitched, fun _ _ => rfl⟩

theorem TreeInvariant.mainChainCumulativeDifficulty_step (inv : core.TreeInvariant) {block : TreeBlock}
    {result : AddBlockResult} {next : Core} (step : core.AddBlockStep block result next) :
    ∃ before after, core.mainChainCumulativeDifficulty = some before ∧ next.mainChainCumulativeDifficulty = some after ∧
      (result = .ADDED_TO_MAIN → after = before + block.difficulty) ∧
      (result = .ADDED_TO_ALTERNATIVE_AND_SWITCHED → before < after) ∧
      (result ≠ .ADDED_TO_MAIN → result ≠ .ADDED_TO_ALTERNATIVE_AND_SWITCHED → after = before) := by
  have kept := inv.addBlockStep step
  obtain ⟨main, mainSegment, mainLast, isMain, mainAt, mainTop⟩ := inv.exists_mainLast
  have before := inv.mainChainCumulativeDifficulty_of isMain (by rw [mainAt]; rfl) mainTop
  -- the main leaf is a leaf
  have mainLeaf : mainSegment.children = [] := (inv.leaves.mem_iff mainAt).mp (List.mem_of_mem_head? isMain)
  -- a step that keeps the main leaf's blocks keeps the main chain's cumulative difficulty
  have same : next.chainsLeaves.head? = some main →
      next.chainsStorage[main]?.map (·.blocks) = some mainSegment.blocks →
      next.mainChainCumulativeDifficulty = some mainLast.cumulativeDifficulty :=
    fun isMain' found' => kept.mainChainCumulativeDifficulty_of isMain' found' mainTop
  cases step with
  | known => exact ⟨_, _, before, before, mainChainCumulativeDifficulty_kept (by simp) (by simp)⟩
  | refused _ refused =>
    rcases refused with rfl | rfl <;> exact ⟨_, _, before, before, mainChainCumulativeDifficulty_kept (by simp) (by simp)⟩
  | @toMain id segment last _ found leaf isMain' top follows =>
    -- the main leaf grows by the block
    have sameMain : main = id := Option.some.inj (isMain.symm.trans isMain')
    subst sameMain
    rw [found, Option.some.injEq] at mainAt
    subst mainAt
    rw [top, Option.some.injEq] at mainTop
    subst mainTop
    have pushedAt : (core.pushedOnto main segment (last.stack block)).chainsStorage[main]?.map (·.blocks) =
        some (segment.blocks ++ [last.stack block]) := by
      simp [pushedOnto, (List.getElem?_eq_some_iff.mp found).1]
    have after := kept.mainChainCumulativeDifficulty_of isMain pushedAt List.getLast?_concat
    exact ⟨_, _, before, after, fun _ => rfl, (by simp), fun notMain => absurd rfl notMain⟩
  | @toAlternative id main' segment last _ leaves _ found leaf isMain' other top follows outcome =>
    have sameMain : main = main' := Option.some.inj (isMain.symm.trans isMain')
    subst sameMain
    have inside := (List.getElem?_eq_some_iff.mp found).1
    rcases outcome with ⟨rfl, rfl⟩ | ⟨rfl, -, first, mainSegment', mainLast', mainAt', mainTop', heavier⟩
    · -- the main leaf is as it was
      have after := same isMain (by simp [pushedOnto, List.getElem?_set_ne other, mainAt])
      exact ⟨_, _, before, after, mainChainCumulativeDifficulty_kept (by simp) (by simp)⟩
    · -- the alternative leaf, now heavier, becomes the main leaf
      rw [mainAt, Option.some.injEq] at mainAt'
      subst mainAt'
      rw [mainTop, Option.some.injEq] at mainTop'
      subst mainTop'
      have pushedAt : (core.pushedOnto id segment (last.stack block)).chainsStorage[id]?.map (·.blocks) =
          some (segment.blocks ++ [last.stack block]) := by
        simp [pushedOnto, inside]
      have after := kept.mainChainCumulativeDifficulty_of first pushedAt List.getLast?_concat
      exact ⟨_, _, before, after, (by simp), fun _ => heavier, fun _ notSwitched => absurd rfl notSwitched⟩
  | @fork id segment last _ found forked top follows =>
    -- the segment that has children is not the main leaf
    have other : main ≠ id := by
      rintro rfl
      rw [found, Option.some.injEq] at mainAt
      subst mainAt
      exact forked mainLeaf
    have mainInside := (List.getElem?_eq_some_iff.mp mainAt).1
    have mainFirst : (core.forkedAt id segment (last.stack block)).chainsLeaves.head? = some main := by
      rw [forkedAt, List.head?_append_of_ne_nil _ inv.leaves.nonempty]
      exact isMain
    have after := same mainFirst (by rw [core.getElem?_forkedAt_of_ne segment _ mainInside other, mainAt]; rfl)
    exact ⟨_, _, before, after, mainChainCumulativeDifficulty_kept (by simp) (by simp)⟩
  | @splitFork id position segment parent _ found inside parentAt follows =>
    have sound := inv.segments id segment found
    have lowerAt := core.getElem?_splitAfter_self found (sound.not_mem_children found) (position + 1)
    obtain ⟨rest, listed⟩ := List.head?_eq_some_iff.mp isMain
    have splitLeaves : (core.splitAfter id segment (position + 1)).chainsLeaves ≠ [] := by
      rw [splitAfter]
      split_ifs
      · rw [ne_eq, List.set_eq_nil_iff]
        exact inv.leaves.nonempty
      · exact inv.leaves.nonempty
    have splitLength : core.chainsStorage.length < (core.splitAfter id segment (position + 1)).chainsStorage.length := by
      simp [splitAfter, length_fixChildrenParent]
    by_cases onMain : main = id
    · -- the main leaf is split: its upper part, with its last block, becomes the main leaf
      subst onMain
      rw [found, Option.some.injEq] at mainAt
      subst mainAt
      have upperFirst : ((core.splitAfter main segment (position + 1)).forkedAt main
          { segment with blocks := segment.blocks.take (position + 1), children := [core.chainsStorage.length] }
          (parent.stack block)).chainsLeaves.head? = some core.chainsStorage.length := by
        rw [forkedAt, List.head?_append_of_ne_nil _ splitLeaves]
        simp [splitAfter, mainLeaf, listed]
      have upperAt : ((core.splitAfter main segment (position + 1)).forkedAt main
          { segment with blocks := segment.blocks.take (position + 1), children := [core.chainsStorage.length] }
          (parent.stack block)).chainsStorage[core.chainsStorage.length]?.map (·.blocks) =
          some (segment.blocks.drop (position + 1)) := by
        rw [Core.getElem?_forkedAt_of_ne _ _ _ splitLength (Nat.ne_of_gt (List.getElem?_eq_some_iff.mp found).1),
          core.getElem?_splitAfter_upper]
        rfl
      have upperLast : (segment.blocks.drop (position + 1)).getLast? = some mainLast := by
        rw [List.getLast?_drop, if_neg (by omega)]
        exact mainTop
      have after := kept.mainChainCumulativeDifficulty_of upperFirst upperAt upperLast
      exact ⟨_, _, before, after, mainChainCumulativeDifficulty_kept (by simp) (by simp)⟩
    · -- another segment is split: the main leaf keeps its place and its blocks
      have mainInside := (List.getElem?_eq_some_iff.mp mainAt).1
      have mainFirst : ((core.splitAfter id segment (position + 1)).forkedAt id
          { segment with blocks := segment.blocks.take (position + 1), children := [core.chainsStorage.length] }
          (parent.stack block)).chainsLeaves.head? = some main := by
        rw [forkedAt, List.head?_append_of_ne_nil _ splitLeaves, splitAfter]
        split_ifs
        · rw [listed, List.idxOf_cons_ne _ onMain]
          simp
        · exact isMain
      have mainBlocks : ((core.splitAfter id segment (position + 1)).forkedAt id
          { segment with blocks := segment.blocks.take (position + 1), children := [core.chainsStorage.length] }
          (parent.stack block)).chainsStorage[main]?.map (·.blocks) = some mainSegment.blocks := by
        rw [Core.getElem?_forkedAt_of_ne _ _ _ (mainInside.trans splitLength) onMain,
          core.map_blocks_getElem?_splitAfter_of_ne segment _ mainInside onMain, mainAt]
        rfl
      have after := same mainFirst mainBlocks
      exact ⟨_, _, before, after, mainChainCumulativeDifficulty_kept (by simp) (by simp)⟩

end Core

/-- From an in-memory root, a call of `addBlock` adds the block's difficulty to
the cumulative difficulty of the main chain, modulo `2^64`, when it adds the
block to the main chain; it switches only to an alternative chain whose
cumulative difficulty is the greater `uint64_t`; and it keeps it otherwise. -/
theorem memoryRoot_mainChainCumulativeDifficulty {genesis : TreeBlock} {core next : Core} {block : TreeBlock}
    {checks : AddBlockChecks} {result : AddBlockResult} (reached : Core.Reachable .memory genesis core)
    (added : core.addBlock block checks = some (result, next)) :
    ∃ before after, core.mainChainCumulativeDifficulty = some before ∧ next.mainChainCumulativeDifficulty = some after ∧
      (result = .ADDED_TO_MAIN → after = before + block.difficulty) ∧
      (result = .ADDED_TO_ALTERNATIVE_AND_SWITCHED → before < after) ∧
      (result ≠ .ADDED_TO_MAIN → result ≠ .ADDED_TO_ALTERNATIVE_AND_SWITCHED → after = before) :=
  reached.treeInvariant.mainChainCumulativeDifficulty_step (reached.addBlockStep added)

def heavyBlock : TreeBlock := { forkBlock 2 1 [] with difficulty := 0xFFFFFFFFFFFFFFFF }

/-- The heavy block is added to the main chain, whose cumulative difficulty wraps
from `1` to `0`. -/
theorem memoryRoot_heavyBlock_wraps :
    ∃ next, (Core.initRootSegment .memory forkGenesis).addBlock heavyBlock passing = some (.ADDED_TO_MAIN, next) ∧
      (Core.initRootSegment .memory forkGenesis).mainChainCumulativeDifficulty = some 1 ∧
      next.mainChainCumulativeDifficulty = some 0 ∧
      ∃ before after, (Core.initRootSegment .memory forkGenesis).mainChainCumulativeDifficulty = some before ∧
        next.mainChainCumulativeDifficulty = some after ∧
        (AddBlockResult.ADDED_TO_MAIN = .ADDED_TO_MAIN → after = before + heavyBlock.difficulty) ∧
        (AddBlockResult.ADDED_TO_MAIN = .ADDED_TO_ALTERNATIVE_AND_SWITCHED → before < after) ∧
        (AddBlockResult.ADDED_TO_MAIN ≠ .ADDED_TO_MAIN →
          AddBlockResult.ADDED_TO_MAIN ≠ .ADDED_TO_ALTERNATIVE_AND_SWITCHED → after = before) :=
  ⟨_, rfl, rfl, rfl, @memoryRoot_mainChainCumulativeDifficulty forkGenesis _ _ heavyBlock passing _ .init rfl⟩

/-- From an in-memory root, no block is added twice, and the tree knows exactly
the genesis block and the blocks of the calls of `addBlock` whose result added them. -/
theorem memoryRoot_knownBlocks {genesis : TreeBlock} {core : Core} {added : List Hash}
    (grown : Core.Grown genesis core added) :
    added.Nodup ∧ ∀ blockHash, core.hasBlock blockHash = true ↔ blockHash ∈ added := by
  have inv := grown.reachable.treeInvariant
  have stored := grown.storedHashes_perm
  exact ⟨stored.nodup_iff.mp inv.unique, fun blockHash => (inv.hasBlock_iff blockHash).trans stored.mem_iff⟩

/-- A block on the genesis block, the same block again, and a block on the genesis block beside it. -/
theorem memoryRoot_repeatedBlock_knownBlocks :
    ∃ core added, Core.Grown forkGenesis core added ∧
      added.Nodup ∧ ∀ blockHash, core.hasBlock blockHash = true ↔ blockHash ∈ added :=
  have grown := Core.Grown.addBlock (Core.Grown.addBlock (Core.Grown.addBlock .init
    (show Core.addBlock _ (forkBlock 2 1 []) passing = some (_, _) from rfl))
    (show Core.addBlock _ (forkBlock 2 1 []) passing = some (_, _) from rfl))
    (show Core.addBlock _ (forkBlock 12 1 []) passing = some (_, _) from rfl)
  ⟨_, _, grown, memoryRoot_knownBlocks grown⟩

/-- From an in-memory root, the chain of every segment, as `getBlockHash` reads
it, runs from the genesis block to the segment's top block: each block names the
one below it as its parent, and its cumulative difficulty is that block's with
its own difficulty added. -/
theorem memoryRoot_chainBlocks {genesis : TreeBlock} {core : Core} (reached : Core.Reachable .memory genesis core)
    {id : Nat} {segment : Segment} (found : core.chainsStorage[id]? = some segment) :
    (core.chainBlocks id).head? = some { block := genesis, cumulativeDifficulty := genesis.difficulty } ∧
      (core.chainBlocks id).IsChain SegmentBlock.Follows ∧
      (core.chainBlocks id).length = segment.startIndex + segment.blocks.length ∧
      (core.chainBlocks id).getLast? = segment.blocks.getLast? :=
  reached.treeInvariant.chainBlocks_fromGenesis reached.rootedAt _ id segment found rfl

theorem memoryRoot_splitMainChain_chainBlocks :
    ∃ core segment, Core.Reachable .memory forkGenesis core ∧ core.chainsStorage[1]? = some segment ∧
      (core.chainBlocks 1).head? = some { block := forkGenesis, cumulativeDifficulty := forkGenesis.difficulty } ∧
      (core.chainBlocks 1).IsChain SegmentBlock.Follows ∧
      (core.chainBlocks 1).length = segment.startIndex + segment.blocks.length ∧
      (core.chainBlocks 1).getLast? = segment.blocks.getLast? :=
  have reached := @Core.Reachable.addBlocks .memory forkGenesis splitMainChain _ _ .init rfl
  ⟨_, _, reached, rfl, memoryRoot_chainBlocks reached rfl⟩

end CryptoNote
