import CryptoNote.Core.SegmentTreeOps
import CryptoNote.Lib.ParentWalk

/-! # The segment tree grown from an in-memory root

`BlockchainCache::split` hands the children of the segment it splits over to the
upper part, so a tree whose root is a `BlockchainCache` keeps its shape: every
segment is an in-memory one with blocks that follow each other, it is among its
parent's children and starts on its parent's top block, its children point back
to it, `chainsLeaves` lists the segments without children, and no block is stored
twice (`TreeInvariant`).  Each path of `addBlock` keeps that, and on such a tree
no `assert` of `addBlock` fails: from `initRootSegment .memory`, `addBlock`
always returns, and the tree stays `WellFormed`.  That is the tree the database
root breaks.

Parents start below their children, so a walk up the parents meets no segment
twice and `chain` reaches the root within its fuel; and a segment with children
has a child that starts higher, so every segment is below a leaf.  Together they
make `findSegmentContainingBlock` find every stored block, which is what keeps
the check `hasBlock` of `addBlock` from letting a block in twice. -/
set_option autoImplicit false

namespace CryptoNote

open Crypto ParentWalk

/-- `above` names `below` as its parent block, and its cumulative difficulty is
the one of `below` with its own difficulty added. -/
def SegmentBlock.Follows (below above : SegmentBlock) : Prop :=
  above.block.previousBlockHash = below.block.blockHash ∧
    above.cumulativeDifficulty = below.cumulativeDifficulty + above.block.difficulty

theorem SegmentBlock.follows_stack {below : SegmentBlock} {block : TreeBlock}
    (named : block.previousBlockHash = below.block.blockHash) : below.Follows (below.stack block) :=
  ⟨named, rfl⟩

theorem SegmentBlock.follows_getLast {blocks : List SegmentBlock} {last : SegmentBlock}
    (top : blocks.getLast? = some last) {block : TreeBlock} (named : block.previousBlockHash = last.block.blockHash) :
    ∀ below ∈ blocks.getLast?, below.Follows (last.stack block) := by
  intro below belowIn
  rw [top, Option.mem_some_iff] at belowIn
  exact belowIn ▸ follows_stack named

/-- `child` starts just above the top of `parent`, on its top block. -/
def Segment.Attached (parent child : Segment) : Prop :=
  child.startIndex = parent.getTopBlockIndex + 1 ∧
    ∀ last ∈ parent.blocks.getLast?, ∀ first ∈ child.blocks.head?, last.Follows first

theorem Segment.Attached.startIndex_lt {parent child : Segment} (filled : parent.blocks ≠ [])
    (attached : parent.Attached child) : parent.startIndex < child.startIndex := by
  have positive := List.length_pos_iff.mpr filled
  rw [attached.1, Segment.getTopBlockIndex]
  omega

theorem Segment.Attached.of_child {parent child child' : Segment} (attached : parent.Attached child)
    (start : child'.startIndex = child.startIndex) (first : child'.blocks.head? = child.blocks.head?) :
    parent.Attached child' :=
  ⟨start.trans attached.1, fun last lastIn head headIn => attached.2 last lastIn head (first ▸ headIn)⟩

theorem Segment.Attached.of_parent {parent parent' child : Segment} (attached : parent.Attached child)
    (top : parent'.getTopBlockIndex = parent.getTopBlockIndex) (last : parent'.blocks.getLast? = parent.blocks.getLast?) :
    parent'.Attached child :=
  ⟨top ▸ attached.1, fun top topIn head headIn => attached.2 top (last ▸ topIn) head headIn⟩

theorem nodup_hashes_of_perm {storage storage' : List Segment} {added : List SegmentBlock}
    (moved : (storage'.flatMap (·.blocks)).Perm (storage.flatMap (·.blocks) ++ added))
    (nodup : ((storage.flatMap (·.blocks)).map (·.block.blockHash)).Nodup)
    (fresh : ∀ b ∈ added, b.block.blockHash ∉ (storage.flatMap (·.blocks)).map (·.block.blockHash))
    (distinct : (added.map (·.block.blockHash)).Nodup) :
    ((storage'.flatMap (·.blocks)).map (·.block.blockHash)).Nodup := by
  rw [(moved.map _).nodup_iff, List.map_append, List.nodup_append]
  refine ⟨nodup, distinct, ?_⟩
  intro a stored b new same
  obtain ⟨block, addedIn, rfl⟩ := List.mem_map.mp new
  exact fresh block addedIn (same ▸ stored)

theorem mem_set_iff_of_nodup {α : Type} {l : List α} {k : Nat} {a b x : α} (nodup : l.Nodup) (at_k : l[k]? = some a) :
    x ∈ l.set k b ↔ x = b ∨ (x ∈ l ∧ x ≠ a) := by
  have inside := (List.getElem?_eq_some_iff.mp at_k).1
  constructor
  · intro mem
    obtain ⟨j, at_j⟩ := List.mem_iff_getElem?.mp mem
    rw [List.getElem?_set] at at_j
    split_ifs at at_j with same
    · exact .inl (Option.some.inj at_j).symm
    · refine .inr ⟨List.mem_of_getElem? at_j, fun isA => same ?_⟩
      subst isA
      exact (List.getElem?_inj inside nodup).mp (at_k.trans at_j.symm)
  · rintro (rfl | ⟨mem, ne⟩)
    · exact List.mem_set inside x
    · obtain ⟨j, at_j⟩ := List.mem_iff_getElem?.mp mem
      have other : k ≠ j := by
        rintro rfl
        exact ne (Option.some.inj (at_j.symm.trans at_k))
      exact List.mem_of_getElem? (by rw [List.getElem?_set_ne other]; exact at_j)

theorem idxOf?_eq_some_idxOf {α : Type} [BEq α] [LawfulBEq α] {l : List α} {a : α} (mem : a ∈ l) :
    l.idxOf? a = some (l.idxOf a) := by
  induction l with
  | nil => cases mem
  | cons b l ih =>
    by_cases same : b = a
    · subst same
      simp [List.idxOf?_cons]
    · have rest : a ∈ l := (List.mem_cons.mp mem).resolve_left (Ne.symm same)
      rw [List.idxOf?_cons, List.idxOf_cons_ne _ same, ih rest]
      simp [same]

namespace Core

variable (core : Core)

def parentOf (id : Nat) : Option Nat := core.chainsStorage[id]?.bind (·.parent)

def startOf (id : Nat) : Nat := (core.chainsStorage[id]?.map (·.startIndex)).getD 0

theorem chainFrom_eq_walk (fuel id : Nat) : core.chainFrom fuel id = walk core.parentOf fuel id := by
  induction fuel generalizing id with
  | zero => rfl
  | succ fuel ih =>
    simp only [chainFrom, walk, parentOf]
    cases core.chainsStorage[id]?.bind (·.parent) with
    | none => rfl
    | some p => simp only [ih]

/-- What the segment `i` of a tree grown from an in-memory root keeps. -/
structure SegmentSound (i : Nat) (segment : Segment) : Prop where
  memory : segment.kind = .memory
  filled : segment.blocks ≠ []
  chained : segment.blocks.IsChain SegmentBlock.Follows
  parent_linked : ∀ p, segment.parent = some p →
    ∃ parent, core.chainsStorage[p]? = some parent ∧ i ∈ parent.children ∧ parent.Attached segment
  children_linked : ∀ c ∈ segment.children, ∃ child, core.chainsStorage[c]? = some child ∧ child.parent = some i

/-- The tree `addBlock` keeps from an in-memory root. -/
structure TreeInvariant : Prop where
  segments : ∀ i segment, core.chainsStorage[i]? = some segment → core.SegmentSound i segment
  leaves : core.LeavesExact
  unique : core.storedHashes.Nodup

variable {core}

theorem SegmentSound.transfer {core' : Core} {i : Nat} {segment : Segment} (sound : core.SegmentSound i segment)
    (parents : ∀ p parent, segment.parent = some p → core.chainsStorage[p]? = some parent → i ∈ parent.children →
      ∃ parent', core'.chainsStorage[p]? = some parent' ∧ i ∈ parent'.children ∧
        parent'.getTopBlockIndex = parent.getTopBlockIndex ∧ parent'.blocks.getLast? = parent.blocks.getLast?)
    (children : ∀ c ∈ segment.children, ∀ child, core.chainsStorage[c]? = some child → child.parent = some i →
      ∃ child', core'.chainsStorage[c]? = some child' ∧ child'.parent = some i) :
    core'.SegmentSound i segment where
  memory := sound.memory
  filled := sound.filled
  chained := sound.chained
  parent_linked p linked := by
    obtain ⟨parent, parentAt, listed, attached⟩ := sound.parent_linked p linked
    obtain ⟨parent', parentAt', listed', top, last⟩ := parents p parent linked parentAt listed
    exact ⟨parent', parentAt', listed', attached.of_parent top last⟩
  children_linked c listed := by
    obtain ⟨child, childAt, linked⟩ := sound.children_linked c listed
    exact children c listed child childAt linked

theorem SegmentSound.of_storage {core' : Core} {i : Nat} {segment : Segment} (sound : core.SegmentSound i segment)
    (same : core'.chainsStorage = core.chainsStorage) : core'.SegmentSound i segment :=
  sound.transfer (fun _ parent _ parentAt listed => ⟨parent, same ▸ parentAt, listed, rfl, rfl⟩)
    fun _ _ child childAt linked => ⟨child, same ▸ childAt, linked⟩

theorem LeavesExact.of_children {core' : Core} (leaves : core.LeavesExact)
    (sameLeaves : core'.chainsLeaves = core.chainsLeaves) (sameLength : core'.chainsStorage.length = core.chainsStorage.length)
    (sameChildren : ∀ i : Nat, core'.chainsStorage[i]?.map (·.children) = core.chainsStorage[i]?.map (·.children)) :
    core'.LeavesExact where
  nonempty := sameLeaves ▸ leaves.nonempty
  nodup := sameLeaves ▸ leaves.nodup
  bounded leaf listed := sameLength ▸ leaves.bounded leaf (sameLeaves ▸ listed)
  leaf_iff i inside := by
    have inside' : i < core.chainsStorage.length := sameLength ▸ inside
    have same := sameChildren i
    rw [List.getElem?_eq_getElem inside, List.getElem?_eq_getElem inside', Option.map_some, Option.map_some,
      Option.some.injEq] at same
    rw [same, sameLeaves]
    exact leaves.leaf_iff i inside'

theorem LeavesExact.of_getElem? {core : Core} (nonempty : core.chainsLeaves ≠ []) (nodup : core.chainsLeaves.Nodup)
    (bounded : ∀ leaf ∈ core.chainsLeaves, leaf < core.chainsStorage.length)
    (leaf_iff : ∀ i segment, core.chainsStorage[i]? = some segment → (i ∈ core.chainsLeaves ↔ segment.children = [])) :
    core.LeavesExact where
  nonempty := nonempty
  nodup := nodup
  bounded := bounded
  leaf_iff i inside := leaf_iff i _ (List.getElem?_eq_getElem inside)

theorem SegmentSound.parent_ne {i p : Nat} {segment : Segment} (sound : core.SegmentSound i segment)
    (found : core.chainsStorage[i]? = some segment) (linked : segment.parent = some p) : p ≠ i := by
  rintro rfl
  obtain ⟨parent, parentAt, -, attached⟩ := sound.parent_linked p linked
  rw [found, Option.some.injEq] at parentAt
  subst parentAt
  exact Nat.lt_irrefl _ (attached.startIndex_lt sound.filled)

theorem LeavesExact.length_le (leaves : core.LeavesExact) : core.chainsLeaves.length ≤ core.chainsStorage.length := by
  rw [← List.toFinset_card_of_nodup leaves.nodup, ← Finset.card_range core.chainsStorage.length]
  exact Finset.card_le_card fun leaf listed => Finset.mem_range.mpr (leaves.bounded leaf (List.mem_toFinset.mp listed))

theorem SegmentSound.not_mem_children {i : Nat} {segment : Segment} (sound : core.SegmentSound i segment)
    (found : core.chainsStorage[i]? = some segment) : i ∉ segment.children := by
  intro listed
  obtain ⟨child, childAt, linked⟩ := sound.children_linked i listed
  rw [found, Option.some.injEq] at childAt
  subst childAt
  exact sound.parent_ne found linked rfl

theorem LeavesExact.mem_iff (leaves : core.LeavesExact) {i : Nat} {segment : Segment}
    (found : core.chainsStorage[i]? = some segment) : i ∈ core.chainsLeaves ↔ segment.children = [] := by
  obtain ⟨inside, rfl⟩ := List.getElem?_eq_some_iff.mp found
  exact leaves.leaf_iff i inside

theorem findIndexInChain_some {leaf j : Nat} {blockHash : Hash} (found : core.findIndexInChain leaf blockHash = some j) :
    ∃ segment, core.chainsStorage[j]? = some segment ∧ segment.hasBlock blockHash = true := by
  have holds := List.find?_some found
  cases stored : core.chainsStorage[j]? with
  | none => simp [stored] at holds
  | some segment => exact ⟨segment, rfl, by simpa [stored] using holds⟩

theorem findSegmentContainingBlock_some {j : Nat} {blockHash : Hash}
    (found : core.findSegmentContainingBlock blockHash = some j) :
    ∃ segment, core.chainsStorage[j]? = some segment ∧ segment.hasBlock blockHash = true := by
  unfold findSegmentContainingBlock at found
  split at found
  · cases found
  · split at found
    · -- on the main chain
      next onMain =>
      cases found
      exact findIndexInChain_some onMain
    · -- on the chain of another leaf
      obtain ⟨leaf, -, inChain⟩ := List.exists_of_findSome?_eq_some found
      exact findIndexInChain_some inChain

/-! ## Walking up and down the tree -/

namespace TreeInvariant

variable (inv : core.TreeInvariant)
include inv

theorem parentOf_lowers {a p : Nat} (up : core.parentOf a = some p) : core.startOf p < core.startOf a := by
  obtain ⟨segment, found, linked⟩ := Option.bind_eq_some_iff.mp up
  obtain ⟨parent, parentAt, -, attached⟩ := (inv.segments a segment found).parent_linked p linked
  have lower := attached.startIndex_lt (inv.segments p parent parentAt).filled
  simpa [startOf, found, parentAt] using lower

theorem parentOf_lt {a p : Nat} (up : core.parentOf a = some p) : p < core.chainsStorage.length := by
  obtain ⟨segment, found, linked⟩ := Option.bind_eq_some_iff.mp up
  obtain ⟨parent, parentAt, -⟩ := (inv.segments a segment found).parent_linked p linked
  exact (List.getElem?_eq_some_iff.mp parentAt).1

theorem mem_chain {a b : Nat} (inside : a < core.chainsStorage.length) (anc : Ancestor core.parentOf a b) :
    b ∈ core.chain a := by
  rw [chain, chainFrom_eq_walk]
  refine mem_walk_of_ancestor core.startOf (fun _ _ up => inv.parentOf_lowers up) _ a
    (Finset.range core.chainsStorage.length) (fun c fromA => ?_) (by simp) b anc
  exact Finset.mem_range.mpr (fromA.closed (· < core.chainsStorage.length) (fun _ _ _ up => inv.parentOf_lt up) inside)

theorem exists_leaf {i : Nat} (inside : i < core.chainsStorage.length) :
    ∃ leaf ∈ core.chainsLeaves, Ancestor core.parentOf leaf i := by
  let bound := (core.chainsStorage.map (·.startIndex)).sum
  suffices descend : ∀ n i, i < core.chainsStorage.length → bound - core.startOf i = n →
      ∃ leaf ∈ core.chainsLeaves, Ancestor core.parentOf leaf i from descend _ i inside rfl
  intro n
  induction n using Nat.strong_induction_on with
  | _ n ih =>
    intro i inside measured
    obtain ⟨segment, found⟩ : ∃ segment, core.chainsStorage[i]? = some segment := ⟨_, List.getElem?_eq_getElem inside⟩
    by_cases childless : segment.children = []
    · exact ⟨i, (inv.leaves.mem_iff found).mpr childless, .refl i⟩
    · -- go down to a child
      obtain ⟨c, listed⟩ := List.exists_mem_of_ne_nil _ childless
      obtain ⟨child, childAt, linked⟩ := (inv.segments i segment found).children_linked c listed
      have up : core.parentOf c = some i := by simp [parentOf, childAt, linked]
      have higher := inv.parentOf_lowers up
      have bounded : core.startOf c ≤ bound := by
        simpa [startOf, childAt] using List.le_sum_of_mem (List.mem_map_of_mem (List.mem_of_getElem? childAt))
      obtain ⟨leaf, isLeaf, anc⟩ :=
        ih (bound - core.startOf c) (by omega) c (List.getElem?_eq_some_iff.mp childAt).1 rfl
      exact ⟨leaf, isLeaf, anc.tail up⟩

theorem hasBlock_of_stored {i : Nat} {segment : Segment} {blockHash : Hash}
    (found : core.chainsStorage[i]? = some segment) (stored : segment.hasBlock blockHash = true) :
    core.hasBlock blockHash = true := by
  obtain ⟨leaf, isLeaf, anc⟩ := inv.exists_leaf (List.getElem?_eq_some_iff.mp found).1
  have onChain := inv.mem_chain (inv.leaves.bounded leaf isLeaf) anc
  have inChain : (core.findIndexInChain leaf blockHash).isSome := List.find?_isSome.mpr ⟨i, onChain, by simp [found, stored]⟩
  obtain ⟨main, alternatives, listed⟩ := List.exists_cons_of_ne_nil inv.leaves.nonempty
  unfold hasBlock findSegmentContainingBlock
  rw [listed]
  cases onMain : core.findIndexInChain main blockHash with
  | some _ => simp only [onMain, Option.isSome_some]
  | none =>
    -- the leaf is another one than the main leaf
    simp only [onMain]
    rw [listed] at isLeaf
    rcases List.mem_cons.mp isLeaf with rfl | other
    · rw [onMain] at inChain
      cases inChain
    · exact List.findSome?_isSome_iff.mpr ⟨leaf, other, inChain⟩

theorem not_mem_storedHashes {blockHash : Hash} (fresh : core.hasBlock blockHash = false) :
    blockHash ∉ core.storedHashes := by
  intro mem
  obtain ⟨stored, inSegments, hashed⟩ := List.mem_map.mp mem
  obtain ⟨segment, inStorage, inSegment⟩ := List.mem_flatMap.mp inSegments
  obtain ⟨i, found⟩ := List.mem_iff_getElem?.mp inStorage
  have holds := inv.hasBlock_of_stored found (List.any_eq_true.mpr ⟨stored, inSegment, beq_iff_eq.mpr hashed⟩)
  rw [fresh] at holds
  cases holds

/-! ## Each step keeps the invariant -/

theorem withLeaves {leaves : List Nat} (reordered : leaves.Perm core.chainsLeaves) :
    ({ core with chainsLeaves := leaves } : Core).TreeInvariant where
  segments i segment found := (inv.segments i segment found).of_storage rfl
  leaves :=
    { nonempty := fun empty => inv.leaves.nonempty (by subst empty; exact reordered.symm.eq_nil)
      nodup := reordered.nodup_iff.mpr inv.leaves.nodup
      bounded := fun leaf listed => inv.leaves.bounded leaf (reordered.mem_iff.mp listed)
      leaf_iff := fun i inside => reordered.mem_iff.trans (inv.leaves.leaf_iff i inside) }
  unique := inv.unique

theorem pushLeaf {id : Nat} {segment : Segment} (found : core.chainsStorage[id]? = some segment)
    (leaf : segment.children = []) {stored : SegmentBlock}
    (follows : ∀ last ∈ segment.blocks.getLast?, last.Follows stored) (fresh : stored.block.blockHash ∉ core.storedHashes) :
    ({ core with chainsStorage := core.chainsStorage.set id { segment with blocks := segment.blocks ++ [stored] } } : Core).TreeInvariant := by
  have inside := (List.getElem?_eq_some_iff.mp found).1
  have sound := inv.segments id segment found
  -- a leaf is no segment's parent
  have notParent : ∀ j p parent, core.chainsStorage[p]? = some parent → j ∈ parent.children → p ≠ id := by
    rintro j p parent parentAt listed rfl
    rw [found, Option.some.injEq] at parentAt
    subst parentAt
    simp [leaf] at listed
  refine ⟨fun j pushed found' => ?_, inv.leaves.of_children rfl (by simp) fun i => ?_, ?_⟩
  · by_cases same : j = id
    · subst same
      rw [List.getElem?_set_self inside, Option.some.injEq] at found'
      subst found'
      refine ⟨sound.memory, by simp, ?_, fun p linked => ?_, by simp [leaf]⟩
      · refine sound.chained.append (List.isChain_singleton stored) fun last lastIn first firstIn => ?_
        rw [List.head?_singleton, Option.mem_some_iff] at firstIn
        exact firstIn ▸ follows last lastIn
      · obtain ⟨parent, parentAt, listed, attached⟩ := sound.parent_linked p linked
        refine ⟨parent, ?_, listed, attached.of_child rfl (List.head?_append_of_ne_nil _ sound.filled)⟩
        rwa [List.getElem?_set_ne (Ne.symm (notParent j p parent parentAt listed))]
    · rw [List.getElem?_set_ne (Ne.symm same)] at found'
      refine (inv.segments j pushed found').transfer (fun p parent _ parentAt listed => ?_) fun c _ child childAt linked => ?_
      · refine ⟨parent, ?_, listed, rfl, rfl⟩
        rwa [List.getElem?_set_ne (Ne.symm (notParent j p parent parentAt listed))]
      · by_cases isLeaf : c = id
        · subst isLeaf
          rw [found, Option.some.injEq] at childAt
          subst childAt
          exact ⟨_, List.getElem?_set_self inside, linked⟩
        · exact ⟨child, by rwa [List.getElem?_set_ne (Ne.symm isLeaf)], linked⟩
  · -- only the blocks of the leaf change
    rw [List.getElem?_set]
    split_ifs with same
    · subst same
      simp [found]
    · rfl
  · -- the stored hashes gain the new block's
    have moved := flatMap_set_append_perm inside { segment with blocks := segment.blocks ++ [stored] } (·.blocks)
      (show (segment.blocks ++ [stored] ++ []).Perm (core.chainsStorage[id].blocks ++ [stored]) by
        simp [(List.getElem?_eq_some_iff.mp found).2])
    rw [List.append_nil] at moved
    refine nodup_hashes_of_perm moved inv.unique (fun b added => ?_) (by simp)
    rw [List.mem_singleton] at added
    exact added ▸ fresh

theorem addChildSegment {cacheId : Nat} {cache : Segment} (found : core.chainsStorage[cacheId]? = some cache)
    (forked : cache.children ≠ []) {stored : SegmentBlock}
    (follows : ∀ last ∈ cache.blocks.getLast?, last.Follows stored) (fresh : stored.block.blockHash ∉ core.storedHashes) :
    ({ chainsStorage := core.chainsStorage.set cacheId { cache with children := cache.children ++ [core.chainsStorage.length] } ++
          [{ kind := .memory, parent := some cacheId, children := [], startIndex := cache.getTopBlockIndex + 1,
             blocks := [stored] }]
       chainsLeaves := core.chainsLeaves ++ [core.chainsStorage.length] } : Core).TreeInvariant := by
  have inside := (List.getElem?_eq_some_iff.mp found).1
  have sound := inv.segments cacheId cache found
  let added := { cache with children := cache.children ++ [core.chainsStorage.length] }
  let child : Segment :=
    { kind := .memory, parent := some cacheId, children := [], startIndex := cache.getTopBlockIndex + 1, blocks := [stored] }
  have length_set : (core.chainsStorage.set cacheId added).length = core.chainsStorage.length := List.length_set
  -- the segments below the new one are where they were, the parent with one more child
  have old : ∀ j, j < core.chainsStorage.length →
      (core.chainsStorage.set cacheId added ++ [child])[j]? = if j = cacheId then some added else core.chainsStorage[j]? := by
    intro j below
    rw [List.getElem?_append_left (by omega), List.getElem?_set]
    by_cases same : j = cacheId
    · simp [same, inside]
    · simp [same, Ne.symm same]
  have new : (core.chainsStorage.set cacheId added ++ [child])[core.chainsStorage.length]? = some child := by
    rw [← length_set, List.getElem?_concat_length]
  have lookup : ∀ j s, (core.chainsStorage.set cacheId added ++ [child])[j]? = some s →
      (j = core.chainsStorage.length ∧ s = child) ∨ (j < core.chainsStorage.length ∧
        if j = cacheId then s = added else core.chainsStorage[j]? = some s) := by
    intro j s found'
    have bound := (List.getElem?_eq_some_iff.mp found').1
    simp only [List.length_append, length_set, List.length_singleton] at bound
    by_cases below : j < core.chainsStorage.length
    · rw [old j below] at found'
      refine .inr ⟨below, ?_⟩
      split_ifs at found' ⊢ with same
      · exact (Option.some.inj found').symm
      · exact found'
    · have top : j = core.chainsStorage.length := by omega
      subst top
      rw [new, Option.some.injEq] at found'
      exact .inl ⟨rfl, found'.symm⟩
  -- the parent of a segment that has one is a stored segment other than the new one
  have keepsParent : ∀ (c : Nat) (child' : Segment), core.chainsStorage[c]? = some child' →
      ∃ child'', (core.chainsStorage.set cacheId added ++ [child])[c]? = some child'' ∧ child''.parent = child'.parent := by
    intro c child' childAt
    have below := (List.getElem?_eq_some_iff.mp childAt).1
    rw [old c below]
    split_ifs with same
    · subst same
      rw [found, Option.some.injEq] at childAt
      exact ⟨added, rfl, by rw [← childAt]⟩
    · exact ⟨child', childAt, rfl⟩
  refine ⟨fun j s found' => ?_, ?_, ?_⟩
  · rcases lookup j s found' with ⟨rfl, rfl⟩ | ⟨below, lookedUp⟩
    · -- the new segment
      refine ⟨rfl, by simp [child], List.isChain_singleton stored, fun p linked => ?_, by simp [child]⟩
      simp only [child, Option.some.injEq] at linked
      subst linked
      refine ⟨added, by rw [old cacheId inside, if_pos rfl], List.mem_append_right _ (List.mem_singleton_self _), rfl, ?_⟩
      intro last lastIn first firstIn
      rw [List.head?_singleton, Option.mem_some_iff] at firstIn
      exact firstIn ▸ follows last lastIn
    split_ifs at lookedUp with same
    · -- the parent of the new segment
      subst same lookedUp
      refine ⟨sound.memory, sound.filled, sound.chained, fun p linked => ?_, fun c listed => ?_⟩
      · obtain ⟨parent, parentAt, listed, attached⟩ := sound.parent_linked p linked
        have other := sound.parent_ne found linked
        refine ⟨parent, by rw [old p (List.getElem?_eq_some_iff.mp parentAt).1, if_neg other, parentAt], listed, attached.of_child rfl rfl⟩
      · rcases List.mem_append.mp listed with listed | fresh
        · obtain ⟨child', childAt, linked⟩ := sound.children_linked c listed
          obtain ⟨child'', childAt', same⟩ := keepsParent c child' childAt
          exact ⟨child'', childAt', same.trans linked⟩
        · rw [List.mem_singleton] at fresh
          subst fresh
          exact ⟨child, new, rfl⟩
    · -- any other segment
      refine (inv.segments j s lookedUp).transfer (fun p parent _ parentAt listed => ?_) fun c _ child' childAt linked => ?_
      · rw [old p (List.getElem?_eq_some_iff.mp parentAt).1]
        split_ifs with isCache
        · subst isCache
          rw [found, Option.some.injEq] at parentAt
          subst parentAt
          exact ⟨added, rfl, List.mem_append_left _ listed, rfl, rfl⟩
        · exact ⟨parent, parentAt, listed, rfl, rfl⟩
      · obtain ⟨child'', childAt', same⟩ := keepsParent c child' childAt
        exact ⟨child'', childAt', same.trans linked⟩
  · -- the new segment is the last leaf, and its parent was none
    refine LeavesExact.of_getElem? (by simp) ?_ ?_ fun i s found' => ?_
    · refine List.nodup_append.mpr ⟨inv.leaves.nodup, List.nodup_singleton _, fun a listed b isNew same => ?_⟩
      rw [List.mem_singleton] at isNew
      have := inv.leaves.bounded a listed
      omega
    · intro leaf listed
      simp only [List.length_append, List.length_set, List.length_singleton]
      rcases List.mem_append.mp listed with listed | isNew
      · have := inv.leaves.bounded leaf listed
        omega
      · rw [List.mem_singleton] at isNew
        omega
    · have notLeaf : cacheId ∉ core.chainsLeaves := fun listed => forked ((inv.leaves.mem_iff found).mp listed)
      rcases lookup i s found' with ⟨rfl, rfl⟩ | ⟨below, lookedUp⟩
      · simp [child]
      · have notNew : i ≠ core.chainsStorage.length := Nat.ne_of_lt below
        simp only [List.mem_append, List.mem_singleton, notNew, or_false]
        split_ifs at lookedUp with same
        · subst same lookedUp
          simp [added, notLeaf]
        · exact inv.leaves.mem_iff lookedUp
  · -- the stored hashes gain the new block's
    have kept := flatMap_set_append_perm inside added (·.blocks)
      (show (added.blocks ++ []).Perm (core.chainsStorage[cacheId].blocks ++ []) by
        simp [added, (List.getElem?_eq_some_iff.mp found).2])
    have moved : ((core.chainsStorage.set cacheId added ++ [child]).flatMap (·.blocks)).Perm
        (core.chainsStorage.flatMap (·.blocks) ++ [stored]) := by
      rw [List.append_nil, List.append_nil] at kept
      simpa [child] using kept.append_right [stored]
    refine nodup_hashes_of_perm moved inv.unique (fun b isNew => ?_) (by simp)
    rw [List.mem_singleton] at isNew
    exact isNew ▸ fresh

theorem splitSegment {id : Nat} {segment : Segment} (found : core.chainsStorage[id]? = some segment)
    {splitBlockIndex : Nat} (above : segment.startIndex < splitBlockIndex)
    (below : splitBlockIndex ≤ segment.getTopBlockIndex) {leaves : List Nat}
    (handedOver : (segment.children = [] ∧ ∃ k, core.chainsLeaves[k]? = some id ∧
        leaves = core.chainsLeaves.set k core.chainsStorage.length) ∨
      (segment.children ≠ [] ∧ leaves = core.chainsLeaves)) :
    ({ chainsStorage := fixChildrenParent (core.chainsStorage.set id
          { segment with blocks := segment.blocks.take (splitBlockIndex - segment.startIndex), children := [core.chainsStorage.length] })
          segment.children core.chainsStorage.length ++
        [{ kind := .memory, parent := some id, children := segment.children, startIndex := splitBlockIndex,
           blocks := segment.blocks.drop (splitBlockIndex - segment.startIndex) }]
       chainsLeaves := leaves } : Core).TreeInvariant := by
  have inside := (List.getElem?_eq_some_iff.mp found).1
  have sound := inv.segments id segment found
  let L := core.chainsStorage.length
  let n := splitBlockIndex - segment.startIndex
  let lower := { segment with blocks := segment.blocks.take n, children := [L] }
  let upper : Segment :=
    { kind := .memory, parent := some id, children := segment.children, startIndex := splitBlockIndex,
      blocks := segment.blocks.drop n }
  let reparent := fun (j : Nat) (s : Segment) => if j ∈ segment.children then { s with parent := some L } else s
  have counted : 0 < n ∧ n < segment.blocks.length := by
    simp only [Segment.getTopBlockIndex] at below
    omega
  -- the children of the segment point to it, and are neither the segment nor its parent
  have idNotChild := sound.not_mem_children found
  have parentNotChild : ∀ p, segment.parent = some p → p ∉ segment.children := by
    intro p linked listed
    obtain ⟨child, childAt, childLinked⟩ := sound.children_linked p listed
    have down := inv.parentOf_lowers (show core.parentOf id = some p by simp [parentOf, found, linked])
    have up := inv.parentOf_lowers (show core.parentOf p = some id by simp [parentOf, childAt, childLinked])
    omega
  -- where the segments are after the split
  have lengthSet : (fixChildrenParent (core.chainsStorage.set id lower) segment.children L).length = L := by
    rw [length_fixChildrenParent, List.length_set]
  have old : ∀ j, j < L → (fixChildrenParent (core.chainsStorage.set id lower) segment.children L ++ [upper])[j]? =
      if j = id then some lower else core.chainsStorage[j]?.map (reparent j) := by
    intro j inside'
    rw [List.getElem?_append_left (by omega), getElem?_fixChildrenParent, List.getElem?_set]
    by_cases same : j = id
    · subst same
      simp [inside, idNotChild]
    · simp [same, Ne.symm same, reparent]
  have new : (fixChildrenParent (core.chainsStorage.set id lower) segment.children L ++ [upper])[L]? = some upper := by
    rw [List.getElem?_append_right (le_of_eq lengthSet), lengthSet, Nat.sub_self]
    rfl
  have lookup : ∀ j s', (fixChildrenParent (core.chainsStorage.set id lower) segment.children L ++ [upper])[j]? = some s' →
      (j = L ∧ s' = upper) ∨ (j < L ∧ if j = id then s' = lower else ∃ s, core.chainsStorage[j]? = some s ∧ s' = reparent j s) := by
    intro j s' found'
    have bound := (List.getElem?_eq_some_iff.mp found').1
    rw [List.length_append, lengthSet, List.length_singleton] at bound
    by_cases inside' : j < L
    · rw [old j inside'] at found'
      refine .inr ⟨inside', ?_⟩
      split_ifs at found' ⊢
      · exact (Option.some.inj found').symm
      · obtain ⟨s, at_j, rfl⟩ := Option.map_eq_some_iff.mp found'
        exact ⟨s, at_j, rfl⟩
    · have top : j = L := by omega
      subst top
      rw [new, Option.some.injEq] at found'
      exact .inl ⟨rfl, found'.symm⟩
  -- the two parts of the segment meet where it was split
  have parts := List.isChain_append.mp ((List.take_append_drop n segment.blocks).symm ▸ sound.chained)
  have upperTop : upper.getTopBlockIndex = segment.getTopBlockIndex := by
    simp only [upper, Segment.getTopBlockIndex, List.length_drop]
    omega
  have upperLast : upper.blocks.getLast? = segment.blocks.getLast? := by
    simp only [upper, List.getLast?_drop]
    rw [if_neg (by omega)]
  refine ⟨fun j s' found' => ?_, ?_, ?_⟩
  · rcases lookup j s' found' with ⟨rfl, rfl⟩ | ⟨inside', lookedUp⟩
    · -- the upper part: a child of the lower part, and the parent of the segment's children
      refine ⟨rfl, fun empty => by simp [upper, List.drop_eq_nil_iff] at empty; omega, sound.chained.drop n,
        fun p linked => ?_, fun c listed => ?_⟩
      · simp only [upper, Option.some.injEq] at linked
        subst linked
        refine ⟨lower, by rw [old id inside, if_pos rfl], List.mem_singleton_self _, ?_, parts.2.2⟩
        simp only [lower, upper, Segment.getTopBlockIndex, List.length_take]
        omega
      · replace listed : c ∈ segment.children := listed
        obtain ⟨child, childAt, -⟩ := sound.children_linked c listed
        have below := (List.getElem?_eq_some_iff.mp childAt).1
        refine ⟨{ child with parent := some L }, ?_, rfl⟩
        rw [old c below, if_neg (fun (same : c = id) => idNotChild (same ▸ listed)), childAt]
        simp [reparent, listed]
    split_ifs at lookedUp with same
    · -- the lower part, where the segment was
      subst same lookedUp
      refine ⟨sound.memory, by simp [lower, List.take_eq_nil_iff, sound.filled]; omega, sound.chained.take n,
        fun p linked => ?_, fun c listed => ?_⟩
      · obtain ⟨parent, parentAt, listed, attached⟩ := sound.parent_linked p linked
        refine ⟨parent, ?_, listed, attached.of_child rfl ?_⟩
        · rw [old p (List.getElem?_eq_some_iff.mp parentAt).1, if_neg (sound.parent_ne found linked), parentAt]
          simp [reparent, parentNotChild p linked]
        · simp only [lower, List.head?_take]
          rw [if_neg (by omega)]
      · rw [List.mem_singleton] at listed
        subst listed
        exact ⟨upper, new, rfl⟩
    obtain ⟨s, at_j, rfl⟩ := lookedUp
    have soundJ := inv.segments j s at_j
    by_cases child : j ∈ segment.children
    · -- a child of the segment, now of the upper part
      obtain ⟨child', childAt, linked⟩ := sound.children_linked j child
      rw [at_j, Option.some.injEq] at childAt
      subst childAt
      simp only [reparent, if_pos child]
      refine ⟨soundJ.memory, soundJ.filled, soundJ.chained, fun p linked' => ?_, fun c listed => ?_⟩
      · simp only [Option.some.injEq] at linked'
        subst linked'
        obtain ⟨parent, parentAt, -, attached⟩ := soundJ.parent_linked id linked
        rw [found, Option.some.injEq] at parentAt
        subst parentAt
        exact ⟨upper, new, child, (attached.of_parent upperTop upperLast).of_child rfl rfl⟩
      · -- its children stay where they were: they are neither the segment nor its children
        obtain ⟨grandchild, grandchildAt, up⟩ := soundJ.children_linked c listed
        have notId : c ≠ id := by
          rintro rfl
          rw [found, Option.some.injEq] at grandchildAt
          subst grandchildAt
          exact parentNotChild j up child
        have notChild : c ∉ segment.children := by
          intro listed'
          obtain ⟨other, otherAt, otherUp⟩ := sound.children_linked c listed'
          rw [grandchildAt, Option.some.injEq] at otherAt
          subst otherAt
          rw [up, Option.some.injEq] at otherUp
          exact same otherUp
        refine ⟨grandchild, ?_, up⟩
        rw [old c (List.getElem?_eq_some_iff.mp grandchildAt).1, if_neg notId, grandchildAt]
        simp [reparent, notChild]
    · -- any other segment: its parent may be a re-pointed child, its children may be the lower part
      simp only [reparent, if_neg child]
      refine soundJ.transfer (fun p parent _ parentAt listed => ?_) fun c _ child' childAt linked => ?_
      · have notId : p ≠ id := by
          rintro rfl
          rw [found, Option.some.injEq] at parentAt
          subst parentAt
          exact child listed
        rw [old p (List.getElem?_eq_some_iff.mp parentAt).1, if_neg notId, parentAt]
        by_cases reparented : p ∈ segment.children
        · exact ⟨{ parent with parent := some L }, by simp [reparent, reparented], listed, rfl, rfl⟩
        · exact ⟨parent, by simp [reparent, reparented], listed, rfl, rfl⟩
      · rw [old c (List.getElem?_eq_some_iff.mp childAt).1]
        split_ifs with isId
        · subst isId
          rw [found, Option.some.injEq] at childAt
          subst childAt
          exact ⟨lower, rfl, linked⟩
        · have notChild : c ∉ segment.children := by
            intro listed'
            obtain ⟨other, otherAt, otherUp⟩ := sound.children_linked c listed'
            rw [childAt, Option.some.injEq] at otherAt
            subst otherAt
            rw [linked, Option.some.injEq] at otherUp
            exact same otherUp
          exact ⟨child', by simp [childAt, reparent, notChild], linked⟩
  · -- the leaves: the upper part takes the segment's place when it has no children
    have lengthNew : (fixChildrenParent (core.chainsStorage.set id lower) segment.children L ++ [upper]).length = L + 1 := by
      rw [List.length_append, lengthSet, List.length_singleton]
    have newNotLeaf : L ∉ core.chainsLeaves := fun listed => Nat.lt_irrefl _ (inv.leaves.bounded L listed)
    rcases handedOver with ⟨childless, k, at_k, rfl⟩ | ⟨forked, rfl⟩
    · refine LeavesExact.of_getElem? ?_ (inv.leaves.nodup.set newNotLeaf) ?_ fun i s' found' => ?_
      · rw [ne_eq, List.set_eq_nil_iff]
        exact inv.leaves.nonempty
      · intro leaf listed
        rw [lengthNew]
        rcases List.mem_or_eq_of_mem_set listed with listed | rfl
        · have := inv.leaves.bounded leaf listed
          omega
        · omega
      · rw [mem_set_iff_of_nodup inv.leaves.nodup at_k]
        rcases lookup i s' found' with ⟨rfl, rfl⟩ | ⟨inside', lookedUp⟩
        · simp [upper, childless, L]
        · have notNew : i ≠ core.chainsStorage.length := Nat.ne_of_lt inside'
          split_ifs at lookedUp with same
          · subst same lookedUp
            simp [lower, notNew]
          · obtain ⟨s, at_i, rfl⟩ := lookedUp
            simp only [reparent, childless, List.not_mem_nil, if_false]
            rw [← inv.leaves.mem_iff at_i]
            simp [notNew, same]
    · have notLeaf : id ∉ core.chainsLeaves := fun listed => forked ((inv.leaves.mem_iff found).mp listed)
      refine LeavesExact.of_getElem? inv.leaves.nonempty inv.leaves.nodup ?_ fun i s' found' => ?_
      · intro leaf listed
        have := inv.leaves.bounded leaf listed
        rw [lengthNew]
        omega
      · rcases lookup i s' found' with ⟨rfl, rfl⟩ | ⟨inside', lookedUp⟩
        · simp [upper, forked, newNotLeaf]
        · split_ifs at lookedUp with same
          · subst same lookedUp
            simp [lower, notLeaf]
          · obtain ⟨s, at_i, rfl⟩ := lookedUp
            rw [inv.leaves.mem_iff at_i]
            by_cases child : i ∈ segment.children <;> simp [reparent, child]
  · -- the blocks are where they were, split in two
    have moved := flatMap_blocks_split found n L splitBlockIndex
    rw [← List.append_nil (core.chainsStorage.flatMap _)] at moved
    exact nodup_hashes_of_perm moved inv.unique (by simp) (by simp)

/-! ## What `addBlock` does on the tree -/

theorem switchToAlternative_cases {cacheId main : Nat} (leaf : cacheId ∈ core.chainsLeaves)
    (isMain : core.chainsLeaves.head? = some main) (other : cacheId ≠ main) (checks : AddBlockChecks) :
    ∃ result leaves, core.switchToAlternative cacheId main checks = some (result, { core with chainsLeaves := leaves }) ∧
      (result = .ADDED_TO_ALTERNATIVE ∧ leaves = core.chainsLeaves ∨
        result = .ADDED_TO_ALTERNATIVE_AND_SWITCHED ∧ leaves.Perm core.chainsLeaves ∧ leaves.head? = some cacheId ∧
          ∃ cache mainSegment cacheLast mainLast, core.chainsStorage[cacheId]? = some cache ∧
            core.chainsStorage[main]? = some mainSegment ∧ cache.blocks.getLast? = some cacheLast ∧
            mainSegment.blocks.getLast? = some mainLast ∧ mainLast.cumulativeDifficulty < cacheLast.cumulativeDifficulty) := by
  obtain ⟨rest, listed⟩ := List.head?_eq_some_iff.mp isMain
  have mainLeaf : main ∈ core.chainsLeaves := by simp [listed]
  obtain ⟨cache, cacheAt⟩ : ∃ cache, core.chainsStorage[cacheId]? = some cache :=
    ⟨_, List.getElem?_eq_getElem (inv.leaves.bounded cacheId leaf)⟩
  obtain ⟨mainSegment, mainAt⟩ : ∃ segment, core.chainsStorage[main]? = some segment :=
    ⟨_, List.getElem?_eq_getElem (inv.leaves.bounded main mainLeaf)⟩
  have cacheSound := inv.segments cacheId cache cacheAt
  have mainSound := inv.segments main mainSegment mainAt
  obtain ⟨cacheTop, cacheLast⟩ := Option.ne_none_iff_exists'.mp (List.getLast?_eq_none_iff.not.mpr cacheSound.filled)
  obtain ⟨mainTop, mainLast⟩ := Option.ne_none_iff_exists'.mp (List.getLast?_eq_none_iff.not.mpr mainSound.filled)
  -- the leaf is not first, and its position is inside the storage
  obtain ⟨i, position, atI⟩ : ∃ i, core.chainsLeaves.idxOf cacheId = i + 1 ∧ rest[i]? = some cacheId := by
    have inRest : cacheId ∈ rest := by
      rw [listed] at leaf
      exact (List.mem_cons.mp leaf).resolve_left other
    refine ⟨rest.idxOf cacheId, by rw [listed, List.idxOf_cons_ne _ (Ne.symm other)], List.getElem?_idxOf inRest⟩
  have bounded : core.chainsLeaves.idxOf cacheId < core.chainsStorage.length :=
    (List.idxOf_lt_length_of_mem leaf).trans_le inv.leaves.length_le
  have swapped : ((core.chainsLeaves.set 0 cacheId).set (i + 1) main) = core.chainsLeaves.swap 0 (i + 1) := by
    simp [listed, atI]
  simp only [switchToAlternative, cacheAt, mainAt, core.getCurrentCumulativeDifficulty_of_filled cacheAt cacheSound.filled,
    core.getCurrentCumulativeDifficulty_of_filled mainAt mainSound.filled, cacheLast, mainLast, Option.map_some,
    Segment.getTransactionHashes, mainSound.memory, Option.bind_eq_bind, Option.bind_some]
  split_ifs with lighter
  · exact ⟨_, _, rfl, .inl ⟨rfl, rfl⟩⟩
  · exact ⟨_, _, rfl, .inl ⟨rfl, rfl⟩⟩
  · -- the leaf and the main leaf change places
    rw [position]
    have notLast : i + 1 ≠ core.chainsStorage.length := position ▸ Nat.ne_of_lt bounded
    have atLeaf : core.chainsLeaves[i + 1]? = some cacheId := by rw [listed]; exact atI
    have atMain : core.chainsLeaves[0]? = some main := by rw [listed]; rfl
    simp only [guard, notLast, atLeaf, atMain, ne_eq, not_false_eq_true, if_true, Nat.add_one_ne_zero]
    refine ⟨_, _, rfl, .inr ⟨rfl, swapped ▸ List.swap_perm _ _ _, by simp [listed], cache, mainSegment, cacheTop, mainTop,
      rfl, rfl, cacheLast, mainLast, UInt64.not_le.mp lighter⟩⟩

theorem splitAndFork_below {cacheId : Nat} {cache : Segment} (found : core.chainsStorage[cacheId]? = some cache)
    {position : Nat} (inside : position + 1 < cache.blocks.length) {parent : SegmentBlock}
    (parentAt : cache.blocks[position]? = some parent) (block : TreeBlock) :
    core.splitAndFork cacheId (cache.startIndex + position + 1) block =
      some ((core.splitAfter cacheId cache (position + 1)).forkedAt cacheId
        { cache with blocks := cache.blocks.take (position + 1), children := [core.chainsStorage.length] }
        (parent.stack block)) := by
  have sound := inv.segments cacheId cache found
  have stored := (List.getElem?_eq_some_iff.mp found).1
  have above : cache.startIndex < cache.startIndex + position + 1 := by omega
  have below : cache.startIndex + position + 1 ≤ cache.getTopBlockIndex := by
    simp only [Segment.getTopBlockIndex]
    omega
  have count : cache.startIndex + position + 1 - cache.startIndex = position + 1 := by omega
  let L := core.chainsStorage.length
  let lower := { cache with blocks := cache.blocks.take (position + 1), children := [L] }
  let upper : Segment :=
    { kind := .memory, parent := some cacheId, children := cache.children, startIndex := cache.startIndex + position + 1,
      blocks := cache.blocks.drop (position + 1) }
  let storage := fixChildrenParent (core.chainsStorage.set cacheId lower) cache.children L
  have splitted : split core.chainsStorage cacheId (cache.startIndex + position + 1) L = some (storage, upper) := by
    rw [split_memory found sound.memory above below, count]
  have lowerAt : storage[cacheId]? = some lower := by
    simp [storage, getElem?_fixChildrenParent, List.getElem?_set_self stored, sound.not_mem_children found]
  have upperFilled : upper.blocks ≠ [] := by
    simp only [upper, ne_eq, List.drop_eq_nil_iff]
    omega
  have lowerFilled : lower.blocks ≠ [] := by simp [lower, List.take_eq_nil_iff, sound.filled]
  -- the upper part takes the place of the segment among the leaves when it has no children
  have handedOver : (upper.children = [] ∧ ∃ k, core.chainsLeaves.idxOf? cacheId = some k ∧
      (core.splitAfter cacheId cache (position + 1)).chainsLeaves = core.chainsLeaves.set k L) ∨
      (upper.children ≠ [] ∧ (core.splitAfter cacheId cache (position + 1)).chainsLeaves = core.chainsLeaves) := by
    by_cases childless : cache.children = []
    · refine .inl ⟨childless, _, idxOf?_eq_some_idxOf ((inv.leaves.mem_iff found).mpr childless), ?_⟩
      simp [splitAfter, childless, L]
    · exact .inr ⟨childless, by simp [splitAfter, childless]⟩
  rw [core.splitAndFork_eq splitted upperFilled lowerAt lowerFilled handedOver block]
  -- then a new segment on the lower part, whose top block is the parent
  have lowerAt' : (core.splitAfter cacheId cache (position + 1)).chainsStorage[cacheId]? = some lower := by
    rw [splitAfter, List.getElem?_append_left (by rw [length_fixChildrenParent, List.length_set]; exact stored)]
    exact lowerAt
  have top : lower.getTopBlockIndex + 1 = cache.startIndex + position + 1 := by
    simp only [lower, Segment.getTopBlockIndex, List.length_take]
    omega
  have newId : (core.splitAfter cacheId cache (position + 1)).chainsStorage.length ∉ lower.children := by
    simp [splitAfter, lower, length_fixChildrenParent, L]
  have lastIs : lower.blocks.getLast? = some parent := by
    simp only [lower, List.getLast?_take]
    simp [List.getElem?_eq_getElem (show position < cache.blocks.length by omega), ← parentAt]
  have added := (core.splitAfter cacheId cache (position + 1)).addSegment_eq lowerAt' sound.memory newId lastIs block
  rw [top] at added
  simp only [splitAfter, upper, Nat.add_assoc] at added ⊢
  exact added

end TreeInvariant

/-- What a call of `addBlock` does to a tree, path by path: a known block and a
refused one leave it as it was, and a new block goes on the top of the main leaf;
on the top of another leaf, which becomes the main leaf when its top block is now
heavier than the main leaf's and the reorganisation is allowed; on a new segment
on the top of a segment with children; or on a new segment on a segment split
after the block's parent. -/
inductive AddBlockStep (core : Core) (block : TreeBlock) : AddBlockResult → Core → Prop
  | known : core.hasBlock block.blockHash = true → AddBlockStep core block .ALREADY_EXISTS core
  | refused {result : AddBlockResult} : core.hasBlock block.blockHash = false →
      result = .REJECTED_AS_ORPHANED ∨ result = .rejected → AddBlockStep core block result core
  | toMain {id : Nat} {segment : Segment} {last : SegmentBlock} : core.hasBlock block.blockHash = false →
      core.chainsStorage[id]? = some segment → segment.children = [] → core.chainsLeaves.head? = some id →
      segment.blocks.getLast? = some last → block.previousBlockHash = last.block.blockHash →
      AddBlockStep core block .ADDED_TO_MAIN (core.pushedOnto id segment (last.stack block))
  | toAlternative {id main : Nat} {segment : Segment} {last : SegmentBlock} {result : AddBlockResult}
      {leaves : List Nat} : core.hasBlock block.blockHash = false →
      core.chainsStorage[id]? = some segment → segment.children = [] → core.chainsLeaves.head? = some main →
      id ≠ main → segment.blocks.getLast? = some last → block.previousBlockHash = last.block.blockHash →
      (result = .ADDED_TO_ALTERNATIVE ∧ leaves = core.chainsLeaves ∨
        result = .ADDED_TO_ALTERNATIVE_AND_SWITCHED ∧ leaves.Perm core.chainsLeaves ∧ leaves.head? = some id ∧
          ∃ mainSegment mainLast, core.chainsStorage[main]? = some mainSegment ∧
            mainSegment.blocks.getLast? = some mainLast ∧
            mainLast.cumulativeDifficulty < (last.stack block).cumulativeDifficulty) →
      AddBlockStep core block result { core.pushedOnto id segment (last.stack block) with chainsLeaves := leaves }
  | fork {id : Nat} {segment : Segment} {last : SegmentBlock} : core.hasBlock block.blockHash = false →
      core.chainsStorage[id]? = some segment → segment.children ≠ [] →
      segment.blocks.getLast? = some last → block.previousBlockHash = last.block.blockHash →
      AddBlockStep core block .ADDED_TO_ALTERNATIVE (core.forkedAt id segment (last.stack block))
  | splitFork {id position : Nat} {segment : Segment} {parent : SegmentBlock} : core.hasBlock block.blockHash = false →
      core.chainsStorage[id]? = some segment → position + 1 < segment.blocks.length →
      segment.blocks[position]? = some parent → block.previousBlockHash = parent.block.blockHash →
      AddBlockStep core block .ADDED_TO_ALTERNATIVE
        ((core.splitAfter id segment (position + 1)).forkedAt id
          { segment with blocks := segment.blocks.take (position + 1), children := [core.chainsStorage.length] }
          (parent.stack block))

namespace TreeInvariant

variable (inv : core.TreeInvariant)
include inv

theorem addBlock_step (block : TreeBlock) (checks : AddBlockChecks) :
    ∃ result next, core.addBlock block checks = some (result, next) ∧ core.AddBlockStep block result next := by
  cases known : core.hasBlock block.blockHash
  case true => exact ⟨_, _, by simp [addBlock, known], .known known⟩
  cases parentFound : core.findSegmentContainingBlock block.previousBlockHash with
  | none => exact ⟨_, _, by simp [addBlock, known, parentFound], .refused known (.inl rfl)⟩
  | some cacheId =>
  obtain ⟨cache, cacheAt, hasPrevious⟩ := findSegmentContainingBlock_some parentFound
  obtain ⟨main, rest, listed⟩ := List.exists_cons_of_ne_nil inv.leaves.nonempty
  have isMain : core.chainsLeaves.head? = some main := by rw [listed]; rfl
  -- the parent block is the first block of the segment with its hash
  let position := cache.blocks.findIdx (·.block.blockHash == block.previousBlockHash)
  have inside : position < cache.blocks.length := List.findIdx_lt_length.mpr (List.any_eq_true.mp hasPrevious)
  have parentAt : cache.blocks[position]? = some cache.blocks[position] := List.getElem?_eq_getElem inside
  have follows : block.previousBlockHash = cache.blocks[position].block.blockHash := by
    have hit := @List.findIdx_getElem _ (·.block.blockHash == block.previousBlockHash) cache.blocks inside
    rw [beq_iff_eq] at hit
    exact hit.symm
  cases valid : checks.valid
  case false => exact ⟨_, _, by simp [addBlock, known, parentFound, cacheAt, listed, valid], .refused known (.inr rfl)⟩
  by_cases onTop : position + 1 = cache.blocks.length
  · -- the parent is the top block of its segment
    have topIndex : cache.getTopBlockIndex = cache.getBlockIndex block.previousBlockHash := by
      simp only [Segment.getTopBlockIndex, Segment.getBlockIndex]
      omega
    have top : cache.blocks.getLast? = some cache.blocks[position] := by
      rw [List.getLast?_eq_getElem?, show cache.blocks.length - 1 = position by omega]
      exact parentAt
    by_cases childless : cache.children = []
    · have pushed := core.pushBlock_of_getLast cacheAt top block
      by_cases onMain : cacheId = main
      · subst onMain
        exact ⟨_, _, by simp [addBlock, known, parentFound, cacheAt, listed, valid, topIndex, Segment.getChildCount,
          childless, pushed], .toMain known cacheAt childless isMain top follows⟩
      cases allowed : checks.alternativeAllowed
      case false => exact ⟨_, _, by simp [addBlock, known, parentFound, cacheAt, listed, valid, topIndex,
          Segment.getChildCount, childless, onMain, allowed], .refused known (.inl rfl)⟩
      -- an alternative leaf grows, and may become the main one
      have kept : (core.pushedOnto cacheId cache (cache.blocks[position].stack block)).TreeInvariant :=
        inv.pushLeaf cacheAt childless (SegmentBlock.follows_getLast top follows) (inv.not_mem_storedHashes known)
      obtain ⟨result, leaves, switched, outcome⟩ :=
        kept.switchToAlternative_cases ((inv.leaves.mem_iff cacheAt).mpr childless) isMain onMain checks
      refine ⟨result, { core.pushedOnto cacheId cache (cache.blocks[position].stack block) with chainsLeaves := leaves },
        by simp [addBlock, known, parentFound, cacheAt, listed, valid, topIndex, Segment.getChildCount, childless, onMain,
          allowed, pushed, switched], .toAlternative known cacheAt childless isMain onMain top follows ?_⟩
      rcases outcome with stays | ⟨switchedResult, reordered, first, cache', mainSegment, cacheLast, mainLast, cacheAt',
        mainAt, cacheTop, mainTop, heavier⟩
      · exact .inl stays
      · -- the leaf's top block is the one just pushed, and the main leaf is as it was
        have inside' := (List.getElem?_eq_some_iff.mp cacheAt).1
        rw [pushedOnto, List.getElem?_set_self inside', Option.some.injEq] at cacheAt'
        simp only [pushedOnto, List.getElem?_set_ne onMain] at mainAt
        rw [← cacheAt', List.getLast?_concat, Option.some.injEq] at cacheTop
        exact .inr ⟨switchedResult, reordered, first, mainSegment, mainLast, mainAt, mainTop, cacheTop ▸ heavier⟩
    · have newId : core.chainsStorage.length ∉ cache.children := fun listed => by
        obtain ⟨child, childAt, -⟩ := (inv.segments cacheId cache cacheAt).children_linked _ listed
        exact Nat.lt_irrefl _ (List.getElem?_eq_some_iff.mp childAt).1
      have added := core.addSegment_eq cacheAt (inv.segments cacheId cache cacheAt).memory newId top block
      rw [topIndex] at added
      exact ⟨_, _, by simp [addBlock, known, parentFound, cacheAt, listed, valid, topIndex, Segment.getChildCount,
        childless, added], .fork known cacheAt childless top follows⟩
  · -- the parent is below the top: the segment is split
    have belowTop : cache.getTopBlockIndex ≠ cache.getBlockIndex block.previousBlockHash := by
      simp only [Segment.getTopBlockIndex, Segment.getBlockIndex]
      omega
    cases allowed : checks.alternativeAllowed
    case false => exact ⟨_, _, by simp [addBlock, known, parentFound, cacheAt, listed, valid, belowTop, allowed],
      .refused known (.inl rfl)⟩
    have splitted := inv.splitAndFork_below cacheAt (by omega) parentAt block
    rw [show cache.startIndex + position + 1 = cache.getBlockIndex block.previousBlockHash + 1 from rfl] at splitted
    exact ⟨_, _, by simp [addBlock, known, parentFound, cacheAt, listed, valid, belowTop, allowed, splitted],
      .splitFork known cacheAt (by omega) parentAt follows⟩

theorem splitAfter_treeInvariant {id : Nat} {segment : Segment} (found : core.chainsStorage[id]? = some segment)
    {n : Nat} (above : 0 < n) (below : n < segment.blocks.length) : (core.splitAfter id segment n).TreeInvariant := by
  have handedOver : (segment.children = [] ∧ ∃ k, core.chainsLeaves[k]? = some id ∧
        (core.splitAfter id segment n).chainsLeaves = core.chainsLeaves.set k core.chainsStorage.length) ∨
      (segment.children ≠ [] ∧ (core.splitAfter id segment n).chainsLeaves = core.chainsLeaves) := by
    by_cases childless : segment.children = []
    · have leaf := (inv.leaves.mem_iff found).mpr childless
      exact .inl ⟨childless, _, List.getElem?_idxOf leaf, by simp [splitAfter, childless]⟩
    · exact .inr ⟨childless, by simp [splitAfter, childless]⟩
  have kept := inv.splitSegment found (show segment.startIndex < segment.startIndex + n by omega)
    (by simp only [Segment.getTopBlockIndex]; omega) handedOver
  simpa [splitAfter, Nat.add_sub_cancel_left] using kept

theorem addBlockStep {block : TreeBlock} {result : AddBlockResult} {next : Core}
    (step : core.AddBlockStep block result next) : next.TreeInvariant := by
  cases step with
  | known => exact inv
  | refused => exact inv
  | toMain fresh found leaf _ top follows =>
    exact inv.pushLeaf found leaf (SegmentBlock.follows_getLast top follows) (inv.not_mem_storedHashes fresh)
  | toAlternative fresh found leaf _ _ top follows outcome =>
    have kept := inv.pushLeaf found leaf (SegmentBlock.follows_getLast top follows) (inv.not_mem_storedHashes fresh)
    rcases outcome with ⟨_, rfl⟩ | ⟨_, reordered, _⟩
    · exact kept.withLeaves (List.Perm.refl _)
    · exact kept.withLeaves reordered
  | fork fresh found forked top follows =>
    exact inv.addChildSegment found forked (SegmentBlock.follows_getLast top follows) (inv.not_mem_storedHashes fresh)
  | @splitFork id position segment parent fresh found inside parentAt follows =>
    have split := inv.splitAfter_treeInvariant found (Nat.succ_pos position) inside
    have lowerAt := core.getElem?_splitAfter_self found ((inv.segments id segment found).not_mem_children found) (position + 1)
    have lastIs : (segment.blocks.take (position + 1)).getLast? = some parent := by
      rw [List.getLast?_take]
      simp [List.getElem?_eq_getElem (show position < segment.blocks.length by omega), ← parentAt]
    have fresh' : (parent.stack block).block.blockHash ∉ (core.splitAfter id segment (position + 1)).storedHashes :=
      fun mem => inv.not_mem_storedHashes fresh
        ((core.storedHashes_splitAfter found (position + 1)).mem_iff.mp mem)
    exact split.addChildSegment lowerAt (by simp) (SegmentBlock.follows_getLast lastIs follows) fresh'

theorem addBlock_keeps (block : TreeBlock) (checks : AddBlockChecks) :
    ∃ result next, core.addBlock block checks = some (result, next) ∧ next.TreeInvariant := by
  obtain ⟨result, next, added, step⟩ := inv.addBlock_step block checks
  exact ⟨result, next, added, inv.addBlockStep step⟩

theorem wellFormed : core.WellFormed where
  leaves := inv.leaves
  linked i inside := by
    intro p linked
    obtain ⟨parent, parentAt, listed, attached⟩ := (inv.segments i _ (List.getElem?_eq_getElem inside)).parent_linked p linked
    have filled := (inv.segments p parent parentAt).filled
    refine ⟨parent, parentAt, listed, attached.1, fun first firstIn => ?_⟩
    -- the block below the start is the parent's top block
    obtain ⟨last, top⟩ := Option.ne_none_iff_exists'.mp (List.getLast?_eq_none_iff.not.mpr filled)
    rw [attached.1, Nat.add_sub_cancel, getBlockHash, core.blockAt_top parentAt filled, top, Option.map_some]
    exact congrArg some (attached.2 last top first firstIn).1.symm
  unique := inv.unique

end TreeInvariant

theorem initRootSegment_treeInvariant (genesis : TreeBlock) : (initRootSegment .memory genesis).TreeInvariant where
  segments i segment found := by
    cases i with
    | succ i => simp [initRootSegment] at found
    | zero =>
      simp only [initRootSegment, List.getElem?_cons_zero, Option.some.injEq] at found
      subst found
      exact ⟨rfl, by simp, List.isChain_singleton _, fun _ none => (nomatch none), fun _ none => (nomatch none)⟩
  leaves := LeavesExact.of_getElem? (by simp [initRootSegment]) (by simp [initRootSegment])
    (by simp [initRootSegment]) fun i segment found => by
      cases i with
      | succ i => simp [initRootSegment] at found
      | zero =>
        simp only [initRootSegment, List.getElem?_cons_zero, Option.some.injEq] at found
        simp [initRootSegment, ← found]
  unique := by simp [storedHashes, initRootSegment]

theorem Reachable.treeInvariant {genesis : TreeBlock} {core : Core} (reached : Reachable .memory genesis core) :
    core.TreeInvariant := by
  induction reached with
  | init => exact initRootSegment_treeInvariant genesis
  | addBlock _ added holds =>
    obtain ⟨result, next, added', kept⟩ := holds.addBlock_keeps _ _
    rw [added, Option.some.injEq, Prod.mk.injEq] at added'
    exact added'.2 ▸ kept

end Core

/-! ## The tree from an in-memory root -/

/-- From an in-memory root, every call of `addBlock` returns: no `assert` of it fails. -/
theorem memoryRoot_addBlock_isSome {genesis : TreeBlock} {core : Core} (reached : Core.Reachable .memory genesis core)
    (block : TreeBlock) (checks : AddBlockChecks) : (core.addBlock block checks).isSome := by
  obtain ⟨result, next, added, -⟩ := reached.treeInvariant.addBlock_keeps block checks
  rw [added]
  rfl

/-- The fork below the top of the root that aborts on a database root returns on an in-memory one. -/
theorem memoryRoot_secondFork_returns :
    ∃ core, Core.Reachable .memory forkGenesis core ∧ (core.addBlock (forkBlock 21 1 []) passing).isSome :=
  have reached := @Core.Reachable.addBlocks .memory forkGenesis firstRootFork _ _ .init rfl
  ⟨_, reached, memoryRoot_addBlock_isSome reached _ _⟩

/-- From an in-memory root, every tree `addBlock` reaches is `WellFormed`. -/
theorem memoryRoot_wellFormed {genesis : TreeBlock} {core : Core} (reached : Core.Reachable .memory genesis core) :
    core.WellFormed :=
  reached.treeInvariant.wellFormed

theorem memoryRoot_splitMainChain_wellFormed :
    ∃ core, Core.Reachable .memory forkGenesis core ∧ core.WellFormed :=
  have reached := @Core.Reachable.addBlocks .memory forkGenesis splitMainChain _ _ .init rfl
  ⟨_, reached, memoryRoot_wellFormed reached⟩

end CryptoNote
