import CryptoNote.Crypto.Types

/-!
# The segment tree of `Core`

`Core` (`CryptoNoteCore/Core.cpp`) keeps the block tree as segments of
consecutive blocks: `chainsStorage` owns them, each segment points to its parent
and to its children, and `chainsLeaves` lists the segments without children, the
main chain's first.  `Core::addBlock` puts a block on a leaf, starts a segment on
a segment that has children, or splits a segment below its top and starts a
segment at the split.  The root is a `DatabaseBlockchainCache` when the
production factory makes it, and every other segment is a `BlockchainCache`; the
two `split`s treat the children of the segment they split differently.

A segment is its position in `chainsStorage`, as its pointer is in the source.
A segment keeps of its blocks what the tree and the reorganisation guard read:
the hashes, the transactions and the cumulative difficulty, a `uint64_t` sum
that wraps as the source's does.  What `addBlock`
checks of a block besides the tree (the block and its transactions, proof of
work, checkpoints, the Poisson test of the timestamps) is given with the call as
its outcome, `AddBlockChecks`.  A walk up the parents takes at most as many steps
as there are segments.  An `assert` that fails, or an access out of range that the
asserts let through, ends the call with `none`.
-/

set_option autoImplicit false

namespace CryptoNote

open Crypto

/-- Which `IBlockchainCache` a segment is. -/
inductive SegmentKind
  | database
  | memory
  deriving DecidableEq, Repr

/-- A block as `addBlock` adds it: its hash, its parent's hash, the hashes of its
transactions, the coinbase first, and the difficulty `getDifficultyForNextBlock`
gives it. -/
structure TreeBlock where
  blockHash : Hash
  previousBlockHash : Hash
  transactionHashes : List Hash
  difficulty : UInt64
  deriving DecidableEq, Repr

/-- A block stored in a segment, with its `cumulativeDifficulty`. -/
structure SegmentBlock where
  block : TreeBlock
  cumulativeDifficulty : UInt64
  deriving DecidableEq, Repr

structure Segment where
  kind : SegmentKind
  parent : Option Nat
  children : List Nat
  startIndex : Nat
  blocks : List SegmentBlock
  deriving DecidableEq, Repr

namespace Segment

variable (segment : Segment)

def getBlockCount : Nat := segment.blocks.length

def getTopBlockIndex : Nat := segment.startIndex + segment.blocks.length - 1

def getChildCount : Nat := segment.children.length

def hasBlock (blockHash : Hash) : Bool := segment.blocks.any (·.block.blockHash == blockHash)

def getBlockIndex (blockHash : Hash) : Nat :=
  segment.startIndex + segment.blocks.findIdx (·.block.blockHash == blockHash)

def hasTransaction (transactionHash : Hash) : Bool :=
  segment.blocks.any (transactionHash ∈ ·.block.transactionHashes)

/-- `getTransactionHashes(startIndex, endIndex)`: the transactions but the
coinbase of the segment's own blocks from `startIndex` to `endIndex`; the
database root's is an `assert(false)`. -/
def getTransactionHashes (startIndex endIndex : Nat) : Option (List Hash) :=
  match segment.kind with
  | .database => none
  | .memory => some ((segment.blocks.zipIdx segment.startIndex).flatMap fun (stored, blockIndex) =>
      if startIndex ≤ blockIndex ∧ blockIndex ≤ endIndex then stored.block.transactionHashes.drop 1 else [])

end Segment

/-- `addChild` of `child` to the segment `id`: `BlockchainCache` asserts that the
child is new, `DatabaseBlockchainCache` adds it only when it is new. -/
def addChild (storage : List Segment) (id child : Nat) : Option (List Segment) := do
  let segment ← storage[id]?
  match segment.kind with
  | .memory =>
    guard (child ∉ segment.children)
    pure (storage.set id { segment with children := segment.children ++ [child] })
  | .database =>
    pure (storage.set id
      { segment with children := if child ∈ segment.children then segment.children else segment.children ++ [child] })

/-- `fixChildrenParent(p)`: every one of `children` gets the parent `p`. -/
def fixChildrenParent (storage : List Segment) (children : List Nat) (p : Nat) : List Segment :=
  children.foldl (fun storage child => storage.modify child fun segment => { segment with parent := some p }) storage

/-- `split(splitBlockIndex)` of the segment `id`, whose upper part becomes the
segment `upperId`: the storage with the lower part in place of `id`, and the
upper segment.  `BlockchainCache::split` hands the children of `id` over to the
upper segment; `DatabaseBlockchainCache::split` keeps them and adds the upper
segment to them. -/
def split (storage : List Segment) (id splitBlockIndex upperId : Nat) : Option (List Segment × Segment) := do
  let segment ← storage[id]?
  let lowerCount := splitBlockIndex - segment.startIndex
  match segment.kind with
  | .memory =>
    guard (segment.startIndex < splitBlockIndex ∧ splitBlockIndex ≤ segment.getTopBlockIndex)
    let upper : Segment :=
      { kind := .memory, parent := some id, children := segment.children, startIndex := splitBlockIndex,
        blocks := segment.blocks.drop lowerCount }
    let storage := storage.set id { segment with blocks := segment.blocks.take lowerCount, children := [upperId] }
    pure (fixChildrenParent storage segment.children upperId, upper)
  | .database =>
    guard (splitBlockIndex ≤ segment.getTopBlockIndex)
    let upper : Segment :=
      { kind := .memory, parent := some id, children := [], startIndex := splitBlockIndex,
        blocks := segment.blocks.drop lowerCount }
    let lower := { segment with blocks := segment.blocks.take lowerCount, children := segment.children ++ [upperId] }
    pure (storage.set id lower, upper)

def POISSON_CHECK_TRIGGER : Nat := 10

/-- What `addBlock` finds out of a block besides the tree: whether it passes
every check made before the tree changes, whether `isAlternativeBlockAllowed`
lets it onto an alternative chain, and whether the Poisson test of the
timestamps passes when a reorganisation is long enough to run it. -/
structure AddBlockChecks where
  valid : Bool
  alternativeAllowed : Bool
  poissonPassed : Bool
  deriving DecidableEq, Repr

/-- What `addBlock` returns: an `AddBlockErrorCode`, or `rejected` for a failed
check of the block or its transactions. -/
inductive AddBlockResult
  | ADDED_TO_MAIN
  | ADDED_TO_ALTERNATIVE
  | ADDED_TO_ALTERNATIVE_AND_SWITCHED
  | ALREADY_EXISTS
  | REJECTED_AS_ORPHANED
  | rejected
  deriving DecidableEq, Repr

structure Core where
  chainsStorage : List Segment
  chainsLeaves : List Nat
  deriving DecidableEq, Repr

namespace Core

variable (core : Core)

/-- `initRootSegment`: the root segment, with the genesis block, is the only leaf. -/
def initRootSegment (kind : SegmentKind) (genesis : TreeBlock) : Core where
  chainsStorage :=
    [{ kind, parent := none, children := [], startIndex := 0,
       blocks := [{ block := genesis, cumulativeDifficulty := genesis.difficulty }] }]
  chainsLeaves := [0]

/-- The segment `id` and its ancestors, nearest first, for at most `fuel` segments. -/
def chainFrom : Nat → Nat → List Nat
  | 0, _ => []
  | fuel + 1, id => id :: match core.chainsStorage[id]?.bind (·.parent) with
    | some parent => chainFrom fuel parent
    | none => []

def chain (id : Nat) : List Nat := core.chainFrom core.chainsStorage.length id

/-- `findIndexInChain(segment, blockHash)`: the first segment of the chain that
has the block. -/
def findIndexInChain (id : Nat) (blockHash : Hash) : Option Nat :=
  (core.chain id).find? fun j => (core.chainsStorage[j]?.map (·.hasBlock blockHash)).getD false

/-- `findSegmentContainingBlock(blockHash)`: the main chain first, then the
chains of the other leaves in order. -/
def findSegmentContainingBlock (blockHash : Hash) : Option Nat :=
  match core.chainsLeaves with
  | [] => none
  | main :: alternatives =>
    match core.findIndexInChain main blockHash with
    | some id => some id
    | none => alternatives.findSome? (core.findIndexInChain · blockHash)

def hasBlock (blockHash : Hash) : Bool := (core.findSegmentContainingBlock blockHash).isSome

/-- The block at `blockIndex` in the chain of the segment `id`, read from the
first segment of the chain that starts at or below it. -/
def blockAt (id blockIndex : Nat) : Option SegmentBlock := do
  let j ← (core.chain id).find? fun j => (core.chainsStorage[j]?.map (decide <| ·.startIndex ≤ blockIndex)).getD false
  let segment ← core.chainsStorage[j]?
  segment.blocks[blockIndex - segment.startIndex]?

/-- `getBlockHash(blockIndex)` of the segment `id`. -/
def getBlockHash (id blockIndex : Nat) : Option Hash := (core.blockAt id blockIndex).map (·.block.blockHash)

/-- `getCurrentCumulativeDifficulty()` of the segment `id`: the one of its top
block, or of its parent's when it has no block. -/
def getCurrentCumulativeDifficulty (id : Nat) : Option UInt64 := do
  let segment ← core.chainsStorage[id]?
  (core.blockAt id (segment.startIndex + segment.blocks.length - 1)).map (·.cumulativeDifficulty)

/-- `pushBlock` of `block` onto the segment `id`: it is stored with its
cumulative difficulty, the one of the block below it plus its own. -/
def pushBlock (id : Nat) (block : TreeBlock) : Option Core := do
  let segment ← core.chainsStorage[id]?
  let below ← match segment.blocks.getLast?, segment.parent with
    | some last, _ => some last.cumulativeDifficulty
    | none, some parent => (core.blockAt parent (segment.startIndex - 1)).map (·.cumulativeDifficulty)
    | none, none => some 0
  let pushed := { segment with blocks := segment.blocks ++ [{ block, cumulativeDifficulty := below + block.difficulty }] }
  pure { core with chainsStorage := core.chainsStorage.set id pushed }

/-- A new segment on the segment `cacheId` from `startIndex`, with `block` as its
first block: it becomes the last leaf. -/
def addSegment (cacheId startIndex : Nat) (block : TreeBlock) : Option Core := do
  let newId := core.chainsStorage.length
  let storage ← addChild core.chainsStorage cacheId newId
  let forked : Core :=
    { chainsStorage := storage ++ [{ kind := .memory, parent := some cacheId, children := [], startIndex, blocks := [] }]
      chainsLeaves := core.chainsLeaves ++ [newId] }
  forked.pushBlock newId block

/-- The end of `addBlock` for a block put on the alternative leaf `cacheId`: when
that chain is now heavier than the main one, the transactions of the main
leaf's blocks at the heights of the alternative leaf must all be in the
alternative leaf, and a long reorganisation must pass the Poisson test; then the
alternative leaf and the main one change places. -/
def switchToAlternative (cacheId mainChainCache : Nat) (checks : AddBlockChecks) :
    Option (AddBlockResult × Core) := do
  let cache ← core.chainsStorage[cacheId]?
  let main ← core.chainsStorage[mainChainCache]?
  let cacheDifficulty ← core.getCurrentCumulativeDifficulty cacheId
  let mainDifficulty ← core.getCurrentCumulativeDifficulty mainChainCache
  if cacheDifficulty ≤ mainDifficulty then return (.ADDED_TO_ALTERNATIVE, core)
  let reorgSize := cache.getTopBlockIndex - cache.startIndex + 1
  let mainChainTxHashes ← main.getTransactionHashes cache.startIndex cache.getTopBlockIndex
  let allowReorg := mainChainTxHashes.all cache.hasTransaction &&
    (reorgSize < POISSON_CHECK_TRIGGER || checks.poissonPassed)
  if !allowReorg then return (.ADDED_TO_ALTERNATIVE, core)
  let endpointIndex := core.chainsLeaves.idxOf cacheId
  guard (endpointIndex ≠ core.chainsStorage.length)
  guard (endpointIndex ≠ 0)
  let alternative ← core.chainsLeaves[endpointIndex]?
  let mainLeaf ← core.chainsLeaves[0]?
  pure (.ADDED_TO_ALTERNATIVE_AND_SWITCHED,
    { core with chainsLeaves := (core.chainsLeaves.set 0 alternative).set endpointIndex mainLeaf })

/-- The split path of `addBlock`: the segment `cacheId` is split at
`splitBlockIndex`, its upper part replaces it among the leaves when the upper
part has no children, and a new segment on the lower part takes `block`. -/
def splitAndFork (cacheId splitBlockIndex : Nat) (block : TreeBlock) : Option Core := do
  let upperId := core.chainsStorage.length
  let (storage, upper) ← split core.chainsStorage cacheId splitBlockIndex upperId
  guard (upper.getBlockCount > 0)
  let lower ← storage[cacheId]?
  guard (lower.getBlockCount > 0)
  let leaves ← if upper.getChildCount = 0 then do
      let found ← core.chainsLeaves.idxOf? cacheId
      pure (core.chainsLeaves.set found upperId)
    else pure core.chainsLeaves
  let splitCore : Core := { chainsStorage := storage ++ [upper], chainsLeaves := leaves }
  splitCore.addSegment cacheId splitBlockIndex block

/-- `Core::addBlock`, on the tree. -/
def addBlock (block : TreeBlock) (checks : AddBlockChecks) : Option (AddBlockResult × Core) := do
  if core.hasBlock block.blockHash then return (.ALREADY_EXISTS, core)
  let some cacheId := core.findSegmentContainingBlock block.previousBlockHash
    | return (.REJECTED_AS_ORPHANED, core)
  let cache ← core.chainsStorage[cacheId]?
  let previousBlockIndex := cache.getBlockIndex block.previousBlockHash
  let mainChainCache ← core.chainsLeaves.head?
  let addOnTop := cache.getTopBlockIndex = previousBlockIndex
  if !checks.valid then return (.rejected, core)
  if addOnTop then
    if cache.getChildCount = 0 then
      if cacheId = mainChainCache then
        return (.ADDED_TO_MAIN, ← core.pushBlock cacheId block)
      if !checks.alternativeAllowed then return (.REJECTED_AS_ORPHANED, core)
      let pushed ← core.pushBlock cacheId block
      pushed.switchToAlternative cacheId mainChainCache checks
    else
      -- a second block on the top of a segment that has children
      return (.ADDED_TO_ALTERNATIVE, ← core.addSegment cacheId (previousBlockIndex + 1) block)
  else
    if !checks.alternativeAllowed then return (.REJECTED_AS_ORPHANED, core)
    return (.ADDED_TO_ALTERNATIVE, ← core.splitAndFork cacheId (previousBlockIndex + 1) block)

/-- `addBlock` called with each block and its checks in turn, as long as the calls return. -/
def addBlocks : Core → List (TreeBlock × AddBlockChecks) → Option Core
  | core, [] => some core
  | core, (block, checks) :: calls => do
    let (_, next) ← core.addBlock block checks
    addBlocks next calls

/-- The blocks of the chain that ends at the segment `id`, by height, as
`getBlockHash` reads them. -/
def chainBlocks (id : Nat) : List SegmentBlock :=
  match core.chainsStorage[id]? with
  | none => []
  | some segment => (List.range (segment.startIndex + segment.blocks.length)).filterMap (core.blockAt id)

/-- The blocks of the main chain, the one of `chainsLeaves[0]`. -/
def mainChainBlocks : List SegmentBlock :=
  match core.chainsLeaves.head? with
  | none => []
  | some main => core.chainBlocks main

def mainChainTransactions : List Hash := core.mainChainBlocks.flatMap (·.block.transactionHashes.drop 1)

/-! ## The shape of the tree -/

/-- `chainsLeaves` lists, once each, the segments without children, and is not empty. -/
structure LeavesExact : Prop where
  nonempty : core.chainsLeaves ≠ []
  nodup : core.chainsLeaves.Nodup
  bounded : ∀ leaf ∈ core.chainsLeaves, leaf < core.chainsStorage.length
  leaf_iff : ∀ i (inside : i < core.chainsStorage.length), i ∈ core.chainsLeaves ↔ core.chainsStorage[i].children = []

instance : Decidable core.LeavesExact :=
  decidable_of_iff (core.chainsLeaves ≠ [] ∧ core.chainsLeaves.Nodup ∧
      (∀ leaf ∈ core.chainsLeaves, leaf < core.chainsStorage.length) ∧
      ∀ i (inside : i < core.chainsStorage.length), i ∈ core.chainsLeaves ↔ core.chainsStorage[i].children = [])
    ⟨fun ⟨a, b, c, d⟩ => ⟨a, b, c, d⟩, fun ⟨a, b, c, d⟩ => ⟨a, b, c, d⟩⟩

/-- The segment `i` is among its parent's children, starts just above its
parent's top, and its first block follows the block of its parent's chain below it. -/
def LinkedToParent (i : Nat) (segment : Segment) : Prop :=
  ∀ p ∈ segment.parent, ∃ parent ∈ core.chainsStorage[p]?,
    i ∈ parent.children ∧ segment.startIndex = parent.getTopBlockIndex + 1 ∧
      ∀ first ∈ segment.blocks.head?, core.getBlockHash p (segment.startIndex - 1) = some first.block.previousBlockHash

instance (i : Nat) (segment : Segment) : Decidable (core.LinkedToParent i segment) := by
  unfold LinkedToParent
  infer_instance

def storedHashes : List Hash := (core.chainsStorage.flatMap (·.blocks)).map (·.block.blockHash)

/-- The tree `addBlock` should keep: the leaves are listed exactly, every segment
is linked to its parent, and no block is stored twice. -/
structure WellFormed : Prop where
  leaves : core.LeavesExact
  linked : ∀ i (inside : i < core.chainsStorage.length), core.LinkedToParent i core.chainsStorage[i]
  unique : core.storedHashes.Nodup

instance : Decidable core.WellFormed :=
  decidable_of_iff (core.LeavesExact ∧
      (∀ i (inside : i < core.chainsStorage.length), core.LinkedToParent i core.chainsStorage[i]) ∧
      core.storedHashes.Nodup)
    ⟨fun ⟨a, b, c⟩ => ⟨a, b, c⟩, fun ⟨a, b, c⟩ => ⟨a, b, c⟩⟩

/-- The trees `Core` reaches from `initRootSegment` by calls of `addBlock` that return. -/
inductive Reachable (kind : SegmentKind) (genesis : TreeBlock) : Core → Prop
  | init : Reachable kind genesis (Core.initRootSegment kind genesis)
  | addBlock {core next : Core} {block : TreeBlock} {checks : AddBlockChecks} {result : AddBlockResult} :
      Reachable kind genesis core → core.addBlock block checks = some (result, next) → Reachable kind genesis next

theorem Reachable.addBlocks {kind : SegmentKind} {genesis : TreeBlock} :
    ∀ (calls : List (TreeBlock × AddBlockChecks)) {core next : Core},
      Reachable kind genesis core → core.addBlocks calls = some next → Reachable kind genesis next
  | [], _, _, reached, ran => by
    cases ran
    exact reached
  | (block, checks) :: calls, core, next, reached, ran => by
    simp only [Core.addBlocks, Option.bind_eq_bind, Option.bind_eq_some_iff] at ran
    obtain ⟨⟨result, middle⟩, added, rest⟩ := ran
    exact Reachable.addBlocks calls (reached.addBlock added) rest

end Core

/-! ## Splitting the database root -/

theorem split_database_children {storage : List Segment} {id splitBlockIndex upperId : Nat} {segment : Segment}
    (found : storage[id]? = some segment) (database : segment.kind = .database)
    {result : List Segment × Segment} (splitted : split storage id splitBlockIndex upperId = some result) :
    result.2.children = [] ∧ ∃ lower, result.1[id]? = some lower ∧ lower.children = segment.children ++ [upperId] := by
  simp only [split, found, Option.bind_eq_bind, Option.bind_some, database] at splitted
  obtain ⟨_, _, made⟩ := Option.bind_eq_some_iff.mp splitted
  obtain rfl := Option.some.inj made
  have inside : id < storage.length := (List.getElem?_eq_some_iff.mp found).1
  exact ⟨rfl, _, List.getElem?_set_self inside, rfl⟩

theorem splitAndFork_database {core : Core} (leaves : core.LeavesExact) {cacheId : Nat} {cache : Segment}
    (found : core.chainsStorage[cacheId]? = some cache) (database : cache.kind = .database)
    (forked : cache.children ≠ []) (splitBlockIndex : Nat) (block : TreeBlock) :
    core.splitAndFork cacheId splitBlockIndex block = none := by
  have notLeaf : cacheId ∉ core.chainsLeaves := by
    obtain ⟨inside, rfl⟩ := List.getElem?_eq_some_iff.mp found
    rw [leaves.leaf_iff cacheId inside]
    exact forked
  have lookup : core.chainsLeaves.idxOf? cacheId = none := List.idxOf?_eq_none_iff.mpr notLeaf
  simp only [Core.splitAndFork]
  cases splitted : split core.chainsStorage cacheId splitBlockIndex core.chainsStorage.length with
  | none => simp
  | some result =>
    -- the upper part has no children, so the root must be found among the leaves
    obtain ⟨storage, upper⟩ := result
    have childless : upper.children = [] := (split_database_children found database splitted).1
    simp [childless, Segment.getChildCount, lookup]

theorem addBlock_forkBelowDatabaseRoot {core : Core} (leaves : core.LeavesExact) {cacheId : Nat}
    {cache : Segment} (found : core.chainsStorage[cacheId]? = some cache) (database : cache.kind = .database)
    (forked : cache.children ≠ []) {block : TreeBlock} (fresh : core.hasBlock block.blockHash = false)
    (parentFound : core.findSegmentContainingBlock block.previousBlockHash = some cacheId)
    (belowTop : cache.getBlockIndex block.previousBlockHash ≠ cache.getTopBlockIndex)
    {checks : AddBlockChecks} (valid : checks.valid = true) (allowed : checks.alternativeAllowed = true) :
    core.addBlock block checks = none := by
  obtain ⟨main, alternatives, listed⟩ := List.exists_cons_of_ne_nil leaves.nonempty
  simp [Core.addBlock, fresh, parentFound, found, listed, valid, allowed, Ne.symm belowTop,
    splitAndFork_database leaves found database forked]

/-- A block for the runs below: the hash `hash`, the parent `previous`, a coinbase
and the other `transactions`, difficulty 1. -/
def forkBlock (hash previous : UInt8) (transactions : List UInt8) : TreeBlock where
  blockHash := Hash.ofByte hash
  previousBlockHash := Hash.ofByte previous
  transactionHashes := Hash.ofByte (hash + 100) :: transactions.map Hash.ofByte
  difficulty := 1

def forkGenesis : TreeBlock := forkBlock 1 0 []

def passing : AddBlockChecks := ⟨true, true, true⟩

/-- Three blocks on the genesis block, then a block on the first of them: the
root is split at height 2. -/
def firstRootFork : List (TreeBlock × AddBlockChecks) :=
  [(forkBlock 2 1 [], passing), (forkBlock 3 2 [], passing), (forkBlock 4 3 [], passing),
    (forkBlock 12 2 [], passing)]

theorem databaseRoot_secondForkAborts :
    ∃ core, Core.Reachable .database forkGenesis core ∧ core.WellFormed ∧
      core.addBlock (forkBlock 21 1 []) passing = none := by
  refine ⟨_, Core.Reachable.addBlocks firstRootFork .init rfl, by decide +kernel, ?_⟩
  -- block 21 forks off block 1, below the top of the root segment, whose first fork gave it children
  exact @addBlock_forkBelowDatabaseRoot _ (by decide +kernel) 0 _ rfl rfl (by decide) _ (by decide +kernel)
    (by decide +kernel) (by decide +kernel) _ rfl rfl

/-! ## The reorganisation guard -/

/-- The main chain is split below the alternative leaf's start: the root holds
the genesis block and block 1, the block at height 2 with the transaction `77`
is alone in a segment, and the main leaf holds heights 3 and 4; the alternative
leaf holds heights 2 to 4 on block 1. -/
def splitMainChain : List (TreeBlock × AddBlockChecks) :=
  [(forkBlock 2 1 [], passing), (forkBlock 3 2 [77], passing), (forkBlock 4 3 [], passing),
    (forkBlock 12 2 [], passing), (forkBlock 5 4 [], passing), (forkBlock 33 3 [], passing),
    (forkBlock 13 12 [], passing), (forkBlock 14 13 [], passing)]

theorem reorgGuard_dropsMainTransaction :
    ∃ core next, Core.Reachable .database forkGenesis core ∧ core.WellFormed ∧
      core.addBlock (forkBlock 15 14 []) passing = some (.ADDED_TO_ALTERNATIVE_AND_SWITCHED, next) ∧
      Hash.ofByte 77 ∈ core.mainChainTransactions ∧
      ∀ stored ∈ next.mainChainBlocks, Hash.ofByte 77 ∉ stored.block.transactionHashes :=
  ⟨_, _, Core.Reachable.addBlocks splitMainChain .init rfl, by decide +kernel, rfl, by decide +kernel, by decide +kernel⟩

end CryptoNote
