import CryptoNote.Core.SegmentTreeSync

/-! # The chain exchange of `CryptoNoteProtocolHandler`

A node that falls behind a peer sends it `NOTIFY_REQUEST_CHAIN` with its sparse
chain.  The peer drops a request that names no block or does not end with its
genesis block, and otherwise answers with `NOTIFY_RESPONSE_CHAIN_ENTRY`: the
height where its supplement starts, its block count and the hashes of its main
chain from there (`handle_request_chain`).  The node drops an answer that names
no block or starts from a block it does not have, records the peer's height,
notes the ids from the first one it lacks, and calls `request_missing_objects`:
it asks for up to `BLOCKS_SYNCHRONIZING_DEFAULT_COUNT` of the blocks it needs, or
for the next part of the chain, or, having reached the peer's top with nothing
needed or requested, calls the connection synchronized; otherwise it drops the
connection (`handle_response_chain_entry`).  Dropping a connection marks it
`state_shutdown` and the handler goes on, so the context is the whole outcome.

Two nodes grown from in-memory roots on the same genesis block, whose main
chains hold no two different blocks with one hash, go through the exchange: the
peer answers the request, the answer starts at a height where the two main
chains agree, at most as far below any height where they agree as that height
is below the node's top, and the node's next step is one of the three above
(`memoryRoot_chainSync`).  An answer whose last height wraps below zero is
dropped and then marked synchronized (`handleResponseChainEntry_wrapped`). -/
set_option autoImplicit false

namespace CryptoNote

open Crypto BlockLocator

def BLOCKS_IDS_SYNCHRONIZING_DEFAULT_COUNT : Nat := 10000

def BLOCKS_SYNCHRONIZING_DEFAULT_COUNT : Nat := 128

/-- `NOTIFY_RESPONSE_CHAIN_ENTRY::request`. -/
structure ResponseChainEntry where
  startHeight : UInt32
  totalHeight : UInt32
  blockIds : List Hash
  deriving DecidableEq, Repr

/-- `CryptoNoteConnectionContext::state`. -/
inductive ConnectionState
  | beforHandshake
  | synchronizing
  | idle
  | normal
  | syncRequired
  | poolSyncRequired
  | shutdown
  deriving DecidableEq, Repr

/-- The fields of `CryptoNoteConnectionContext` that the chain exchange reads
and writes, with their initial values; `m_requested_objects` is an
`unordered_set`. -/
structure SyncContext where
  state : ConnectionState := .beforHandshake
  neededObjects : List Hash := []
  requestedObjects : Finset Hash := ∅
  remoteBlockchainHeight : UInt32 := 0
  lastResponseHeight : UInt32 := 0
  deriving DecidableEq

inductive Notify
  | requestGetObjects (blocks : List Hash)
  | requestChain (blockIds : List Hash)
  | responseChainEntry (entry : ResponseChainEntry)
  deriving DecidableEq, Repr

/-- `NodeServer::drop_connection`: the connection is marked for shutdown (the
failure count that `add_fail` raises is the peer list's, and is left out). -/
def SyncContext.dropConnection (context : SyncContext) : SyncContext :=
  { context with state := .shutdown }

/-- `handle_request_chain`: the exception is the one of `findBlockchainSupplement`. -/
def handleRequestChain (core : Core) (context : SyncContext) (blockIds : List Hash) :
    Except String (SyncContext × List Notify) :=
  if blockIds = [] then pure (context.dropConnection, [])
  else if blockIds.getLast? ≠ core.getBlockHashByIndex 0 then pure (context.dropConnection, [])
  else
    match core.findBlockchainSupplementUpTo blockIds BLOCKS_IDS_SYNCHRONIZING_DEFAULT_COUNT with
    | none => throw "Genesis block hash was not found."
    | some (hashes, totalHeight, startHeight) =>
      pure (context, [.responseChainEntry
        { startHeight := startHeight.toUInt32, totalHeight := totalHeight.toUInt32, blockIds := hashes }])

/-- The loop of `handle_response_chain_entry` over the ids: while `allBlocksKnown`
it skips the ids the core has, and from the first one it lacks it needs them all. -/
def neededObjectsFrom (core : Core) : Bool → List Hash → List Hash
  | _, [] => []
  | true, blockId :: blockIds =>
    if core.hasBlock blockId then neededObjectsFrom core true blockIds
    else blockId :: neededObjectsFrom core false blockIds
  | false, blockId :: blockIds => blockId :: neededObjectsFrom core false blockIds

/-- The loop of `request_missing_objects` over `m_needed_objects`: it erases ids
from the front, taking each into the request unless `check_having_blocks` and the
core has it, until it has taken `BLOCKS_SYNCHRONIZING_DEFAULT_COUNT`.  The result
is the request's ids and the ids left. -/
def takeNeededObjects (core : Core) (checkHavingBlocks : Bool) : Nat → List Hash → List Hash × List Hash
  | _, [] => ([], [])
  | count, blockId :: neededObjects =>
    if count < BLOCKS_SYNCHRONIZING_DEFAULT_COUNT then
      if checkHavingBlocks && core.hasBlock blockId then
        takeNeededObjects core checkHavingBlocks count neededObjects
      else
        let (blocks, rest) := takeNeededObjects core checkHavingBlocks (count + 1) neededObjects
        (blockId :: blocks, rest)
    else ([], blockId :: neededObjects)

/-- `request_missing_objects`: the context after it, what it posts and what it
returns.  The pool request and `on_connection_synchronized` of the last branch
are left out; `none` is a `buildSparseChain` that does not return. -/
def requestMissingObjects (core : Core) (context : SyncContext) (checkHavingBlocks : Bool) :
    Option (SyncContext × List Notify × Bool) :=
  if context.neededObjects ≠ [] then
    let (blocks, neededObjects) := takeNeededObjects core checkHavingBlocks 0 context.neededObjects
    some ({ context with neededObjects, requestedObjects := context.requestedObjects ∪ blocks.toFinset },
      [.requestGetObjects blocks], true)
  else if context.lastResponseHeight < context.remoteBlockchainHeight - 1 then do
    let blockIds ← core.buildSparseChain
    pure (context, [.requestChain blockIds], true)
  else if ¬(context.lastResponseHeight = context.remoteBlockchainHeight - 1 ∧ context.neededObjects = [] ∧
      context.requestedObjects = ∅) then
    -- "request_missing_blocks final condition failed!"
    some (context, [], false)
  else some ({ context with state := .normal }, [], true)

/-- `handle_response_chain_entry`.  An answer that reaches above the peer's
height drops the connection, and the handler still goes on; so does one whose
missing objects cannot be requested. -/
def handleResponseChainEntry (core : Core) (context : SyncContext) (entry : ResponseChainEntry) :
    Option (SyncContext × List Notify) :=
  match entry.blockIds.head? with
  | none => some (context.dropConnection, [])
  | some first =>
    if !core.hasBlock first then some (context.dropConnection, [])
    else
      let lastResponseHeight := entry.startHeight + entry.blockIds.length.toUInt32 - 1
      let context := { context with remoteBlockchainHeight := entry.totalHeight, lastResponseHeight }
      let context := if lastResponseHeight > entry.totalHeight then context.dropConnection else context
      let context := { context with neededObjects := context.neededObjects ++ neededObjectsFrom core true entry.blockIds }
      (requestMissingObjects core context false).map fun (context, posted, ok) =>
        (if ok then context else context.dropConnection, posted)

theorem neededObjectsFrom_eq (core : Core) :
    ∀ blockIds, neededObjectsFrom core true blockIds = blockIds.dropWhile core.hasBlock ∧
      neededObjectsFrom core false blockIds = blockIds
  | [] => ⟨rfl, rfl⟩
  | blockId :: blockIds => by
    obtain ⟨known, unknown⟩ := neededObjectsFrom_eq core blockIds
    cases has : core.hasBlock blockId <;> simp [neededObjectsFrom, has, known, unknown]

theorem handleRequestChain_of_supplement {genesis : TreeBlock} {core : Core}
    (reached : Core.Reachable .memory genesis core) {blockIds : List Hash} (nonempty : blockIds ≠ [])
    (endsWithGenesis : blockIds.getLast? = some genesis.blockHash) {start : Nat}
    (supplement : core.findBlockchainSupplement blockIds = some start) (inside : start ≤ core.mainChainHashes.length)
    (context : SyncContext) :
    handleRequestChain core context blockIds =
      .ok (context, [.responseChainEntry
        { startHeight := start.toUInt32, totalHeight := core.mainChainHashes.length.toUInt32,
          blockIds := (core.mainChainHashes.drop start).take BLOCKS_IDS_SYNCHRONIZING_DEFAULT_COUNT }]) := by
  have inv := reached.treeInvariant
  have rooted := reached.rootedAt
  have filled : 0 < core.mainChainHashes.length :=
    (List.getElem?_eq_some_iff.mp (inv.getElem?_mainChainHashes_zero rooted)).1
  simp [handleRequestChain, nonempty, endsWithGenesis, inv.getBlockHashByIndex_zero rooted,
    Core.findBlockchainSupplementUpTo, inv.getTopBlockIndex_eq rooted, supplement,
    inv.getBlockHashes_eq rooted _ inside, Nat.sub_add_cancel filled]
  rfl

theorem takeNeededObjects_false (core : Core) :
    ∀ count neededObjects, takeNeededObjects core false count neededObjects =
      (neededObjects.take (BLOCKS_SYNCHRONIZING_DEFAULT_COUNT - count),
        neededObjects.drop (BLOCKS_SYNCHRONIZING_DEFAULT_COUNT - count))
  | _, [] => by simp [takeNeededObjects]
  | count, blockId :: neededObjects => by
    by_cases below : count < BLOCKS_SYNCHRONIZING_DEFAULT_COUNT
    · have room : BLOCKS_SYNCHRONIZING_DEFAULT_COUNT - count = BLOCKS_SYNCHRONIZING_DEFAULT_COUNT - (count + 1) + 1 := by
        omega
      rw [takeNeededObjects, if_pos below, room, takeNeededObjects_false core (count + 1) neededObjects]
      simp
    · have full : BLOCKS_SYNCHRONIZING_DEFAULT_COUNT - count = 0 := by omega
      simp [takeNeededObjects, below, full]

section RequestMissingObjects

variable (core : Core) (context : SyncContext)

theorem requestMissingObjects_of_needed (needed : context.neededObjects ≠ []) :
    requestMissingObjects core context false =
      some ({ context with
          neededObjects := context.neededObjects.drop BLOCKS_SYNCHRONIZING_DEFAULT_COUNT,
          requestedObjects :=
            context.requestedObjects ∪ (context.neededObjects.take BLOCKS_SYNCHRONIZING_DEFAULT_COUNT).toFinset },
        [.requestGetObjects (context.neededObjects.take BLOCKS_SYNCHRONIZING_DEFAULT_COUNT)], true) := by
  simp [requestMissingObjects, needed, takeNeededObjects_false]

theorem requestMissingObjects_of_behind (empty : context.neededObjects = [])
    (behind : context.lastResponseHeight < context.remoteBlockchainHeight - 1) {blockIds : List Hash}
    (built : core.buildSparseChain = some blockIds) :
    requestMissingObjects core context false = some (context, [.requestChain blockIds], true) := by
  simp [requestMissingObjects, empty, behind, built]

theorem requestMissingObjects_of_caughtUp (empty : context.neededObjects = [])
    (caughtUp : context.lastResponseHeight = context.remoteBlockchainHeight - 1) :
    requestMissingObjects core context false =
      some (if context.requestedObjects = ∅ then { context with state := .normal } else context, [],
        decide (context.requestedObjects = ∅)) := by
  by_cases idle : context.requestedObjects = ∅ <;> simp [requestMissingObjects, empty, caughtUp, idle]

end RequestMissingObjects

theorem toNat_lastResponseHeight {start : UInt32} {size : Nat} (nonempty : 0 < size)
    (fits : start.toNat + size ≤ 2 ^ 32) :
    (start + size.toUInt32 - 1).toNat = start.toNat + size - 1 := by
  have := start.toNat_lt
  rw [UInt32.toNat_sub, UInt32.toNat_add, UInt32.toNat_ofNat']
  simp only [UInt32.toNat_one]
  omega

/-- The `m_last_response_height` of an answer that names a block and ends at most
one above the peer's height, which keeps it below `2 ^ 32`. -/
theorem toNat_lastResponseHeight_of_head {entry : ResponseChainEntry} {first : Hash}
    (head : entry.blockIds.head? = some first)
    (within : entry.startHeight.toNat + entry.blockIds.length ≤ entry.totalHeight.toNat + 1) :
    (entry.startHeight + entry.blockIds.length.toUInt32 - 1).toNat =
      entry.startHeight.toNat + entry.blockIds.length - 1 := by
  have nonempty : 0 < entry.blockIds.length := List.length_pos_iff.mpr (by rintro empty; simp [empty] at head)
  exact toNat_lastResponseHeight nonempty (by have := entry.totalHeight.toNat_lt; omega)

theorem handleResponseChainEntry_of_known (core : Core) (context : SyncContext) (entry : ResponseChainEntry)
    {first : Hash} (head : entry.blockIds.head? = some first) (known : core.hasBlock first = true)
    (within : entry.startHeight.toNat + entry.blockIds.length ≤ entry.totalHeight.toNat + 1) :
    handleResponseChainEntry core context entry =
      (requestMissingObjects core
          { context with
            remoteBlockchainHeight := entry.totalHeight,
            lastResponseHeight := entry.startHeight + entry.blockIds.length.toUInt32 - 1,
            neededObjects := context.neededObjects ++ entry.blockIds.dropWhile core.hasBlock } false).map
        fun (next, posted, ok) => (if ok then next else next.dropConnection, posted) := by
  have last := toNat_lastResponseHeight_of_head head within
  have noHigher : ¬entry.startHeight + entry.blockIds.length.toUInt32 - 1 > entry.totalHeight := by
    rw [gt_iff_lt, UInt32.lt_iff_toNat_lt, last]
    omega
  simp [handleResponseChainEntry, head, known, (neededObjectsFrom_eq core _).1, noHigher]

theorem handleResponseChainEntry_within (core : Core) (context : SyncContext) (entry : ResponseChainEntry)
    {first : Hash} (head : entry.blockIds.head? = some first) (known : core.hasBlock first = true)
    (within : entry.startHeight.toNat + entry.blockIds.length ≤ entry.totalHeight.toNat)
    {sparse : List Hash} (built : core.buildSparseChain = some sparse) :
    ∃ next posted, handleResponseChainEntry core context entry = some (next, posted) ∧
      next.remoteBlockchainHeight = entry.totalHeight ∧
      next.lastResponseHeight.toNat = entry.startHeight.toNat + entry.blockIds.length - 1 ∧
      (context.neededObjects ++ entry.blockIds.dropWhile core.hasBlock ≠ [] →
        posted = [.requestGetObjects
          ((context.neededObjects ++ entry.blockIds.dropWhile core.hasBlock).take BLOCKS_SYNCHRONIZING_DEFAULT_COUNT)] ∧
        next.state = context.state ∧
        next.neededObjects =
          (context.neededObjects ++ entry.blockIds.dropWhile core.hasBlock).drop BLOCKS_SYNCHRONIZING_DEFAULT_COUNT ∧
        next.requestedObjects = context.requestedObjects ∪
          ((context.neededObjects ++ entry.blockIds.dropWhile core.hasBlock).take
            BLOCKS_SYNCHRONIZING_DEFAULT_COUNT).toFinset) ∧
      (context.neededObjects ++ entry.blockIds.dropWhile core.hasBlock = [] →
        next.neededObjects = [] ∧ next.requestedObjects = context.requestedObjects ∧
        (entry.startHeight.toNat + entry.blockIds.length < entry.totalHeight.toNat →
          posted = [.requestChain sparse] ∧ next.state = context.state) ∧
        (entry.startHeight.toNat + entry.blockIds.length = entry.totalHeight.toNat →
          posted = [] ∧ next.state = if context.requestedObjects = ∅ then .normal else .shutdown)) := by
  have nonempty : 0 < entry.blockIds.length := List.length_pos_iff.mpr (by rintro empty; simp [empty] at head)
  have last := toNat_lastResponseHeight_of_head head (by omega)
  have remote : (entry.totalHeight - 1).toNat = entry.totalHeight.toNat - 1 :=
    UInt32.toNat_sub_of_le _ _ (UInt32.le_iff_toNat_le.mpr (by simp only [UInt32.toNat_one]; omega))
  rw [handleResponseChainEntry_of_known core context entry head known (by omega)]
  by_cases needed : context.neededObjects ++ entry.blockIds.dropWhile core.hasBlock = []
  · rcases Nat.lt_or_eq_of_le within with behind | atTop
    -- below the peer's top: the next part of the chain is requested
    · rw [requestMissingObjects_of_behind core _ needed
        (by rw [UInt32.lt_iff_toNat_lt, last, remote]; omega) built]
      exact ⟨_, _, rfl, rfl, last, fun unneeded => absurd needed unneeded,
        fun _ => ⟨needed, rfl, fun _ => ⟨rfl, rfl⟩, fun reached => absurd reached (by omega)⟩⟩
    -- at the peer's top: the final condition decides
    · have caughtUp : entry.startHeight + entry.blockIds.length.toUInt32 - 1 = entry.totalHeight - 1 :=
        UInt32.toNat_inj.mp (by rw [last, remote]; omega)
      rw [requestMissingObjects_of_caughtUp core _ needed caughtUp]
      refine ⟨_, _, rfl, ?_, ?_, fun unneeded => absurd needed unneeded,
        fun _ => ⟨?_, ?_, fun below => absurd atTop (by omega), fun _ => ⟨rfl, ?_⟩⟩⟩ <;>
        by_cases idle : context.requestedObjects = ∅ <;>
        simp [idle, needed, last, SyncContext.dropConnection]
  · rw [requestMissingObjects_of_needed core _ needed]
    exact ⟨_, _, rfl, rfl, last, fun _ => ⟨rfl, rfl, rfl, rfl⟩, fun unneeded => absurd unneeded needed⟩

theorem handleResponseChainEntry_wrapped (core : Core) (context : SyncContext) (entry : ResponseChainEntry)
    (nonempty : entry.blockIds ≠ []) (known : ∀ blockId ∈ entry.blockIds, core.hasBlock blockId = true)
    (peerEmpty : entry.totalHeight = 0) (wraps : entry.startHeight + entry.blockIds.length.toUInt32 = 0)
    (unneeded : context.neededObjects = []) (idle : context.requestedObjects = ∅) :
    handleResponseChainEntry core context entry =
      some ({ context with state := .normal, remoteBlockchainHeight := 0, lastResponseHeight := 0xFFFFFFFF }, []) := by
  obtain ⟨first, rest, ids⟩ := List.exists_cons_of_ne_nil nonempty
  have head : entry.blockIds.head? = some first := by rw [ids, List.head?_cons]
  have firstKnown := known first (by simp [ids])
  have allKnown : entry.blockIds.dropWhile core.hasBlock = [] := List.dropWhile_eq_nil_iff.mpr known
  have dropped : entry.startHeight + entry.blockIds.length.toUInt32 - 1 > entry.totalHeight := by
    rw [wraps, peerEmpty]
    decide
  simp only [handleResponseChainEntry, head, firstKnown, dropped, (neededObjectsFrom_eq core _).1, allKnown]
  have wrapsTo : (0 : UInt32) - 1 = 0xFFFFFFFF := by decide
  simp [requestMissingObjects, SyncContext.dropConnection, unneeded, idle, wraps, peerEmpty, wrapsTo]

example :
    handleResponseChainEntry (Core.initRootSegment .memory forkGenesis) {}
        { startHeight := 0xFFFFFFFF, totalHeight := 0, blockIds := [forkGenesis.blockHash] } =
      some ({ state := .normal, lastResponseHeight := 0xFFFFFFFF }, []) := by
  decide

def sharedWith (requester responder : Core) (h : Nat) : Bool :=
  requester.mainChainHashes[h]?.any (· ∈ responder.mainChainHashes)

theorem sharedWith_of_agree {requester responder : Core} {h : Nat} (inside : h < requester.mainChainHashes.length)
    (agree : requester.mainChainHashes[h]? = responder.mainChainHashes[h]?) :
    sharedWith requester responder h = true := by
  have atH : requester.mainChainHashes[h]? = some requester.mainChainHashes[h] := List.getElem?_eq_getElem inside
  rw [sharedWith, atH, Option.any_some, decide_eq_true_eq]
  exact List.mem_of_getElem? (agree ▸ atH)

/-- Two nodes on one genesis block share height `0`. -/
theorem sharedWith_zero {genesis : TreeBlock} {requester responder : Core}
    (requesterReached : Core.Reachable .memory genesis requester)
    (responderReached : Core.Reachable .memory genesis responder) :
    sharedWith requester responder 0 = true := by
  have onRequester := requesterReached.treeInvariant.getElem?_mainChainHashes_zero requesterReached.rootedAt
  have onResponder := responderReached.treeInvariant.getElem?_mainChainHashes_zero responderReached.rootedAt
  exact sharedWith_of_agree (List.getElem?_eq_some_iff.mp onRequester).1 (onRequester.trans onResponder.symm)

section TwoNodes

variable {genesis : TreeBlock} {requester responder : Core}
  (requesterReached : Core.Reachable .memory genesis requester)
  (responderReached : Core.Reachable .memory genesis responder)
  (noCollision : ∀ a ∈ requester.mainChainBlocks, ∀ b ∈ responder.mainChainBlocks,
    a.block.blockHash = b.block.blockHash → a.block = b.block)
include requesterReached responderReached noCollision

theorem take_eq_of_shared {h : Nat} {blockHash : Hash} (atH : requester.mainChainHashes[h]? = some blockHash)
    (held : blockHash ∈ responder.mainChainHashes) :
    responder.mainChainHashes.idxOf blockHash = h ∧
      requester.mainChainHashes.take (h + 1) = responder.mainChainHashes.take (h + 1) := by
  have requesterInv := requesterReached.treeInvariant
  have responderInv := responderReached.treeInvariant
  obtain ⟨linkedL, headL⟩ := requesterInv.linked_mainChainBlocks requesterReached.rootedAt
  obtain ⟨linkedR, headR⟩ := responderInv.linked_mainChainBlocks responderReached.rootedAt
  obtain ⟨same, prefixes⟩ := linkedL.take_eq_of_getElem? linkedR (by rw [headL, headR])
    (requesterInv.nodup_mainChainHashes requesterReached.rootedAt)
    (responderInv.nodup_mainChainHashes responderReached.rootedAt)
    (fun a inL b inR named => by rw [noCollision a inL b inR named]) h _ blockHash atH (List.getElem?_idxOf held)
  exact ⟨same.symm, prefixes⟩

theorem sharedWith_of_le {a b : Nat} (below : b ≤ a) (shared : sharedWith requester responder a = true) :
    sharedWith requester responder b = true := by
  obtain ⟨blockHash, atA, held⟩ := (Option.any_eq_true _ _).mp shared
  obtain ⟨-, prefixes⟩ :=
    take_eq_of_shared requesterReached responderReached noCollision atA (of_decide_eq_true held)
  have inside : b < requester.mainChainHashes.length := by
    have := (List.getElem?_eq_some_iff.mp atA).1
    omega
  have agree := congrArg (·[b]?) prefixes
  simp only [List.getElem?_take_of_lt (Nat.lt_succ_of_le below)] at agree
  exact sharedWith_of_agree inside agree

theorem findBlockchainSupplement_sparseChain {top : Nat} (atTop : requester.mainChainHashes.length = top + 1)
    (low : top ≤ 2 ^ 31) :
    ∃ sparse, requester.buildSparseChain = some sparse ∧ sparse ≠ [] ∧ sparse.getLast? = some genesis.blockHash ∧
      responder.findBlockchainSupplement sparse = (locatorHeights top 32).find? (sharedWith requester responder) := by
  have requesterInv := requesterReached.treeInvariant
  have requesterRooted := requesterReached.rootedAt
  have read := mapM_getElem?_locatorHeights requester.mainChainHashes nullHash atTop 32
  have built := requesterInv.buildSparseChain_eq requesterRooted atTop
  rw [if_pos low, read] at built
  have nonempty : (locatorHeights top 32).map (requester.mainChainHashes.getD · nullHash) ≠ [] := by
    simp [locatorHeights]
  refine ⟨_, built, nonempty, ?_, ?_⟩
  · rw [List.getLast?_map, getLast?_locatorHeights, Option.map_some, List.getD_eq_getElem?_getD,
      requesterInv.getElem?_mainChainHashes_zero requesterRooted, Option.getD_some]
  · rw [responderReached.treeInvariant.findBlockchainSupplement_eq responderReached.rootedAt nonempty,
      ← findSome?_ite]
    refine findSome?_of_mapM _ read fun h mem => ?_
    -- a locator height is on the requester's main chain; its hash is found at the same height or not at all
    have inside : h < requester.mainChainHashes.length := by
      have := le_of_mem_locatorHeights mem
      omega
    have atH : requester.mainChainHashes[h]? = some requester.mainChainHashes[h] := List.getElem?_eq_getElem inside
    rw [atH, Option.bind_some]
    by_cases held : requester.mainChainHashes[h] ∈ responder.mainChainHashes
    · have index := (take_eq_of_shared requesterReached responderReached noCollision atH held).1
      simp [Option.guard, sharedWith, atH, held, index]
    · simp [Option.guard, sharedWith, atH, held]

end TwoNodes

/-- Two nodes grown from in-memory roots on the same genesis block, whose main
chains hold no two different blocks with one hash, where the requester's main
chain is no higher than `2 ^ 31` and the responder's has fewer than `2 ^ 32`
blocks: the responder answers the requester's sparse chain without dropping the
connection, with its main chain from the start height, and the requester takes
the answer as `handleResponseChainEntry_within` says.  The two main chains
agree up to the start height, which is at most as far below any height where
they agree as that height is below the requester's top. -/
theorem memoryRoot_chainSync {genesis : TreeBlock} {requester responder : Core}
    (requesterReached : Core.Reachable .memory genesis requester)
    (responderReached : Core.Reachable .memory genesis responder)
    (noCollision : ∀ a ∈ requester.mainChainBlocks, ∀ b ∈ responder.mainChainBlocks,
      a.block.blockHash = b.block.blockHash → a.block = b.block)
    {top : Nat} (atTop : requester.mainChainHashes.length = top + 1) (low : top ≤ 2 ^ 31)
    (responderLow : responder.mainChainHashes.length < 2 ^ 32) (context responderContext : SyncContext) :
    ∃ sparse entry next posted, requester.buildSparseChain = some sparse ∧
      handleRequestChain responder responderContext sparse = .ok (responderContext, [.responseChainEntry entry]) ∧
      handleResponseChainEntry requester context entry = some (next, posted) ∧
      entry.totalHeight.toNat = responder.mainChainHashes.length ∧
      entry.blockIds =
        (responder.mainChainHashes.drop entry.startHeight.toNat).take BLOCKS_IDS_SYNCHRONIZING_DEFAULT_COUNT ∧
      entry.startHeight.toNat ≤ top ∧
      requester.mainChainHashes.take (entry.startHeight.toNat + 1) =
        responder.mainChainHashes.take (entry.startHeight.toNat + 1) ∧
      (∀ h ≤ top, requester.mainChainHashes[h]? = responder.mainChainHashes[h]? →
        h - entry.startHeight.toNat ≤ top - h) ∧
      next.remoteBlockchainHeight = entry.totalHeight ∧
      next.lastResponseHeight.toNat = entry.startHeight.toNat + entry.blockIds.length - 1 ∧
      (context.neededObjects ++ entry.blockIds.dropWhile requester.hasBlock ≠ [] →
        posted = [.requestGetObjects
          ((context.neededObjects ++ entry.blockIds.dropWhile requester.hasBlock).take
            BLOCKS_SYNCHRONIZING_DEFAULT_COUNT)] ∧
        next.state = context.state ∧
        next.neededObjects =
          (context.neededObjects ++ entry.blockIds.dropWhile requester.hasBlock).drop BLOCKS_SYNCHRONIZING_DEFAULT_COUNT ∧
        next.requestedObjects = context.requestedObjects ∪
          ((context.neededObjects ++ entry.blockIds.dropWhile requester.hasBlock).take
            BLOCKS_SYNCHRONIZING_DEFAULT_COUNT).toFinset) ∧
      (context.neededObjects ++ entry.blockIds.dropWhile requester.hasBlock = [] →
        next.neededObjects = [] ∧ next.requestedObjects = context.requestedObjects ∧
        (entry.startHeight.toNat + entry.blockIds.length < entry.totalHeight.toNat →
          posted = [.requestChain sparse] ∧ next.state = context.state) ∧
        (entry.startHeight.toNat + entry.blockIds.length = entry.totalHeight.toNat →
          posted = [] ∧ next.state = if context.requestedObjects = ∅ then .normal else .shutdown)) := by
  obtain ⟨sparse, built, nonempty, endsWithGenesis, supplement⟩ :=
    findBlockchainSupplement_sparseChain requesterReached responderReached noCollision atTop low
  -- the genesis height is shared, and the shared heights are closed downwards
  obtain ⟨start, found, belowTop, bound⟩ := find?_locatorHeights (sharedWith requester responder)
    (fun _ _ below shared => sharedWith_of_le requesterReached responderReached noCollision below shared)
    (sharedWith_zero requesterReached responderReached) (show top ≤ 2 ^ 32 by omega)
  have shared : sharedWith requester responder start = true := List.find?_some found
  rw [sharedWith] at shared
  obtain ⟨blockHash, atStart, held⟩ := (Option.any_eq_true _ _).mp shared
  have onResponder := of_decide_eq_true held
  obtain ⟨index, prefixes⟩ := take_eq_of_shared requesterReached responderReached noCollision atStart onResponder
  have inside : start < responder.mainChainHashes.length := index ▸ List.idxOf_lt_length_iff.mpr onResponder
  have answer := handleRequestChain_of_supplement responderReached nonempty endsWithGenesis
    (supplement.trans found) inside.le responderContext
  -- both heights of the answer are below `2 ^ 32`, so their `uint32_t` values are exact
  have startExact : start.toUInt32.toNat = start := by rw [UInt32.toNat_ofNat']; omega
  have totalExact : responder.mainChainHashes.length.toUInt32.toNat = responder.mainChainHashes.length := by
    rw [UInt32.toNat_ofNat']; omega
  have first : ((responder.mainChainHashes.drop start).take BLOCKS_IDS_SYNCHRONIZING_DEFAULT_COUNT).head? =
      some blockHash := by
    rw [List.head?_take, if_neg (by decide), List.head?_drop, ← index, List.getElem?_idxOf onResponder]
  obtain ⟨next, posted, accepted, remote, last, whenNeeded, whenNot⟩ := handleResponseChainEntry_within requester context
    { startHeight := start.toUInt32, totalHeight := responder.mainChainHashes.length.toUInt32,
      blockIds := (responder.mainChainHashes.drop start).take BLOCKS_IDS_SYNCHRONIZING_DEFAULT_COUNT } first
    (requesterReached.treeInvariant.hasBlock_of_mainChainHashes requesterReached.rootedAt
      (List.mem_of_getElem? atStart))
    (by simp only [startExact, totalExact, List.length_take, List.length_drop]; omega) built
  refine ⟨sparse, _, next, posted, built, answer, accepted, totalExact, ?_, ?_, ?_, ?_, remote, last, whenNeeded,
    whenNot⟩ <;> dsimp only <;> rw [startExact]
  · exact belowTop
  · exact prefixes
  exact fun h below agree => bound h below (sharedWith_of_agree (by omega) agree)

def behindOnFork : List (TreeBlock × AddBlockChecks) :=
  [(forkBlock 2 1 [], passing), (forkBlock 12 2 [], passing), (forkBlock 13 12 [], passing)]

/-- A node whose main chain runs through blocks 12 and 13 asks one grown by
`splitMainChain`, which holds them on an alternative chain only. -/
theorem memoryRoot_behindOnFork_chainSync :
    ∃ requester responder, Core.Reachable .memory forkGenesis requester ∧
      Core.Reachable .memory forkGenesis responder ∧
      (∀ a ∈ requester.mainChainBlocks, ∀ b ∈ responder.mainChainBlocks,
        a.block.blockHash = b.block.blockHash → a.block = b.block) ∧
      requester.mainChainHashes.length = 3 + 1 ∧ 3 ≤ 2 ^ 31 ∧ responder.mainChainHashes.length < 2 ^ 32 ∧
      ∃ sparse entry next posted, requester.buildSparseChain = some sparse ∧
        handleRequestChain responder {} sparse = .ok ({}, [.responseChainEntry entry]) ∧
        handleResponseChainEntry requester {} entry = some (next, posted) ∧
        entry.totalHeight.toNat = responder.mainChainHashes.length ∧
        entry.blockIds =
          (responder.mainChainHashes.drop entry.startHeight.toNat).take BLOCKS_IDS_SYNCHRONIZING_DEFAULT_COUNT ∧
        entry.startHeight.toNat ≤ 3 ∧
        requester.mainChainHashes.take (entry.startHeight.toNat + 1) =
          responder.mainChainHashes.take (entry.startHeight.toNat + 1) ∧
        (∀ h ≤ 3, requester.mainChainHashes[h]? = responder.mainChainHashes[h]? →
          h - entry.startHeight.toNat ≤ 3 - h) ∧
        next.remoteBlockchainHeight = entry.totalHeight ∧
        next.lastResponseHeight.toNat = entry.startHeight.toNat + entry.blockIds.length - 1 ∧
        (([] : List Hash) ++ entry.blockIds.dropWhile requester.hasBlock ≠ [] →
          posted = [.requestGetObjects
            ((([] : List Hash) ++ entry.blockIds.dropWhile requester.hasBlock).take
              BLOCKS_SYNCHRONIZING_DEFAULT_COUNT)] ∧
          next.state = ConnectionState.beforHandshake ∧
          next.neededObjects =
            (([] : List Hash) ++ entry.blockIds.dropWhile requester.hasBlock).drop BLOCKS_SYNCHRONIZING_DEFAULT_COUNT ∧
          next.requestedObjects = (∅ : Finset Hash) ∪
            ((([] : List Hash) ++ entry.blockIds.dropWhile requester.hasBlock).take
              BLOCKS_SYNCHRONIZING_DEFAULT_COUNT).toFinset) ∧
        (([] : List Hash) ++ entry.blockIds.dropWhile requester.hasBlock = [] →
          next.neededObjects = [] ∧ next.requestedObjects = (∅ : Finset Hash) ∧
          (entry.startHeight.toNat + entry.blockIds.length < entry.totalHeight.toNat →
            posted = [.requestChain sparse] ∧ next.state = ConnectionState.beforHandshake) ∧
          (entry.startHeight.toNat + entry.blockIds.length = entry.totalHeight.toNat →
            posted = [] ∧ next.state = if (∅ : Finset Hash) = ∅ then .normal else .shutdown)) := by
  have requesterReached := @Core.Reachable.addBlocks .memory forkGenesis behindOnFork _ _ .init rfl
  have responderReached := @Core.Reachable.addBlocks .memory forkGenesis splitMainChain _ _ .init rfl
  refine ⟨_, _, requesterReached, responderReached, ?noCollision, rfl, by decide, by decide,
    memoryRoot_chainSync requesterReached responderReached ?noCollision rfl (by decide) (by decide) {} {}⟩
  decide

end CryptoNote
