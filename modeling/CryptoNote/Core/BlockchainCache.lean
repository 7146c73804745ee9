import CryptoNote.Core.TransactionValidator
import CryptoNote.Core.TransactionExtra
import CryptoNote.Lib.ListAlgorithms

/-!
# Blockchain cache segments

`BlockchainCache` (`CryptoNoteCore/BlockchainCache.cpp`): one segment of the
block tree.  It holds the blocks from `startIndex` up, their transactions, the
key images and multisignature outputs they spend, and for every amount the
global indexes of the outputs of that amount; it answers for the blocks below
`startIndex` through its parent.

The parent pointer is modelled by the segment's ancestors: a query made on the
segment `cache` whose parent chain is `parent` is a function of
`cache :: parent`, and the empty list is the `nullptr` parent.  The indexes of a
`boost::multi_index` container are a list in insertion order, and inserting a
duplicate of a unique key leaves it unchanged, as `insert` does; the `std::map`s
and the key-image index are functions to `Option`.  Block and global indexes
are `Nat`: the `uint32_t` casts of the source only matter past `2^32` blocks or
outputs of one amount.
-/

set_option autoImplicit false

namespace CryptoNote

open Crypto ListAlgorithms

/-- `PackedOutIndex`: the block of an output, the place of its transaction in
the block and its place in the transaction. -/
structure PackedOutIndex where
  blockIndex : Nat
  transactionIndex : Nat
  outputIndex : Nat
  deriving DecidableEq, Repr

/-- `OutputGlobalIndexesForAmount`: the outputs of one amount stored in a
segment, in block order; the global index of `outputs[i]` is `startIndex + i`. -/
structure OutputGlobalIndexesForAmount where
  startIndex : Nat
  outputs : List PackedOutIndex
  deriving DecidableEq, Repr

/-- `MultisignatureIndexes` has the same two fields: its
`MultisignatureOutputState` holds only the packed index. -/
abbrev MultisignatureIndexes := OutputGlobalIndexesForAmount

structure CachedTransactionInfo where
  blockIndex : Nat
  transactionIndex : Nat
  transactionHash : Hash
  unlockTime : UInt64
  outputs : List TransactionOutputTarget
  globalIndexes : List Nat
  deriving DecidableEq, Repr

/-- `CachedBlockInfo` without `blockSize`, which only the block-size queries read. -/
structure CachedBlockInfo where
  blockHash : Hash
  timestamp : UInt64
  cumulativeDifficulty : UInt64
  alreadyGeneratedCoins : UInt64
  alreadyGeneratedTransactions : UInt64
  deriving DecidableEq, Repr

structure PaymentIdTransactionHashPair where
  paymentId : Hash
  transactionHash : Hash
  deriving DecidableEq, Repr

/-- `CachedBlock`: a block with the hash the source computes from it, and its
coinbase as the `CachedTransaction` that `pushBlock` builds from it. -/
structure CachedBlock where
  block : BlockTemplate
  blockHash : Hash
  cachedBaseTransaction : CachedTransaction
  baseTransaction_eq : cachedBaseTransaction.transaction = block.baseTransaction

/-- `CachedBlock::getBlockIndex`: the block index of the coinbase's input, or 0
when the coinbase does not have exactly one input, a base input. -/
def CachedBlock.getBlockIndex (cachedBlock : CachedBlock) : Nat :=
  match cachedBlock.block.baseTransaction.inputs with
  | [.base input] => input.blockIndex.toNat
  | _ => 0

/-- One segment.  `storageBlockCount` stands for the `BlockchainStorage` of raw
blocks, of which the modelled functions read only the number of blocks. -/
structure BlockchainCache where
  startIndex : Nat
  transactions : List CachedTransactionInfo
  spentKeyImages : KeyImage → Option Nat
  blockInfos : List CachedBlockInfo
  keyOutputsGlobalIndexes : UInt64 → Option OutputGlobalIndexesForAmount
  multisignatureStorage : UInt64 → Option MultisignatureIndexes
  paymentIds : List PaymentIdTransactionHashPair
  spentMultisigOutputs : Finset (UInt64 × UInt32)
  storageBlockCount : Nat

namespace BlockchainCache

/-- The segment the constructor builds for a non-null parent: no blocks yet. -/
def create (startIndex : Nat) : BlockchainCache where
  startIndex := startIndex
  transactions := []
  spentKeyImages := fun _ => none
  blockInfos := []
  keyOutputsGlobalIndexes := fun _ => none
  multisignatureStorage := fun _ => none
  paymentIds := []
  spentMultisigOutputs := ∅
  storageBlockCount := 0

/-! ## Queries of one segment -/

section Segment

variable (cache : BlockchainCache)

def getBlockCount : Nat := cache.blockInfos.length

def getStartBlockIndex : Nat := cache.startIndex

/-- `getTopBlockIndex` counts the blocks of the raw-block storage. -/
def getTopBlockIndex : Nat := cache.startIndex + cache.storageBlockCount - 1

def hasBlock (blockHash : Hash) : Bool := cache.blockInfos.any (·.blockHash == blockHash)

def getBlockIndex (blockHash : Hash) : Except String Nat :=
  match cache.blockInfos.findIdx? (·.blockHash == blockHash) with
  | some localIndex => pure (localIndex + cache.startIndex)
  | none => throw "no such block"

def hasTransaction (transactionHash : Hash) : Bool :=
  cache.transactions.any (·.transactionHash == transactionHash)

def getTransactionGlobalIndexes (transactionHash : Hash) : Option (List Nat) :=
  (cache.transactions.find? (·.transactionHash == transactionHash)).map (·.globalIndexes)

/-- `getTransactionHashes(startIndex, endIndex)`: the non-coinbase transactions
of this segment in the blocks of `[startIndex, endIndex]`. -/
def getTransactionHashes (startIndex endIndex : Nat) : List Hash :=
  (cache.transactions.filter fun tx =>
      !(tx.blockIndex < startIndex || tx.blockIndex > endIndex) && tx.transactionIndex != 0).map
    (·.transactionHash)

/-- The `TransactionInBlockTag` lookup by block and place in the block. -/
def findTransactionInBlock (blockIndex transactionIndex : Nat) : Option CachedTransactionInfo :=
  cache.transactions.find? fun info =>
    info.blockIndex == blockIndex && info.transactionIndex == transactionIndex

end Segment

/-! ## Queries of a chain of segments -/

/-- The block info that `getBlockHash`, `getCurrentCumulativeDifficulty`,
`getAlreadyGeneratedCoins` and `getAlreadyGeneratedTransactions` read for
`blockIndex`: the parent's below `startIndex`, else the segment's through `at`,
which throws (`none`) past the top. -/
def getBlockInfo : List BlockchainCache → Nat → Option CachedBlockInfo
  | [], _ => none
  | cache :: parent, blockIndex =>
      if blockIndex < cache.startIndex then getBlockInfo parent blockIndex
      else cache.blockInfos[blockIndex - cache.startIndex]?

def getBlockHash (chain : List BlockchainCache) (blockIndex : Nat) : Option Hash :=
  (getBlockInfo chain blockIndex).map (·.blockHash)

def getCurrentCumulativeDifficulty (chain : List BlockchainCache) (blockIndex : Nat) : Option UInt64 :=
  (getBlockInfo chain blockIndex).map (·.cumulativeDifficulty)

def getAlreadyGeneratedCoins (chain : List BlockchainCache) (blockIndex : Nat) : Option UInt64 :=
  (getBlockInfo chain blockIndex).map (·.alreadyGeneratedCoins)

def getAlreadyGeneratedTransactions (chain : List BlockchainCache) (blockIndex : Nat) : Option UInt64 :=
  (getBlockInfo chain blockIndex).map (·.alreadyGeneratedTransactions)

/-- `checkIfSpent(keyImage, blockIndex)`: spent in a block at or below `blockIndex`. -/
def checkIfSpent : List BlockchainCache → KeyImage → Nat → Bool
  | [], _, _ => false
  | cache :: parent, keyImage, blockIndex =>
      if blockIndex < cache.startIndex then checkIfSpent parent keyImage blockIndex
      else
        match cache.spentKeyImages keyImage with
        | some spentIndex => decide (spentIndex ≤ blockIndex)
        | none => checkIfSpent parent keyImage blockIndex

/-- `checkIfSpent(keyImage)`: spent in any block of the chain. -/
def checkIfSpentEver : List BlockchainCache → KeyImage → Bool
  | [], _ => false
  | cache :: parent, keyImage => (cache.spentKeyImages keyImage).isSome || checkIfSpentEver parent keyImage

/-- `checkIfSpentMultisignature(amount, globalIndex)`: in the spent set of a
segment of the chain. -/
def checkIfSpentMultisignature : List BlockchainCache → UInt64 → UInt32 → Bool
  | [], _, _ => false
  | cache :: parent, amount, globalIndex =>
      decide ((amount, globalIndex) ∈ cache.spentMultisigOutputs) ||
        checkIfSpentMultisignature parent amount globalIndex

/-- The overload taking a block index does not read it. -/
def checkIfSpentMultisignatureAt (chain : List BlockchainCache) (amount : UInt64) (globalIndex : UInt32)
    (_blockIndex : Nat) : Bool :=
  checkIfSpentMultisignature chain amount globalIndex

/-- `getKeyOutputsCountForAmount` and `getMultisignatureCountForAmount`, over
the index that `container` selects: in the first segment with an entry for the
amount, its `startIndex` plus its outputs in blocks below `blockIndex`. -/
def getOutputsCountForAmount (container : BlockchainCache → UInt64 → Option OutputGlobalIndexesForAmount) :
    List BlockchainCache → UInt64 → Nat → Nat
  | [], _, _ => 0
  | cache :: parent, amount, blockIndex =>
      match container cache amount with
      | none => getOutputsCountForAmount container parent amount blockIndex
      | some entry => entry.startIndex + lowerBound PackedOutIndex.blockIndex entry.outputs blockIndex

def getKeyOutputsCountForAmount (chain : List BlockchainCache) (amount : UInt64) (blockIndex : Nat) : Nat :=
  getOutputsCountForAmount keyOutputsGlobalIndexes chain amount blockIndex

def getMultisignatureCountForAmount (chain : List BlockchainCache) (amount : UInt64) (blockIndex : Nat) : Nat :=
  getOutputsCountForAmount multisignatureStorage chain amount blockIndex

def getTransactionHashesByPaymentId : List BlockchainCache → Hash → List Hash
  | [], _ => []
  | cache :: parent, paymentId =>
      getTransactionHashesByPaymentId parent paymentId ++
        ((cache.paymentIds.filter (·.paymentId == paymentId)).map (·.transactionHash))

/-! ## Extracting outputs -/

/-- One iteration of the loop of `extractKeyOutputs` over the segment's share of
the requested indexes: an index past the segment's outputs, or whose
transaction is not there, gives `INVALID_GLOBAL_INDEX`; otherwise the callback
decides. -/
def extractKeyOutput {α : Type} (cache : BlockchainCache) (entry : OutputGlobalIndexesForAmount)
    (pred : CachedTransactionInfo → PackedOutIndex → Nat → Except ExtractOutputKeysResult α)
    (globalIndex : Nat) : Except ExtractOutputKeysResult α :=
  match entry.outputs[globalIndex - entry.startIndex]? with
  | none => .error .INVALID_GLOBAL_INDEX
  | some outputIndex =>
      match cache.findTransactionInBlock outputIndex.blockIndex outputIndex.transactionIndex with
      | none => .error .INVALID_GLOBAL_INDEX
      | some info => pred info outputIndex globalIndex

/-- `extractKeyOutputs(amount, blockIndex, globalIndexes, pred)`, with the
values the callback pushes into its output vector.  The requested indexes below
the segment's `startIndex` are asked of the parent first. -/
def extractKeyOutputs {α : Type}
    (pred : CachedTransactionInfo → PackedOutIndex → Nat → Except ExtractOutputKeysResult α) :
    List BlockchainCache → UInt64 → Nat → List Nat → ExtractOutputKeysResult × List α
  | [], _, _, _ => (.INVALID_GLOBAL_INDEX, [])
  | cache :: parent, amount, blockIndex, globalIndexes =>
      match cache.keyOutputsGlobalIndexes amount with
      | none => extractKeyOutputs pred parent amount blockIndex globalIndexes
      | some entry =>
          if blockIndex < cache.startIndex then extractKeyOutputs pred parent amount blockIndex globalIndexes
          else
            let offset := lowerBound id globalIndexes entry.startIndex
            let fromParent : ExtractOutputKeysResult × List α :=
              if offset = 0 then (.SUCCESS, [])
              else extractKeyOutputs pred parent amount blockIndex (globalIndexes.take offset)
            if fromParent.1 ≠ .SUCCESS then fromParent
            else
              let own := mapUntilError (cache.extractKeyOutput entry pred) (globalIndexes.drop offset)
              (own.1.getD .SUCCESS, fromParent.2 ++ own.2)

/-- `extractKeyOutputKeys(amount, blockIndex, globalIndexes, publicKeys)`.  The
spend-time check reads the clock and the currency, so it is a parameter.
`boost::get` of a key output from an output that is not one throws; the
refinement theorems show it never happens. -/
def extractKeyOutputKeys (isTransactionSpendTimeUnlocked : UInt64 → Nat → Bool)
    (chain : List BlockchainCache) (amount : UInt64) (blockIndex : Nat) (globalIndexes : List Nat) :
    ExtractOutputKeysResult × List PublicKey :=
  extractKeyOutputs
    (fun info index _ =>
      if !isTransactionSpendTimeUnlocked info.unlockTime blockIndex then .error .OUTPUT_LOCKED
      else
        match info.outputs[index.outputIndex]? with
        | some (.key output) => .ok output.key
        | _ => .error .INVALID_GLOBAL_INDEX)
    chain amount blockIndex globalIndexes

inductive OutputSearchResult where
  | FOUND (packedOut : PackedOutIndex)
  | NOT_FOUND
  | INVALID_ARGUMENT
  deriving DecidableEq, Repr

def findPackedOutForMultisignatureInCurrentSegment (cache : BlockchainCache) (amount : UInt64)
    (globalIndex : Nat) : OutputSearchResult :=
  match cache.multisignatureStorage amount with
  | some entry =>
      if entry.startIndex ≤ globalIndex then
        match entry.outputs[globalIndex - entry.startIndex]? with
        | some packedOut => .FOUND packedOut
        | none => .INVALID_ARGUMENT
      else .NOT_FOUND
  | none => .NOT_FOUND

/-- `getMultisignatureOutputIfExists(amount, globalIndex, blockIndex, output, unlockTime)`:
the output and its transaction's unlock time, if the output exists in a block
at or below `blockIndex`. -/
def getMultisignatureOutputIfExists :
    List BlockchainCache → UInt64 → Nat → Nat → Option (MultisignatureOutput × UInt64)
  | [], _, _, _ => none
  | cache :: parent, amount, globalIndex, blockIndex =>
      match cache.findPackedOutForMultisignatureInCurrentSegment amount globalIndex with
      | .INVALID_ARGUMENT => none
      | .NOT_FOUND => getMultisignatureOutputIfExists parent amount globalIndex blockIndex
      | .FOUND packedOut =>
          if packedOut.blockIndex > blockIndex then none
          else
            match cache.findTransactionInBlock packedOut.blockIndex packedOut.transactionIndex with
            | none => none
            | some info =>
                match info.outputs[packedOut.outputIndex]? with
                | some (.multisignature output) => some (output, info.unlockTime)
                | _ => none

/-! ## Pushing a block -/

/-- `insertKeyOutputToGlobalIndex` and `insertMultisignatureToGlobalIndex` on the
entry `existing` of the amount: the output is appended, and a new entry starts
after the `parentCount` outputs the parent has of the amount.  Returns the entry
and the output's global index. -/
def insertToGlobalIndex (existing : Option OutputGlobalIndexesForAmount) (parentCount : Nat)
    (output : PackedOutIndex) : OutputGlobalIndexesForAmount × Nat :=
  let entry : OutputGlobalIndexesForAmount :=
    match existing with
    | some entry => { entry with outputs := entry.outputs ++ [output] }
    | none => { startIndex := parentCount, outputs := [output] }
  (entry, entry.startIndex + entry.outputs.length - 1)

def insertKeyOutputToGlobalIndex (parent : List BlockchainCache) (cache : BlockchainCache)
    (amount : UInt64) (output : PackedOutIndex) (blockIndex : Nat) : BlockchainCache × Nat :=
  let inserted := insertToGlobalIndex (cache.keyOutputsGlobalIndexes amount)
    (getKeyOutputsCountForAmount parent amount blockIndex) output
  ({ cache with
      keyOutputsGlobalIndexes := Function.update cache.keyOutputsGlobalIndexes amount (some inserted.1) },
    inserted.2)

def insertMultisignatureToGlobalIndex (parent : List BlockchainCache) (cache : BlockchainCache)
    (amount : UInt64) (output : PackedOutIndex) (blockIndex : Nat) : BlockchainCache × Nat :=
  let inserted := insertToGlobalIndex (cache.multisignatureStorage amount)
    (getMultisignatureCountForAmount parent amount blockIndex) output
  ({ cache with
      multisignatureStorage := Function.update cache.multisignatureStorage amount (some inserted.1) },
    inserted.2)

/-- The output loop of `pushTransaction`: every output gets the next global
index of its amount, among the key outputs or among the multisignature outputs. -/
def insertOutputs (parent : List BlockchainCache) (blockIndex transactionIndex : Nat) :
    BlockchainCache → List TransactionOutput → Nat → BlockchainCache × List Nat
  | cache, [], _ => (cache, [])
  | cache, output :: outputs, outputIndex =>
      let poi : PackedOutIndex := ⟨blockIndex, transactionIndex, outputIndex⟩
      let inserted :=
        match output.target with
        | .key _ => insertKeyOutputToGlobalIndex parent cache output.amount poi blockIndex
        | .multisignature _ => insertMultisignatureToGlobalIndex parent cache output.amount poi blockIndex
      let rest := insertOutputs parent blockIndex transactionIndex inserted.1 outputs (outputIndex + 1)
      (rest.1, inserted.2 :: rest.2)

/-- `transactions.insert(info)`: nothing is inserted when the block position or
the hash is already there. -/
def insertTransactionInfo (transactions : List CachedTransactionInfo) (info : CachedTransactionInfo) :
    List CachedTransactionInfo :=
  if transactions.any fun other =>
      (other.blockIndex == info.blockIndex && other.transactionIndex == info.transactionIndex) ||
        other.transactionHash == info.transactionHash then transactions
  else transactions ++ [info]

/-- `paymentIds.insert(pair)`: the transaction-hash index is unique. -/
def insertPaymentId (paymentIds : List PaymentIdTransactionHashPair) (pair : PaymentIdTransactionHashPair) :
    List PaymentIdTransactionHashPair :=
  if paymentIds.any (·.transactionHash == pair.transactionHash) then paymentIds
  else paymentIds ++ [pair]

def pushTransaction (parent : List BlockchainCache) (cache : BlockchainCache)
    (cachedTransaction : CachedTransaction) (blockIndex transactionInBlockIndex : Nat) : BlockchainCache :=
  let tx := cachedTransaction.transaction
  let inserted := insertOutputs parent blockIndex transactionInBlockIndex cache tx.outputs 0
  let transactionCacheInfo : CachedTransactionInfo :=
    { blockIndex
      transactionIndex := transactionInBlockIndex
      transactionHash := cachedTransaction.transactionHash
      unlockTime := tx.unlockTime
      outputs := tx.outputs.map (·.target)
      globalIndexes := inserted.2 }
  let cache := { inserted.1 with
    transactions := insertTransactionInfo inserted.1.transactions transactionCacheInfo }
  match getPaymentIdFromTxExtra tx.extra with
  | none => cache
  | some paymentId =>
      { cache with
        paymentIds := insertPaymentId cache.paymentIds ⟨paymentId, cachedTransaction.transactionHash⟩ }

/-- The transaction loop of `doPushBlock`: the coinbase is transaction 0. -/
def pushTransactions (parent : List BlockchainCache) (blockIndex : Nat) :
    BlockchainCache → List CachedTransaction → Nat → BlockchainCache
  | cache, [], _ => cache
  | cache, transaction :: transactions, transactionBlockIndex =>
      pushTransactions parent blockIndex (pushTransaction parent cache transaction blockIndex transactionBlockIndex)
        transactions (transactionBlockIndex + 1)

/-- `addSpentKeyImage` for every key image of the block's state.  The key-image
index is unique, so an image already recorded keeps its block. -/
def addSpentKeyImages (spentKeyImages : KeyImage → Option Nat) (keyImages : Finset KeyImage)
    (blockIndex : Nat) : KeyImage → Option Nat :=
  fun keyImage =>
    if keyImage ∈ keyImages then
      match spentKeyImages keyImage with
      | some spentIndex => some spentIndex
      | none => some blockIndex
    else spentKeyImages keyImage

/-- `pushBlock` (`doPushBlock`) without the block size and the raw block, which
only the raw-block and block-size queries read.  A segment's first block takes
its totals from the parent at the block below it. -/
def pushBlock (parent : List BlockchainCache) (cache : BlockchainCache) (cachedBlock : CachedBlock)
    (cachedTransactions : List CachedTransaction) (validatorState : TransactionValidatorState)
    (generatedCoins blockDifficulty : UInt64) : BlockchainCache :=
  let blockIndex := cachedBlock.getBlockIndex
  let previous : UInt64 × UInt64 × UInt64 :=
    match cache.blockInfos.getLast? with
    | some last => (last.cumulativeDifficulty, last.alreadyGeneratedCoins, last.alreadyGeneratedTransactions)
    | none =>
        ((getCurrentCumulativeDifficulty parent (blockIndex - 1)).getD 0,
          (getAlreadyGeneratedCoins parent (blockIndex - 1)).getD 0,
          (getAlreadyGeneratedTransactions parent (blockIndex - 1)).getD 0)
  let blockInfo : CachedBlockInfo :=
    { blockHash := cachedBlock.blockHash
      timestamp := cachedBlock.block.timestamp
      cumulativeDifficulty := previous.1 + blockDifficulty
      alreadyGeneratedCoins := previous.2.1 + generatedCoins
      alreadyGeneratedTransactions := previous.2.2 + cachedTransactions.length.toUInt64 + 1 }
  let cache := { cache with
    blockInfos := if cache.hasBlock blockInfo.blockHash then cache.blockInfos else cache.blockInfos ++ [blockInfo]
    spentKeyImages := addSpentKeyImages cache.spentKeyImages validatorState.spentKeyImages blockIndex
    spentMultisigOutputs := cache.spentMultisigOutputs ∪ validatorState.spentMultisignatureGlobalIndexes }
  let cache := pushTransactions parent blockIndex cache (cachedBlock.cachedBaseTransaction :: cachedTransactions) 0
  { cache with storageBlockCount := cache.storageBlockCount + 1 }

/-! ## Splitting -/

/-- `splitGlobalIndexes`, entry by entry: the outputs from block
`splitBlockIndex` up move to the upper segment's entry, which starts after the
outputs that stay; an entry left without outputs is erased. -/
def splitGlobalIndexes (container : UInt64 → Option OutputGlobalIndexesForAmount) (splitBlockIndex : Nat) :
    (UInt64 → Option OutputGlobalIndexesForAmount) × (UInt64 → Option OutputGlobalIndexesForAmount) :=
  let cut (entry : OutputGlobalIndexesForAmount) := lowerBound PackedOutIndex.blockIndex entry.outputs splitBlockIndex
  (fun amount => (container amount).bind fun entry =>
      if entry.outputs.take (cut entry) = [] then none
      else some { entry with outputs := entry.outputs.take (cut entry) },
    fun amount => (container amount).bind fun entry =>
      if entry.outputs.drop (cut entry) = [] then none
      else
        some { startIndex := entry.startIndex + entry.outputs.length - (entry.outputs.drop (cut entry)).length
               outputs := entry.outputs.drop (cut entry) })

/-- `split(splitBlockIndex)`: the lower segment, which keeps the blocks below
`splitBlockIndex`, and the upper one, which starts there.  The payment ids of
the moved transactions move with them (`removePaymentId`).  The set of spent
multisignature outputs is not split: the lower segment keeps all of it. -/
def split (cache : BlockchainCache) (splitBlockIndex : Nat) : BlockchainCache × BlockchainCache :=
  let localIndex := splitBlockIndex - cache.startIndex
  let moved := cache.transactions.filter fun tx => splitBlockIndex ≤ tx.blockIndex
  let keyOutputs := splitGlobalIndexes cache.keyOutputsGlobalIndexes splitBlockIndex
  let multisignatures := splitGlobalIndexes cache.multisignatureStorage splitBlockIndex
  ({ cache with
      transactions := cache.transactions.filter fun tx => tx.blockIndex < splitBlockIndex
      spentKeyImages := fun keyImage => (cache.spentKeyImages keyImage).filter fun spentIndex => spentIndex < splitBlockIndex
      blockInfos := cache.blockInfos.take localIndex
      keyOutputsGlobalIndexes := keyOutputs.1
      multisignatureStorage := multisignatures.1
      paymentIds := cache.paymentIds.filter fun pair => !moved.any (·.transactionHash == pair.transactionHash)
      storageBlockCount := localIndex },
    { create splitBlockIndex with
      transactions := moved
      spentKeyImages := fun keyImage => (cache.spentKeyImages keyImage).filter fun spentIndex => splitBlockIndex ≤ spentIndex
      blockInfos := cache.blockInfos.drop localIndex
      keyOutputsGlobalIndexes := keyOutputs.2
      multisignatureStorage := multisignatures.2
      paymentIds := moved.filterMap fun tx => cache.paymentIds.find? (·.transactionHash == tx.transactionHash)
      storageBlockCount := cache.storageBlockCount - localIndex })

end BlockchainCache

end CryptoNote
