import CryptoNote.Core.Transaction
import CryptoNote.Lib.Loops

/-! # The wallet's transfers container (`Transfers/TransfersContainer.cpp`)

A transfer is an output of a transaction that the wallet owns.  It sits in one
of three sets: unconfirmed (its transaction is in the pool), available
(confirmed and unspent) or spent (with the block and transaction spending it).
A key output is known by its key image, a multisignature output by its amount
and global index (`SpentOutputDescriptor`).  Several transfers may carry one key
image; `updateTransfersVisibility` marks which of them the wallet counts.

The multi-index containers are lists.  Their hashed indices iterate in an order
the source does not fix; the model takes the lists' order, which decides only
which of two transfers tied on `(blockHeight, transactionIndex)` comes first.  A
loop over an index range that erases as it goes is a loop over the first
matching transfer while there is one.

A method that throws keeps the changes it made before the throw, as in C++:
the methods run in `EStateM String TransfersContainer`, whose `tryCatch` does
not restore the state. -/

set_option autoImplicit false

namespace CryptoNote

open Crypto

def WALLET_LEGACY_UNCONFIRMED_TRANSACTION_HEIGHT : UInt32 := 0xFFFFFFFF
def UNCONFIRMED_TRANSACTION_GLOBAL_OUTPUT_INDEX : UInt32 := 0xFFFFFFFF

inductive OutputType
  | Key | Multisignature
deriving DecidableEq, Repr

structure TransactionBlockInfo where
  height : UInt32
  timestamp : UInt64
  transactionIndex : UInt32
deriving DecidableEq, Repr

/-- What the consumer passes for an output it owns. -/
structure TransactionOutputInformationIn where
  type : OutputType
  amount : UInt64
  globalOutputIndex : UInt32
  outputInTransaction : UInt32
  keyImage : KeyImage
deriving DecidableEq, Repr

structure TransactionOutputInformationEx extends TransactionOutputInformationIn where
  transactionHash : Hash
  unlockTime : UInt64
  blockHeight : UInt32
  transactionIndex : UInt32
  visible : Bool
deriving DecidableEq, Repr

structure SpentTransactionOutput extends TransactionOutputInformationEx where
  spendingBlock : TransactionBlockInfo
  spendingTransactionHash : Hash
  inputInTransaction : UInt32
deriving DecidableEq, Repr

structure TransactionInformation where
  transactionHash : Hash
  blockHeight : UInt32
  timestamp : UInt64
deriving DecidableEq, Repr

/-- The parts of `ITransactionReader` the container reads. -/
structure TransactionReader where
  transactionHash : Hash
  unlockTime : UInt64
  inputs : List TransactionInput

inductive SpentOutputDescriptor
  | key (keyImage : KeyImage)
  | multisignature (amount : UInt64) (globalOutputIndex : UInt32)
deriving DecidableEq, Repr

def TransactionOutputInformationIn.getSpentOutputDescriptor (t : TransactionOutputInformationIn) :
    SpentOutputDescriptor :=
  match t.type with
  | .Key => .key t.keyImage
  | .Multisignature => .multisignature t.amount t.globalOutputIndex

/-- `lessTIterator`: an earlier block, or the same block and an earlier transaction. -/
def lessTIterator (it1 it2 : TransactionOutputInformationEx) : Bool :=
  it1.blockHeight < it2.blockHeight ||
    (it1.blockHeight == it2.blockHeight && it1.transactionIndex < it2.transactionIndex)

/-- `minElement` over the transfers of `l` with descriptor `d`: the position of
the first of the least under `lessTIterator`. -/
def minElement (d : SpentOutputDescriptor) (l : List TransactionOutputInformationEx) : Option Nat :=
  (l.zipIdx.foldl (fun best e =>
      if e.1.getSpentOutputDescriptor = d then
        match best with
        | some m => if lessTIterator e.1 m.1 then some e else some m
        | none => some e
      else best) none).map Prod.snd

/-- `sort()` then `findFirstByAmount(amount)` over the transfers of `l` with
descriptor `d`: the position of the first one with that amount.  `std::sort`
may order ties either way; the model keeps them in list order. -/
def findFirstByAmount (d : SpentOutputDescriptor) (amount : UInt64) (l : List TransactionOutputInformationEx) :
    Option Nat :=
  let sorted := (l.zipIdx.filter (·.1.getSpentOutputDescriptor = d)).mergeSort
    fun a b => !lessTIterator b.1 a.1
  (sorted.find? (·.1.amount = amount)).map Prod.snd

/-- `updateVisibility(collection, range, visible)` over the range of descriptor `d`. -/
def updateVisibility (d : SpentOutputDescriptor) (visible : Bool) (l : List TransactionOutputInformationEx) :
    List TransactionOutputInformationEx :=
  l.map fun t => if t.getSpentOutputDescriptor = d then { t with visible := visible } else t

/-- The currency's unlock rules and `m_transactionSpendableAge`. -/
structure TransfersSettings where
  maxBlockHeight : UInt32
  lockedTxAllowedDeltaBlocks : Nat
  lockedTxAllowedDeltaSeconds : Nat
  transactionSpendableAge : Nat

structure TransfersContainer where
  transactions : List TransactionInformation
  unconfirmedTransfers : List TransactionOutputInformationEx
  availableTransfers : List TransactionOutputInformationEx
  spentTransfers : List SpentTransactionOutput
  currentHeight : UInt32
deriving DecidableEq, Repr

abbrev ContainerM := EStateM String TransfersContainer

namespace TransfersContainer

variable (s : TransfersContainer)

def empty : TransfersContainer := ⟨[], [], [], [], 0⟩

def hasTransaction (transactionHash : Hash) : Bool :=
  s.transactions.any (·.transactionHash = transactionHash)

def updateTransfersVisibility (keyImage : KeyImage) : TransfersContainer :=
  let descriptor := SpentOutputDescriptor.key keyImage
  let unconfirmedCount := s.unconfirmedTransfers.countP (·.getSpentOutputDescriptor = descriptor)
  let availableCount := s.availableTransfers.countP (·.getSpentOutputDescriptor = descriptor)
  let spentCount := s.spentTransfers.countP (·.getSpentOutputDescriptor = descriptor)
  if spentCount > 0 then
    { s with
      unconfirmedTransfers := updateVisibility descriptor false s.unconfirmedTransfers
      availableTransfers := updateVisibility descriptor false s.availableTransfers
      spentTransfers := s.spentTransfers.map fun t =>
        if t.getSpentOutputDescriptor = descriptor then { t with visible := true } else t }
  else if availableCount > 0 then
    let hidden := updateVisibility descriptor false s.availableTransfers
    { s with
      unconfirmedTransfers := updateVisibility descriptor false s.unconfirmedTransfers
      availableTransfers := match minElement descriptor s.availableTransfers with
        | some i => hidden.modify i fun t => { t with visible := true }
        | none => hidden }
  else
    { s with unconfirmedTransfers := updateVisibility descriptor (unconfirmedCount == 1) s.unconfirmedTransfers }

/-- `updateTransfersVisibility` where the source calls it after a change to a
transfer: for key outputs only. -/
def updateAfter (t : TransactionOutputInformationIn) : TransfersContainer :=
  if t.type = .Key then s.updateTransfersVisibility t.keyImage else s

def copyToSpent (block : TransactionBlockInfo) (tx : TransactionReader) (inputIndex : Nat)
    (output : TransactionOutputInformationEx) : TransfersContainer :=
  let spentOutput : SpentTransactionOutput :=
    { toTransactionOutputInformationEx := output, spendingBlock := block,
      spendingTransactionHash := tx.transactionHash, inputInTransaction := inputIndex.toUInt32 }
  -- the spent index is unique: `emplace` inserts nothing when the descriptor is there
  if s.spentTransfers.any (·.getSpentOutputDescriptor = spentOutput.getSpentOutputDescriptor) then s
  else { s with spentTransfers := s.spentTransfers ++ [spentOutput] }

/-! ### `deleteTransactionTransfers` -/

/-- One turn of the first loop: a transfer the transaction spent goes back to
the available ones. -/
def restoreSpent (s : TransfersContainer) (transactionHash : Hash) : TransfersContainer :=
  match s.spentTransfers.find? (·.spendingTransactionHash = transactionHash) with
  | some t =>
    { s with
      availableTransfers := s.availableTransfers ++ [t.toTransactionOutputInformationEx]
      spentTransfers := s.spentTransfers.erase t }.updateAfter t.toTransactionOutputInformationIn
  | none => s

/-- One turn of the second loop: an unconfirmed transfer of the transaction is erased. -/
def eraseUnconfirmed (s : TransfersContainer) (transactionHash : Hash) : TransfersContainer :=
  match s.unconfirmedTransfers.findIdx? (·.transactionHash = transactionHash) with
  | some i =>
    match s.unconfirmedTransfers[i]? with
    | some t => { s with unconfirmedTransfers := s.unconfirmedTransfers.eraseIdx i }.updateAfter
        t.toTransactionOutputInformationIn
    | none => s
  | none => s

/-- One turn of the third loop: an available transfer of the transaction is erased. -/
def eraseAvailable (s : TransfersContainer) (transactionHash : Hash) : TransfersContainer :=
  match s.availableTransfers.findIdx? (·.transactionHash = transactionHash) with
  | some i =>
    match s.availableTransfers[i]? with
    | some t => { s with availableTransfers := s.availableTransfers.eraseIdx i }.updateAfter
        t.toTransactionOutputInformationIn
    | none => s
  | none => s

def deleteTransactionTransfers (transactionHash : Hash) : TransfersContainer :=
  let s := Loops.whileLoop (·.spentTransfers.any (·.spendingTransactionHash = transactionHash))
    (restoreSpent · transactionHash) s.spentTransfers.length s
  let s := Loops.whileLoop (·.unconfirmedTransfers.any (·.transactionHash = transactionHash))
    (eraseUnconfirmed · transactionHash) s.unconfirmedTransfers.length s
  Loops.whileLoop (·.availableTransfers.any (·.transactionHash = transactionHash))
    (eraseAvailable · transactionHash) s.availableTransfers.length s

/-- The private `addTransaction(block, tx)`: the transaction's record. -/
def addTransactionInformation (block : TransactionBlockInfo) (tx : TransactionReader) : TransfersContainer :=
  if s.hasTransaction tx.transactionHash then s
  else { s with transactions := s.transactions ++
    [{ transactionHash := tx.transactionHash, blockHeight := block.height, timestamp := block.timestamp }] }

end TransfersContainer

open TransfersContainer

/-! ## Adding a transaction -/

def addTransactionOutput (block : TransactionBlockInfo) (tx : TransactionReader)
    (transfer : TransactionOutputInformationIn) : ContainerM Unit := do
  let transactionIsUnconfimed := block.height = WALLET_LEGACY_UNCONFIRMED_TRANSACTION_HEIGHT
  let transferIsUnconfirmed := transfer.globalOutputIndex = UNCONFIRMED_TRANSACTION_GLOBAL_OUTPUT_INDEX
  if transactionIsUnconfimed ≠ transferIsUnconfirmed then
    throw "Failed to add transaction output: globalOutputIndex is invalid"
  let info : TransactionOutputInformationEx :=
    { toTransactionOutputInformationIn := transfer, blockHeight := block.height,
      transactionIndex := block.transactionIndex, unlockTime := tx.unlockTime,
      transactionHash := tx.transactionHash, visible := true }
  let s ← get
  if transferIsUnconfirmed then
    set { s with unconfirmedTransfers := s.unconfirmedTransfers ++ [info] }
  else
    let descriptor := transfer.getSpentOutputDescriptor
    match info.type with
    | .Key =>
      let sameOutput := fun (t : TransactionOutputInformationEx) =>
        t.getSpentOutputDescriptor = descriptor ∧ t.transactionHash = info.transactionHash ∧
          t.outputInTransaction = info.outputInTransaction
      if s.availableTransfers.any sameOutput ∨ s.spentTransfers.any (sameOutput ·.toTransactionOutputInformationEx) then
        throw "Failed to add transaction output: key output already exists"
    | .Multisignature =>
      if s.availableTransfers.any (·.getSpentOutputDescriptor = descriptor) ∨
          s.spentTransfers.any (·.getSpentOutputDescriptor = descriptor) then
        throw "Failed to add transaction output: multisignature output already exists"
    set { s with availableTransfers := s.availableTransfers ++ [info] }
  modify (·.updateAfter transfer)

def addTransactionOutputs (block : TransactionBlockInfo) (tx : TransactionReader) :
    List TransactionOutputInformationIn → ContainerM Bool
  | [] => pure false
  | transfer :: transfers => do
    addTransactionOutput block tx transfer
    let _ ← addTransactionOutputs block tx transfers
    pure true

def addTransactionInput (block : TransactionBlockInfo) (tx : TransactionReader) (i : Nat) :
    TransactionInput → ContainerM Bool
  | .key input => do
    let s ← get
    let descriptor := SpentOutputDescriptor.key input.keyImage
    if s.spentTransfers.any (·.getSpentOutputDescriptor = descriptor) then
      throw "Failed add key input: key image already spent"
    let availableCount := s.availableTransfers.countP (·.getSpentOutputDescriptor = descriptor)
    let unconfirmedCount := s.unconfirmedTransfers.countP (·.getSpentOutputDescriptor = descriptor)
    if availableCount = 0 then
      if unconfirmedCount > 0 then throw "Failed to add key input: spend output of unconfirmed transaction"
      else return false
    match findFirstByAmount descriptor input.amount s.availableTransfers with
    | none => throw "Failed to add key input: invalid amount"
    | some j =>
      match s.availableTransfers[j]? with
      | none => throw "Failed to add key input: invalid amount"
      | some output =>
        let s := s.copyToSpent block tx i output
        set ({ s with availableTransfers := s.availableTransfers.eraseIdx j }.updateTransfersVisibility
          input.keyImage)
        pure true
  | .multisignature input => do
    let s ← get
    let descriptor := SpentOutputDescriptor.multisignature input.amount input.outputIndex
    match s.availableTransfers.findIdx? (·.getSpentOutputDescriptor = descriptor) with
    | none => pure false
    | some j =>
      match s.availableTransfers[j]? with
      | none => pure false
      | some output =>
        let s := s.copyToSpent block tx i output
        set { s with availableTransfers := s.availableTransfers.eraseIdx j }
        pure true
  | .base _ => pure false

def addTransactionInputsFrom (block : TransactionBlockInfo) (tx : TransactionReader) :
    Nat → List TransactionInput → ContainerM Bool
  | _, [] => pure false
  | i, input :: inputs => do
    let added ← addTransactionInput block tx i input
    let others ← addTransactionInputsFrom block tx (i + 1) inputs
    pure (added || others)

def addTransactionInputs (block : TransactionBlockInfo) (tx : TransactionReader) : ContainerM Bool :=
  addTransactionInputsFrom block tx 0 tx.inputs

/-- `addTransaction(block, tx, transfers)`: on an exception, the transfers of a
transaction that was not recorded are deleted and the exception is thrown on. -/
def addTransaction (block : TransactionBlockInfo) (tx : TransactionReader)
    (transfers : List TransactionOutputInformationIn) : ContainerM Bool :=
  tryCatch
    (do
      let s ← get
      if block.height < s.currentHeight then
        throw "Failed to add transaction: block index < m_currentHeight"
      if s.hasTransaction tx.transactionHash then throw "Transaction is already added"
      let outputsAdded ← addTransactionOutputs block tx transfers
      let inputsAdded ← addTransactionInputs block tx
      let added := outputsAdded || inputsAdded
      if added then modify (·.addTransactionInformation block tx)
      if block.height ≠ WALLET_LEGACY_UNCONFIRMED_TRANSACTION_HEIGHT then
        modify fun s => { s with currentHeight := block.height }
      pure added)
    fun e => do
      let s ← get
      if !s.hasTransaction tx.transactionHash then
        set (s.deleteTransactionTransfers tx.transactionHash)
      throw e

/-! ## Confirming, deleting and detaching -/

def deleteUnconfirmedTransaction (transactionHash : Hash) : ContainerM Bool := do
  let s ← get
  match s.transactions.find? (·.transactionHash = transactionHash) with
  | none => pure false
  | some it =>
    if it.blockHeight ≠ WALLET_LEGACY_UNCONFIRMED_TRANSACTION_HEIGHT then pure false
    else
      set { s.deleteTransactionTransfers it.transactionHash with
        transactions := s.transactions.erase it }
      pure true

def replaceTransaction (txInfo : TransactionInformation) (update : TransactionInformation → TransactionInformation) :
    ContainerM Unit :=
  modify fun s => { s with transactions := s.transactions.map fun t => if t = txInfo then update t else t }

/-- The loop of `markTransactionConfirmed` over the unconfirmed transfers of the
transaction: each is given its block and global index and made available. -/
def confirmTransfers (block : TransactionBlockInfo) (transactionHash : Hash) (globalIndices : List UInt32) :
    Nat → ContainerM Unit
  | 0 => pure ()
  | fuel + 1 => do
    let s ← get
    match s.unconfirmedTransfers.findIdx? (·.transactionHash = transactionHash) with
    | none => pure ()
    | some i =>
      match s.unconfirmedTransfers[i]? with
      | none => pure ()
      | some transfer =>
        match globalIndices[transfer.outputInTransaction.toNat]? with
        | none => throw "Failed to confirm transaction: not enough elements in globalIndices"
        | some globalOutputIndex =>
          let transfer := { transfer with
            blockHeight := block.height
            transactionIndex := block.transactionIndex
            globalOutputIndex := globalOutputIndex }
          if transfer.type = .Multisignature ∧
              (s.availableTransfers.any (·.getSpentOutputDescriptor = transfer.getSpentOutputDescriptor) ∨
                s.spentTransfers.any (·.getSpentOutputDescriptor = transfer.getSpentOutputDescriptor)) then
            throw "Failed to confirm transaction: multisignature output already exists"
          set ({ s with
            availableTransfers := s.availableTransfers ++ [transfer]
            unconfirmedTransfers := s.unconfirmedTransfers.eraseIdx i }.updateAfter transfer.toTransactionOutputInformationIn)
          confirmTransfers block transactionHash globalIndices fuel

def setSpendingBlock (transactionHash : Hash) (block : TransactionBlockInfo) : ContainerM Unit :=
  modify fun s => { s with spentTransfers := s.spentTransfers.map fun t =>
    if t.spendingTransactionHash = transactionHash then { t with spendingBlock := block } else t }

/-- One turn of the rollback loop: an available transfer of the transaction is
made unconfirmed again, with constant block, index and global index. -/
def unconfirmAvailable (s : TransfersContainer) (transactionHash : Hash) : TransfersContainer :=
  match s.availableTransfers.findIdx? (·.transactionHash = transactionHash) with
  | some i =>
    match s.availableTransfers[i]? with
    | some t =>
      let unconfirmedTransfer := { t with
        blockHeight := WALLET_LEGACY_UNCONFIRMED_TRANSACTION_HEIGHT
        transactionIndex := 0
        globalOutputIndex := UNCONFIRMED_TRANSACTION_GLOBAL_OUTPUT_INDEX }
      { s with
        unconfirmedTransfers := s.unconfirmedTransfers ++ [unconfirmedTransfer]
        availableTransfers := s.availableTransfers.eraseIdx i }.updateAfter
          unconfirmedTransfer.toTransactionOutputInformationIn
    | none => s
  | none => s

def markTransactionConfirmed (block : TransactionBlockInfo) (transactionHash : Hash)
    (globalIndices : List UInt32) : ContainerM Bool := do
  if block.height = WALLET_LEGACY_UNCONFIRMED_TRANSACTION_HEIGHT then
    throw "Failed to confirm transaction: block height is unconfirmed"
  let s ← get
  match s.transactions.find? (·.transactionHash = transactionHash) with
  | none => pure false
  | some txInfo =>
    if txInfo.blockHeight ≠ WALLET_LEGACY_UNCONFIRMED_TRANSACTION_HEIGHT then return false
    let confirmed := { txInfo with blockHeight := block.height, timestamp := block.timestamp }
    tryCatch
      (do
        replaceTransaction txInfo fun _ => confirmed
        confirmTransfers block transactionHash globalIndices s.unconfirmedTransfers.length
        setSpendingBlock transactionHash block
        pure true)
      fun e => do
        replaceTransaction confirmed fun t =>
          { t with blockHeight := WALLET_LEGACY_UNCONFIRMED_TRANSACTION_HEIGHT, timestamp := 0 }
        modify fun s => Loops.whileLoop (·.availableTransfers.any (·.transactionHash = transactionHash))
          (unconfirmAvailable · transactionHash) s.availableTransfers.length s
        setSpendingBlock transactionHash
          { height := WALLET_LEGACY_UNCONFIRMED_TRANSACTION_HEIGHT, timestamp := 0, transactionIndex := 0 }
        throw e

/-- The walk of `detach` over the transactions from the greatest height down:
unconfirmed ones are deleted when they spend a transfer of a block at or above
`height`, confirmed ones when they are at or above it; the first confirmed one
below it ends the walk. -/
def detachLoop (height : UInt32) :
    List TransactionInformation → TransfersContainer × List Hash → TransfersContainer × List Hash
  | [], acc => acc
  | it :: rest, (s, deletedTransactions) =>
    let doDelete :=
      if it.blockHeight = WALLET_LEGACY_UNCONFIRMED_TRANSACTION_HEIGHT then
        some (s.spentTransfers.any fun t => t.spendingTransactionHash = it.transactionHash ∧ t.blockHeight ≥ height)
      else if it.blockHeight ≥ height then some true
      else none
    match doDelete with
    | none => (s, deletedTransactions)
    | some false => detachLoop height rest (s, deletedTransactions)
    | some true =>
      detachLoop height rest
        ({ s.deleteTransactionTransfers it.transactionHash with transactions := s.transactions.erase it },
          deletedTransactions ++ [it.transactionHash])

def detach (height : UInt32) : ContainerM (List Hash) := do
  let s ← get
  -- `m_transactions.get<1>()` orders by height, ties in the order of insertion
  let byHeight := (s.transactions.mergeSort fun a b => a.blockHeight ≤ b.blockHeight).reverse
  let (s, deletedTransactions) := detachLoop height byHeight (s, [])
  set { s with currentHeight := if height = 0 then 0 else height - 1 }
  pure deletedTransactions

def advanceHeight (height : UInt32) : ContainerM Bool := do
  let s ← get
  if s.currentHeight ≤ height then
    set { s with currentHeight := height }
    pure true
  else pure false

/-! ## Balance -/

def IncludeStateUnlocked : UInt32 := 0x01
def IncludeStateLocked : UInt32 := 0x02
def IncludeStateSoftLocked : UInt32 := 0x04
def IncludeTypeKey : UInt32 := 0x100
def IncludeTypeMultisignature : UInt32 := 0x200
def IncludeStateAll : UInt32 := 0xff
def IncludeTypeAll : UInt32 := 0xff00
def IncludeAll : UInt32 := IncludeTypeAll ||| IncludeStateAll

namespace TransfersContainer

variable (s : TransfersContainer) (settings : TransfersSettings) (currentTime : Nat)

/-- `isSpendTimeUnlocked`, at the wall-clock time `currentTime`. -/
def isSpendTimeUnlocked (unlockTime : UInt64) : Bool :=
  if unlockTime.toNat < settings.maxBlockHeight.toNat then
    s.currentHeight.toNat + settings.lockedTxAllowedDeltaBlocks ≥ unlockTime.toNat
  else currentTime + settings.lockedTxAllowedDeltaSeconds ≥ unlockTime.toNat

def isIncludedType (type : OutputType) (state flags : UInt32) : Bool :=
  ((flags &&& IncludeTypeKey ≠ 0 ∧ type = .Key) ∨
    (flags &&& IncludeTypeMultisignature ≠ 0 ∧ type = .Multisignature)) ∧ flags &&& state ≠ 0

def isIncluded (info : TransactionOutputInformationEx) (flags : UInt32) : Bool :=
  let state :=
    if info.blockHeight = WALLET_LEGACY_UNCONFIRMED_TRANSACTION_HEIGHT ∨
        !s.isSpendTimeUnlocked settings currentTime info.unlockTime then IncludeStateLocked
    else if s.currentHeight.toNat < info.blockHeight.toNat + settings.transactionSpendableAge then
      IncludeStateSoftLocked
    else IncludeStateUnlocked
  isIncludedType info.type state flags

/-- The transfers `getOutputs(flags)` returns, which are those `balance(flags)` adds up. -/
def getOutputs (flags : UInt32) : List TransactionOutputInformationEx :=
  s.availableTransfers.filter (fun t => t.visible ∧ s.isIncluded settings currentTime t flags) ++
    if flags &&& IncludeStateLocked ≠ 0 then
      s.unconfirmedTransfers.filter fun t => t.visible ∧ isIncludedType t.type IncludeStateLocked flags
    else []

/-- `balance(flags)`, with `uint64_t` wrapping. -/
def balance (flags : UInt32) : UInt64 :=
  ((s.getOutputs settings currentTime flags).map (·.amount)).foldl (· + ·) 0

end TransfersContainer

/-! ## A failed confirmation -/

/-- A pool transaction with two key outputs, added with the block index that
`TransfersConsumer::onPoolUpdated` leaves uninitialized, here `3`. -/
def poolBlock : TransactionBlockInfo := ⟨WALLET_LEGACY_UNCONFIRMED_TRANSACTION_HEIGHT, 0, 3⟩

def poolTransaction : TransactionReader := ⟨Hash.ofByte 1, 0, []⟩

def poolTransfer (output : UInt32) : TransactionOutputInformationIn :=
  ⟨.Key, 5, UNCONFIRMED_TRANSACTION_GLOBAL_OUTPUT_INDEX, output, KeyImage.ofByte (output.toUInt8 + 2)⟩

/-- The pool transaction's transfer of output `output`, at block index `index`. -/
def pooledTransfer (output index : UInt32) : TransactionOutputInformationEx where
  toTransactionOutputInformationIn := poolTransfer output
  transactionHash := Hash.ofByte 1
  unlockTime := 0
  blockHeight := WALLET_LEGACY_UNCONFIRMED_TRANSACTION_HEIGHT
  transactionIndex := index
  visible := true

def pooled (transfers : List TransactionOutputInformationEx) : TransfersContainer :=
  ⟨[⟨Hash.ofByte 1, WALLET_LEGACY_UNCONFIRMED_TRANSACTION_HEIGHT, 0⟩], transfers, [], [], 0⟩

theorem confirmRollback_resetsTransactionIndex :
    (addTransaction poolBlock poolTransaction [poolTransfer 0, poolTransfer 1]).run TransfersContainer.empty =
        .ok true (pooled [pooledTransfer 0 3, pooledTransfer 1 3]) ∧
      (markTransactionConfirmed ⟨10, 7, 1⟩ (Hash.ofByte 1) [42]).run
          (pooled [pooledTransfer 0 3, pooledTransfer 1 3]) =
        .error "Failed to confirm transaction: not enough elements in globalIndices"
          (pooled [pooledTransfer 1 3, pooledTransfer 0 0]) := by
  constructor <;> rfl

end CryptoNote
