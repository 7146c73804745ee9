import CryptoNote.Core.BlockchainCache

/-!
# The chain a list of segments stands for

What a chain of blocks says, read without segments: the blocks pushed onto it
from the genesis block up, block `i` at position `i`.  Its transactions are
placed by block and by position in the block (the coinbase first), an output's
global index is its position among the chain's outputs of its kind and amount,
a key image is spent in the block whose state holds it, and a block's totals add
up the values of the blocks up to it.  The refinement theorems compare every
query of a chain of `BlockchainCache` segments with these definitions.
-/

set_option autoImplicit false

namespace CryptoNote

open Crypto ListAlgorithms

/-- The arguments of one `pushBlock` call that a segment keeps. -/
structure PushedBlock where
  cachedBlock : CachedBlock
  cachedTransactions : List CachedTransaction
  validatorState : TransactionValidatorState
  generatedCoins : UInt64
  blockDifficulty : UInt64

def TransactionOutputTarget.isKey : TransactionOutputTarget → Bool
  | .key _ => true
  | .multisignature _ => false

def TransactionOutputTarget.publicKey : TransactionOutputTarget → Option PublicKey
  | .key output => some output.key
  | .multisignature _ => none

/-- Chain order of outputs: by block, then by transaction, then by output. -/
def PackedOutIndex.Before (p q : PackedOutIndex) : Prop :=
  p.blockIndex < q.blockIndex ∨
    (p.blockIndex = q.blockIndex ∧
      (p.transactionIndex < q.transactionIndex ∨
        (p.transactionIndex = q.transactionIndex ∧ p.outputIndex < q.outputIndex)))

theorem PackedOutIndex.Before.irrefl (p : PackedOutIndex) : ¬ p.Before p := by
  simp [PackedOutIndex.Before]

theorem PackedOutIndex.Before.ne {p q : PackedOutIndex} (before : p.Before q) : p ≠ q := by
  rintro rfl
  exact PackedOutIndex.Before.irrefl p before

theorem PackedOutIndex.Before.blockIndex_le {p q : PackedOutIndex} (before : p.Before q) :
    p.blockIndex ≤ q.blockIndex := by
  rcases before with lower | ⟨same, _⟩ <;> omega

/-- An output of the chain with its place and its transaction's unlock time. -/
structure ChainOutput where
  output : TransactionOutput
  packed : PackedOutIndex
  unlockTime : UInt64

/-- A transaction of the chain with its block and its place in the block. -/
structure ChainTransaction where
  blockIndex : Nat
  transactionIndex : Nat
  transaction : CachedTransaction

/-- Chain order of transactions: by block, then by place in the block. -/
def ChainTransaction.Earlier (x y : ChainTransaction) : Prop :=
  x.blockIndex < y.blockIndex ∨ (x.blockIndex = y.blockIndex ∧ x.transactionIndex < y.transactionIndex)

namespace Ledger

/-- A block's transactions in the order `pushBlock` stores them: the coinbase first. -/
def transactionsOf (block : PushedBlock) : List CachedTransaction :=
  block.cachedBlock.cachedBaseTransaction :: block.cachedTransactions

/-! ## Transactions in chain order -/

def placeTransactions (blockIndex : Nat) : List CachedTransaction → Nat → List ChainTransaction
  | [], _ => []
  | transaction :: transactions, transactionIndex =>
      ⟨blockIndex, transactionIndex, transaction⟩ ::
        placeTransactions blockIndex transactions (transactionIndex + 1)

def chainTransactionsFrom : List PushedBlock → Nat → List ChainTransaction
  | [], _ => []
  | block :: blocks, blockIndex =>
      placeTransactions blockIndex (transactionsOf block) 0 ++ chainTransactionsFrom blocks (blockIndex + 1)

def chainTransactions (blocks : List PushedBlock) : List ChainTransaction := chainTransactionsFrom blocks 0

/-! ## Outputs and their global indexes -/

def outputsFrom (blockIndex transactionIndex : Nat) (unlockTime : UInt64) :
    List TransactionOutput → Nat → List ChainOutput
  | [], _ => []
  | output :: outputs, outputIndex =>
      ⟨output, ⟨blockIndex, transactionIndex, outputIndex⟩, unlockTime⟩ ::
        outputsFrom blockIndex transactionIndex unlockTime outputs (outputIndex + 1)

def transactionOutputs (tx : ChainTransaction) : List ChainOutput :=
  outputsFrom tx.blockIndex tx.transactionIndex tx.transaction.transaction.unlockTime
    tx.transaction.transaction.outputs 0

def chainOutputs (blocks : List PushedBlock) : List ChainOutput :=
  (chainTransactions blocks).flatMap transactionOutputs

/-- The key outputs (`key = true`) or the multisignature outputs of one amount among `outs`. -/
def kindOutputs (key : Bool) (amount : UInt64) (outs : List ChainOutput) : List ChainOutput :=
  outs.filter fun o => o.output.amount == amount && o.output.target.isKey == key

def outputsOfKind (key : Bool) (blocks : List PushedBlock) (amount : UInt64) : List ChainOutput :=
  kindOutputs key amount (chainOutputs blocks)

def outputIndexes (key : Bool) (blocks : List PushedBlock) (amount : UInt64) : List PackedOutIndex :=
  (outputsOfKind key blocks amount).map (·.packed)

/-- The position of `o` among the outputs of `outs` of its kind and amount. -/
def indexIn (outs : List ChainOutput) (o : ChainOutput) : Nat :=
  ((kindOutputs o.output.target.isKey o.output.amount outs).map (·.packed)).idxOf o.packed

def globalIndex (blocks : List PushedBlock) (o : ChainOutput) : Nat := indexIn (chainOutputs blocks) o

/-- The key of the output with global index `globalIndex` among the key outputs of `amount`. -/
def keyAt (blocks : List PushedBlock) (amount : UInt64) (globalIndex : Nat) : Option PublicKey :=
  (outputsOfKind true blocks amount)[globalIndex]?.bind (·.output.target.publicKey)

/-! ## Transaction infos and payment ids -/

/-- The info `pushTransaction` records for `tx`, with global indexes read among `outs`. -/
def transactionInfoIn (outs : List ChainOutput) (tx : ChainTransaction) : CachedTransactionInfo where
  blockIndex := tx.blockIndex
  transactionIndex := tx.transactionIndex
  transactionHash := tx.transaction.transactionHash
  unlockTime := tx.transaction.transaction.unlockTime
  outputs := tx.transaction.transaction.outputs.map (·.target)
  globalIndexes := (transactionOutputs tx).map (indexIn outs)

def transactionInfos (blocks : List PushedBlock) : List CachedTransactionInfo :=
  (chainTransactions blocks).map (transactionInfoIn (chainOutputs blocks))

def transactionAt (blocks : List PushedBlock) (p : PackedOutIndex) : Option CachedTransactionInfo :=
  (transactionInfos blocks).find? fun info =>
    info.blockIndex == p.blockIndex && info.transactionIndex == p.transactionIndex

/-- The payment id a transaction carries in its extra, with its block. -/
def paymentPair (tx : ChainTransaction) : Option (Nat × PaymentIdTransactionHashPair) :=
  (getPaymentIdFromTxExtra tx.transaction.transaction.extra).map fun paymentId =>
    (tx.blockIndex, ⟨paymentId, tx.transaction.transactionHash⟩)

def paymentIds (blocks : List PushedBlock) : List (Nat × PaymentIdTransactionHashPair) :=
  (chainTransactions blocks).filterMap paymentPair

/-! ## Blocks and spends -/

/-- The info of block `blockIndex`: its hash and timestamp, and the sums of the
difficulties, the generated coins and the transaction counts up to it. -/
def blockInfo (blocks : List PushedBlock) (blockIndex : Nat) : Option CachedBlockInfo :=
  blocks[blockIndex]?.map fun block =>
    let upTo := blocks.take (blockIndex + 1)
    { blockHash := block.cachedBlock.blockHash
      timestamp := block.cachedBlock.block.timestamp
      cumulativeDifficulty := (upTo.map (·.blockDifficulty)).sum
      alreadyGeneratedCoins := (upTo.map (·.generatedCoins)).sum
      alreadyGeneratedTransactions := (upTo.map fun b => b.cachedTransactions.length.toUInt64 + 1).sum }

/-- The sums `blockInfo` keeps for a whole chain: difficulty, generated coins and transactions. -/
def chainTotals (blocks : List PushedBlock) : UInt64 × UInt64 × UInt64 :=
  ((blocks.map (·.blockDifficulty)).sum, (blocks.map (·.generatedCoins)).sum,
    (blocks.map fun b => b.cachedTransactions.length.toUInt64 + 1).sum)

def spentKeyImage (blocks : List PushedBlock) (keyImage : KeyImage) : Option Nat :=
  blocks.findIdx? fun block => decide (keyImage ∈ block.validatorState.spentKeyImages)

/-- A multisignature output spent by a block of `[start, stop)`. -/
def SpentMultisignatureIn (blocks : List PushedBlock) (start stop : Nat) (output : UInt64 × UInt32) : Prop :=
  ∃ blockIndex block, start ≤ blockIndex ∧ blockIndex < stop ∧ blocks[blockIndex]? = some block ∧
    output ∈ block.validatorState.spentMultisignatureGlobalIndexes

/-- What `pushBlock` asserts of the blocks it is given: each carries its own
index, and no block hash, transaction hash or key image comes twice. -/
structure WellFormed (blocks : List PushedBlock) : Prop where
  blockIndex_eq : ∀ (i : Nat) (h : i < blocks.length), blocks[i].cachedBlock.getBlockIndex = i
  blockHashes_nodup : (blocks.map (·.cachedBlock.blockHash)).Nodup
  transactionHashes_nodup : ((chainTransactions blocks).map (·.transaction.transactionHash)).Nodup
  keyImages_once : ∀ (keyImage : KeyImage) (i j : Nat) (hi : i < blocks.length) (hj : j < blocks.length),
    keyImage ∈ blocks[i].validatorState.spentKeyImages → keyImage ∈ blocks[j].validatorState.spentKeyImages →
      i = j

/-! ## Placement of transactions -/

section Placement

theorem mem_placeTransactions {blockIndex first : Nat} {transactions : List CachedTransaction}
    {tx : ChainTransaction} (mem : tx ∈ placeTransactions blockIndex transactions first) :
    tx.blockIndex = blockIndex ∧ first ≤ tx.transactionIndex := by
  induction transactions generalizing first with
  | nil => simp [placeTransactions] at mem
  | cons transaction transactions ih =>
      rw [placeTransactions, List.mem_cons] at mem
      rcases mem with here | later
      · subst here
        exact ⟨rfl, le_refl first⟩
      · obtain ⟨sameBlock, after⟩ := ih later
        exact ⟨sameBlock, by omega⟩

@[simp] theorem placeTransactions_transaction (blockIndex : Nat) (transactions : List CachedTransaction)
    (first : Nat) : (placeTransactions blockIndex transactions first).map (·.transaction) = transactions := by
  induction transactions generalizing first with
  | nil => rfl
  | cons transaction transactions ih => simp [placeTransactions, ih]

theorem placeTransactions_sorted (blockIndex : Nat) (transactions : List CachedTransaction) (first : Nat) :
    (placeTransactions blockIndex transactions first).Pairwise ChainTransaction.Earlier := by
  induction transactions generalizing first with
  | nil => simp [placeTransactions]
  | cons transaction transactions ih =>
      rw [placeTransactions, List.pairwise_cons]
      refine ⟨fun tx mem => ?_, ih (first + 1)⟩
      obtain ⟨sameBlock, after⟩ := mem_placeTransactions mem
      exact Or.inr ⟨sameBlock.symm, show first < tx.transactionIndex by omega⟩

theorem mem_chainTransactionsFrom {blocks : List PushedBlock} {first : Nat} {tx : ChainTransaction}
    (mem : tx ∈ chainTransactionsFrom blocks first) :
    first ≤ tx.blockIndex ∧ tx.blockIndex < first + blocks.length := by
  induction blocks generalizing first with
  | nil => simp [chainTransactionsFrom] at mem
  | cons block blocks ih =>
      rw [chainTransactionsFrom, List.mem_append] at mem
      rw [List.length_cons]
      rcases mem with here | later
      · have := (mem_placeTransactions here).1
        omega
      · have := ih later
        omega

theorem chainTransactionsFrom_sorted (blocks : List PushedBlock) (first : Nat) :
    (chainTransactionsFrom blocks first).Pairwise ChainTransaction.Earlier := by
  induction blocks generalizing first with
  | nil => simp [chainTransactionsFrom]
  | cons block blocks ih =>
      rw [chainTransactionsFrom, List.pairwise_append]
      refine ⟨placeTransactions_sorted _ _ _, ih (first + 1), fun x here y later => Or.inl ?_⟩
      have := (mem_placeTransactions here).1
      have := (mem_chainTransactionsFrom later).1
      omega

theorem chainTransactionsFrom_append (blocks more : List PushedBlock) (first : Nat) :
    chainTransactionsFrom (blocks ++ more) first =
      chainTransactionsFrom blocks first ++ chainTransactionsFrom more (first + blocks.length) := by
  induction blocks generalizing first with
  | nil => simp [chainTransactionsFrom]
  | cons block blocks ih =>
      have shift : first + 1 + blocks.length = first + (blocks ++ [block]).length := by simp; omega
      rw [List.cons_append, chainTransactionsFrom, chainTransactionsFrom, ih, List.append_assoc, shift]
      simp

theorem chainTransactions_append (blocks more : List PushedBlock) :
    chainTransactions (blocks ++ more) = chainTransactions blocks ++ chainTransactionsFrom more blocks.length := by
  rw [chainTransactions, chainTransactionsFrom_append, Nat.zero_add, chainTransactions]

theorem chainTransactions_append_singleton (blocks : List PushedBlock) (block : PushedBlock) :
    chainTransactions (blocks ++ [block]) =
      chainTransactions blocks ++ placeTransactions blocks.length (transactionsOf block) 0 := by
  rw [chainTransactions_append, chainTransactionsFrom, chainTransactionsFrom, List.append_nil]

theorem mem_chainTransactions {blocks : List PushedBlock} {tx : ChainTransaction}
    (mem : tx ∈ chainTransactions blocks) : tx.blockIndex < blocks.length := by
  have := (mem_chainTransactionsFrom mem).2
  omega

theorem chainTransactions_sorted (blocks : List PushedBlock) :
    (chainTransactions blocks).Pairwise ChainTransaction.Earlier :=
  chainTransactionsFrom_sorted blocks 0

theorem eq_of_mem_chainTransactions {blocks : List PushedBlock} {tx tx' : ChainTransaction}
    (mem : tx ∈ chainTransactions blocks) (mem' : tx' ∈ chainTransactions blocks)
    (sameBlock : tx.blockIndex = tx'.blockIndex) (samePlace : tx.transactionIndex = tx'.transactionIndex) :
    tx = tx' := by
  have places : ((chainTransactions blocks).map fun tx => (tx.blockIndex, tx.transactionIndex)).Nodup :=
    List.pairwise_map.mpr ((chainTransactions_sorted blocks).imp fun {x y} earlier same => by
      simp only [Prod.mk.injEq] at same
      unfold ChainTransaction.Earlier at earlier
      omega)
  exact List.inj_on_of_nodup_map places mem mem' (by rw [sameBlock, samePlace])

end Placement

/-! ## Outputs -/

section Outputs

theorem mem_outputsFrom {blockIndex transactionIndex outputIndex : Nat} {unlockTime : UInt64}
    {outputs : List TransactionOutput} {o : ChainOutput}
    (mem : o ∈ outputsFrom blockIndex transactionIndex unlockTime outputs outputIndex) :
    o.packed.blockIndex = blockIndex ∧ o.packed.transactionIndex = transactionIndex ∧
      outputIndex ≤ o.packed.outputIndex ∧ o.unlockTime = unlockTime ∧
      outputs[o.packed.outputIndex - outputIndex]? = some o.output := by
  induction outputs generalizing outputIndex with
  | nil => simp [outputsFrom] at mem
  | cons output outputs ih =>
      rw [outputsFrom, List.mem_cons] at mem
      rcases mem with here | later
      · subst here
        simp
      · obtain ⟨sameBlock, sameTransaction, after, sameTime, stored⟩ := ih later
        have shift : o.packed.outputIndex - outputIndex = o.packed.outputIndex - (outputIndex + 1) + 1 := by
          omega
        refine ⟨sameBlock, sameTransaction, by omega, sameTime, ?_⟩
        rw [shift, List.getElem?_cons_succ, stored]

theorem outputsFrom_sorted (blockIndex transactionIndex : Nat) (unlockTime : UInt64)
    (outputs : List TransactionOutput) (outputIndex : Nat) :
    (outputsFrom blockIndex transactionIndex unlockTime outputs outputIndex).Pairwise
      fun o o' => o.packed.Before o'.packed := by
  induction outputs generalizing outputIndex with
  | nil => simp [outputsFrom]
  | cons output outputs ih =>
      rw [outputsFrom, List.pairwise_cons]
      refine ⟨fun o mem => ?_, ih (outputIndex + 1)⟩
      obtain ⟨sameBlock, sameTransaction, after, -⟩ := mem_outputsFrom mem
      exact Or.inr ⟨sameBlock.symm, Or.inr ⟨sameTransaction.symm, show outputIndex < o.packed.outputIndex by omega⟩⟩

theorem mem_transactionOutputs {tx : ChainTransaction} {o : ChainOutput} (mem : o ∈ transactionOutputs tx) :
    o.packed.blockIndex = tx.blockIndex ∧ o.packed.transactionIndex = tx.transactionIndex ∧
      o.unlockTime = tx.transaction.transaction.unlockTime ∧
      tx.transaction.transaction.outputs[o.packed.outputIndex]? = some o.output := by
  obtain ⟨sameBlock, sameTransaction, -, sameTime, stored⟩ := mem_outputsFrom mem
  exact ⟨sameBlock, sameTransaction, sameTime, by simpa using stored⟩

theorem chainOutputs_append (blocks more : List PushedBlock) :
    chainOutputs (blocks ++ more) =
      chainOutputs blocks ++ (chainTransactionsFrom more blocks.length).flatMap transactionOutputs := by
  rw [chainOutputs, chainTransactions_append, List.flatMap_append, chainOutputs]

theorem mem_chainOutputs {blocks : List PushedBlock} {o : ChainOutput} (mem : o ∈ chainOutputs blocks) :
    o.packed.blockIndex < blocks.length := by
  obtain ⟨tx, placed, out⟩ := List.mem_flatMap.mp mem
  rw [(mem_transactionOutputs out).1]
  exact mem_chainTransactions placed

theorem chainOutputs_sorted (blocks : List PushedBlock) :
    (chainOutputs blocks).Pairwise fun o o' => o.packed.Before o'.packed := by
  rw [chainOutputs, List.pairwise_flatMap]
  refine ⟨fun tx _ => outputsFrom_sorted _ _ _ _ _, (chainTransactions_sorted blocks).imp ?_⟩
  intro tx tx' earlier o out o' out'
  obtain ⟨block, place, -⟩ := mem_transactionOutputs out
  obtain ⟨block', place', -⟩ := mem_transactionOutputs out'
  unfold ChainTransaction.Earlier at earlier
  unfold PackedOutIndex.Before
  omega

theorem chainOutputs_packed_nodup (blocks : List PushedBlock) :
    ((chainOutputs blocks).map (·.packed)).Nodup :=
  List.pairwise_map.mpr ((chainOutputs_sorted blocks).imp fun before => before.ne)

theorem mem_kindOutputs {key : Bool} {amount : UInt64} {outs : List ChainOutput} {o : ChainOutput} :
    o ∈ kindOutputs key amount outs ↔ o ∈ outs ∧ o.output.amount = amount ∧ o.output.target.isKey = key := by
  simp [kindOutputs]

@[simp] theorem kindOutputs_append (key : Bool) (amount : UInt64) (outs more : List ChainOutput) :
    kindOutputs key amount (outs ++ more) = kindOutputs key amount outs ++ kindOutputs key amount more :=
  List.filter_append outs more

theorem outputIndexes_sorted (key : Bool) (blocks : List PushedBlock) (amount : UInt64) :
    (outputIndexes key blocks amount).Pairwise fun p q => p.blockIndex ≤ q.blockIndex :=
  List.pairwise_map.mpr (((chainOutputs_sorted blocks).filter _).imp fun before => before.blockIndex_le)

theorem mem_outputIndexes {key : Bool} {blocks : List PushedBlock} {amount : UInt64} {p : PackedOutIndex}
    (mem : p ∈ outputIndexes key blocks amount) : p.blockIndex < blocks.length := by
  obtain ⟨o, kept, rfl⟩ := List.mem_map.mp mem
  exact mem_chainOutputs (mem_kindOutputs.mp kept).1

theorem outputIndexes_append (key : Bool) (blocks more : List PushedBlock) (amount : UInt64) :
    ∃ rest, outputIndexes key (blocks ++ more) amount = outputIndexes key blocks amount ++ rest ∧
      ∀ p ∈ rest, blocks.length ≤ p.blockIndex := by
  refine ⟨(kindOutputs key amount ((chainTransactionsFrom more blocks.length).flatMap transactionOutputs)).map
    (·.packed), ?_, ?_⟩
  · rw [outputIndexes, outputsOfKind, chainOutputs_append, kindOutputs_append, List.map_append]
    rfl
  · intro p mem
    obtain ⟨o, kept, rfl⟩ := List.mem_map.mp mem
    obtain ⟨tx, placed, out⟩ := List.mem_flatMap.mp (mem_kindOutputs.mp kept).1
    rw [(mem_transactionOutputs out).1]
    exact (mem_chainTransactionsFrom placed).1

theorem indexIn_append_of_mem {outs more : List ChainOutput} {o : ChainOutput} (mem : o ∈ outs) :
    indexIn (outs ++ more) o = indexIn outs o := by
  unfold indexIn
  rw [kindOutputs_append, List.map_append, List.idxOf_append_of_mem]
  exact List.mem_map.mpr ⟨o, mem_kindOutputs.mpr ⟨mem, rfl, rfl⟩, rfl⟩

theorem indexIn_append_cons {outs more : List ChainOutput} {o : ChainOutput}
    (fresh : o.packed ∉ outs.map (·.packed)) :
    indexIn (outs ++ o :: more) o = (kindOutputs o.output.target.isKey o.output.amount outs).length := by
  unfold indexIn
  have own : kindOutputs o.output.target.isKey o.output.amount (o :: more) =
      o :: kindOutputs o.output.target.isKey o.output.amount more :=
    List.filter_cons_of_pos (by simp)
  have notBefore : o.packed ∉ (kindOutputs o.output.target.isKey o.output.amount outs).map (·.packed) := by
    intro mem
    obtain ⟨o', kept, same⟩ := List.mem_map.mp mem
    exact fresh (List.mem_map.mpr ⟨o', (mem_kindOutputs.mp kept).1, same⟩)
  rw [kindOutputs_append, own, List.map_append, List.map_cons, List.idxOf_append_of_notMem notBefore,
    List.idxOf_cons_self, Nat.add_zero, List.length_map]

theorem globalIndex_append {blocks : List PushedBlock} (more : List PushedBlock) {o : ChainOutput}
    (mem : o ∈ chainOutputs blocks) : globalIndex (blocks ++ more) o = globalIndex blocks o := by
  rw [globalIndex, globalIndex, chainOutputs_append, indexIn_append_of_mem mem]

theorem globalIndexes_outputsOfKind (key : Bool) (blocks : List PushedBlock) (amount : UInt64) :
    (outputsOfKind key blocks amount).map (globalIndex blocks) =
      List.range (outputsOfKind key blocks amount).length := by
  have nodup : (outputIndexes key blocks amount).Nodup :=
    (chainOutputs_packed_nodup blocks).sublist (List.Sublist.map _ List.filter_sublist)
  have own : ∀ o ∈ outputsOfKind key blocks amount,
      globalIndex blocks o = (outputIndexes key blocks amount).idxOf o.packed := by
    intro o mem
    obtain ⟨-, sameAmount, sameKind⟩ := mem_kindOutputs.mp mem
    rw [globalIndex, indexIn, sameAmount, sameKind]
    rfl
  have numbered := map_idxOf_of_nodup nodup
  rw [outputIndexes, List.map_map, List.length_map] at numbered
  rw [List.map_congr_left own, outputIndexes]
  exact numbered

end Outputs

/-! ## Transaction infos and payment ids -/

section Infos

theorem transactionInfoIn_append {outs more : List ChainOutput} {tx : ChainTransaction}
    (mem : ∀ o ∈ transactionOutputs tx, o ∈ outs) :
    transactionInfoIn (outs ++ more) tx = transactionInfoIn outs tx := by
  unfold transactionInfoIn
  congr 1
  exact List.map_congr_left fun o out => indexIn_append_of_mem (mem o out)

theorem transactionInfos_append (blocks more : List PushedBlock) :
    transactionInfos (blocks ++ more) = transactionInfos blocks ++
      (chainTransactionsFrom more blocks.length).map (transactionInfoIn (chainOutputs (blocks ++ more))) := by
  rw [transactionInfos, chainTransactions_append, List.map_append, transactionInfos]
  congr 1
  apply List.map_congr_left
  intro tx placed
  rw [chainOutputs_append]
  exact transactionInfoIn_append fun o out => List.mem_flatMap.mpr ⟨tx, placed, out⟩

theorem window_transactionInfos (blocks : List PushedBlock) (start stop : Nat) :
    window CachedTransactionInfo.blockIndex (transactionInfos blocks) start stop =
      (window ChainTransaction.blockIndex (chainTransactions blocks) start stop).map
        (transactionInfoIn (chainOutputs blocks)) :=
  window_map (fun _ => rfl) _ start stop

theorem window_transactionInfos_append {blocks : List PushedBlock} (more : List PushedBlock) {start stop : Nat}
    (le : stop ≤ blocks.length) :
    window CachedTransactionInfo.blockIndex (transactionInfos (blocks ++ more)) start stop =
      window CachedTransactionInfo.blockIndex (transactionInfos blocks) start stop := by
  rw [transactionInfos_append]
  apply window_append_of_le
  intro info mem
  obtain ⟨tx, placed, rfl⟩ := List.mem_map.mp mem
  exact le.trans (mem_chainTransactionsFrom placed).1

theorem paymentPair_blockIndex {tx : ChainTransaction} {pair : Nat × PaymentIdTransactionHashPair}
    (paid : paymentPair tx = some pair) : pair.1 = tx.blockIndex := by
  unfold paymentPair at paid
  obtain ⟨paymentId, -, rfl⟩ := Option.map_eq_some_iff.mp paid
  rfl

theorem paymentPair_transactionHash {tx : ChainTransaction} {pair : Nat × PaymentIdTransactionHashPair}
    (paid : paymentPair tx = some pair) : pair.2.transactionHash = tx.transaction.transactionHash := by
  unfold paymentPair at paid
  obtain ⟨paymentId, -, rfl⟩ := Option.map_eq_some_iff.mp paid
  rfl

theorem window_paymentIds (blocks : List PushedBlock) (start stop : Nat) :
    window Prod.fst (paymentIds blocks) start stop =
      (window ChainTransaction.blockIndex (chainTransactions blocks) start stop).filterMap paymentPair :=
  window_filterMap (fun _ _ paid => paymentPair_blockIndex paid) _ start stop

theorem paymentIds_append (blocks more : List PushedBlock) :
    paymentIds (blocks ++ more) =
      paymentIds blocks ++ (chainTransactionsFrom more blocks.length).filterMap paymentPair := by
  rw [paymentIds, chainTransactions_append, List.filterMap_append, ← paymentIds]

theorem window_paymentIds_append {blocks : List PushedBlock} (more : List PushedBlock) {start stop : Nat}
    (le : stop ≤ blocks.length) :
    window Prod.fst (paymentIds (blocks ++ more)) start stop = window Prod.fst (paymentIds blocks) start stop := by
  rw [paymentIds_append]
  apply window_append_of_le
  intro pair mem
  obtain ⟨tx, placed, paid⟩ := List.mem_filterMap.mp mem
  rw [paymentPair_blockIndex paid]
  exact le.trans (mem_chainTransactionsFrom placed).1

theorem transactionAt_of_mem {blocks : List PushedBlock} {tx : ChainTransaction} {o : ChainOutput}
    (placed : tx ∈ chainTransactions blocks) (out : o ∈ transactionOutputs tx) :
    transactionAt blocks o.packed = some (transactionInfoIn (chainOutputs blocks) tx) := by
  obtain ⟨block, place, -⟩ := mem_transactionOutputs out
  unfold transactionAt transactionInfos
  rw [List.find?_map, List.find?_eq_some_iff_append.mpr]
  · rfl
  refine ⟨by simp [transactionInfoIn, block, place], ?_⟩
  obtain ⟨before, after, split⟩ := List.append_of_mem placed
  refine ⟨before, after, split, fun tx' earlier => ?_⟩
  have placed' : tx' ∈ chainTransactions blocks := by
    rw [split]
    exact List.mem_append_left _ earlier
  -- a transaction before `tx` in the chain sits at another place
  have other : tx' ≠ tx := by
    rintro rfl
    have sorted := chainTransactions_sorted blocks
    rw [split, List.pairwise_append] at sorted
    have := sorted.2.2 tx' earlier tx' List.mem_cons_self
    unfold ChainTransaction.Earlier at this
    omega
  have apart : ¬(tx'.blockIndex = tx.blockIndex ∧ tx'.transactionIndex = tx.transactionIndex) :=
    fun ⟨sameBlock, samePlace⟩ => other (eq_of_mem_chainTransactions placed' placed sameBlock samePlace)
  simp only [Function.comp, transactionInfoIn, block, place]
  simp only [Bool.not_eq_true', Bool.and_eq_false_iff, beq_eq_false_iff_ne, ne_eq]
  omega

end Infos

/-! ## Blocks and spends -/

section Blocks

theorem blockInfo_append {blocks : List PushedBlock} (more : List PushedBlock) {blockIndex : Nat}
    (lt : blockIndex < blocks.length) : blockInfo (blocks ++ more) blockIndex = blockInfo blocks blockIndex := by
  unfold blockInfo
  rw [List.getElem?_append_left lt, List.take_append_of_le_length (by omega)]

theorem blockInfo_length (blocks : List PushedBlock) (block : PushedBlock) :
    blockInfo (blocks ++ [block]) blocks.length = some
      { blockHash := block.cachedBlock.blockHash
        timestamp := block.cachedBlock.block.timestamp
        cumulativeDifficulty := (chainTotals blocks).1 + block.blockDifficulty
        alreadyGeneratedCoins := (chainTotals blocks).2.1 + block.generatedCoins
        alreadyGeneratedTransactions := (chainTotals blocks).2.2 + (block.cachedTransactions.length.toUInt64 + 1) } := by
  have whole : (blocks ++ [block]).take (blocks.length + 1) = blocks ++ [block] := List.take_of_length_le (by simp)
  simp [blockInfo, whole, chainTotals]

theorem blockInfo_top {blocks : List PushedBlock} (nonempty : blocks ≠ []) :
    (blockInfo blocks (blocks.length - 1)).map
        (fun info => (info.cumulativeDifficulty, info.alreadyGeneratedCoins, info.alreadyGeneratedTransactions)) =
      some (chainTotals blocks) := by
  have positive : 0 < blocks.length := List.length_pos_of_ne_nil nonempty
  have whole : blocks.take (blocks.length - 1 + 1) = blocks := by
    rw [Nat.sub_add_cancel positive, List.take_length]
  obtain ⟨top, stored⟩ : ∃ top, blocks[blocks.length - 1]? = some top :=
    ⟨_, List.getElem?_eq_getElem (by omega)⟩
  simp [blockInfo, stored, whole, chainTotals]

theorem blockInfo_blockHash {blocks : List PushedBlock} {blockIndex : Nat} {info : CachedBlockInfo}
    (stored : blockInfo blocks blockIndex = some info) :
    ∃ (inside : blockIndex < blocks.length), info.blockHash = blocks[blockIndex].cachedBlock.blockHash := by
  unfold blockInfo at stored
  obtain ⟨block, found, rfl⟩ := Option.map_eq_some_iff.mp stored
  obtain ⟨inside, rfl⟩ := List.getElem?_eq_some_iff.mp found
  exact ⟨inside, rfl⟩

theorem blockInfo_eq_none {blocks : List PushedBlock} {blockIndex : Nat} (le : blocks.length ≤ blockIndex) :
    blockInfo blocks blockIndex = none := by
  simp [blockInfo, List.getElem?_eq_none le]

theorem spentKeyImage_append (blocks more : List PushedBlock) (keyImage : KeyImage) :
    spentKeyImage (blocks ++ more) keyImage =
      (spentKeyImage blocks keyImage).or ((spentKeyImage more keyImage).map (· + blocks.length)) :=
  List.findIdx?_append

theorem spentKeyImage_lt {blocks : List PushedBlock} {keyImage : KeyImage} {blockIndex : Nat}
    (spent : spentKeyImage blocks keyImage = some blockIndex) : blockIndex < blocks.length :=
  (List.findIdx?_eq_some_iff_getElem.mp spent).1

theorem spentKeyImage_append_filter {blocks : List PushedBlock} (more : List PushedBlock) {start stop : Nat}
    (le : stop ≤ blocks.length) (keyImage : KeyImage) :
    (spentKeyImage (blocks ++ more) keyImage).filter (fun i => start ≤ i ∧ i < stop) =
      (spentKeyImage blocks keyImage).filter fun i => start ≤ i ∧ i < stop := by
  rw [spentKeyImage_append]
  cases spent : spentKeyImage blocks keyImage with
  | some blockIndex => rfl
  | none =>
      cases later : spentKeyImage more keyImage with
      | none => rfl
      | some blockIndex =>
          have outside : ¬(start ≤ blockIndex + blocks.length ∧ blockIndex + blocks.length < stop) := by omega
          simp only [Option.none_or, Option.map_some, Option.filter_some, decide_eq_true_eq, outside, if_false,
            Option.filter_none]

theorem spentMultisignatureIn_append {blocks : List PushedBlock} (more : List PushedBlock) {start stop : Nat}
    (le : stop ≤ blocks.length) (output : UInt64 × UInt32) :
    SpentMultisignatureIn (blocks ++ more) start stop output ↔ SpentMultisignatureIn blocks start stop output := by
  constructor
  · rintro ⟨blockIndex, block, low, high, stored, spent⟩
    rw [List.getElem?_append_left (by omega)] at stored
    exact ⟨blockIndex, block, low, high, stored, spent⟩
  · rintro ⟨blockIndex, block, low, high, stored, spent⟩
    refine ⟨blockIndex, block, low, high, ?_, spent⟩
    rw [List.getElem?_append_left (by omega), stored]

theorem WellFormed.of_append {blocks more : List PushedBlock} (wf : WellFormed (blocks ++ more)) :
    WellFormed blocks where
  blockIndex_eq i h := by
    have := wf.blockIndex_eq i (by simp; omega)
    rwa [List.getElem_append_left h] at this
  blockHashes_nodup := by
    have := wf.blockHashes_nodup
    rw [List.map_append] at this
    exact this.of_append_left
  transactionHashes_nodup := by
    have := wf.transactionHashes_nodup
    rw [chainTransactions_append, List.map_append] at this
    exact this.of_append_left
  keyImages_once keyImage i j hi hj spentI spentJ := by
    refine wf.keyImages_once keyImage i j (by simp; omega) (by simp; omega) ?_ ?_
    · rwa [List.getElem_append_left hi]
    · rwa [List.getElem_append_left hj]

end Blocks

end Ledger

end CryptoNote
