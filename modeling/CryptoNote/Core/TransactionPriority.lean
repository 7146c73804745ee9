import CryptoNote.Core.TransactionPool
import CryptoNote.Common.IntUtil
import CryptoNote.Lib.KeyOrder

/-! # The pool's priority order (`TransactionPool::TransactionPriorityComparator`)

The cost index of the pool orders pending transactions by price, the fee per
byte of blob, the higher first; then by blob size, the smaller first; then by
the time they were received, the older first.  `Core::fillBlockTemplate` walks
the pool in that order.  The comparator compares two prices by cross-multiplying,
`fee(lhs) * size(rhs)` against `fee(rhs) * size(lhs)`, each a 128-bit product
from `mul128` compared as its (high word, low word) pair.

The order is stated over the rationals: `price` is exact and `priorityKey` puts
each pending transaction in a linear order, descending in price, so the
comparator is a strict weak order as the ordered index requires. -/

set_option autoImplicit false

namespace CryptoNote

open IntUtil WordArith

namespace CachedTransaction

/-- `getTransactionFee`: the inputs' amounts minus the outputs' amounts in
`uint64_t`, and 0 for a transaction with a base input. -/
def getTransactionFee (cachedTransaction : CachedTransaction) : UInt64 :=
  let transaction := cachedTransaction.transaction
  let summaryOutputAmount := transaction.outputs.foldl (fun sum out => sum + out.amount) 0
  let summaryInputAmount : Option UInt64 := transaction.inputs.foldlM (fun sum input =>
      match input with
      | .key input => some (sum + input.amount)
      | .multisignature input => some (sum + input.amount)
      | .base _ => none) 0
  match summaryInputAmount with
  | some summaryInputAmount => summaryInputAmount - summaryOutputAmount
  | none => 0

/-- `getTransactionBinaryArray().size()`, a `size_t`. -/
def blobSize (cachedTransaction : CachedTransaction) : UInt64 :=
  UInt64.ofNat cachedTransaction.transactionBinaryArray.length

end CachedTransaction

/-- `TransactionPriorityComparator::operator()(lhs, rhs)`: `lhs` goes before `rhs`. -/
def transactionPriorityComparator (lhs rhs : PendingTransactionInfo) : Bool :=
  let left := lhs.cachedTransaction
  let right := rhs.cachedTransaction
  let (lhsLo, lhsHi) := mul128 left.getTransactionFee right.blobSize
  let (rhsLo, rhsHi) := mul128 right.getTransactionFee left.blobSize
  -- more profitable first, then smaller, then older
  lhsHi > rhsHi || (lhsHi == rhsHi && lhsLo > rhsLo) ||
    (lhsHi == rhsHi && lhsLo == rhsLo && left.blobSize < right.blobSize) ||
    (lhsHi == rhsHi && lhsLo == rhsLo && left.blobSize == right.blobSize && lhs.receiveTime < rhs.receiveTime)

namespace PendingTransactionInfo

variable (info : PendingTransactionInfo)

def fee : Nat := info.cachedTransaction.getTransactionFee.toNat

def size : Nat := info.cachedTransaction.blobSize.toNat

def price : ℚ := (info.fee : ℚ) / info.size

/-- The intended order: a higher price first, then a smaller blob, then an
earlier receive time. -/
def Before (x y : PendingTransactionInfo) : Prop :=
  y.price < x.price ∨ x.price = y.price ∧ x.size < y.size ∨
    x.price = y.price ∧ x.size = y.size ∧ x.receiveTime.toNat < y.receiveTime.toNat

def priorityKey : Lex (ℚᵒᵈ × Lex (ℕ × ℕ)) :=
  toLex (OrderDual.toDual info.price, toLex (info.size, info.receiveTime.toNat))

theorem before_iff_priorityKey_lt (x y : PendingTransactionInfo) :
    Before x y ↔ x.priorityKey < y.priorityKey := by
  simp only [priorityKey, Prod.Lex.toLex_lt_toLex, OrderDual.toDual_lt_toDual, EmbeddingLike.apply_eq_iff_eq,
    Before]
  rw [and_or_left]

theorem price_lt_iff {x y : PendingTransactionInfo} (hx : 0 < x.size) (hy : 0 < y.size) :
    y.price < x.price ↔ y.fee * x.size < x.fee * y.size := by
  rw [price, price, div_lt_div_iff₀ (by exact_mod_cast hy) (by exact_mod_cast hx)]
  exact_mod_cast Iff.rfl

theorem price_eq_iff {x y : PendingTransactionInfo} (hx : 0 < x.size) (hy : 0 < y.size) :
    x.price = y.price ↔ x.fee * y.size = y.fee * x.size := by
  rw [price, price, div_eq_div_iff (by exact_mod_cast hx.ne') (by exact_mod_cast hy.ne')]
  exact_mod_cast Iff.rfl

end PendingTransactionInfo

open PendingTransactionInfo

theorem transactionPriorityComparator_eq_true_iff (x y : PendingTransactionInfo) :
    transactionPriorityComparator x y = true ↔
      y.fee * x.size < x.fee * y.size ∨ x.fee * y.size = y.fee * x.size ∧ x.size < y.size ∨
        x.fee * y.size = y.fee * x.size ∧ x.size = y.size ∧ x.receiveTime.toNat < y.receiveTime.toNat := by
  rcases left : mul128 x.cachedTransaction.getTransactionFee y.cachedTransaction.blobSize with ⟨lhsLo, lhsHi⟩
  rcases right : mul128 y.cachedTransaction.getTransactionFee x.cachedTransaction.blobSize with ⟨rhsLo, rhsHi⟩
  have lhsValue := left ▸ mul128_spec x.cachedTransaction.getTransactionFee y.cachedTransaction.blobSize
  have rhsValue := right ▸ mul128_spec y.cachedTransaction.getTransactionFee x.cachedTransaction.blobSize
  dsimp only at lhsValue rhsValue
  -- the (high, low) comparisons of the source are comparisons of the products
  have more : rhsHi.toNat < lhsHi.toNat ∨ rhsHi.toNat = lhsHi.toNat ∧ rhsLo.toNat < lhsLo.toNat ↔
      y.fee * x.size < x.fee * y.size := by
    rw [fee, fee, size, size, ← lhsValue, ← rhsValue]
    exact (twoDigit_lt_iff rhsLo.toNat_lt_size lhsLo.toNat_lt_size).symm
  have same : lhsHi.toNat = rhsHi.toNat ∧ lhsLo.toNat = rhsLo.toNat ↔ x.fee * y.size = y.fee * x.size := by
    rw [fee, fee, size, size, ← lhsValue, ← rhsValue]
    exact (twoDigit_eq_iff lhsLo.toNat_lt_size rhsLo.toNat_lt_size).symm
  simp only [transactionPriorityComparator, left, right, Bool.or_eq_true, Bool.and_eq_true, decide_eq_true_eq,
    beq_iff_eq, gt_iff_lt, UInt64.lt_iff_toNat_lt, ← UInt64.toNat_inj]
  rw [← more, ← same, size, size]
  constructor
  · rintro (((above | ⟨high, low⟩) | ⟨⟨high, low⟩, smaller⟩) | ⟨⟨⟨high, low⟩, equal⟩, older⟩)
    · exact .inl (.inl above)
    · exact .inl (.inr ⟨high.symm, low⟩)
    · exact .inr (.inl ⟨⟨high, low⟩, smaller⟩)
    · exact .inr (.inr ⟨⟨high, low⟩, equal, older⟩)
  · rintro ((above | ⟨high, low⟩) | ⟨same, smaller⟩ | ⟨same, equal, older⟩)
    · exact .inl (.inl (.inl above))
    · exact .inl (.inl (.inr ⟨high.symm, low⟩))
    · exact .inl (.inr ⟨same, smaller⟩)
    · exact .inr ⟨⟨same, equal⟩, older⟩

theorem transactionPriorityComparator_iff_before {x y : PendingTransactionInfo} (hx : 0 < x.size)
    (hy : 0 < y.size) : transactionPriorityComparator x y = true ↔ Before x y := by
  rw [transactionPriorityComparator_eq_true_iff, Before, price_lt_iff hx hy, price_eq_iff hx hy]

/-- On non-empty blobs the comparator is the intended lexicographic order, and
so a strict weak order. -/
theorem transactionPriorityComparator_order :
    (∀ x y : PendingTransactionInfo, 0 < x.size → 0 < y.size →
      (transactionPriorityComparator x y = true ↔
        y.price < x.price ∨ x.price = y.price ∧ x.size < y.size ∨
          x.price = y.price ∧ x.size = y.size ∧ x.receiveTime.toNat < y.receiveTime.toNat)) ∧
      IsStrictWeakOrder {info : PendingTransactionInfo // 0 < info.size}
        fun x y => transactionPriorityComparator x.1 y.1 = true := by
  refine ⟨fun x y hx hy => transactionPriorityComparator_iff_before hx hy, ?_⟩
  apply KeyOrder.isStrictWeakOrder_of_iff fun info => info.1.priorityKey
  intro x y
  rw [transactionPriorityComparator_iff_before x.2 y.2, before_iff_priorityKey_lt]

def pendingSpending (amount : UInt64) (receiveTime : UInt64) : PendingTransactionInfo where
  receiveTime := receiveTime
  cachedTransaction :=
    { transaction :=
        { version := 1
          unlockTime := 0
          inputs := [.key ⟨amount, [0], Crypto.KeyImage.ofByte 1⟩]
          outputs := [⟨900, .key ⟨Crypto.PublicKey.ofByte 2⟩⟩]
          extra := []
          signatures := [[]] }
      transactionBinaryArray := List.replicate 10 0
      transactionHash := Crypto.Hash.ofByte (amount.toUInt8)
      transactionPrefixHash := Crypto.Hash.ofByte 0 }
  paymentId := none

theorem transactionPriorityComparator_order_sample :
    (transactionPriorityComparator (pendingSpending 1000 5) (pendingSpending 950 3) = true ↔
      (pendingSpending 950 3).price < (pendingSpending 1000 5).price ∨
        (pendingSpending 1000 5).price = (pendingSpending 950 3).price ∧
          (pendingSpending 1000 5).size < (pendingSpending 950 3).size ∨
        (pendingSpending 1000 5).price = (pendingSpending 950 3).price ∧
          (pendingSpending 1000 5).size = (pendingSpending 950 3).size ∧
          (pendingSpending 1000 5).receiveTime.toNat < (pendingSpending 950 3).receiveTime.toNat) :=
  transactionPriorityComparator_order.1 _ _ (by decide) (by decide)

-- a fee of 100 on 10 bytes goes before a fee of 50 on 10 bytes, though received later
example : transactionPriorityComparator (pendingSpending 1000 5) (pendingSpending 950 3) = true ∧
    transactionPriorityComparator (pendingSpending 950 3) (pendingSpending 1000 5) = false := by
  decide

end CryptoNote
