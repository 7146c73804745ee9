import CryptoNote.Crypto.Types

/-! # Transactions and blocks

The data model of `include/CryptoNote.h`.  Fixed-width fields keep the source's
widths (`uint8_t`, `uint16_t`, `uint32_t`, `uint64_t`), so every value the binary
format can carry, and no other, can be built.  The two `boost::variant`s are
inductive types with one constructor per alternative, in the source's order. -/
set_option autoImplicit false

namespace CryptoNote

open Crypto

structure BaseInput where
  blockIndex : UInt32
  deriving DecidableEq, Repr

structure KeyInput where
  amount : UInt64
  outputIndexes : List UInt32
  keyImage : KeyImage
  deriving DecidableEq, Repr

structure MultisignatureInput where
  amount : UInt64
  signatureCount : UInt8
  outputIndex : UInt32
  deriving DecidableEq, Repr

/-- `TransactionInput = boost::variant<BaseInput, KeyInput, MultisignatureInput>`. -/
inductive TransactionInput where
  | base (input : BaseInput)
  | key (input : KeyInput)
  | multisignature (input : MultisignatureInput)
  deriving DecidableEq, Repr

structure KeyOutput where
  key : PublicKey
  deriving DecidableEq, Repr

structure MultisignatureOutput where
  keys : List PublicKey
  requiredSignatureCount : UInt8
  deriving DecidableEq, Repr

/-- `TransactionOutputTarget = boost::variant<KeyOutput, MultisignatureOutput>`. -/
inductive TransactionOutputTarget where
  | key (output : KeyOutput)
  | multisignature (output : MultisignatureOutput)
  deriving DecidableEq, Repr

structure TransactionOutput where
  amount : UInt64
  target : TransactionOutputTarget
  deriving DecidableEq, Repr

structure TransactionPrefix where
  version : UInt8
  unlockTime : UInt64
  inputs : List TransactionInput
  outputs : List TransactionOutput
  extra : List UInt8
  deriving DecidableEq, Repr

structure Transaction extends TransactionPrefix where
  signatures : List (List Signature)
  deriving DecidableEq, Repr

/-- `BaseTransaction`: a prefix without signatures, used inside a parent block. -/
structure BaseTransaction extends TransactionPrefix where
  deriving DecidableEq, Repr

structure ParentBlock where
  majorVersion : UInt8
  minorVersion : UInt8
  previousBlockHash : Hash
  transactionCount : UInt16
  baseTransactionBranch : List Hash
  baseTransaction : BaseTransaction
  blockchainBranch : List Hash
  deriving DecidableEq, Repr

structure BlockHeader where
  majorVersion : UInt8
  minorVersion : UInt8
  nonce : UInt32
  timestamp : UInt64
  previousBlockHash : Hash
  deriving DecidableEq, Repr

structure BlockTemplate extends BlockHeader where
  parentBlock : ParentBlock
  baseTransaction : Transaction
  transactionHashes : List Hash
  deriving DecidableEq, Repr

/-- `RawBlock`: the block blob and the blobs of its non-coinbase transactions. -/
structure RawBlock where
  block : List UInt8
  transactions : List (List UInt8)
  deriving DecidableEq, Repr

/-- `CachedTransaction` holds a transaction with the values it caches on first
use: its blob (`toBinaryArray`), the hash of the blob and the hash of the prefix. -/
structure CachedTransaction where
  transaction : Transaction
  transactionBinaryArray : List UInt8
  transactionHash : Hash
  transactionPrefixHash : Hash
  deriving DecidableEq, Repr

namespace TransactionInput

/-- `getSignaturesCount` (`CryptoNoteSerialization.cpp`): how many signatures
an input carries. -/
def getSignaturesCount : TransactionInput → Nat
  | .base _ => 0
  | .key input => input.outputIndexes.length
  | .multisignature input => input.signatureCount.toNat

def isKey : TransactionInput → Bool
  | .key _ => true
  | _ => false

def isBase : TransactionInput → Bool
  | .base _ => true
  | _ => false

end TransactionInput

end CryptoNote
