import CryptoNote.Core.Transaction
import CryptoNote.Core.TransactionExtra
import CryptoNote.Crypto.TreeHash
import CryptoNote.Lib.Codec

/-!
# Binary serialization of transactions and blocks

The `serialize` functions of `CryptoNoteCore/CryptoNoteSerialization.cpp` run by
`BinaryOutputStreamSerializer` (the `serialize` definitions here, returning the
bytes or the message of the exception) and by `BinaryInputStreamSerializer`
(the `deserialize` definitions, readers over the bytes left).  Integers are
varints, hashes, keys, signatures and the nonce their raw bytes, vectors a
varint count and their elements, and `extra` a length-prefixed string.
Signatures carry no count: how many an input has follows from the input.
-/

set_option autoImplicit false

namespace CryptoNote

open Common Crypto Codec

def CURRENT_TRANSACTION_VERSION : UInt8 := 1
def TRANSACTION_VERSION_2 : UInt8 := 2

def BLOCK_MAJOR_VERSION_1 : UInt8 := 1
def BLOCK_MAJOR_VERSION_2 : UInt8 := 2
def BLOCK_MAJOR_VERSION_3 : UInt8 := 3
def BLOCK_MAJOR_VERSION_4 : UInt8 := 4
def BLOCK_MAJOR_VERSION_5 : UInt8 := 5

/-! ## Field readers of `BinaryInputStreamSerializer` -/

def readUInt8Varint : InputStream UInt8 := do
  pure (UInt8.ofNat (← readVarint 8))

def readUInt32Varint : InputStream UInt32 := do
  pure (UInt32.ofNat (← readVarint 32))

def readUInt64Varint : InputStream UInt64 := do
  pure (UInt64.ofNat (← readVarint 64))

/-- `serializer(std::vector<T>&)`: `beginArray` reads the count as a `uint64_t` varint. -/
def readVector {α : Type} (read : InputStream α) : InputStream (List α) := do
  let size ← readVarint 64
  readItems read size

/-! ## Inputs and outputs -/

namespace BaseInput

def serialize (input : BaseInput) : List UInt8 := writeVarint input.blockIndex.toNat

def deserialize : InputStream BaseInput := do
  pure ⟨← readUInt32Varint⟩

end BaseInput

namespace KeyInput

/-- `serializeVarintVector` writes the output indexes as a varint vector. -/
def serialize (input : KeyInput) : List UInt8 :=
  writeVarint input.amount.toNat ++ writeVarint input.outputIndexes.length ++
    input.outputIndexes.flatMap (fun index => writeVarint index.toNat) ++ input.keyImage.data

def deserialize : InputStream KeyInput := do
  let amount ← readUInt64Varint
  let outputIndexes ← readVector readUInt32Varint
  let keyImage ← readKeyImage
  pure ⟨amount, outputIndexes, keyImage⟩

end KeyInput

namespace MultisignatureInput

def serialize (input : MultisignatureInput) : List UInt8 :=
  writeVarint input.amount.toNat ++ writeVarint input.signatureCount.toNat ++
    writeVarint input.outputIndex.toNat

def deserialize : InputStream MultisignatureInput := do
  let amount ← readUInt64Varint
  let signatureCount ← readUInt8Varint
  let outputIndex ← readUInt32Varint
  pure ⟨amount, signatureCount, outputIndex⟩

end MultisignatureInput

namespace TransactionInput

/-- The tag byte of `BinaryVariantTagGetter`, then the alternative. -/
def serialize : TransactionInput → List UInt8
  | .base input => 0xff :: input.serialize
  | .key input => 0x02 :: input.serialize
  | .multisignature input => 0x03 :: input.serialize

/-- The tag byte, then `getVariantValue`. -/
def deserialize : InputStream TransactionInput := do
  let tag ← readUInt8
  if tag = 0xff then pure (.base (← BaseInput.deserialize))
  else if tag = 0x02 then pure (.key (← KeyInput.deserialize))
  else if tag = 0x03 then pure (.multisignature (← MultisignatureInput.deserialize))
  else throw "Unknown variant tag"

end TransactionInput

namespace MultisignatureOutput

def serialize (output : MultisignatureOutput) : List UInt8 :=
  writeVarint output.keys.length ++ output.keys.flatMap PublicKey.data ++
    writeVarint output.requiredSignatureCount.toNat

def deserialize : InputStream MultisignatureOutput := do
  let keys ← readVector readPublicKey
  let requiredSignatureCount ← readUInt8Varint
  pure ⟨keys, requiredSignatureCount⟩

end MultisignatureOutput

namespace TransactionOutputTarget

def serialize : TransactionOutputTarget → List UInt8
  | .key output => 0x02 :: output.key.data
  | .multisignature output => 0x03 :: output.serialize

def deserialize : InputStream TransactionOutputTarget := do
  let tag ← readUInt8
  if tag = 0x02 then pure (.key ⟨← readPublicKey⟩)
  else if tag = 0x03 then pure (.multisignature (← MultisignatureOutput.deserialize))
  else throw "Unknown variant tag"

end TransactionOutputTarget

namespace TransactionOutput

def serialize (output : TransactionOutput) : List UInt8 :=
  writeVarint output.amount.toNat ++ output.target.serialize

def deserialize : InputStream TransactionOutput := do
  let amount ← readUInt64Varint
  let target ← TransactionOutputTarget.deserialize
  pure ⟨amount, target⟩

end TransactionOutput

/-! ## Transactions -/

namespace TransactionPrefix

def serialize (txP : TransactionPrefix) : List UInt8 :=
  writeVarint txP.version.toNat ++ writeVarint txP.unlockTime.toNat ++
    writeVarint txP.inputs.length ++ txP.inputs.flatMap TransactionInput.serialize ++
    writeVarint txP.outputs.length ++ txP.outputs.flatMap TransactionOutput.serialize ++
    writeVarint txP.extra.length ++ txP.extra

/-- The fields after the version, shared by the prefix and the base transaction. -/
def deserializeFields (version : UInt8) : InputStream TransactionPrefix := do
  let unlockTime ← readUInt64Varint
  let inputs ← readVector TransactionInput.deserialize
  let outputs ← readVector TransactionOutput.deserialize
  -- `serializeAsBinary` reads the bytes as a string
  let extra ← readString
  pure ⟨version, unlockTime, inputs, outputs, extra⟩

def deserialize : InputStream TransactionPrefix := do
  let version ← readUInt8Varint
  if CURRENT_TRANSACTION_VERSION < version then throw "Wrong transaction version"
  deserializeFields version

end TransactionPrefix

namespace BaseTransaction

/-- `serialize(BaseTransaction&)`: the prefix without its version check, and for
version 2 and later a `size_t` that is written as `0` and ignored on reading. -/
def serialize (tx : BaseTransaction) : List UInt8 :=
  tx.toTransactionPrefix.serialize ++
    if tx.version ≥ TRANSACTION_VERSION_2 then writeVarint 0 else []

def deserialize : InputStream BaseTransaction := do
  let version ← readUInt8Varint
  let txP ← TransactionPrefix.deserializeFields version
  if version ≥ TRANSACTION_VERSION_2 then
    let _ignored ← readVarint 64
  pure ⟨txP⟩

end BaseTransaction

namespace Transaction

/-- The signature loop of `serialize(Transaction&)` on an output serializer.
No signatures at all is allowed when no input needs one; otherwise there is a
vector for every input, as long as the input's signature count.  The source
throws at the first input that breaks this, with the same message for every
input, and what it wrote before is lost with the exception. -/
def serializeSignatures (inputs : List TransactionInput) (signatures : List (List Signature)) :
    Except String (List UInt8) :=
  if signatures.isEmpty then
    if inputs.all (·.getSignaturesCount == 0) then pure []
    else throw "Serialization error: signatures are not expected"
  else if inputs.length ≠ signatures.length then
    throw "Serialization error: unexpected signatures size"
  else if (inputs.zip signatures).all fun (input, group) => input.getSignaturesCount == group.length then
    pure (signatures.flatMap fun group => group.flatMap Signature.data)
  else throw "Serialization error: unexpected signatures size"

/-- One vector of signatures for each input, of the input's signature count. -/
def deserializeSignatureGroups : List TransactionInput → InputStream (List (List Signature))
  | [] => pure []
  | input :: inputs => do
      let group ← readItems readSignature input.getSignaturesCount
      let groups ← deserializeSignatureGroups inputs
      pure (group :: groups)

/-- `sigSize == 1 && tx.inputs[0].type() == typeid(BaseInput)`. -/
def onlyBaseInput (inputs : List TransactionInput) : Bool :=
  inputs.length == 1 && inputs.head?.any TransactionInput.isBase

/-- The signature loop on an input serializer.  A transaction whose only input
is a base input keeps no signatures ("ignore base transaction"); any other is
given a vector per input, so the size check of the loop cannot fail. -/
def deserializeSignatures (inputs : List TransactionInput) : InputStream (List (List Signature)) :=
  if onlyBaseInput inputs then pure [] else deserializeSignatureGroups inputs

def serialize (tx : Transaction) : Except String (List UInt8) := do
  let signatures ← serializeSignatures tx.inputs tx.signatures
  pure (tx.toTransactionPrefix.serialize ++ signatures)

def deserialize : InputStream Transaction := do
  let txP ← TransactionPrefix.deserialize
  let signatures ← deserializeSignatures txP.inputs
  pure ⟨txP, signatures⟩

end Transaction

/-! ## Blocks -/

/-- The value-initialized parent block.  A block read by `fromBinaryArray` starts
from `T object;`, whose parent block is only overwritten for major versions 2
and 3. -/
def emptyParentBlock : ParentBlock where
  majorVersion := 0
  minorVersion := 0
  previousBlockHash := nullHash
  transactionCount := 0
  baseTransactionBranch := []
  baseTransaction := ⟨⟨0, 0, [], [], []⟩⟩
  blockchainBranch := []

def emptyBlockTemplate : BlockTemplate where
  majorVersion := 0
  minorVersion := 0
  nonce := 0
  timestamp := 0
  previousBlockHash := nullHash
  parentBlock := emptyParentBlock
  baseTransaction := ⟨⟨0, 0, [], [], []⟩, []⟩
  transactionHashes := []

/-- `serializeBlockHeader` on an output serializer. -/
def serializeBlockHeader (header : BlockHeader) : Except String (List UInt8) :=
  if header.majorVersion > BLOCK_MAJOR_VERSION_5 then throw "Wrong major version"
  else if header.majorVersion = BLOCK_MAJOR_VERSION_2 ∨ header.majorVersion = BLOCK_MAJOR_VERSION_3 then
    pure (writeVarint header.majorVersion.toNat ++ writeVarint header.minorVersion.toNat ++
      header.previousBlockHash.data)
  else if header.majorVersion = BLOCK_MAJOR_VERSION_1 ∨ header.majorVersion ≥ BLOCK_MAJOR_VERSION_4 then
    pure (writeVarint header.majorVersion.toNat ++ writeVarint header.minorVersion.toNat ++
      writeVarint header.timestamp.toNat ++ header.previousBlockHash.data ++ writeUInt32Pod header.nonce)
  else throw "Wrong major version"

/-- `serializeBlockHeader` on an input serializer: the fields it does not read
keep the values of `header`. -/
def deserializeBlockHeader (header : BlockHeader) : InputStream BlockHeader := do
  let majorVersion ← readUInt8Varint
  if majorVersion > BLOCK_MAJOR_VERSION_5 then throw "Wrong major version"
  let minorVersion ← readUInt8Varint
  if majorVersion = BLOCK_MAJOR_VERSION_2 ∨ majorVersion = BLOCK_MAJOR_VERSION_3 then
    let previousBlockHash ← readHash
    pure { header with majorVersion, minorVersion, previousBlockHash }
  else if majorVersion = BLOCK_MAJOR_VERSION_1 ∨ majorVersion ≥ BLOCK_MAJOR_VERSION_4 then
    let timestamp ← readUInt64Varint
    let previousBlockHash ← readHash
    let nonce ← readUInt32Pod
    pure { header with majorVersion, minorVersion, timestamp, previousBlockHash, nonce }
  else throw "Wrong major version"

/-- `serialize(ParentBlockSerializer&)` on an output serializer, neither for
hashing nor header only.  The timestamp and the nonce are the block's own. -/
def serializeParentBlock (parentBlock : ParentBlock) (timestamp : UInt64) (nonce : UInt32) :
    Except String (List UInt8) := do
  if parentBlock.transactionCount < 1 then throw "Wrong transactions number"
  if parentBlock.baseTransactionBranch.length ≠ treeDepth parentBlock.transactionCount.toNat then
    throw "Wrong miner transaction branch size"
  let mmTag ← match getMergeMiningTagFromExtra parentBlock.baseTransaction.extra with
    | none => throw "Can't get extra merge mining tag"
    | some mmTag => pure mmTag
  if mmTag.depth > 8 * 32 then throw "Wrong merge mining tag depth"
  if mmTag.depth ≠ parentBlock.blockchainBranch.length then
    throw "Blockchain branch size must be equal to merge mining tag depth"
  pure (writeVarint parentBlock.majorVersion.toNat ++ writeVarint parentBlock.minorVersion.toNat ++
    writeVarint timestamp.toNat ++ parentBlock.previousBlockHash.data ++ writeUInt32Pod nonce ++
    writeVarint parentBlock.transactionCount.toNat ++
    parentBlock.baseTransactionBranch.flatMap Hash.data ++ parentBlock.baseTransaction.serialize ++
    parentBlock.blockchainBranch.flatMap Hash.data)

/-- `serialize(ParentBlockSerializer&)` on an input serializer: the parent
block, the block's timestamp and the block's nonce.  The transaction count is
read as a `uint64_t` and narrowed to the `uint16_t` field. -/
def deserializeParentBlock : InputStream (ParentBlock × UInt64 × UInt32) := do
  let majorVersion ← readUInt8Varint
  let minorVersion ← readUInt8Varint
  let timestamp ← readUInt64Varint
  let previousBlockHash ← readHash
  let nonce ← readUInt32Pod
  let txNum ← readVarint 64
  let transactionCount := UInt16.ofNat txNum
  if transactionCount < 1 then throw "Wrong transactions number"
  let baseTransactionBranch ← readItems readHash (treeDepth transactionCount.toNat)
  let baseTransaction ← BaseTransaction.deserialize
  let mmTag ← match getMergeMiningTagFromExtra baseTransaction.extra with
    | none => throw "Can't get extra merge mining tag"
    | some mmTag => pure mmTag
  if mmTag.depth > 8 * 32 then throw "Wrong merge mining tag depth"
  let blockchainBranch ← readItems readHash mmTag.depth
  pure (⟨majorVersion, minorVersion, previousBlockHash, transactionCount, baseTransactionBranch,
    baseTransaction, blockchainBranch⟩, timestamp, nonce)

namespace BlockTemplate

def serialize (block : BlockTemplate) : Except String (List UInt8) := do
  let header ← serializeBlockHeader block.toBlockHeader
  let parent ←
    if block.majorVersion = BLOCK_MAJOR_VERSION_2 ∨ block.majorVersion = BLOCK_MAJOR_VERSION_3 then
      serializeParentBlock block.parentBlock block.timestamp block.nonce
    else pure []
  let minerTx ← block.baseTransaction.serialize
  pure (header ++ parent ++ minerTx ++ writeVarint block.transactionHashes.length ++
    block.transactionHashes.flatMap Hash.data)

/-- `serialize(BlockTemplate&)` on an input serializer, into `block`. -/
def deserialize (block : BlockTemplate) : InputStream BlockTemplate := do
  let header ← deserializeBlockHeader block.toBlockHeader
  let block := { block with toBlockHeader := header }
  let block ←
    if header.majorVersion = BLOCK_MAJOR_VERSION_2 ∨ header.majorVersion = BLOCK_MAJOR_VERSION_3 then do
      let (parentBlock, timestamp, nonce) ← deserializeParentBlock
      pure { block with parentBlock, timestamp, nonce }
    else pure block
  let baseTransaction ← Transaction.deserialize
  let transactionHashes ← readVector readHash
  pure { block with baseTransaction, transactionHashes }

end BlockTemplate

/-! ## `toBinaryArray` and `fromBinaryArray` -/

/-- `fromBinaryArray<T>`: the reader must leave nothing unread. -/
def fromBinaryArrayWith {α : Type} (read : InputStream α) (binaryArray : List UInt8) :
    Except String α := do
  let (object, rest) ← read binaryArray
  if !rest.isEmpty then throw "failed to unpack type"
  pure object

def Transaction.toBinaryArray (tx : Transaction) : Except String (List UInt8) := tx.serialize

def Transaction.fromBinaryArray (binaryArray : List UInt8) : Except String Transaction :=
  fromBinaryArrayWith Transaction.deserialize binaryArray

def BlockTemplate.toBinaryArray (block : BlockTemplate) : Except String (List UInt8) :=
  block.serialize

def BlockTemplate.fromBinaryArray (binaryArray : List UInt8) : Except String BlockTemplate :=
  fromBinaryArrayWith (BlockTemplate.deserialize emptyBlockTemplate) binaryArray

end CryptoNote
