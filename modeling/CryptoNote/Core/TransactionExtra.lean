import CryptoNote.Common.StreamTools

/-!
# Transaction extra

`parseTransactionExtra`, `writeTransactionExtra` and the field lookups of
`CryptoNoteCore/TransactionExtra.cpp`.  The parser reads tagged fields until the
end of the blob; an unknown tag is skipped as a field of one byte.  A padding
that is not all zero, or too long, and every exception end the parse with
`false`, and the fields read so far are kept.
-/

set_option autoImplicit false

namespace Common

/-- `characterValues[c]` of `Common/StringTools.cpp`: the value of a hexadecimal
digit, `0xff` for any other character. -/
def characterValue (character : UInt8) : UInt8 :=
  if 0x30 ≤ character ∧ character ≤ 0x39 then character - 0x30
  else if 0x41 ≤ character ∧ character ≤ 0x46 then character - 0x37
  else if 0x61 ≤ character ∧ character ≤ 0x66 then character - 0x57
  else 0xff

def fromHexDigit (character : UInt8) : Option UInt8 :=
  if characterValue character > 0x0f then none else some (characterValue character)

/-- The loop of `fromHex(text, data, bufferSize, size)`: a byte for each two digits. -/
def fromHexLoop : List UInt8 → Option (List UInt8)
  | high :: low :: text => do
    let value1 ← fromHexDigit high
    let value2 ← fromHexDigit low
    let data ← fromHexLoop text
    pure ((value1 <<< 4 ||| value2) :: data)
  | _ => some []

/-- `fromHex(text, data, bufferSize, size)`: the bytes written, `size` being their
number; `none` for `false`. -/
def fromHex (text : List UInt8) (bufferSize : Nat) : Option (List UInt8) :=
  if text.length % 2 ≠ 0 then none
  else if text.length / 2 > bufferSize then none
  else fromHexLoop text

/-- `podFromHex(text, val)` for a 32-byte POD: the text must fill it. -/
def podFromHex (text : List UInt8) : Option Crypto.Hash :=
  match fromHex text 32 with
  | some data => if sized : data.length = 32 then some ⟨data, sized⟩ else none
  | none => none

end Common

namespace CryptoNote

open Common Crypto

def TX_EXTRA_PADDING_MAX_COUNT : Nat := 255
def TX_EXTRA_NONCE_MAX_COUNT : Nat := 255

def TX_EXTRA_TAG_PADDING : UInt8 := 0x00
def TX_EXTRA_TAG_PUBKEY : UInt8 := 0x01
def TX_EXTRA_NONCE : UInt8 := 0x02
def TX_EXTRA_MERGE_MINING_TAG : UInt8 := 0x03

def TX_EXTRA_NONCE_PAYMENT_ID : UInt8 := 0x00

/-- `TransactionExtraMergeMiningTag`; `depth` is a `size_t`. -/
structure TransactionExtraMergeMiningTag where
  depth : Nat
  merkleRoot : Hash
  deriving DecidableEq, Repr

/-- The `boost::variant` of the four field types. -/
inductive TransactionExtraField
  | padding (size : Nat)
  | publicKey (publicKey : PublicKey)
  | nonce (nonce : List UInt8)
  | mergeMiningTag (tag : TransactionExtraMergeMiningTag)
  deriving DecidableEq, Repr

namespace TransactionExtraField

def publicKey? : TransactionExtraField → Option PublicKey
  | .publicKey key => some key
  | _ => none

def nonce? : TransactionExtraField → Option (List UInt8)
  | .nonce bytes => some bytes
  | _ => none

def mergeMiningTag? : TransactionExtraField → Option TransactionExtraMergeMiningTag
  | .mergeMiningTag tag => some tag
  | _ => none

end TransactionExtraField

/-! ## Reading -/

/-- The padding loop: `size` counts the bytes of the field read so far, the tag
included.  `none` is the source's `return false`. -/
def paddingLoop (size : Nat) : List UInt8 → Option (Nat × List UInt8)
  | [] => if size > TX_EXTRA_PADDING_MAX_COUNT then none else some (size, [])
  | byte :: rest =>
      if size ≤ TX_EXTRA_PADDING_MAX_COUNT then
        if byte ≠ 0 then none else paddingLoop (size + 1) rest
      else none

/-- `serializer(std::string&)` of `BinaryInputStreamSerializer`. -/
def readString : InputStream (List UInt8) := do
  let size ← readVarint 64
  if size > 0 then
    let data ← read size
    pure data.1
  else pure []

/-- `doSerialize(TransactionExtraMergeMiningTag&)` on an input serializer. -/
def readMergeMiningTagFields : InputStream TransactionExtraMergeMiningTag := do
  let depth ← readVarint 64
  let merkleRoot ← readHash
  pure ⟨depth, merkleRoot⟩

/-- `serialize(TransactionExtraMergeMiningTag&)` on an input serializer: the
tag is a string whose bytes are read by a second serializer; bytes after the
Merkle root are ignored. -/
def readMergeMiningTag : InputStream TransactionExtraMergeMiningTag := do
  let field ← readString
  match readMergeMiningTagFields.run' field with
  | .ok tag => pure tag
  | .error message => throw message

def readNonce : InputStream (List UInt8) := do
  let size ← readUInt8
  if size > 0 then
    let data ← read size.toNat
    pure data.1
  else pure []

/-- One iteration of the parse loop after the tag byte.  The outer `none` ends
the parse with `false`; `some (none, _)` is an unknown tag. -/
def readExtraField (tag : UInt8) (bytes : List UInt8) :
    Option (Option TransactionExtraField × List UInt8) :=
  if tag = TX_EXTRA_TAG_PADDING then
    (paddingLoop 1 bytes).map fun (size, rest) => (some (.padding size), rest)
  else if tag = TX_EXTRA_TAG_PUBKEY then
    (readPublicKey.run bytes).toOption.map fun (key, rest) => (some (.publicKey key), rest)
  else if tag = TX_EXTRA_NONCE then
    (readNonce.run bytes).toOption.map fun (nonce, rest) => (some (.nonce nonce), rest)
  else if tag = TX_EXTRA_MERGE_MINING_TAG then
    (readMergeMiningTag.run bytes).toOption.map fun (tag, rest) => (some (.mergeMiningTag tag), rest)
  else some (none, bytes)

/-- The `while (!iss.endOfStream())` loop.  Every iteration reads the tag byte,
so the length of the blob is enough fuel. -/
def parseTransactionExtraLoop :
    (fuel : Nat) → List UInt8 → List TransactionExtraField → Bool × List TransactionExtraField
  | 0, _, fields => (true, fields)
  | _ + 1, [], fields => (true, fields)
  | fuel + 1, tag :: bytes, fields =>
      match readExtraField tag bytes with
      | none => (false, fields)
      | some (none, rest) => parseTransactionExtraLoop fuel rest fields
      | some (some field, rest) => parseTransactionExtraLoop fuel rest (fields ++ [field])

/-- `parseTransactionExtra(transactionExtra, transactionExtraFields)`: whether
the parse succeeded, and the fields, which are kept when it fails. -/
def parseTransactionExtra (transactionExtra : List UInt8) : Bool × List TransactionExtraField :=
  parseTransactionExtraLoop transactionExtra.length transactionExtra []

/-- `getPaymentIdFromTransactionExtraNonce`: a nonce of `0x00` and 32 bytes. -/
def getPaymentIdFromTransactionExtraNonce (extraNonce : List UInt8) : Option Hash :=
  if h : extraNonce.length = 32 + 1 then
    if extraNonce.head? = some TX_EXTRA_NONCE_PAYMENT_ID then
      some ⟨extraNonce.tail, by simp [h]⟩
    else none
  else none

/-- `getPaymentIdFromTxExtra`: the payment id in the first nonce field of an
extra that parses. -/
def getPaymentIdFromTxExtra (extra : List UInt8) : Option Hash := do
  let (parsed, fields) := parseTransactionExtra extra
  guard parsed
  let extraNonce ← fields.findSome? TransactionExtraField.nonce?
  getPaymentIdFromTransactionExtraNonce extraNonce

/-- `getMergeMiningTagFromExtra`: the first merge-mining tag, whether or not
the rest of the extra parses. -/
def getMergeMiningTagFromExtra (extra : List UInt8) : Option TransactionExtraMergeMiningTag :=
  (parseTransactionExtra extra).2.findSome? TransactionExtraField.mergeMiningTag?

/-- `getTransactionPublicKeyFromExtra`: the first public key, or the
value-initialized key. -/
def getTransactionPublicKeyFromExtra (extra : List UInt8) : PublicKey :=
  ((parseTransactionExtra extra).2.findSome? TransactionExtraField.publicKey?).getD
    (PublicKey.ofByte 0)

/-! ## Writing -/

def addTransactionPublicKeyToExtra (extra : List UInt8) (publicKey : PublicKey) : List UInt8 :=
  extra ++ TX_EXTRA_TAG_PUBKEY :: publicKey.data

def addExtraNonceToTransactionExtra (extra : List UInt8) (extraNonce : List UInt8) :
    Option (List UInt8) :=
  if extraNonce.length > TX_EXTRA_NONCE_MAX_COUNT then none
  else some (extra ++ TX_EXTRA_NONCE :: UInt8.ofNat extraNonce.length :: extraNonce)

/-- `toBinaryArray(mm_tag)`: the tag written as a string by the output serializer. -/
def mergeMiningTagBlob (tag : TransactionExtraMergeMiningTag) : List UInt8 :=
  let field := writeVarint tag.depth ++ tag.merkleRoot.data
  writeVarint field.length ++ field

def appendMergeMiningTagToExtra (extra : List UInt8) (tag : TransactionExtraMergeMiningTag) :
    List UInt8 :=
  extra ++ TX_EXTRA_MERGE_MINING_TAG :: mergeMiningTagBlob tag

def setPaymentIdToTransactionExtraNonce (paymentId : Hash) : List UInt8 :=
  TX_EXTRA_NONCE_PAYMENT_ID :: paymentId.data

def parsePaymentId (paymentIdString : List UInt8) : Option Hash := podFromHex paymentIdString

/-- `createTxExtraWithPaymentId(paymentIdString, extra)`: the extra with the
payment id nonce appended, `none` for `false`. -/
def createTxExtraWithPaymentId (paymentIdString extra : List UInt8) : Option (List UInt8) := do
  let paymentIdBin ← parsePaymentId paymentIdString
  addExtraNonceToTransactionExtra extra (setPaymentIdToTransactionExtraNonce paymentIdBin)

/-- `ExtraSerializerVisitor`: one field appended, `none` for `false`. -/
def writeExtraField (extra : List UInt8) : TransactionExtraField → Option (List UInt8)
  | .padding size =>
      if size > TX_EXTRA_PADDING_MAX_COUNT then none else some (extra ++ List.replicate size 0)
  | .publicKey publicKey => some (addTransactionPublicKeyToExtra extra publicKey)
  | .nonce nonce => addExtraNonceToTransactionExtra extra nonce
  | .mergeMiningTag tag => some (appendMergeMiningTagToExtra extra tag)

/-- `writeTransactionExtra(tx_extra, fields)`: the source appends to
`tx_extra` as it goes, so a failure keeps the fields written before it. -/
def writeTransactionExtra (extra : List UInt8) :
    List TransactionExtraField → Bool × List UInt8
  | [] => (true, extra)
  | field :: fields =>
      match writeExtraField extra field with
      | none => (false, extra)
      | some extended => writeTransactionExtra extended fields

end CryptoNote
