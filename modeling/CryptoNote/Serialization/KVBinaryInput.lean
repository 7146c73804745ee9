import CryptoNote.Common.StreamTools
import CryptoNote.Serialization.KVBinaryOutput

/-! # The portable-storage reader (`Serialization/KVBinaryInputStreamSerializer.cpp`,
`Serialization/JsonInputValueSerializer.cpp`)

`parseBinary` reads the whole input into a `JsonValue` tree by recursive
descent over type bytes; the bytes after the root section are not read.  A
section's entries are inserted with `insert`, which keeps the first entry of a
name, and an entry whose name has length `0` takes the name read before it.
`JsonInputValueSerializer` then answers the value's reads from the tree: a field
by its name, an element of an array by a running index.  A field that is not
there is reported by a `false` result; a field of the wrong JSON type throws.

The recursion of the parser takes a fuel.  Each call reads a byte before it
calls again, except `loadValue`, which dispatches, and the first turn of
`loadArray`'s loop, so three calls a byte are enough. -/

set_option autoImplicit false

namespace CryptoNote

open Common

/-- `Common::JsonValue`, as the parser builds it.  An object keeps its entries in
the order they were inserted, where `std::map` orders them by name; the reads
below cannot tell the two apart. -/
inductive JsonValue
  | integer (value : Int)
  | real (bits : Nat)
  | bool (value : Bool)
  | string (value : List UInt8)
  | array (items : List JsonValue)
  | object (entries : List (List UInt8 × JsonValue))
deriving Repr

/-- The `std::out_of_range` that `at` throws; its text is the library's. -/
def outOfRange : String := "out_of_range"

namespace JsonValue

def isArray : JsonValue → Bool
  | .array _ => true
  | _ => false

def isObject : JsonValue → Bool
  | .object _ => true
  | _ => false

def contains (key : List UInt8) : JsonValue → Except String Bool
  | .object entries => pure (entries.lookup key).isSome
  | _ => throw "JsonValue type is not OBJECT"

/-- `operator()(key)`: `getObject().at(key)`. -/
def get (key : List UInt8) : JsonValue → Except String JsonValue
  | .object entries =>
    match entries.lookup key with
    | some value => pure value
    | none => throw outOfRange
  | _ => throw "JsonValue type is not OBJECT"

/-- `operator[](index)`: `at(index)` of the array. -/
def index (i : Nat) : JsonValue → Except String JsonValue
  | .array items =>
    match items[i]? with
    | some value => pure value
    | none => throw outOfRange
  | _ => throw "JsonValue type is not ARRAY"

def size : JsonValue → Except String Nat
  | .array items => pure items.length
  | .object entries => pure entries.length
  | _ => throw "JsonValue type is not ARRAY or OBJECT"

def getInteger : JsonValue → Except String Int
  | .integer value => pure value
  | _ => throw "JsonValue type is not INTEGER"

def getBool : JsonValue → Except String Bool
  | .bool value => pure value
  | _ => throw "JsonValue type is not BOOL"

def getString : JsonValue → Except String (List UInt8)
  | .string value => pure value
  | _ => throw "JsonValue type is not STRING"

end JsonValue

/-- `insert(key, value)` on an object: `emplace`, which keeps an entry already there. -/
def emplace (entries : List (List UInt8 × JsonValue)) (key : List UInt8) (value : JsonValue) :
    List (List UInt8 × JsonValue) :=
  match entries.lookup key with
  | some _ => entries
  | none => entries ++ [(key, value)]

namespace KVBinaryInputStreamSerializer

/-- `readPod<T>`: the `size` bytes of a value, least significant first. -/
def readPod (size : Nat) : InputStream Nat := do
  let bytes ← read size
  pure (Nat.ofDigits 256 (bytes.1.map UInt8.toNat))

/-- `readIntegerJson<T>`: `T` read, then converted to `int64_t`. -/
def readIntegerJson (size : Nat) (signed : Bool) : InputStream JsonValue := do
  let raw ← readPod size
  let value : Int := if signed then Int.bmod raw (2 ^ (8 * size)) else raw
  pure (.integer (Int.bmod value (2 ^ 64)))

/-- `readVarint`: the low two bits of the first byte say how many bytes follow;
the bytes fill disjoint bits, so `value |= n << (i * 8)` is an addition. -/
def readVarint : InputStream Nat := do
  let b ← readUInt8
  let sizeMask := b &&& PORTABLE_RAW_SIZE_MARK_MASK
  let bytesLeft :=
    if sizeMask = PORTABLE_RAW_SIZE_MARK_BYTE then 0
    else if sizeMask = PORTABLE_RAW_SIZE_MARK_WORD then 1
    else if sizeMask = PORTABLE_RAW_SIZE_MARK_DWORD then 3
    else if sizeMask = PORTABLE_RAW_SIZE_MARK_INT64 then 7
    else 0
  let more ← read bytesLeft
  pure (Nat.ofDigits 256 ((b :: more.1).map UInt8.toNat) >>> 2)

def readString : InputStream (List UInt8) := do
  let size ← readVarint
  if size > 100 * 1024 * 1024 then throw "string size is too big"
  let str ← read size
  pure str.1

/-- `readName`: a name of length `0` leaves the name before it in place. -/
def readName (name : List UInt8) : InputStream (List UInt8) := do
  let len ← readPod 1
  if len ≠ 0 then
    let bytes ← read len
    pure bytes.1
  else pure name

mutual

def loadSection : Nat → InputStream JsonValue
  | 0 => throw readFailure
  | fuel + 1 => do
    let count ← readVarint
    loadSectionEntries fuel count [] []

/-- The loop of `loadSection`: `count` entries left, `name` the last name read. -/
def loadSectionEntries : Nat → Nat → List UInt8 → List (List UInt8 × JsonValue) → InputStream JsonValue
  | _, 0, _, sec => pure (.object sec)
  | 0, _ + 1, _, _ => throw readFailure
  | fuel + 1, count + 1, name, sec => do
    let name ← readName name
    let entry ← loadEntry fuel
    loadSectionEntries fuel count name (emplace sec name entry)

def loadValue : Nat → UInt8 → InputStream JsonValue
  | 0, _ => throw readFailure
  | fuel + 1, type =>
    if type = BIN_KV_SERIALIZE_TYPE_INT64 then readIntegerJson 8 true
    else if type = BIN_KV_SERIALIZE_TYPE_INT32 then readIntegerJson 4 true
    else if type = BIN_KV_SERIALIZE_TYPE_INT16 then readIntegerJson 2 true
    else if type = BIN_KV_SERIALIZE_TYPE_INT8 then readIntegerJson 1 true
    else if type = BIN_KV_SERIALIZE_TYPE_UINT64 then readIntegerJson 8 false
    else if type = BIN_KV_SERIALIZE_TYPE_UINT32 then readIntegerJson 4 false
    else if type = BIN_KV_SERIALIZE_TYPE_UINT16 then readIntegerJson 2 false
    else if type = BIN_KV_SERIALIZE_TYPE_UINT8 then readIntegerJson 1 false
    else if type = BIN_KV_SERIALIZE_TYPE_DOUBLE then do
      let bits ← readPod 8
      pure (.real bits)
    else if type = BIN_KV_SERIALIZE_TYPE_BOOL then do
      let b ← readUInt8
      pure (.bool (b ≠ 0))
    else if type = BIN_KV_SERIALIZE_TYPE_STRING then do
      let str ← readString
      pure (.string str)
    else if type = BIN_KV_SERIALIZE_TYPE_OBJECT then loadSection fuel
    else if type = BIN_KV_SERIALIZE_TYPE_ARRAY then loadArray fuel type
    else throw "Unknown data type"

def loadEntry : Nat → InputStream JsonValue
  | 0 => throw readFailure
  | fuel + 1 => do
    let type ← readUInt8
    if type &&& BIN_KV_SERIALIZE_FLAG_ARRAY ≠ 0 then
      loadArray fuel (type &&& ~~~BIN_KV_SERIALIZE_FLAG_ARRAY)
    else loadValue fuel type

def loadArray : Nat → UInt8 → InputStream JsonValue
  | 0, _ => throw readFailure
  | fuel + 1, itemType => do
    let count ← readVarint
    loadArrayItems fuel count itemType []

/-- The loop of `loadArray`: `count` items left, `arr` the items read. -/
def loadArrayItems : Nat → Nat → UInt8 → List JsonValue → InputStream JsonValue
  | _, 0, _, arr => pure (.array arr)
  | 0, _ + 1, _, _ => throw readFailure
  | fuel + 1, count + 1, itemType, arr => do
    let item ← loadValue fuel itemType
    loadArrayItems fuel count itemType (arr ++ [item])

end

/-- `parseBinary`: the packed header field by field, then the root section. -/
def parseBinary : InputStream JsonValue := do
  let signatureA ← readPod 4
  let signatureB ← readPod 4
  let ver ← readPod 1
  if signatureA ≠ PORTABLE_STORAGE_SIGNATUREA.toNat ∨ signatureB ≠ PORTABLE_STORAGE_SIGNATUREB.toNat then
    throw "Invalid binary storage signature"
  if ver ≠ PORTABLE_STORAGE_FORMAT_VER.toNat then throw "Unknown binary storage format version"
  let stream ← get
  loadSection (3 * stream.length)

end KVBinaryInputStreamSerializer

/-- The reader's state: `chain` the values entered, `idxs` the running index of
each array entered; both with `back()` at the head. -/
structure JsonInputValueSerializer where
  chain : List JsonValue
  idxs : List Nat
deriving Repr

namespace JsonInputValueSerializer

variable (s : JsonInputValueSerializer)

def init (value : JsonValue) : Except String JsonInputValueSerializer :=
  if value.isObject then pure ⟨[value], []⟩
  else throw "Serializer doesn't support this type of serialization: Object expected."

def beginObject (name : List UInt8) : Except String (Bool × JsonInputValueSerializer) :=
  match s.chain with
  | [] => pure (false, s)
  | parent :: _ =>
    if parent.isArray then
      match s.idxs with
      | [] => pure (false, s)
      | idx :: idxs => do
        let v ← parent.index idx
        pure (true, ⟨v :: s.chain, (idx + 1) :: idxs⟩)
    else do
      let present ← parent.contains name
      if present then
        let v ← parent.get name
        pure (true, { s with chain := v :: s.chain })
      else pure (false, s)

def endObject : JsonInputValueSerializer := { s with chain := s.chain.tail }

def beginArray (name : List UInt8) : Except String (Bool × Nat × JsonInputValueSerializer) :=
  match s.chain with
  | [] => pure (false, 0, s)
  | parent :: _ => do
    let present ← parent.contains name
    if present then
      let arr ← parent.get name
      let size ← arr.size
      pure (true, size, ⟨arr :: s.chain, 0 :: s.idxs⟩)
    else pure (false, 0, s)

def endArray : JsonInputValueSerializer := ⟨s.chain.tail, s.idxs.tail⟩

/-- `getValue`: the next element of an array, or the field of that name. -/
def getValue (name : List UInt8) : Except String (Option JsonValue × JsonInputValueSerializer) :=
  match s.chain with
  | [] => pure (none, s)
  | val :: _ =>
    if val.isArray then
      match s.idxs with
      | [] => pure (none, s)
      | idx :: idxs => do
        let v ← val.index idx
        pure (some v, { s with idxs := (idx + 1) :: idxs })
    else do
      let present ← val.contains name
      if present then
        let v ← val.get name
        pure (some v, s)
      else pure (none, s)

/-- `getNumber` for an integer type: `static_cast<T>` of the `int64_t` keeps its
low `8 * sizeof(T)` bits. -/
def integer (kind : IntKind) (value : Nat) (name : List UInt8) :
    Except String (Bool × Nat × JsonInputValueSerializer) := do
  let (ptr, s) ← s.getValue name
  match ptr with
  | none => pure (false, value, s)
  | some v =>
    let i ← v.getInteger
    pure (true, (i % 2 ^ (8 * kind.size)).toNat, s)

def bool (value : Bool) (name : List UInt8) : Except String (Bool × Bool × JsonInputValueSerializer) := do
  let (ptr, s) ← s.getValue name
  match ptr with
  | none => pure (false, value, s)
  | some v =>
    let b ← v.getBool
    pure (true, b, s)

def string (value name : List UInt8) : Except String (Bool × List UInt8 × JsonInputValueSerializer) := do
  let (ptr, s) ← s.getValue name
  match ptr with
  | none => pure (false, value, s)
  | some v =>
    let str ← v.getString
    pure (true, str, s)

end JsonInputValueSerializer

/-- `KVBinaryInputStreamSerializer::binary(value, size, name)`: the block is
read as a string, which must have `size` bytes. -/
def KVBinaryInputStreamSerializer.binary (s : JsonInputValueSerializer) (size : Nat) (value name : List UInt8) :
    Except String (Bool × List UInt8 × JsonInputValueSerializer) := do
  let (ok, str, s) ← s.string [] name
  if !ok then pure (false, value, s)
  else if str.length ≠ size then throw "Binary block size mismatch"
  else pure (true, str, s)

end CryptoNote
