import CryptoNote.Lib.BlockCodec

/-! # The portable-storage writer (`Serialization/KVBinaryOutputStreamSerializer.cpp`)

The writer keeps a stack of levels and a stack of memory streams, one stream
for each object still open.  A field is written as its name, a type byte and
its value, and counted in its object's level; closing an object writes the
object's count and its stream into the stream below.  An array only pushes a
level, in state `ArrayPrefix`: the first element written into it writes the
array's name, `BIN_KV_SERIALIZE_FLAG_ARRAY | type` and the element count, and
turns the level to `Array`, in which elements carry neither name nor type and
are not counted.  An array is counted in its object when it ends in state
`Array`.

Stacks are lists whose head is `back()`.  Where the source asserts that a stack
is not empty, the model leaves the serializer unchanged. -/

set_option autoImplicit false

namespace CryptoNote

open BlockCodec

/-! ## `KVBinaryCommon.h` -/

def PORTABLE_STORAGE_SIGNATUREA : UInt32 := 0x01011101
def PORTABLE_STORAGE_SIGNATUREB : UInt32 := 0x01020101
def PORTABLE_STORAGE_FORMAT_VER : UInt8 := 1

def PORTABLE_RAW_SIZE_MARK_MASK : UInt8 := 0x03
def PORTABLE_RAW_SIZE_MARK_BYTE : UInt8 := 0
def PORTABLE_RAW_SIZE_MARK_WORD : UInt8 := 1
def PORTABLE_RAW_SIZE_MARK_DWORD : UInt8 := 2
def PORTABLE_RAW_SIZE_MARK_INT64 : UInt8 := 3

def BIN_KV_SERIALIZE_TYPE_INT64 : UInt8 := 1
def BIN_KV_SERIALIZE_TYPE_INT32 : UInt8 := 2
def BIN_KV_SERIALIZE_TYPE_INT16 : UInt8 := 3
def BIN_KV_SERIALIZE_TYPE_INT8 : UInt8 := 4
def BIN_KV_SERIALIZE_TYPE_UINT64 : UInt8 := 5
def BIN_KV_SERIALIZE_TYPE_UINT32 : UInt8 := 6
def BIN_KV_SERIALIZE_TYPE_UINT16 : UInt8 := 7
def BIN_KV_SERIALIZE_TYPE_UINT8 : UInt8 := 8
def BIN_KV_SERIALIZE_TYPE_DOUBLE : UInt8 := 9
def BIN_KV_SERIALIZE_TYPE_STRING : UInt8 := 10
def BIN_KV_SERIALIZE_TYPE_BOOL : UInt8 := 11
def BIN_KV_SERIALIZE_TYPE_OBJECT : UInt8 := 12
def BIN_KV_SERIALIZE_TYPE_ARRAY : UInt8 := 13
def BIN_KV_SERIALIZE_FLAG_ARRAY : UInt8 := 0x80

/-- The integer types `ISerializer` has an `operator()` for. -/
inductive IntKind
  | uint8 | int16 | uint16 | int32 | uint32 | int64 | uint64
deriving DecidableEq, Repr

def IntKind.size : IntKind → Nat
  | .uint8 => 1
  | .int16 | .uint16 => 2
  | .int32 | .uint32 => 4
  | .int64 | .uint64 => 8

def IntKind.signed : IntKind → Bool
  | .int16 | .int32 | .int64 => true
  | .uint8 | .uint16 | .uint32 | .uint64 => false

/-- The type byte `operator()(T&, name)` writes. -/
def IntKind.typeCode : IntKind → UInt8
  | .uint8 => BIN_KV_SERIALIZE_TYPE_UINT8
  | .int16 => BIN_KV_SERIALIZE_TYPE_INT16
  | .uint16 => BIN_KV_SERIALIZE_TYPE_UINT16
  | .int32 => BIN_KV_SERIALIZE_TYPE_INT32
  | .uint32 => BIN_KV_SERIALIZE_TYPE_UINT32
  | .int64 => BIN_KV_SERIALIZE_TYPE_INT64
  | .uint64 => BIN_KV_SERIALIZE_TYPE_UINT64

/-! ## Sizes and names -/

/-- `writePod`: the `size` bytes of a value, least significant first. -/
def writePod (size value : Nat) : List UInt8 := (digitsLE 256 size value).map Nat.toUInt8

def storageBlockHeader : List UInt8 :=
  writePod 4 PORTABLE_STORAGE_SIGNATUREA.toNat ++ writePod 4 PORTABLE_STORAGE_SIGNATUREB.toNat ++
    [PORTABLE_STORAGE_FORMAT_VER]

/-- `packVarint<T>`: `pv << 2` in a `size_t`, cut to `sizeof(T)` bytes, with the
size mark in its low two bits. -/
def packVarint (size : Nat) (typeOr : UInt8) (pv : Nat) : List UInt8 :=
  writePod size ((pv <<< 2) % 2 ^ 64 % 2 ^ (8 * size) ||| typeOr.toNat)

def writeArraySize (val : Nat) : Except String (List UInt8) :=
  if val ≤ 63 then pure (packVarint 1 PORTABLE_RAW_SIZE_MARK_BYTE val)
  else if val ≤ 16383 then pure (packVarint 2 PORTABLE_RAW_SIZE_MARK_WORD val)
  else if val ≤ 1073741823 then pure (packVarint 4 PORTABLE_RAW_SIZE_MARK_DWORD val)
  else if val > 4611686018427387903 then throw "failed to pack varint - too big amount"
  else pure (packVarint 8 PORTABLE_RAW_SIZE_MARK_INT64 val)

/-- The bytes `writeArraySize` writes for a count it accepts. -/
def packedSize (val : Nat) : List UInt8 :=
  if val ≤ 63 then writePod 1 (val * 4)
  else if val ≤ 16383 then writePod 2 (val * 4 + 1)
  else if val ≤ 1073741823 then writePod 4 (val * 4 + 2)
  else writePod 8 (val * 4 + 3)

def writeElementName (name : List UInt8) : Except String (List UInt8) :=
  if name.length > 255 then throw "Element name is too long"
  else pure (name.length.toUInt8 :: name)

/-- What `writeElementName` writes for a name it accepts. -/
def elementName (name : List UInt8) : List UInt8 := name.length.toUInt8 :: name

/-! ## The serializer -/

inductive State
  | Root | Object | ArrayPrefix | Array
deriving DecidableEq, Repr

structure Level where
  state : State
  name : List UInt8
  count : Nat
deriving DecidableEq, Repr

/-- `Level(nm)`: an object. -/
def Level.ofName (name : List UInt8) : Level := ⟨.Object, name, 0⟩

/-- `Level(nm, arraySize)`: an array whose preamble is not written yet. -/
def Level.ofArray (name : List UInt8) (arraySize : Nat) : Level := ⟨.ArrayPrefix, name, arraySize⟩

structure KVBinaryOutputStreamSerializer where
  objectsStack : List (List UInt8)
  stack : List Level
deriving DecidableEq, Repr

namespace KVBinaryOutputStreamSerializer

variable (s : KVBinaryOutputStreamSerializer)

/-- Bytes written to `stream()`, the top object stream. -/
def write (bytes : List UInt8) : KVBinaryOutputStreamSerializer :=
  { s with objectsStack := match s.objectsStack with
      | [] => []
      | top :: rest => (top ++ bytes) :: rest }

def checkArrayPreamble (type : UInt8) : Except String KVBinaryOutputStreamSerializer :=
  match s.stack with
  | [] => pure s
  | level :: rest =>
    if level.state = .ArrayPrefix then do
      let name ← writeElementName level.name
      let size ← writeArraySize level.count
      pure { s.write (name ++ [BIN_KV_SERIALIZE_FLAG_ARRAY ||| type] ++ size) with
        stack := { level with state := .Array } :: rest }
    else pure s

def writeElementPrefix (type : UInt8) (name : List UInt8) : Except String KVBinaryOutputStreamSerializer := do
  let s ← s.checkArrayPreamble type
  match s.stack with
  | [] => pure s
  | level :: rest =>
    if level.state ≠ .Array then
      let s ← if name.isEmpty then pure s else do
        let written ← writeElementName name
        pure (s.write (written ++ [type]))
      pure { s with stack := { level with count := level.count + 1 } :: rest }
    else pure s

def beginObject (name : List UInt8) : Except String KVBinaryOutputStreamSerializer := do
  let s ← s.checkArrayPreamble BIN_KV_SERIALIZE_TYPE_OBJECT
  pure { stack := Level.ofName name :: s.stack, objectsStack := [] :: s.objectsStack }

def endObject : Except String KVBinaryOutputStreamSerializer :=
  match s.stack, s.objectsStack with
  | level :: stack, objStream :: objectsStack => do
    let s ← ({ stack, objectsStack } : KVBinaryOutputStreamSerializer).writeElementPrefix
      BIN_KV_SERIALIZE_TYPE_OBJECT level.name
    let size ← writeArraySize level.count
    pure (s.write (size ++ objStream))
  | _, _ => pure s

def beginArray (size : Nat) (name : List UInt8) : KVBinaryOutputStreamSerializer :=
  { s with stack := Level.ofArray name size :: s.stack }

def endArray : KVBinaryOutputStreamSerializer :=
  match s.stack with
  | level :: parent :: rest =>
    if parent.state = .Object ∧ level.state = .Array then
      { s with stack := { parent with count := parent.count + 1 } :: rest }
    else { s with stack := parent :: rest }
  | stack => { s with stack := stack.tail }

/-- `operator()(T&, name)` for an integer type `T`. -/
def integer (kind : IntKind) (value : Nat) (name : List UInt8) : Except String KVBinaryOutputStreamSerializer := do
  let s ← s.writeElementPrefix kind.typeCode name
  pure (s.write (writePod kind.size value))

def bool (value : Bool) (name : List UInt8) : Except String KVBinaryOutputStreamSerializer := do
  let s ← s.writeElementPrefix BIN_KV_SERIALIZE_TYPE_BOOL name
  pure (s.write (writePod 1 (if value then 1 else 0)))

def string (value name : List UInt8) : Except String KVBinaryOutputStreamSerializer := do
  let s ← s.writeElementPrefix BIN_KV_SERIALIZE_TYPE_STRING name
  let size ← writeArraySize value.length
  pure (s.write (size ++ value))

/-- `binary(value, size, name)`: the writes of `operator()(std::string&)`, and
nothing at all for an empty block. -/
def binary (value name : List UInt8) : Except String KVBinaryOutputStreamSerializer :=
  if value.length > 0 then s.string value name else pure s

/-- The constructor: the root object, named `""`. -/
def init : Except String KVBinaryOutputStreamSerializer :=
  beginObject { objectsStack := [], stack := [] } []

/-- `dump`: the header, the root's count and the root stream. -/
def dump : Except String (List UInt8) := do
  let size ← writeArraySize ((s.stack.getLast?.map Level.count).getD 0)
  pure (storageBlockHeader ++ size ++ s.objectsStack.headD [])

end KVBinaryOutputStreamSerializer

/-! ## Sizes and names, accepted -/

theorem packVarint_eq (size : Nat) (mark : UInt8) (val : Nat) (small : mark.toNat < 4)
    (wide : size ≤ 8) (fits : val * 4 < 2 ^ (8 * size)) :
    packVarint size mark val = writePod size (val * 4 + mark.toNat) := by
  have within : val * 4 < 2 ^ 64 :=
    lt_of_lt_of_le fits (Nat.pow_le_pow_right (by norm_num) (by omega))
  have shifted : val <<< 2 = val * 4 := by rw [Nat.shiftLeft_eq]
  unfold packVarint
  rw [shifted, Nat.mod_eq_of_lt within, Nat.mod_eq_of_lt fits, ← shifted]
  -- the size mark fills the two low bits that the shift left empty
  rw [← Nat.shiftLeft_add_eq_or_of_lt (by simpa using small), shifted]

theorem writeArraySize_eq (val : Nat) (fits : val ≤ 4611686018427387903) :
    writeArraySize val = .ok (packedSize val) := by
  unfold writeArraySize packedSize
  split_ifs with byte word dword tooBig
  · rw [packVarint_eq 1 _ val (by decide) (by omega) (by norm_num; omega)]
    rfl
  · rw [packVarint_eq 2 _ val (by decide) (by omega) (by norm_num; omega)]
    rfl
  · rw [packVarint_eq 4 _ val (by decide) (by omega) (by norm_num; omega)]
    rfl
  · omega
  · rw [packVarint_eq 8 _ val (by decide) (by omega) (by norm_num; omega)]
    rfl

theorem writeElementName_eq (name : List UInt8) (short : name.length ≤ 255) :
    writeElementName name = .ok (elementName name) := by
  unfold writeElementName elementName
  rw [if_neg (by omega)]
  rfl

end CryptoNote
