import CryptoNote.Serialization.KVBinaryInput

/-! # Serializable values (`Serialization/ISerializer.h`, `SerializationOverloads.h`,
`SerializationTools.h`)

A value is serialized by calling the serializer's operations in the order its
type gives, the same calls for reading and for writing: a struct is
`beginObject(name)`, `s(field, fieldName)` for each field, `endObject()`; a
vector is `serializeContainer`: `beginArray(size, name)`, which a reader answers
with the stored size, `resize`, `s(item, "")` for each item and `endArray()`.
When a reader's `beginArray` finds no field, the vector is cleared.

`storeToBinaryKeyValue` runs the fields of a struct on a
`KVBinaryOutputStreamSerializer` and dumps it; `loadFromBinaryKeyValue` parses
the bytes and runs the fields on a `JsonInputValueSerializer` over the tree,
returning `false` on any exception.  The root struct is serialized without
`beginObject`: its fields go to the serializer's root level.

A vector of vectors does not survive the round trip.  The inner vector's
`beginArray` is not a write, so it does not write the outer array's preamble,
and the outer array ends in state `ArrayPrefix` and is not counted; the
inner preambles and elements go to the object stream, past the end of the
section the reader reads. -/

set_option autoImplicit false

namespace CryptoNote

inductive SerializerType
  | INPUT | OUTPUT
deriving DecidableEq, Repr

/-- The serializable types: the integer types, `bool`, `std::string`, a block of
`size` bytes (`std::array<uint8_t, size>`, or a POD serialized with `binary`), a
struct whose `serialize` calls `s(field, name)` for its fields in order, and
`std::vector`. -/
inductive KVType
  | integer (kind : IntKind)
  | bool
  | string
  | blob (size : Nat)
  | object (fields : List (List UInt8 × KVType))
  | vector (item : KVType)
deriving Repr

/-- A value: an integer by its `8 * sizeof(T)` bits, a string or a block by its
bytes, a struct by its fields in order. -/
inductive KVValue
  | integer (raw : Nat)
  | bool (value : Bool)
  | bytes (value : List UInt8)
  | object (fields : List KVValue)
  | vector (items : List KVValue)
deriving Repr

mutual

/-- The value `resize` gives new elements: zero, `false`, empty. -/
def KVType.default : KVType → KVValue
  | .integer _ => .integer 0
  | .bool => .bool false
  | .string => .bytes []
  | .blob size => .bytes (List.replicate size 0)
  | .object fields => .object (defaultFields fields)
  | .vector _ => .vector []

def defaultFields : List (List UInt8 × KVType) → List KVValue
  | [] => []
  | (_, type) :: fields => type.default :: defaultFields fields

end

def resize {α : Type} (l : List α) (size : Nat) (value : α) : List α :=
  l.take size ++ List.replicate (size - l.length) value

/-- `ISerializer` over the state `σ` of a serializer.  Each operation takes the
value it is given by reference and returns what the reference holds after it. -/
structure ISerializer (σ : Type) where
  type : SerializerType
  beginObject : List UInt8 → σ → Except String (Bool × σ)
  endObject : σ → Except String σ
  beginArray : Nat → List UInt8 → σ → Except String (Bool × Nat × σ)
  endArray : σ → Except String σ
  integer : IntKind → Nat → List UInt8 → σ → Except String (Bool × Nat × σ)
  bool : Bool → List UInt8 → σ → Except String (Bool × Bool × σ)
  string : List UInt8 → List UInt8 → σ → Except String (Bool × List UInt8 × σ)
  binary : Nat → List UInt8 → List UInt8 → σ → Except String (Bool × List UInt8 × σ)

section Serialize

variable {σ : Type} (ser : ISerializer σ)

/-- `for (auto& item : value) serializer(item, "")`. -/
def serializeItems (item : KVValue → σ → Except String (KVValue × σ)) :
    List KVValue → σ → Except String (List KVValue × σ)
  | [], s => pure ([], s)
  | x :: xs, s => do
    let (x, s) ← item x s
    let (xs, s) ← serializeItems item xs s
    pure (x :: xs, s)

mutual

/-- `serializer(value, name)` for a value of type `type`.  A value of another
type than its field's is left alone. -/
def serializeValue : KVType → KVValue → List UInt8 → σ → Except String (Bool × KVValue × σ)
  | .integer kind, .integer raw, name, s => do
    let (ok, raw, s) ← ser.integer kind raw name s
    pure (ok, .integer raw, s)
  | .bool, .bool value, name, s => do
    let (ok, value, s) ← ser.bool value name s
    pure (ok, .bool value, s)
  | .string, .bytes value, name, s => do
    let (ok, value, s) ← ser.string value name s
    pure (ok, .bytes value, s)
  | .blob size, .bytes value, name, s => do
    let (ok, value, s) ← ser.binary size value name s
    pure (ok, .bytes value, s)
  | .object fields, .object values, name, s => do
    let (ok, s) ← ser.beginObject name s
    if ok then
      let (values, s) ← serializeFields fields values s
      let s ← ser.endObject s
      pure (true, .object values, s)
    else pure (false, .object values, s)
  | .vector item, .vector items, name, s => do
    -- `serializeContainer`
    let (ok, size, s) ← ser.beginArray items.length name s
    if ok then
      let items := resize items size item.default
      let (items, s) ← serializeItems
        (fun x s => do
          let (_, x, s) ← serializeValue item x [] s
          pure (x, s)) items s
      let s ← ser.endArray s
      pure (true, .vector items, s)
    else pure (false, .vector (if ser.type = .INPUT then [] else items), s)
  | _, value, _, s => pure (false, value, s)

/-- `value.serialize(s)` for a struct: `s(field, name)` for its fields in order. -/
def serializeFields : List (List UInt8 × KVType) → List KVValue → σ → Except String (List KVValue × σ)
  | (name, type) :: fields, value :: values, s => do
    let (_, value, s) ← serializeValue type value name s
    let (values, s) ← serializeFields fields values s
    pure (value :: values, s)
  | _, values, s => pure (values, s)

end

end Serialize

def outputSerializer : ISerializer KVBinaryOutputStreamSerializer where
  type := .OUTPUT
  beginObject name s := do
    let s ← s.beginObject name
    pure (true, s)
  endObject s := s.endObject
  beginArray size name s := pure (true, size, s.beginArray size name)
  endArray s := pure s.endArray
  integer kind value name s := do
    let s ← s.integer kind value name
    pure (true, value, s)
  bool value name s := do
    let s ← s.bool value name
    pure (true, value, s)
  string value name s := do
    let s ← s.string value name
    pure (true, value, s)
  binary _ value name s := do
    let s ← s.binary value name
    pure (true, value, s)

def inputSerializer : ISerializer JsonInputValueSerializer where
  type := .INPUT
  beginObject name s := s.beginObject name
  endObject s := pure s.endObject
  beginArray _ name s := s.beginArray name
  endArray s := pure s.endArray
  integer kind value name s := s.integer kind value name
  bool value name s := s.bool value name
  string value name s := s.string value name
  binary size value name s := KVBinaryInputStreamSerializer.binary s size value name

/-- `storeToBinaryKeyValue` for a struct with fields `fields`. -/
def storeToBinaryKeyValue (fields : List (List UInt8 × KVType)) (values : List KVValue) :
    Except String (List UInt8) := do
  let s ← KVBinaryOutputStreamSerializer.init
  let (_, s) ← serializeFields outputSerializer fields values s
  s.dump

/-- `loadFromBinaryKeyValue` into a struct holding `values`: the values it holds
afterwards when it returns `true`, `none` when it returns `false` (the values
read before the exception are not kept). -/
def loadFromBinaryKeyValue (fields : List (List UInt8 × KVType)) (values : List KVValue) (buf : List UInt8) :
    Option (List KVValue) :=
  let run : Except String (List KVValue) := do
    let (root, _) ← KVBinaryInputStreamSerializer.parseBinary buf
    let s ← JsonInputValueSerializer.init root
    let (values, _) ← serializeFields inputSerializer fields values s
    pure values
  match run with
  | .ok values => some values
  | .error _ => none

/-- A struct with the single field `std::vector<std::vector<uint32_t>> vv`. -/
def nestedVectorFields : List (List UInt8 × KVType) := [([0x76, 0x76], .vector (.vector (.integer .uint32)))]

theorem nestedVector_readsBackEmpty (old : List KVValue) :
    storeToBinaryKeyValue nestedVectorFields [.vector [.vector [.integer 7]]] =
        .ok (storageBlockHeader ++ [0x00, 0x00, 0x86, 0x04, 0x07, 0x00, 0x00, 0x00]) ∧
      loadFromBinaryKeyValue nestedVectorFields [.vector old]
        (storageBlockHeader ++ [0x00, 0x00, 0x86, 0x04, 0x07, 0x00, 0x00, 0x00]) = some [.vector []] := by
  constructor <;> rfl

end CryptoNote
