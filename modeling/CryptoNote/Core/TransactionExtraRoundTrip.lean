import CryptoNote.Core.SerializationRoundTrip

/-!
# The transaction extra reads back what is written

`writeTransactionExtra` appends the encoding of each field (`encodeExtraField`),
and `parseTransactionExtra` reads each encoding back as its field when the field
fits the format: a padding of 1 to `TX_EXTRA_PADDING_MAX_COUNT` zero bytes, which
the parser runs to the end of the extra and so only as the last field; a nonce of
at most `TX_EXTRA_NONCE_MAX_COUNT` bytes, whose length is one byte; a merge-mining
tag whose depth fits the `uint64_t` it is written as.  After fields of that kind,
the payment id that `createTxExtraWithPaymentId` appends and the tag that
`appendMergeMiningTagToExtra` appends are what the lookups find.
-/

set_option autoImplicit false

namespace CryptoNote

open Common Crypto Codec

namespace TransactionExtraField

def isPadding : TransactionExtraField → Bool
  | .padding _ => true
  | _ => false

/-- A field whose encoding the parser reads back as the field. -/
def Encodable : TransactionExtraField → Prop
  | .padding size => 1 ≤ size ∧ size ≤ TX_EXTRA_PADDING_MAX_COUNT
  | .publicKey _ => True
  | .nonce bytes => bytes.length ≤ TX_EXTRA_NONCE_MAX_COUNT
  | .mergeMiningTag tag => tag.depth < 2 ^ 64

instance : DecidablePred Encodable := fun field => by
  cases field <;> unfold Encodable <;> infer_instance

end TransactionExtraField

/-- The bytes `ExtraSerializerVisitor` appends for a field. -/
def encodeExtraField : TransactionExtraField → List UInt8
  | .padding size => List.replicate size 0
  | .publicKey publicKey => TX_EXTRA_TAG_PUBKEY :: publicKey.data
  | .nonce nonce => TX_EXTRA_NONCE :: UInt8.ofNat nonce.length :: nonce
  | .mergeMiningTag tag => TX_EXTRA_MERGE_MINING_TAG :: mergeMiningTagBlob tag

/-! ## Writing -/

theorem writeExtraField_encodable {field : TransactionExtraField} (encodable : field.Encodable)
    (extra : List UInt8) : writeExtraField extra field = some (extra ++ encodeExtraField field) := by
  cases field with
  | padding size =>
    simp only [TransactionExtraField.Encodable] at encodable
    simp [writeExtraField, encodeExtraField, encodable.2]
  | publicKey key => rfl
  | nonce nonce =>
    simp only [TransactionExtraField.Encodable] at encodable
    simp [writeExtraField, addExtraNonceToTransactionExtra, encodeExtraField, Nat.not_lt.mpr encodable]
  | mergeMiningTag tag => rfl

theorem writeTransactionExtra_encodable : ∀ (fields : List TransactionExtraField) (extra : List UInt8),
    (∀ field ∈ fields, field.Encodable) →
    writeTransactionExtra extra fields = (true, extra ++ fields.flatMap encodeExtraField) := by
  intro fields
  induction fields with
  | nil => intro extra _; simp [writeTransactionExtra]
  | cons field fields ih =>
    intro extra encodable
    simp only [writeTransactionExtra, writeExtraField_encodable (encodable field (by simp)),
      ih _ (fun other mem => encodable other (by simp [mem])), List.flatMap_cons, List.append_assoc]

/-! ## Reading, one field at a time -/

theorem paddingLoop_zeros : ∀ (count size : Nat), size + count ≤ TX_EXTRA_PADDING_MAX_COUNT →
    paddingLoop size (List.replicate count 0) = some (size + count, []) := by
  intro count
  induction count with
  | zero =>
    intro size fits
    simp [paddingLoop, show ¬ size > TX_EXTRA_PADDING_MAX_COUNT by omega]
  | succ count ih =>
    intro size fits
    rw [List.replicate_succ, paddingLoop, if_pos (by omega), if_neg (by simp),
      ih (size + 1) (by omega), Nat.add_right_comm, Nat.add_assoc]

theorem readNonce_append (nonce rest : List UInt8) (fits : nonce.length ≤ TX_EXTRA_NONCE_MAX_COUNT) :
    readNonce (UInt8.ofNat nonce.length :: (nonce ++ rest)) = .ok (nonce, rest) := by
  have size : (UInt8.ofNat nonce.length).toNat = nonce.length := by
    simp only [TX_EXTRA_NONCE_MAX_COUNT] at fits
    simp [Nat.mod_eq_of_lt (show nonce.length < 256 by omega)]
  simp only [readNonce]
  rw [bind_of_ok (readUInt8_cons _ _)]
  cases nonce with
  | nil => rfl
  | cons byte bytes =>
    have positive : (UInt8.ofNat (byte :: bytes).length) > 0 := by
      rw [gt_iff_lt, UInt8.lt_iff_toNat_lt, size]
      simp
    rw [if_pos positive, bind_of_ok (read_append _ (byte :: bytes) rest size.symm)]
    rfl

theorem length_writeVarint_le (value : Nat) : (writeVarint value).length ≤ value / 128 + 1 := by
  induction value using Nat.strong_induction_on with
  | _ value ih =>
    rw [writeVarint_eq]
    split
    · next more =>
      have shorter := ih (value / 128) (by omega)
      rw [List.length_cons]
      have : value / 128 / 128 + 1 ≤ value / 128 := by omega
      omega
    · simp

theorem readMergeMiningTag_append (tag : TransactionExtraMergeMiningTag) (rest : List UInt8)
    (fits : tag.depth < 2 ^ 64) : readMergeMiningTag (mergeMiningTagBlob tag ++ rest) = .ok (tag, rest) := by
  -- the tag is a string holding the depth varint and the Merkle root
  have short : (writeVarint tag.depth ++ tag.merkleRoot.data).length < 2 ^ 64 := by
    have := length_writeVarint_le tag.depth
    rw [List.length_append, tag.merkleRoot.size_eq]
    omega
  have inner : readMergeMiningTagFields.run' (writeVarint tag.depth ++ tag.merkleRoot.data) = .ok tag := by
    simp only [StateT.run', readMergeMiningTagFields]
    rw [bind_of_ok (readVarint_writeVarint 64 tag.depth _ (by norm_num) fits),
      bind_of_ok (by simpa using readHash_append tag.merkleRoot [])]
    rfl
  simp only [readMergeMiningTag, mergeMiningTagBlob]
  rw [List.append_assoc (writeVarint _), bind_of_ok (readString_append _ rest short), inner]
  rfl

theorem encodeExtraField_ne_nil {field : TransactionExtraField} (encodable : field.Encodable) :
    encodeExtraField field ≠ [] := by
  cases field with
  | padding size =>
    simp only [TransactionExtraField.Encodable] at encodable
    simp [encodeExtraField]
    omega
  | _ => simp [encodeExtraField]

theorem readExtraField_encode {field : TransactionExtraField} (encodable : field.Encodable) {tag : UInt8}
    {body : List UInt8} (split : encodeExtraField field = tag :: body) (rest : List UInt8)
    (last : field.isPadding = true → rest = []) :
    readExtraField tag (body ++ rest) = some (some field, rest) := by
  cases field with
  | padding size =>
    simp only [TransactionExtraField.Encodable] at encodable
    obtain ⟨rfl, rfl⟩ : tag = 0 ∧ body = List.replicate (size - 1) 0 := by
      rw [encodeExtraField, show size = size - 1 + 1 by omega, List.replicate_succ] at split
      simpa [eq_comm] using split
    rw [last rfl, List.append_nil, readExtraField, if_pos (show (0 : UInt8) = TX_EXTRA_TAG_PADDING from rfl),
      paddingLoop_zeros _ _ (by omega)]
    simp only [Option.map_some, show 1 + (size - 1) = size by omega]
  | publicKey key =>
    obtain ⟨rfl, rfl⟩ := List.cons.inj split.symm
    rw [readExtraField, if_neg (by decide), if_pos rfl]
    simp only [StateT.run, readPublicKey_append]
    rfl
  | nonce nonce =>
    simp only [TransactionExtraField.Encodable] at encodable
    obtain ⟨rfl, rfl⟩ := List.cons.inj split.symm
    rw [readExtraField, if_neg (by decide), if_neg (by decide), if_pos rfl]
    simp only [StateT.run, List.cons_append, readNonce_append nonce rest encodable]
    rfl
  | mergeMiningTag mmTag =>
    simp only [TransactionExtraField.Encodable] at encodable
    obtain ⟨rfl, rfl⟩ := List.cons.inj split.symm
    rw [readExtraField, if_neg (by decide), if_neg (by decide), if_neg (by decide), if_pos rfl]
    simp only [StateT.run, readMergeMiningTag_append mmTag rest encodable]
    rfl

/-! ## Reading the whole extra -/

theorem mem_dropLast_cons {α : Type} {x a : α} {l : List α} (mem : x ∈ l.dropLast) : x ∈ (a :: l).dropLast := by
  cases l with
  | nil => simp at mem
  | cons b l =>
    rw [List.dropLast_cons_cons]
    exact List.mem_cons_of_mem a mem

theorem parseTransactionExtraLoop_encoded : ∀ (fields : List TransactionExtraField) (fuel : Nat)
    (parsed : List TransactionExtraField), (∀ field ∈ fields, field.Encodable) →
    (∀ field ∈ fields.dropLast, field.isPadding = false) → (fields.flatMap encodeExtraField).length ≤ fuel →
    parseTransactionExtraLoop fuel (fields.flatMap encodeExtraField) parsed = (true, parsed ++ fields) := by
  intro fields
  induction fields with
  | nil =>
    intro fuel parsed _ _ _
    cases fuel <;> simp [parseTransactionExtraLoop]
  | cons field fields ih =>
    intro fuel parsed encodable paddingLast enough
    have encodableHead := encodable field (by simp)
    obtain ⟨tag, body, split⟩ := List.exists_cons_of_ne_nil (encodeExtraField_ne_nil encodableHead)
    -- a padding is the last field, so nothing follows its zeros
    have last : field.isPadding = true → fields.flatMap encodeExtraField = [] := by
      intro padding
      cases fields with
      | nil => rfl
      | cons next more =>
        have := paddingLast field (by simp)
        rw [padding] at this
        cases this
    rw [List.flatMap_cons, split, List.length_append, List.length_cons] at enough
    obtain ⟨fuel, rfl⟩ : ∃ f, fuel = f + 1 := ⟨fuel - 1, by omega⟩
    rw [List.flatMap_cons, split, List.cons_append, parseTransactionExtraLoop,
      readExtraField_encode encodableHead split _ last]
    simp only
    rw [ih fuel _ (fun other mem => encodable other (by simp [mem]))
      (fun other mem => paddingLast other (mem_dropLast_cons mem)) ?_]
    · simp
    · omega

theorem parseTransactionExtra_encoded {fields : List TransactionExtraField}
    (encodable : ∀ field ∈ fields, field.Encodable)
    (paddingLast : ∀ field ∈ fields.dropLast, field.isPadding = false) :
    parseTransactionExtra (fields.flatMap encodeExtraField) = (true, fields) :=
  parseTransactionExtraLoop_encoded fields _ [] encodable paddingLast le_rfl

theorem parseTransactionExtra_encoded_append {fields : List TransactionExtraField}
    (plain : ∀ field ∈ fields, field.Encodable ∧ field.isPadding = false) {last : TransactionExtraField}
    (encodable : last.Encodable) :
    parseTransactionExtra ((fields ++ [last]).flatMap encodeExtraField) = (true, fields ++ [last]) := by
  apply parseTransactionExtra_encoded
  · intro field mem
    rcases List.mem_append.mp mem with early | single
    · exact (plain field early).1
    · rwa [List.mem_singleton.mp single]
  · rw [List.dropLast_concat]
    exact fun field mem => (plain field mem).2

theorem getPaymentIdFromTransactionExtraNonce_set (paymentId : Hash) :
    getPaymentIdFromTransactionExtraNonce (setPaymentIdToTransactionExtraNonce paymentId) = some paymentId := by
  have sized : (setPaymentIdToTransactionExtraNonce paymentId).length = 32 + 1 := by
    simp [setPaymentIdToTransactionExtraNonce, paymentId.size_eq]
  rw [getPaymentIdFromTransactionExtraNonce, dif_pos sized,
    if_pos (by simp [setPaymentIdToTransactionExtraNonce])]
  rfl

theorem transactionExtra_roundTrip :
    (∀ fields : List TransactionExtraField, (∀ field ∈ fields, field.Encodable) →
      (∀ field ∈ fields.dropLast, field.isPadding = false) →
      ∃ extra, writeTransactionExtra [] fields = (true, extra) ∧ parseTransactionExtra extra = (true, fields)) ∧
    (∀ (fields : List TransactionExtraField) (extra paymentIdString : List UInt8) (paymentId : Hash),
      writeTransactionExtra [] fields = (true, extra) →
      (∀ field ∈ fields, field.Encodable ∧ field.isPadding = false ∧ field.nonce? = none) →
      parsePaymentId paymentIdString = some paymentId →
      ∃ extended, createTxExtraWithPaymentId paymentIdString extra = some extended ∧
        getPaymentIdFromTxExtra extended = some paymentId) ∧
    (∀ (fields : List TransactionExtraField) (extra : List UInt8) (tag : TransactionExtraMergeMiningTag),
      writeTransactionExtra [] fields = (true, extra) →
      (∀ field ∈ fields, field.Encodable ∧ field.isPadding = false ∧ field.mergeMiningTag? = none) →
      tag.depth < 2 ^ 64 → getMergeMiningTagFromExtra (appendMergeMiningTagToExtra extra tag) = some tag) := by
  -- an extra written from encodable fields is their encoding
  have written : ∀ {fields : List TransactionExtraField} {extra : List UInt8}, (∀ field ∈ fields, field.Encodable) →
      writeTransactionExtra [] fields = (true, extra) → extra = fields.flatMap encodeExtraField := by
    intro fields extra encodable wrote
    rw [writeTransactionExtra_encodable fields [] encodable] at wrote
    simpa using wrote.symm
  refine ⟨fun fields encodable paddingLast => ?_, fun fields extra paymentIdString paymentId wrote plain parsed => ?_,
    fun fields extra tag wrote plain fits => ?_⟩
  · exact ⟨_, writeTransactionExtra_encodable fields [] encodable, by
      simpa using parseTransactionExtra_encoded encodable paddingLast⟩
  · -- the payment id goes in as a nonce after fields without one
    obtain rfl := written (fun field mem => (plain field mem).1) wrote
    have nonceField : (TransactionExtraField.nonce (setPaymentIdToTransactionExtraNonce paymentId)).Encodable := by
      simp [TransactionExtraField.Encodable, setPaymentIdToTransactionExtraNonce, paymentId.size_eq,
        TX_EXTRA_NONCE_MAX_COUNT]
    refine ⟨(fields ++ [TransactionExtraField.nonce (setPaymentIdToTransactionExtraNonce paymentId)]).flatMap encodeExtraField, ?_, ?_⟩
    · simp only [createTxExtraWithPaymentId, parsed, Option.bind_eq_bind, Option.bind_some]
      simp only [List.flatMap_append, List.flatMap_cons, List.flatMap_nil, List.append_nil]
      exact writeExtraField_encodable nonceField _
    · simp only [getPaymentIdFromTxExtra, parseTransactionExtra_encoded_append (fun field mem =>
        ⟨(plain field mem).1, (plain field mem).2.1⟩) nonceField, List.findSome?_append]
      rw [List.findSome?_eq_none_iff.mpr (fun field mem => (plain field mem).2.2)]
      simp [TransactionExtraField.nonce?, getPaymentIdFromTransactionExtraNonce_set]
  · obtain rfl := written (fun field mem => (plain field mem).1) wrote
    have tagField : (TransactionExtraField.mergeMiningTag tag).Encodable := fits
    have appended : appendMergeMiningTagToExtra (fields.flatMap encodeExtraField) tag =
        (fields ++ [TransactionExtraField.mergeMiningTag tag]).flatMap encodeExtraField := by
      simp [appendMergeMiningTagToExtra, encodeExtraField]
    rw [appended, getMergeMiningTagFromExtra, parseTransactionExtra_encoded_append (fun field mem =>
      ⟨(plain field mem).1, (plain field mem).2.1⟩) tagField, List.findSome?_append,
      List.findSome?_eq_none_iff.mpr (fun field mem => (plain field mem).2.2)]
    rfl

theorem transactionExtra_roundTrip_sample :
    (∃ extra, writeTransactionExtra [] [.publicKey (PublicKey.ofByte 1), .nonce [7, 7],
        .mergeMiningTag ⟨300, Hash.ofByte 2⟩, .padding 4] = (true, extra) ∧
      parseTransactionExtra extra = (true, [.publicKey (PublicKey.ofByte 1), .nonce [7, 7],
        .mergeMiningTag ⟨300, Hash.ofByte 2⟩, .padding 4])) ∧
    (∃ extended, createTxExtraWithPaymentId (List.replicate 64 0x30)
        (TX_EXTRA_TAG_PUBKEY :: (PublicKey.ofByte 1).data) = some extended ∧
      getPaymentIdFromTxExtra extended = some (Hash.ofByte 0)) ∧
    getMergeMiningTagFromExtra (appendMergeMiningTagToExtra (TX_EXTRA_TAG_PUBKEY :: (PublicKey.ofByte 1).data)
      ⟨300, Hash.ofByte 2⟩) = some ⟨300, Hash.ofByte 2⟩ :=
  ⟨transactionExtra_roundTrip.1 _ (by decide) (by decide),
    transactionExtra_roundTrip.2.1 [.publicKey (PublicKey.ofByte 1)] _ _ _ (by decide) (by decide) (by decide),
    transactionExtra_roundTrip.2.2 [.publicKey (PublicKey.ofByte 1)] _ _ (by decide) (by decide) (by decide)⟩

end CryptoNote
