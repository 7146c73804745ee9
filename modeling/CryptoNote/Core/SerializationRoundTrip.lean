import CryptoNote.Core.Serialization

/-!
# The binary format reads back what it writes

Each reader of `Serialization.lean` run on the bytes its writer produced, and
anything after them, returns the value and leaves what follows; and each
reader of a transaction accepts only bytes that its writer produces.  Two
conditions come from the format itself: every vector must fit the `uint64_t`
varint count (as every vector of the program does), and a transaction must
hold its signatures in the shape the reader builds for its inputs.
-/

set_option autoImplicit false

namespace CryptoNote

open Common Crypto Codec

/-! ## Fields -/

theorem read_append (size : Nat) (data rest : List UInt8) (sized : data.length = size) :
    Common.read size (data ++ rest) = .ok (⟨data, sized⟩, rest) := by
  subst sized
  simp [Common.read]

theorem read_canonical {size : Nat} {bytes rest : List UInt8} {data : {data : List UInt8 // data.length = size}}
    (returned : Common.read size bytes = .ok (data, rest)) : bytes = data.1 ++ rest := by
  unfold Common.read at returned
  split at returned
  · simp only [Except.ok.injEq, Prod.mk.injEq] at returned
    obtain ⟨rfl, rfl⟩ := returned
    exact (List.take_append_drop size bytes).symm
  · contradiction

theorem readPod_append {α : Type} (size : Nat) (make : {data : List UInt8 // data.length = size} → α)
    (bytesOf : α → List UInt8) (pod : α) (sized : (bytesOf pod).length = size)
    (made : make ⟨bytesOf pod, sized⟩ = pod) (rest : List UInt8) :
    (do let data ← Common.read size; pure (make data) : InputStream α) (bytesOf pod ++ rest) =
      .ok (pod, rest) := by
  rw [bind_of_ok (read_append size (bytesOf pod) rest sized), made]
  rfl

theorem readPod_canonical {α : Type} (size : Nat) (make : {data : List UInt8 // data.length = size} → α)
    (bytesOf : α → List UInt8) (bytesOf_make : ∀ data, bytesOf (make data) = data.1)
    {bytes rest : List UInt8} {pod : α}
    (returned : (do let data ← Common.read size; pure (make data) : InputStream α) bytes =
      .ok (pod, rest)) : bytes = bytesOf pod ++ rest := by
  obtain ⟨data, middle, ran, returned⟩ := bind_eq_ok returned
  simp only [pure_run, Except.ok.injEq, Prod.mk.injEq] at returned
  obtain ⟨rfl, rfl⟩ := returned
  rw [bytesOf_make]
  exact read_canonical ran

theorem readHash_append (hash : Hash) (rest : List UInt8) :
    readHash (hash.data ++ rest) = .ok (hash, rest) :=
  readPod_append 32 (fun data => Hash.mk data.1 data.2) Hash.data hash hash.size_eq rfl rest

theorem readHash_canonical {bytes rest : List UInt8} {hash : Hash}
    (returned : readHash bytes = .ok (hash, rest)) : bytes = hash.data ++ rest :=
  readPod_canonical 32 (fun data => Hash.mk data.1 data.2) Hash.data (fun _ => rfl) returned

theorem readPublicKey_append (key : PublicKey) (rest : List UInt8) :
    readPublicKey (key.data ++ rest) = .ok (key, rest) :=
  readPod_append 32 (fun data => PublicKey.mk data.1 data.2) PublicKey.data key key.size_eq rfl rest

theorem readPublicKey_canonical {bytes rest : List UInt8} {key : PublicKey}
    (returned : readPublicKey bytes = .ok (key, rest)) : bytes = key.data ++ rest :=
  readPod_canonical 32 (fun data => PublicKey.mk data.1 data.2) PublicKey.data (fun _ => rfl) returned

theorem readKeyImage_append (keyImage : KeyImage) (rest : List UInt8) :
    readKeyImage (keyImage.data ++ rest) = .ok (keyImage, rest) :=
  readPod_append 32 (fun data => KeyImage.mk data.1 data.2) KeyImage.data keyImage keyImage.size_eq rfl rest

theorem readKeyImage_canonical {bytes rest : List UInt8} {keyImage : KeyImage}
    (returned : readKeyImage bytes = .ok (keyImage, rest)) : bytes = keyImage.data ++ rest :=
  readPod_canonical 32 (fun data => KeyImage.mk data.1 data.2) KeyImage.data (fun _ => rfl) returned

theorem readSignature_append (signature : Signature) (rest : List UInt8) :
    readSignature (signature.data ++ rest) = .ok (signature, rest) :=
  readPod_append 64 (fun data => Signature.mk data.1 data.2) Signature.data signature signature.size_eq rfl rest

theorem readSignature_canonical {bytes rest : List UInt8} {signature : Signature}
    (returned : readSignature bytes = .ok (signature, rest)) : bytes = signature.data ++ rest :=
  readPod_canonical 64 (fun data => Signature.mk data.1 data.2) Signature.data (fun _ => rfl) returned

theorem readVarintAs_append {α : Type} (bits : Nat) (ofNat : Nat → α) (toNat : α → Nat)
    (value : α) (wide : 0 < bits) (fits : toNat value < 2 ^ bits) (back : ofNat (toNat value) = value)
    (rest : List UInt8) :
    (do pure (ofNat (← readVarint bits)) : InputStream α) (writeVarint (toNat value) ++ rest) =
      .ok (value, rest) := by
  rw [bind_of_ok (readVarint_writeVarint bits (toNat value) rest wide fits), back]
  rfl

theorem readVarintAs_canonical {α : Type} (bits : Nat) (ofNat : Nat → α) (toNat : α → Nat)
    (toNat_ofNat : ∀ n < 2 ^ bits, toNat (ofNat n) = n) {bytes rest : List UInt8} {value : α}
    (returned : (do pure (ofNat (← readVarint bits)) : InputStream α) bytes = .ok (value, rest)) :
    bytes = writeVarint (toNat value) ++ rest := by
  obtain ⟨read, middle, ran, returned⟩ := bind_eq_ok returned
  simp only [pure_run, Except.ok.injEq, Prod.mk.injEq] at returned
  obtain ⟨rfl, rfl⟩ := returned
  obtain ⟨fits, written⟩ := readVarint_canonical ran
  rw [toNat_ofNat read fits]
  exact written

theorem readUInt8Varint_append (value : UInt8) (rest : List UInt8) :
    readUInt8Varint (writeVarint value.toNat ++ rest) = .ok (value, rest) :=
  readVarintAs_append 8 UInt8.ofNat UInt8.toNat value (by norm_num) value.toNat_lt
    UInt8.ofNat_toNat rest

theorem readUInt8Varint_canonical {bytes rest : List UInt8} {value : UInt8}
    (returned : readUInt8Varint bytes = .ok (value, rest)) : bytes = writeVarint value.toNat ++ rest :=
  readVarintAs_canonical 8 UInt8.ofNat UInt8.toNat (fun _ fits => UInt8.toNat_ofNat_of_lt' fits)
    returned

theorem readUInt32Varint_append (value : UInt32) (rest : List UInt8) :
    readUInt32Varint (writeVarint value.toNat ++ rest) = .ok (value, rest) :=
  readVarintAs_append 32 UInt32.ofNat UInt32.toNat value (by norm_num) value.toNat_lt
    UInt32.ofNat_toNat rest

theorem readUInt32Varint_canonical {bytes rest : List UInt8} {value : UInt32}
    (returned : readUInt32Varint bytes = .ok (value, rest)) : bytes = writeVarint value.toNat ++ rest :=
  readVarintAs_canonical 32 UInt32.ofNat UInt32.toNat (fun _ fits => UInt32.toNat_ofNat_of_lt' fits)
    returned

theorem readUInt64Varint_append (value : UInt64) (rest : List UInt8) :
    readUInt64Varint (writeVarint value.toNat ++ rest) = .ok (value, rest) :=
  readVarintAs_append 64 UInt64.ofNat UInt64.toNat value (by norm_num) value.toNat_lt
    UInt64.ofNat_toNat rest

theorem readUInt64Varint_canonical {bytes rest : List UInt8} {value : UInt64}
    (returned : readUInt64Varint bytes = .ok (value, rest)) : bytes = writeVarint value.toNat ++ rest :=
  readVarintAs_canonical 64 UInt64.ofNat UInt64.toNat (fun _ fits => UInt64.toNat_ofNat_of_lt' fits)
    returned

theorem readUInt32Pod_append (value : UInt32) (rest : List UInt8) :
    readUInt32Pod (writeUInt32Pod value ++ rest) = .ok (value, rest) := by
  simp only [readUInt32Pod]
  rw [bind_of_ok (read_append 4 (writeUInt32Pod value) rest rfl)]
  simp only [pure_run, Except.ok.injEq, Prod.mk.injEq, and_true]
  apply UInt32.toNat_inj.mp
  have := value.toNat_lt
  simp [writeUInt32Pod, List.foldr, Nat.shiftRight_eq_div_pow]
  omega

theorem readUInt32Pod_canonical {bytes rest : List UInt8} {value : UInt32}
    (returned : readUInt32Pod bytes = .ok (value, rest)) : bytes = writeUInt32Pod value ++ rest := by
  obtain ⟨data, middle, ran, returned⟩ := bind_eq_ok returned
  simp only [pure_run, Except.ok.injEq, Prod.mk.injEq] at returned
  obtain ⟨rfl, rfl⟩ := returned
  rw [read_canonical ran]
  obtain ⟨data, sized⟩ := data
  match data, sized with
  | [b0, b1, b2, b3], _ =>
      have := b0.toNat_lt
      have := b1.toNat_lt
      have := b2.toNat_lt
      have := b3.toNat_lt
      simp only [writeUInt32Pod, List.foldr, List.cons_append, List.nil_append, List.cons.injEq,
        and_true]
      refine ⟨?_, ?_, ?_, ?_⟩ <;> apply UInt8.toNat_inj.mp <;>
        simp [Nat.shiftRight_eq_div_pow] <;> omega

/-! ## Strings and vectors -/

theorem readString_append (data rest : List UInt8) (fits : data.length < 2 ^ 64) :
    readString (writeVarint data.length ++ (data ++ rest)) = .ok (data, rest) := by
  simp only [readString]
  rw [bind_of_ok (readVarint_writeVarint 64 data.length (data ++ rest) (by norm_num) fits)]
  cases data with
  | nil => rfl
  | cons byte bytes =>
      simp only [List.length_cons, gt_iff_lt, Nat.zero_lt_succ, if_true]
      rw [bind_of_ok (read_append (bytes.length + 1) (byte :: bytes) rest rfl)]
      rfl

theorem readString_canonical {bytes rest data : List UInt8}
    (returned : readString bytes = .ok (data, rest)) :
    data.length < 2 ^ 64 ∧ bytes = writeVarint data.length ++ (data ++ rest) := by
  obtain ⟨size, middle, ran, continued⟩ := bind_eq_ok returned
  obtain ⟨fits, rfl⟩ := readVarint_canonical ran
  split at continued
  · obtain ⟨read, final, readRan, finished⟩ := bind_eq_ok continued
    simp only [pure_run, Except.ok.injEq, Prod.mk.injEq] at finished
    obtain ⟨rfl, rfl⟩ := finished
    rw [read.2]
    exact ⟨fits, by rw [read_canonical readRan]⟩
  · simp only [pure_run, Except.ok.injEq, Prod.mk.injEq] at continued
    obtain ⟨rfl, rfl⟩ := continued
    obtain rfl : size = 0 := by omega
    exact ⟨by norm_num, rfl⟩

theorem readVector_append {α : Type} (read : InputStream α) (write : α → List UInt8)
    (items : List α) (rest : List UInt8) (fits : items.length < 2 ^ 64)
    (readsBack : ∀ item ∈ items, ∀ rest, read (write item ++ rest) = .ok (item, rest)) :
    readVector read (writeVarint items.length ++ (items.flatMap write ++ rest)) =
      .ok (items, rest) := by
  simp only [readVector]
  rw [bind_of_ok (readVarint_writeVarint 64 items.length _ (by norm_num) fits)]
  exact readItems_flatMap read write items rest readsBack

theorem readVector_canonical {α : Type} (read : InputStream α) (write : α → List UInt8)
    (canonical : ∀ bytes item rest, read bytes = .ok (item, rest) → bytes = write item ++ rest)
    {bytes rest : List UInt8} {items : List α}
    (returned : readVector read bytes = .ok (items, rest)) :
    items.length < 2 ^ 64 ∧ bytes = writeVarint items.length ++ (items.flatMap write ++ rest) := by
  obtain ⟨size, middle, ran, continued⟩ := bind_eq_ok returned
  obtain ⟨fits, rfl⟩ := readVarint_canonical ran
  obtain ⟨counted, rfl⟩ := readItems_canonical read write canonical size middle items rest continued
  rw [counted]
  exact ⟨fits, rfl⟩

theorem readUInt8_cons (byte : UInt8) (rest : List UInt8) : readUInt8 (byte :: rest) = .ok (byte, rest) :=
  rfl

theorem readUInt8_canonical {bytes rest : List UInt8} {byte : UInt8}
    (returned : readUInt8 bytes = .ok (byte, rest)) : bytes = byte :: rest := by
  cases bytes with
  | nil => contradiction
  | cons first bytes =>
      simp only [readUInt8, Except.ok.injEq, Prod.mk.injEq] at returned
      rw [returned.1, returned.2]

/-! ## Inputs and outputs -/

/-- Every vector fits the `uint64_t` varint count written before it. -/
def TransactionInput.SizesFit : TransactionInput → Prop
  | .key input => input.outputIndexes.length < 2 ^ 64
  | _ => True

def TransactionOutput.SizesFit (output : TransactionOutput) : Prop :=
  match output.target with
  | .multisignature target => target.keys.length < 2 ^ 64
  | .key _ => True

def TransactionPrefix.SizesFit (txP : TransactionPrefix) : Prop :=
  txP.inputs.length < 2 ^ 64 ∧ txP.outputs.length < 2 ^ 64 ∧ txP.extra.length < 2 ^ 64 ∧
    (∀ input ∈ txP.inputs, input.SizesFit) ∧ ∀ output ∈ txP.outputs, output.SizesFit

theorem BaseInput.deserialize_append (input : BaseInput) (rest : List UInt8) :
    BaseInput.deserialize (input.serialize ++ rest) = .ok (input, rest) := by
  simp only [BaseInput.deserialize, BaseInput.serialize]
  rw [bind_of_ok (readUInt32Varint_append input.blockIndex rest)]
  rfl

theorem BaseInput.deserialize_canonical {bytes rest : List UInt8} {input : BaseInput}
    (returned : BaseInput.deserialize bytes = .ok (input, rest)) : bytes = input.serialize ++ rest := by
  obtain ⟨blockIndex, middle, ran, finished⟩ := bind_eq_ok returned
  obtain ⟨rfl, rfl⟩ := pure_eq_ok finished
  exact readUInt32Varint_canonical ran

theorem KeyInput.deserialize_append (input : KeyInput) (fits : input.outputIndexes.length < 2 ^ 64)
    (rest : List UInt8) : KeyInput.deserialize (input.serialize ++ rest) = .ok (input, rest) := by
  simp only [KeyInput.deserialize, KeyInput.serialize, List.append_assoc]
  rw [bind_of_ok (readUInt64Varint_append _ _),
    bind_of_ok (readVector_append readUInt32Varint (fun index => writeVarint index.toNat) _ _ fits
      fun index _ rest => readUInt32Varint_append index rest),
    bind_of_ok (readKeyImage_append _ _)]
  rfl

theorem KeyInput.deserialize_canonical {bytes rest : List UInt8} {input : KeyInput}
    (returned : KeyInput.deserialize bytes = .ok (input, rest)) : bytes = input.serialize ++ rest := by
  obtain ⟨amount, afterAmount, amountRan, continued⟩ := bind_eq_ok returned
  obtain ⟨indexes, afterIndexes, indexesRan, continued⟩ := bind_eq_ok continued
  obtain ⟨keyImage, afterKeyImage, keyImageRan, finished⟩ := bind_eq_ok continued
  obtain ⟨rfl, rfl⟩ := pure_eq_ok finished
  have indexesWritten := (readVector_canonical readUInt32Varint (fun index => writeVarint index.toNat)
    (fun _ _ _ ran => readUInt32Varint_canonical ran) indexesRan).2
  rw [readUInt64Varint_canonical amountRan, indexesWritten, readKeyImage_canonical keyImageRan]
  simp only [KeyInput.serialize, List.append_assoc]

theorem MultisignatureInput.deserialize_append (input : MultisignatureInput) (rest : List UInt8) :
    MultisignatureInput.deserialize (input.serialize ++ rest) = .ok (input, rest) := by
  simp only [MultisignatureInput.deserialize, MultisignatureInput.serialize, List.append_assoc]
  rw [bind_of_ok (readUInt64Varint_append _ _), bind_of_ok (readUInt8Varint_append _ _),
    bind_of_ok (readUInt32Varint_append _ _)]
  rfl

theorem MultisignatureInput.deserialize_canonical {bytes rest : List UInt8}
    {input : MultisignatureInput} (returned : MultisignatureInput.deserialize bytes = .ok (input, rest)) :
    bytes = input.serialize ++ rest := by
  obtain ⟨amount, afterAmount, amountRan, continued⟩ := bind_eq_ok returned
  obtain ⟨count, afterCount, countRan, continued⟩ := bind_eq_ok continued
  obtain ⟨index, afterIndex, indexRan, finished⟩ := bind_eq_ok continued
  obtain ⟨rfl, rfl⟩ := pure_eq_ok finished
  rw [readUInt64Varint_canonical amountRan, readUInt8Varint_canonical countRan,
    readUInt32Varint_canonical indexRan]
  simp only [MultisignatureInput.serialize, List.append_assoc]

theorem TransactionInput.deserialize_append (input : TransactionInput) (fits : input.SizesFit)
    (rest : List UInt8) : TransactionInput.deserialize (input.serialize ++ rest) = .ok (input, rest) := by
  cases input with
  | base input =>
      simp only [TransactionInput.serialize, TransactionInput.deserialize, List.cons_append]
      rw [bind_of_ok (readUInt8_cons _ _), if_pos rfl, bind_of_ok (BaseInput.deserialize_append _ _)]
      rfl
  | key input =>
      simp only [TransactionInput.serialize, TransactionInput.deserialize, List.cons_append]
      rw [bind_of_ok (readUInt8_cons _ _), if_neg (by decide), if_pos rfl,
        bind_of_ok (KeyInput.deserialize_append _ fits _)]
      rfl
  | multisignature input =>
      simp only [TransactionInput.serialize, TransactionInput.deserialize, List.cons_append]
      rw [bind_of_ok (readUInt8_cons _ _), if_neg (by decide), if_neg (by decide), if_pos rfl,
        bind_of_ok (MultisignatureInput.deserialize_append _ _)]
      rfl

theorem TransactionInput.deserialize_canonical {bytes rest : List UInt8} {input : TransactionInput}
    (returned : TransactionInput.deserialize bytes = .ok (input, rest)) :
    bytes = input.serialize ++ rest := by
  obtain ⟨tag, middle, tagRan, continued⟩ := bind_eq_ok returned
  rw [readUInt8_canonical tagRan]
  split at continued
  · rename_i isBase
    obtain ⟨base, final, baseRan, finished⟩ := bind_eq_ok continued
    obtain ⟨rfl, rfl⟩ := pure_eq_ok finished
    rw [isBase, BaseInput.deserialize_canonical baseRan]
    rfl
  · split at continued
    · rename_i isKey
      obtain ⟨key, final, keyRan, finished⟩ := bind_eq_ok continued
      obtain ⟨rfl, rfl⟩ := pure_eq_ok finished
      rw [isKey, KeyInput.deserialize_canonical keyRan]
      rfl
    · split at continued
      · rename_i isMultisignature
        obtain ⟨multisignature, final, multisignatureRan, finished⟩ := bind_eq_ok continued
        obtain ⟨rfl, rfl⟩ := pure_eq_ok finished
        rw [isMultisignature, MultisignatureInput.deserialize_canonical multisignatureRan]
        rfl
      · contradiction

theorem MultisignatureOutput.deserialize_append (output : MultisignatureOutput)
    (fits : output.keys.length < 2 ^ 64) (rest : List UInt8) :
    MultisignatureOutput.deserialize (output.serialize ++ rest) = .ok (output, rest) := by
  simp only [MultisignatureOutput.deserialize, MultisignatureOutput.serialize, List.append_assoc]
  rw [bind_of_ok (readVector_append readPublicKey PublicKey.data _ _ fits
      fun key _ rest => readPublicKey_append key rest),
    bind_of_ok (readUInt8Varint_append _ _)]
  rfl

theorem MultisignatureOutput.deserialize_canonical {bytes rest : List UInt8}
    {output : MultisignatureOutput}
    (returned : MultisignatureOutput.deserialize bytes = .ok (output, rest)) :
    bytes = output.serialize ++ rest := by
  obtain ⟨keys, afterKeys, keysRan, continued⟩ := bind_eq_ok returned
  obtain ⟨count, afterCount, countRan, finished⟩ := bind_eq_ok continued
  obtain ⟨rfl, rfl⟩ := pure_eq_ok finished
  have keysWritten := (readVector_canonical readPublicKey PublicKey.data
    (fun _ _ _ ran => readPublicKey_canonical ran) keysRan).2
  rw [keysWritten, readUInt8Varint_canonical countRan]
  simp only [MultisignatureOutput.serialize, List.append_assoc]

theorem TransactionOutputTarget.deserialize_append (target : TransactionOutputTarget)
    (fits : ∀ output, target = .multisignature output → output.keys.length < 2 ^ 64)
    (rest : List UInt8) :
    TransactionOutputTarget.deserialize (target.serialize ++ rest) = .ok (target, rest) := by
  cases target with
  | key target =>
      simp only [TransactionOutputTarget.serialize, TransactionOutputTarget.deserialize,
        List.cons_append]
      rw [bind_of_ok (readUInt8_cons _ _), if_pos rfl, bind_of_ok (readPublicKey_append _ _)]
      rfl
  | multisignature target =>
      simp only [TransactionOutputTarget.serialize, TransactionOutputTarget.deserialize,
        List.cons_append]
      rw [bind_of_ok (readUInt8_cons _ _), if_neg (by decide), if_pos rfl,
        bind_of_ok (MultisignatureOutput.deserialize_append _ (fits target rfl) _)]
      rfl

theorem TransactionOutput.deserialize_append (output : TransactionOutput) (fits : output.SizesFit)
    (rest : List UInt8) :
    TransactionOutput.deserialize (output.serialize ++ rest) = .ok (output, rest) := by
  have targetFits : ∀ target, output.target = .multisignature target → target.keys.length < 2 ^ 64 := by
    intro target isMultisignature
    simpa [TransactionOutput.SizesFit, isMultisignature] using fits
  simp only [TransactionOutput.deserialize, TransactionOutput.serialize, List.append_assoc]
  rw [bind_of_ok (readUInt64Varint_append _ _),
    bind_of_ok (TransactionOutputTarget.deserialize_append _ targetFits _)]
  rfl

theorem TransactionOutputTarget.deserialize_canonical {bytes rest : List UInt8}
    {target : TransactionOutputTarget}
    (returned : TransactionOutputTarget.deserialize bytes = .ok (target, rest)) :
    bytes = target.serialize ++ rest := by
  obtain ⟨tag, middle, tagRan, continued⟩ := bind_eq_ok returned
  rw [readUInt8_canonical tagRan]
  split at continued
  · rename_i isKey
    obtain ⟨key, final, keyRan, finished⟩ := bind_eq_ok continued
    obtain ⟨rfl, rfl⟩ := pure_eq_ok finished
    rw [isKey, readPublicKey_canonical keyRan]
    rfl
  · split at continued
    · rename_i isMultisignature
      obtain ⟨multisignature, final, multisignatureRan, finished⟩ := bind_eq_ok continued
      obtain ⟨rfl, rfl⟩ := pure_eq_ok finished
      rw [isMultisignature, MultisignatureOutput.deserialize_canonical multisignatureRan]
      rfl
    · contradiction

theorem TransactionOutput.deserialize_canonical {bytes rest : List UInt8} {output : TransactionOutput}
    (returned : TransactionOutput.deserialize bytes = .ok (output, rest)) :
    bytes = output.serialize ++ rest := by
  obtain ⟨amount, afterAmount, amountRan, continued⟩ := bind_eq_ok returned
  obtain ⟨target, afterTarget, targetRan, finished⟩ := bind_eq_ok continued
  obtain ⟨rfl, rfl⟩ := pure_eq_ok finished
  rw [readUInt64Varint_canonical amountRan, TransactionOutputTarget.deserialize_canonical targetRan]
  simp only [TransactionOutput.serialize, List.append_assoc]

/-! ## Transactions -/

theorem TransactionPrefix.deserializeFields_append (txP : TransactionPrefix) (fits : txP.SizesFit)
    (rest : List UInt8) :
    TransactionPrefix.deserializeFields txP.version
      (writeVarint txP.unlockTime.toNat ++ (writeVarint txP.inputs.length ++
        (txP.inputs.flatMap TransactionInput.serialize ++ (writeVarint txP.outputs.length ++
          (txP.outputs.flatMap TransactionOutput.serialize ++ (writeVarint txP.extra.length ++
            (txP.extra ++ rest))))))) = .ok (txP, rest) := by
  obtain ⟨inputsFit, outputsFit, extraFits, eachInput, eachOutput⟩ := fits
  simp only [TransactionPrefix.deserializeFields]
  rw [bind_of_ok (readUInt64Varint_append _ _),
    bind_of_ok (readVector_append _ _ _ _ inputsFit
      fun input mem rest => input.deserialize_append (eachInput input mem) rest),
    bind_of_ok (readVector_append _ _ _ _ outputsFit
      fun output mem rest => output.deserialize_append (eachOutput output mem) rest),
    bind_of_ok (readString_append _ _ extraFits)]
  rfl

theorem TransactionPrefix.deserializeFields_canonical {version : UInt8} {bytes rest : List UInt8}
    {txP : TransactionPrefix}
    (returned : TransactionPrefix.deserializeFields version bytes = .ok (txP, rest)) :
    txP.version = version ∧ writeVarint version.toNat ++ bytes = txP.serialize ++ rest := by
  obtain ⟨unlockTime, afterUnlock, unlockRan, continued⟩ := bind_eq_ok returned
  obtain ⟨inputs, afterInputs, inputsRan, continued⟩ := bind_eq_ok continued
  obtain ⟨outputs, afterOutputs, outputsRan, continued⟩ := bind_eq_ok continued
  obtain ⟨extra, afterExtra, extraRan, finished⟩ := bind_eq_ok continued
  obtain ⟨rfl, rfl⟩ := pure_eq_ok finished
  refine ⟨rfl, ?_⟩
  rw [readUInt64Varint_canonical unlockRan,
    (readVector_canonical _ TransactionInput.serialize
      (fun _ _ _ ran => TransactionInput.deserialize_canonical ran) inputsRan).2,
    (readVector_canonical _ TransactionOutput.serialize
      (fun _ _ _ ran => TransactionOutput.deserialize_canonical ran) outputsRan).2,
    (readString_canonical extraRan).2]
  simp only [TransactionPrefix.serialize, List.append_assoc]

theorem TransactionPrefix.deserialize_append (txP : TransactionPrefix)
    (supported : txP.version ≤ CURRENT_TRANSACTION_VERSION) (fits : txP.SizesFit) (rest : List UInt8) :
    TransactionPrefix.deserialize (txP.serialize ++ rest) = .ok (txP, rest) := by
  simp only [TransactionPrefix.deserialize, TransactionPrefix.serialize, List.append_assoc]
  rw [bind_of_ok (readUInt8Varint_append _ _)]
  simp only [UInt8.not_lt.mpr supported, if_false]
  exact txP.deserializeFields_append fits rest

theorem TransactionPrefix.deserialize_canonical {bytes rest : List UInt8} {txP : TransactionPrefix}
    (returned : TransactionPrefix.deserialize bytes = .ok (txP, rest)) :
    txP.version ≤ CURRENT_TRANSACTION_VERSION ∧ bytes = txP.serialize ++ rest := by
  obtain ⟨version, afterVersion, versionRan, continued⟩ := bind_eq_ok returned
  split at continued
  · obtain ⟨_, _, thrown, _⟩ := bind_eq_ok continued
    contradiction
  · rename_i supported
    obtain ⟨sameVersion, written⟩ := TransactionPrefix.deserializeFields_canonical continued
    refine ⟨sameVersion ▸ UInt8.not_lt.mp supported, ?_⟩
    rw [readUInt8Varint_canonical versionRan, written]

theorem BaseTransaction.deserialize_append (tx : BaseTransaction)
    (fits : tx.toTransactionPrefix.SizesFit) (rest : List UInt8) :
    BaseTransaction.deserialize (tx.serialize ++ rest) = .ok (tx, rest) := by
  simp only [BaseTransaction.deserialize, BaseTransaction.serialize, TransactionPrefix.serialize,
    List.append_assoc]
  rw [bind_of_ok (readUInt8Varint_append _ _),
    bind_of_ok (tx.toTransactionPrefix.deserializeFields_append fits _)]
  by_cases modern : tx.version ≥ TRANSACTION_VERSION_2
  · -- the ignored `size_t` was written as `0`
    simp only [modern, if_true]
    rw [bind_of_ok (readVarint_writeVarint 64 0 rest (by norm_num) (by norm_num))]
    rfl
  · simp only [modern, if_false, List.nil_append]
    rfl

/-- The signatures in the shape the reader builds for the inputs: none when the
only input is a base input, and otherwise one vector per input, as long as the
input's signature count. -/
def SignaturesShaped (inputs : List TransactionInput) (signatures : List (List Signature)) : Prop :=
  if Transaction.onlyBaseInput inputs then signatures = []
  else List.Forall₂ (fun input group => group.length = input.getSignaturesCount) inputs signatures

namespace Transaction

theorem deserializeSignatureGroups_append (rest : List UInt8) :
    ∀ {inputs : List TransactionInput} {groups : List (List Signature)},
      List.Forall₂ (fun input group => group.length = input.getSignaturesCount) inputs groups →
        deserializeSignatureGroups inputs
          (groups.flatMap (fun group => group.flatMap Signature.data) ++ rest) = .ok (groups, rest)
  | [], [], .nil => rfl
  | input :: inputs, group :: groups, .cons counted others => by
      simp only [deserializeSignatureGroups, List.flatMap_cons, List.append_assoc]
      rw [← counted, bind_of_ok (readItems_flatMap readSignature Signature.data group _
          fun signature _ rest => readSignature_append signature rest),
        bind_of_ok (deserializeSignatureGroups_append rest others)]
      rfl

theorem deserializeSignatureGroups_canonical :
    ∀ {inputs : List TransactionInput} {bytes rest : List UInt8} {groups : List (List Signature)},
      deserializeSignatureGroups inputs bytes = .ok (groups, rest) →
        List.Forall₂ (fun input group => group.length = input.getSignaturesCount) inputs groups ∧
          bytes = groups.flatMap (fun group => group.flatMap Signature.data) ++ rest
  | [], bytes, rest, groups, returned => by
      obtain ⟨rfl, rfl⟩ := pure_eq_ok returned
      exact ⟨.nil, rfl⟩
  | input :: inputs, bytes, rest, groups, returned => by
      obtain ⟨group, middle, groupRan, continued⟩ := bind_eq_ok returned
      obtain ⟨others, final, othersRan, finished⟩ := bind_eq_ok continued
      obtain ⟨rfl, rfl⟩ := pure_eq_ok finished
      obtain ⟨counted, rfl⟩ := readItems_canonical readSignature Signature.data
        (fun _ _ _ ran => readSignature_canonical ran) _ bytes group middle groupRan
      obtain ⟨othersCounted, rfl⟩ := deserializeSignatureGroups_canonical othersRan
      exact ⟨.cons counted othersCounted, by simp⟩

theorem onlyBaseInput_eq_true {inputs : List TransactionInput} (base : onlyBaseInput inputs = true) :
    ∃ input, inputs = [.base input] := by
  rcases inputs with _ | ⟨first, _ | ⟨second, rest⟩⟩
  · simp [onlyBaseInput] at base
  · cases first with
    | base input => exact ⟨input, rfl⟩
    | key _ => simp [onlyBaseInput, TransactionInput.isBase] at base
    | multisignature _ => simp [onlyBaseInput, TransactionInput.isBase] at base
  · simp [onlyBaseInput] at base

theorem serializeSignatures_of_shaped {inputs : List TransactionInput}
    {signatures : List (List Signature)} (shaped : SignaturesShaped inputs signatures) :
    serializeSignatures inputs signatures =
      .ok (signatures.flatMap fun group => group.flatMap Signature.data) := by
  unfold SignaturesShaped at shaped
  by_cases base : onlyBaseInput inputs
  · -- a lone base input carries no signature
    simp only [base, if_true] at shaped
    obtain ⟨input, rfl⟩ := onlyBaseInput_eq_true base
    subst shaped
    rfl
  · simp only [base, Bool.false_eq_true, if_false] at shaped
    cases signatures with
    | nil =>
        obtain rfl : inputs = [] := List.forall₂_nil_right_iff.mp shaped
        rfl
    | cons group groups =>
        have sameLength := shaped.length_eq
        unfold serializeSignatures
        rw [if_neg (by simp), if_neg (by simp [sameLength])]
        split
        · rfl
        · -- every input has as many signatures as its count
          next uncounted =>
          exfalso
          apply uncounted
          rw [List.all_eq_true]
          rintro ⟨input, signaturesOf⟩ mem
          have := List.forall₂_iff_zip.mp shaped |>.2 mem
          simp [this]

theorem deserializeSignatures_append {inputs : List TransactionInput}
    {signatures : List (List Signature)} (shaped : SignaturesShaped inputs signatures)
    (rest : List UInt8) :
    deserializeSignatures inputs (signatures.flatMap (fun group => group.flatMap Signature.data) ++ rest) =
      .ok (signatures, rest) := by
  unfold SignaturesShaped at shaped
  unfold deserializeSignatures
  by_cases base : onlyBaseInput inputs
  · simp only [base, if_true] at shaped ⊢
    subst shaped
    rfl
  · simp only [base, Bool.false_eq_true, if_false] at shaped ⊢
    exact deserializeSignatureGroups_append rest shaped

theorem deserializeSignatures_canonical {inputs : List TransactionInput} {bytes rest : List UInt8}
    {signatures : List (List Signature)}
    (returned : deserializeSignatures inputs bytes = .ok (signatures, rest)) :
    SignaturesShaped inputs signatures ∧
      bytes = signatures.flatMap (fun group => group.flatMap Signature.data) ++ rest := by
  unfold deserializeSignatures at returned
  unfold SignaturesShaped
  by_cases base : onlyBaseInput inputs
  · simp only [base, if_true] at returned ⊢
    obtain ⟨rfl, rfl⟩ := pure_eq_ok returned
    exact ⟨rfl, rfl⟩
  · simp only [base, Bool.false_eq_true, if_false] at returned ⊢
    exact deserializeSignatureGroups_canonical returned

theorem deserialize_append (tx : Transaction) (supported : tx.version ≤ CURRENT_TRANSACTION_VERSION)
    (fits : tx.toTransactionPrefix.SizesFit) (shaped : SignaturesShaped tx.inputs tx.signatures)
    (rest : List UInt8) :
    Transaction.deserialize (tx.toTransactionPrefix.serialize ++
      (tx.signatures.flatMap (fun group => group.flatMap Signature.data) ++ rest)) = .ok (tx, rest) := by
  simp only [Transaction.deserialize]
  rw [bind_of_ok (tx.toTransactionPrefix.deserialize_append supported fits _),
    bind_of_ok (deserializeSignatures_append shaped rest)]
  rfl

theorem deserialize_canonical {bytes rest : List UInt8} {tx : Transaction}
    (returned : Transaction.deserialize bytes = .ok (tx, rest)) :
    tx.version ≤ CURRENT_TRANSACTION_VERSION ∧ SignaturesShaped tx.inputs tx.signatures ∧
      bytes = tx.toTransactionPrefix.serialize ++
        (tx.signatures.flatMap (fun group => group.flatMap Signature.data) ++ rest) := by
  obtain ⟨txP, middle, prefixRan, continued⟩ := bind_eq_ok returned
  obtain ⟨signatures, final, signaturesRan, finished⟩ := bind_eq_ok continued
  obtain ⟨rfl, rfl⟩ := pure_eq_ok finished
  obtain ⟨supported, rfl⟩ := TransactionPrefix.deserialize_canonical prefixRan
  obtain ⟨shaped, rfl⟩ := deserializeSignatures_canonical signaturesRan
  exact ⟨supported, shaped, rfl⟩

theorem toBinaryArray_of_shaped (tx : Transaction) (shaped : SignaturesShaped tx.inputs tx.signatures) :
    tx.toBinaryArray = .ok (tx.toTransactionPrefix.serialize ++
      tx.signatures.flatMap (fun group => group.flatMap Signature.data)) := by
  simp only [toBinaryArray, serialize, serializeSignatures_of_shaped shaped]
  rfl

end Transaction

theorem fromBinaryArrayWith_of_ok {α : Type} {read : InputStream α} {binaryArray : List UInt8} {object : α}
    (ran : read binaryArray = .ok (object, [])) : fromBinaryArrayWith read binaryArray = .ok object := by
  simp only [fromBinaryArrayWith, bind, Except.bind, ran]
  rfl

theorem fromBinaryArrayWith_eq_ok {α : Type} {read : InputStream α} {binaryArray : List UInt8}
    {object : α} (decoded : fromBinaryArrayWith read binaryArray = .ok object) :
    read binaryArray = .ok (object, []) := by
  simp only [fromBinaryArrayWith, bind, Except.bind] at decoded
  split at decoded
  · contradiction
  · rename_i result ran
    obtain ⟨read, rest⟩ := result
    cases rest with
    | nil =>
        simp only [List.isEmpty_nil, Bool.not_true, Bool.false_eq_true, if_false] at decoded
        cases decoded
        exact ran
    | cons byte rest => simp [throw, throwThe, MonadExceptOf.throw] at decoded

theorem Transaction.fromBinaryArray_toBinaryArray (tx : Transaction)
    (supported : tx.version ≤ CURRENT_TRANSACTION_VERSION) (fits : tx.toTransactionPrefix.SizesFit)
    (shaped : SignaturesShaped tx.inputs tx.signatures) :
    ∃ blob, tx.toBinaryArray = .ok blob ∧ Transaction.fromBinaryArray blob = .ok tx := by
  refine ⟨_, tx.toBinaryArray_of_shaped shaped, fromBinaryArrayWith_of_ok ?_⟩
  simpa [List.append_assoc] using tx.deserialize_append supported fits shaped []

theorem Transaction.toBinaryArray_fromBinaryArray {blob : List UInt8} {tx : Transaction}
    (decoded : Transaction.fromBinaryArray blob = .ok tx) : tx.toBinaryArray = .ok blob := by
  obtain ⟨-, shaped, written⟩ := Transaction.deserialize_canonical (fromBinaryArrayWith_eq_ok decoded)
  rw [tx.toBinaryArray_of_shaped shaped, written, List.append_nil]

/-! ## Blocks -/

theorem deserializeBlockHeader_append {header : BlockHeader} {bytes : List UInt8} (initial : BlockHeader)
    (written : serializeBlockHeader header = .ok bytes) (rest : List UInt8) :
    deserializeBlockHeader initial (bytes ++ rest) =
      .ok (if header.majorVersion = BLOCK_MAJOR_VERSION_2 ∨ header.majorVersion = BLOCK_MAJOR_VERSION_3 then
        ⟨header.majorVersion, header.minorVersion, initial.nonce, initial.timestamp,
          header.previousBlockHash⟩ else header, rest) := by
  unfold serializeBlockHeader at written
  split at written
  · contradiction
  rename_i supported
  split at written
  · -- versions 2 and 3: the timestamp and the nonce belong to the parent block
    rename_i merged
    simp only [pure, Except.pure, Except.ok.injEq] at written
    subst written
    simp only [deserializeBlockHeader, List.append_assoc]
    rw [bind_of_ok (readUInt8Varint_append _ _)]
    simp only [supported, if_false]
    rw [bind_of_ok (readUInt8Varint_append _ _)]
    simp only [merged, if_true]
    rw [bind_of_ok (readHash_append _ _)]
    rfl
  · rename_i notMerged
    split at written
    · rename_i plain
      simp only [pure, Except.pure, Except.ok.injEq] at written
      subst written
      simp only [deserializeBlockHeader, List.append_assoc]
      rw [bind_of_ok (readUInt8Varint_append _ _)]
      simp only [supported, if_false]
      rw [bind_of_ok (readUInt8Varint_append _ _)]
      simp only [notMerged, plain, if_false, if_true]
      rw [bind_of_ok (readUInt64Varint_append _ _), bind_of_ok (readHash_append _ _),
        bind_of_ok (readUInt32Pod_append _ _)]
      rfl
    · contradiction

theorem serializeParentBlock_eq_ok {parentBlock : ParentBlock} {timestamp : UInt64} {nonce : UInt32}
    {bytes : List UInt8} (written : serializeParentBlock parentBlock timestamp nonce = .ok bytes) :
    ¬ parentBlock.transactionCount < 1 ∧
      parentBlock.baseTransactionBranch.length = treeDepth parentBlock.transactionCount.toNat ∧
      ∃ mmTag, getMergeMiningTagFromExtra parentBlock.baseTransaction.extra = some mmTag ∧
        ¬ mmTag.depth > 8 * 32 ∧ mmTag.depth = parentBlock.blockchainBranch.length ∧
        bytes = writeVarint parentBlock.majorVersion.toNat ++ writeVarint parentBlock.minorVersion.toNat ++
          writeVarint timestamp.toNat ++ parentBlock.previousBlockHash.data ++ writeUInt32Pod nonce ++
          writeVarint parentBlock.transactionCount.toNat ++
          parentBlock.baseTransactionBranch.flatMap Hash.data ++ parentBlock.baseTransaction.serialize ++
          parentBlock.blockchainBranch.flatMap Hash.data := by
  -- each check of the writer either threw or holds
  by_cases counted : parentBlock.transactionCount < 1
  · simp [serializeParentBlock, counted, throw, throwThe, MonadExceptOf.throw, bind,
      Except.bind] at written
  by_cases branchSized : parentBlock.baseTransactionBranch.length ≠ treeDepth parentBlock.transactionCount.toNat
  · simp [serializeParentBlock, counted, branchSized, throw, throwThe, MonadExceptOf.throw, bind,
      Except.bind] at written
  cases found : getMergeMiningTagFromExtra parentBlock.baseTransaction.extra with
  | none =>
      simp [serializeParentBlock, counted, branchSized, found, throw, throwThe, MonadExceptOf.throw,
        bind, Except.bind] at written
  | some mmTag =>
      by_cases shallow : 256 < mmTag.depth
      · simp [serializeParentBlock, counted, branchSized, found, shallow, throw, throwThe,
          MonadExceptOf.throw, bind, Except.bind, pure, Except.pure] at written
      by_cases depthMatches : mmTag.depth ≠ parentBlock.blockchainBranch.length
      · simp [serializeParentBlock, counted, branchSized, found, shallow, depthMatches, throw,
          throwThe, MonadExceptOf.throw, bind, Except.bind, pure, Except.pure] at written
      simp [serializeParentBlock, counted, branchSized, found, shallow, depthMatches, bind,
        Except.bind, pure, Except.pure] at written
      refine ⟨counted, not_not.mp branchSized, mmTag, rfl, by omega, not_not.mp depthMatches, ?_⟩
      rw [← written]
      simp only [List.append_assoc]

theorem deserializeParentBlock_append {parentBlock : ParentBlock} {timestamp : UInt64} {nonce : UInt32}
    {bytes : List UInt8} (written : serializeParentBlock parentBlock timestamp nonce = .ok bytes)
    (fits : parentBlock.baseTransaction.toTransactionPrefix.SizesFit) (rest : List UInt8) :
    deserializeParentBlock (bytes ++ rest) = .ok ((parentBlock, timestamp, nonce), rest) := by
  obtain ⟨counted, branchSized, mmTag, found, shallow, depthMatches, rfl⟩ :=
    serializeParentBlock_eq_ok written
  have countFits : parentBlock.transactionCount.toNat < 2 ^ 64 := by
    have := parentBlock.transactionCount.toNat_lt
    omega
  simp only [deserializeParentBlock, List.append_assoc]
  rw [bind_of_ok (readUInt8Varint_append _ _), bind_of_ok (readUInt8Varint_append _ _),
    bind_of_ok (readUInt64Varint_append _ _), bind_of_ok (readHash_append _ _),
    bind_of_ok (readUInt32Pod_append _ _),
    bind_of_ok (readVarint_writeVarint 64 _ _ (by norm_num) countFits)]
  simp only [UInt16.ofNat_toNat, counted, if_false]
  rw [← branchSized,
    bind_of_ok (readItems_flatMap readHash Hash.data _ _ fun hash _ rest => readHash_append hash rest),
    bind_of_ok (BaseTransaction.deserialize_append _ fits _)]
  simp only [found]
  rw [bind_of_ok (pure_run _ _)]
  simp only [shallow, if_false]
  rw [depthMatches,
    bind_of_ok (readItems_flatMap readHash Hash.data _ _ fun hash _ rest => readHash_append hash rest)]
  rfl

def BlockTemplate.SizesFit (block : BlockTemplate) : Prop :=
  block.baseTransaction.toTransactionPrefix.SizesFit ∧ block.transactionHashes.length < 2 ^ 64 ∧
    block.parentBlock.baseTransaction.toTransactionPrefix.SizesFit

theorem BlockTemplate.deserialize_append {block : BlockTemplate} {blob : List UInt8}
    (initial : BlockTemplate) (written : block.serialize = .ok blob)
    (supported : block.baseTransaction.version ≤ CURRENT_TRANSACTION_VERSION) (fits : block.SizesFit)
    (shaped : SignaturesShaped block.baseTransaction.inputs block.baseTransaction.signatures)
    (rest : List UInt8) :
    BlockTemplate.deserialize initial (blob ++ rest) =
      .ok (if block.majorVersion = BLOCK_MAJOR_VERSION_2 ∨ block.majorVersion = BLOCK_MAJOR_VERSION_3 then
        block else { block with parentBlock := initial.parentBlock }, rest) := by
  obtain ⟨minerFits, hashesFit, parentFits⟩ := fits
  have readHashes := readVector_append readHash Hash.data block.transactionHashes rest hashesFit
    fun hash _ rest => readHash_append hash rest
  have readMiner := block.baseTransaction.deserialize_append supported minerFits shaped
  have minerWritten := block.baseTransaction.toBinaryArray_of_shaped shaped
  simp only [Transaction.toBinaryArray] at minerWritten
  by_cases merged : block.majorVersion = BLOCK_MAJOR_VERSION_2 ∨ block.majorVersion = BLOCK_MAJOR_VERSION_3
  · simp only [BlockTemplate.serialize, merged, if_true] at written
    obtain ⟨headerBytes, headerWritten, written⟩ := except_bind_eq_ok written
    obtain ⟨parentBytes, parentWritten, written⟩ := except_bind_eq_ok written
    rw [minerWritten] at written
    simp only [bind, Except.bind, pure, Except.pure, Except.ok.injEq] at written
    subst written
    simp only [BlockTemplate.deserialize, List.append_assoc]
    rw [bind_of_ok (deserializeBlockHeader_append initial.toBlockHeader headerWritten _)]
    simp only [merged, if_true]
    rw [bind_of_ok (deserializeParentBlock_append parentWritten parentFits _),
      bind_of_ok (pure_run _ _), bind_of_ok (readMiner _), bind_of_ok readHashes]
    rfl
  · simp only [BlockTemplate.serialize, merged, if_false] at written
    obtain ⟨headerBytes, headerWritten, written⟩ := except_bind_eq_ok written
    rw [minerWritten] at written
    simp only [bind, Except.bind, pure, Except.pure, Except.ok.injEq] at written
    subst written
    simp only [BlockTemplate.deserialize, List.append_assoc, List.nil_append]
    rw [bind_of_ok (deserializeBlockHeader_append initial.toBlockHeader headerWritten _)]
    simp only [merged, if_false]
    rw [bind_of_ok (pure_run _ _), bind_of_ok (readMiner _), bind_of_ok readHashes]
    rfl

/-! ## Round trip and canonicity -/

/-- Transactions whose signatures have the reader's shape, and blocks that the
writer accepts, are read back from their blobs: a block of major version 2 or 3
whole, any other in every field but its parent block, which its blob does not
carry. -/
theorem binaryFormat_roundTrip :
    (∀ tx : Transaction, tx.version ≤ CURRENT_TRANSACTION_VERSION → tx.toTransactionPrefix.SizesFit →
      SignaturesShaped tx.inputs tx.signatures →
        ∃ blob, tx.toBinaryArray = .ok blob ∧ Transaction.fromBinaryArray blob = .ok tx) ∧
    (∀ (block : BlockTemplate) (blob : List UInt8), block.toBinaryArray = .ok blob →
      block.baseTransaction.version ≤ CURRENT_TRANSACTION_VERSION → block.SizesFit →
      SignaturesShaped block.baseTransaction.inputs block.baseTransaction.signatures →
        ∃ decoded, BlockTemplate.fromBinaryArray blob = .ok decoded ∧
          { decoded with parentBlock := block.parentBlock } = block ∧
          (block.majorVersion = BLOCK_MAJOR_VERSION_2 ∨ block.majorVersion = BLOCK_MAJOR_VERSION_3 →
            decoded = block)) := by
  refine ⟨Transaction.fromBinaryArray_toBinaryArray, ?_⟩
  intro block blob written supported fits shaped
  have ran := BlockTemplate.deserialize_append emptyBlockTemplate written supported fits shaped []
  rw [List.append_nil] at ran
  refine ⟨_, fromBinaryArrayWith_of_ok ran, ?_, fun merged => by simp [merged]⟩
  split <;> rfl

def unsignedKeyTransaction : Transaction where
  version := 1
  unlockTime := 0
  inputs := [.key ⟨300, [], KeyImage.ofByte 3⟩]
  outputs := []
  extra := []
  signatures := []

/-- Its signatures are empty and its input carries no signature, yet it is read
back with one empty signature vector. -/
theorem unsignedKeyTransaction_readsBackSigned :
    unsignedKeyTransaction.signatures = [] ∧
      (∀ input ∈ unsignedKeyTransaction.inputs, input.getSignaturesCount = 0) ∧
      ∃ blob, unsignedKeyTransaction.toBinaryArray = .ok blob ∧
        Transaction.fromBinaryArray blob = .ok { unsignedKeyTransaction with signatures := [[]] } ∧
        Transaction.fromBinaryArray blob ≠ .ok unsignedKeyTransaction := by
  refine ⟨rfl, by decide, _, rfl, by decide +kernel, by decide +kernel⟩

theorem binaryFormat_roundTrip_signed :
    ∃ blob, ({ unsignedKeyTransaction with signatures := [[]] } : Transaction).toBinaryArray = .ok blob ∧
      Transaction.fromBinaryArray blob = .ok { unsignedKeyTransaction with signatures := [[]] } :=
  binaryFormat_roundTrip.1 { unsignedKeyTransaction with signatures := [[]] } (by decide)
    ⟨by simp [unsignedKeyTransaction], by simp [unsignedKeyTransaction],
      by simp [unsignedKeyTransaction], by simp [unsignedKeyTransaction, TransactionInput.SizesFit],
      by simp [unsignedKeyTransaction]⟩
    (.cons rfl .nil)

def mergeMinedBlock : BlockTemplate where
  majorVersion := 2
  minorVersion := 0
  nonce := 77
  timestamp := 5
  previousBlockHash := nullHash
  parentBlock :=
    { emptyParentBlock with
      majorVersion := 1
      transactionCount := 1
      baseTransaction := ⟨⟨1, 0, [], [], appendMergeMiningTagToExtra [] ⟨0, Hash.ofByte 9⟩⟩⟩ }
  baseTransaction := ⟨⟨1, 0, [.base ⟨3⟩], [], []⟩, []⟩
  transactionHashes := []

/-- The blob of `mergeMinedBlock` with the parent's transaction count written
as 65537 instead of 1. -/
def wrappedCountBlob : List UInt8 :=
  writeVarint 2 ++ writeVarint 0 ++ nullHash.data ++
    writeVarint 1 ++ writeVarint 0 ++ writeVarint 5 ++ nullHash.data ++ writeUInt32Pod 77 ++
    writeVarint 65537 ++ mergeMinedBlock.parentBlock.baseTransaction.serialize ++
    (mergeMinedBlock.baseTransaction.toTransactionPrefix.serialize ++ writeVarint 0)

/-- The count is narrowed to `uint16_t` on reading, so a second blob reads as
`mergeMinedBlock`, whose own blob is a different one. -/
theorem wrappedTransactionCount_accepted :
    BlockTemplate.fromBinaryArray wrappedCountBlob = .ok mergeMinedBlock ∧
      ∃ blob, mergeMinedBlock.toBinaryArray = .ok blob ∧
        BlockTemplate.fromBinaryArray blob = .ok mergeMinedBlock ∧ blob ≠ wrappedCountBlob := by
  refine ⟨by decide +kernel, _, rfl, by decide +kernel, by decide +kernel⟩

end CryptoNote
