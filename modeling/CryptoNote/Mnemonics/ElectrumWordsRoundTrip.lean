import CryptoNote.Mnemonics.ElectrumWords

/-!
# Seed words back to the key

A four-byte chunk goes to three word indices and back to the same value: the
differences of the running sums are the value's base-1626 digits, the highest of
which is below 1626 since `1626 ^ 3 ≥ 2 ^ 32`, and the `uint32_t` arithmetic of
`words_to_bytes` does not wrap on them.  The seed text of `bytes_to_words` is
split back into its 25 words, the language finds each word's index by its
prefix, the checksum test passes on the word that `bytes_to_words` picked with
the same index, and the loop copies every chunk back into place.
-/

set_option autoImplicit false

namespace Crypto.ElectrumWords

open Language BlockCodec

/-- What the round trip needs of a word list: the 1626 words `populate_maps`
insists on, distinct prefixes, and words that are not empty and hold no space
and no NUL byte. -/
structure Valid (lang : Base) : Prop where
  length_wordList : lang.wordList.length = 1626
  trimmed_nodup : (lang.wordList.map (trimmedWord lang.uniquePrefixLength)).Nodup
  nonempty : ∀ word ∈ lang.wordList, word ≠ []
  no_space : ∀ word ∈ lang.wordList, ∀ b ∈ word, isSpace b = false
  no_nul : ∀ word ∈ lang.wordList, (0 : UInt8) ∉ word

theorem SecretKey.ext_data {a b : SecretKey} (same : a.data = b.data) : a = b := by
  cases a
  cases b
  simp only [SecretKey.mk.injEq]
  exact same

/-! ## One chunk -/

section Chunk

variable {n : UInt32}

theorem chunkValue_chunkIndices (n1626 : n.toNat = 1626) (val : UInt32) {w1 w2 w3 : UInt32}
    (indices : chunkIndices n val = [w1, w2, w3]) : chunkValue n w1 w2 w3 = val ∧ val % n = w1 := by
  simp only [chunkIndices, List.cons.injEq, and_true] at indices
  obtain ⟨rfl, rfl, rfl⟩ := indices
  refine ⟨UInt32.toNat_inj.mp ?_, rfl⟩
  have fits : val.toNat < 4294967296 := val.toNat_lt
  have below : ∀ a : UInt32, a.toNat < 1626 → a ≤ n := fun a small =>
    UInt32.le_iff_toNat_le.mpr (by omega)
  have top : val.toNat / 1626 / 1626 < 1626 := by omega
  -- the three indices as numbers: running sums of the digits, modulo 1626; no sum wraps
  have w1 : (val % n).toNat = val.toNat % 1626 := by rw [UInt32.toNat_mod, n1626]
  have w2 : ((val / n + val % n) % n).toNat = (val.toNat / 1626 + val.toNat % 1626) % 1626 := by
    have small : val.toNat / 1626 + val.toNat % 1626 < 2 ^ 32 := by omega
    rw [UInt32.toNat_mod, UInt32.toNat_add, UInt32.toNat_div, w1, n1626, Nat.mod_eq_of_lt small]
  have w3 : ((val / n / n + (val / n + val % n) % n) % n).toNat =
      (val.toNat / 1626 / 1626 + (val.toNat / 1626 + val.toNat % 1626) % 1626) % 1626 := by
    have small : val.toNat / 1626 / 1626 + (val.toNat / 1626 + val.toNat % 1626) % 1626 < 2 ^ 32 := by omega
    rw [UInt32.toNat_mod, UInt32.toNat_add, UInt32.toNat_div, UInt32.toNat_div, w2, n1626, Nat.mod_eq_of_lt small]
  -- the differences of the sums are the digits; the subtractions do not wrap
  have le1 : val % n ≤ n := below _ (by rw [w1]; omega)
  have le2 : (val / n + val % n) % n ≤ n := below _ (by rw [w2]; omega)
  have digit1 : ((n - val % n + (val / n + val % n) % n) % n).toNat = val.toNat / 1626 % 1626 := by
    have small : 1626 - val.toNat % 1626 + (val.toNat / 1626 + val.toNat % 1626) % 1626 < 2 ^ 32 := by omega
    rw [UInt32.toNat_mod, UInt32.toNat_add, UInt32.toNat_sub_of_le _ _ le1, w1, w2, n1626, Nat.mod_eq_of_lt small]
    omega
  have digit2 : ((n - (val / n + val % n) % n + (val / n / n + (val / n + val % n) % n) % n) % n).toNat =
      val.toNat / 1626 / 1626 := by
    have small : 1626 - (val.toNat / 1626 + val.toNat % 1626) % 1626 +
        (val.toNat / 1626 / 1626 + (val.toNat / 1626 + val.toNat % 1626) % 1626) % 1626 < 2 ^ 32 := by omega
    rw [UInt32.toNat_mod, UInt32.toNat_add, UInt32.toNat_sub_of_le _ _ le2, w2, w3, n1626, Nat.mod_eq_of_lt small]
    omega
  -- the value is the digits' sum, and no product or sum of it wraps
  have low : 1626 * (val.toNat / 1626 % 1626) < 2 ^ 32 := by omega
  have lowSum : val.toNat % 1626 + 1626 * (val.toNat / 1626 % 1626) < 2 ^ 32 := by omega
  have square : 1626 * 1626 < 2 ^ 32 := by norm_num
  have high : 1626 * 1626 * (val.toNat / 1626 / 1626) < 2 ^ 32 := by omega
  have sum : val.toNat % 1626 + 1626 * (val.toNat / 1626 % 1626) + 1626 * 1626 * (val.toNat / 1626 / 1626) < 2 ^ 32 := by
    omega
  rw [chunkValue, UInt32.toNat_add, UInt32.toNat_add, UInt32.toNat_mul, UInt32.toNat_mul, UInt32.toNat_mul,
    w1, digit1, digit2, n1626, Nat.mod_eq_of_lt low, Nat.mod_eq_of_lt lowSum, Nat.mod_eq_of_lt square,
    Nat.mod_eq_of_lt high, Nat.mod_eq_of_lt sum]
  omega

end Chunk

/-! ## Bytes in memory -/

theorem uint32Bytes_uint32OfBytes {bytes : List UInt8} (four : bytes.length = 4) :
    uint32Bytes (uint32OfBytes bytes) = bytes := by
  have digits : ∀ d ∈ bytes.map UInt8.toNat, d < 256 := by
    intro d mem
    obtain ⟨b, -, rfl⟩ := List.mem_map.mp mem
    exact b.toNat_lt
  have small : Nat.ofDigits 256 (bytes.map UInt8.toNat) < 2 ^ 32 := by
    have := Nat.ofDigits_lt_base_pow_length (by norm_num) digits
    simpa [four] using this
  have value : (uint32OfBytes bytes).toNat = Nat.ofDigits 256 (bytes.map UInt8.toNat) := by
    simp only [uint32OfBytes, Nat.toUInt32_eq, UInt32.toNat_ofNat']
    exact Nat.mod_eq_of_lt small
  have width : 4 = (bytes.map UInt8.toNat).length := by simp [four]
  rw [uint32Bytes, value, width, digitsLE_ofDigits _ digits, List.map_map]
  simp [Function.comp_def]

theorem copyBytes_eq : ∀ (data : List UInt8) (pos : Nat) (bytes : List UInt8),
    pos + bytes.length ≤ data.length → copyBytes data pos bytes = data.take pos ++ bytes ++ data.drop (pos + bytes.length)
  | data, pos, [], _ => by simp [copyBytes]
  | data, pos, b :: rest, inside => by
    simp only [List.length_cons] at inside
    have set := copyBytes_eq (data.set pos b) (pos + 1) rest (by simp only [List.length_set]; omega)
    -- the first byte lands at `pos`; the rest of the copy starts after it
    have front : (data.set pos b).take (pos + 1) = data.take pos ++ [b] := by
      have len : pos - min pos data.length = 0 := by omega
      rw [List.take_set, List.take_add_one, List.getElem?_eq_getElem (by omega), Option.toList_some,
        List.set_append_right _ _ (by simp), List.length_take, len]
      rfl
    rw [copyBytes, set, front, List.drop_set_of_lt (by omega)]
    simp [Nat.add_comm, Nat.add_left_comm]

theorem data_memcpy {key : SecretKey} {pos : Nat} {bytes : List UInt8} (inside : pos + bytes.length ≤ 32) :
    (memcpy key pos bytes).data = key.data.take pos ++ bytes ++ key.data.drop (pos + bytes.length) :=
  copyBytes_eq key.data pos bytes (key.size_eq ▸ inside)

/-! ## The seed text -/

theorem spaced_eq_intercalate : ∀ {ws : List (List UInt8)}, ws ≠ [] → ∀ c : List UInt8,
    (ws.flatMap (· ++ [32])).dropLast ++ 32 :: c = [32].intercalate (ws ++ [c])
  | [], nonempty, _ => absurd rfl nonempty
  | [w], _, c => by simp
  | w :: w' :: rest, _, c => by
    have later := @spaced_eq_intercalate (w' :: rest) (by simp) c
    rw [List.flatMap_cons, List.dropLast_append_of_ne_nil (by simp), List.append_assoc, later]
    simp only [List.cons_append, List.intercalate_cons_cons, List.append_assoc]

theorem trim_of_ends {s : List UInt8} (head : ∀ b ∈ s.head?, isSpace b = false)
    (last : ∀ b ∈ s.getLast?, isSpace b = false) : trim s = s := by
  have front : s.dropWhile isSpace = s := by
    cases s with
    | nil => rfl
    | cons b rest => exact List.dropWhile_cons_of_neg (by simp [head b rfl])
  rw [trim, front, List.rdropWhile_eq_self_iff]
  intro nonempty
  simp [last _ (List.getLast?_eq_some_getLast nonempty)]

theorem splitCompress_intercalate {ws : List (List UInt8)} (nonempty : ws ≠ [])
    (filled : ∀ w ∈ ws, w ≠ []) (unspaced : ∀ w ∈ ws, (32 : UInt8) ∉ w) :
    splitCompress ([32].intercalate ws) = ws := by
  obtain ⟨first, rest, rfl⟩ := List.exists_cons_of_ne_nil nonempty
  rw [splitCompress, List.splitOn_intercalate 32 unspaced nonempty]
  dsimp only
  have kept : rest.dropLast.filter (· ≠ []) = rest.dropLast := by
    refine List.filter_eq_self.mpr fun w mem => ?_
    simpa using filled w (List.mem_cons_of_mem first (List.dropLast_subset rest mem))
  rw [kept]
  cases last : rest.getLast? with
  | none => simp [List.getLast?_eq_none_iff.mp last]
  | some w => simp [List.dropLast_append_getLast? w last]

theorem splitCompress_trim_spaced {ws : List (List UInt8)} (nonempty : ws ≠ []) {c : List UInt8}
    (filled : ∀ w ∈ ws ++ [c], w ≠ []) (clean : ∀ w ∈ ws ++ [c], ∀ b ∈ w, isSpace b = false) :
    splitCompress (trim ((ws.flatMap (· ++ [32])).dropLast ++ 32 :: c)) = ws ++ [c] := by
  obtain ⟨w, rest, rfl⟩ := List.exists_cons_of_ne_nil nonempty
  have firstWord : w ∈ w :: rest ++ [c] := by simp
  have lastWord : c ∈ w :: rest ++ [c] := by simp
  obtain ⟨b, bs, wEq⟩ := List.exists_cons_of_ne_nil (filled w firstWord)
  -- the text starts with the first word's first byte and ends with the checksum word's last
  have ends : trim ((List.flatMap (· ++ [32]) (w :: rest)).dropLast ++ 32 :: c) =
      (List.flatMap (· ++ [32]) (w :: rest)).dropLast ++ 32 :: c := by
    apply trim_of_ends
    · intro first mem
      have : first = b := by
        rw [List.flatMap_cons, List.append_assoc, List.dropLast_append_of_ne_nil (by simp), List.append_assoc,
          wEq] at mem
        simpa using mem.symm
      exact clean w firstWord first (this ▸ wEq ▸ List.mem_cons_self)
    · intro last mem
      obtain ⟨x, atEnd⟩ := List.getLast?_isSome.mpr (filled c lastWord) |> Option.isSome_iff_exists.mp
      have : x = last := by simpa [List.getLast?_append, List.getLast?_cons, atEnd] using mem
      exact clean c lastWord last (this ▸ List.mem_of_getLast? atEnd)
  rw [ends, spaced_eq_intercalate nonempty]
  exact splitCompress_intercalate (by simp) filled fun u mem space =>
    absurd (clean u mem 32 space) (by decide)

/-! ## Finding the words again -/

theorem utf8prefixFrom_of_length_le : ∀ (continuing : Bool) (s : List UInt8) (count : Nat),
    s.length ≤ count → (0 : UInt8) ∉ s → utf8prefixFrom continuing s count = s
  | _, [], _, _, _ => by simp [utf8prefixFrom]
  | continuing, b :: rest, count, short, noNul => by
    have notNul : b ≠ 0 := fun zero => noNul (zero ▸ List.mem_cons_self)
    have restNoNul : (0 : UInt8) ∉ rest := fun mem => noNul (List.mem_cons_of_mem b mem)
    simp only [List.length_cons] at short
    obtain ⟨count, rfl⟩ : ∃ c, count = c + 1 := ⟨count - 1, by omega⟩
    -- a continuing byte or a new character: either way the rest fits the count
    by_cases continued : (continuing && b &&& 0xc0 == 0x80) = true
    · rw [utf8prefixFrom, if_pos continued, utf8prefixFrom_of_length_le true rest (count + 1) (by omega) restNoNul]
    · rw [utf8prefixFrom, if_neg continued, if_neg (by simpa using notNul),
        utf8prefixFrom_of_length_le true rest count (by omega) restNoNul]

theorem utf8prefix_eq_trimmedWord {word : List UInt8} (noNul : (0 : UInt8) ∉ word) (count : Nat) :
    utf8prefix word count = trimmedWord count word := by
  unfold trimmedWord
  split
  · rfl
  · exact utf8prefixFrom_of_length_le false word count (by omega) noNul

theorem foldl_zipIdx_of_not_mem {key : List UInt8} : ∀ (l : List (List UInt8)) (k : Nat) (found : Option UInt32),
    key ∉ l → (l.zipIdx k).foldl (fun found entry => if entry.1 = key then some entry.2.toUInt32 else found) found = found
  | [], _, _, _ => rfl
  | a :: l, k, found, absent => by
    have differs : a ≠ key := fun same => absent (same ▸ List.mem_cons_self)
    rw [List.zipIdx_cons, List.foldl_cons, if_neg differs,
      foldl_zipIdx_of_not_mem l (k + 1) found fun mem => absent (List.mem_cons_of_mem a mem)]

theorem indexMap_append_cons {pre post : List (List UInt8)} {key : List UInt8} (absent : key ∉ post) :
    indexMap (pre ++ key :: post) key = some pre.length.toUInt32 := by
  unfold indexMap
  rw [List.zipIdx_append, List.foldl_append, List.zipIdx_cons, List.foldl_cons, if_pos rfl, zero_add,
    foldl_zipIdx_of_not_mem post _ _ absent]

theorem indexMap_getElem {keys : List (List UInt8)} (unique : keys.Nodup) {i : Nat} (inside : i < keys.length) :
    indexMap keys keys[i] = some i.toUInt32 := by
  have decomp : keys.take i ++ keys[i] :: keys.drop (i + 1) = keys := by
    rw [← List.drop_eq_getElem_cons inside, List.take_append_drop]
  have absent : keys[i] ∉ keys.drop (i + 1) := by
    have := decomp ▸ unique
    exact (List.nodup_cons.mp (List.nodup_append.mp this).2.1).1
  calc indexMap keys keys[i] = indexMap (keys.take i ++ keys[i] :: keys.drop (i + 1)) keys[i] := by rw [decomp]
    _ = some (keys.take i).length.toUInt32 := indexMap_append_cons absent
    _ = some i.toUInt32 := by simp [Nat.min_eq_left inside.le]

theorem matchSeed_map {lang : Base} (valid : Valid lang) {js : List UInt32}
    (small : ∀ j ∈ js, j.toNat < 1626) : matchSeed lang (js.map fun j => lang.wordList.getD j.toNat []) true = some js := by
  have found : ∀ j ∈ js,
      lang.getTrimmedWordMap ( utf8prefix (lang.wordList.getD j.toNat []) lang.uniquePrefixLength) = some j := by
    intro j mem
    have inside : j.toNat < lang.wordList.length := valid.length_wordList ▸ small j mem
    have word : lang.wordList.getD j.toNat [] = lang.wordList[j.toNat] := by
      simp [List.getD_eq_getElem?_getD, List.getElem?_eq_getElem inside]
    have insideKeys : j.toNat < (lang.wordList.map (trimmedWord lang.uniquePrefixLength)).length := by simpa using inside
    have keys : trimmedWord lang.uniquePrefixLength lang.wordList[j.toNat] =
        (lang.wordList.map (trimmedWord lang.uniquePrefixLength))[j.toNat] := by simp
    rw [word, utf8prefix_eq_trimmedWord (valid.no_nul _ (List.getElem_mem inside)), Base.getTrimmedWordMap,
      keys, indexMap_getElem valid.trimmed_nodup insideKeys]
    simp
  rw [matchSeed, List.mapM_map]
  simpa [Function.comp_def] using mapM_eq_some_map (g := id) js found

theorem checksumTest_append (ws : List (List UInt8)) (uniquePrefixLength : Nat) :
    checksumTest (ws ++ [ws.getD (createChecksumIndex ws uniquePrefixLength).toNat []]) uniquePrefixLength = true := by
  simp [checksumTest]

theorem findSeedLanguage_of_alone {seed : List (List UInt8)} {language : Base} {matched : List UInt32}
    (found : matchSeed language seed true = some matched) (passes : checksumTest seed language.uniquePrefixLength = true) :
    ∀ (languages : List Base) (fallback : Option Base), language ∈ languages →
      (∀ other ∈ languages, other ≠ language → (matchSeed other seed true).isSome →
        checksumTest seed other.uniquePrefixLength = false) →
      findSeedLanguage seed true languages fallback = some (language, matched)
  | [], _, mem, _ => absurd mem List.not_mem_nil
  | lang :: rest, fallback, mem, alone => by
    have restAlone : ∀ other ∈ rest, other ≠ language → (matchSeed other seed true).isSome →
        checksumTest seed other.uniquePrefixLength = false := fun other mem' =>
      alone other (List.mem_cons_of_mem lang mem')
    by_cases same : lang = language
    · subst same
      simp [findSeedLanguage, found, passes]
    · have later := List.mem_of_ne_of_mem (Ne.symm same) mem
      rw [findSeedLanguage]
      split
      · exact findSeedLanguage_of_alone found passes rest fallback later restAlone
      · rename_i matchedOther knows
        have fails := alone lang List.mem_cons_self same (by simp [knows])
        simp only [fails, Bool.not_false, Bool.and_self, if_true]
        exact findSeedLanguage_of_alone found passes rest (some lang) later restAlone

/-! ## The chunks copied back -/

theorem chunkIndices_lt {n : UInt32} (positive : 0 < n.toNat) (val : UInt32) :
    ∀ w ∈ chunkIndices n val, w.toNat < n.toNat := by
  intro w mem
  simp only [chunkIndices, List.mem_cons, List.not_mem_nil, or_false] at mem
  rcases mem with rfl | rfl | rfl <;> rw [UInt32.toNat_mod] <;> exact Nat.mod_lt _ positive

theorem getD_block {l : List UInt32} {size i k : Nat} (small : k < size) :
    (block size l i).getD k 0 = l.getD (i * size + k) 0 := by
  simp [block, List.getD_eq_getElem?_getD, small]

theorem getD_flatMap_chunk {f : Nat → List UInt32} (sized : ∀ j, (f j).length = 3) (rest : List UInt32)
    {count i k : Nat} (inside : i < count) (small : k < 3) :
    ((List.range count).flatMap f ++ rest).getD (i * 3 + k) 0 = (f i).getD k 0 := by
  have blocks : ((List.range count).map f).length = count := by simp
  have cut := block_flatten_append rest ((List.range count).map f) (fun b mem => by
    obtain ⟨j, -, rfl⟩ := List.mem_map.mp mem
    exact sized j) i (by rw [blocks]; exact inside)
  rw [← getD_block small, List.flatMap_def, cut]
  simp

theorem decodeChunks_chunks {n : UInt32} (n1626 : n.toNat = 1626) (key : SecretKey) (rest : List UInt32) :
    ∀ (count i : Nat) (dst : SecretKey), i + count = 32 / 4 → dst.data.take (i * 4) = key.data.take (i * 4) →
      decodeChunks n (((List.range (32 / 4)).flatMap fun j => chunkIndices n (uint32OfBytes (block 4 key.data j))) ++ rest)
        count i dst = (true, key)
  | 0, i, dst, done, copied => by
    -- all 32 bytes are the key's
    have whole : i * 4 = 32 := by omega
    rw [whole, List.take_of_length_le (by rw [dst.size_eq]), List.take_of_length_le (by rw [key.size_eq])] at copied
    rw [decodeChunks, SecretKey.ext_data copied]
  | count + 1, i, dst, done, copied => by
    have inside : i < 32 / 4 := by omega
    obtain ⟨w1, w2, w3, chunk⟩ : ∃ w1 w2 w3, chunkIndices n (uint32OfBytes (block 4 key.data i)) = [w1, w2, w3] :=
      ⟨_, _, _, rfl⟩
    obtain ⟨value, first⟩ := chunkValue_chunkIndices n1626 _ chunk
    have sized : ∀ j, (chunkIndices n (uint32OfBytes (block 4 key.data j))).length = 3 := fun _ => rfl
    have at0 := getD_flatMap_chunk sized rest inside (show 0 < 3 by decide)
    have at1 := getD_flatMap_chunk sized rest inside (show 1 < 3 by decide)
    have at2 := getD_flatMap_chunk sized rest inside (show 2 < 3 by decide)
    rw [chunk] at at0 at1 at2
    have fourBytes : (block 4 key.data i).length = 4 := length_block (by rw [key.size_eq]; omega)
    have bytes : uint32Bytes (uint32OfBytes (block 4 key.data i)) = block 4 key.data i :=
      uint32Bytes_uint32OfBytes fourBytes
    -- the chunk's value passes the check and is copied to its place
    have copiedNext : (memcpy dst (i * 4) (block 4 key.data i)).data.take ((i + 1) * 4) =
        key.data.take ((i + 1) * 4) := by
      have front : (dst.data.take (i * 4) ++ block 4 key.data i).length = (i + 1) * 4 := by
        simp only [List.length_append, List.length_take, dst.size_eq, fourBytes]
        omega
      rw [data_memcpy (by rw [fourBytes]; omega), List.take_left' front, copied, block, Nat.succ_mul, List.take_add]
    simp only [Nat.add_zero] at at0
    rw [decodeChunks, at0, at1, at2]
    simp only [List.getD_cons_zero, List.getD_cons_succ, value, first, beq_self_eq_true, Bool.not_true,
      Bool.false_eq_true, if_false, bytes]
    exact decodeChunks_chunks n1626 key rest count (i + 1) _ (by omega) copiedNext

/-! ## The round trip -/

theorem length_keyIndices (n : UInt32) (key : SecretKey) :
    ((List.range (32 / 4)).flatMap fun i => chunkIndices n (uint32OfBytes (block 4 key.data i))).length = 24 := by
  have sized : ∀ j, (chunkIndices n (uint32OfBytes (block 4 key.data j))).length = 3 := fun _ => rfl
  simp [List.length_flatMap, sized]

theorem lt_of_mem_keyIndices {n : UInt32} (positive : 0 < n.toNat) {key : SecretKey} {j : UInt32}
    (mem : j ∈ (List.range (32 / 4)).flatMap fun i => chunkIndices n (uint32OfBytes (block 4 key.data i))) :
    j.toNat < n.toNat := by
  obtain ⟨i, -, inChunk⟩ := List.mem_flatMap.mp mem
  exact chunkIndices_lt positive _ j inChunk

theorem Valid.getD_mem {language : Base} (valid : Valid language) {j : Nat} (small : j < 1626) :
    language.wordList.getD j [] ∈ language.wordList := by
  have inside : j < language.wordList.length := valid.length_wordList ▸ small
  simp [List.getD_eq_getElem?_getD, List.getElem?_eq_getElem inside]
theorem wordsToBytes_of_found {languages : List Base} {words : List UInt8} {dst key : SecretKey}
    {languageName : List UInt8} {seed : List (List UInt8)} (split : splitCompress (trim words) = seed)
    (twentyFive : seed.length = 25) {language : Base} {matched : List UInt32}
    (found : findSeedLanguage seed true languages none = some (language, matched))
    (passes : checksumTest seed language.uniquePrefixLength = true)
    (decoded : decodeChunks language.wordList.length.toUInt32 matched 8 0 dst = (true, key)) :
    wordsToBytes languages words dst languageName = (true, key, language.languageName) := by
  have checked : (seed.length == seedLength + 1) = true := by simp [twentyFive, seedLength]
  have short : seed.dropLast.length / 3 = 8 := by simp [twentyFive]
  have notElectrum : seed.dropLast.length ≠ seedLength / 2 := by simp [twentyFive, seedLength]
  simp only [wordsToBytes, split, checked, found, passes, Bool.not_true, Bool.and_false, Bool.false_eq_true,
    if_false, if_true, short, decoded, notElectrum]
  simp [twentyFive, seedLength]


/-- The 24 words of a key: for each of its eight blocks of four bytes, read as a
`uint32_t`, the words at the three indices `chunkIndices` gives. -/
def keyWords (language : Base) (key : SecretKey) : List (List UInt8) :=
  ((List.range (32 / 4)).flatMap fun i => chunkIndices 1626 (uint32OfBytes (block 4 key.data i))).map
    fun w => language.wordList.getD w.toNat []

/-- Writing a key as words gives its 24 words, then the checksum word, one space
between each two; reading the words back gives the key and the language, as long
as no other language accepts the seed.  The language is the first of its name in
the map, and its word list is `Valid`. -/
theorem wordsToBytes_bytesToWords {languages : List Base} {language : Base}
    (named : languages.find? (·.languageName == language.languageName) = some language)
    (valid : Valid language) (key dst : SecretKey) (languageName : List UInt8) :
    ∃ words, bytesToWords languages key [] language.languageName = (true, words) ∧
      (keyWords language key).length = 24 ∧
      words = [32].intercalate (keyWords language key ++
        [(keyWords language key).getD (createChecksumIndex (keyWords language key) language.uniquePrefixLength).toNat []]) ∧
      ((∀ other ∈ languages, other ≠ language → (matchSeed other (splitCompress (trim words)) true).isSome →
          checksumTest (splitCompress (trim words)) other.uniquePrefixLength = false) →
        wordsToBytes languages words dst languageName = (true, key, language.languageName)) := by
  obtain ⟨n, wordCount⟩ : ∃ n, language.wordList.length.toUInt32 = n := ⟨_, rfl⟩
  have n1626 : n.toNat = 1626 := by rw [← wordCount, valid.length_wordList]; rfl
  -- the 24 indices `bytes_to_words` computes, their words, and the checksum word
  set indices := (List.range (32 / 4)).flatMap fun i => chunkIndices n (uint32OfBytes (block 4 key.data i))
    with indicesEq
  set word : UInt32 → List UInt8 := fun w => language.wordList.getD w.toNat [] with wordEq
  set pick := (createChecksumIndex (indices.map word) language.uniquePrefixLength).toNat with pickEq
  have small : ∀ j ∈ indices, j.toNat < 1626 := fun j mem => n1626 ▸ lt_of_mem_keyIndices (by omega) mem
  have count : indices.length = 24 := length_keyIndices n key
  have pickSmall : pick < indices.length := by
    rw [count, pickEq, createChecksumIndex, UInt32.toNat_mod]
    exact Nat.mod_lt _ (by decide)
  have checksumWord : (indices.map word).getD pick [] = word (indices.getD pick 0) := by
    simp [List.getD_eq_getElem?_getD, List.getElem?_eq_getElem pickSmall]
  have seedEq : indices.map word ++ [(indices.map word).getD pick []] = (indices ++ [indices.getD pick 0]).map word := by
    rw [checksumWord, List.map_append, List.map_singleton]
  have allSmall : ∀ j ∈ indices ++ [indices.getD pick 0], j.toNat < 1626 := by
    intro j mem
    rcases List.mem_append.mp mem with old | last
    · exact small j old
    · rw [List.mem_singleton.mp last, List.getD_eq_getElem?_getD, List.getElem?_eq_getElem pickSmall]
      exact small _ (List.getElem_mem pickSmall)
  have inList : ∀ u ∈ indices.map word ++ [(indices.map word).getD pick []], u ∈ language.wordList := by
    rw [seedEq]
    intro u mem
    obtain ⟨j, inIndices, rfl⟩ := List.mem_map.mp mem
    exact valid.getD_mem (allSmall j inIndices)
  have built : bytesToWords languages key [] language.languageName =
      (true, ((indices.map word).flatMap (· ++ [32])).dropLast ++ 32 :: (indices.map word).getD pick []) := by
    simp only [bytesToWords, named, wordCount, List.nil_append]
    rfl
  have seeded : indices.map word ≠ [] := by simp [← List.length_pos_iff, count]
  -- the words of the key are those of the indices, the word list having 1626 words
  have sized : n = 1626 := UInt32.toNat_inj.mp (n1626.trans rfl)
  have keyWordsEq : keyWords language key = indices.map word := by
    rw [keyWords, indicesEq, wordEq, sized]
  refine ⟨_, built, by rw [keyWordsEq, List.length_map, count], by rw [keyWordsEq]; exact spaced_eq_intercalate seeded _,
    fun alone => ?_⟩
  -- the text splits back into the seed, which the language reads by its prefixes
  have split := splitCompress_trim_spaced seeded
    (fun u mem => valid.nonempty u (inList u mem)) (fun u mem => valid.no_space u (inList u mem))
  rw [split] at alone
  have matched := matchSeed_map valid allSmall
  rw [← seedEq] at matched
  have passes := checksumTest_append (indices.map word) language.uniquePrefixLength
  have found := findSeedLanguage_of_alone matched passes languages none (List.mem_of_find?_eq_some named) alone
  have decoded : decodeChunks language.wordList.length.toUInt32 (indices ++ [indices.getD pick 0]) 8 0 dst =
      (true, key) := by
    rw [wordCount]
    exact decodeChunks_chunks n1626 key [indices.getD pick 0] (32 / 4) 0 dst (by rfl) (by simp)
  exact wordsToBytes_of_found split (by simp [count]) found passes decoded

def digitWord (i : Nat) : List UInt8 := [48 + i / 1000, 48 + i / 100 % 10, 48 + i / 10 % 10, 48 + i % 10].map Nat.toUInt8

/-- A language whose words are the numbers `0000` to `1625`. -/
def digitLanguage : Base := ⟨ascii "Digits", (List.range 1626).map digitWord, 4⟩

theorem digit_byte : ∀ d < 10, isSpace (48 + d).toUInt8 = false ∧ (48 + d).toUInt8 ≠ 0 := by decide

theorem digitWord_injOn : ∀ i ∈ List.range 1626, ∀ j ∈ List.range 1626, digitWord i = digitWord j → i = j := by
  intro i hi j hj same
  simp only [List.mem_range] at hi hj
  simp only [digitWord, List.map_cons, List.map_nil, List.cons.injEq, and_true] at same
  obtain ⟨d1, d2, d3, d4⟩ := same
  have byte : ∀ {a b : Nat}, a.toUInt8 = b.toUInt8 → a % 256 = b % 256 := fun equal => by
    simpa using congrArg UInt8.toNat equal
  have := byte d1
  have := byte d2
  have := byte d3
  have := byte d4
  omega

theorem valid_digitLanguage : Valid digitLanguage where
  length_wordList := by simp [digitLanguage]
  trimmed_nodup := by
    have own : ∀ i, trimmedWord 4 (digitWord i) = digitWord i := fun i => by simp [trimmedWord, digitWord]
    simp only [digitLanguage, List.map_map, Function.comp_def, own]
    exact List.Nodup.map_on digitWord_injOn List.nodup_range
  nonempty := by simp [digitLanguage, digitWord]
  no_space word mem b inWord := by
    simp only [digitLanguage, List.mem_map, List.mem_range] at mem
    obtain ⟨i, small, rfl⟩ := mem
    simp only [digitWord, List.map_cons, List.map_nil, List.mem_cons, List.not_mem_nil, or_false] at inWord
    rcases inWord with rfl | rfl | rfl | rfl <;> exact (digit_byte _ (by omega)).1
  no_nul word mem inWord := by
    simp only [digitLanguage, List.mem_map, List.mem_range] at mem
    obtain ⟨i, small, rfl⟩ := mem
    simp only [digitWord, List.map_cons, List.map_nil, List.mem_cons, List.not_mem_nil, or_false] at inWord
    rcases inWord with same | same | same | same <;> exact (digit_byte _ (by omega)).2 same.symm

/-- The key of 32 bytes `7`, written in the digit language and read back. -/
theorem digitLanguage_roundTrip :
    [digitLanguage].find? (·.languageName == digitLanguage.languageName) = some digitLanguage ∧
      Valid digitLanguage ∧
      ∃ words, bytesToWords [digitLanguage] ⟨List.replicate 32 7, by simp⟩ [] digitLanguage.languageName =
          (true, words) ∧
        (keyWords digitLanguage ⟨List.replicate 32 7, by simp⟩).length = 24 ∧
        words = [32].intercalate (keyWords digitLanguage ⟨List.replicate 32 7, by simp⟩ ++
          [(keyWords digitLanguage ⟨List.replicate 32 7, by simp⟩).getD
            (createChecksumIndex (keyWords digitLanguage ⟨List.replicate 32 7, by simp⟩)
              digitLanguage.uniquePrefixLength).toNat []]) ∧
        ((∀ other ∈ [digitLanguage], other ≠ digitLanguage →
            (matchSeed other (splitCompress (trim words)) true).isSome →
              checksumTest (splitCompress (trim words)) other.uniquePrefixLength = false) →
          wordsToBytes [digitLanguage] words ⟨List.replicate 32 0, by simp⟩ [] =
            (true, ⟨List.replicate 32 7, by simp⟩, digitLanguage.languageName)) :=
  ⟨by simp, valid_digitLanguage,
    wordsToBytes_bytesToWords (by simp) valid_digitLanguage ⟨List.replicate 32 7, by simp⟩
      ⟨List.replicate 32 0, by simp⟩ []⟩

end Crypto.ElectrumWords
