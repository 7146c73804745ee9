import CryptoNote.Lib.BlockCodec
import CryptoNote.Crypto.Types

/-!
# Electrum seed words (`Mnemonics/electrum-words.cpp`, `Mnemonics/language_base.h`)

`bytes_to_words` writes a 32-byte secret key as 24 words of a language's list of
1626 words, three words for each four bytes, and appends a checksum word picked
by the CRC-32 of the words' prefixes.  The four bytes are read as a `uint32_t`
whose three base-1626 digits go out as running sums modulo 1626; 1626 is the
least word count whose cube reaches `2 ^ 32`.  `words_to_bytes` splits a seed of
12, 24 or 25 words, takes the first language in the map's order that knows every
word (by its prefix when a checksum word is there) and passes the checksum test,
and undoes the sums.

Strings are byte lists, and the language map is a list in its iteration order,
which `std::unordered_map` leaves to the implementation.  Writing a key as words
and reading them back gives the key, unless another language also accepts the
seed (`wordsToBytes_bytesToWords`).  The word lists must have distinct prefixes
for that: `populate_maps` does not check it, since its duplicate test throws only
when `ALLOW_DUPLICATE_PREFIXES` is set.
-/

set_option autoImplicit false

namespace Language

def ascii (s : String) : List UInt8 := s.toList.map fun c => c.toNat.toUInt8

/-- The loop of `utf8prefix`: a byte `10xxxxxx` after a character continues it, any
other byte starts a new one, which is taken while `count` lasts and the byte is
not NUL. -/
def utf8prefixFrom (continuing : Bool) : List UInt8 → Nat → List UInt8
  | [], _ => []
  | b :: rest, count =>
    if continuing && b &&& 0xc0 == 0x80 then b :: utf8prefixFrom true rest count
    else
      match count with
      | 0 => []
      | count + 1 => if b == 0 then [] else b :: utf8prefixFrom true rest count

def utf8prefix (s : List UInt8) (count : Nat) : List UInt8 := utf8prefixFrom false s count

def ALLOW_SHORT_WORDS : UInt32 := (1 : UInt32) <<< (0 : UInt32)

def ALLOW_DUPLICATE_PREFIXES : UInt32 := (1 : UInt32) <<< (1 : UInt32)

/-- `Language::Base`: a word list and the prefix length that tells its words apart. -/
structure Base where
  languageName : List UInt8
  wordList : List (List UInt8)
  uniquePrefixLength : Nat

/-- A word cut to `prefixLength` characters when it is longer than that in bytes. -/
def trimmedWord (prefixLength : Nat) (word : List UInt8) : List UInt8 :=
  if word.length > prefixLength then utf8prefix word prefixLength else word

/-- A lookup in an `unordered_map<std::string, uint32_t>` that was given each key's
index in turn, a later key overwriting an earlier one. -/
def indexMap (keys : List (List UInt8)) (key : List UInt8) : Option UInt32 :=
  keys.zipIdx.foldl (fun found entry => if entry.1 = key then some entry.2.toUInt32 else found) none

namespace Base

variable (lang : Base)

/-- `word_map` as `populate_maps` fills it. -/
def getWordMap : List UInt8 → Option UInt32 := indexMap lang.wordList

/-- `trimmed_word_map` as `populate_maps` fills it. -/
def getTrimmedWordMap : List UInt8 → Option UInt32 :=
  indexMap (lang.wordList.map (trimmedWord lang.uniquePrefixLength))

/-- One word of the loop of `populate_maps`, with the prefixes of the words before
it: a word shorter than the prefix length throws unless `ALLOW_SHORT_WORDS` is
set, and a repeated prefix throws only when `ALLOW_DUPLICATE_PREFIXES` is. -/
def populateWord (flags : UInt32) (trimmedSeen : List (List UInt8)) (word : List UInt8) :
    Except (List UInt8) (List (List UInt8)) :=
  if word.length < lang.uniquePrefixLength ∧ flags &&& ALLOW_SHORT_WORDS = 0 then
    throw (ascii "Too short word in " ++ lang.languageName ++ ascii " word list: " ++ word)
  else
    let trimmed := trimmedWord lang.uniquePrefixLength word
    if trimmed ∈ trimmedSeen ∧ flags &&& ALLOW_DUPLICATE_PREFIXES ≠ 0 then
      throw (ascii "Duplicate prefix in " ++ lang.languageName ++ ascii " word list: " ++ trimmed)
    else pure (trimmedSeen ++ [trimmed])

/-- The checks of `populate_maps`, whose throws leave the language unbuilt. -/
def populateMaps (flags : UInt32) : Except (List UInt8) Unit :=
  if lang.wordList.length ≠ 1626 then throw (ascii "Wrong word list length for " ++ lang.languageName)
  else (lang.wordList.foldlM (lang.populateWord flags) []).map fun _ => ()

/-! ### What `populate_maps` accepts -/

variable {lang}

theorem populateWord_eq_ok {flags : UInt32} {seen next : List (List UInt8)} {word : List UInt8} :
    lang.populateWord flags seen word = .ok next ↔
      (flags &&& ALLOW_SHORT_WORDS = 0 → lang.uniquePrefixLength ≤ word.length) ∧
        (flags &&& ALLOW_DUPLICATE_PREFIXES ≠ 0 → trimmedWord lang.uniquePrefixLength word ∉ seen) ∧
        seen ++ [trimmedWord lang.uniquePrefixLength word] = next := by
  unfold populateWord
  by_cases short : word.length < lang.uniquePrefixLength ∧ flags &&& ALLOW_SHORT_WORDS = 0
  · simp only [if_pos short, throw, throwThe, MonadExceptOf.throw, reduceCtorEq, false_iff, not_and]
    exact fun long => absurd (long short.2) (by omega)
  · by_cases repeated : trimmedWord lang.uniquePrefixLength word ∈ seen ∧ flags &&& ALLOW_DUPLICATE_PREFIXES ≠ 0
    · simp only [if_neg short, if_pos repeated, throw, throwThe, MonadExceptOf.throw, reduceCtorEq, false_iff,
        not_and]
      exact fun _ fresh => absurd repeated.1 (fresh repeated.2)
    · simp only [if_neg short, if_neg repeated, pure, Except.pure, Except.ok.injEq]
      simp only [not_and, not_not] at short repeated
      exact ⟨fun same => ⟨fun flagged => Nat.le_of_not_lt fun below => short below flagged,
        fun flagged inSeen => flagged (repeated inSeen), same⟩, fun ⟨_, _, same⟩ => same⟩

theorem foldlM_populateWord_ok (flags : UInt32) :
    ∀ (words seen : List (List UInt8)), (flags &&& ALLOW_DUPLICATE_PREFIXES ≠ 0 → seen.Nodup) →
      ((∃ result, words.foldlM (lang.populateWord flags) seen = .ok result) ↔
        (flags &&& ALLOW_SHORT_WORDS = 0 → ∀ word ∈ words, lang.uniquePrefixLength ≤ word.length) ∧
          (flags &&& ALLOW_DUPLICATE_PREFIXES ≠ 0 →
            (seen ++ words.map (trimmedWord lang.uniquePrefixLength)).Nodup))
  | [], seen, distinct => by
    simp only [List.foldlM_nil, List.not_mem_nil, IsEmpty.forall_iff, implies_true, List.map_nil,
      List.append_nil, true_and]
    exact ⟨fun _ => distinct, fun _ => ⟨seen, rfl⟩⟩
  | word :: rest, seen, distinct => by
    have prefixes : seen ++ (word :: rest).map (trimmedWord lang.uniquePrefixLength) =
        seen ++ [trimmedWord lang.uniquePrefixLength word] ++ rest.map (trimmedWord lang.uniquePrefixLength) := by
      simp
    rw [List.foldlM_cons, prefixes]
    cases stepped : lang.populateWord flags seen word with
    | error e =>
      -- the first word fails a check, and the conditions fail at it too
      refine iff_of_false (fun ⟨_, ran⟩ => nomatch ran) fun ⟨long, distinctAll⟩ => ?_
      have fresh : flags &&& ALLOW_DUPLICATE_PREFIXES ≠ 0 → trimmedWord lang.uniquePrefixLength word ∉ seen :=
        fun flagged => by
          have := distinctAll flagged
          rw [List.append_assoc, List.singleton_append, List.nodup_middle, List.nodup_cons] at this
          exact fun inSeen => this.1 (List.mem_append_left _ inSeen)
      have passed := populateWord_eq_ok.mpr ⟨fun flagged => long flagged word List.mem_cons_self, fresh, rfl⟩
      rw [stepped] at passed
      exact nomatch passed
    | ok next =>
      obtain ⟨long, fresh, rfl⟩ := populateWord_eq_ok.mp stepped
      have distinctNext : flags &&& ALLOW_DUPLICATE_PREFIXES ≠ 0 →
          (seen ++ [trimmedWord lang.uniquePrefixLength word]).Nodup := fun flagged => by
        rw [← List.concat_eq_append]
        exact (List.nodup_concat _ _).mpr ⟨fresh flagged, distinct flagged⟩
      simp only [bind, Except.bind]
      rw [foldlM_populateWord_ok flags rest _ distinctNext]
      simp only [List.mem_cons, forall_eq_or_imp]
      exact ⟨fun ⟨longRest, d⟩ => ⟨fun f => ⟨long f, longRest f⟩, d⟩, fun ⟨longAll, d⟩ => ⟨fun f => (longAll f).2, d⟩⟩

/-- `populate_maps` accepts a word list exactly when it has 1626 words, none
shorter than the prefix length unless `ALLOW_SHORT_WORDS` is set, and, only when
`ALLOW_DUPLICATE_PREFIXES` is set, no prefix twice: without that flag, repeated
prefixes pass. -/
theorem populateMaps_ok_iff (lang : Base) (flags : UInt32) :
    lang.populateMaps flags = .ok () ↔
      lang.wordList.length = 1626 ∧
        (flags &&& ALLOW_SHORT_WORDS = 0 → ∀ word ∈ lang.wordList, lang.uniquePrefixLength ≤ word.length) ∧
        (flags &&& ALLOW_DUPLICATE_PREFIXES ≠ 0 → (lang.wordList.map (trimmedWord lang.uniquePrefixLength)).Nodup) := by
  have loop := @foldlM_populateWord_ok lang flags lang.wordList [] fun _ => List.nodup_nil
  rw [List.nil_append] at loop
  unfold populateMaps
  by_cases sized : lang.wordList.length = 1626
  · rw [if_neg (not_not.mpr sized), ← loop]
    cases ran : lang.wordList.foldlM (lang.populateWord flags) [] with
    | error e => simp [Except.map]
    | ok result => simp [Except.map, sized]
  · rw [if_pos sized]
    simp [throw, throwThe, MonadExceptOf.throw, sized]

end Base

end Language

namespace Crypto.ElectrumWords

open Language BlockCodec

def seedLength : Nat := 24

/-- `boost::crc_32_type`: the reflected CRC-32 of polynomial `0x04C11DB7`, started
at and finished with `0xFFFFFFFF`. -/
def crc32 (bytes : List UInt8) : UInt32 :=
  bytes.foldl (fun crc byte =>
      (List.range 8).foldl (fun crc _ =>
          if crc &&& 1 == 1 then (crc >>> (1 : UInt32)) ^^^ (0xEDB88320 : UInt32) else crc >>> (1 : UInt32))
        (crc ^^^ byte.toUInt32))
    (0xFFFFFFFF : UInt32) ^^^ (0xFFFFFFFF : UInt32)

example : crc32 (ascii "123456789") = 0xCBF43926 := by decide +kernel

def isSpace (b : UInt8) : Bool := b == 32 || (9 ≤ b && b ≤ 13)

def trim (s : List UInt8) : List UInt8 := (s.dropWhile isSpace).rdropWhile isSpace

/-- `boost::split` at spaces with `token_compress_on`: a run of spaces inside the
text separates once, a run at either end leaves an empty token there. -/
def splitCompress (s : List UInt8) : List (List UInt8) :=
  match s.splitOn 32 with
  | [] => []
  | first :: rest => first :: rest.dropLast.filter (· ≠ []) ++ rest.getLast?.toList

/-- The four bytes of a `uint32_t` in memory, least significant first. -/
def uint32Bytes (val : UInt32) : List UInt8 := (digitsLE 256 4 val.toNat).map Nat.toUInt8

/-- A `uint32_t` copied out of four bytes of memory. -/
def uint32OfBytes (bytes : List UInt8) : UInt32 := (Nat.ofDigits 256 (bytes.map UInt8.toNat)).toUInt32

def copyBytes : List UInt8 → Nat → List UInt8 → List UInt8
  | data, _, [] => data
  | data, pos, b :: rest => copyBytes (data.set pos b) (pos + 1) rest

theorem length_copyBytes : ∀ (data : List UInt8) (pos : Nat) (bytes : List UInt8),
    (copyBytes data pos bytes).length = data.length
  | _, _, [] => rfl
  | data, pos, b :: rest => by
    rw [copyBytes, length_copyBytes (data.set pos b) (pos + 1) rest, List.length_set]

/-- `memcpy` into a secret key, which keeps its 32 bytes. -/
def memcpy (key : SecretKey) (pos : Nat) (bytes : List UInt8) : SecretKey :=
  ⟨copyBytes key.data pos bytes, (length_copyBytes _ _ _).trans key.size_eq⟩

/-- `create_checksum_index`: the CRC-32 of the words' prefixes, modulo `seed_length`. -/
def createChecksumIndex (wordList : List (List UInt8)) (uniquePrefixLength : Nat) : UInt32 :=
  crc32 (wordList.flatMap (trimmedWord uniquePrefixLength)) % seedLength.toUInt32

/-- `checksum_test`: the last word has the prefix of the word the checksum index
picks among the others. -/
def checksumTest (seed : List (List UInt8)) (uniquePrefixLength : Nat) : Bool :=
  let lastWord := seed.getLastD []
  let seed := seed.dropLast
  let checksum := seed.getD (createChecksumIndex seed uniquePrefixLength).toNat []
  trimmedWord uniquePrefixLength checksum == trimmedWord uniquePrefixLength lastWord

/-- The inner loop of `find_seed_language`: the index of each seed word, by its
prefix when the seed has a checksum word, or `none` at the first unknown word. -/
def matchSeed (lang : Base) (seed : List (List UInt8)) (hasChecksum : Bool) : Option (List UInt32) :=
  seed.mapM fun word =>
    if hasChecksum then lang.getTrimmedWordMap ( utf8prefix word lang.uniquePrefixLength)
    else lang.getWordMap word

/-- `find_seed_language`: the first language that knows every word and, with a
checksum word, passes the checksum test; failing that, the last language that
knew every word, with no indices. -/
def findSeedLanguage (seed : List (List UInt8)) (hasChecksum : Bool) :
    List Base → Option Base → Option (Base × List UInt32)
  | [], fallback => fallback.map fun lang => (lang, [])
  | lang :: rest, fallback =>
    match matchSeed lang seed hasChecksum with
    | none => findSeedLanguage seed hasChecksum rest fallback
    | some matched =>
      -- if we were using prefix only, and we have a checksum, check it now
      if hasChecksum && !checksumTest seed lang.uniquePrefixLength then
        findSeedLanguage seed hasChecksum rest (some lang)
      else some (lang, matched)

/-- The three word indices of a four-byte value: its base-`wordListLength` digits
as running sums. -/
def chunkIndices (wordListLength val : UInt32) : List UInt32 :=
  let w1 := val % wordListLength
  let w2 := ((val / wordListLength) + w1) % wordListLength
  let w3 := (((val / wordListLength) / wordListLength) + w2) % wordListLength
  [w1, w2, w3]

/-- The value three word indices stand for, in `uint32_t` arithmetic. -/
def chunkValue (wordListLength w1 w2 w3 : UInt32) : UInt32 :=
  w1 + wordListLength * (((wordListLength - w1) + w2) % wordListLength) +
    wordListLength * wordListLength * (((wordListLength - w2) + w3) % wordListLength)

/-- The loop of `words_to_bytes` from chunk `i` on: each chunk's value is copied to
bytes `4 i` to `4 i + 3` of `dst`; a value whose remainder is not the first index
ends the loop with what was copied so far. -/
def decodeChunks (wordListLength : UInt32) (matchedIndices : List UInt32) :
    Nat → Nat → SecretKey → Bool × SecretKey
  | 0, _, dst => (true, dst)
  | count + 1, i, dst =>
    let w1 := matchedIndices.getD (i * 3) 0
    let val := chunkValue wordListLength w1 (matchedIndices.getD (i * 3 + 1) 0) (matchedIndices.getD (i * 3 + 2) 0)
    if !(val % wordListLength == w1) then (false, dst)
    else decodeChunks wordListLength matchedIndices count (i + 1) (memcpy dst (i * 4) (uint32Bytes val))

/-- `words_to_bytes`: whether the seed was read, the key, and the language name,
which is set as soon as a language is found. -/
def wordsToBytes (languages : List Base) (words : List UInt8) (dst : SecretKey) (languageName : List UInt8) :
    Bool × SecretKey × List UInt8 :=
  let seed := splitCompress (trim words)
  -- error on non-compliant word list
  if seed.length ≠ seedLength / 2 ∧ seed.length ≠ seedLength ∧ seed.length ≠ seedLength + 1 then
    (false, dst, languageName)
  else
    let hasChecksum := seed.length == seedLength + 1
    match findSeedLanguage seed hasChecksum languages none with
    | none => (false, dst, languageName)
    | some (language, matchedIndices) =>
      let languageName := language.languageName
      let wordListLength := language.wordList.length.toUInt32
      if hasChecksum && !checksumTest seed language.uniquePrefixLength then (false, dst, languageName)
      else
        let seed := if hasChecksum then seed.dropLast else seed
        match decodeChunks wordListLength matchedIndices (seed.length / 3) 0 dst with
        | (false, dst) => (false, dst, languageName)
        | (true, dst) =>
          -- if electrum 12-word seed, duplicate
          let dst := if seed.length = seedLength / 2 then memcpy dst 16 (dst.data.take 16) else dst
          (true, dst, languageName)

/-- `bytes_to_words`, appending to `words`.  The size check on `src` passes for a
32-byte key. -/
def bytesToWords (languages : List Base) (src : SecretKey) (words languageName : List UInt8) :
    Bool × List UInt8 :=
  match languages.find? (·.languageName == languageName) with
  | none => (false, words)
  | some language =>
    let wordList := language.wordList
    let wordListLength := wordList.length.toUInt32
    -- 8 bytes -> 3 words.  8 digits base 16 -> 3 digits base 1626
    let wordsStore := ((List.range (32 / 4)).flatMap fun i =>
      chunkIndices wordListLength (uint32OfBytes (block 4 src.data i))).map fun w => wordList.getD w.toNat []
    -- each word followed by a space, the last one popped
    let words := (words ++ wordsStore.flatMap (· ++ [32])).dropLast
    (true, words ++ 32 :: wordsStore.getD (createChecksumIndex wordsStore language.uniquePrefixLength).toNat [])

def getLanguageList (languages : List Base) : List (List UInt8) := languages.map (·.languageName)

def getIsOldStyleSeed (seed : List UInt8) : Bool := (splitCompress (trim seed)).length != seedLength + 1

end Crypto.ElectrumWords
