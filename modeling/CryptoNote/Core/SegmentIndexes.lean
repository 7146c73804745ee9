import CryptoNote.Core.ChainLedger

/-!
# Global indexes stored in segments

The outputs of one kind and amount are numbered along the whole chain, and
every segment stores the ones of its blocks with the number of those before
it.  `windowEntry outs start stop` is the entry a segment holding the blocks of
`[start, stop)` should have, for the chain's outputs `outs` of the amount in
chain order; `IndexChain` says that every segment of a chain has its entry and
finds the transactions of its outputs.  Over such a chain the count, the key
extraction and the multisignature lookup read the numbering of `outs`: segments
are invisible to them.
-/

set_option autoImplicit false

namespace CryptoNote

open ListAlgorithms BlockchainCache

/-- The entry of one amount in a segment holding the blocks of `[start, stop)`. -/
def windowEntry (outs : List PackedOutIndex) (start stop : Nat) : Option OutputGlobalIndexesForAmount :=
  if window PackedOutIndex.blockIndex outs start stop = [] then none
  else some ⟨(outs.filter fun p => p.blockIndex < start).length, window PackedOutIndex.blockIndex outs start stop⟩

section Entry

variable {outs : List PackedOutIndex} {start stop : Nat}

theorem windowEntry_append_of_le {more : List PackedOutIndex} (le : start ≤ stop)
    (above : ∀ p ∈ more, stop ≤ p.blockIndex) :
    windowEntry (outs ++ more) start stop = windowEntry outs start stop := by
  have low : ∀ p ∈ more, start ≤ p.blockIndex := fun p mem => le.trans (above p mem)
  rw [windowEntry, window_append_of_le above, filter_lt_append_of_le low, windowEntry]

theorem windowEntry_of_lt {stop' : Nat} (below : ∀ p ∈ outs, p.blockIndex < stop) (le : stop ≤ stop') :
    windowEntry outs start stop' = windowEntry outs start stop := by
  rw [windowEntry, window_of_lt below le, windowEntry]

theorem insertToGlobalIndex_windowEntry {p : PackedOutIndex}
    (inside : start ≤ p.blockIndex ∧ p.blockIndex < stop) (earlier : ∀ q ∈ outs, q.blockIndex < stop) :
    ∃ entry, windowEntry (outs ++ [p]) start stop = some entry ∧
      insertToGlobalIndex (windowEntry outs start stop) (outs.filter fun q => q.blockIndex < start).length p =
        (entry, outs.length) := by
  have below : (outs.filter fun q => q.blockIndex < stop) = outs := by
    rw [List.filter_eq_self]
    simpa using earlier
  have counted := @length_filter_lt_add_length_window _ PackedOutIndex.blockIndex outs _ _
    (inside.1.trans (Nat.le_of_lt inside.2))
  rw [below] at counted
  have windowAppend : window PackedOutIndex.blockIndex (outs ++ [p]) start stop =
      window PackedOutIndex.blockIndex outs start stop ++ [p] := by
    simp [window, List.filter_append, inside.1, inside.2]
  have lowAppend : ((outs ++ [p]).filter fun q => q.blockIndex < start) = outs.filter fun q => q.blockIndex < start := by
    simp [List.filter_append, Nat.not_lt.mpr inside.1]
  unfold windowEntry
  rw [windowAppend, lowAppend]
  by_cases empty : window PackedOutIndex.blockIndex outs start stop = []
  · simp only [empty, List.length_nil, Nat.add_zero] at counted
    refine ⟨⟨(outs.filter fun q => q.blockIndex < start).length, [p]⟩, by simp [empty], ?_⟩
    simp [insertToGlobalIndex, empty, counted]
  · refine ⟨⟨(outs.filter fun q => q.blockIndex < start).length,
      window PackedOutIndex.blockIndex outs start stop ++ [p]⟩, by simp [empty], ?_⟩
    simp only [empty, insertToGlobalIndex, if_false, List.length_append, List.length_singleton,
      Prod.mk.injEq, true_and]
    omega

theorem splitGlobalIndexes_windowEntry {container : UInt64 → Option OutputGlobalIndexesForAmount}
    {amount : UInt64} {splitBlockIndex : Nat}
    (sorted : outs.Pairwise fun p q => p.blockIndex ≤ q.blockIndex)
    (low : start ≤ splitBlockIndex) (high : splitBlockIndex ≤ stop)
    (entry : container amount = windowEntry outs start stop) :
    (splitGlobalIndexes container splitBlockIndex).1 amount = windowEntry outs start splitBlockIndex ∧
      (splitGlobalIndexes container splitBlockIndex).2 amount = windowEntry outs splitBlockIndex stop := by
  have windowSorted := sorted.filter fun p => decide (start ≤ p.blockIndex ∧ p.blockIndex < stop)
  -- the cut of the stored outputs is where the two smaller windows meet
  have taken := take_lowerBound windowSorted splitBlockIndex
  have dropped := drop_lowerBound windowSorted splitBlockIndex
  rw [← window, filter_lt_window outs high] at taken
  rw [← window, filter_ge_window outs low] at dropped
  have lengths := List.length_eq_length_filter_add (l := window PackedOutIndex.blockIndex outs start stop)
    (fun p => decide (p.blockIndex < splitBlockIndex))
  have rest : ((window PackedOutIndex.blockIndex outs start stop).filter fun p => !decide (p.blockIndex < splitBlockIndex)) =
      window PackedOutIndex.blockIndex outs splitBlockIndex stop := by
    rw [← filter_ge_window outs low]
    apply List.filter_congr
    intro p _
    by_cases below : p.blockIndex < splitBlockIndex
    · simp [below]
    · have : splitBlockIndex ≤ p.blockIndex := by omega
      simp [below, this]
  rw [filter_lt_window outs high, rest] at lengths
  have counted := @length_filter_lt_add_length_window _ PackedOutIndex.blockIndex outs _ _ low
  simp only [splitGlobalIndexes, entry, windowEntry]
  by_cases empty : window PackedOutIndex.blockIndex outs start stop = []
  · have lowerEmpty : window PackedOutIndex.blockIndex outs start splitBlockIndex = [] := by
      rw [← filter_lt_window outs high, empty, List.filter_nil]
    have upperEmpty : window PackedOutIndex.blockIndex outs splitBlockIndex stop = [] := by
      rw [← filter_ge_window outs low, empty, List.filter_nil]
    simp [empty, lowerEmpty, upperEmpty]
  · simp only [empty, if_false, Option.bind_some, taken, dropped]
    refine ⟨trivial, ?_⟩
    by_cases upperEmpty : window PackedOutIndex.blockIndex outs splitBlockIndex stop = []
    · simp [upperEmpty]
    · simp only [upperEmpty, if_false, Option.some.injEq, OutputGlobalIndexesForAmount.mk.injEq, and_true]
      omega

end Entry

/-! ## Chains of entries -/

/-- Along a chain, every segment holds the entry of its window of `outs`, the
window ending where the segment above it starts, and finds the transaction
`infoAt` gives for each of its outputs. -/
def IndexChain (container : BlockchainCache → UInt64 → Option OutputGlobalIndexesForAmount)
    (amount : UInt64) (outs : List PackedOutIndex) (infoAt : PackedOutIndex → Option CachedTransactionInfo) :
    List BlockchainCache → Nat → Prop
  | [], stop => stop = 0
  | cache :: parent, stop =>
      cache.startIndex ≤ stop ∧ container cache amount = windowEntry outs cache.startIndex stop ∧
        (∀ p ∈ window PackedOutIndex.blockIndex outs cache.startIndex stop,
          cache.findTransactionInBlock p.blockIndex p.transactionIndex = infoAt p) ∧
        IndexChain container amount outs infoAt parent cache.startIndex

section Chain

variable {container : BlockchainCache → UInt64 → Option OutputGlobalIndexesForAmount} {amount : UInt64}
  {outs : List PackedOutIndex} {infoAt : PackedOutIndex → Option CachedTransactionInfo}

theorem filter_lt_of_windowEntry_eq_none {start stop : Nat} (le : start ≤ stop)
    (sorted : outs.Pairwise fun p q => p.blockIndex ≤ q.blockIndex) (none : windowEntry outs start stop = none) :
    (outs.filter fun p => p.blockIndex < stop) = outs.filter fun p => p.blockIndex < start := by
  have empty : window PackedOutIndex.blockIndex outs start stop = [] := by
    unfold windowEntry at none
    split at none
    · assumption
    · contradiction
  rw [filter_lt_eq_append_window sorted le, empty, List.append_nil]

theorem IndexChain.startIndex_le {chain : List BlockchainCache} {stop : Nat}
    (indexed : IndexChain container amount outs infoAt chain stop) :
    ∀ cache ∈ chain.head?, cache.startIndex ≤ stop := by
  cases chain with
  | nil => simp
  | cons cache parent => simpa using indexed.1

theorem getOutputsCountForAmount_eq (sorted : outs.Pairwise fun p q => p.blockIndex ≤ q.blockIndex) :
    ∀ (chain : List BlockchainCache) (stop blockIndex : Nat),
      IndexChain container amount outs infoAt chain stop →
      (∀ cache ∈ chain.head?, cache.startIndex ≤ blockIndex) →
      getOutputsCountForAmount container chain amount blockIndex =
        (outs.filter fun p => p.blockIndex < blockIndex ∧ p.blockIndex < stop).length := by
  intro chain
  induction chain with
  | nil =>
      intro stop blockIndex indexed _
      subst indexed
      simp [getOutputsCountForAmount]
  | cons cache parent ih =>
      intro stop blockIndex indexed above
      obtain ⟨le, entry, -, rest⟩ := indexed
      have started : cache.startIndex ≤ blockIndex := above cache rfl
      -- below `stop` the outputs are those below the start and the window
      have parts := filter_lt_eq_append_window sorted le
      have belowBound : ∀ l : List PackedOutIndex,
          (l.filter fun p => p.blockIndex < blockIndex ∧ p.blockIndex < stop) =
            (l.filter fun p => p.blockIndex < stop).filter fun p => p.blockIndex < blockIndex := by
        intro l
        rw [List.filter_filter]
        apply List.filter_congr
        intro p _
        simp only [Bool.decide_and, Bool.and_comm]
      rw [belowBound, parts, List.filter_append]
      have lowerAll : ((outs.filter fun p => p.blockIndex < cache.startIndex).filter
          fun p => p.blockIndex < blockIndex) = outs.filter fun p => p.blockIndex < cache.startIndex := by
        rw [List.filter_filter]
        apply List.filter_congr
        intro p _
        by_cases below : p.blockIndex < cache.startIndex
        · have : p.blockIndex < blockIndex := by omega
          simp [below, this]
        · simp [below]
      rw [lowerAll]
      cases stored : container cache amount with
      | none =>
          have empty : window PackedOutIndex.blockIndex outs cache.startIndex stop = [] := by
            rw [entry] at stored
            unfold windowEntry at stored
            split at stored
            · assumption
            · contradiction
          have parentAbove : ∀ c ∈ parent.head?, c.startIndex ≤ blockIndex := fun c mem =>
            (IndexChain.startIndex_le rest c mem).trans started
          have lowerOnly : (outs.filter fun p => p.blockIndex < blockIndex ∧ p.blockIndex < cache.startIndex) =
              outs.filter fun p => p.blockIndex < cache.startIndex := by
            apply List.filter_congr
            intro p _
            by_cases below : p.blockIndex < cache.startIndex
            · have : p.blockIndex < blockIndex := by omega
              simp [below, this]
            · simp [below]
          rw [getOutputsCountForAmount, stored, ih cache.startIndex blockIndex rest parentAbove, lowerOnly,
            empty, List.filter_nil, List.append_nil]
      | some stored' =>
          rw [entry] at stored
          unfold windowEntry at stored
          split at stored
          · contradiction
          · cases stored
            have windowSorted : (window PackedOutIndex.blockIndex outs cache.startIndex stop).Pairwise
                fun p q => p.blockIndex ≤ q.blockIndex := sorted.filter _
            rw [getOutputsCountForAmount, entry, windowEntry]
            simp only [‹¬window PackedOutIndex.blockIndex outs cache.startIndex stop = []›, if_false,
              List.length_append]
            rw [lowerBound_eq_length_filter windowSorted]

theorem getElem?_filter_lt_of_lt {start stop j : Nat} (le : start ≤ stop)
    (sorted : outs.Pairwise fun p q => p.blockIndex ≤ q.blockIndex)
    (below : j < (outs.filter fun p => p.blockIndex < start).length) :
    (outs.filter fun p => p.blockIndex < stop)[j]? = (outs.filter fun p => p.blockIndex < start)[j]? := by
  rw [filter_lt_eq_append_window sorted le, List.getElem?_append_left below]

theorem getElem?_filter_lt_of_le {start stop j : Nat} (le : start ≤ stop)
    (sorted : outs.Pairwise fun p q => p.blockIndex ≤ q.blockIndex)
    (above : (outs.filter fun p => p.blockIndex < start).length ≤ j) :
    (outs.filter fun p => p.blockIndex < stop)[j]? =
      (window PackedOutIndex.blockIndex outs start stop)[j - (outs.filter fun p => p.blockIndex < start).length]? := by
  rw [filter_lt_eq_append_window sorted le, List.getElem?_append_right above]

/-! ## Extracting key outputs -/

/-- What extracting global index `j` should do on a chain ending at `stop`: take
the `j`-th output of the amount, look its transaction up and call back. -/
def extractStep {α : Type} (outs : List PackedOutIndex) (stop : Nat)
    (infoAt : PackedOutIndex → Option CachedTransactionInfo)
    (pred : CachedTransactionInfo → PackedOutIndex → Nat → Except ExtractOutputKeysResult α) (j : Nat) :
    Except ExtractOutputKeysResult α :=
  match (outs.filter fun p => p.blockIndex < stop)[j]? with
  | none => .error .INVALID_GLOBAL_INDEX
  | some p =>
      match infoAt p with
      | none => .error .INVALID_GLOBAL_INDEX
      | some info => pred info p j

def extractResult {α : Type} (run : Option ExtractOutputKeysResult × List α) : ExtractOutputKeysResult × List α :=
  (run.1.getD .SUCCESS, run.2)

section Extract

variable {α : Type} {pred : CachedTransactionInfo → PackedOutIndex → Nat → Except ExtractOutputKeysResult α}

theorem extractKeyOutput_eq_extractStep {cache : BlockchainCache} {start stop j : Nat}
    (le : start ≤ stop) (sorted : outs.Pairwise fun p q => p.blockIndex ≤ q.blockIndex)
    (found : ∀ p ∈ window PackedOutIndex.blockIndex outs start stop,
      cache.findTransactionInBlock p.blockIndex p.transactionIndex = infoAt p)
    (above : (outs.filter fun p => p.blockIndex < start).length ≤ j) :
    cache.extractKeyOutput ⟨(outs.filter fun p => p.blockIndex < start).length,
        window PackedOutIndex.blockIndex outs start stop⟩ pred j =
      extractStep outs stop infoAt pred j := by
  unfold extractKeyOutput extractStep
  rw [getElem?_filter_lt_of_le le sorted above]
  cases stored : (window PackedOutIndex.blockIndex outs start stop)[j -
      (outs.filter fun p => p.blockIndex < start).length]? with
  | none => rfl
  | some p =>
      have mem : p ∈ window PackedOutIndex.blockIndex outs start stop := List.mem_of_getElem? stored
      cases info : infoAt p <;> simp only [found p mem, info]

theorem extractKeyOutputs_eq (sorted : outs.Pairwise fun p q => p.blockIndex ≤ q.blockIndex)
    (failing : ∀ info p j, pred info p j ≠ .error .SUCCESS) :
    ∀ (chain : List BlockchainCache) (stop blockIndex : Nat) (globalIndexes : List Nat),
      IndexChain keyOutputsGlobalIndexes amount outs infoAt chain stop →
      (∀ cache ∈ chain.head?, cache.startIndex ≤ blockIndex) →
      globalIndexes ≠ [] → globalIndexes.Pairwise (· < ·) →
      extractKeyOutputs pred chain amount blockIndex globalIndexes =
        extractResult (mapUntilError (extractStep outs stop infoAt pred) globalIndexes) := by
  intro chain
  induction chain with
  | nil =>
      intro stop blockIndex globalIndexes indexed _ nonempty _
      subst indexed
      obtain ⟨j, js, rfl⟩ := List.exists_cons_of_ne_nil nonempty
      have invalid : extractStep outs 0 infoAt pred j = .error .INVALID_GLOBAL_INDEX := by
        simp [extractStep]
      rw [mapUntilError_cons_error _ invalid]
      rfl
  | cons cache parent ih =>
      intro stop blockIndex globalIndexes indexed above nonempty increasing
      obtain ⟨le, entry, found, rest⟩ := indexed
      have started : cache.startIndex ≤ blockIndex := above cache rfl
      have parentAbove : ∀ c ∈ parent.head?, c.startIndex ≤ blockIndex := fun c mem =>
        (IndexChain.startIndex_le rest c mem).trans started
      cases stored : cache.keyOutputsGlobalIndexes amount with
      | none =>
          -- no outputs of the amount here: the parent answers, and the chain's steps are its steps
          have same := filter_lt_of_windowEntry_eq_none le sorted (entry ▸ stored)
          have steps : extractStep outs stop infoAt pred = extractStep outs cache.startIndex infoAt pred := by
            funext j
            simp only [extractStep, same]
          rw [extractKeyOutputs, stored, steps]
          exact ih cache.startIndex blockIndex globalIndexes rest parentAbove nonempty increasing
      | some stored' =>
          rw [entry] at stored
          unfold windowEntry at stored
          split at stored
          · contradiction
          · cases stored
            simp only [extractKeyOutputs, entry, windowEntry, ‹¬window PackedOutIndex.blockIndex outs cache.startIndex stop = []›,
              if_false, Nat.not_lt.mpr started]
            -- the requested indexes below the segment's first global index go to the parent
            have weak : globalIndexes.Pairwise fun x y => id x ≤ id y := increasing.imp Nat.le_of_lt
            rw [take_lowerBound weak, drop_lowerBound weak, lowerBound_eq_length_filter weak]
            simp only [id]
            set first := (outs.filter fun p => p.blockIndex < cache.startIndex).length
            set low := globalIndexes.filter fun j => j < first
            set high := globalIndexes.filter fun j => first ≤ j
            have parts : globalIndexes = low ++ high := (@filter_lt_append_filter_ge _ id _ weak first).symm
            have own : mapUntilError (cache.extractKeyOutput ⟨first, window PackedOutIndex.blockIndex outs cache.startIndex stop⟩ pred) high =
                mapUntilError (extractStep outs stop infoAt pred) high := by
              apply mapUntilError_congr
              intro j mem
              exact extractKeyOutput_eq_extractStep le sorted found (by simpa [high] using (List.mem_filter.mp mem).2)
            have fromParent : (if low.length = 0 then ((ExtractOutputKeysResult.SUCCESS, []) : ExtractOutputKeysResult × List α)
                else extractKeyOutputs pred parent amount blockIndex low) =
                extractResult (mapUntilError (extractStep outs stop infoAt pred) low) := by
              by_cases none : low.length = 0
              · rw [if_pos none, List.length_eq_zero_iff.mp none]
                rfl
              · have same : mapUntilError (extractStep outs cache.startIndex infoAt pred) low =
                    mapUntilError (extractStep outs stop infoAt pred) low := by
                  apply mapUntilError_congr
                  intro j mem
                  have below : j < first := by simpa [low] using (List.mem_filter.mp mem).2
                  simp only [extractStep, getElem?_filter_lt_of_lt le sorted below]
                rw [if_neg none, ih cache.startIndex blockIndex low rest parentAbove
                  (fun empty => none (by rw [empty, List.length_nil])) (increasing.filter _), same]
            rw [fromParent, own]
            conv_rhs => rw [parts, mapUntilError_append]
            cases ran : mapUntilError (extractStep outs stop infoAt pred) low with
            | mk result values =>
                cases result with
                | none => rfl
                | some e =>
                    -- the parent's part stopped with a real failure code
                    have real : e ≠ .SUCCESS := by
                      obtain ⟨j, -, failed⟩ := mapUntilError_error_mem (congrArg Prod.fst ran)
                      intro isSuccess
                      subst isSuccess
                      unfold extractStep at failed
                      split at failed
                      · simp at failed
                      · split at failed
                        · simp at failed
                        · exact failing _ _ _ failed
                    simp [extractResult, real]

end Extract

/-! ## Looking up multisignature outputs -/

/-- What `getMultisignatureOutputIfExists` should answer on a chain ending at
`stop`: the `globalIndex`-th output of the amount, if its block is not above
`blockIndex` and its transaction holds a multisignature output there. -/
def multisignatureLookup (outs : List PackedOutIndex) (stop : Nat)
    (infoAt : PackedOutIndex → Option CachedTransactionInfo) (globalIndex blockIndex : Nat) :
    Option (MultisignatureOutput × UInt64) :=
  match (outs.filter fun p => p.blockIndex < stop)[globalIndex]? with
  | none => none
  | some packedOut =>
      if packedOut.blockIndex > blockIndex then none
      else
        match infoAt packedOut with
        | none => none
        | some info =>
            match info.outputs[packedOut.outputIndex]? with
            | some (.multisignature output) => some (output, info.unlockTime)
            | _ => none

theorem getMultisignatureOutputIfExists_eq (sorted : outs.Pairwise fun p q => p.blockIndex ≤ q.blockIndex) :
    ∀ (chain : List BlockchainCache) (stop globalIndex blockIndex : Nat),
      IndexChain multisignatureStorage amount outs infoAt chain stop →
      getMultisignatureOutputIfExists chain amount globalIndex blockIndex =
        multisignatureLookup outs stop infoAt globalIndex blockIndex := by
  intro chain
  induction chain with
  | nil =>
      intro stop globalIndex blockIndex indexed
      subst indexed
      simp [getMultisignatureOutputIfExists, multisignatureLookup]
  | cons cache parent ih =>
      intro stop globalIndex blockIndex indexed
      obtain ⟨le, entry, found, rest⟩ := indexed
      cases stored : cache.multisignatureStorage amount with
      | none =>
          have same := filter_lt_of_windowEntry_eq_none le sorted (entry ▸ stored)
          rw [getMultisignatureOutputIfExists, findPackedOutForMultisignatureInCurrentSegment, stored,
            ih cache.startIndex globalIndex blockIndex rest]
          simp only [multisignatureLookup, same]
      | some stored' =>
          rw [entry] at stored
          unfold windowEntry at stored
          split at stored
          · contradiction
          · cases stored
            by_cases inside : (outs.filter fun p => p.blockIndex < cache.startIndex).length ≤ globalIndex
            · -- the index falls in this segment or past the chain's outputs
              simp only [getMultisignatureOutputIfExists, findPackedOutForMultisignatureInCurrentSegment, entry,
                windowEntry, ‹¬window PackedOutIndex.blockIndex outs cache.startIndex stop = []›, if_false,
                if_pos inside]
              unfold multisignatureLookup
              rw [getElem?_filter_lt_of_le le sorted inside]
              cases here : (window PackedOutIndex.blockIndex outs cache.startIndex stop)[globalIndex -
                  (outs.filter fun p => p.blockIndex < cache.startIndex).length]? with
              | none => rfl
              | some packedOut =>
                  have mem := List.mem_of_getElem? here
                  by_cases late : packedOut.blockIndex > blockIndex
                  · simp only [late, if_true]
                  · -- the two sides match on the output with matchers of their own
                    cases info : infoAt packedOut <;> simp only [late, if_false, found packedOut mem, info] <;> rfl
            · have below : globalIndex < (outs.filter fun p => p.blockIndex < cache.startIndex).length := by
                omega
              simp only [getMultisignatureOutputIfExists, findPackedOutForMultisignatureInCurrentSegment, entry,
                windowEntry, ‹¬window PackedOutIndex.blockIndex outs cache.startIndex stop = []›, if_false,
                if_neg inside]
              rw [ih cache.startIndex globalIndex blockIndex rest]
              simp only [multisignatureLookup, getElem?_filter_lt_of_lt le sorted below]

end Chain

end CryptoNote
