import Mathlib

/-! # Jobs on a thread pool, read in order, with a cancel flag

A fork-join pattern: one job per item goes to a thread pool.  A job first
loads a shared cancel flag and returns `false` at once if it is set; otherwise
it runs its check, and a failing check stores its error in one shared cell
before it returns `false`.  The caller then waits on the futures in item order,
and every `false` it reads clears its result and sets the flag.

`jobs[j]` is the outcome of job `j`'s check, `none` when it passes.  A schedule
is the order in which the pool runs jobs and the caller reads futures: a job
runs once, and future `k` is read only after its job has run.  Each event is
atomic, so a schedule is a sequentially consistent interleaving.  The ghost
field `writers` records the jobs that stored to the shared cell.

Whatever the schedule, the caller's result is the conjunction of the checks
(`valid_of_complete`).  The shared cell is not: two failing jobs that run
before the caller reads a failure both store to it, with nothing ordering the
two stores (`two_failures_both_write`), and the cell keeps the last. -/

set_option autoImplicit false

namespace CancellableJobs

structure PoolState (ε : Type) where
  cancel : Bool
  /-- The futures, `none` while the job has not run. -/
  results : List (Option Bool)
  /-- How many futures the caller has read. -/
  collected : Nat
  valid : Bool
  shared : Option ε
  writers : List Nat

inductive Event where
  | run (job : Nat)
  | collect
  deriving DecidableEq, Repr

def collectResult {ε : Type} (s : PoolState ε) (ok : Bool) : PoolState ε :=
  if ok then { s with collected := s.collected + 1 }
  else { s with collected := s.collected + 1, valid := false, cancel := true }

/-- Every job run just before its future is read: a sequential loop. -/
def sequential (n : Nat) : List Event :=
  (List.range n).flatMap fun job => [.run job, .collect]

section Semantics

variable {ε : Type} (jobs : List (Option ε))

def start : PoolState ε where
  cancel := false
  results := List.replicate jobs.length none
  collected := 0
  valid := true
  shared := none
  writers := []

/-- Job `job` runs: it finds the flag set, or its check passes, or it stores its error. -/
def runJob (s : PoolState ε) (job : Nat) : PoolState ε :=
  if s.cancel then { s with results := s.results.set job (some false) }
  else
    match jobs.getD job none with
    | some error =>
      { s with results := s.results.set job (some false), shared := some error, writers := s.writers ++ [job] }
    | none => { s with results := s.results.set job (some true) }

/-- One event, `none` when it cannot happen: the job already ran, or the caller
would wait on a future whose job has not run. -/
def step (s : PoolState ε) : Event → Option (PoolState ε)
  | .run job => if s.results[job]? = some none then some (runJob jobs s job) else none
  | .collect =>
    match s.results[s.collected]? with
    | some (some ok) => some (collectResult s ok)
    | _ => none

def runSchedule : List Event → PoolState ε → Option (PoolState ε)
  | [], s => some s
  | event :: rest, s => (step jobs s event).bind (runSchedule rest)

end Semantics

section Lemmas

variable {ε : Type} (jobs : List (Option ε)) (s : PoolState ε)

@[simp] theorem runJob_results (job : Nat) :
    (runJob jobs s job).results = s.results.set job (some (!s.cancel && (jobs.getD job none).isNone)) := by
  unfold runJob
  cases s.cancel
  · cases jobs.getD job none <;> rfl
  · rfl

@[simp] theorem runJob_collected (job : Nat) : (runJob jobs s job).collected = s.collected := by
  unfold runJob
  split
  · rfl
  · split <;> rfl

@[simp] theorem runJob_cancel (job : Nat) : (runJob jobs s job).cancel = s.cancel := by
  unfold runJob
  split
  · rfl
  · split <;> rfl

@[simp] theorem runJob_valid (job : Nat) : (runJob jobs s job).valid = s.valid := by
  unfold runJob
  split
  · rfl
  · split <;> rfl

theorem runJob_writers (job : Nat) :
    (runJob jobs s job).writers =
      if !s.cancel && (jobs.getD job none).isSome then s.writers ++ [job] else s.writers := by
  unfold runJob
  cases s.cancel
  · cases jobs.getD job none <;> rfl
  · rfl

theorem runJob_shared (job : Nat) :
    (runJob jobs s job).shared = if s.cancel then s.shared else (jobs.getD job none).or s.shared := by
  unfold runJob
  cases s.cancel
  · cases jobs.getD job none <;> rfl
  · rfl

@[simp] theorem collectResult_results (ok : Bool) : (collectResult s ok).results = s.results := by
  unfold collectResult
  split <;> rfl

@[simp] theorem collectResult_collected (ok : Bool) : (collectResult s ok).collected = s.collected + 1 := by
  unfold collectResult
  split <;> rfl

@[simp] theorem collectResult_cancel (ok : Bool) : (collectResult s ok).cancel = (s.cancel || !ok) := by
  cases ok <;> simp [collectResult]

@[simp] theorem collectResult_valid (ok : Bool) : (collectResult s ok).valid = (s.valid && ok) := by
  cases ok <;> simp [collectResult]

@[simp] theorem collectResult_shared (ok : Bool) : (collectResult s ok).shared = s.shared := by
  unfold collectResult
  split <;> rfl

theorem step_cases {s' : PoolState ε} {event : Event} (stepped : step jobs s event = some s') :
    (∃ job, event = .run job ∧ s.results[job]? = some none ∧ s' = runJob jobs s job) ∨
      ∃ ok, event = .collect ∧ s.results[s.collected]? = some (some ok) ∧ s' = collectResult s ok := by
  cases event with
  | run job =>
    simp only [step] at stepped
    split at stepped
    · exact .inl ⟨job, rfl, ‹_›, (Option.some.inj stepped).symm⟩
    · cases stepped
  | collect =>
    simp only [step] at stepped
    split at stepped
    · rename_i ok found
      exact .inr ⟨ok, rfl, found, (Option.some.inj stepped).symm⟩
    · cases stepped

theorem runSchedule_append (first rest : List Event) :
    runSchedule jobs (first ++ rest) s = (runSchedule jobs first s).bind (runSchedule jobs rest) := by
  induction first generalizing s with
  | nil => rfl
  | cons event first ih =>
    simp only [List.cons_append, runSchedule]
    cases step jobs s event with
    | none => rfl
    | some middle => exact ih middle

theorem runSchedule_preserves (P : PoolState ε → Prop)
    (preserved : ∀ {s s' : PoolState ε} {event : Event}, P s → step jobs s event = some s' → P s')
    (schedule : List Event) {s s' : PoolState ε} (holds : P s) (ran : runSchedule jobs schedule s = some s') :
    P s' := by
  induction schedule generalizing s with
  | nil =>
    cases ran
    exact holds
  | cons event rest ih =>
    obtain ⟨middle, stepped, ran⟩ := Option.bind_eq_some_iff.mp ran
    exact ih (preserved holds stepped) ran

theorem getElem?_set_of_free {results : List (Option Bool)} {job : Nat} (free : results[job]? = some none)
    (b : Bool) (k : Nat) : (results.set job (some b))[k]? = if k = job then some (some b) else results[k]? := by
  have inside : job < results.length := (List.getElem?_eq_some_iff.mp free).1
  rw [List.getElem?_set]
  by_cases same : job = k
  · subst same
    simp [inside]
  · simp [same, Ne.symm same]

theorem exists_mem_of_isSome {job : Nat} (failing : (jobs.getD job none).isSome = true) :
    ∃ error, some error ∈ jobs := by
  obtain ⟨error, found⟩ := Option.isSome_iff_exists.mp failing
  refine ⟨error, ?_⟩
  rw [List.getD_eq_getElem?_getD] at found
  cases entry : jobs[job]? with
  | none => simp [entry] at found
  | some outcome =>
    rw [entry, Option.getD_some] at found
    exact found ▸ List.mem_of_getElem? entry

end Lemmas

/-! ## The caller's result -/

section Conjunction

variable {ε : Type} (jobs : List (Option ε))

/-- What holds of every state a schedule reaches from `start`: a future holds
`true` only for a passing check, and `false` only for a failing one or after the
flag was set; the flag is set only when some check fails; and until it is set
every future read held `true`. -/
structure Invariant (s : PoolState ε) : Prop where
  length : s.results.length = jobs.length
  valid_eq : s.valid = !s.cancel
  passed : ∀ job, s.results[job]? = some (some true) → jobs.getD job none = none
  failed : ∀ job, s.results[job]? = some (some false) → (jobs.getD job none).isSome ∨ s.cancel = true
  cancelled : s.cancel = true → ∃ error, some error ∈ jobs
  clean : s.cancel = false → ∀ k < s.collected, s.results[k]? = some (some true)

theorem start_invariant : Invariant jobs (start jobs) where
  length := by simp [start]
  valid_eq := rfl
  passed := by simp [start, List.getElem?_replicate]
  failed := by simp [start, List.getElem?_replicate]
  cancelled := by simp [start]
  clean := by simp [start]

variable {jobs}

theorem Invariant.runJob {s : PoolState ε} (inv : Invariant jobs s) {job : Nat} (free : s.results[job]? = some none) :
    Invariant jobs (runJob jobs s job) := by
  have slot := getElem?_set_of_free free (!s.cancel && (jobs.getD job none).isNone)
  constructor
  · simp [inv.length]
  · simpa using inv.valid_eq
  · intro k found
    simp only [runJob_results, slot] at found
    split at found
    · -- the job that just ran returned `true`: its check passed
      subst k
      simp only [Option.some.injEq, Bool.and_eq_true, Bool.not_eq_true', Option.isNone_iff_eq_none] at found
      exact found.2
    · exact inv.passed k found
  · intro k found
    simp only [runJob_results, slot] at found
    rw [runJob_cancel]
    split at found
    · subst k
      cases cancelled : s.cancel
      · simp_all
      · exact .inr rfl
    · exact inv.failed k found
  · simpa using inv.cancelled
  · intro clean k below
    rw [runJob_cancel] at clean
    rw [runJob_collected] at below
    have read := inv.clean clean k below
    simp only [runJob_results, slot]
    -- a future already read is not the one of a job that runs now
    have other : k ≠ job := by
      rintro rfl
      rw [free] at read
      cases read
    simpa [other] using read

theorem Invariant.collectResult {s : PoolState ε} (inv : Invariant jobs s) {ok : Bool}
    (found : s.results[s.collected]? = some (some ok)) : Invariant jobs (collectResult s ok) := by
  cases ok with
  | false =>
    constructor
    · simpa using inv.length
    · simp
    · simpa using inv.passed
    · simp
    · intro _
      rcases inv.failed _ found with failing | cancelled
      · exact exists_mem_of_isSome jobs failing
      · exact inv.cancelled cancelled
    · simp
  | true =>
    constructor
    · simpa using inv.length
    · simpa using inv.valid_eq
    · simpa using inv.passed
    · simpa using inv.failed
    · simpa using inv.cancelled
    · intro clean k below
      simp only [collectResult_cancel, Bool.not_true, Bool.or_false] at clean
      simp only [collectResult_collected] at below
      rw [collectResult_results]
      rcases Nat.lt_succ_iff_lt_or_eq.mp below with earlier | rfl
      · exact inv.clean clean k earlier
      · exact found

theorem Invariant.step {s s' : PoolState ε} {event : Event} (inv : Invariant jobs s)
    (stepped : step jobs s event = some s') : Invariant jobs s' := by
  rcases step_cases jobs s stepped with ⟨job, -, free, rfl⟩ | ⟨ok, -, found, rfl⟩
  · exact inv.runJob free
  · exact inv.collectResult found

theorem runSchedule_invariant (schedule : List Event) {final : PoolState ε}
    (ran : runSchedule jobs schedule (start jobs) = some final) : Invariant jobs final :=
  runSchedule_preserves jobs (Invariant jobs) (fun inv stepped => inv.step stepped) schedule
    (start_invariant jobs) ran

theorem valid_of_complete {schedule : List Event} {final : PoolState ε}
    (ran : runSchedule jobs schedule (start jobs) = some final) (complete : final.collected = jobs.length) :
    final.valid = jobs.all Option.isNone := by
  have inv := runSchedule_invariant schedule ran
  rw [inv.valid_eq]
  cases cancelled : final.cancel with
  | true =>
    obtain ⟨error, mem⟩ := inv.cancelled cancelled
    exact (List.all_eq_false.mpr ⟨_, mem, by simp⟩).symm
  | false =>
    refine (List.all_eq_true.mpr fun entry mem => ?_).symm
    obtain ⟨k, below, rfl⟩ := List.getElem_of_mem mem
    have passed := inv.passed k (inv.clean cancelled k (complete ▸ below))
    rw [List.getD_eq_getElem _ _ below] at passed
    simp [passed]

theorem step_enabled {s : PoolState ε} (inv : Invariant jobs s) (waiting : s.collected < jobs.length) :
    ∃ event s', step jobs s event = some s' := by
  have inside : s.collected < s.results.length := inv.length ▸ waiting
  cases next : s.results[s.collected] with
  | none => exact ⟨.run s.collected, runJob jobs s s.collected, by simp [step, List.getElem?_eq_getElem inside, next]⟩
  | some ok => exact ⟨.collect, collectResult s ok, by simp [step, List.getElem?_eq_getElem inside, next]⟩

end Conjunction

/-! ## The sequential schedule -/

section Sequential

variable {ε : Type} (jobs : List (Option ε))

theorem findSome?_id_eq_none_iff (entries : List (Option ε)) :
    entries.findSome? id = none ↔ entries.all Option.isNone = true := by
  simp [List.findSome?_eq_none_iff, List.all_eq_true]

/-- The state after the first `k` rounds of `sequential`: the flag is set when
one of the first `k` checks failed, and the shared cell holds the first failure. -/
structure SequentialAt (k : Nat) (s : PoolState ε) : Prop where
  collected : s.collected = k
  length : s.results.length = jobs.length
  fresh : ∀ job, k ≤ job → job < jobs.length → s.results[job]? = some none
  cancel : s.cancel = !(jobs.take k).all Option.isNone
  shared : s.shared = (jobs.take k).findSome? id
  valid : s.valid = !s.cancel

theorem sequentialAt_start : SequentialAt jobs 0 (start jobs) where
  collected := rfl
  length := by simp [start]
  fresh job _ below := by simp [start, below]
  cancel := rfl
  shared := rfl
  valid := rfl

variable {jobs}

theorem sequential_round {k : Nat} {s : PoolState ε} (before : SequentialAt jobs k s) (below : k < jobs.length) :
    ∃ s', runSchedule jobs [.run k, .collect] s = some s' ∧ SequentialAt jobs (k + 1) s' := by
  have free := before.fresh k (Nat.le_refl k) below
  obtain ⟨ok, ok_eq⟩ : ∃ ok, ok = (!s.cancel && (jobs.getD k none).isNone) := ⟨_, rfl⟩
  have results : (runJob jobs s k).results = s.results.set k (some ok) := by rw [runJob_results, ok_eq]
  have slot := getElem?_set_of_free free ok
  have read : (runJob jobs s k).results[(runJob jobs s k).collected]? = some (some ok) := by
    rw [results, runJob_collected, before.collected, slot, if_pos rfl]
  have first : step jobs s (.run k) = some (runJob jobs s k) := by rw [step, if_pos free]
  have second : step jobs (runJob jobs s k) .collect = some (collectResult (runJob jobs s k) ok) := by
    simp only [step, read]
  have prefix_eq : jobs.take (k + 1) = jobs.take k ++ [jobs.getD k none] := by
    rw [List.take_add_one, List.getElem?_eq_getElem below, List.getD_eq_getElem _ _ below]
    rfl
  refine ⟨collectResult (runJob jobs s k) ok, by simp only [runSchedule, first, second, Option.bind_some], ?_⟩
  constructor
  · simp [before.collected]
  · simp [before.length]
  · intro job after inside
    rw [collectResult_results, results, slot, if_neg (by omega)]
    exact before.fresh job (by omega) inside
  · rw [collectResult_cancel, runJob_cancel, before.cancel, prefix_eq, List.all_append, ok_eq, before.cancel]
    cases (jobs.take k).all Option.isNone <;> simp
  · rw [collectResult_shared, runJob_shared, before.shared, prefix_eq, List.findSome?_append, before.cancel]
    -- before the flag is set no check has failed, and the job's error comes first
    cases clean : (jobs.take k).all Option.isNone
    · have failed : (jobs.take k).findSome? id ≠ none := fun none_found =>
        absurd ((findSome?_id_eq_none_iff (jobs.take k)).mp none_found) (by simp [clean])
      obtain ⟨first, found⟩ := Option.ne_none_iff_exists'.mp failed
      simp [found]
    · rw [(findSome?_id_eq_none_iff _).mpr clean]
      cases jobs.getD k none <;> simp
  · rw [collectResult_valid, collectResult_cancel, runJob_valid, runJob_cancel, before.valid]
    cases s.cancel <;> simp [ok_eq]

theorem sequential_rounds (m : Nat) {k : Nat} {s : PoolState ε} (before : SequentialAt jobs k s)
    (inside : k + m ≤ jobs.length) :
    ∃ s', runSchedule jobs ((List.range' k m).flatMap fun job => [.run job, .collect]) s = some s' ∧
      SequentialAt jobs (k + m) s' := by
  induction m generalizing k s with
  | zero => exact ⟨s, rfl, before⟩
  | succ m ih =>
    obtain ⟨middle, round, after⟩ := sequential_round before (by omega)
    obtain ⟨final, rest, done⟩ := ih after (by omega)
    refine ⟨final, ?_, by rwa [Nat.add_right_comm, Nat.add_assoc] at done⟩
    rw [List.range'_succ, List.flatMap_cons, runSchedule_append, round]
    exact rest

variable (jobs)

theorem runSchedule_sequential :
    ∃ final, runSchedule jobs (sequential jobs.length) (start jobs) = some final ∧
      final.collected = jobs.length ∧ final.valid = jobs.all Option.isNone ∧ final.shared = jobs.findSome? id := by
  obtain ⟨final, ran, done⟩ := sequential_rounds jobs.length (sequentialAt_start jobs) (by omega)
  rw [Nat.zero_add] at done
  have cancel := done.cancel
  have shared := done.shared
  rw [List.take_length] at cancel shared
  refine ⟨final, by rwa [sequential, List.range_eq_range'], done.collected, ?_, shared⟩
  rw [done.valid, cancel, Bool.not_not]

end Sequential

/-! ## Two failing checks -/

theorem two_failures_both_write {ε : Type} {jobs : List (Option ε)} {i j : Nat} (distinct : i ≠ j) {ei ej : ε}
    (first : jobs[i]? = some (some ei)) (second : jobs[j]? = some (some ej)) :
    (runSchedule jobs [.run i, .run j] (start jobs)).map (fun s => (s.shared, s.writers)) =
      some (some ej, [i, j]) := by
  have hi : i < jobs.length := (List.getElem?_eq_some_iff.mp first).1
  have hj : j < jobs.length := (List.getElem?_eq_some_iff.mp second).1
  have gi : jobs.getD i none = some ei := by rw [List.getD_eq_getElem?_getD, first]; rfl
  have gj : jobs.getD j none = some ej := by rw [List.getD_eq_getElem?_getD, second]; rfl
  have freeI : (start jobs).results[i]? = some none := by simp [start, hi]
  have freeJ : (start jobs).results[j]? = some none := by simp [start, hj]
  -- job `j`'s future is still empty after job `i` ran
  have stillFree : (runJob jobs (start jobs) i).results[j]? = some none := by
    rw [runJob_results, getElem?_set_of_free freeI, if_neg (Ne.symm distinct), freeJ]
  have ran : runSchedule jobs [.run i, .run j] (start jobs) =
      some (runJob jobs (runJob jobs (start jobs) i) j) := by
    simp only [runSchedule, step, if_pos freeI, if_pos stillFree, Option.bind_some]
  rw [ran, Option.map_some]
  simp [runJob_shared, runJob_writers, gi, gj, start, -List.getD_eq_getElem?_getD]

end CancellableJobs
