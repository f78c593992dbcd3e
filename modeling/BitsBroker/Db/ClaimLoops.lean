import BitsBroker.Db.Memory
import BitsBroker.Lib.Revision
import BitsBroker.Lib.Table
import BitsBroker.Lib.Transition

/-!
The claim loops of the NATS and the TiKV store. A claim of the in-memory store reads and
rewrites the record under one lock; here it reads, compares, and writes back with a
compare-and-set or a transaction, and tries again when another writer was faster. Any
number of claims, upserts and deletes of any records run at once. `past` keeps the stores
before every step, so that an answer can be compared with what the in-memory store would
have said at an instant of the call.
-/

namespace BitsBroker

open Transition Table Revision RequestId

inductive ClaimBackend where
  | nats
  | tikv
deriving DecidableEq

def natsJobKey (publicId : String) : Except DbError String :=
  match decode publicId with
  | .error e => .error (.backend s!"invalid public job ID {debugText publicId}: {e.message}")
  | .ok decoded => .ok s!"jobs.{decoded.site}.{decoded.env}.{decoded.brokerSlot}.{publicId}"

def tikvJobKey (jobId : String) : Except DbError String :=
  match decode jobId with
  | .error e => .error (.backend s!"invalid public job ID {debugText jobId}: {e.message}")
  | .ok decoded => .ok s!"jobs/{decoded.site}/{decoded.env}/{decoded.brokerSlot}/{jobId}"

def ClaimBackend.jobKey : ClaimBackend → String → Except DbError String
  | .nats => natsJobKey
  | .tikv => tikvJobKey

abbrev JobRecords : Type := Store String PersistentJobRecord

def maxCasAttempts : Nat := 3

def maxTxnAttempts : Nat := 2

/-- A loop counts the attempts that are left after the one it is in. -/
inductive ClaimPc where
  | reading (left : Nat)
  | updating (left : Nat) (record : PersistentJobRecord) (revision : Nat)
  | refreshing
  | starting (left : Nat)
  | getting (left : Nat) (snapshot : JobRecords)
  | committing (left : Nat) (record : PersistentJobRecord) (snapshot : JobRecords)
  | done (answer : Except DbError ClaimResult) (ended : Nat)

structure ClaimCall where
  jobId : String
  expectedOwnerBrokerId : String
  claimantBrokerId : String
  key : String
  since : Nat
  wrote : Bool
  pc : ClaimPc

structure ClaimState where
  kv : JobRecords
  past : List JobRecords
  calls : List ClaimCall

def ClaimState.new : ClaimState where
  kv := Store.empty
  past := []
  calls := []

/-- `expire` drops what is left of a deleted record and `skip` writes a key that holds no job. -/
inductive ClaimAction where
  | request (jobId expectedOwnerBrokerId claimantBrokerId : String)
  | call (i : Nat)
  | upsert (record : PersistentJobRecord)
  | delete (jobId : String)
  | expire (jobId : String)
  | skip

namespace ClaimState

def timeline (s : ClaimState) : List JobRecords := s.past ++ [s.kv]

def now (s : ClaimState) : Nat := s.past.length

/-- The step is over: the store before it is past. -/
def goOn (s : ClaimState) (kv : JobRecords) (calls : List ClaimCall) : ClaimState where
  kv := kv
  past := s.past ++ [s.kv]
  calls := calls

def setPc (s : ClaimState) (i : Nat) (call : ClaimCall) (pc : ClaimPc) : ClaimState :=
  s.goOn s.kv (s.calls.set i { call with pc := pc })

def answer (s : ClaimState) (i : Nat) (call : ClaimCall) (result : ClaimResult) : ClaimState :=
  s.setPc i call (.done (.ok result) s.now)

/-- The write of the call took effect. -/
def transfer (s : ClaimState) (i : Nat) (call : ClaimCall) (kv : JobRecords)
    (claimed : PersistentJobRecord) : ClaimState :=
  s.goOn kv
    (s.calls.set i { call with wrote := true, pc := .done (.ok (.claimed claimed)) s.now })

def setKv (s : ClaimState) (kv : JobRecords) : ClaimState := s.goOn kv s.calls

end ClaimState

def ClaimCall.claimed (call : ClaimCall) (record : PersistentJobRecord) : PersistentJobRecord :=
  { record with brokerId := call.claimantBrokerId }

/-- The comparison both loops make: an answer, or the record to be written back. -/
def ClaimCall.compare (call : ClaimCall) (record : PersistentJobRecord) : Option ClaimResult :=
  if record.brokerId = call.claimantBrokerId then some (.claimed record)
  else if record.brokerId ≠ call.expectedOwnerBrokerId then some (.active record.brokerId)
  else none

def natsReadEntry (s : ClaimState) (i : Nat) (call : ClaimCall) (left : Nat) : ClaimState :=
  match s.kv.read call.key with
  | none => s.answer i call .notFound
  | some (none, _) => s.answer i call .notFound
  | some (some record, revision) =>
      match call.compare record with
      | some result => s.answer i call result
      | none => s.setPc i call (.updating left record revision)

def natsUpdateEntry (s : ClaimState) (i : Nat) (call : ClaimCall) (left : Nat)
    (record : PersistentJobRecord) (revision : Nat) : ClaimState :=
  match s.kv.update call.key (call.claimed record) revision with
  | some kv => s.transfer i call kv (call.claimed record)
  | none => match left with
    | 0 => s.setPc i call .refreshing
    | left + 1 => s.setPc i call (.reading left)

def natsRefresh (s : ClaimState) (i : Nat) (call : ClaimCall) : ClaimState :=
  match s.kv.read call.key with
  | some (some current, _) =>
      if current.brokerId = call.claimantBrokerId then s.answer i call (.claimed current)
      else s.answer i call (.active current.brokerId)
  | _ => s.answer i call .notFound

def tikvGetRecord (s : ClaimState) (i : Nat) (call : ClaimCall) (left : Nat)
    (snapshot : JobRecords) : ClaimState :=
  match snapshot.value call.key with
  | none => s.answer i call .notFound
  | some record =>
      match call.compare record with
      | some result => s.answer i call result
      | none => s.setPc i call (.committing left record snapshot)

def claimConflict (jobId : String) : DbError := .conflict s!"claim conflict for job '{jobId}'"

def tikvCommitRecord (s : ClaimState) (i : Nat) (call : ClaimCall) (left : Nat)
    (record : PersistentJobRecord) (snapshot : JobRecords) : ClaimState :=
  match s.kv.commit call.key (call.claimed record) (snapshot.revision call.key) with
  | some kv => s.transfer i call kv (call.claimed record)
  | none => match left with
    | 0 => s.setPc i call (.done (.error (claimConflict call.jobId)) s.now)
    | left + 1 => s.setPc i call (.starting left)

def claimCallStep (s : ClaimState) (i : Nat) (call : ClaimCall) : Option ClaimState :=
  match call.pc with
  | .reading left => some (natsReadEntry s i call left)
  | .updating left record revision => some (natsUpdateEntry s i call left record revision)
  | .refreshing => some (natsRefresh s i call)
  | .starting left => some (s.setPc i call (.getting left s.kv))
  | .getting left snapshot => some (tikvGetRecord s i call left snapshot)
  | .committing left record snapshot => some (tikvCommitRecord s i call left record snapshot)
  | .done _ _ => none

def ClaimBackend.firstPc : ClaimBackend → ClaimPc
  | .nats => .reading (maxCasAttempts - 1)
  | .tikv => .starting (maxTxnAttempts - 1)

def beginClaim (backend : ClaimBackend) (s : ClaimState) (jobId expected claimant : String) :
    ClaimCall :=
  match backend.jobKey jobId with
  | .error e => ⟨jobId, expected, claimant, "", s.now, false, .done (.error e) s.now⟩
  | .ok key => ⟨jobId, expected, claimant, key, s.now, false, backend.firstPc⟩

def claimStep (backend : ClaimBackend) (s : ClaimState) : ClaimAction → Option ClaimState
  | .request jobId expected claimant =>
      some (s.goOn s.kv (s.calls ++ [beginClaim backend s jobId expected claimant]))
  | .call i => s.calls[i]?.bind fun call => claimCallStep s i call
  | .upsert record => match backend.jobKey record.jobId with
    | .error _ => none
    | .ok key => some (s.setKv (s.kv.write key (some record)))
  | .delete jobId => match backend.jobKey jobId with
    | .error _ => none
    | .ok key => some (s.setKv (s.kv.write key none))
  | .expire jobId => match backend, backend.jobKey jobId with
    | .nats, .ok key => some (s.setKv (s.kv.expire key))
    | _, _ => none
  | .skip => some (s.setKv s.kv.skip)

/-- The answer of a claim that reads and writes at once. -/
def ClaimCall.atomicAnswer (call : ClaimCall) : Option PersistentJobRecord → ClaimResult
  | none => .notFound
  | some record => (call.compare record).getD (.claimed (call.claimed record))

/-- A claim that reads and writes at once takes the record over. -/
def ClaimCall.Transfers (call : ClaimCall) (record : Option PersistentJobRecord) : Prop :=
  ∃ found, record = some found ∧ call.compare found = none

theorem ClaimCall.compare_eq_none {call : ClaimCall} {record : PersistentJobRecord} :
    call.compare record = none ↔ record.brokerId ≠ call.claimantBrokerId ∧
      record.brokerId = call.expectedOwnerBrokerId := by
  unfold ClaimCall.compare
  split
  next own => simp [own]
  next foreign =>
    split
    next other => simp [other]
    next expected =>
      simp only [true_iff]
      exact ⟨foreign, not_not.mp expected⟩

/-- `atomicAnswer` is what the in-memory store answers. -/
theorem MemoryStore.claimIfOwner_eq {memory : MemoryStore} {call : ClaimCall}
    {record : Option PersistentJobRecord} {key : String}
    (valid : memoryJobKey call.jobId = .ok key) (holds : memory.recordOf call.jobId = record) :
    ∃ after, memory.claimIfOwner call.jobId call.expectedOwnerBrokerId call.claimantBrokerId =
      .ok (call.atomicAnswer record, after) := by
  have found : memory.jobs.lookup key = record := by
    rw [← holds]
    simp [MemoryStore.recordOf, valid]
  unfold MemoryStore.claimIfOwner
  rw [valid]
  simp only [found]
  cases record with
  | none => exact ⟨memory, rfl⟩
  | some present =>
      simp only [ClaimCall.atomicAnswer, ClaimCall.compare]
      split
      · exact ⟨memory, rfl⟩
      · split
        · exact ⟨memory, rfl⟩
        · exact ⟨_, rfl⟩

theorem memoryJobKey_of_jobKey {backend : ClaimBackend} {jobId key : String}
    (ok : backend.jobKey jobId = .ok key) : ∃ memoryKey, memoryJobKey jobId = .ok memoryKey := by
  unfold memoryJobKey
  cases decoded : decode jobId with
  | ok value => exact ⟨_, rfl⟩
  | error e => cases backend <;> simp [ClaimBackend.jobKey, natsJobKey, tikvJobKey, decoded] at ok

namespace ClaimState

/-- At an instant of the call that ended in `ended` the record was such that a claim at once
gives `result`, and the call wrote what that claim writes. -/
def Answers (s : ClaimState) (call : ClaimCall) (result : ClaimResult) (ended : Nat) : Prop :=
  ∃ (instant : Nat) (store : JobRecords), call.since ≤ instant ∧ instant ≤ ended ∧
    s.timeline[instant]? = some store ∧ result = call.atomicAnswer (store.value call.key) ∧
    (call.wrote = true ↔ call.Transfers (store.value call.key)) ∧
    (call.wrote = true → ∃ (after : JobRecords) (found : PersistentJobRecord),
      s.timeline[instant + 1]? = some after ∧ store.value call.key = some found ∧
      after.value call.key = some (call.claimed found))

/-- A transaction that reads `key` began at an instant from `since` on. -/
structure Saw (s : ClaimState) (since : Nat) (key : String) (snapshot : JobRecords) : Prop where
  instant : ∃ instant : Nat, since ≤ instant ∧ instant ≤ s.now ∧
    s.timeline[instant]? = some snapshot
  stable (entry : Option PersistentJobRecord × Nat) : snapshot.read key = some entry →
    s.kv.Stable key entry

end ClaimState

def ClaimPc.Ok (s : ClaimState) (call : ClaimCall) : ClaimPc → Prop
  | .reading _ | .refreshing | .starting _ => call.wrote = false
  | .updating _ record revision => call.wrote = false ∧
      s.kv.Stable call.key (some record, revision) ∧ call.compare record = none
  | .getting _ snapshot => call.wrote = false ∧ s.Saw call.since call.key snapshot
  | .committing _ record snapshot => call.wrote = false ∧ s.Saw call.since call.key snapshot ∧
      snapshot.value call.key = some record ∧ call.compare record = none
  | .done (.ok result) ended => s.Answers call result ended
  | .done (.error _) _ => call.wrote = false

structure ClaimCall.Ok (backend : ClaimBackend) (s : ClaimState) (call : ClaimCall) : Prop where
  since : call.since ≤ s.now
  key : backend.jobKey call.jobId = .ok call.key ∨ ∃ e ended, call.pc = .done (.error e) ended
  pc : call.pc.Ok s call

structure ClaimLoopWf (backend : ClaimBackend) (s : ClaimState) : Prop where
  ordered : s.kv.Ordered
  calls (i : Nat) (call : ClaimCall) : s.calls[i]? = some call → call.Ok backend s

/-- What a step does: one more store is past, what was seen stays seen, and the call that moved
is as it should be. -/
structure ClaimLoopMove (backend : ClaimBackend) (s next : ClaimState) : Prop where
  past : next.past = s.past ++ [s.kv]
  ordered : next.kv.Ordered
  stable (key : String) (entry : Option PersistentJobRecord × Nat) : s.kv.Stable key entry →
    next.kv.Stable key entry
  calls (i : Nat) (call : ClaimCall) : next.calls[i]? = some call →
    s.calls[i]? = some call ∨ call.Ok backend next

section Step

variable {backend : ClaimBackend} {s next : ClaimState} {i : Nat} {call : ClaimCall}

theorem ClaimLoopMove.timeline (move : ClaimLoopMove backend s next) :
    next.timeline = s.timeline ++ [next.kv] := by
  rw [ClaimState.timeline, move.past, ClaimState.timeline]

theorem ClaimLoopMove.now (move : ClaimLoopMove backend s next) : next.now = s.now + 1 := by
  rw [ClaimState.now, move.past, List.length_append]
  rfl

theorem ClaimLoopMove.earlier (move : ClaimLoopMove backend s next) {instant : Nat} {store : JobRecords}
    (there : s.timeline[instant]? = some store) : next.timeline[instant]? = some store := by
  rw [move.timeline, List.getElem?_append_left (List.getElem?_eq_some_iff.mp there).1]
  exact there

theorem ClaimState.timeline_now (s : ClaimState) : s.timeline[s.now]? = some s.kv := by
  rw [ClaimState.timeline, ClaimState.now]
  simp

theorem ClaimPc.Ok.mono (move : ClaimLoopMove backend s next) {pc : ClaimPc} (ok : pc.Ok s call) :
    pc.Ok next call := by
  have later := move.now
  have saw : ∀ snapshot, s.Saw call.since call.key snapshot → next.Saw call.since call.key snapshot := by
    rintro snapshot ⟨⟨instant, after, before, there⟩, stable⟩
    refine ⟨⟨instant, after, by omega, move.earlier there⟩, ?_⟩
    intro entry found
    exact move.stable _ _ (stable entry found)
  cases pc with
  | reading _ | refreshing | starting _ => exact ok
  | updating left record revision => exact ⟨ok.1, move.stable _ _ ok.2.1, ok.2.2⟩
  | getting left snapshot => exact ⟨ok.1, saw snapshot ok.2⟩
  | committing left record snapshot => exact ⟨ok.1, saw snapshot ok.2.1, ok.2.2⟩
  | done answer ended =>
      cases answer with
      | error e => exact ok
      | ok result =>
          obtain ⟨instant, store, after, before, there, same, wrote, effect⟩ := ok
          refine ⟨instant, store, after, before, move.earlier there, same, wrote, ?_⟩
          intro written
          obtain ⟨changed, found, afterwards, rest⟩ := effect written
          exact ⟨changed, found, move.earlier afterwards, rest⟩

theorem ClaimLoopWf.step (wf : ClaimLoopWf backend s) (move : ClaimLoopMove backend s next) :
    ClaimLoopWf backend next := by
  refine ⟨move.ordered, ?_⟩
  intro i call present
  rcases move.calls i call present with old | moved
  · have ok := wf.calls i call old
    have later := move.now
    exact ⟨by have := ok.since; omega, ok.key, ok.pc.mono move⟩
  · exact moved

theorem ClaimLoopMove.of_setKv {kv : JobRecords} (ordered : kv.Ordered)
    (stable : ∀ key entry, s.kv.Stable key entry → kv.Stable key entry) :
    ClaimLoopMove backend s (s.setKv kv) :=
  ⟨rfl, ordered, stable, fun _ _ present => Or.inl present⟩

/-- A step of a call that leaves the store alone. -/
theorem ClaimLoopWf.setPc_move (wf : ClaimLoopWf backend s) (present : s.calls[i]? = some call)
    (unfinished : ∀ e ended, call.pc ≠ .done (.error e) ended) {pc : ClaimPc}
    (ok : pc.Ok (s.setPc i call pc) call) : ClaimLoopMove backend s (s.setPc i call pc) := by
  refine ⟨rfl, wf.ordered, fun _ _ => id, ?_⟩
  intro j other found
  rcases getElem?_of_set found with ⟨rfl, rfl⟩ | ⟨_, old⟩
  · have before := wf.calls j call present
    refine Or.inr ⟨?_, ?_, ?_⟩
    · have later : (s.setPc j call pc).now = s.now + 1 := by
        simp [ClaimState.setPc, ClaimState.goOn, ClaimState.now]
      have since := before.since
      simp only
      omega
    · rcases before.key with valid | ⟨e, ended, finished⟩
      · exact Or.inl valid
      · exact absurd finished (unfinished e ended)
    · cases pc <;> exact ok
  · exact Or.inl old

theorem ClaimState.timeline_setPc (s : ClaimState) (i : Nat) (call : ClaimCall) (pc : ClaimPc) :
    (s.setPc i call pc).timeline = s.timeline ++ [s.kv] := rfl

/-- An answer from what the record was at an instant of the call. -/
theorem ClaimLoopWf.answer_move (wf : ClaimLoopWf backend s) (present : s.calls[i]? = some call)
    (unfinished : ∀ e ended, call.pc ≠ .done (.error e) ended) (unwritten : call.wrote = false)
    {instant : Nat} {store : JobRecords} (after : call.since ≤ instant) (before : instant ≤ s.now)
    (there : s.timeline[instant]? = some store) {result : ClaimResult}
    (same : result = call.atomicAnswer (store.value call.key))
    (keeps : ¬ call.Transfers (store.value call.key)) :
    ClaimLoopMove backend s (s.answer i call result) := by
  refine wf.setPc_move present unfinished ⟨instant, store, after, before, ?_, same, ?_, ?_⟩
  · rw [ClaimState.timeline_setPc,
      List.getElem?_append_left (List.getElem?_eq_some_iff.mp there).1]
    exact there
  · simp [unwritten, keeps]
  · simp [unwritten]

/-- An answer from what the record is now. -/
theorem ClaimLoopWf.answer_now (wf : ClaimLoopWf backend s) (present : s.calls[i]? = some call)
    (unfinished : ∀ e ended, call.pc ≠ .done (.error e) ended) (unwritten : call.wrote = false)
    {result : ClaimResult} (same : result = call.atomicAnswer (s.kv.value call.key))
    (keeps : ¬ call.Transfers (s.kv.value call.key)) :
    ClaimLoopMove backend s (s.answer i call result) :=
  wf.answer_move present unfinished unwritten (wf.calls i call present).since le_rfl
    s.timeline_now same keeps

theorem not_transfers_of_compare {record : PersistentJobRecord} {result : ClaimResult}
    (decided : call.compare record = some result) : ¬ call.Transfers (some record) := by
  rintro ⟨found, same, undecided⟩
  rw [Option.some.injEq] at same
  subst same
  simp [decided] at undecided

theorem not_transfers_none : ¬ call.Transfers none := by
  rintro ⟨found, same, _⟩
  simp at same

theorem atomicAnswer_of_compare {record : PersistentJobRecord} {result : ClaimResult}
    (decided : call.compare record = some result) : result = call.atomicAnswer (some record) := by
  simp [ClaimCall.atomicAnswer, decided]

/-- A conditional write that goes through replaces the record that was read. -/
theorem ClaimLoopWf.transfer_move (wf : ClaimLoopWf backend s) (present : s.calls[i]? = some call)
    (unfinished : ∀ e ended, call.pc ≠ .done (.error e) ended) {record : PersistentJobRecord}
    (there : s.kv.value call.key = some record) (undecided : call.compare record = none) :
    ClaimLoopMove backend s (s.transfer i call
      (s.kv.write call.key (some (call.claimed record))) (call.claimed record)) := by
  have before := wf.calls i call present
  have transfers : call.Transfers (s.kv.value call.key) := ⟨record, there, undecided⟩
  refine ⟨rfl, wf.ordered.write _ _, fun _ _ stable => stable.write _ _, ?_⟩
  intro j other found
  rcases getElem?_of_set found with ⟨rfl, rfl⟩ | ⟨_, old⟩
  · refine Or.inr ⟨?_, ?_, ?_⟩
    · have since := before.since
      simp only [ClaimState.transfer, ClaimState.goOn, ClaimState.now, List.length_append]
      change call.since ≤ s.past.length at since
      omega
    · rcases before.key with valid | ⟨e, ended, finished⟩
      · exact Or.inl valid
      · exact absurd finished (unfinished e ended)
    · refine ⟨s.now, s.kv, before.since, le_rfl, ?_, ?_, ?_, ?_⟩
      · simp [ClaimState.timeline, ClaimState.transfer, ClaimState.goOn, ClaimState.now]
      · change _ = call.atomicAnswer (s.kv.value call.key)
        rw [there]
        simp [ClaimCall.atomicAnswer, undecided]
      · simp only [true_iff]
        exact transfers
      · intro _
        refine ⟨s.kv.write call.key (some (call.claimed record)), record, ?_, there, ?_⟩
        · simp [ClaimState.timeline, ClaimState.transfer, ClaimState.goOn, ClaimState.now]
        · rw [Store.value_write, if_pos rfl]
          rfl
  · exact Or.inl old

/-- The re-read after the last attempt finds that the expected owner has the record no more. -/
def FallbackDecides (s : ClaimState) : ClaimAction → Prop
  | .call i => ∀ call, s.calls[i]? = some call → call.pc = .refreshing →
      ∀ record, s.kv.value call.key = some record →
        record.brokerId = call.expectedOwnerBrokerId → record.brokerId = call.claimantBrokerId
  | _ => True

theorem Store.value_of_read {store : JobRecords} {key : String}
    {value : Option PersistentJobRecord} {revision : Nat}
    (found : store.read key = some (value, revision)) : store.value key = value := by
  simp [Store.value, found]

theorem natsReadEntry_move (wf : ClaimLoopWf backend s) (present : s.calls[i]? = some call) {left : Nat}
    (pc : call.pc = .reading left) : ClaimLoopMove backend s (natsReadEntry s i call left) := by
  have ok := wf.calls i call present
  have unwritten : call.wrote = false := by
    have inside := ok.pc
    rw [pc] at inside
    exact inside
  have unfinished : ∀ e ended, call.pc ≠ .done (.error e) ended := by simp [pc]
  unfold natsReadEntry
  split
  next absent =>
    have value : s.kv.value call.key = none := by simp [Store.value, absent]
    exact wf.answer_now present unfinished unwritten (by rw [value]; rfl)
      (by rw [value]; exact not_transfers_none)
  next deleted =>
    have value := Store.value_of_read deleted
    exact wf.answer_now present unfinished unwritten (by rw [value]; rfl)
      (by rw [value]; exact not_transfers_none)
  next record revision found =>
    have value := Store.value_of_read found
    split
    next result decided =>
      refine wf.answer_now present unfinished unwritten ?_ ?_
      · rw [value]
        exact atomicAnswer_of_compare decided
      · rw [value]
        exact not_transfers_of_compare decided
    next undecided =>
      exact wf.setPc_move present unfinished
        ⟨unwritten, Store.Stable.of_read wf.ordered found, undecided⟩

theorem natsUpdateEntry_move (wf : ClaimLoopWf backend s) (present : s.calls[i]? = some call)
    {left revision : Nat} {record : PersistentJobRecord}
    (pc : call.pc = .updating left record revision) :
    ClaimLoopMove backend s (natsUpdateEntry s i call left record revision) := by
  have inside := (wf.calls i call present).pc
  rw [pc] at inside
  obtain ⟨unwritten, stable, undecided⟩ := inside
  have unfinished : ∀ e ended, call.pc ≠ .done (.error e) ended := by simp [pc]
  unfold natsUpdateEntry
  split
  next kv updated =>
    obtain ⟨there, rfl⟩ := Store.commit_read stable updated
    exact wf.transfer_move present unfinished (Store.value_of_read there) undecided
  next =>
    cases left with
    | zero => exact wf.setPc_move present unfinished unwritten
    | succ left => exact wf.setPc_move present unfinished unwritten

theorem natsRefresh_move (wf : ClaimLoopWf backend s) (present : s.calls[i]? = some call)
    (pc : call.pc = .refreshing)
    (decides : ∀ record, s.kv.value call.key = some record →
      record.brokerId = call.expectedOwnerBrokerId → record.brokerId = call.claimantBrokerId) :
    ClaimLoopMove backend s (natsRefresh s i call) := by
  have ok := wf.calls i call present
  have unwritten : call.wrote = false := by
    have inside := ok.pc
    rw [pc] at inside
    exact inside
  have unfinished : ∀ e ended, call.pc ≠ .done (.error e) ended := by simp [pc]
  unfold natsRefresh
  split
  next current revision found =>
    have value := Store.value_of_read found
    have decided : ∃ result, call.compare current = some result := by
      rw [← Option.ne_none_iff_exists']
      intro undecided
      obtain ⟨foreign, expected⟩ := ClaimCall.compare_eq_none.mp undecided
      exact foreign (decides current value expected)
    obtain ⟨result, compared⟩ := decided
    have keeps : ¬ call.Transfers (s.kv.value call.key) := by
      rw [value]
      exact not_transfers_of_compare compared
    have atomic : call.atomicAnswer (s.kv.value call.key) = result := by
      rw [value]
      exact (atomicAnswer_of_compare compared).symm
    split
    next own =>
      refine wf.answer_now present unfinished unwritten ?_ keeps
      rw [atomic]
      simpa [ClaimCall.compare, own] using compared
    next foreign =>
      refine wf.answer_now present unfinished unwritten ?_ keeps
      rw [atomic]
      have other : current.brokerId ≠ call.expectedOwnerBrokerId := fun expected =>
        foreign (decides current value expected)
      simpa [ClaimCall.compare, foreign, other] using compared
  next missing =>
    have value : s.kv.value call.key = none := by
      unfold Store.value
      cases found : s.kv.read call.key with
      | none => rfl
      | some entry =>
          obtain ⟨record, revision⟩ := entry
          cases record with
          | none => rfl
          | some record => exact absurd found (missing record revision)
    exact wf.answer_now present unfinished unwritten (by rw [value]; rfl)
      (by rw [value]; exact not_transfers_none)

theorem tikvStart_move (wf : ClaimLoopWf backend s) (present : s.calls[i]? = some call) {left : Nat}
    (pc : call.pc = .starting left) :
    ClaimLoopMove backend s (s.setPc i call (.getting left s.kv)) := by
  have ok := wf.calls i call present
  have unwritten : call.wrote = false := by
    have inside := ok.pc
    rw [pc] at inside
    exact inside
  refine wf.setPc_move present (by simp [pc]) ⟨unwritten, ⟨s.now, ok.since, ?_, ?_⟩, ?_⟩
  · simp [ClaimState.setPc, ClaimState.goOn, ClaimState.now]
  · rw [ClaimState.timeline_setPc, List.getElem?_append_left]
    · exact s.timeline_now
    · simp [ClaimState.timeline, ClaimState.now]
  · intro entry found
    exact Store.Stable.of_read wf.ordered found

theorem tikvGetRecord_move (wf : ClaimLoopWf backend s) (present : s.calls[i]? = some call)
    {left : Nat} {snapshot : JobRecords} (pc : call.pc = .getting left snapshot) :
    ClaimLoopMove backend s (tikvGetRecord s i call left snapshot) := by
  have inside := (wf.calls i call present).pc
  rw [pc] at inside
  obtain ⟨unwritten, saw⟩ := inside
  obtain ⟨instant, after, before, there⟩ := saw.instant
  have unfinished : ∀ e ended, call.pc ≠ .done (.error e) ended := by simp [pc]
  have answers : ∀ {result}, result = call.atomicAnswer (snapshot.value call.key) →
      ¬ call.Transfers (snapshot.value call.key) → ClaimLoopMove backend s (s.answer i call result) :=
    fun same keeps => wf.answer_move present unfinished unwritten after before there same keeps
  unfold tikvGetRecord
  split
  next absent => exact answers (by rw [absent]; rfl) (by rw [absent]; exact not_transfers_none)
  next record found =>
    split
    next result decided =>
      refine answers ?_ ?_
      · rw [found]
        exact atomicAnswer_of_compare decided
      · rw [found]
        exact not_transfers_of_compare decided
    next undecided =>
      refine wf.setPc_move present unfinished ⟨unwritten, ⟨⟨instant, after, ?_, ?_⟩, saw.stable⟩,
        found, undecided⟩
      · simp only [ClaimState.setPc, ClaimState.goOn, ClaimState.now, List.length_append]
        change instant ≤ s.past.length at before
        omega
      · rw [ClaimState.timeline_setPc,
          List.getElem?_append_left (List.getElem?_eq_some_iff.mp there).1]
        exact there

theorem tikvCommitRecord_move (wf : ClaimLoopWf backend s) (present : s.calls[i]? = some call)
    {left : Nat} {record : PersistentJobRecord} {snapshot : JobRecords}
    (pc : call.pc = .committing left record snapshot) :
    ClaimLoopMove backend s (tikvCommitRecord s i call left record snapshot) := by
  have inside := (wf.calls i call present).pc
  rw [pc] at inside
  obtain ⟨unwritten, saw, found, undecided⟩ := inside
  have unfinished : ∀ e ended, call.pc ≠ .done (.error e) ended := by simp [pc]
  unfold tikvCommitRecord
  split
  next kv committed =>
    obtain ⟨same, rfl⟩ := Store.commit_snapshot saw.stable committed
    refine wf.transfer_move present unfinished ?_ undecided
    rw [Store.value, same]
    exact found
  next =>
    cases left with
    | zero => exact wf.setPc_move present unfinished unwritten
    | succ left => exact wf.setPc_move present unfinished unwritten

theorem beginClaim_ok (backend : ClaimBackend) (s : ClaimState) (jobId expected claimant : String)
    (calls : List ClaimCall) :
    (beginClaim backend s jobId expected claimant).Ok backend (s.goOn s.kv calls) := by
  have since : s.now ≤ (s.goOn s.kv calls).now := by
    simp [ClaimState.goOn, ClaimState.now]
  unfold beginClaim
  split
  next e invalid => exact ⟨since, Or.inr ⟨e, s.now, rfl⟩, rfl⟩
  next key valid =>
    refine ⟨since, Or.inl valid, ?_⟩
    cases backend with
    | nats => rfl
    | tikv => rfl

theorem claimStep_move {action : ClaimAction} (wf : ClaimLoopWf backend s)
    (decides : FallbackDecides s action) (taken : claimStep backend s action = some next) :
    ClaimLoopMove backend s next := by
  cases action with
  | request jobId expected claimant =>
      simp only [claimStep, Option.some.injEq] at taken
      subst taken
      refine ⟨rfl, wf.ordered, fun _ _ => id, ?_⟩
      intro i call present
      rcases getElem?_of_snoc present with old | ⟨_, rfl⟩
      · exact Or.inl old
      · exact Or.inr (beginClaim_ok backend s jobId expected claimant _)
  | call i =>
      simp only [claimStep, Option.bind_eq_some_iff] at taken
      obtain ⟨call, present, taken⟩ := taken
      unfold claimCallStep at taken
      split at taken <;> try simp only [Option.some.injEq, reduceCtorEq] at taken
      next pc => exact taken ▸ natsReadEntry_move wf present pc
      next pc => exact taken ▸ natsUpdateEntry_move wf present pc
      next pc => exact taken ▸ natsRefresh_move wf present pc (decides call present pc)
      next pc => exact taken ▸ tikvStart_move wf present pc
      next pc => exact taken ▸ tikvGetRecord_move wf present pc
      next pc => exact taken ▸ tikvCommitRecord_move wf present pc
  | upsert record =>
      simp only [claimStep] at taken
      split at taken
      · simp at taken
      next key _ =>
        simp only [Option.some.injEq] at taken
        subst taken
        exact .of_setKv (wf.ordered.write _ _) fun _ _ stable => stable.write _ _
  | delete jobId =>
      simp only [claimStep] at taken
      split at taken
      · simp at taken
      next key _ =>
        simp only [Option.some.injEq] at taken
        subst taken
        exact .of_setKv (wf.ordered.write _ _) fun _ _ stable => stable.write _ _
  | expire jobId =>
      simp only [claimStep] at taken
      split at taken
      next key _ =>
        simp only [Option.some.injEq] at taken
        subst taken
        exact .of_setKv (wf.ordered.expire _) fun _ _ stable => stable.expire _
      · simp at taken
  | skip =>
      simp only [claimStep, Option.some.injEq] at taken
      subst taken
      exact .of_setKv wf.ordered.skip fun _ _ stable => stable.skip

end Step

theorem ClaimLoopWf.initial (backend : ClaimBackend) : ClaimLoopWf backend ClaimState.new := by
  constructor
  · exact Store.Ordered.empty
  · intro i call present
    simp [ClaimState.new] at present

section Answers

variable {backend : ClaimBackend} {s next : ClaimState} {i : Nat} {call : ClaimCall}

theorem atomicAnswer_active {record : Option PersistentJobRecord} {owner : String}
    (active : call.atomicAnswer record = .active owner) : owner ≠ call.expectedOwnerBrokerId := by
  cases record with
  | none => simp [ClaimCall.atomicAnswer] at active
  | some found =>
      simp only [ClaimCall.atomicAnswer, ClaimCall.compare] at active
      split at active
      · simp at active
      · split at active
        next other =>
          simp only [Option.getD_some, ClaimResult.active.injEq] at active
          exact active ▸ other
        next => simp at active

theorem atomicAnswer_of_transfers {record : Option PersistentJobRecord}
    (transfers : call.Transfers record) : ∃ claimed, call.atomicAnswer record = .claimed claimed := by
  obtain ⟨found, rfl, undecided⟩ := transfers
  refine ⟨call.claimed found, ?_⟩
  rw [ClaimCall.atomicAnswer, undecided]
  rfl

theorem claimCallStep_kv (present : s.calls[i]? = some call)
    (taken : claimCallStep s i call = some next) :
    next.kv = s.kv ∨ ∃ later, next.calls[i]? = some later ∧ later.wrote = true := by
  have bound := (List.getElem?_eq_some_iff.mp present).1
  have written : ∀ kv claimed, ∃ later,
      (s.transfer i call kv claimed).calls[i]? = some later ∧ later.wrote = true :=
    fun kv claimed => ⟨_, List.getElem?_set_self bound, rfl⟩
  unfold claimCallStep at taken
  split at taken <;> try simp only [Option.some.injEq, reduceCtorEq] at taken
  · subst taken
    unfold natsReadEntry
    split
    · exact Or.inl rfl
    · exact Or.inl rfl
    · split <;> exact Or.inl rfl
  · subst taken
    unfold natsUpdateEntry
    split
    · exact Or.inr (written _ _)
    · split <;> exact Or.inl rfl
  · subst taken
    unfold natsRefresh
    split
    · split <;> exact Or.inl rfl
    · exact Or.inl rfl
  · exact taken ▸ Or.inl rfl
  · subst taken
    unfold tikvGetRecord
    split
    · exact Or.inl rfl
    · split <;> exact Or.inl rfl
  · subst taken
    unfold tikvCommitRecord
    split
    · exact Or.inr (written _ _)
    · split <;> exact Or.inl rfl

end Answers

/-- The loops against the claim of the in-memory store, as long as no re-read after the last
attempt finds the record with the expected owner. -/
theorem claim_loops_refine {backend : ClaimBackend} {s : ClaimState}
    (reachable : Reachable (claimStep backend) FallbackDecides ClaimState.new s) :
    (∀ (i : Nat) (call : ClaimCall) (result : ClaimResult) (ended : Nat),
      s.calls[i]? = some call → call.pc = .done (.ok result) ended →
      ∃ (instant : Nat) (store : JobRecords), call.since ≤ instant ∧ instant ≤ ended ∧
        s.timeline[instant]? = some store ∧
        (∀ memory : MemoryStore, memory.recordOf call.jobId = store.value call.key →
          ∃ after, memory.claimIfOwner call.jobId call.expectedOwnerBrokerId
            call.claimantBrokerId = .ok (result, after)) ∧
        (call.wrote = true ↔ ∃ found, store.value call.key = some found ∧
          found.brokerId ≠ call.claimantBrokerId ∧
          found.brokerId = call.expectedOwnerBrokerId) ∧
        (call.wrote = true → ∃ (after : JobRecords) (found : PersistentJobRecord),
          s.timeline[instant + 1]? = some after ∧ store.value call.key = some found ∧
          after.value call.key = some { found with brokerId := call.claimantBrokerId } ∧
          result = .claimed { found with brokerId := call.claimantBrokerId })) ∧
    (∀ (i : Nat) (call : ClaimCall) (owner : String) (ended : Nat), s.calls[i]? = some call →
      call.pc = .done (.ok (.active owner)) ended → owner ≠ call.expectedOwnerBrokerId) ∧
    (∀ (i : Nat) (call : ClaimCall) (answer : Except DbError ClaimResult) (ended : Nat),
      s.calls[i]? = some call → call.pc = .done answer ended →
      (∀ record, answer ≠ .ok (.claimed record)) → call.wrote = false) ∧
    (∀ (i : Nat) (next : ClaimState), claimStep backend s (.call i) = some next →
      next.kv = s.kv ∨ ∃ later, next.calls[i]? = some later ∧ later.wrote = true) := by
  obtain ⟨actions, path⟩ := reachable
  have wf : ClaimLoopWf backend s := by
    refine path.invariant (ClaimLoopWf.initial backend) ?_
    intro state action next wf decides taken
    exact wf.step (claimStep_move wf decides taken)
  have answered : ∀ {i : Nat} {call : ClaimCall} {result : ClaimResult} {ended : Nat},
      s.calls[i]? = some call → call.pc = .done (.ok result) ended →
      s.Answers call result ended := by
    intro i call result ended present finished
    have inside := (wf.calls i call present).pc
    rw [finished] at inside
    exact inside
  refine ⟨?_, ?_, ?_, ?_⟩
  · intro i call result ended present finished
    obtain ⟨instant, store, after, before, there, rfl, wrote, effect⟩ := answered present finished
    refine ⟨instant, store, after, before, there, ?_, ?_, ?_⟩
    · intro memory holds
      rcases (wf.calls i call present).key with valid | ⟨e, other, failed⟩
      · obtain ⟨memoryKey, memoryValid⟩ := memoryJobKey_of_jobKey valid
        exact MemoryStore.claimIfOwner_eq memoryValid holds
      · simp [finished] at failed
    · rw [wrote, ClaimCall.Transfers]
      simp only [ClaimCall.compare_eq_none]
    · intro written
      obtain ⟨later, found, afterwards, same, changed⟩ := effect written
      refine ⟨later, found, afterwards, same, changed, ?_⟩
      obtain ⟨other, equal, undecided⟩ := wrote.mp written
      rw [same, Option.some.injEq] at equal
      subst equal
      rw [same, ClaimCall.atomicAnswer, undecided]
      rfl
  · intro i call owner ended present finished
    obtain ⟨instant, store, _, _, _, same, _, _⟩ := answered present finished
    exact atomicAnswer_active same.symm
  · intro i call answer ended present finished unclaimed
    cases answer with
    | error e =>
        have inside := (wf.calls i call present).pc
        rw [finished] at inside
        exact inside
    | ok result =>
        obtain ⟨instant, store, _, _, _, same, wrote, _⟩ := answered present finished
        by_contra written
        rw [Bool.not_eq_false] at written
        obtain ⟨claimed, atomic⟩ := atomicAnswer_of_transfers (wrote.mp written)
        exact unclaimed claimed (by rw [same, atomic])
  · intro i next taken
    simp only [claimStep, Option.bind_eq_some_iff] at taken
    obtain ⟨call, present, taken⟩ := taken
    exact claimCallStep_kv present taken

namespace Scenario

def claimedId : String := "017sg4fag00000000000000001"

def ownedRecord : PersistentJobRecord := ⟨claimedId, "bol-dev-0", .null, .null, .null, 0⟩

/-- The claim of bol-dev-1 loses one race against an upsert of the owner and wins the next. -/
def claimAfterRace : List ClaimAction :=
  [.upsert ownedRecord, .request claimedId "bol-dev-0" "bol-dev-1", .call 0, .upsert ownedRecord,
    .call 0, .call 0, .call 0]

/-- It loses all three races, and the owner is still the expected one. -/
def claimLosesAllRaces : List ClaimAction :=
  [.upsert ownedRecord, .request claimedId "bol-dev-0" "bol-dev-1", .call 0, .upsert ownedRecord,
    .call 0, .call 0, .upsert ownedRecord, .call 0, .call 0, .upsert ownedRecord, .call 0, .call 0]

def fallbackUnused (s : ClaimState) : ClaimAction → Bool
  | .call i => s.calls[i]?.all fun call => match call.pc with
      | .refreshing => false
      | _ => true
  | _ => true

theorem fallbackUnused_sound (s : ClaimState) (action : ClaimAction)
    (checked : fallbackUnused s action = true) : FallbackDecides s action := by
  cases action with
  | call i =>
      intro call present refreshing
      simp [fallbackUnused, present, refreshing] at checked
  | _ => trivial

def claimedBy (broker : String) : ClaimPc → Bool
  | .done (.ok (.claimed record)) _ => decide (record.brokerId = broker)
  | _ => false

def activeAt (owner : String) : ClaimPc → Bool
  | .done (.ok (.active other)) _ => decide (other = owner)
  | _ => false

theorem of_activeAt {owner : String} {pc : ClaimPc} (active : activeAt owner pc = true) :
    ∃ ended, pc = .done (.ok (.active owner)) ended := by
  unfold activeAt at active
  split at active
  next other ended => exact ⟨ended, by rw [of_decide_eq_true active]⟩
  · simp at active

theorem of_claimedBy {broker : String} {pc : ClaimPc} (claimed : claimedBy broker pc = true) :
    ∃ record ended, pc = .done (.ok (.claimed record)) ended ∧ record.brokerId = broker := by
  unfold claimedBy at claimed
  split at claimed
  next record ended => exact ⟨record, ended, rfl, of_decide_eq_true claimed⟩
  · simp at claimed

end Scenario

open Scenario in
theorem claim_loops_claimAfterRace :
    ∃ (s : ClaimState) (call : ClaimCall) (instant : Nat) (store : JobRecords),
      Path (claimStep .nats) FallbackDecides ClaimState.new claimAfterRace s ∧
      s.calls[0]? = some call ∧ call.wrote = true ∧ call.since ≤ instant ∧
      s.timeline[instant]? = some store ∧
      ∃ found, store.value call.key = some found ∧ found.brokerId = "bol-dev-0" := by
  have ran : (run (fun s action => if fallbackUnused s action then claimStep .nats s action
      else none) ClaimState.new claimAfterRace).any (fun s => s.calls[0]?.any fun call =>
        call.wrote && claimedBy "bol-dev-1" call.pc &&
          decide (call.expectedOwnerBrokerId = "bol-dev-0")) = true := by
    decide +kernel
  obtain ⟨s, finished, checked⟩ := (Option.any_eq_true _ _).mp ran
  obtain ⟨call, present, facts⟩ := (Option.any_eq_true _ _).mp checked
  simp only [Bool.and_eq_true, decide_eq_true_eq] at facts
  obtain ⟨⟨wrote, claimed⟩, expected⟩ := facts
  obtain ⟨record, ended, answer, _⟩ := of_claimedBy claimed
  have path := Path.of_run_if fallbackUnused_sound _ _ finished
  obtain ⟨instant, store, since, _, there, _, transfer, _⟩ :=
    (claim_loops_refine ⟨_, path⟩).1 0 call (.claimed record) ended present answer
  obtain ⟨found, same, _, owner⟩ := transfer.mp wrote
  exact ⟨s, call, instant, store, path, present, wrote, since, there, found, same,
    owner.trans expected⟩

open Scenario in
theorem claim_active_at_expected_owner :
    ¬ ∀ s, Reachable (claimStep .nats) Always ClaimState.new s →
      ∀ (i : Nat) (call : ClaimCall) (owner : String) (ended : Nat), s.calls[i]? = some call →
        call.pc = .done (.ok (.active owner)) ended → owner ≠ call.expectedOwnerBrokerId := by
  intro never
  have ran : (run (claimStep .nats) ClaimState.new claimLosesAllRaces).any (fun s =>
      s.calls[0]?.any fun call => activeAt "bol-dev-0" call.pc &&
        decide (call.expectedOwnerBrokerId = "bol-dev-0")) = true := by
    decide +kernel
  obtain ⟨s, finished, checked⟩ := (Option.any_eq_true _ _).mp ran
  obtain ⟨call, present, facts⟩ := (Option.any_eq_true _ _).mp checked
  rw [Bool.and_eq_true] at facts
  obtain ⟨ended, answer⟩ := of_activeAt facts.1
  exact never s ⟨_, Path.of_run _ _ finished⟩ 0 call "bol-dev-0" ended present answer
    (of_decide_eq_true facts.2).symm

end BitsBroker
