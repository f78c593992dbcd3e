import BitsBroker.Dispatcher.RemoteResults

/-!
Messages of workers on their way to a remote pool. A message carries the identifier of the
job and nothing that names the claim it was sent for, so when a rejected job is dispatched
to the pool again, a message that is still on its way meets the entry of the next claim. The
claims stay apart as long as an identifier is not claimed again while a message about it is
on its way, and a worker is silent about a job that another claim holds.
-/

namespace BitsBroker

open Transition Table DispatcherState

/-- A message with the claim of its sender: the index of the dispatch call. -/
structure Message where
  claim : Nat
  request : WorkerRequest

structure NetState where
  pool : PoolState
  flights : List Message

def NetState.new (pool : RemotePool) (now : Nat) : NetState where
  pool := PoolState.new pool now
  flights := []

inductive NetAction where
  | pool (action : PoolAction)
  | send (message : Message)
  | duplicate (index : Nat)
  | lose (index : Nat)
  | deliver (index : Nat)

def Outcome.claimed {T : Type} : Outcome T → Bool
  | .unclaimed => false
  | _ => true

/-- The worker of a claim knows the identifier of its job. -/
def maySend (s : TargetDispatcher) (message : Message) : Bool :=
  s.items[message.claim]?.any (·.outcome.claimed) &&
    s.callers[message.claim]?.any fun caller => decide (caller.jobId = message.request.jobId)

def netStep (pool : RemotePool) (s : NetState) : NetAction → Option NetState
  | .pool (.serve _) => none
  | .pool action => (poolStep pool s.pool action).map fun next => { s with pool := next }
  | .send message =>
      if maySend s.pool.dispatcher message then some { s with flights := s.flights ++ [message] }
      else none
  | .duplicate index => s.flights[index]?.map fun message =>
      { s with flights := s.flights ++ [message] }
  | .lose index => s.flights[index]?.map fun _ => { s with flights := s.flights.eraseIdx index }
  | .deliver index => s.flights[index]?.bind fun message =>
      (poolStep pool s.pool (.serve message.request)).map fun next =>
        { pool := next, flights := s.flights.eraseIdx index }

/-- The step changes no entry of another claim and resolves none of them. -/
def LeavesOthers (claim : Nat) (s next : TargetDispatcher) : Prop :=
  ∀ jobId entry, s.inProgress.lookup jobId = some entry → entry.item ≠ claim →
    next.inProgress.lookup jobId = some entry ∧ next.items[entry.item]? = s.items[entry.item]?

/-- No claim of an identifier while a message about it is on its way, and no message about a job
that another claim holds. -/
def Orderly (s : NetState) (action : NetAction) : Prop :=
  (∀ jobId inner, action = .pool inner → ClaimsJob jobId s.pool inner →
    ∀ message ∈ s.flights, message.request.jobId ≠ jobId) ∧
  (∀ message, action = .send message → ∀ entry,
    s.pool.dispatcher.inProgress.lookup message.request.jobId = some entry →
    entry.item = message.claim)

/-- Every message on its way finds its own claim or none. -/
structure Apart (s : NetState) : Prop where
  remote : s.pool.dispatcher.workers = []
  fresh (message : Message) : message ∈ s.flights → ∀ entry,
    s.pool.dispatcher.inProgress.lookup message.request.jobId = some entry →
    entry.item = message.claim

section Steps

variable {pool : RemotePool} {s next : NetState} {jobId : String} {entry : InProgressJob}

theorem retain_back (timeout now : Nat) (ids : List String) : ∀ {t : TargetDispatcher},
    (ids.foldl (retainEntry timeout now) t).inProgress.lookup jobId = some entry →
    t.inProgress.lookup jobId = some entry := by
  induction ids with
  | nil => exact id
  | cons id rest ih =>
      intro t found
      have kept := ih found
      unfold retainEntry at kept
      split at kept
      · split at kept
        · exact kept
        · exact lookup_of_settle kept
      · exact kept

/-- Entries come from claims only; a heartbeat leaves the entry with its claim. -/
theorem serve_back {t : TargetDispatcher} (request : WorkerRequest)
    (found : (serve t request).2.inProgress.lookup jobId = some entry) :
    ∃ old, t.inProgress.lookup jobId = some old ∧ old.item = entry.item := by
  cases is : request.outcome with
  | some outcome =>
      rw [serve_of_outcome is] at found
      exact ⟨entry, lookup_of_settle found, rfl⟩
  | none =>
      cases request with
      | heartbeat id =>
          simp only [serve, handleHeartbeat] at found
          split at found
          next old present =>
            rw [HashMap.lookup_insert_eq] at found
            split at found
            next same =>
              subst same
              simp only [Option.some.injEq] at found
              subst found
              exact ⟨old, present, rfl⟩
            · exact ⟨entry, found, rfl⟩
          · exact ⟨entry, found, rfl⟩
      | _ => simp [WorkerRequest.outcome] at is

theorem poolStep_back {t after : PoolState} {action : PoolAction}
    (remote : t.dispatcher.workers = []) (taken : poolStep pool t action = some after)
    (found : after.dispatcher.inProgress.lookup jobId = some entry) :
    ClaimsJob jobId t action ∨
      ∃ old, t.dispatcher.inProgress.lookup jobId = some old ∧ old.item = entry.item := by
  cases action with
  | serve request =>
      simp only [poolStep, Option.some.injEq] at taken
      subst taken
      exact Or.inr (serve_back request found)
  | reaper event =>
      refine Or.inr ⟨entry, ?_, rfl⟩
      cases reaperStep_move taken with
      | ticked _ | stopped _ | finished _ _ | collected _ _ | ended => exact found
      | walked is => exact retain_back _ _ _ found
      | dropped is => exact lookup_of_settle found
  | dispatcher inner =>
      simp only [poolStep] at taken
      split at taken
      · simp at taken
      next elsewhere =>
        simp only [Option.map_eq_some_iff] at taken
        obtain ⟨next, taken, rfl⟩ := taken
        obtain ⟨_, claim⟩ := dispatcherStep_claims remote taken
        dsimp only at found
        cases claim.table with
        | same table =>
            rw [table] at found
            exact Or.inr ⟨entry, found, rfl⟩
        | claimed stepped present submitted table =>
            rw [table, HashMap.lookup_insert_eq] at found
            split at found
            next same =>
              subst same stepped
              exact Or.inl ⟨_, _, _, _, rfl, present, submitted, rfl⟩
            · exact Or.inr ⟨entry, found, rfl⟩
        | beat is _ _ =>
            subst is
            simp [DispatcherAction.onTable] at elsewhere
        | settled operates _ => exact absurd operates elsewhere

theorem poolStep_workers {t after : PoolState} {action : PoolAction}
    (remote : t.dispatcher.workers = []) (taken : poolStep pool t action = some after) :
    after.dispatcher.workers = [] := by
  cases action with
  | serve request =>
      simp only [poolStep, Option.some.injEq] at taken
      subst taken
      exact (serve_tableOnly _ request).workers.trans remote
  | reaper event =>
      cases reaperStep_move taken with
      | ticked _ | stopped _ | finished _ _ | collected _ _ | ended => exact remote
      | walked is => exact (retain_tableOnly _ _ _).workers.trans remote
      | dropped is => exact (settle_tableOnly _ _ _).workers.trans remote
  | dispatcher inner =>
      simp only [poolStep] at taken
      split at taken
      · simp at taken
      · simp only [Option.map_eq_some_iff] at taken
        obtain ⟨next, taken, rfl⟩ := taken
        have length := (dispatcherStep_claims remote taken).1.workers
        rw [remote] at length
        exact List.length_eq_zero_iff.mp length

/-- A message that finds its own claim or none leaves the others alone. -/
theorem serve_leaves {t : TargetDispatcher} {claim : Nat} (request : WorkerRequest)
    (own : ∀ entry, t.inProgress.lookup request.jobId = some entry → entry.item = claim) :
    LeavesOthers claim t (serve t request).2 := by
  intro jobId entry found other
  have away : jobId ≠ request.jobId := by
    rintro rfl
    exact other (own entry found)
  cases is : request.outcome with
  | some outcome =>
      rw [serve_of_outcome is]
      cases taken : settle t request.jobId (.sent outcome.toTarget) with
      | none => exact ⟨found, rfl⟩
      | some after =>
          refine ⟨by rw [Option.getD_some, settle_lookup taken, if_neg away, found], ?_⟩
          simp only [settle, Option.bind_eq_some_iff, Option.map_eq_some_iff] at taken
          obtain ⟨held, present, item, _, rfl⟩ := taken
          have different : held.item ≠ entry.item := by
            rw [own held present]
            exact Ne.symm other
          exact List.getElem?_set_ne different
  | none =>
      cases request with
      | heartbeat id =>
          simp only [serve, handleHeartbeat]
          split
          · have different : jobId ≠ id := away
            refine ⟨?_, rfl⟩
            rw [HashMap.lookup_insert_eq, if_neg different, found]
          · exact ⟨found, rfl⟩
      | _ => simp [WorkerRequest.outcome] at is

theorem netStep_deliver {index : Nat} (taken : netStep pool s (.deliver index) = some next) :
    ∃ message, s.flights[index]? = some message ∧
      next.pool.dispatcher = (serve s.pool.dispatcher message.request).2 ∧
      next.flights = s.flights.eraseIdx index := by
  simp only [netStep, poolStep, Option.bind_eq_some_iff, Option.map_some, Option.some.injEq] at taken
  obtain ⟨message, found, rfl⟩ := taken
  exact ⟨message, found, rfl, rfl⟩

theorem Apart.step {action : NetAction} (apart : Apart s) (orderly : Orderly s action)
    (taken : netStep pool s action = some next) : Apart next := by
  obtain ⟨remote, fresh⟩ := apart
  cases action with
  | pool inner =>
      have moved : ∃ after, poolStep pool s.pool inner = some after ∧
          next = { s with pool := after } := by
        cases inner with
        | serve request => simp [netStep] at taken
        | reaper event | dispatcher action =>
            simp only [netStep, Option.map_eq_some_iff] at taken
            obtain ⟨after, taken, rfl⟩ := taken
            exact ⟨after, taken, rfl⟩
      obtain ⟨after, stepped, rfl⟩ := moved
      refine ⟨poolStep_workers remote stepped, ?_⟩
      intro message inFlight entry found
      rcases poolStep_back remote stepped found with claims | ⟨old, present, same⟩
      · exact absurd rfl (orderly.1 _ inner rfl claims message inFlight)
      · rw [← same]
        exact fresh message inFlight old present
  | send message =>
      simp only [netStep] at taken
      split at taken
      · simp only [Option.some.injEq] at taken
        subst taken
        refine ⟨remote, ?_⟩
        intro other inFlight entry found
        rcases List.mem_append.mp inFlight with before | last
        · exact fresh other before entry found
        · simp only [List.mem_singleton] at last
          subst last
          exact orderly.2 other rfl entry found
      · simp at taken
  | duplicate index =>
      simp only [netStep, Option.map_eq_some_iff] at taken
      obtain ⟨message, present, rfl⟩ := taken
      refine ⟨remote, ?_⟩
      intro other inFlight entry found
      rcases List.mem_append.mp inFlight with before | last
      · exact fresh other before entry found
      · simp only [List.mem_singleton] at last
        subst last
        exact fresh other (List.mem_of_getElem? present) entry found
  | lose index =>
      simp only [netStep, Option.map_eq_some_iff] at taken
      obtain ⟨message, present, rfl⟩ := taken
      refine ⟨remote, ?_⟩
      intro other inFlight entry found
      exact fresh other (List.mem_of_mem_eraseIdx inFlight) entry found
  | deliver index =>
      obtain ⟨message, _, dispatcher, flights⟩ := netStep_deliver taken
      refine ⟨by rw [dispatcher, (serve_tableOnly _ _).workers, remote], ?_⟩
      intro other inFlight entry found
      rw [dispatcher] at found
      rw [flights] at inFlight
      obtain ⟨old, present, same⟩ := serve_back message.request found
      rw [← same]
      exact fresh other (List.mem_of_mem_eraseIdx inFlight) old present

theorem Apart.of_path {start : Nat} {actions : List NetAction}
    (path : Path (netStep pool) Orderly (NetState.new pool start) actions s) : Apart s := by
  refine path.invariant ⟨rfl, ?_⟩ fun _ _ _ apart orderly taken => apart.step orderly taken
  intro message inFlight
  simp [NetState.new] at inFlight

end Steps

/-- In an orderly run no message acts on another claim than the one it was sent for. -/
theorem messages_act_on_own_claim {pool : RemotePool} {start : Nat} {actions : List NetAction}
    {s next : NetState} {index : Nat} {message : Message}
    (path : Path (netStep pool) Orderly (NetState.new pool start) actions s)
    (onItsWay : s.flights[index]? = some message)
    (taken : netStep pool s (.deliver index) = some next) :
    LeavesOthers message.claim s.pool.dispatcher next.pool.dispatcher := by
  have apart := Apart.of_path path
  obtain ⟨sent, found, dispatcher, _⟩ := netStep_deliver taken
  obtain rfl := Option.some.inj (onItsWay.symm.trans found)
  rw [dispatcher]
  exact serve_leaves message.request (apart.fresh message (List.mem_of_getElem? onItsWay))

def orderly (s : NetState) : NetAction → Bool
  | .pool (.dispatcher (.handler i .step)) => s.pool.dispatcher.handlers[i]?.all fun
      | .claiming job _ => s.pool.dispatcher.jobs[job]?.all fun handle =>
          s.flights.all fun message => decide (message.request.jobId ≠ handle.job.id)
      | _ => true
  | .send message => (s.pool.dispatcher.inProgress.lookup message.request.jobId).all fun entry =>
      decide (entry.item = message.claim)
  | _ => true

theorem orderly_sound (s : NetState) (action : NetAction) (checked : orderly s action = true) :
    Orderly s action := by
  constructor
  · rintro jobId inner rfl ⟨i, job, c, handle, rfl, present, submitted, rfl⟩ message inFlight
    simp only [orderly, present, Option.all_some, submitted, List.all_eq_true,
      decide_eq_true_eq] at checked
    exact checked message inFlight
  · rintro message rfl entry found
    simpa [orderly, found] using checked

namespace Scenario

def inPool (actions : List (DispatcherAction TargetResult)) : List NetAction :=
  actions.map fun action => .pool (.dispatcher action)

/-- Call `i` of the job is queued and claimed by a worker. -/
def claimCall (i : Nat) : List NetAction :=
  inPool ([.dispatch 0 .none] ++ List.replicate 5 (.call i .step) ++
    [.getWork, .handler i (.dequeue 0)] ++ List.replicate 6 (.handler i .step))

/-- The rejection reaches the call. -/
def returnCall (i : Nat) : List NetAction :=
  inPool [.forward i, .call i .step, .call i .step, .call i .reply]

def rejection : Message := ⟨0, rejectJob⟩

def secondHeartbeat : Message := ⟨1, .heartbeat "job"⟩

/-- The first worker rejects the job, the next route names the same target, and the second
worker sends a heartbeat. -/
def rejectedThenHeld : List NetAction :=
  inPool [.submit (userJob "job")] ++ claimCall 0 ++ [.send rejection, .deliver 0] ++ returnCall 0 ++
    inPool [.advance 3] ++ claimCall 1 ++ [.send secondHeartbeat]

/-- The rejection is duplicated on its way, and one copy is late. -/
def rejectedTwice : List NetAction :=
  inPool [.submit (userJob "job")] ++ claimCall 0 ++
    [.send rejection, .duplicate 0, .deliver 0] ++ returnCall 0 ++ inPool [.advance 3] ++ claimCall 1

def heldBySecond (s : NetState) : Bool :=
  decide (s.pool.dispatcher.inProgress.lookup "job" = some ⟨1, 3⟩)

def isSecondHeartbeat : Message → Bool
  | ⟨1, .heartbeat jobId⟩ => decide (jobId = "job")
  | _ => false

def isRejection : Message → Bool
  | ⟨0, .completeReject jobId reason⟩ => decide (jobId = "job") && decide (reason = "no data")
  | _ => false

theorem isSecondHeartbeat_eq {message : Message} (checked : isSecondHeartbeat message = true) :
    message = secondHeartbeat := by
  unfold isSecondHeartbeat at checked
  split at checked
  · simpa [secondHeartbeat] using checked
  · simp at checked

theorem isRejection_eq {message : Message} (checked : isRejection message = true) :
    message = rejection := by
  unfold isRejection at checked
  split at checked
  · simpa [rejection, rejectJob] using checked
  · simp at checked

end Scenario

open Scenario in
theorem messages_act_on_own_claim_second :
    ∃ s next, Path (netStep workerPool) Orderly (NetState.new workerPool 0) rejectedThenHeld s ∧
      s.pool.dispatcher.inProgress.lookup "job" = some ⟨1, 3⟩ ∧
      s.flights[0]? = some secondHeartbeat ∧ netStep workerPool s (.deliver 0) = some next ∧
      LeavesOthers 1 s.pool.dispatcher next.pool.dispatcher := by
  have ran : (run (fun s action => if orderly s action then netStep workerPool s action else none)
      (NetState.new workerPool 0) rejectedThenHeld).any (fun s => heldBySecond s &&
        s.flights[0]?.any isSecondHeartbeat) = true := by decide +kernel
  obtain ⟨s, finished, checked⟩ := (Option.any_eq_true _ _).mp ran
  simp only [heldBySecond, Bool.and_eq_true, decide_eq_true_eq] at checked
  obtain ⟨message, onItsWay, beats⟩ := (Option.any_eq_true _ _).mp checked.2
  obtain rfl := isSecondHeartbeat_eq beats
  have path := Path.of_run_if orderly_sound _ _ finished
  have taken : netStep workerPool s (.deliver 0) = some
      ⟨{ s.pool with dispatcher := (serve s.pool.dispatcher secondHeartbeat.request).2 },
        s.flights.eraseIdx 0⟩ := by
    simp [netStep, onItsWay, poolStep]
  exact ⟨s, _, path, checked.1, onItsWay, taken, messages_act_on_own_claim path onItsWay taken⟩

open Scenario in
/-- A late copy of the first worker's rejection resolves the claim of the second worker. -/
theorem late_message_resolves_next_claim :
    ¬ ∀ (pool : RemotePool) (start : Nat) (actions : List NetAction) (s next : NetState)
      (index : Nat) (message : Message),
      Path (netStep pool) Always (NetState.new pool start) actions s →
      s.flights[index]? = some message → netStep pool s (.deliver index) = some next →
      LeavesOthers message.claim s.pool.dispatcher next.pool.dispatcher := by
  intro holds
  have ran : (run (netStep workerPool) (NetState.new workerPool 0) rejectedTwice).any (fun s =>
      heldBySecond s && s.flights[0]?.any isRejection &&
        decide ((serve s.pool.dispatcher rejectJob).2.inProgress.lookup "job" = none)) = true := by
    decide +kernel
  obtain ⟨s, finished, checked⟩ := (Option.any_eq_true _ _).mp ran
  simp only [heldBySecond, Bool.and_eq_true, decide_eq_true_eq] at checked
  obtain ⟨⟨held, late⟩, gone⟩ := checked
  obtain ⟨message, onItsWay, rejects⟩ := (Option.any_eq_true _ _).mp late
  obtain rfl := isRejection_eq rejects
  have taken : netStep workerPool s (.deliver 0) = some
      ⟨{ s.pool with dispatcher := (serve s.pool.dispatcher rejectJob).2 },
        s.flights.eraseIdx 0⟩ := by
    simp [netStep, onItsWay, poolStep, rejection]
  have kept := holds workerPool 0 rejectedTwice s _ 0 rejection (Path.of_run _ _ finished) onItsWay
    taken "job" ⟨1, 3⟩ held (by decide)
  rw [gone] at kept
  simp at kept

end BitsBroker
