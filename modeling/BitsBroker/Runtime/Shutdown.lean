import BitsBroker.Runtime.Heartbeat

/-!
The end of a broker. Three threads work behind it: the cleanup worker deletes the durable records
whose results were delivered, the sweeper removes results that nobody fetched, and the heartbeat
renews the lease. Dropping the broker closes the routes, tells the worker server and the threads to
stop, hangs up the channel of the cleanup worker and joins the threads one after the other.

What the sweeper finds in the map of jobs, how long the store takes and how many jobs run is left
open. `scheduled` are the deletions that polls handed to the cleanup worker, `log` are the calls
that the threads made to the store, and `stoppedAt` is when the signal was given; no code reads
them.
-/

namespace BitsBroker

open Transition

namespace Shutdown

inductive CleanupPc where
  | starting
  | receiving
  | deleting (id : String)
  | ended
deriving DecidableEq

inductive SweeperPc where
  | starting
  | waiting
  | parked
  | checking
  | scanning
  | removing (expired : List String)
  | deleting (id : String) (expired : List String)
  | reclaiming
  | ended
deriving DecidableEq

inductive DropPc where
  | alive
  | routesClosed
  | workersTold
  | signalled
  | hungUp
  | cleanupJoined
  | sweeperJoined
  | dropped
deriving DecidableEq

inductive StoreEvent where
  | cleanup (id : String)
  | sweep (id : String)
  | reclaim
  | lease (call : Heartbeat.StoreCall)

structure State where
  stopped : Bool
  now : Nat
  inFlight : Nat
  queue : List String
  cleanup : Option CleanupPc
  cleanupBuilt : Bool
  sweeper : SweeperPc
  sweeperRuntime : Bool
  heartbeat : Option Heartbeat.Pc
  drop : DropPc
  scheduled : List String
  log : List StoreEvent
  stoppedAt : Option Nat

/-- A broker with all of its threads, or without a store and with the sweeper only. -/
def State.new (store : Bool) (now : Nat) : State where
  stopped := false
  now := now
  inFlight := 0
  queue := []
  cleanup := if store then some .starting else none
  cleanupBuilt := false
  sweeper := .starting
  sweeperRuntime := false
  heartbeat := if store then some .starting else none
  drop := .alive
  scheduled := []
  log := []
  stoppedAt := none

inductive CleanupMove where
  | start (built : Bool)
  | step
  | answer

inductive SweeperMove where
  | start (built : Bool)
  | step
  | wake
  | scan (expired : List String)
  | remove (removed persisted : Bool)
  | answer

inductive Action where
  | cleanup (move : CleanupMove)
  | sweeper (move : SweeperMove)
  | heartbeat (move : Heartbeat.Move)
  | drop
  | schedule (id : String)
  | running (jobs : Nat)
  | advance (duration : Nat)

/-- How far `drop` has come. -/
def DropPc.index : DropPc → Nat
  | .alive => 0
  | .routesClosed => 1
  | .workersTold => 2
  | .signalled => 3
  | .hungUp => 4
  | .cleanupJoined => 5
  | .sweeperJoined => 6
  | .dropped => 7

def cleanupStep (s : State) : CleanupPc → CleanupMove → Option State
  | .starting, .start true => some { s with cleanup := some .receiving, cleanupBuilt := true }
  | .starting, .start false => some { s with cleanup := some .ended, queue := [] }
  | .receiving, .step =>
      match s.queue with
      | id :: rest => some { s with cleanup := some (.deleting id), queue := rest }
      | [] => if 4 ≤ s.drop.index then some { s with cleanup := some .ended } else none
  | .deleting id, .answer =>
      some { s with cleanup := some .receiving, log := s.log ++ [.cleanup id] }
  | _, _ => none

def sweeperStep (s : State) : SweeperPc → SweeperMove → Option State
  | .starting, .start built =>
      some { s with sweeper := .waiting, sweeperRuntime := s.cleanup.isSome && built }
  | .waiting, .step => some { s with sweeper := if s.stopped then .checking else .parked }
  | .parked, .wake => some { s with sweeper := .checking }
  | .checking, .step => some { s with sweeper := if s.stopped then .ended else .scanning }
  | .scanning, .scan expired => some { s with sweeper := .removing expired }
  | .removing (id :: rest), .remove removed persisted =>
      some { s with sweeper :=
        if removed && persisted && s.sweeperRuntime then .deleting id rest else .removing rest }
  | .removing [], .step =>
      some { s with sweeper := if s.sweeperRuntime then .reclaiming else .waiting }
  | .deleting id rest, .answer =>
      some { s with sweeper := .removing rest, log := s.log ++ [.sweep id] }
  | .reclaiming, .answer => some { s with sweeper := .waiting, log := s.log ++ [.reclaim] }
  | _, _ => none

def heartbeatStep (settings : Heartbeat.Settings) (s : State) (pc : Heartbeat.Pc)
    (move : Heartbeat.Move) : Option State :=
  (Heartbeat.move settings ⟨s.stopped, s.inFlight, s.now⟩ pc move).map fun moved =>
    { s with
      heartbeat := some moved.1
      log := s.log ++ (moved.2.map StoreEvent.lease).toList }

/-- The signal wakes the threads that wait for it. -/
def State.signal (s : State) : State :=
  { s with
    stopped := true
    sweeper := if s.sweeper = .parked then .checking else s.sweeper
    heartbeat := s.heartbeat.map fun pc => (Heartbeat.notifyAll s.now (pc, s.now)).1
    stoppedAt := some s.now }

def dropStep (s : State) : DropPc → Option State
  | .alive => some { s with drop := .routesClosed }
  | .routesClosed => some { s with drop := .workersTold }
  | .workersTold => some { s.signal with drop := .signalled }
  | .signalled => some { s with drop := .hungUp }
  | .hungUp =>
      if s.cleanup.all (· = .ended) then some { s with drop := .cleanupJoined } else none
  | .cleanupJoined => if s.sweeper = .ended then some { s with drop := .sweeperJoined } else none
  | .sweeperJoined =>
      if s.heartbeat.all (· = .ended) then some { s with drop := .dropped } else none
  | .dropped => none

/-- A poll borrows the broker, so nothing is scheduled once the broker is being dropped. -/
def scheduleDurableCleanup (s : State) (id : String) : Option State :=
  if s.drop = .alive then
    if s.cleanup.isSome && s.cleanup ≠ some .ended then
      some { s with queue := s.queue ++ [id], scheduled := s.scheduled ++ [id] }
    else some s
  else none

def step (settings : Heartbeat.Settings) (s : State) : Action → Option State
  | .cleanup move => s.cleanup.bind fun pc => cleanupStep s pc move
  | .sweeper move => sweeperStep s s.sweeper move
  | .heartbeat move => s.heartbeat.bind fun pc => heartbeatStep settings s pc move
  | .drop => dropStep s s.drop
  | .schedule id => scheduleDurableCleanup s id
  | .running jobs => some { s with inFlight := jobs }
  | .advance duration => some { s with now := s.now + duration }

/-- A step of a thread or of `drop`. -/
def Action.isThread : Action → Bool
  | .cleanup _ | .sweeper _ | .heartbeat _ | .drop => true
  | .schedule _ | .running _ | .advance _ => false

def StoreEvent.cleaned : StoreEvent → Option String
  | .cleanup id => some id
  | _ => none

def StoreEvent.leased : StoreEvent → Option Heartbeat.StoreCall
  | .lease call => some call
  | _ => none

def CleanupPc.inHand : CleanupPc → List String
  | .deleting id => [id]
  | _ => []

/-- The number of steps left to a sweeper that was told to stop, if its scans find nothing. -/
def SweeperPc.rank : SweeperPc → Nat
  | .starting => 3
  | .waiting | .parked => 2
  | .checking => 1
  | .scanning => 5
  | .removing expired => 2 * expired.length + 4
  | .deleting _ expired => 2 * expired.length + 5
  | .reclaiming => 3
  | .ended => 0

/-- The number of naps of 50 ms until a deadline. -/
def naps (left : Nat) : Nat := (left + 49999999) / 50000000

def heartbeatRank (settings : Heartbeat.Settings) (now : Nat) : Heartbeat.Pc → Nat
  | .starting => 2 * naps settings.brokerLeaseTtl + 5
  | .looping | .retrying => 2 * naps settings.brokerLeaseTtl + 4
  | .rested | .failed | .parked _ | .backoff _ => 2 * naps settings.brokerLeaseTtl + 5
  | .renewing _ | .renewingAgain _ => 2 * naps settings.brokerLeaseTtl + 6
  | .leaving => 2 * naps settings.brokerLeaseTtl + 3
  | .draining deadline => 2 * naps (deadline - now) + 2
  | .sleeping wakeAt deadline => 2 * naps (deadline - wakeAt) + 3
  | .deleting => 1
  | .ended => 0

def CleanupPc.rank : CleanupPc → Nat
  | .starting | .deleting _ => 2
  | .receiving => 1
  | .ended => 0

/-- The number of steps left to all threads and to `drop` once the signal is given. -/
def rank (settings : Heartbeat.Settings) (s : State) : Nat :=
  (s.cleanup.elim 0 fun pc => pc.rank + 2 * s.queue.length) + s.sweeper.rank +
    s.heartbeat.elim 0 (heartbeatRank settings s.now) + (7 - s.drop.index)

/-- The number of expired jobs that a step finds. -/
def Action.found : Action → Nat
  | .sweeper (.scan expired) => expired.length
  | _ => 0

/-- The number of expired jobs that the sweeper finds in a run. -/
def scanned (actions : List Action) : Nat := actions.foldr (fun action sum => action.found + sum) 0

/-- Only threads and `drop` take steps, and time passes. -/
def Inside (_ : State) (action : Action) : Prop :=
  action.isThread = true ∨ ∃ duration, action = .advance duration

/-- The thread waits for the signal. -/
def isParked : Heartbeat.Pc → Bool
  | .backoff _ | .parked _ => true
  | _ => false

/-- The flag is set where `drop` sets it, no thread waits for a signal that was given, and `drop`
has passed only threads that have ended. -/
structure Ordered (s : State) : Prop where
  flag : s.stopped = decide (3 ≤ s.drop.index)
  sweeperAwake : s.stopped = true → s.sweeper ≠ .parked
  heartbeatAwake : s.stopped = true → s.heartbeat.all (!isParked ·) = true
  cleanupJoined : 5 ≤ s.drop.index → s.cleanup.all (· = .ended) = true
  sweeperJoined : 6 ≤ s.drop.index → s.sweeper = .ended
  heartbeatJoined : 7 ≤ s.drop.index → s.heartbeat.all (· = .ended) = true

/-- What was scheduled has been deleted, is being deleted or is in the channel, in this order. -/
structure Accounted (s : State) : Prop where
  begun : s.cleanupBuilt = true → s.cleanup.any (· ≠ .starting) = true
  kept : s.cleanupBuilt = true → s.scheduled =
    s.log.filterMap StoreEvent.cleaned ++ s.cleanup.elim [] CleanupPc.inHand ++ s.queue
  unbuilt : s.cleanupBuilt = false →
    s.log.filterMap StoreEvent.cleaned = [] ∧ (s.cleanup = some .starting → s.queue = s.scheduled) ∧
      (s.cleanup = none ∨ s.cleanup = some .starting ∨ s.cleanup = some .ended)
  emptied : s.cleanupBuilt = true → s.cleanup = some .ended → s.queue = [] ∧ 4 ≤ s.drop.index

/-- The deadline of the drain. -/
def drainsUntil : Heartbeat.Pc → Option Nat
  | .draining deadline | .sleeping _ deadline => some deadline
  | _ => none

/-- The broker has stopped and its jobs have finished, or they had the lifetime of a lease to do
so. -/
def JobsDrained (settings : Heartbeat.Settings) (s : State) : Prop :=
  s.stopped = true ∧ (s.inFlight = 0 ∨
    ∃ signalled, s.stoppedAt = some signalled ∧ signalled + settings.brokerLeaseTtl ≤ s.now)

/-- The lease calls end with one deletion, if there is one. -/
def EndsWithDelete (calls : List Heartbeat.StoreCall) : Prop :=
  ∃ front, calls = front ++ [.deleteBrokerLease] ∧ .deleteBrokerLease ∉ front

/-- The drain begins after the signal and lasts as long as a lease, and the deletion of the lease
is the last thing that the heartbeat does. -/
structure Drained (settings : Heartbeat.Settings) (s : State) : Prop where
  out : ∀ pc, s.heartbeat = some pc → pc.isOut = true → s.stopped = true
  signalled : s.stopped = true → ∃ signalled, s.stoppedAt = some signalled ∧ signalled ≤ s.now
  deadline : ∀ pc until_, s.heartbeat = some pc → drainsUntil pc = some until_ →
    ∃ signalled, s.stoppedAt = some signalled ∧ signalled + settings.brokerLeaseTtl ≤ until_
  last : .deleteBrokerLease ∈ s.log.filterMap StoreEvent.leased →
    s.heartbeat = some .ended ∧ EndsWithDelete (s.log.filterMap StoreEvent.leased)

section Moves

variable {settings : Heartbeat.Settings} {s next : State}

theorem cleanupStep_frame {pc : CleanupPc} {m : CleanupMove}
    (taken : cleanupStep s pc m = some next) :
    next = { s with
      cleanup := next.cleanup, cleanupBuilt := next.cleanupBuilt, queue := next.queue,
      log := next.log } := by
  unfold cleanupStep at taken
  split at taken
  case h_3 =>
    split at taken
    · cases taken
      rfl
    · split at taken
      · cases taken
        rfl
      · cases taken
  all_goals
    cases taken
    try rfl

theorem sweeperStep_frame {pc : SweeperPc} {m : SweeperMove}
    (taken : sweeperStep s pc m = some next) :
    next = { s with
      sweeper := next.sweeper, sweeperRuntime := next.sweeperRuntime, log := next.log } := by
  unfold sweeperStep at taken
  split at taken
  all_goals
    cases taken
    try rfl

theorem heartbeatStep_inv {pc : Heartbeat.Pc} {m : Heartbeat.Move}
    (taken : heartbeatStep settings s pc m = some next) :
    ∃ moved, Heartbeat.move settings ⟨s.stopped, s.inFlight, s.now⟩ pc m = some moved ∧
      next = { s with
        heartbeat := some moved.1, log := s.log ++ (moved.2.map StoreEvent.lease).toList } := by
  obtain ⟨moved, moves, rfl⟩ := Option.map_eq_some_iff.mp taken
  exact ⟨moved, moves, rfl⟩

theorem schedule_frame {id : String} (taken : scheduleDurableCleanup s id = some next) :
    s.drop = .alive ∧ next = { s with queue := next.queue, scheduled := next.scheduled } := by
  unfold scheduleDurableCleanup at taken
  split at taken
  next alive =>
    split at taken
    · cases taken
      exact ⟨alive, rfl⟩
    · cases taken
      exact ⟨alive, rfl⟩
  next => cases taken

theorem sweeperStep_awake {pc : SweeperPc} {m : SweeperMove}
    (taken : sweeperStep s pc m = some next) (stopped : s.stopped = true) :
    next.sweeper ≠ .parked := by
  unfold sweeperStep at taken
  split at taken
  all_goals
    cases taken
    try simp [stopped]
  all_goals split <;> simp

theorem heartbeatMove_awake {view : Heartbeat.View} {pc : Heartbeat.Pc} {m : Heartbeat.Move}
    {moved : Heartbeat.Pc × Option Heartbeat.StoreCall}
    (taken : Heartbeat.move settings view pc m = some moved) (stopped : view.stopped = true) :
    isParked moved.1 = false := by
  unfold Heartbeat.move at taken
  split at taken
  all_goals
    try simp only [stopped, if_true] at taken
    try split at taken
    all_goals
      cases taken
      try rfl

theorem isParked_notifyAll (now : Nat) (pc : Heartbeat.Pc) :
    isParked (Heartbeat.notifyAll now (pc, now)).1 = false := by
  cases pc <;> rfl

theorem Ordered.drop (ordered : Ordered s) (taken : dropStep s s.drop = some next) :
    Ordered next := by
  have flag := ordered.flag
  unfold dropStep at taken
  split at taken
  next at_ =>
    cases taken
    rw [at_] at flag
    exact ⟨flag, ordered.sweeperAwake, ordered.heartbeatAwake, by simp [DropPc.index],
      by simp [DropPc.index], by simp [DropPc.index]⟩
  next at_ =>
    cases taken
    rw [at_] at flag
    exact ⟨flag, ordered.sweeperAwake, ordered.heartbeatAwake, by simp [DropPc.index],
      by simp [DropPc.index], by simp [DropPc.index]⟩
  next at_ =>
    cases taken
    constructor
    · rfl
    · intro _ parked
      revert parked
      simp only [State.signal]
      split <;> simp_all
    · intro _
      simp only [State.signal]
      cases s.heartbeat with
      | none => rfl
      | some pc => simp [isParked_notifyAll]
    · simp [DropPc.index]
    · simp [DropPc.index]
    · simp [DropPc.index]
  next at_ =>
    cases taken
    rw [at_] at flag
    exact ⟨flag, ordered.sweeperAwake, ordered.heartbeatAwake, by simp [DropPc.index],
      by simp [DropPc.index], by simp [DropPc.index]⟩
  next at_ =>
    split at taken
    next ended =>
      cases taken
      rw [at_] at flag
      exact ⟨flag, ordered.sweeperAwake, ordered.heartbeatAwake, fun _ => ended,
        by simp [DropPc.index], by simp [DropPc.index]⟩
    next => cases taken
  next at_ =>
    split at taken
    next ended =>
      cases taken
      rw [at_] at flag
      have joined := ordered.cleanupJoined (by rw [at_]; decide)
      exact ⟨flag, ordered.sweeperAwake, ordered.heartbeatAwake, fun _ => joined, fun _ => ended,
        by simp [DropPc.index]⟩
    next => cases taken
  next at_ =>
    split at taken
    next ended =>
      cases taken
      rw [at_] at flag
      have joined := ordered.cleanupJoined (by rw [at_]; decide)
      have swept := ordered.sweeperJoined (by rw [at_]; decide)
      exact ⟨flag, ordered.sweeperAwake, ordered.heartbeatAwake, fun _ => joined, fun _ => swept,
        fun _ => ended⟩
    next => cases taken
  next => cases taken

theorem Ordered.taken {action : Action} (ordered : Ordered s)
    (taken : step settings s action = some next) : Ordered next := by
  cases action with
  | cleanup m =>
      obtain ⟨pc, present, moves⟩ := Option.bind_eq_some_iff.mp taken
      rw [cleanupStep_frame moves]
      refine ⟨ordered.flag, ordered.sweeperAwake, ordered.heartbeatAwake, ?_, ordered.sweeperJoined,
        ordered.heartbeatJoined⟩
      intro later
      have ended := ordered.cleanupJoined later
      rw [present] at ended
      obtain rfl : pc = .ended := by simpa using ended
      cases m <;> cases moves
  | sweeper m =>
      have moves : sweeperStep s s.sweeper m = some next := taken
      have awake := sweeperStep_awake moves
      rw [sweeperStep_frame moves]
      refine ⟨ordered.flag, awake, ordered.heartbeatAwake, ordered.cleanupJoined, ?_,
        ordered.heartbeatJoined⟩
      intro later
      rw [ordered.sweeperJoined later] at moves
      cases m <;> cases moves
  | heartbeat m =>
      obtain ⟨pc, present, moves⟩ := Option.bind_eq_some_iff.mp taken
      obtain ⟨moved, effect, rfl⟩ := heartbeatStep_inv moves
      refine ⟨ordered.flag, ordered.sweeperAwake, ?_, ordered.cleanupJoined, ordered.sweeperJoined,
        ?_⟩
      · intro stopped
        simp [heartbeatMove_awake effect stopped]
      · intro later
        have ended := ordered.heartbeatJoined later
        rw [present] at ended
        obtain rfl : pc = .ended := by simpa using ended
        cases m <;> cases effect
  | drop => exact ordered.drop taken
  | schedule id =>
      rw [(schedule_frame taken).2]
      exact ⟨ordered.flag, ordered.sweeperAwake, ordered.heartbeatAwake, ordered.cleanupJoined,
        ordered.sweeperJoined, ordered.heartbeatJoined⟩
  | running jobs =>
      cases taken
      exact ⟨ordered.flag, ordered.sweeperAwake, ordered.heartbeatAwake, ordered.cleanupJoined,
        ordered.sweeperJoined, ordered.heartbeatJoined⟩
  | advance duration =>
      cases taken
      exact ⟨ordered.flag, ordered.sweeperAwake, ordered.heartbeatAwake, ordered.cleanupJoined,
        ordered.sweeperJoined, ordered.heartbeatJoined⟩

theorem Ordered.new (store : Bool) (now : Nat) : Ordered (State.new store now) := by
  constructor <;> simp [State.new, DropPc.index]

theorem Accounted.new (store : Bool) (now : Nat) : Accounted (State.new store now) := by
  constructor
  · intro built
    cases built
  · intro built
    cases built
  · intro _
    refine ⟨rfl, fun _ => rfl, ?_⟩
    cases store <;> simp [State.new]
  · intro built
    cases built

/-- A step that neither touches the channel nor calls the store for the cleanup worker. -/
theorem Accounted.frame (accounted : Accounted s) (cleanup : next.cleanup = s.cleanup)
    (built : next.cleanupBuilt = s.cleanupBuilt) (queue : next.queue = s.queue)
    (scheduled : next.scheduled = s.scheduled)
    (log : next.log.filterMap StoreEvent.cleaned = s.log.filterMap StoreEvent.cleaned)
    (index : s.drop.index ≤ next.drop.index) : Accounted next := by
  constructor
  · rw [cleanup, built]
    exact accounted.begun
  · rw [cleanup, built, queue, scheduled, log]
    exact accounted.kept
  · rw [cleanup, built, queue, scheduled, log]
    exact accounted.unbuilt
  · rw [cleanup, built, queue]
    intro isBuilt ended
    obtain ⟨empty, hungUp⟩ := accounted.emptied isBuilt ended
    exact ⟨empty, Nat.le_trans hungUp index⟩

theorem sweeperStep_log {pc : SweeperPc} {m : SweeperMove}
    (taken : sweeperStep s pc m = some next) :
    next.log.filterMap StoreEvent.cleaned = s.log.filterMap StoreEvent.cleaned ∧
      next.log.filterMap StoreEvent.leased = s.log.filterMap StoreEvent.leased := by
  unfold sweeperStep at taken
  split at taken
  all_goals
    cases taken
    try simp [StoreEvent.cleaned, StoreEvent.leased]

theorem cleaned_lease (effect : Option Heartbeat.StoreCall) :
    (effect.map StoreEvent.lease).toList.filterMap StoreEvent.cleaned = [] := by
  cases effect <;> rfl

theorem dropStep_frame {pc : DropPc} (taken : dropStep s pc = some next) :
    next.cleanup = s.cleanup ∧ next.cleanupBuilt = s.cleanupBuilt ∧ next.queue = s.queue ∧
      next.scheduled = s.scheduled ∧ next.log = s.log ∧ next.drop.index = pc.index + 1 := by
  unfold dropStep at taken
  split at taken
  case h_8 => cases taken
  all_goals
    try split at taken
    all_goals
      cases taken
      try exact ⟨rfl, rfl, rfl, rfl, rfl, rfl⟩

theorem Accounted.cleanup {pc : CleanupPc} {m : CleanupMove} (accounted : Accounted s)
    (present : s.cleanup = some pc) (taken : cleanupStep s pc m = some next) :
    Accounted next := by
  have isBuilt : pc ≠ .starting → pc ≠ .ended → s.cleanupBuilt = true := by
    intro begun unended
    cases built : s.cleanupBuilt with
    | true => rfl
    | false =>
        rcases (accounted.unbuilt built).2.2 with none_ | starting | ended
        · rw [present] at none_
          cases none_
        · rw [present] at starting
          exact absurd (Option.some.inj starting) begun
        · rw [present] at ended
          exact absurd (Option.some.inj ended) unended
  have notBuilt : pc = .starting → s.cleanupBuilt = false := by
    rintro rfl
    cases built : s.cleanupBuilt with
    | false => rfl
    | true =>
        have begun := accounted.begun built
        simp [present] at begun
  unfold cleanupStep at taken
  split at taken
  next =>
    cases taken
    have unbuilt := notBuilt rfl
    obtain ⟨none_, same, _⟩ := accounted.unbuilt unbuilt
    constructor
    · intro _
      simp
    · intro _
      simp [none_, same present, CleanupPc.inHand]
    · intro built
      cases built
    · intro _ ended
      cases ended
  next =>
    cases taken
    have unbuilt := notBuilt rfl
    have unbuilt' : ¬s.cleanupBuilt = true := by simp [unbuilt]
    constructor
    · intro built
      exact absurd built unbuilt'
    · intro built
      exact absurd built unbuilt'
    · intro _
      exact ⟨(accounted.unbuilt unbuilt).1, by simp, Or.inr (Or.inr rfl)⟩
    · intro built
      exact absurd built unbuilt'
  next =>
    have built := isBuilt (by simp) (by simp)
    have kept := accounted.kept built
    have notUnbuilt : ¬s.cleanupBuilt = false := by simp [built]
    split at taken
    next id rest channel =>
      cases taken
      constructor
      · intro _
        simp
      · intro _
        rw [kept, present, channel]
        simp [CleanupPc.inHand]
      · intro unbuilt
        exact absurd unbuilt notUnbuilt
      · intro _ ended
        cases ended
    next channel =>
      split at taken
      next hungUp =>
        cases taken
        constructor
        · intro _
          simp
        · intro _
          rw [kept, present]
          rfl
        · intro unbuilt
          exact absurd unbuilt notUnbuilt
        · intro _ _
          exact ⟨channel, hungUp⟩
      next => cases taken
  next id =>
    cases taken
    have built := isBuilt (by simp) (by simp)
    have kept := accounted.kept built
    have notUnbuilt : ¬s.cleanupBuilt = false := by simp [built]
    constructor
    · intro _
      simp
    · intro _
      rw [kept, present]
      simp [CleanupPc.inHand, StoreEvent.cleaned]
    · intro unbuilt
      exact absurd unbuilt notUnbuilt
    · intro _ ended
      cases ended
  next => cases taken

theorem Accounted.schedule {id : String} (accounted : Accounted s)
    (taken : scheduleDurableCleanup s id = some next) : Accounted next := by
  unfold scheduleDurableCleanup at taken
  split at taken
  next =>
    split at taken
    next open_ =>
      cases taken
      obtain ⟨_, unended⟩ := Bool.and_eq_true_iff.mp open_
      have unended : s.cleanup ≠ some .ended := of_decide_eq_true unended
      constructor
      · exact accounted.begun
      · intro built
        show s.scheduled ++ [id] = _
        rw [accounted.kept built, List.append_assoc]
      · intro unbuilt
        obtain ⟨none_, same, where_⟩ := accounted.unbuilt unbuilt
        refine ⟨none_, ?_, where_⟩
        intro starting
        show s.queue ++ [id] = s.scheduled ++ [id]
        rw [same starting]
      · intro _ ended
        exact absurd ended unended
    next =>
      cases taken
      exact accounted
  next => cases taken

theorem Accounted.taken {action : Action} (accounted : Accounted s)
    (taken : step settings s action = some next) : Accounted next := by
  cases action with
  | cleanup m =>
      obtain ⟨pc, present, moves⟩ := Option.bind_eq_some_iff.mp taken
      exact accounted.cleanup present moves
  | sweeper m =>
      have moves : sweeperStep s s.sweeper m = some next := taken
      have log := (sweeperStep_log moves).1
      have frame := sweeperStep_frame moves
      exact accounted.frame (by rw [frame]) (by rw [frame]) (by rw [frame]) (by rw [frame]) log
        (by rw [frame])
  | heartbeat m =>
      obtain ⟨pc, present, moves⟩ := Option.bind_eq_some_iff.mp taken
      obtain ⟨moved, _, rfl⟩ := heartbeatStep_inv moves
      refine accounted.frame rfl rfl rfl rfl ?_ le_rfl
      simp [cleaned_lease]
  | drop =>
      obtain ⟨cleanup, built, queue, scheduled, log, index⟩ := dropStep_frame taken
      exact accounted.frame cleanup built queue scheduled (by rw [log]) (by omega)
  | schedule id => exact accounted.schedule taken
  | running jobs =>
      cases taken
      exact accounted.frame rfl rfl rfl rfl rfl le_rfl
  | advance duration =>
      cases taken
      exact accounted.frame rfl rfl rfl rfl rfl le_rfl

/-- A broker whose `drop` has returned: no thread is left, and nothing that was scheduled is. -/
theorem ended_of_dropped (ordered : Ordered s) (dropped : s.drop = .dropped) :
    s.cleanup.all (· = .ended) = true ∧ s.sweeper = .ended ∧
      s.heartbeat.all (· = .ended) = true := by
  refine ⟨ordered.cleanupJoined ?_, ordered.sweeperJoined ?_, ordered.heartbeatJoined ?_⟩ <;>
    rw [dropped] <;> decide

theorem Accounted.cleaned_of_dropped (accounted : Accounted s) (ordered : Ordered s)
    (dropped : s.drop = .dropped) (built : s.cleanupBuilt = true) :
    s.log.filterMap StoreEvent.cleaned = s.scheduled := by
  have ended := (ended_of_dropped ordered dropped).1
  have begun := accounted.begun built
  have kept := accounted.kept built
  cases present : s.cleanup with
  | none => simp [present] at begun
  | some pc =>
      rw [present] at ended
      obtain rfl : pc = .ended := by simpa using ended
      rw [kept, present, (accounted.emptied built present).1]
      simp [CleanupPc.inHand]

theorem dropped_step {action : Action} (ordered : Ordered s) (dropped : s.drop = .dropped)
    (taken : step settings s action = some next) :
    next.log = s.log ∧ next.drop = .dropped := by
  obtain ⟨cleanup, sweeper, heartbeat⟩ := ended_of_dropped ordered dropped
  cases action with
  | cleanup m =>
      obtain ⟨pc, present, moves⟩ := Option.bind_eq_some_iff.mp taken
      rw [present] at cleanup
      obtain rfl : pc = .ended := by simpa using cleanup
      cases m <;> cases moves
  | sweeper m =>
      have moves : sweeperStep s s.sweeper m = some next := taken
      rw [sweeper] at moves
      cases m <;> cases moves
  | heartbeat m =>
      obtain ⟨pc, present, moves⟩ := Option.bind_eq_some_iff.mp taken
      rw [present] at heartbeat
      obtain rfl : pc = .ended := by simpa using heartbeat
      cases m <;> cases moves
  | drop =>
      have moves : dropStep s s.drop = some next := taken
      rw [dropped] at moves
      cases moves
  | schedule id =>
      rw [(schedule_frame taken).1] at dropped
      cases dropped
  | running jobs =>
      cases taken
      exact ⟨rfl, dropped⟩
  | advance duration =>
      cases taken
      exact ⟨rfl, dropped⟩

theorem naps_mono {left less : Nat} (le : less ≤ left) : naps less ≤ naps left := by
  unfold naps
  omega

theorem naps_nap (left : Nat) (positive : 0 < left) : naps (left - 50000000) + 1 ≤ naps left := by
  unfold naps
  omega

theorem heartbeatRank_advance (now duration : Nat) (pc : Heartbeat.Pc) :
    heartbeatRank settings (now + duration) pc ≤ heartbeatRank settings now pc := by
  cases pc with
  | draining deadline =>
      have fewer : naps (deadline - (now + duration)) ≤ naps (deadline - now) :=
        naps_mono (by omega)
      simp only [heartbeatRank]
      omega
  | _ => exact le_rfl

theorem heartbeat_rank_advance (heartbeat : Option Heartbeat.Pc) (now duration : Nat) :
    heartbeat.elim 0 (heartbeatRank settings (now + duration)) ≤
      heartbeat.elim 0 (heartbeatRank settings now) := by
  cases heartbeat with
  | none => exact Nat.le_refl 0
  | some pc => exact heartbeatRank_advance now duration pc

theorem rank_advance (settings : Heartbeat.Settings) (s : State) (duration : Nat) :
    rank settings { s with now := s.now + duration } ≤ rank settings s := by
  unfold rank
  apply Nat.add_le_add_right
  apply Nat.add_le_add_left
  exact heartbeat_rank_advance s.heartbeat s.now duration

theorem heartbeatMove_rank {view : Heartbeat.View} {pc : Heartbeat.Pc} {m : Heartbeat.Move}
    {moved : Heartbeat.Pc × Option Heartbeat.StoreCall}
    (taken : Heartbeat.move settings view pc m = some moved) (stopped : view.stopped = true) :
    heartbeatRank settings view.now moved.1 + 1 ≤ heartbeatRank settings view.now pc := by
  unfold Heartbeat.move at taken
  split at taken
  next =>
    cases taken
    exact le_rfl
  next =>
    cases taken
    exact Nat.succ_le_succ (Nat.zero_le _)
  next =>
    rw [if_pos stopped] at taken
    cases taken
    exact le_rfl
  next stamp reached ok =>
    cases taken
    cases ok <;> exact le_rfl
  next =>
    rw [if_pos stopped] at taken
    cases taken
    exact le_rfl
  next =>
    cases taken
    exact le_rfl
  next =>
    rw [if_pos stopped] at taken
    cases taken
    exact le_rfl
  next =>
    cases taken
    exact le_rfl
  next =>
    rw [if_pos stopped] at taken
    cases taken
    exact le_rfl
  next =>
    cases taken
    exact le_rfl
  next =>
    cases taken
    simp only [heartbeatRank, Nat.add_sub_cancel_left]
    exact le_rfl
  next deadline =>
    split at taken
    next busy =>
      cases taken
      obtain ⟨_, early⟩ := Bool.and_eq_true_iff.mp busy
      have early : view.now < deadline := of_decide_eq_true early
      have fewer := naps_nap (deadline - view.now) (by omega)
      rw [Nat.sub_sub] at fewer
      simp only [heartbeatRank]
      omega
    next =>
      cases taken
      simp only [heartbeatRank]
      omega
  next wakeAt deadline =>
    split at taken
    next awake =>
      cases taken
      have fewer : naps (deadline - view.now) ≤ naps (deadline - wakeAt) := naps_mono (by omega)
      simp only [heartbeatRank]
      omega
    next => cases taken
  next =>
    cases taken
    exact le_rfl
  next => cases taken

theorem sweeperStep_rank {pc : SweeperPc} {m : SweeperMove}
    (taken : sweeperStep s pc m = some next) (stopped : s.stopped = true) :
    next.sweeper.rank + 1 ≤ pc.rank + 2 * (Action.sweeper m).found := by
  unfold sweeperStep at taken
  split at taken
  case h_6 | h_7 =>
    cases taken
    dsimp only
    split
    all_goals
      simp only [SweeperPc.rank, Action.found, List.length_cons, List.length_nil]
      omega
  case h_5 expired =>
    cases taken
    simp only [SweeperPc.rank, Action.found]
    omega
  case h_10 => cases taken
  all_goals
    cases taken
    simp [SweeperPc.rank, stopped]

theorem cleanupStep_rank {pc : CleanupPc} {m : CleanupMove}
    (taken : cleanupStep s pc m = some next) :
    (next.cleanup.elim 0 fun pc => pc.rank + 2 * next.queue.length) + 1 ≤
      pc.rank + 2 * s.queue.length := by
  unfold cleanupStep at taken
  split at taken
  next =>
    cases taken
    simp only [Option.elim, CleanupPc.rank]
    omega
  next =>
    cases taken
    simp only [Option.elim, CleanupPc.rank, List.length_nil]
    omega
  next =>
    split at taken
    next id rest channel =>
      cases taken
      simp only [Option.elim, CleanupPc.rank, channel, List.length_cons]
      omega
    next channel =>
      split at taken
      next =>
        cases taken
        simp only [Option.elim, CleanupPc.rank]
        omega
      next => cases taken
  next =>
    cases taken
    simp only [Option.elim, CleanupPc.rank]
    omega
  next => cases taken

theorem dropStep_stopped {pc : DropPc} (taken : dropStep s pc = some next)
    (later : 3 ≤ pc.index) : next = { s with drop := next.drop } := by
  unfold dropStep at taken
  split at taken
  case h_1 | h_2 | h_3 => simp [DropPc.index] at later
  case h_8 => cases taken
  all_goals
    try split at taken
    all_goals
      cases taken
      try rfl

/-- Once the signal is given, every step of a thread is one of the steps left. -/
theorem rank_step {action : Action} (ordered : Ordered s) (stopped : s.stopped = true)
    (taken : step settings s action = some next) :
    rank settings next + action.isThread.toNat ≤ rank settings s + 2 * action.found := by
  have later : 3 ≤ s.drop.index := by
    have flag := ordered.flag
    rw [stopped] at flag
    exact of_decide_eq_true flag.symm
  cases action with
  | cleanup m =>
      obtain ⟨pc, present, moves⟩ := Option.bind_eq_some_iff.mp taken
      have fewer := cleanupStep_rank moves
      have frame := cleanupStep_frame moves
      have sweeper : next.sweeper = s.sweeper := by rw [frame]
      have heartbeat : next.heartbeat = s.heartbeat := by rw [frame]
      have now : next.now = s.now := by rw [frame]
      have drop : next.drop = s.drop := by rw [frame]
      simp only [rank, present, Option.elim_some, sweeper, heartbeat, now, drop, Action.isThread,
        Bool.toNat_true, Action.found]
      omega
  | sweeper m =>
      have moves : sweeperStep s s.sweeper m = some next := taken
      have fewer := sweeperStep_rank moves stopped
      have frame := sweeperStep_frame moves
      have cleanup : next.cleanup = s.cleanup := by rw [frame]
      have queue : next.queue = s.queue := by rw [frame]
      have heartbeat : next.heartbeat = s.heartbeat := by rw [frame]
      have now : next.now = s.now := by rw [frame]
      have drop : next.drop = s.drop := by rw [frame]
      simp only [rank, cleanup, queue, heartbeat, now, drop, Action.isThread, Bool.toNat_true]
      omega
  | heartbeat m =>
      obtain ⟨pc, present, moves⟩ := Option.bind_eq_some_iff.mp taken
      obtain ⟨moved, effect, rfl⟩ := heartbeatStep_inv moves
      have fewer := heartbeatMove_rank effect stopped
      simp only [rank, present, Option.elim_some, Action.isThread, Bool.toNat_true, Action.found]
      simp only at fewer
      omega
  | drop =>
      have moves : dropStep s s.drop = some next := taken
      have index := (dropStep_frame moves).2.2.2.2.2
      have bound : next.drop.index ≤ 7 := by cases next.drop <;> decide
      have frame := dropStep_stopped moves later
      have cleanup : next.cleanup = s.cleanup := by rw [frame]
      have queue : next.queue = s.queue := by rw [frame]
      have sweeper : next.sweeper = s.sweeper := by rw [frame]
      have heartbeat : next.heartbeat = s.heartbeat := by rw [frame]
      have now : next.now = s.now := by rw [frame]
      simp only [rank, cleanup, queue, sweeper, heartbeat, now, Action.isThread, Bool.toNat_true,
        Action.found]
      omega
  | schedule id =>
      rw [(schedule_frame taken).1] at later
      exact absurd later (by decide)
  | running jobs =>
      cases taken
      simp [rank, Action.isThread, Action.found]
  | advance duration =>
      cases taken
      exact rank_advance _ s duration

theorem stopped_step {action : Action} (stopped : s.stopped = true)
    (taken : step settings s action = some next) : next.stopped = true := by
  cases action with
  | cleanup m =>
      obtain ⟨pc, _, moves⟩ := Option.bind_eq_some_iff.mp taken
      rw [cleanupStep_frame moves]
      exact stopped
  | sweeper m =>
      rw [sweeperStep_frame (show sweeperStep s s.sweeper m = some next from taken)]
      exact stopped
  | heartbeat m =>
      obtain ⟨pc, _, moves⟩ := Option.bind_eq_some_iff.mp taken
      obtain ⟨moved, _, rfl⟩ := heartbeatStep_inv moves
      exact stopped
  | drop =>
      have moves : dropStep s s.drop = some next := taken
      unfold dropStep at moves
      split at moves
      all_goals
        try split at moves
        all_goals
          cases moves
          try first | exact stopped | rfl
  | schedule id =>
      rw [(schedule_frame taken).2]
      exact stopped
  | running jobs =>
      cases taken
      exact stopped
  | advance duration =>
      cases taken
      exact stopped

section Drain

variable {view : Heartbeat.View} {pc : Heartbeat.Pc} {m : Heartbeat.Move}
  {moved : Heartbeat.Pc × Option Heartbeat.StoreCall}

theorem isOut_of_drains {until_ : Nat} (draining : drainsUntil pc = some until_) :
    pc.isOut = true := by
  cases pc <;> first | rfl | cases draining

/-- What a move of the heartbeat says about the drain. -/
structure DrainMove (settings : Heartbeat.Settings) (view : Heartbeat.View) (pc : Heartbeat.Pc)
    (moved : Heartbeat.Pc × Option Heartbeat.StoreCall) : Prop where
  running : pc ≠ .ended
  out : moved.1.isOut = true → view.stopped = true ∨ pc.isOut = true
  deadline : ∀ until_, drainsUntil moved.1 = some until_ →
    drainsUntil pc = some until_ ∨
      pc.isOut = true ∧ until_ = view.now + settings.brokerLeaseTtl
  deleting : moved.1 = .deleting →
    ∃ until_, drainsUntil pc = some until_ ∧ (view.inFlight = 0 ∨ until_ ≤ view.now)
  deletes : moved.2 = some .deleteBrokerLease → pc = .deleting ∧ moved.1 = .ended

theorem DrainMove.quiet (running : pc ≠ .ended) (stays : moved.1.isOut = false)
    (deletes : moved.2 ≠ some .deleteBrokerLease) : DrainMove settings view pc moved := by
  constructor
  · exact running
  · intro out
    rw [stays] at out
    cases out
  · intro until_ draining
    rw [isOut_of_drains draining] at stays
    cases stays
  · intro deleting
    rw [deleting] at stays
    cases stays
  · intro deleted
    exact absurd deleted deletes

theorem DrainMove.leaving (running : pc ≠ .ended) (stopped : view.stopped = true) :
    DrainMove settings view pc (.leaving, none) := by
  constructor
  · exact running
  · intro _
    exact Or.inl stopped
  · intro until_ draining
    cases draining
  · intro deleting
    cases deleting
  · intro deleted
    cases deleted

theorem drainMove_of_move (taken : Heartbeat.move settings view pc m = some moved) :
    DrainMove settings view pc moved := by
  unfold Heartbeat.move at taken
  split at taken
  next =>
    cases taken
    exact .quiet (by simp) rfl (by simp)
  next =>
    cases taken
    exact .quiet (by simp) rfl (by simp)
  next =>
    split at taken
    next stopped =>
      cases taken
      exact .leaving (by simp) stopped
    next =>
      cases taken
      exact .quiet (by simp) rfl (by simp)
  next stamp reached ok =>
    cases taken
    refine .quiet (by simp) ?_ (Heartbeat.deletes_renewed _ _ _ _)
    cases ok <;> rfl
  next =>
    split at taken
    next =>
      cases taken
      exact .quiet (by simp) rfl (by simp)
    next =>
      cases taken
      exact .quiet (by simp) rfl (by simp)
  next =>
    cases taken
    exact .quiet (by simp) rfl (by simp)
  next =>
    split at taken
    next stopped =>
      cases taken
      exact .leaving (by simp) stopped
    next =>
      cases taken
      exact .quiet (by simp) rfl (by simp)
  next =>
    cases taken
    exact .quiet (by simp) rfl (Heartbeat.deletes_renewed _ _ _ _)
  next =>
    split at taken
    next =>
      cases taken
      exact .quiet (by simp) rfl (by simp)
    next =>
      cases taken
      exact .quiet (by simp) rfl (by simp)
  next =>
    cases taken
    exact .quiet (by simp) rfl (by simp)
  next =>
    cases taken
    constructor
    · simp
    · intro _
      exact Or.inr rfl
    · intro until_ draining
      cases draining
      exact Or.inr ⟨rfl, rfl⟩
    · intro deleting
      cases deleting
    · intro deleted
      cases deleted
  next deadline =>
    split at taken
    next =>
      cases taken
      constructor
      · simp
      · intro _
        exact Or.inr rfl
      · intro until_ draining
        exact Or.inl draining
      · intro deleting
        cases deleting
      · intro deleted
        cases deleted
    next idle =>
      cases taken
      constructor
      · simp
      · intro _
        exact Or.inr rfl
      · intro until_ draining
        cases draining
      · intro _
        refine ⟨deadline, rfl, ?_⟩
        simp only [Bool.and_eq_true, decide_eq_true_eq] at idle
        omega
      · intro deleted
        cases deleted
  next wakeAt deadline =>
    split at taken
    next =>
      cases taken
      constructor
      · simp
      · intro _
        exact Or.inr rfl
      · intro until_ draining
        exact Or.inl draining
      · intro deleting
        cases deleting
      · intro deleted
        cases deleted
    next => cases taken
  next =>
    cases taken
    constructor
    · simp
    · intro out
      cases out
    · intro until_ draining
      cases draining
    · intro deleting
      cases deleting
    · intro _
      exact ⟨rfl, rfl⟩
  next => cases taken

theorem Drained.new (store : Bool) (now : Nat) : Drained settings (State.new store now) := by
  constructor
  · intro pc present out
    cases store <;> cases present
    cases out
  · intro stopped
    cases stopped
  · intro pc until_ present draining
    cases store <;> cases present
    cases draining
  · intro deleted
    cases deleted

/-- A step that neither moves the heartbeat nor calls the store for it. -/
theorem Drained.frame (drained : Drained settings s) (heartbeat : next.heartbeat = s.heartbeat)
    (stopped : next.stopped = s.stopped) (stoppedAt : next.stoppedAt = s.stoppedAt)
    (now : s.now ≤ next.now)
    (log : next.log.filterMap StoreEvent.leased = s.log.filterMap StoreEvent.leased) :
    Drained settings next := by
  constructor
  · rw [heartbeat, stopped]
    exact drained.out
  · rw [stopped, stoppedAt]
    intro isStopped
    obtain ⟨signalled, at_, before⟩ := drained.signalled isStopped
    exact ⟨signalled, at_, Nat.le_trans before now⟩
  · rw [heartbeat, stoppedAt]
    exact drained.deadline
  · rw [heartbeat, log]
    exact drained.last

theorem leased_lease (effect : Option Heartbeat.StoreCall) :
    (effect.map StoreEvent.lease).toList.filterMap StoreEvent.leased = effect.toList := by
  cases effect <;> rfl

theorem Drained.heartbeat (drained : Drained settings s) (present : s.heartbeat = some pc)
    (effect : Heartbeat.move settings ⟨s.stopped, s.inFlight, s.now⟩ pc m = some moved) :
    Drained settings { s with
      heartbeat := some moved.1, log := s.log ++ (moved.2.map StoreEvent.lease).toList } := by
  have drains := drainMove_of_move effect
  have undeleted : .deleteBrokerLease ∉ s.log.filterMap StoreEvent.leased := by
    intro deleted
    have ended := (drained.last deleted).1
    rw [present] at ended
    exact drains.running (Option.some.inj ended)
  constructor
  · intro pc' present' out
    cases present'
    rcases drains.out out with stopped | already
    · exact stopped
    · exact drained.out pc present already
  · exact drained.signalled
  · intro pc' until_ present' draining
    cases present'
    rcases drains.deadline until_ draining with same | ⟨out, fresh⟩
    · exact drained.deadline pc until_ present same
    · obtain ⟨signalled, at_, before⟩ := drained.signalled (drained.out pc present out)
      refine ⟨signalled, at_, ?_⟩
      simp only at fresh before
      omega
  · intro deleted
    rw [List.filterMap_append, leased_lease] at deleted ⊢
    rcases List.mem_append.mp deleted with earlier | now
    · exact absurd earlier undeleted
    · have call : moved.2 = some .deleteBrokerLease := Option.mem_toList.mp now
      refine ⟨congrArg some (drains.deletes call).2, _, ?_, undeleted⟩
      rw [call]
      rfl

theorem Drained.drop (drained : Drained settings s) (ordered : Ordered s)
    (taken : dropStep s s.drop = some next) : Drained settings next := by
  unfold dropStep at taken
  split at taken
  next =>
    cases taken
    exact drained.frame rfl rfl rfl le_rfl rfl
  next =>
    cases taken
    exact drained.frame rfl rfl rfl le_rfl rfl
  next at_ =>
    cases taken
    have running : ¬s.stopped = true := by
      rw [ordered.flag, at_]
      decide
    have stays : ∀ pc, s.heartbeat = some pc →
        (Heartbeat.notifyAll s.now (pc, s.now)).1.isOut = false := by
      intro pc present
      cases out : pc.isOut with
      | true => exact absurd (drained.out pc present out) running
      | false => cases pc <;> first | rfl | cases out
    have quiet : ∀ pc, s.signal.heartbeat = some pc → pc.isOut = false := by
      intro pc present
      obtain ⟨old, before, rfl⟩ := Option.map_eq_some_iff.mp present
      exact stays old before
    constructor
    · intro _ _ _
      rfl
    · intro _
      exact ⟨s.now, rfl, le_rfl⟩
    · intro pc until_ present draining
      have stays' := quiet pc present
      rw [isOut_of_drains draining] at stays'
      cases stays'
    · intro deleted
      obtain ⟨ended, ends⟩ := drained.last deleted
      refine ⟨?_, ends⟩
      simp only [State.signal, ended]
      rfl
  next =>
    cases taken
    exact drained.frame rfl rfl rfl le_rfl rfl
  next =>
    split at taken
    · cases taken
      exact drained.frame rfl rfl rfl le_rfl rfl
    · cases taken
  next =>
    split at taken
    · cases taken
      exact drained.frame rfl rfl rfl le_rfl rfl
    · cases taken
  next =>
    split at taken
    · cases taken
      exact drained.frame rfl rfl rfl le_rfl rfl
    · cases taken
  next => cases taken

theorem cleanupStep_log {pc : CleanupPc} {m : CleanupMove}
    (taken : cleanupStep s pc m = some next) :
    next.log.filterMap StoreEvent.leased = s.log.filterMap StoreEvent.leased := by
  unfold cleanupStep at taken
  split at taken
  case h_3 =>
    split at taken
    · cases taken
      rfl
    · split at taken
      · cases taken
        rfl
      · cases taken
  all_goals
    cases taken
    try simp [StoreEvent.leased]

theorem Drained.taken {action : Action} (drained : Drained settings s) (ordered : Ordered s)
    (taken : step settings s action = some next) : Drained settings next := by
  cases action with
  | cleanup m =>
      obtain ⟨pc, _, moves⟩ := Option.bind_eq_some_iff.mp taken
      have log := cleanupStep_log moves
      have frame := cleanupStep_frame moves
      exact drained.frame (by rw [frame]) (by rw [frame]) (by rw [frame]) (by rw [frame]) log
  | sweeper m =>
      have moves : sweeperStep s s.sweeper m = some next := taken
      have log := (sweeperStep_log moves).2
      have frame := sweeperStep_frame moves
      exact drained.frame (by rw [frame]) (by rw [frame]) (by rw [frame]) (by rw [frame]) log
  | heartbeat m =>
      obtain ⟨pc, present, moves⟩ := Option.bind_eq_some_iff.mp taken
      obtain ⟨moved, effect, rfl⟩ := heartbeatStep_inv moves
      exact drained.heartbeat present effect
  | drop => exact drained.drop ordered taken
  | schedule id =>
      rw [(schedule_frame taken).2]
      exact drained.frame rfl rfl rfl le_rfl rfl
  | running jobs =>
      cases taken
      exact drained.frame rfl rfl rfl le_rfl rfl
  | advance duration =>
      cases taken
      exact drained.frame rfl rfl rfl (Nat.le_add_right _ _) rfl

/-- The heartbeat only gets to the deletion of the lease, and past it, after a drain. -/
theorem deletes_after_drain {action : Action} (drained : Drained settings s)
    (taken : step settings s action = some next)
    (later : next.heartbeat = some .deleting ∨
      .deleteBrokerLease ∈ next.log.filterMap StoreEvent.leased) :
    JobsDrained settings s ∨ s.heartbeat = some .deleting ∨
      .deleteBrokerLease ∈ s.log.filterMap StoreEvent.leased := by
  cases action with
  | cleanup m =>
      obtain ⟨pc, _, moves⟩ := Option.bind_eq_some_iff.mp taken
      have heartbeat : next.heartbeat = s.heartbeat := by rw [cleanupStep_frame moves]
      rw [heartbeat, cleanupStep_log moves] at later
      exact Or.inr later
  | sweeper m =>
      have moves : sweeperStep s s.sweeper m = some next := taken
      have heartbeat : next.heartbeat = s.heartbeat := by rw [sweeperStep_frame moves]
      rw [heartbeat, (sweeperStep_log moves).2] at later
      exact Or.inr later
  | heartbeat m =>
      obtain ⟨pc, present, moves⟩ := Option.bind_eq_some_iff.mp taken
      obtain ⟨moved, effect, rfl⟩ := heartbeatStep_inv moves
      have drains := drainMove_of_move effect
      rcases later with deleting | deleted
      · left
        obtain ⟨until_, draining, finished⟩ := drains.deleting (Option.some.inj deleting)
        have out := isOut_of_drains draining
        obtain ⟨signalled, at_, before⟩ := drained.deadline pc until_ present draining
        refine ⟨drained.out pc present out, ?_⟩
        rcases finished with idle | late
        · exact Or.inl idle
        · exact Or.inr ⟨signalled, at_, Nat.le_trans before late⟩
      · rw [List.filterMap_append, leased_lease] at deleted
        rcases List.mem_append.mp deleted with earlier | now
        · exact Or.inr (Or.inr earlier)
        · have call : moved.2 = some .deleteBrokerLease := Option.mem_toList.mp now
          rw [(drains.deletes call).1] at present
          exact Or.inr (Or.inl present)
  | drop =>
      have moves : dropStep s s.drop = some next := taken
      rw [(dropStep_frame moves).2.2.2.2.1] at later
      rcases later with deleting | deleted
      · right
        left
        unfold dropStep at moves
        split at moves
        all_goals
          try split at moves
          all_goals
            cases moves
            try exact deleting
        obtain ⟨old, before, same⟩ := Option.map_eq_some_iff.mp deleting
        rw [before]
        cases old <;> first | rfl | cases same
      · exact Or.inr (Or.inr deleted)
  | schedule id =>
      rw [(schedule_frame taken).2] at later
      exact Or.inr later
  | running jobs =>
      cases taken
      exact Or.inr later
  | advance duration =>
      cases taken
      exact Or.inr later

end Drain

/-- Some steps from inside leave fewer steps. -/
def Progress (settings : Heartbeat.Settings) (s : State) : Prop :=
  ∃ actions next, Path (step settings) Inside s actions next ∧ rank settings next < rank settings s

theorem Progress.of_step (action : Action) (ordered : Ordered s) (stopped : s.stopped = true)
    (thread : action.isThread = true) (found : action.found = 0)
    (taken : step settings s action = some next) : Progress settings s := by
  refine ⟨[action], next, .cons (Or.inl thread) taken .nil, ?_⟩
  have fewer := rank_step ordered stopped taken
  rw [thread, found, Bool.toNat_true] at fewer
  omega

theorem cleanup_moves (settings : Heartbeat.Settings) {pc : CleanupPc}
    (present : s.cleanup = some pc) (running : pc ≠ .ended)
    (hungUp : 4 ≤ s.drop.index) : ∃ m next, step settings s (.cleanup m) = some next := by
  have moves : ∃ m next, cleanupStep s pc m = some next := by
    cases pc with
    | starting => exact ⟨.start true, _, rfl⟩
    | receiving =>
        cases channel : s.queue with
        | nil => exact ⟨.step, _, by simp only [cleanupStep, channel, hungUp, if_true]; rfl⟩
        | cons id rest => exact ⟨.step, _, by simp only [cleanupStep, channel]; rfl⟩
    | deleting id => exact ⟨.answer, _, rfl⟩
    | ended => exact absurd rfl running
  obtain ⟨m, next, moves⟩ := moves
  exact ⟨m, next, by simp only [step, present, Option.bind_some, moves]⟩

theorem sweeper_moves (settings : Heartbeat.Settings) (awake : s.sweeper ≠ .parked)
    (running : s.sweeper ≠ .ended) :
    ∃ m next, step settings s (.sweeper m) = some next ∧ (Action.sweeper m).found = 0 := by
  simp only [step]
  cases at_ : s.sweeper with
  | starting => exact ⟨.start true, _, rfl, rfl⟩
  | waiting => exact ⟨.step, _, rfl, rfl⟩
  | parked => exact absurd at_ awake
  | checking => exact ⟨.step, _, rfl, rfl⟩
  | scanning => exact ⟨.scan [], _, rfl, rfl⟩
  | removing expired =>
      cases expired with
      | nil => exact ⟨.step, _, rfl, rfl⟩
      | cons id rest => exact ⟨.remove true true, _, rfl, rfl⟩
  | deleting id expired => exact ⟨.answer, _, rfl, rfl⟩
  | reclaiming => exact ⟨.answer, _, rfl, rfl⟩
  | ended => exact absurd at_ running

theorem heartbeat_moves (settings : Heartbeat.Settings) (view : Heartbeat.View)
    {pc : Heartbeat.Pc} (awake : isParked pc = false)
    (running : pc ≠ .ended) : ∃ duration m moved,
      Heartbeat.move settings { view with now := view.now + duration } pc m = some moved := by
  have steps : ∀ (v : Heartbeat.View) (one two : Heartbeat.Pc × Option Heartbeat.StoreCall),
      ∃ moved, (if v.stopped then some one else some two) = some moved := by
    intro v one two
    cases v.stopped with
    | true => exact ⟨one, rfl⟩
    | false => exact ⟨two, rfl⟩
  cases pc with
  | starting => exact ⟨0, .start true, _, rfl⟩
  | looping => exact ⟨0, .step, steps _ _ _⟩
  | renewing stamp => exact ⟨0, .answer true true, _, rfl⟩
  | failed => exact ⟨0, .step, steps _ _ _⟩
  | backoff wakeAt => cases awake
  | retrying => exact ⟨0, .step, steps _ _ _⟩
  | renewingAgain stamp => exact ⟨0, .answer true true, _, rfl⟩
  | rested => exact ⟨0, .step, steps _ _ _⟩
  | parked wakeAt => cases awake
  | leaving => exact ⟨0, .step, _, rfl⟩
  | draining deadline =>
      refine ⟨0, .step, ?_⟩
      simp only [Heartbeat.move]
      split
      · exact ⟨_, rfl⟩
      · exact ⟨_, rfl⟩
  | sleeping wakeAt deadline =>
      refine ⟨wakeAt - view.now, .wake, (.draining deadline, none), ?_⟩
      have late : wakeAt ≤ view.now + (wakeAt - view.now) := by omega
      simp only [Heartbeat.move, late, if_true]
  | deleting => exact ⟨0, .answer true true, _, rfl⟩
  | ended => exact absurd rfl running

theorem Ordered.later (ordered : Ordered s) (stopped : s.stopped = true) : 3 ≤ s.drop.index := by
  have flag := ordered.flag
  rw [stopped] at flag
  exact of_decide_eq_true flag.symm

/-- After the signal there is always a step left to take from inside. -/
theorem progress (settings : Heartbeat.Settings) (ordered : Ordered s) (stopped : s.stopped = true)
    (running : s.drop ≠ .dropped) : Progress settings s := by
  have byDrop : ∀ {next : State}, dropStep s s.drop = some next → Progress settings s :=
    fun taken => Progress.of_step .drop ordered stopped rfl rfl taken
  have later := ordered.later stopped
  cases at_ : s.drop with
  | alive | routesClosed | workersTold =>
      rw [at_] at later
      exact absurd later (by decide)
  | signalled => exact byDrop (by rw [at_]; rfl)
  | hungUp =>
      by_cases ended : s.cleanup.all (· = .ended) = true
      · exact byDrop (by rw [at_]; exact if_pos ended)
      · cases present : s.cleanup with
        | none => simp [present] at ended
        | some pc =>
            have unended : pc ≠ .ended := by simpa [present] using ended
            obtain ⟨m, next, taken⟩ := cleanup_moves settings present unended
              (by rw [at_]; decide)
            exact Progress.of_step _ ordered stopped rfl rfl taken
  | cleanupJoined =>
      by_cases ended : s.sweeper = .ended
      · exact byDrop (by rw [at_]; exact if_pos ended)
      · obtain ⟨m, next, taken, found⟩ := sweeper_moves settings
          (ordered.sweeperAwake stopped) ended
        exact Progress.of_step _ ordered stopped rfl found taken
  | sweeperJoined =>
      by_cases ended : s.heartbeat.all (· = .ended) = true
      · exact byDrop (by rw [at_]; exact if_pos ended)
      · cases present : s.heartbeat with
        | none => simp [present] at ended
        | some pc =>
            have unended : pc ≠ .ended := by simpa [present] using ended
            have awake : isParked pc = false := by
              have all := ordered.heartbeatAwake stopped
              simpa [present] using all
            obtain ⟨duration, m, moved, effect⟩ := heartbeat_moves settings
              ⟨s.stopped, s.inFlight, s.now⟩ awake unended
            have waited : step settings s (.advance duration) =
                some { s with now := s.now + duration } := rfl
            have ordered' := ordered.taken waited
            have taken : step settings { s with now := s.now + duration } (.heartbeat m) = some
                { s with
                  now := s.now + duration
                  heartbeat := some moved.1
                  log := s.log ++ (moved.2.map StoreEvent.lease).toList } := by
              simp only [step, present, Option.bind_some, heartbeatStep]
              rw [effect, Option.map_some]
            have fewer := rank_step ordered' stopped taken
            have less := rank_advance settings s duration
            refine ⟨[.advance duration, .heartbeat m], _,
              .cons (Or.inr ⟨duration, rfl⟩) waited (.cons (Or.inl rfl) taken .nil), ?_⟩
            simp only [Action.isThread, Bool.toNat_true, Action.found] at fewer
            omega
  | dropped => exact absurd at_ running

end Moves

section Runs

variable {settings : Heartbeat.Settings} {s last : State} {actions : List Action}
  {allowed : State → Action → Prop}

theorem Ordered.of_path (ordered : Ordered s)
    (path : Path (step settings) allowed s actions last) : Ordered last := by
  apply path.invariant ordered
  intro state action next ordered _ taken
  exact ordered.taken taken

theorem Accounted.of_path (accounted : Accounted s)
    (path : Path (step settings) allowed s actions last) : Accounted last := by
  apply path.invariant accounted
  intro state action next accounted _ taken
  exact accounted.taken taken

theorem stopped_of_path (stopped : s.stopped = true)
    (path : Path (step settings) allowed s actions last) : last.stopped = true := by
  induction path with
  | nil => exact stopped
  | snoc _ _ taken ih => exact stopped_step ih taken

theorem scanned_snoc (actions : List Action) (action : Action) :
    scanned (actions ++ [action]) = scanned actions + action.found := by
  induction actions with
  | nil => simp [scanned]
  | cons first rest ih =>
      simp only [scanned, List.cons_append, List.foldr_cons] at ih ⊢
      omega

theorem rank_of_path (ordered : Ordered s) (stopped : s.stopped = true)
    (path : Path (step settings) allowed s actions last) :
    rank settings last + actions.countP Action.isThread ≤ rank settings s + 2 * scanned actions := by
  induction path with
  | nil => simp [scanned]
  | @snoc actions middle action next before _ taken ih =>
      have fewer := rank_step (ordered.of_path before) (stopped_of_path stopped before) taken
      rw [scanned_snoc, List.countP_append, List.countP_singleton]
      have counted : (if action.isThread = true then 1 else 0) = action.isThread.toNat := by
        cases action.isThread <;> rfl
      omega

theorem returns_of_rank (bound : Nat) : ∀ {s : State}, rank settings s ≤ bound → Ordered s →
    s.stopped = true →
    ∃ actions last, Path (step settings) Inside s actions last ∧ last.drop = .dropped := by
  induction bound with
  | zero =>
      intro s small ordered stopped
      by_cases dropped : s.drop = .dropped
      · exact ⟨[], s, .nil, dropped⟩
      · obtain ⟨actions, next, _, fewer⟩ := progress settings ordered stopped dropped
        omega
  | succ bound ih =>
      intro s small ordered stopped
      by_cases dropped : s.drop = .dropped
      · exact ⟨[], s, .nil, dropped⟩
      · obtain ⟨actions, next, path, fewer⟩ := progress settings ordered stopped dropped
        obtain ⟨more, last, rest, returned⟩ := ih (by omega) (ordered.of_path path)
          (stopped_of_path stopped path)
        exact ⟨actions ++ more, last, path.append rest, returned⟩

end Runs

/-- Two deletions are scheduled and a job runs when the broker is dropped. -/
def busyBroker : List Action :=
  [.cleanup (.start true), .sweeper (.start true), .sweeper .step, .heartbeat (.start true),
    .heartbeat .step, .heartbeat (.answer true true), .heartbeat .step, .schedule "job-1",
    .schedule "job-2", .running 1, .drop, .drop, .drop]

def drained : List Action :=
  [.drop, .cleanup .step, .cleanup .answer, .cleanup .step, .cleanup .answer, .cleanup .step, .drop,
    .sweeper .step, .drop, .heartbeat .step, .heartbeat .step, .heartbeat .step, .advance 50000000,
    .running 0, .heartbeat .wake, .heartbeat .step, .heartbeat (.answer true true), .drop]

/-- When `drop` has returned, `delete_job` was called for all that was scheduled, once and in order,
and no thread calls the store again. -/
theorem drop_leaves_nothing {settings : Heartbeat.Settings} {store : Bool} {now : Nat}
    {actions : List Action} {s : State}
    (path : Path (step settings) Always (State.new store now) actions s)
    (dropped : s.drop = .dropped) :
    (s.cleanupBuilt = true → s.log.filterMap StoreEvent.cleaned = s.scheduled) ∧
      ∀ more last, Path (step settings) Always s more last →
        last.log = s.log ∧ last.drop = .dropped := by
  have ordered := (Ordered.new store now).of_path path
  have accounted := (Accounted.new store now).of_path path
  refine ⟨accounted.cleaned_of_dropped ordered dropped, ?_⟩
  intro more last rest
  have all : Ordered last ∧ last.log = s.log ∧ last.drop = .dropped := by
    apply rest.invariant ⟨ordered, rfl, dropped⟩
    rintro state action next ⟨ordered, log, dropped⟩ _ taken
    obtain ⟨same, stays⟩ := dropped_step ordered dropped taken
    exact ⟨ordered.taken taken, same.trans log, stays⟩
  exact all.2

theorem drop_leaves_nothing_drained : ∃ s,
    Path (step Heartbeat.thirtySeconds) Always (State.new true 0) (busyBroker ++ drained) s ∧
      (s.cleanupBuilt = true → s.log.filterMap StoreEvent.cleaned = s.scheduled) ∧
      ∀ more last, Path (step Heartbeat.thirtySeconds) Always s more last →
        last.log = s.log ∧ last.drop = .dropped := by
  have ran : (run (step Heartbeat.thirtySeconds) (State.new true 0) (busyBroker ++ drained)).any
      (fun s => decide (s.drop = .dropped)) = true := by decide +kernel
  obtain ⟨s, finished, dropped⟩ := (Option.any_eq_true _ _).mp ran
  have path := Path.of_run _ _ finished
  exact ⟨s, path, drop_leaves_nothing path (of_decide_eq_true dropped)⟩

/-- The lease is deleted at most once and never renewed afterwards, and only after the broker has
stopped and its jobs have finished or had the lifetime of a lease for it. -/
theorem lease_deleted_after_drain {settings : Heartbeat.Settings} {store : Bool} {now : Nat}
    {actions : List Action} {s : State}
    (path : Path (step settings) Always (State.new store now) actions s)
    (deleted : .deleteBrokerLease ∈ s.log.filterMap StoreEvent.leased) :
    EndsWithDelete (s.log.filterMap StoreEvent.leased) ∧
      Passes (step settings) Always (State.new store now) actions s (JobsDrained settings) := by
  have drained : ∀ {actions s}, Path (step settings) Always (State.new store now) actions s →
      Drained settings s := by
    intro actions s path
    have both : Ordered s ∧ Drained settings s := by
      apply path.invariant ⟨Ordered.new store now, Drained.new store now⟩
      rintro state action next ⟨ordered, drained⟩ _ taken
      exact ⟨ordered.taken taken, drained.taken ordered taken⟩
    exact both.2
  refine ⟨((drained path).last deleted).2, ?_⟩
  have later : s.heartbeat = some .deleting ∨
      .deleteBrokerLease ∈ s.log.filterMap StoreEvent.leased := Or.inr deleted
  clear deleted
  induction path with
  | nil =>
      rcases later with deleting | deleted
      · cases store <;> cases deleting
      · cases deleted
  | snoc before permitted taken ih =>
      rcases deletes_after_drain (drained before) taken later with here | earlier
      · exact (Passes.here before here).snoc permitted taken
      · exact (ih earlier).snoc permitted taken

theorem lease_deleted_after_drain_drained : ∃ s,
    Path (step Heartbeat.thirtySeconds) Always (State.new true 0) (busyBroker ++ drained) s ∧
      EndsWithDelete (s.log.filterMap StoreEvent.leased) ∧
      Passes (step Heartbeat.thirtySeconds) Always (State.new true 0) (busyBroker ++ drained) s
        (JobsDrained Heartbeat.thirtySeconds) := by
  have ran : (run (step Heartbeat.thirtySeconds) (State.new true 0) (busyBroker ++ drained)).any
      (fun s => decide (.deleteBrokerLease ∈ s.log.filterMap StoreEvent.leased)) = true := by
    decide +kernel
  obtain ⟨s, finished, deleted⟩ := (Option.any_eq_true _ _).mp ran
  have path := Path.of_run _ _ finished
  exact ⟨s, path, lease_deleted_after_drain path (of_decide_eq_true deleted)⟩

/-- Once the signal is given, the threads and `drop` have a bounded number of steps left, and they
can always go on to the return of `drop` by themselves. -/
theorem drop_returns {settings : Heartbeat.Settings} {store : Bool} {now : Nat}
    {before : List Action} {s : State}
    (path : Path (step settings) Always (State.new store now) before s)
    (stopped : s.stopped = true) :
    (∀ actions last, Path (step settings) Always s actions last →
      actions.countP Action.isThread ≤ rank settings s + 2 * scanned actions) ∧
    ∃ actions last, Path (step settings) Inside s actions last ∧ last.drop = .dropped := by
  have ordered := (Ordered.new store now).of_path path
  refine ⟨?_, returns_of_rank (rank settings s) (Nat.le_refl _) ordered stopped⟩
  intro actions last rest
  have bound := rank_of_path ordered stopped rest
  omega

theorem drop_returns_busy : ∃ s,
    Path (step Heartbeat.thirtySeconds) Always (State.new true 0) busyBroker s ∧
      (∀ actions last, Path (step Heartbeat.thirtySeconds) Always s actions last →
        actions.countP Action.isThread ≤
          rank Heartbeat.thirtySeconds s + 2 * scanned actions) ∧
      ∃ actions last, Path (step Heartbeat.thirtySeconds) Inside s actions last ∧
        last.drop = .dropped := by
  have ran : (run (step Heartbeat.thirtySeconds) (State.new true 0) busyBroker).any
      (fun s => s.stopped) = true := by decide +kernel
  obtain ⟨s, finished, stopped⟩ := (Option.any_eq_true _ _).mp ran
  have path := Path.of_run _ _ finished
  exact ⟨s, path, drop_returns path stopped⟩

end Shutdown

end BitsBroker
