import BitsBroker.Dispatcher.Dispatch
import BitsBroker.Lib.Table
import BitsBroker.Lib.Transition

/-!
The wait loops of a job: a queued dispatch, `poll_local` and `poll_submit`. They arm a notification,
look at the cells of the job and park. The cells change in operations that write first and notify
last. A notification is counted: a waiter that was armed at a count has one pending as soon as the
count is higher. Every load, store, notification and section under a lock is a step of its own, and
the steps of all operations and waiters interleave.
-/

namespace BitsBroker

open Transition Table

/-- The cells that all clones of a job share, with the number of calls of `notify_waiters` on each
of its two notifiers. -/
structure JobCells where
  cancelled : Bool
  activePollers : Nat
  reconnectDeadline : Nat
  processing : Bool
  result : Option JobResult
  notify : Nat
  dispatchNotify : Nat

inductive Notifier where
  | notify
  | dispatchNotify
deriving DecidableEq

inductive JobOperation where
  | requestCancel
  | connect
  | disconnect
  | storeResult (result : JobResult)
  | markProcessing

inductive OperationPc where
  | begun
  | timed (deadline : Nat)
  | stored
  | written
  | done
deriving DecidableEq

/-- An operation on a job. `wrote` is the moment of its last write that changed something. -/
structure Operation where
  job : Nat
  call : JobOperation
  pc : OperationPc
  wrote : Option Nat

inductive WaitRole where
  | dispatch (guard : DispatchGuard)
  | pollLocal (timeout : Option Nat)
  | pollSubmit (timeout : Nat)

inductive WaitPc where
  | connect
  | connecting (operation : Nat)
  | arm
  | check
  | checkPollers
  | checkDeadline
  | abandon (clientGone : Bool)
  | abandonDeadline
  | checkStatus
  | choose
  | chooseDeadline
  | parked (timer : Option Nat)
  | collect
  | left
deriving DecidableEq

/-- A wait. `armed` is the count of notifications at the moment `armedAt` at which it was armed
last; its checks come after that. -/
structure Waiter where
  job : Nat
  role : WaitRole
  armed : Nat
  armedAt : Nat
  deadline : Option Nat
  pc : WaitPc

structure WaitState where
  now : Nat
  moment : Nat
  cells : Nat → JobCells
  operations : List Operation
  waiters : List Waiter

def WaitState.new (cells : Nat → JobCells) (now : Nat) : WaitState where
  now := now
  moment := 0
  cells := cells
  operations := []
  waiters := []

inductive WaitEvent where
  | step
  | wake
  | timeout
  | answer
  | drop
deriving DecidableEq

inductive WaitAction where
  | advance (elapsed : Nat)
  | operate (job : Nat) (call : JobOperation)
  | operation (i : Nat)
  | wait (job : Nat) (role : WaitRole)
  | waiter (i : Nat) (event : WaitEvent)

namespace JobCells

def notifications (cells : JobCells) : Notifier → Nat
  | .notify => cells.notify
  | .dispatchNotify => cells.dispatchNotify

def notifyWaiters (cells : JobCells) : Notifier → JobCells
  | .notify => { cells with notify := cells.notify + 1 }
  | .dispatchNotify => { cells with dispatchNotify := cells.dispatchNotify + 1 }

end JobCells

def JobOperation.notifier : JobOperation → Notifier
  | .requestCancel | .connect | .disconnect => .dispatchNotify
  | .storeResult _ | .markProcessing => .notify

/-- An operation that is not a guard of a poll. -/
def JobOperation.unguarded : JobOperation → Bool
  | .requestCancel | .storeResult _ | .markProcessing => true
  | .connect | .disconnect => false

def WaitRole.notifier : WaitRole → Notifier
  | .dispatch _ => .dispatchNotify
  | .pollLocal _ | .pollSubmit _ => .notify

/-- The next step of an operation: the cells, how it goes on, and whether it changed a cell. -/
def operationStep (buffer now : Nat) (cells : JobCells) :
    JobOperation → OperationPc → Option (JobCells × OperationPc × Bool)
  | call, .written => some (cells.notifyWaiters call.notifier, .done, false)
  | .requestCancel, .begun => some ({ cells with cancelled := true }, .written, true)
  | .connect, .begun =>
      some ({ cells with activePollers := cells.activePollers + 1 }, .written, true)
  | .disconnect, .begun => some (cells, .timed (now + buffer), false)
  | .disconnect, .timed deadline =>
      some ({ cells with reconnectDeadline := deadline }, .stored, true)
  | .disconnect, .stored =>
      some ({ cells with activePollers := cells.activePollers - 1 }, .written, true)
  | .storeResult result, .begun => some ({ cells with result := some result }, .written, true)
  | .markProcessing, .begun =>
      if cells.processing then some (cells, .done, false)
      else some ({ cells with processing := true }, .written, true)
  | _, _ => none

namespace WaitState

def setWaiter (s : WaitState) (i : Nat) (waiter : Waiter) (pc : WaitPc) : WaitState :=
  { s with waiters := s.waiters.set i { waiter with pc := pc } }

def setCells (s : WaitState) (job : Nat) (cells : JobCells) : WaitState :=
  { s with cells := Function.update s.cells job cells }

def begin_ (s : WaitState) (job : Nat) (call : JobOperation) : WaitState :=
  { s with operations := s.operations ++ [⟨job, call, .begun, none⟩] }

/-- A poll returns and drops its guard. -/
def leave (s : WaitState) (i : Nat) (waiter : Waiter) : WaitState :=
  match waiter.role with
  | .dispatch _ => s.setWaiter i waiter .left
  | .pollLocal _ | .pollSubmit _ => (s.begin_ waiter.job .disconnect).setWaiter i waiter .left

def takeResult (s : WaitState) (job : Nat) : WaitState :=
  s.setCells job { s.cells job with result := none }

end WaitState

/-- The look at the state under which the loop would not wait. -/
def waiterCheck (s : WaitState) (i : Nat) (waiter : Waiter) : WaitState :=
  match waiter.role with
  | .dispatch .none => s.setWaiter i waiter .choose
  | .dispatch .cancelled => s.setWaiter i waiter
      (if (s.cells waiter.job).cancelled then .abandon false else .choose)
  | .dispatch .cancelledOrClientGone => s.setWaiter i waiter
      (if (s.cells waiter.job).cancelled then .abandon false else .checkPollers)
  | .pollLocal timeout => match (s.cells waiter.job).result with
      | some _ => (s.takeResult waiter.job).leave i waiter
      | none => s.setWaiter i waiter (.parked (timeout.map (s.now + ·)))
  | .pollSubmit _ => match (s.cells waiter.job).result with
      | some result =>
          if result.isDeliverable then s.leave i waiter
          else (s.takeResult waiter.job).leave i waiter
      | none => s.setWaiter i waiter .checkStatus

def waiterResume (s : WaitState) (i : Nat) (waiter : Waiter) : WaitState :=
  match waiter.role with
  | .dispatch _ | .pollSubmit _ => s.setWaiter i waiter .arm
  | .pollLocal _ => s.setWaiter i waiter .collect

def waiterExpire (s : WaitState) (i : Nat) (waiter : Waiter) : WaitState :=
  match waiter.role with
  | .dispatch _ => s.setWaiter i waiter .arm
  | .pollLocal _ | .pollSubmit _ => s.leave i waiter

def WaitRole.abandonable : WaitRole → Bool
  | .dispatch .cancelledOrClientGone => true
  | _ => false

def WaitRole.deadline (now : Nat) : WaitRole → Option Nat
  | .pollSubmit timeout => some (now + timeout)
  | _ => none

def waiterStep (s : WaitState) (i : Nat) (waiter : Waiter) (event : WaitEvent) :
    Option WaitState :=
  let cells := s.cells waiter.job
  match waiter.pc, event with
  | .connect, .step => some ((s.begin_ waiter.job .connect).setWaiter i waiter
      (.connecting s.operations.length))
  | .connecting k, .step =>
      if s.operations[k]?.any (·.pc = .done) then
        some (s.setWaiter i { waiter with deadline := waiter.role.deadline s.now } .arm)
      else none
  | .arm, .step => some (s.setWaiter i { waiter with
      armed := cells.notifications waiter.role.notifier
      armedAt := s.moment } .check)
  | .check, .step => some (waiterCheck s i waiter)
  | .checkPollers, .step => some (s.setWaiter i waiter
      (if 0 < cells.activePollers then .choose else .checkDeadline))
  | .checkDeadline, .step => some (s.setWaiter i waiter
      (if s.now < cells.reconnectDeadline then .choose else .abandon true))
  | .abandon false, .step => some (s.setWaiter i waiter (if cells.cancelled then .left else .arm))
  | .abandon true, .step => some (s.setWaiter i waiter
      (if 0 < cells.activePollers then .arm else .abandonDeadline))
  | .abandonDeadline, .step => some (s.setWaiter i waiter
      (if s.now < cells.reconnectDeadline then .arm else .left))
  | .checkStatus, .step =>
      if cells.processing then some (s.leave i waiter)
      else some (s.setWaiter i waiter (.parked waiter.deadline))
  | .choose, .step => some (s.setWaiter i waiter
      (if waiter.role.abandonable && cells.activePollers = 0 then .chooseDeadline
        else .parked none))
  | .chooseDeadline, .step => some (s.setWaiter i waiter (.parked (some cells.reconnectDeadline)))
  | .parked _, .wake =>
      if waiter.armed < cells.notifications waiter.role.notifier then some (waiterResume s i waiter)
      else none
  | .parked (some deadline), .timeout =>
      if deadline ≤ s.now then some (waiterExpire s i waiter) else none
  | .parked _, .answer => match waiter.role with
      | .dispatch _ => some (s.leave i waiter)
      | _ => none
  | .parked _, .drop => some (s.leave i waiter)
  | .collect, .step => some ((s.takeResult waiter.job).leave i waiter)
  | _, _ => none

def WaitRole.start : WaitRole → WaitPc
  | .dispatch _ => .arm
  | .pollLocal _ | .pollSubmit _ => .connect

def operationEvent (buffer : Nat) (s : WaitState) (i : Nat) (op : Operation) :
    Option WaitState :=
  (operationStep buffer s.now (s.cells op.job) op.call op.pc).map fun (cells, pc, wrote) =>
    { s.setCells op.job cells with operations := (s.operations.set i
        { op with pc := pc, wrote := if wrote then some s.moment else op.wrote }) }

def waitEvent (buffer : Nat) (s : WaitState) : WaitAction → Option WaitState
  | .advance elapsed => some { s with now := s.now + elapsed }
  | .operate job call => if call.unguarded then some (s.begin_ job call) else none
  | .operation i => s.operations[i]?.bind fun op => operationEvent buffer s i op
  | .wait job role => some { s with waiters := s.waiters ++ [⟨job, role, 0, 0, none, role.start⟩] }
  | .waiter i event => s.waiters[i]?.bind fun waiter => waiterStep s i waiter event

/-- `moment` counts the steps. -/
def waitStep (buffer : Nat) (s : WaitState) (action : WaitAction) : Option WaitState :=
  waitEvent buffer { s with moment := s.moment + 1 } action

/-- The waiter has been armed and has not gone on from that. -/
def WaitPc.armed : WaitPc → Bool
  | .connect | .connecting _ | .arm | .collect | .left => false
  | _ => true

/-- A notification is there for the waiter. -/
def Pending (s : WaitState) (waiter : Waiter) : Prop :=
  waiter.armed < (s.cells waiter.job).notifications waiter.role.notifier

/-- The operation notifies the waiter. -/
def Concerns (op : Operation) (waiter : Waiter) : Prop :=
  op.job = waiter.job ∧ op.call.notifier = waiter.role.notifier

/-- Some operation has changed a cell since the waiter was armed. -/
def Touched (s : WaitState) (waiter : Waiter) : Prop :=
  ∃ op ∈ s.operations, Concerns op waiter ∧ ∃ m, op.wrote = some m ∧ waiter.armedAt ≤ m

/-- What a queued dispatch has seen of the cells. -/
def DispatchClear (cells : JobCells) (guard : DispatchGuard) : WaitPc → Prop
  | .arm | .check | .abandon _ | .abandonDeadline | .left => True
  | .checkPollers | .checkDeadline | .chooseDeadline =>
      guard = .cancelledOrClientGone ∧ cells.cancelled = false
  | .choose => guard ≠ .none → cells.cancelled = false
  | .parked timer => (guard ≠ .none → cells.cancelled = false) ∧
      (guard = .cancelledOrClientGone → match timer with
        | none => 0 < cells.activePollers
        | some deadline => cells.reconnectDeadline = deadline)
  | .connect | .connecting _ | .checkStatus | .collect => False

def PollLocalClear (cells : JobCells) : WaitPc → Prop
  | .connect | .connecting _ | .arm | .check | .collect | .left => True
  | .parked _ => cells.result = none
  | _ => False

def PollSubmitClear (cells : JobCells) : WaitPc → Prop
  | .connect | .connecting _ | .arm | .check | .left => True
  | .checkStatus => cells.result = none
  | .parked _ => cells.result = none ∧ cells.processing = false
  | _ => False

/-- What a waiter has seen of the cells. -/
def Clear (cells : JobCells) (waiter : Waiter) : Prop :=
  match waiter.role with
  | .dispatch guard => DispatchClear cells guard waiter.pc
  | .pollLocal _ => PollLocalClear cells waiter.pc
  | .pollSubmit _ => PollSubmitClear cells waiter.pc

structure WakeWf (s : WaitState) : Prop where
  past (op : Operation) : op ∈ s.operations → ∀ m, op.wrote = some m → m ≤ s.moment
  armedAt (waiter : Waiter) : waiter ∈ s.waiters → waiter.armedAt ≤ s.moment
  unfinished (op : Operation) : op ∈ s.operations → op.wrote ≠ none →
    op.pc = .done ∨ op.pc = .written ∨ op.pc = .stored ∧ op.call = .disconnect
  counted (waiter : Waiter) : waiter ∈ s.waiters → waiter.pc.armed = true →
    waiter.armed ≤ (s.cells waiter.job).notifications waiter.role.notifier
  heard (waiter : Waiter) (op : Operation) : waiter ∈ s.waiters → waiter.pc.armed = true →
    op ∈ s.operations → Concerns op waiter → op.pc = .done →
    ∀ m, op.wrote = some m → waiter.armedAt ≤ m → Pending s waiter
  seen (waiter : Waiter) : waiter ∈ s.waiters → Clear (s.cells waiter.job) waiter ∨ Touched s waiter

/-- The cells that waiters on a notifier look at are the same. -/
def JobCells.Agree (left right : JobCells) : Notifier → Prop
  | .dispatchNotify => left.cancelled = right.cancelled ∧
      left.activePollers = right.activePollers ∧ left.reconnectDeadline = right.reconnectDeadline
  | .notify => left.result = right.result ∧ left.processing = right.processing

theorem JobCells.Agree.refl (cells : JobCells) (notifier : Notifier) :
    cells.Agree cells notifier := by
  cases notifier <;> simp [Agree]

/-- What a step of an operation does. -/
structure OperationMove (cells after : JobCells) (op : Operation) (pc : OperationPc)
    (wrote : Bool) : Prop where
  agree (notifier : Notifier) : (wrote = true → op.call.notifier ≠ notifier) →
    after.Agree cells notifier
  counts (notifier : Notifier) : cells.notifications notifier ≤ after.notifications notifier
  notified : pc = .done → op.wrote ≠ none →
    cells.notifications op.call.notifier < after.notifications op.call.notifier
  silent : wrote = true → pc ≠ .done
  ahead : op.wrote ≠ none ∨ wrote = true →
    pc = .done ∨ pc = .written ∨ pc = .stored ∧ op.call = .disconnect

section Steps

variable {buffer : Nat} {s next : WaitState} {waiter : Waiter} {op : Operation}
  {cells after : JobCells} {pc : OperationPc} {wrote : Bool}

/-- A step that changes cells of its own notifier. -/
theorem OperationMove.write (mine : ∀ notifier, op.call.notifier ≠ notifier →
      after.Agree cells notifier)
    (counts : ∀ notifier, after.notifications notifier = cells.notifications notifier)
    (ahead : pc = .written ∨ pc = .stored ∧ op.call = .disconnect) :
    OperationMove cells after op pc true where
  agree := fun notifier different => mine notifier (different rfl)
  counts := fun notifier => (counts notifier).ge
  notified := by rcases ahead with rfl | ⟨rfl, _⟩ <;> simp
  silent := by rcases ahead with rfl | ⟨rfl, _⟩ <;> simp
  ahead := fun _ => Or.inr ahead

/-- A step that changes no cell and notifies nobody, before any write. -/
theorem OperationMove.idle (unwritten : op.wrote = none) : OperationMove cells cells op pc false where
  agree := fun notifier _ => .refl cells notifier
  counts := fun _ => le_refl _
  notified := fun _ was => absurd unwritten was
  silent := by simp
  ahead := by simp [unwritten]

theorem operationStep_move {now : Nat}
    (reached : op.wrote ≠ none →
      op.pc = .done ∨ op.pc = .written ∨ op.pc = .stored ∧ op.call = .disconnect)
    (taken : operationStep buffer now cells op.call op.pc = some (after, pc, wrote)) :
    OperationMove cells after op pc wrote := by
  have begun : op.pc = .begun → op.wrote = none := by
    intro at_
    by_contra was
    simpa [at_] using reached was
  unfold operationStep at taken
  split at taken
  all_goals
    try simp only [Option.some.injEq, Prod.mk.injEq, reduceCtorEq] at taken
  next =>
    obtain ⟨rfl, rfl, rfl⟩ := taken
    refine ⟨?_, ?_, ?_, by simp, by simp⟩
    · intro notifier _
      cases op.call.notifier <;> cases notifier <;> simp [JobCells.Agree, JobCells.notifyWaiters]
    · intro notifier
      cases op.call.notifier <;> cases notifier <;>
        simp [JobCells.notifications, JobCells.notifyWaiters]
    · intro _ _
      cases op.call.notifier <;> simp [JobCells.notifications, JobCells.notifyWaiters]
  next call _ =>
    obtain ⟨rfl, rfl, rfl⟩ := taken
    refine .write ?_ (fun notifier => by cases notifier <;> rfl) (Or.inl rfl)
    intro notifier different
    cases notifier <;> simp_all [JobCells.Agree, JobOperation.notifier]
  next call _ =>
    obtain ⟨rfl, rfl, rfl⟩ := taken
    refine .write ?_ (fun notifier => by cases notifier <;> rfl) (Or.inl rfl)
    intro notifier different
    cases notifier <;> simp_all [JobCells.Agree, JobOperation.notifier]
  next _ at_ =>
    obtain ⟨rfl, rfl, rfl⟩ := taken
    exact .idle (begun at_)
  next call _ =>
    obtain ⟨rfl, rfl, rfl⟩ := taken
    refine .write ?_ (fun notifier => by cases notifier <;> rfl) (Or.inr ⟨rfl, call⟩)
    intro notifier different
    cases notifier <;> simp_all [JobCells.Agree, JobOperation.notifier]
  next call _ =>
    obtain ⟨rfl, rfl, rfl⟩ := taken
    refine .write ?_ (fun notifier => by cases notifier <;> rfl) (Or.inl rfl)
    intro notifier different
    cases notifier <;> simp_all [JobCells.Agree, JobOperation.notifier]
  next call _ =>
    obtain ⟨rfl, rfl, rfl⟩ := taken
    refine .write ?_ (fun notifier => by cases notifier <;> rfl) (Or.inl rfl)
    intro notifier different
    cases notifier <;> simp_all [JobCells.Agree, JobOperation.notifier]
  next call at_ =>
    split at taken
    all_goals
      simp only [Option.some.injEq, Prod.mk.injEq] at taken
      obtain ⟨rfl, rfl, rfl⟩ := taken
    · exact .idle (begun at_)
    · refine .write ?_ (fun notifier => by cases notifier <;> rfl) (Or.inl rfl)
      intro notifier different
      cases notifier <;> simp_all [JobCells.Agree, JobOperation.notifier]

/-- A waiter looks only at the cells of its notifier. -/
theorem Clear.congr (agree : after.Agree cells waiter.role.notifier) (clear : Clear cells waiter) :
    Clear after waiter := by
  cases role : waiter.role with
  | dispatch guard =>
      simp only [role, WaitRole.notifier, JobCells.Agree] at agree
      simp only [Clear, role] at clear ⊢
      unfold DispatchClear at clear ⊢
      rw [agree.1, agree.2.1, agree.2.2]
      exact clear
  | pollLocal timeout =>
      simp only [role, WaitRole.notifier, JobCells.Agree] at agree
      simp only [Clear, role] at clear ⊢
      unfold PollLocalClear at clear ⊢
      rw [agree.1]
      exact clear
  | pollSubmit timeout =>
      simp only [role, WaitRole.notifier, JobCells.Agree] at agree
      simp only [Clear, role] at clear ⊢
      unfold PollSubmitClear at clear ⊢
      rw [agree.1, agree.2]
      exact clear

/-- Taking the result out is nothing to wait for. -/
theorem Clear.take (clear : Clear cells waiter) : Clear { cells with result := none } waiter := by
  cases role : waiter.role with
  | dispatch guard =>
      simp only [Clear, role] at clear ⊢
      exact clear
  | pollLocal timeout =>
      simp only [Clear, role] at clear ⊢
      cases pc : waiter.pc <;> simp_all [PollLocalClear]
  | pollSubmit timeout =>
      simp only [Clear, role] at clear ⊢
      cases pc : waiter.pc <;> simp_all [PollSubmitClear]

/-- How a waiter moves. -/
structure WaiterMove (s : WaitState) (waiter later : Waiter) : Prop where
  job : later.job = waiter.job
  role : later.role = waiter.role
  clear : Clear (s.cells waiter.job) waiter → Clear (s.cells waiter.job) later
  armed : later.armedAt = s.moment ∧ later.pc = .check ∧
      later.armed = (s.cells waiter.job).notifications waiter.role.notifier ∨
    later.armedAt = waiter.armedAt ∧ later.armed = waiter.armed ∧
      (later.pc.armed = true → waiter.pc.armed = true)

/-- What a step of a waiter does to the state. -/
structure WaiterFrame (s next : WaitState) (i : Nat) (waiter : Waiter) : Prop where
  moment : next.moment = s.moment
  cells : next.cells = s.cells ∨
    next.cells = Function.update s.cells waiter.job { s.cells waiter.job with result := none }
  operations : next.operations = s.operations ∨
    ∃ call, next.operations = s.operations ++ [⟨waiter.job, call, .begun, none⟩]
  waiters : ∃ later, next.waiters = s.waiters.set i later ∧ WaiterMove s waiter later

theorem WaiterMove.of_pc {pc : WaitPc} (armed : pc.armed = true → waiter.pc.armed = true)
    (clear : Clear (s.cells waiter.job) waiter →
      Clear (s.cells waiter.job) { waiter with pc := pc }) :
    WaiterMove s waiter { waiter with pc := pc } :=
  ⟨rfl, rfl, clear, Or.inr ⟨rfl, rfl, armed⟩⟩

theorem WaiterFrame.setWaiter {i : Nat} {pc : WaitPc}
    (armed : pc.armed = true → waiter.pc.armed = true)
    (clear : Clear (s.cells waiter.job) waiter →
      Clear (s.cells waiter.job) { waiter with pc := pc }) :
    WaiterFrame s (s.setWaiter i waiter pc) i waiter :=
  ⟨rfl, Or.inl rfl, Or.inl rfl, _, rfl, .of_pc armed clear⟩

/-- A waiter that leaves has nothing to miss any more. -/
theorem WaiterFrame.leave {i : Nat} : WaiterFrame s (s.leave i waiter) i waiter := by
  unfold WaitState.leave
  split
  all_goals
    next role =>
      refine ⟨rfl, Or.inl rfl, ?_, _, rfl, .of_pc (by simp [WaitPc.armed]) fun _ => ?_⟩
      · first | exact Or.inl rfl | exact Or.inr ⟨_, rfl⟩
      · simp only [Clear, role]
        trivial

theorem WaiterFrame.takeAndLeave {i : Nat} :
    WaiterFrame s ((s.takeResult waiter.job).leave i waiter) i waiter := by
  unfold WaitState.leave
  split
  all_goals
    next role =>
      refine ⟨rfl, Or.inr rfl, ?_, _, rfl, .of_pc (by simp [WaitPc.armed]) fun _ => ?_⟩
      · first | exact Or.inl rfl | exact Or.inr ⟨_, rfl⟩
      · simp only [Clear, role]
        trivial

theorem waiterCheck_frame {i : Nat} (at_ : waiter.pc = .check) :
    WaiterFrame s (waiterCheck s i waiter) i waiter := by
  have looked : waiter.pc.armed = true := by rw [at_]; rfl
  unfold waiterCheck
  split
  next role =>
    refine .setWaiter (fun _ => looked) fun _ => ?_
    simp [Clear, role, DispatchClear]
  next role =>
    refine .setWaiter (fun _ => looked) fun _ => ?_
    split
    next => simp [Clear, role, DispatchClear]
    next uncancelled => simpa [Clear, role, DispatchClear] using uncancelled
  next role =>
    refine .setWaiter (fun _ => looked) fun _ => ?_
    split
    next => simp [Clear, role, DispatchClear]
    next uncancelled => simpa [Clear, role, DispatchClear] using uncancelled
  next role =>
    split
    next => exact .takeAndLeave
    next empty =>
      refine .setWaiter (fun _ => looked) fun _ => ?_
      simpa [Clear, role, PollLocalClear] using empty
  next role =>
    split
    next =>
      split
      · exact .leave
      · exact .takeAndLeave
    next empty =>
      refine .setWaiter (fun _ => looked) fun _ => ?_
      simpa [Clear, role, PollSubmitClear] using empty

theorem waiterResume_frame {i : Nat} :
    WaiterFrame s (waiterResume s i waiter) i waiter := by
  unfold waiterResume
  split
  all_goals
    next role =>
      refine .setWaiter (by simp [WaitPc.armed]) fun _ => ?_
      simp only [Clear, role]
      trivial

theorem waiterExpire_frame {i : Nat} : WaiterFrame s (waiterExpire s i waiter) i waiter := by
  unfold waiterExpire
  split
  next role =>
    refine .setWaiter (by simp [WaitPc.armed]) fun _ => ?_
    simp only [Clear, role]
    trivial
  next => exact .leave
  next => exact .leave

/-- A waiter that arms again. -/
theorem clear_of_arm (cells : JobCells) : Clear cells { waiter with pc := .arm } := by
  unfold Clear
  cases waiter.role <;> trivial

/-- Only a queued dispatch comes to a stage that the polls do not have. -/
theorem Clear.dispatch {pc : WaitPc} (at_ : waiter.pc = pc) (clear : Clear cells waiter)
    (foreign : ¬ PollLocalClear cells pc ∧ ¬ PollSubmitClear cells pc) :
    ∃ guard, waiter.role = .dispatch guard ∧ DispatchClear cells guard pc := by
  unfold Clear at clear
  rw [at_] at clear
  split at clear
  next guard role => exact ⟨guard, role, clear⟩
  next => exact absurd clear foreign.1
  next => exact absurd clear foreign.2

/-- A step of a queued dispatch from one stage to another. -/
theorem WaiterFrame.dispatch {i : Nat} {pc later : WaitPc} (at_ : waiter.pc = pc)
    (looking : pc.armed = true)
    (foreign : ¬ PollLocalClear (s.cells waiter.job) pc ∧ ¬ PollSubmitClear (s.cells waiter.job) pc)
    (clear : ∀ guard, waiter.role = .dispatch guard →
      DispatchClear (s.cells waiter.job) guard pc →
      DispatchClear (s.cells waiter.job) guard later) :
    WaiterFrame s (s.setWaiter i waiter later) i waiter := by
  refine .setWaiter (fun _ => by rw [at_, looking]) fun before => ?_
  obtain ⟨guard, role, was⟩ := before.dispatch at_ foreign
  simp only [Clear, role]
  exact clear guard role was

theorem waiterStep_frame {i : Nat} {event : WaitEvent}
    (taken : waiterStep s i waiter event = some next) : WaiterFrame s next i waiter := by
  unfold waiterStep at taken
  dsimp only at taken
  split at taken
  all_goals
    try simp only [Option.some.injEq, reduceCtorEq] at taken
  next at_ =>
    subst taken
    refine ⟨rfl, Or.inl rfl, Or.inr ⟨_, rfl⟩, _, rfl, .of_pc (by simp [WaitPc.armed]) fun clear => ?_⟩
    unfold Clear at clear ⊢
    rw [at_] at clear
    cases role : waiter.role <;> simp_all [DispatchClear, PollLocalClear, PollSubmitClear]
  next k at_ =>
    split at taken
    · simp only [Option.some.injEq] at taken
      subst taken
      exact ⟨rfl, Or.inl rfl, Or.inl rfl, _, rfl, rfl, rfl, fun _ => clear_of_arm _,
        Or.inr ⟨rfl, rfl, by simp [WaitPc.armed]⟩⟩
    · simp at taken
  next at_ =>
    subst taken
    refine ⟨rfl, Or.inl rfl, Or.inl rfl, _, rfl, rfl, rfl, fun _ => ?_, Or.inl ⟨rfl, rfl, rfl⟩⟩
    unfold Clear
    cases waiter.role <;> trivial
  next at_ => exact taken ▸ waiterCheck_frame at_
  next at_ =>
    subst taken
    refine .dispatch at_ rfl ⟨id, id⟩ fun guard _ was => ?_
    split
    · exact fun _ => was.2
    · exact was
  next at_ =>
    subst taken
    refine .dispatch at_ rfl ⟨id, id⟩ fun guard _ was => ?_
    split
    · exact fun _ => was.2
    · trivial
  next at_ =>
    subst taken
    refine .dispatch at_ rfl ⟨id, id⟩ fun guard _ _ => ?_
    split <;> trivial
  next at_ =>
    subst taken
    refine .dispatch at_ rfl ⟨id, id⟩ fun guard _ _ => ?_
    split <;> trivial
  next at_ =>
    subst taken
    refine .dispatch at_ rfl ⟨id, id⟩ fun guard _ _ => ?_
    split <;> trivial
  next at_ =>
    split at taken
    · exact Option.some.inj taken ▸ .leave
    next queued =>
      simp only [Option.some.injEq] at taken
      subst taken
      refine .setWaiter (fun _ => by rw [at_]; rfl) fun clear => ?_
      unfold Clear at clear ⊢
      rw [at_] at clear
      cases role : waiter.role with
      | pollSubmit timeout =>
          simp only [role] at clear ⊢
          exact ⟨clear, by simpa using queued⟩
      | dispatch guard | pollLocal timeout =>
          simp only [role] at clear
          exact clear.elim
  next at_ =>
    subst taken
    refine .dispatch at_ rfl ⟨id, id⟩ fun guard role was => ?_
    split
    next polls =>
      simp only [role, Bool.and_eq_true] at polls
      cases guard with
      | cancelledOrClientGone => exact ⟨rfl, was (by simp)⟩
      | _ => simp [WaitRole.abandonable] at polls
    next polls =>
      refine ⟨was, ?_⟩
      rintro rfl
      simp only [role, WaitRole.abandonable, Bool.true_and, decide_eq_true_eq] at polls
      exact Nat.pos_of_ne_zero polls
  next at_ =>
    subst taken
    refine .dispatch at_ rfl ⟨id, id⟩ fun guard _ was => ?_
    exact ⟨fun _ => was.2, fun _ => rfl⟩
  next =>
    split at taken
    · exact Option.some.inj taken ▸ waiterResume_frame
    · simp at taken
  next =>
    split at taken
    · exact Option.some.inj taken ▸ waiterExpire_frame
    · simp at taken
  next =>
    split at taken
    · exact Option.some.inj taken ▸ .leave
    · simp at taken
  next => exact taken ▸ .leave
  next => exact taken ▸ .takeAndLeave

/-- A result that was taken out changes no count. -/
theorem notifications_of_take {job : Nat}
    (same : next.cells job = s.cells job ∨ next.cells job = { s.cells job with result := none })
    (notifier : Notifier) :
    (next.cells job).notifications notifier = (s.cells job).notifications notifier := by
  rcases same with same | taken
  · rw [same]
  · rw [taken]
    cases notifier <;> rfl

theorem Clear.of_take {job : Nat}
    (same : next.cells job = s.cells job ∨ next.cells job = { s.cells job with result := none })
    (clear : Clear (s.cells job) waiter) : Clear (next.cells job) waiter := by
  rcases same with same | taken
  · rwa [same]
  · rw [taken]
    exact clear.take

/-- A waiter of the next state: as it was, moved, or new. -/
inductive WaiterStays (s : WaitState) (later : Waiter) : Prop
  | same : later ∈ s.waiters → WaiterStays s later
  | moved {waiter : Waiter} : waiter ∈ s.waiters →
      WaiterMove { s with moment := s.moment + 1 } waiter later → WaiterStays s later
  | fresh : later.pc = later.role.start → later.armedAt = 0 → WaiterStays s later

/-- A step in which no operation moves. -/
structure NoOperation (s next : WaitState) : Prop where
  moment : next.moment = s.moment + 1
  cells (job : Nat) :
    next.cells job = s.cells job ∨ next.cells job = { s.cells job with result := none }
  operations : next.operations = s.operations ∨
    ∃ job call, next.operations = s.operations ++ [⟨job, call, .begun, none⟩]
  waiters (later : Waiter) : later ∈ next.waiters → WaiterStays s later

theorem NoOperation.old (step : NoOperation s next) (inside : op ∈ next.operations)
    (wrote : op.wrote ≠ none) : op ∈ s.operations := by
  rcases step.operations with same | ⟨job, call, appended⟩
  · rwa [same] at inside
  · rw [appended, List.mem_append, List.mem_singleton] at inside
    rcases inside with old | rfl
    · exact old
    · simp at wrote

theorem NoOperation.touched (step : NoOperation s next) (touched : Touched s waiter) :
    Touched next waiter := by
  obtain ⟨op, inside, concerns, wrote⟩ := touched
  refine ⟨op, ?_, concerns, wrote⟩
  rcases step.operations with same | ⟨job, call, appended⟩
  · rwa [same]
  · rw [appended]
    exact List.mem_append_left _ inside

theorem WakeWf.of_noOperation (wf : WakeWf s) (step : NoOperation s next) : WakeWf next where
  past := by
    intro op inside m wrote
    have before := wf.past op (step.old inside (by simp [wrote])) m wrote
    rw [step.moment]
    omega
  armedAt := by
    intro later inside
    rw [step.moment]
    cases step.waiters later inside with
    | same old =>
        have before := wf.armedAt later old
        omega
    | moved old move =>
        have before := wf.armedAt _ old
        rcases move.armed with ⟨now, _⟩ | ⟨same, _⟩
        · simp only at now
          omega
        · omega
    | fresh _ zero => omega
  unfinished := by
    intro op inside wrote
    exact wf.unfinished op (step.old inside wrote) wrote
  counted := by
    intro later inside armed
    rw [notifications_of_take (step.cells _)]
    cases step.waiters later inside with
    | same old => exact wf.counted later old armed
    | moved old move =>
        rw [move.job, move.role]
        rcases move.armed with ⟨_, _, count⟩ | ⟨_, same, before⟩
        · exact count.le
        · rw [same]
          exact wf.counted _ old (before armed)
    | fresh start _ =>
        rw [start] at armed
        cases role : later.role <;> simp [role, WaitRole.start, WaitPc.armed] at armed
  heard := by
    intro later op inside armed there concerns done m wrote since
    have known := step.old there (by simp [wrote])
    rw [Pending, notifications_of_take (step.cells _)]
    cases step.waiters later inside with
    | same old => exact wf.heard later op old armed known concerns done m wrote since
    | moved old move =>
        rcases move.armed with ⟨now, _⟩ | ⟨sameAt, same, before⟩
        · have past := wf.past op known m wrote
          simp only at now
          omega
        · rw [Concerns, move.job, move.role] at concerns
          rw [sameAt] at since
          rw [move.job, move.role, same]
          exact wf.heard _ op old (before armed) known concerns done m wrote since
    | fresh start _ =>
        rw [start] at armed
        cases role : later.role <;> simp [role, WaitRole.start, WaitPc.armed] at armed
  seen := by
    intro later inside
    cases step.waiters later inside with
    | same old =>
        rcases wf.seen later old with clear | touched
        · exact Or.inl (clear.of_take (step.cells _))
        · exact Or.inr (step.touched touched)
    | moved old move =>
        rcases wf.seen _ old with clear | touched
        · refine Or.inl (Clear.of_take (step.cells _) ?_)
          rw [move.job]
          exact move.clear clear
        · rcases move.armed with ⟨_, check, _⟩ | ⟨sameAt, _⟩
          · refine Or.inl ?_
            unfold Clear
            rw [check]
            cases later.role <;> trivial
          · refine Or.inr (step.touched ?_)
            obtain ⟨op, there, concerns, m, wrote, since⟩ := touched
            refine ⟨op, there, ?_, m, wrote, by rw [sameAt]; exact since⟩
            rw [Concerns, move.job, move.role]
            exact concerns
    | fresh start _ =>
        refine Or.inl ?_
        unfold Clear
        rw [start]
        cases later.role <;> trivial

/-- A step of operation `i`. -/
structure OperationFrame (s next : WaitState) (i : Nat) (op : Operation) : Prop where
  moment : next.moment = s.moment + 1
  waiters : next.waiters = s.waiters
  moved : ∃ cells pc wrote, next.cells = Function.update s.cells op.job cells ∧
    next.operations = (s.operations.set i { op with
      pc := pc, wrote := if wrote then some (s.moment + 1) else op.wrote }) ∧
    OperationMove (s.cells op.job) cells op pc wrote

theorem operationEvent_frame {i : Nat} (wf : WakeWf s) (present : s.operations[i]? = some op)
    (taken : operationEvent buffer { s with moment := s.moment + 1 } i op = some next) :
    OperationFrame s next i op := by
  simp only [operationEvent, Option.map_eq_some_iff] at taken
  obtain ⟨⟨cells, pc, wrote⟩, stepped, rfl⟩ := taken
  have reached := wf.unfinished op (List.mem_of_getElem? present)
  exact ⟨rfl, rfl, cells, pc, wrote, rfl, rfl, operationStep_move reached stepped⟩

theorem WakeWf.of_operation {i : Nat} (wf : WakeWf s) (present : s.operations[i]? = some op)
    (frame : OperationFrame s next i op) : WakeWf next := by
  obtain ⟨cells, pc, wrote, updated, operations, move⟩ := frame.moved
  have inside := List.mem_of_getElem? present
  have bound := (List.getElem?_eq_some_iff.mp present).1
  let after : Operation :=
    { op with pc := pc, wrote := if wrote then some (s.moment + 1) else op.wrote }
  have mine : after ∈ next.operations := by
    rw [operations]
    exact List.mem_set bound after
  have either : ∀ other ∈ next.operations, other ∈ s.operations ∨ other = after := by
    intro other there
    rw [operations] at there
    exact List.mem_or_eq_of_mem_set there
  have counts : ∀ job notifier,
      (s.cells job).notifications notifier ≤ (next.cells job).notifications notifier := by
    intro job notifier
    rw [updated]
    by_cases same : job = op.job
    · subst same
      rw [Function.update_self]
      exact move.counts notifier
    · rw [Function.update_of_ne same]
  have touched : ∀ waiter, Touched s waiter → Touched next waiter := by
    rintro waiter ⟨other, there, concerns, m, wroteAt, since⟩
    obtain ⟨j, known⟩ := List.mem_iff_getElem?.mp there
    by_cases here : i = j
    · subst here
      obtain rfl := Option.some.inj (present.symm.trans known)
      refine ⟨after, mine, concerns, ?_⟩
      by_cases writes : wrote = true
      · have past := wf.past op inside m wroteAt
        exact ⟨s.moment + 1, by simp [after, writes], by omega⟩
      · exact ⟨m, by simp [after, writes, wroteAt], since⟩
    · refine ⟨other, ?_, concerns, m, wroteAt, since⟩
      rw [operations]
      exact List.mem_of_getElem? (by rw [List.getElem?_set_ne here]; exact known)
  refine ⟨?_, ?_, ?_, ?_, ?_, ?_⟩
  · intro other there m wroteAt
    rw [frame.moment]
    rcases either other there with old | rfl
    · have past := wf.past other old m wroteAt
      omega
    · by_cases writes : wrote = true
      · simp only [after, writes, if_true, Option.some.injEq] at wroteAt
        omega
      · simp only [after, writes, Bool.false_eq_true, if_false] at wroteAt
        have past := wf.past op inside m wroteAt
        omega
  · intro waiter there
    rw [frame.waiters] at there
    rw [frame.moment]
    have before := wf.armedAt waiter there
    omega
  · intro other there wroteAt
    rcases either other there with old | rfl
    · exact wf.unfinished other old wroteAt
    · refine move.ahead ?_
      by_cases writes : wrote = true
      · exact Or.inr writes
      · exact Or.inl (by simpa [after, writes] using wroteAt)
  · intro waiter there armed
    rw [frame.waiters] at there
    exact (wf.counted waiter there armed).trans (counts _ _)
  · intro waiter other there armed known concerns done m wroteAt since
    rw [frame.waiters] at there
    rcases either other known with old | rfl
    · exact lt_of_lt_of_le (wf.heard waiter other there armed old concerns done m wroteAt since)
        (counts _ _)
    · have quiet : wrote ≠ true := fun writes => move.silent writes done
      have before : op.wrote ≠ none := by
        have kept : op.wrote = some m := by simpa [after, quiet] using wroteAt
        simp [kept]
      have more := move.notified done before
      have counted := wf.counted waiter there armed
      obtain ⟨job, notifier⟩ := concerns
      rw [Pending, updated, ← job, Function.update_self, ← notifier]
      rw [← job, ← notifier] at counted
      exact lt_of_le_of_lt counted more
  · intro waiter there
    rw [frame.waiters] at there
    rcases wf.seen waiter there with clear | was
    · by_cases same : waiter.job = op.job
      · by_cases writes : wrote = true ∧ op.call.notifier = waiter.role.notifier
        · have before := wf.armedAt waiter there
          exact Or.inr ⟨after, mine, ⟨same.symm, writes.2⟩, s.moment + 1, by simp [after, writes.1],
            by omega⟩
        · refine Or.inl ?_
          rw [updated, same, Function.update_self]
          rw [same] at clear
          refine clear.congr (move.agree _ ?_)
          intro wrote_ own
          exact writes ⟨wrote_, own⟩
      · refine Or.inl ?_
        rw [updated, Function.update_of_ne same]
        exact clear
    · exact Or.inr (touched waiter was)

theorem waitEvent_noOperation {action : WaitAction} (other : ∀ i, action ≠ .operation i)
    (taken : waitEvent buffer { s with moment := s.moment + 1 } action = some next) :
    NoOperation s next := by
  cases action with
  | operation i => exact absurd rfl (other i)
  | advance elapsed =>
      rw [← Option.some.inj taken]
      exact ⟨rfl, fun _ => Or.inl rfl, Or.inl rfl, fun _ inside => .same inside⟩
  | operate job call =>
      simp only [waitEvent] at taken
      split at taken
      · rw [← Option.some.inj taken]
        exact ⟨rfl, fun _ => Or.inl rfl, Or.inr ⟨_, _, rfl⟩, fun _ inside => .same inside⟩
      · simp at taken
  | wait job role =>
      rw [← Option.some.inj taken]
      refine ⟨rfl, fun _ => Or.inl rfl, Or.inl rfl, fun later inside => ?_⟩
      rcases List.mem_append.mp inside with old | new
      · exact .same old
      · rw [List.mem_singleton.mp new]
        exact .fresh rfl rfl
  | waiter i event =>
      simp only [waitEvent, Option.bind_eq_some_iff] at taken
      obtain ⟨waiter, present, taken⟩ := taken
      have frame := waiterStep_frame taken
      obtain ⟨moved, waiters, move⟩ := frame.waiters
      refine ⟨frame.moment, ?_, ?_, ?_⟩
      · intro job
        rcases frame.cells with same | taken
        · exact Or.inl (by rw [same])
        · by_cases here : job = waiter.job
          · subst here
            exact Or.inr (by rw [taken, Function.update_self])
          · exact Or.inl (by rw [taken, Function.update_of_ne here])
      · exact frame.operations.imp_right fun ⟨call, appended⟩ => ⟨_, call, appended⟩
      · intro later inside
        rw [waiters] at inside
        rcases List.mem_or_eq_of_mem_set inside with old | rfl
        · exact .same old
        · exact .moved (List.mem_of_getElem? present) move

theorem WakeWf.step {action : WaitAction} (wf : WakeWf s)
    (taken : waitStep buffer s action = some next) : WakeWf next := by
  by_cases operation : ∃ i, action = .operation i
  · obtain ⟨i, rfl⟩ := operation
    simp only [waitStep, waitEvent, Option.bind_eq_some_iff] at taken
    obtain ⟨op, present, taken⟩ := taken
    exact wf.of_operation present (operationEvent_frame wf present taken)
  · refine wf.of_noOperation (waitEvent_noOperation ?_ taken)
    rintro i rfl
    exact operation ⟨i, rfl⟩

theorem WakeWf.initial (cells : Nat → JobCells) (now : Nat) : WakeWf (WaitState.new cells now) where
  past := by simp [WaitState.new]
  armedAt := by simp [WaitState.new]
  unfinished := by simp [WaitState.new]
  counted := by simp [WaitState.new]
  heard := by simp [WaitState.new]
  seen := by simp [WaitState.new]

theorem WakeWf.of_path {cells : Nat → JobCells} {now : Nat} {actions : List WaitAction}
    (path : Path (waitStep buffer) Always (WaitState.new cells now) actions s) : WakeWf s :=
  path.invariant (WakeWf.initial cells now) fun _ _ _ wf _ taken => wf.step taken

end Steps

/-- The state for which the waiter would not wait. -/
def WakeCondition (s : WaitState) (waiter : Waiter) : Prop :=
  let cells := s.cells waiter.job
  match waiter.role with
  | .dispatch .none => False
  | .dispatch .cancelled => cells.cancelled = true
  | .dispatch .cancelledOrClientGone => cells.cancelled = true ∨
      cells.activePollers = 0 ∧ cells.reconnectDeadline ≤ s.now
  | .pollLocal _ => cells.result ≠ none
  | .pollSubmit _ => cells.result ≠ none ∨ cells.processing = true

/-- The operation has its call of `notify_waiters` still ahead. -/
def Operation.underWay (op : Operation) : Prop :=
  op.pc = .written ∨ op.pc = .stored ∧ op.call = .disconnect

section Runs

variable {buffer now i : Nat} {cells : Nat → JobCells} {actions : List WaitAction} {s : WaitState}
  {waiter : Waiter} {timer : Option Nat}

/-- A parked waiter that saw nothing to do has a timer for what time alone can bring. -/
theorem Clear.timer_due (clear : Clear (s.cells waiter.job) waiter)
    (parked : waiter.pc = .parked timer) (wakes : WakeCondition s waiter) :
    ∃ deadline, timer = some deadline ∧ deadline ≤ s.now := by
  unfold Clear at clear
  unfold WakeCondition at wakes
  rw [parked] at clear
  cases role : waiter.role with
  | dispatch guard =>
      simp only [role, DispatchClear] at clear wakes
      obtain ⟨uncancelled, present⟩ := clear
      cases guard with
      | none => exact wakes.elim
      | cancelled => simp [uncancelled] at wakes
      | cancelledOrClientGone =>
          simp only [uncancelled (by simp), Bool.false_eq_true, false_or] at wakes
          have seen := present rfl
          cases timer with
          | none =>
              simp only [wakes.1] at seen
              omega
          | some deadline => exact ⟨deadline, rfl, seen ▸ wakes.2⟩
  | pollLocal timeout =>
      simp only [role, PollLocalClear] at clear wakes
      exact absurd clear wakes
  | pollSubmit timeout =>
      simp only [role, PollSubmitClear] at clear wakes
      simp [clear.1, clear.2] at wakes

/-- A parked waiter has a notification pending for every finished operation that wrote since the
waiter was armed, which was before it looked at the cells. If the state it waits for is there, it
has a notification pending, its timer is due, or an operation is about to notify it. -/
theorem no_lost_wakeup
    (path : Path (waitStep buffer) Always (WaitState.new cells now) actions s)
    (present : s.waiters[i]? = some waiter) (parked : waiter.pc = .parked timer) :
    (∀ op ∈ s.operations, Concerns op waiter → op.pc = .done → ∀ m, op.wrote = some m →
        waiter.armedAt ≤ m → Pending s waiter) ∧
      (WakeCondition s waiter → Pending s waiter ∨
        (∃ deadline, timer = some deadline ∧ deadline ≤ s.now) ∨
        ∃ op ∈ s.operations, Concerns op waiter ∧ op.underWay) := by
  have wf := WakeWf.of_path path
  have inside := List.mem_of_getElem? present
  have armed : waiter.pc.armed = true := by rw [parked]; rfl
  refine ⟨fun op there concerns done m wrote since =>
    wf.heard waiter op inside armed there concerns done m wrote since, ?_⟩
  intro wakes
  rcases wf.seen waiter inside with clear | ⟨op, there, concerns, m, wrote, since⟩
  · exact Or.inr (Or.inl (clear.timer_due parked wakes))
  · rcases wf.unfinished op there (by simp [wrote]) with done | ahead
    · exact Or.inl (wf.heard waiter op inside armed there concerns done m wrote since)
    · exact Or.inr (Or.inr ⟨op, there, concerns, ahead⟩)

end Runs

namespace Scenario

def queuedCells : JobCells where
  cancelled := false
  activePollers := 0
  reconnectDeadline := 10
  processing := false
  result := none
  notify := 0
  dispatchNotify := 0

/-- A queued dispatch parks until the deadline of its client, then its job is cancelled. -/
def parkedThenCancelled : List WaitAction :=
  .wait 0 (.dispatch .cancelledOrClientGone) :: List.replicate 6 (.waiter 0 .step) ++
    [.operate 0 .requestCancel, .operation 0, .operation 0]

end Scenario

open Scenario in
theorem no_lost_wakeup_parkedThenCancelled :
    ∃ s waiter op m, Path (waitStep 5) Always (WaitState.new (fun _ => queuedCells) 0)
        parkedThenCancelled s ∧ s.waiters[0]? = some waiter ∧ waiter.pc = .parked (some 10) ∧
      s.operations[0]? = some op ∧ op.pc = .done ∧ op.wrote = some m ∧ waiter.armedAt ≤ m ∧
      Pending s waiter := by
  have ran : (run (waitStep 5) (WaitState.new (fun _ => queuedCells) 0) parkedThenCancelled).any
      (fun s => s.waiters[0]?.any fun waiter => s.operations[0]?.any fun op =>
        decide (waiter.pc = .parked (some 10)) && decide (op.pc = .done) &&
        decide (op.job = waiter.job) && decide (op.call.notifier = waiter.role.notifier) &&
        op.wrote.any (fun m => decide (waiter.armedAt ≤ m))) = true := by decide +kernel
  obtain ⟨s, finished, checked⟩ := (Option.any_eq_true _ _).mp ran
  obtain ⟨waiter, present, checked⟩ := (Option.any_eq_true _ _).mp checked
  obtain ⟨op, known, checked⟩ := (Option.any_eq_true _ _).mp checked
  simp only [Bool.and_eq_true, decide_eq_true_eq] at checked
  obtain ⟨⟨⟨⟨parked, done⟩, job⟩, notifier⟩, writes⟩ := checked
  obtain ⟨m, wrote, since⟩ := (Option.any_eq_true _ _).mp writes
  have since := of_decide_eq_true since
  have path := Path.of_run _ _ finished
  have pending := (no_lost_wakeup path present parked).1 op (List.mem_of_getElem? known)
    ⟨job, notifier⟩ done m wrote since
  exact ⟨s, waiter, op, m, path, present, parked, known, done, wrote, since, pending⟩

end BitsBroker
