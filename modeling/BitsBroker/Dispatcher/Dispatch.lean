import BitsBroker.Dispatcher.UserLimit
import BitsBroker.Routing.Switch

/-!
A dispatcher with its queue and its executor. A dispatch call admits the job, takes a
permit, puts its item (work future, reply sender, permit, user guard) into the pending
map, queues the job and waits. Workers of a local pool, or `GET /work` handlers of a remote
pool, dequeue jobs and take the items out of the map; a waiting call takes its own item
back when its job is abandoned, and `close` drains the map. One action is one atomic step
of one of these parties: a load, a store, a section under the lock, a send.

The queue is a bag here: a dequeue may take any queued job, and a queue may lose one.
That covers every order the queues deliver in.
-/

namespace BitsBroker

def ActionError.closed : ActionError := .resourceError "dispatcher closed"

def ActionError.overLimit (max : Nat) : ActionError :=
  .userLimitExceeded s!"user is at the per-user limit ({max}) for this route"

inductive DispatchGuard where
  | none
  | cancelled
  | cancelledOrClientGone
deriving DecidableEq

inductive WorkerOutcome where
  | complete (contentType : String) (size : Int) (stream : ByteStream)
  | redirect (location message : String) (contentType : Option String)
      (contentLength : Option UInt64)
  | reject (reason : String)
  | error (message : String)

def WorkerOutcome.toTarget : WorkerOutcome → TargetResult
  | .complete contentType size stream => .complete (.success contentType size stream)
  | .redirect location message contentType contentLength =>
      .complete (.redirect location message contentType contentLength)
  | .reject reason => .reject reason true
  | .error message => .complete (.error message)

inductive Executor (T : Type) where
  | pool (concurrency : Nat)
  | remotePool (heartbeatTimeout : Nat) (translate : WorkerOutcome → T)

structure DispatcherConfig (T : Type) where
  capacity : Nat
  executor : Executor T
  userLimit : Option UserLimitConfig
  shared : Bool

/-- The flags that all clones of a job share. -/
structure JobHandle where
  job : Job
  cancelled : Bool
  activePollers : Nat
  reconnectDeadline : Nat
  notifications : Nat

inductive WorkPhase where
  | unbuilt
  | live
  | running
  | resolved
  | dropped
deriving DecidableEq

def WorkPhase.ended : WorkPhase → Bool
  | .resolved | .dropped => true
  | _ => false

inductive Remover where
  | caller
  | executor
  | closer
deriving DecidableEq

inductive Reply (T : Type) where
  | waiting
  | sent (sender : Remover) (value : Except ActionError T)
  | dropped

def Reply.drop {T : Type} : Reply T → Reply T
  | .waiting => .dropped
  | reply => reply

/-- A one-shot sender is used once; without a receiver the value is lost. -/
def Reply.send {T : Type} (reply : Reply T) (received : Bool) (sender : Remover)
    (value : Except ActionError T) : Reply T :=
  match reply with
  | .waiting => if received then .sent sender value else .dropped
  | reply => reply

inductive Outcome (T : Type) where
  | unclaimed
  | waiting
  | sent (value : T)
  | dropped

/-- What a dispatch call leaves to others: its work future with the user guard inside, the
permit and the reply channel. -/
structure Item (T : Type) where
  guard : DispatchGuard
  limit : Option (String × Nat)
  slot : Bool
  permit : Bool
  work : WorkPhase
  starts : Nat
  observed : Bool
  reply : Reply T
  outcome : Outcome T
  spawned : Bool

def Item.new {T : Type} (guard : DispatchGuard) (limit : Option (String × Nat)) : Item T where
  guard := guard
  limit := limit
  slot := false
  permit := false
  work := .unbuilt
  starts := 0
  observed := false
  reply := .waiting
  outcome := .unclaimed
  spawned := false

def Item.discard {T : Type} (item : Item T) : Item T :=
  { item with work := .dropped, slot := false, permit := false, reply := item.reply.drop }

def Item.endWork {T : Type} (item : Item T) (phase : WorkPhase) : Item T :=
  { item with work := phase, slot := false }

def returnSlot {T : Type} (counts : HashMap String Nat) (item later : Item T) :
    HashMap String Nat :=
  if item.slot && !later.slot then
    match item.limit with
    | some (key, _) => releaseLocal counts key
    | none => counts
  else counts

inductive Exit where
  | refused
  | abandoned
  | answered
deriving DecidableEq

inductive DispatchPc (T : Type) where
  | begun
  | acquire
  | checkClosing
  | insert
  | displacing (item : Nat)
  | enqueue
  | looking
  | lookingPollers
  | lookingDeadline
  | abandoning (error : ActionError)
  | rechecking
  | discarding (error : ActionError) (item : Nat)
  | choosing
  | arming
  | parked (timer : Option Nat)
  | awaitReply
  | returned (exit : Exit) (result : Except ActionError T)
  | dropped

structure Caller (T : Type) where
  job : Nat
  jobId : String
  guard : DispatchGuard
  armed : Nat
  pc : DispatchPc T

def Caller.gone {T : Type} (caller : Caller T) : Bool :=
  match caller.pc with
  | .returned _ _ | .dropped => true
  | _ => false

inductive WorkerPc (T : Type) where
  | idle
  | dequeued (job : Nat)
  | removed (item : Nat)
  | unpermitted (item : Nat)
  | polling (item : Nat)
  | pollingPollers (item : Nat)
  | pollingDeadline (item : Nat)
  | running (item : Nat)
  | sending (item : Nat) (result : Except ActionError T)
  | exited

inductive HandlerPc where
  | waiting
  | dequeued (job : Nat)
  | removed (job item : Nat)
  | unpermitted (job item : Nat)
  | checking (job item : Nat)
  | checkingPollers (job item : Nat)
  | checkingDeadline (job item : Nat)
  | claiming (job item : Nat)
  | displacing (item previous : Nat)
  | spawning (item : Nat)
  | leaving (item : Nat)
  | done
deriving DecidableEq

inductive CloserPc where
  | begun
  | flagged
  | unadmitting
  | draining (stranded : List Nat)
  | sending (stranded : List Nat)
  | done
deriving DecidableEq

structure InProgressJob where
  item : Nat
  lastHeartbeat : Nat
deriving DecidableEq

structure DispatcherState (T : Type) where
  now : Nat
  jobs : List JobHandle
  callers : List (Caller T)
  items : List (Item T)
  remover : Nat → Option Remover
  counts : HashMap String Nat
  permits : Nat
  admissionClosed : Bool
  closing : Bool
  pending : HashMap String Nat
  queue : List Nat
  queueClosed : Bool
  workers : List (WorkerPc T)
  handlers : List HandlerPc
  inProgress : HashMap String InProgressJob
  stopping : Bool
  closers : List CloserPc

def DispatcherState.new {T : Type} (cfg : DispatcherConfig T) (now : Nat) : DispatcherState T where
  now := now
  jobs := []
  callers := []
  items := []
  remover := fun _ => none
  counts := ∅
  permits := cfg.capacity
  admissionClosed := false
  closing := false
  pending := ∅
  queue := []
  queueClosed := false
  workers := match cfg.executor with
    | .pool concurrency => List.replicate concurrency .idle
    | .remotePool _ _ => []
  handlers := []
  inProgress := ∅
  stopping := false
  closers := []

inductive JobFlag where
  | cancel
  | arrive
  | depart
  | deadline (at_ : Nat)
  | notify
deriving DecidableEq

inductive CallEvent where
  | step
  | admitted (granted : Bool)
  | reply
  | wake
  | timeout
  | drop
deriving DecidableEq

inductive WorkerEvent (T : Type) where
  | step
  | dequeue (index : Nat)
  | exit
  | finish (result : Except ActionError T)
  | panic

inductive HandlerEvent where
  | step
  | dequeue (index : Nat)
  | end_
deriving DecidableEq

inductive CloserEvent where
  | step
  | drain (jobId : String)
deriving DecidableEq

inductive DispatcherAction (T : Type) where
  | advance (elapsed : Nat)
  | submit (job : Job)
  | flag (job : Nat) (flag : JobFlag)
  | dispatch (job : Nat) (guard : DispatchGuard)
  | call (i : Nat) (event : CallEvent)
  | worker (i : Nat) (event : WorkerEvent T)
  | lose (index : Nat)
  | getWork
  | handler (i : Nat) (event : HandlerEvent)
  | heartbeat (jobId : String)
  | complete (jobId : String) (outcome : WorkerOutcome)
  | evict (jobId : String)
  | forward (i : Nat)
  | shutdown
  | close
  | closer (i : Nat) (event : CloserEvent)

namespace JobHandle

def new (job : Job) (now : Nat) : JobHandle where
  job := job
  cancelled := false
  activePollers := 0
  reconnectDeadline := now
  notifications := 0

def set (handle : JobHandle) : JobFlag → JobHandle
  | .cancel => { handle with cancelled := true }
  | .arrive => { handle with activePollers := handle.activePollers + 1 }
  | .depart => { handle with activePollers := handle.activePollers - 1 }
  | .deadline at_ => { handle with reconnectDeadline := at_ }
  | .notify => { handle with notifications := handle.notifications + 1 }

end JobHandle

namespace DispatcherState

variable {T : Type}

def cancelledOf (s : DispatcherState T) (job : Nat) : Bool :=
  s.jobs[job]?.any (·.cancelled)

def pollersOf (s : DispatcherState T) (job : Nat) : Nat :=
  (s.jobs[job]?.map (·.activePollers)).getD 0

def deadlineOf (s : DispatcherState T) (job : Nat) : Nat :=
  (s.jobs[job]?.map (·.reconnectDeadline)).getD 0

def notificationsOf (s : DispatcherState T) (job : Nat) : Nat :=
  (s.jobs[job]?.map (·.notifications)).getD 0

def setPc (s : DispatcherState T) (i : Nat) (caller : Caller T) (pc : DispatchPc T) :
    DispatcherState T :=
  { s with callers := s.callers.set i { caller with pc := pc } }

/-- Replaces an item. A guard or a permit that the new item no longer has is dropped, which
gives back what it held. -/
def put (s : DispatcherState T) (c : Nat) (item later : Item T) : DispatcherState T :=
  { s with
    items := s.items.set c later
    counts := returnSlot s.counts item later
    permits := if item.permit && !later.permit then s.permits + 1 else s.permits }

def setWorker (s : DispatcherState T) (i : Nat) (pc : WorkerPc T) : DispatcherState T :=
  { s with workers := s.workers.set i pc }

def setHandler (s : DispatcherState T) (i : Nat) (pc : HandlerPc) : DispatcherState T :=
  { s with handlers := s.handlers.set i pc }

def setCloser (s : DispatcherState T) (i : Nat) (pc : CloserPc) : DispatcherState T :=
  { s with closers := s.closers.set i pc }

/-- Takes an item out of the pending map. -/
def take (s : DispatcherState T) (jobId : String) (item : Nat) (remover : Remover) :
    DispatcherState T :=
  { s with
    pending := AList.erase jobId s.pending
    remover := Function.update s.remover item (some remover) }

end DispatcherState

section Steps

variable {T : Type} (cfg : DispatcherConfig T)

def refuse (s : DispatcherState T) (i : Nat) (caller : Caller T) (item : Item T)
    (error : ActionError) : DispatcherState T :=
  (s.put i item item.discard).setPc i caller (.returned .refused (.error error))

def dispatchBegun (s : DispatcherState T) (i : Nat) (caller : Caller T) (item : Item T) :
    CallEvent → Option (DispatcherState T)
  | .step => match item.limit with
      | none => some (s.setPc i caller .acquire)
      | some (key, max) =>
          if cfg.shared then none
          else if max = 0 then some (refuse s i caller item (.overLimit max))
          else match tryAdmitLocal s.counts key max with
            | none => some (refuse s i caller item (.overLimit max))
            | some counts => some ({ s.put i item { item with slot := true } with
                counts := counts }.setPc i caller .acquire)
  | .admitted granted => match item.limit with
      | none => none
      | some (key, max) =>
          if cfg.shared then
            if granted then some ({ s.put i item { item with slot := true } with
                counts := incrLocal s.counts key }.setPc i caller .acquire)
            else some (refuse s i caller item (.overLimit max))
          else none
  | .drop => some ((s.put i item item.discard).setPc i caller .dropped)
  | _ => none

def dispatchAcquire (s : DispatcherState T) (i : Nat) (caller : Caller T) (item : Item T) :
    DispatcherState T :=
  if s.admissionClosed then refuse s i caller item .closed
  else if s.permits = 0 then refuse s i caller item (.queueFull "dispatcher queue is full")
  else { s.put i item { item with permit := true } with permits := s.permits - 1 }.setPc i caller
    .checkClosing

def dispatchBuild (s : DispatcherState T) (i : Nat) (caller : Caller T) (item : Item T) :
    DispatcherState T :=
  if s.closing then refuse s i caller item .closed
  else (s.put i item { item with work := .live }).setPc i caller .insert

def dispatchInsert (s : DispatcherState T) (i : Nat) (caller : Caller T) (item : Item T) :
    DispatcherState T :=
  if s.closing then refuse s i caller item .closed
  else { s with pending := AList.insert caller.jobId i s.pending }.setPc i caller
    (match s.pending.lookup caller.jobId with
      | some previous => .displacing previous
      | none => .enqueue)

def dispatchLook (s : DispatcherState T) (i : Nat) (caller : Caller T) : DispatcherState T :=
  s.setPc i { caller with armed := s.notificationsOf caller.job }
    (match caller.guard with
      | .none => .choosing
      | .cancelled => if s.cancelledOf caller.job then .abandoning .cancelled else .choosing
      | .cancelledOrClientGone =>
          if s.cancelledOf caller.job then .abandoning .cancelled else .lookingPollers)

def dispatchRemove (s : DispatcherState T) (i : Nat) (caller : Caller T) (error : ActionError) :
    DispatcherState T :=
  match s.pending.lookup caller.jobId with
  | some item => (s.take caller.jobId item .caller).setPc i caller (.discarding error item)
  | none => s.setPc i caller .awaitReply

def dispatchAbandon (s : DispatcherState T) (i : Nat) (caller : Caller T) :
    ActionError → DispatcherState T
  | .cancelled =>
      if s.cancelledOf caller.job then dispatchRemove s i caller .cancelled
      else s.setPc i caller .looking
  | .clientGone =>
      s.setPc i caller (if 0 < s.pollersOf caller.job then .looking else .rechecking)
  | _ => s.setPc i caller .looking

def dispatchReceive (s : DispatcherState T) (i : Nat) (caller : Caller T) (item : Item T) :
    Option (DispatcherState T) :=
  match item.reply with
  | .waiting => none
  | .sent _ value => some (s.setPc i caller (.returned .answered value))
  | .dropped => some (s.setPc i caller (.returned .answered (.error .closed)))

def dispatchPark (s : DispatcherState T) (caller : Caller T) : DispatchPc T :=
  if caller.guard = .cancelledOrClientGone ∧ s.pollersOf caller.job = 0 then .arming
  else .parked none

def dispatchEvent (s : DispatcherState T) (i : Nat) (caller : Caller T) (item : Item T)
    (event : CallEvent) : Option (DispatcherState T) :=
  match caller.pc, event with
  | .begun, event => dispatchBegun cfg s i caller item event
  | .acquire, .step => some (dispatchAcquire s i caller item)
  | .checkClosing, .step => some (dispatchBuild s i caller item)
  | .insert, .step => some (dispatchInsert s i caller item)
  | .displacing c, .step => s.items[c]?.map fun previous =>
      (s.put c previous previous.discard).setPc i caller .enqueue
  | .enqueue, .step => some ({ s with
      queue := if s.queueClosed then s.queue else s.queue ++ [caller.job] }.setPc i caller .looking)
  | .looking, .step => some (dispatchLook s i caller)
  | .lookingPollers, .step => some (s.setPc i caller
      (if 0 < s.pollersOf caller.job then .choosing else .lookingDeadline))
  | .lookingDeadline, .step => some (s.setPc i caller
      (if s.now < s.deadlineOf caller.job then .choosing else .abandoning .clientGone))
  | .abandoning error, .step => some (dispatchAbandon s i caller error)
  | .rechecking, .step => some (if s.now < s.deadlineOf caller.job then s.setPc i caller .looking
      else dispatchRemove s i caller .clientGone)
  | .discarding error c, .step => s.items[c]?.map fun removed =>
      (s.put c removed removed.discard).setPc i caller (.returned .abandoned (.error error))
  | .choosing, .step => some (s.setPc i caller (dispatchPark s caller))
  | .arming, .step => some (s.setPc i caller (.parked (some (s.deadlineOf caller.job))))
  | .parked _, .reply => dispatchReceive s i caller item
  | .parked _, .wake =>
      if caller.armed < s.notificationsOf caller.job then some (s.setPc i caller .looking) else none
  | .parked (some deadline), .timeout =>
      if deadline ≤ s.now then some (s.setPc i caller .looking) else none
  | .parked _, .drop => some (s.setPc i caller .dropped)
  | .awaitReply, .reply => dispatchReceive s i caller item
  | .awaitReply, .drop => some (s.setPc i caller .dropped)
  | _, _ => none

def workerRemove (s : DispatcherState T) (i : Nat) (job : Nat) : Option (DispatcherState T) :=
  s.jobs[job]?.map fun handle => match s.pending.lookup handle.job.id with
    | none => s.setWorker i .idle
    | some c => (s.take handle.job.id c .executor).setWorker i (.removed c)

def workerRun (s : DispatcherState T) (i c : Nat) (item : Item T) : DispatcherState T :=
  (s.put c item { item with work := .running, starts := item.starts + 1 }).setWorker i (.running c)

/-- The guarded future resolves with an error instead of running the action. -/
def workerObserve (s : DispatcherState T) (i c : Nat) (item : Item T) (error : ActionError) :
    DispatcherState T :=
  (s.put c item { item.endWork .resolved with observed := true }).setWorker i
    (.sending c (.error error))

def workerPoll (s : DispatcherState T) (i c : Nat) (item : Item T) (job : Nat) :
    DispatcherState T :=
  match item.guard with
  | .none => workerRun s i c item
  | .cancelled =>
      if s.cancelledOf job then workerObserve s i c item .cancelled else workerRun s i c item
  | .cancelledOrClientGone =>
      if s.cancelledOf job then workerObserve s i c item .cancelled
      else s.setWorker i (.pollingPollers c)

def workerItem (s : DispatcherState T) (i c : Nat) (caller : Caller T) (item : Item T)
    (pc : WorkerPc T) (event : WorkerEvent T) : Option (DispatcherState T) :=
  match pc, event with
  | .removed _, .step =>
      some ((s.put c item { item with permit := false }).setWorker i (.unpermitted c))
  | .unpermitted _, .step =>
      if caller.gone then some ((s.put c item item.discard).setWorker i .idle)
      else some (s.setWorker i (.polling c))
  | .polling _, .step => some (workerPoll s i c item caller.job)
  | .pollingPollers _, .step =>
      if 0 < s.pollersOf caller.job then some (workerRun s i c item)
      else some (s.setWorker i (.pollingDeadline c))
  | .pollingDeadline _, .step =>
      if s.now < s.deadlineOf caller.job then some (workerRun s i c item)
      else some (workerObserve s i c item .clientGone)
  | .running _, .finish result =>
      some ((s.put c item (item.endWork .resolved)).setWorker i (.sending c result))
  | .running _, .panic => some ((s.put c item item.discard).setWorker i .exited)
  | .sending _ result, .step => some ((s.put c item
      { item with reply := item.reply.send (!caller.gone) .executor result }).setWorker i .idle)
  | _, _ => none

def WorkerPc.item : WorkerPc T → Option Nat
  | .removed c | .unpermitted c | .polling c | .pollingPollers c | .pollingDeadline c
  | .running c | .sending c _ => some c
  | .idle | .dequeued _ | .exited => none

def workerEvent (s : DispatcherState T) (i : Nat) (pc : WorkerPc T) (event : WorkerEvent T) :
    Option (DispatcherState T) :=
  match pc, event with
  | .idle, .dequeue index => s.queue[index]?.map fun job =>
      { s with queue := s.queue.eraseIdx index }.setWorker i (.dequeued job)
  | .idle, .exit => if s.queueClosed then some (s.setWorker i .exited) else none
  | .dequeued job, .step => workerRemove s i job
  | pc, event => pc.item.bind fun c => s.callers[c]?.bind fun caller => s.items[c]?.bind fun item =>
      workerItem s i c caller item pc event

def handlerRemove (s : DispatcherState T) (i : Nat) (job : Nat) : Option (DispatcherState T) :=
  s.jobs[job]?.map fun handle => match s.pending.lookup handle.job.id with
    | none => s.setHandler i .done
    | some c => (s.take handle.job.id c .executor).setHandler i (.removed job c)

def handlerRefuse (s : DispatcherState T) (i c : Nat) (caller : Caller T) (item : Item T)
    (error : ActionError) : DispatcherState T :=
  (s.put c item { item with reply := item.reply.send (!caller.gone) .executor (.error error)
    }).setHandler i (.leaving c)

def handlerCheck (s : DispatcherState T) (i job c : Nat) (caller : Caller T) (item : Item T) :
    DispatcherState T :=
  match item.guard with
  | .none => s.setHandler i (.claiming job c)
  | .cancelled =>
      if s.cancelledOf job then handlerRefuse s i c caller item .cancelled
      else s.setHandler i (.claiming job c)
  | .cancelledOrClientGone =>
      if s.cancelledOf job then handlerRefuse s i c caller item .cancelled
      else s.setHandler i (.checkingPollers job c)

def handlerClaim (s : DispatcherState T) (i job c : Nat) (item : Item T) :
    Option (DispatcherState T) :=
  s.jobs[job]?.map fun handle =>
    { s.put c item { item with outcome := .waiting } with
      inProgress := AList.insert handle.job.id ⟨c, s.now⟩ s.inProgress }.setHandler i
      (match s.inProgress.lookup handle.job.id with
        | some entry => .displacing c entry.item
        | none => .spawning c)

def handlerItem (s : DispatcherState T) (i c : Nat) (caller : Caller T) (item : Item T) :
    HandlerPc → Option (DispatcherState T)
  | .removed job _ =>
      some ((s.put c item { item with permit := false }).setHandler i (.unpermitted job c))
  | .unpermitted job _ =>
      if caller.gone then some ((s.put c item item.discard).setHandler i .done)
      else some (s.setHandler i (.checking job c))
  | .checking job _ => some (handlerCheck s i job c caller item)
  | .checkingPollers job _ =>
      if 0 < s.pollersOf job then some (s.setHandler i (.claiming job c))
      else some (s.setHandler i (.checkingDeadline job c))
  | .checkingDeadline job _ =>
      if s.now < s.deadlineOf job then some (s.setHandler i (.claiming job c))
      else some (handlerRefuse s i c caller item .clientGone)
  | .claiming job _ => handlerClaim s i job c item
  | .displacing _ previous => s.items[previous]?.map fun displaced =>
      (s.put previous displaced { displaced with outcome := .dropped }).setHandler i (.spawning c)
  | .spawning _ => some ((s.put c item { item with spawned := true }).setHandler i (.leaving c))
  | .leaving _ => some ((s.put c item (item.endWork .dropped)).setHandler i .done)
  | _ => none

def HandlerPc.item : HandlerPc → Option Nat
  | .removed _ c | .unpermitted _ c | .checking _ c | .checkingPollers _ c
  | .checkingDeadline _ c | .claiming _ c | .displacing c _ | .spawning c | .leaving c => some c
  | .waiting | .dequeued _ | .done => none

def handlerEvent (s : DispatcherState T) (i : Nat) (pc : HandlerPc) :
    HandlerEvent → Option (DispatcherState T)
  | .dequeue index => match pc with
      | .waiting => s.queue[index]?.map fun job =>
          { s with queue := s.queue.eraseIdx index }.setHandler i (.dequeued job)
      | _ => none
  | .end_ => match pc with
      | .waiting => some (s.setHandler i .done)
      | _ => none
  | .step => match pc with
      | .dequeued job => handlerRemove s i job
      | pc => pc.item.bind fun c => s.callers[c]?.bind fun caller => s.items[c]?.bind fun item =>
          handlerItem s i c caller item pc

/-- Removes an entry of the in-progress table and settles its outcome channel. -/
def settle (s : DispatcherState T) (jobId : String) (outcome : Outcome T) :
    Option (DispatcherState T) :=
  (s.inProgress.lookup jobId).bind fun entry => s.items[entry.item]?.map fun item =>
    { s.put entry.item item { item with outcome := outcome } with
      inProgress := AList.erase jobId s.inProgress }

def completeJob (s : DispatcherState T) (jobId : String) (outcome : WorkerOutcome) :
    Option (DispatcherState T) :=
  match cfg.executor with
  | .pool _ => none
  | .remotePool _ translate => settle s jobId (.sent (translate outcome))

def evictJob (s : DispatcherState T) (jobId : String) : Option (DispatcherState T) :=
  match cfg.executor with
  | .pool _ => none
  | .remotePool heartbeatTimeout _ => (s.inProgress.lookup jobId).bind fun entry =>
      if s.stopping ∨ heartbeatTimeout ≤ s.now - entry.lastHeartbeat then settle s jobId .dropped
      else none

def heartbeatJob (s : DispatcherState T) (jobId : String) : Option (DispatcherState T) :=
  (s.inProgress.lookup jobId).map fun entry => { s with
    inProgress := AList.insert jobId { entry with lastHeartbeat := s.now } s.inProgress }

def forwardOutcome (s : DispatcherState T) (c : Nat) (caller : Caller T) (item : Item T) :
    Option (DispatcherState T) :=
  if item.spawned then
    match item.outcome with
    | .sent value => some (s.put c item { item with
        spawned := false
        reply := item.reply.send (!caller.gone) .executor (.ok value) })
    | .dropped => some (s.put c item { item with
        spawned := false
        reply := item.reply.send (!caller.gone) .executor
          (.error (.resourceError "worker heartbeat timeout or disconnect")) })
    | _ => none
  else none

def closerEvent (s : DispatcherState T) (i : Nat) (pc : CloserPc) (event : CloserEvent) :
    Option (DispatcherState T) :=
  match pc, event with
  | .begun, .step => some ({ s with closing := true }.setCloser i .flagged)
  | .flagged, .step => some ({ s with admissionClosed := true }.setCloser i .unadmitting)
  | .unadmitting, .step => some ({ s with queueClosed := true }.setCloser i (.draining []))
  | .draining stranded, .drain jobId => (s.pending.lookup jobId).bind fun c =>
      s.items[c]?.map fun item =>
        ((s.take jobId c .closer).put c item { item.endWork .dropped with permit := false
          }).setCloser i (.draining (stranded ++ [c]))
  | .draining stranded, .step =>
      if s.pending.entries.isEmpty then some (s.setCloser i (.sending stranded)) else none
  | .sending (c :: stranded), .step => s.callers[c]?.bind fun caller => s.items[c]?.map fun item =>
      (s.put c item { item with
        reply := item.reply.send (!caller.gone) .closer (.error .closed) }).setCloser i
        (.sending stranded)
  | .sending [], .step => some (s.setCloser i .done)
  | _, _ => none

def dispatch (s : DispatcherState T) (job : Nat) (guard : DispatchGuard) :
    Option (DispatcherState T) :=
  s.jobs[job]?.map fun handle =>
    let limit := cfg.userLimit.bind fun limit => limit.resolve handle.job.user
    { s with
      callers := s.callers ++ [⟨job, handle.job.id, guard, 0, .begun⟩]
      items := s.items ++ [Item.new guard limit] }

def dispatcherStep (s : DispatcherState T) : DispatcherAction T → Option (DispatcherState T)
  | .advance elapsed => some { s with now := s.now + elapsed }
  | .submit job => some { s with jobs := s.jobs ++ [JobHandle.new job s.now] }
  | .flag job flag => s.jobs[job]?.map fun handle =>
      { s with jobs := s.jobs.set job (handle.set flag) }
  | .dispatch job guard => dispatch cfg s job guard
  | .call i event => s.callers[i]?.bind fun caller => s.items[i]?.bind fun item =>
      dispatchEvent cfg s i caller item event
  | .worker i event => s.workers[i]?.bind fun pc => workerEvent s i pc event
  | .lose index => if index < s.queue.length then
      some { s with queue := s.queue.eraseIdx index } else none
  | .getWork => match cfg.executor with
      | .pool _ => none
      | .remotePool _ _ => some { s with handlers := s.handlers ++ [.waiting] }
  | .handler i event => s.handlers[i]?.bind fun pc => handlerEvent s i pc event
  | .heartbeat jobId => heartbeatJob s jobId
  | .complete jobId outcome => completeJob cfg s jobId outcome
  | .evict jobId => evictJob cfg s jobId
  | .forward c => s.callers[c]?.bind fun caller => s.items[c]?.bind fun item =>
      forwardOutcome s c caller item
  | .shutdown => some { s with stopping := true }
  | .close => some { s with closers := s.closers ++ [.begun] }
  | .closer i event => s.closers[i]?.bind fun pc => closerEvent s i pc event

end Steps

end BitsBroker
