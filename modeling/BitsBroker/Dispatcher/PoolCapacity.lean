import BitsBroker.Config.Attaching
import BitsBroker.Lib.Counting

/-!
The loops of a local pool. A pool starts with as many loops as its configuration says, and
nothing starts another. A loop runs the work it dequeued inside itself, so a panic of the work
ends the loop; otherwise a loop ends only when the queue is closed.
-/

namespace BitsBroker

open Transition Counting DispatcherState

variable {T : Type}

def WorkerPc.live : WorkerPc T → Bool
  | .exited => false
  | _ => true

def DispatcherState.liveWorkers (s : DispatcherState T) : Nat :=
  s.workers.countP WorkerPc.live

/-- The work of a loop panics in this step. -/
def DispatcherAction.panics : DispatcherAction T → Bool
  | .worker _ .panic => true
  | _ => false

/-- What a step does to the loops. -/
inductive LoopStep (s next : DispatcherState T) (action : DispatcherAction T) : Prop
  | same : action.panics = false → next.workers = s.workers → LoopStep s next action
  | goes {i : Nat} {pc later : WorkerPc T} : action.panics = false → s.workers[i]? = some pc →
      pc.live = true → later.live = true → next.workers = s.workers.set i later →
      LoopStep s next action
  | ends {i : Nat} {pc : WorkerPc T} : action.panics = true ∨ s.queueClosed = true →
      s.workers[i]? = some pc → pc.live = true → next.workers = s.workers.set i .exited →
      LoopStep s next action

/-- A step beside the loops. -/
def Beside (s next : DispatcherState T) : Prop :=
  next.workers = s.workers ∧ (s.queueClosed = true → next.queueClosed = true)

section Steps

variable {cfg : DispatcherConfig T} {s next : DispatcherState T} {action : DispatcherAction T}
  {i c : Nat} {caller : Caller T} {item : Item T}

theorem dispatchBegun_beside {event : CallEvent}
    (taken : dispatchBegun cfg s i caller item event = some next) : Beside s next := by
  unfold dispatchBegun at taken
  repeat' split at taken
  all_goals
    simp only [Option.some.injEq, reduceCtorEq] at taken
    try subst taken
    try exact ⟨rfl, id⟩

theorem dispatchRemove_beside (error : ActionError) :
    Beside s (dispatchRemove s i caller error) := by
  unfold dispatchRemove
  split <;> exact ⟨rfl, id⟩

theorem dispatchReceive_beside (taken : dispatchReceive s i caller item = some next) :
    Beside s next := by
  unfold dispatchReceive at taken
  split at taken
  · simp at taken
  all_goals
    simp only [Option.some.injEq] at taken
    exact taken ▸ ⟨rfl, id⟩

theorem dispatchEvent_beside {event : CallEvent}
    (taken : dispatchEvent cfg s i caller item event = some next) : Beside s next := by
  unfold dispatchEvent at taken
  split at taken
  next => exact dispatchBegun_beside taken
  all_goals
    try simp only [Option.some.injEq, Option.map_eq_some_iff, reduceCtorEq] at taken
  next =>
    subst taken
    unfold dispatchAcquire
    repeat' split
    all_goals exact ⟨rfl, id⟩
  next =>
    subst taken
    unfold dispatchBuild
    split <;> exact ⟨rfl, id⟩
  next =>
    subst taken
    unfold dispatchInsert
    split <;> exact ⟨rfl, id⟩
  next =>
    obtain ⟨previous, _, rfl⟩ := taken
    exact ⟨rfl, id⟩
  next => exact taken ▸ ⟨rfl, id⟩
  next => exact taken ▸ ⟨rfl, id⟩
  next => exact taken ▸ ⟨rfl, id⟩
  next => exact taken ▸ ⟨rfl, id⟩
  next =>
    subst taken
    unfold dispatchAbandon
    repeat' split
    · exact dispatchRemove_beside _
    all_goals exact ⟨rfl, id⟩
  next =>
    subst taken
    split
    · exact ⟨rfl, id⟩
    · exact dispatchRemove_beside _
  next =>
    obtain ⟨removed, _, rfl⟩ := taken
    exact ⟨rfl, id⟩
  next => exact taken ▸ ⟨rfl, id⟩
  next => exact taken ▸ ⟨rfl, id⟩
  next => exact dispatchReceive_beside taken
  next =>
    split at taken
    · simp only [Option.some.injEq] at taken
      exact taken ▸ ⟨rfl, id⟩
    · simp at taken
  next =>
    split at taken
    · simp only [Option.some.injEq] at taken
      exact taken ▸ ⟨rfl, id⟩
    · simp at taken
  next => exact taken ▸ ⟨rfl, id⟩
  next => exact dispatchReceive_beside taken
  next => exact taken ▸ ⟨rfl, id⟩

theorem handlerItem_beside {pc : HandlerPc} (taken : handlerItem s i c caller item pc = some next) :
    Beside s next := by
  unfold handlerItem at taken
  split at taken
  all_goals
    try simp only [Option.some.injEq, Option.map_eq_some_iff, reduceCtorEq] at taken
  next => exact taken ▸ ⟨rfl, id⟩
  next =>
    split at taken
    all_goals
      simp only [Option.some.injEq] at taken
      exact taken ▸ ⟨rfl, id⟩
  next =>
    subst taken
    unfold handlerCheck
    repeat' split
    all_goals exact ⟨rfl, id⟩
  next =>
    split at taken
    all_goals
      simp only [Option.some.injEq] at taken
      exact taken ▸ ⟨rfl, id⟩
  next =>
    split at taken
    all_goals
      simp only [Option.some.injEq] at taken
      exact taken ▸ ⟨rfl, id⟩
  next =>
    simp only [handlerClaim, Option.map_eq_some_iff] at taken
    obtain ⟨handle, _, rfl⟩ := taken
    exact ⟨rfl, id⟩
  next =>
    obtain ⟨displaced, _, rfl⟩ := taken
    exact ⟨rfl, id⟩
  next => exact taken ▸ ⟨rfl, id⟩
  next => exact taken ▸ ⟨rfl, id⟩

theorem handlerEvent_beside {pc : HandlerPc} {event : HandlerEvent}
    (taken : handlerEvent s i pc event = some next) : Beside s next := by
  unfold handlerEvent at taken
  split at taken
  · split at taken
    · obtain ⟨job, _, rfl⟩ := Option.map_eq_some_iff.mp taken
      exact ⟨rfl, id⟩
    · simp at taken
  · split at taken
    · simp only [Option.some.injEq] at taken
      exact taken ▸ ⟨rfl, id⟩
    · simp at taken
  · split at taken
    · simp only [handlerRemove, Option.map_eq_some_iff] at taken
      obtain ⟨handle, _, rfl⟩ := taken
      split <;> exact ⟨rfl, id⟩
    · simp only [Option.bind_eq_some_iff] at taken
      obtain ⟨c, _, caller, _, item, _, taken⟩ := taken
      exact handlerItem_beside taken

theorem settle_beside {jobId : String} {outcome : Outcome T}
    (taken : settle s jobId outcome = some next) : Beside s next := by
  simp only [settle, Option.bind_eq_some_iff, Option.map_eq_some_iff] at taken
  obtain ⟨entry, _, item, _, rfl⟩ := taken
  exact ⟨rfl, id⟩

theorem forwardOutcome_beside (taken : forwardOutcome s c caller item = some next) :
    Beside s next := by
  unfold forwardOutcome at taken
  split at taken
  · split at taken
    · simp only [Option.some.injEq] at taken
      exact taken ▸ ⟨rfl, id⟩
    · simp only [Option.some.injEq] at taken
      exact taken ▸ ⟨rfl, id⟩
    · simp at taken
  · simp at taken

theorem closerEvent_beside {pc : CloserPc} {event : CloserEvent}
    (taken : closerEvent s i pc event = some next) : Beside s next := by
  unfold closerEvent at taken
  split at taken
  all_goals
    try simp only [Option.some.injEq, Option.map_eq_some_iff, Option.bind_eq_some_iff,
      reduceCtorEq] at taken
  next => exact taken ▸ ⟨rfl, id⟩
  next => exact taken ▸ ⟨rfl, id⟩
  next => exact taken ▸ ⟨rfl, fun _ => rfl⟩
  next =>
    obtain ⟨c, _, item, _, rfl⟩ := taken
    exact ⟨rfl, id⟩
  next =>
    split at taken
    · simp only [Option.some.injEq] at taken
      exact taken ▸ ⟨rfl, id⟩
    · simp at taken
  next =>
    obtain ⟨caller, _, item, _, rfl⟩ := taken
    exact ⟨rfl, id⟩
  next => exact taken ▸ ⟨rfl, id⟩

/-- The step of a loop that holds an item. -/
theorem workerItem_loop {pc : WorkerPc T} {event : WorkerEvent T}
    (present : s.workers[i]? = some pc) (holds : pc.item = some c)
    (taken : workerItem s i c caller item pc event = some next) :
    LoopStep s next (.worker i event) ∧ next.queueClosed = s.queueClosed := by
  have live : pc.live = true := by
    cases pc <;> first | rfl | simp [WorkerPc.item] at holds
  have goes : ∀ {later : WorkerPc T}, later.live = true →
      (DispatcherAction.worker i event).panics = false →
      next.workers = s.workers.set i later → LoopStep s next (.worker i event) :=
    fun after calm workers => .goes calm present live after workers
  unfold workerItem at taken
  split at taken
  next =>
    simp only [Option.some.injEq] at taken
    subst taken
    exact ⟨goes rfl rfl rfl, rfl⟩
  next =>
    split at taken
    all_goals
      simp only [Option.some.injEq] at taken
      subst taken
      exact ⟨goes rfl rfl rfl, rfl⟩
  next =>
    simp only [Option.some.injEq] at taken
    subst taken
    unfold workerPoll
    repeat' split
    all_goals exact ⟨.goes rfl present live rfl rfl, rfl⟩
  next =>
    split at taken
    all_goals
      simp only [Option.some.injEq] at taken
      subst taken
      exact ⟨goes rfl rfl rfl, rfl⟩
  next =>
    split at taken
    all_goals
      simp only [Option.some.injEq] at taken
      subst taken
      exact ⟨goes rfl rfl rfl, rfl⟩
  next =>
    simp only [Option.some.injEq] at taken
    subst taken
    exact ⟨goes rfl rfl rfl, rfl⟩
  next =>
    simp only [Option.some.injEq] at taken
    subst taken
    exact ⟨.ends (Or.inl rfl) present live rfl, rfl⟩
  next =>
    simp only [Option.some.injEq] at taken
    subst taken
    exact ⟨goes rfl rfl rfl, rfl⟩
  next => simp at taken

/-- A loop that takes a step is live, and it ends when its work panics or when it finds the
queue closed. -/
theorem workerEvent_loop {pc : WorkerPc T} {event : WorkerEvent T}
    (present : s.workers[i]? = some pc) (taken : workerEvent s i pc event = some next) :
    LoopStep s next (.worker i event) ∧ next.queueClosed = s.queueClosed := by
  unfold workerEvent at taken
  split at taken
  next =>
    obtain ⟨job, _, rfl⟩ := Option.map_eq_some_iff.mp taken
    exact ⟨.goes rfl present rfl rfl rfl, rfl⟩
  next =>
    split at taken
    next closed =>
      simp only [Option.some.injEq] at taken
      subst taken
      exact ⟨.ends (Or.inr closed) present rfl rfl, rfl⟩
    · simp at taken
  next =>
    simp only [workerRemove, Option.map_eq_some_iff] at taken
    obtain ⟨handle, _, rfl⟩ := taken
    split
    · exact ⟨.goes rfl present rfl rfl rfl, rfl⟩
    · exact ⟨.goes rfl present rfl rfl rfl, rfl⟩
  next =>
    simp only [Option.bind_eq_some_iff] at taken
    obtain ⟨c, holds, caller, _, item, _, taken⟩ := taken
    exact workerItem_loop present holds taken

theorem dispatcherStep_loop (taken : dispatcherStep cfg s action = some next) :
    LoopStep s next action ∧ (s.queueClosed = true → next.queueClosed = true) := by
  have beside : action.panics = false → Beside s next →
      LoopStep s next action ∧ (s.queueClosed = true → next.queueClosed = true) :=
    fun calm step => ⟨.same calm step.1, step.2⟩
  cases action with
  | advance elapsed | submit job | shutdown | close =>
      simp only [dispatcherStep, Option.some.injEq] at taken
      exact beside rfl (taken ▸ ⟨rfl, id⟩)
  | flag job flag =>
      simp only [dispatcherStep, Option.map_eq_some_iff] at taken
      obtain ⟨handle, _, rfl⟩ := taken
      exact beside rfl ⟨rfl, id⟩
  | dispatch job guard =>
      simp only [dispatcherStep, dispatch, Option.map_eq_some_iff] at taken
      obtain ⟨handle, _, rfl⟩ := taken
      exact beside rfl ⟨rfl, id⟩
  | call i event =>
      simp only [dispatcherStep, Option.bind_eq_some_iff] at taken
      obtain ⟨caller, _, item, _, taken⟩ := taken
      exact beside rfl (dispatchEvent_beside taken)
  | worker i event =>
      simp only [dispatcherStep, Option.bind_eq_some_iff] at taken
      obtain ⟨pc, present, taken⟩ := taken
      obtain ⟨step, closed⟩ := workerEvent_loop present taken
      exact ⟨step, closed.trans⟩
  | lose index =>
      simp only [dispatcherStep] at taken
      split at taken
      · simp only [Option.some.injEq] at taken
        exact beside rfl (taken ▸ ⟨rfl, id⟩)
      · simp at taken
  | getWork =>
      simp only [dispatcherStep] at taken
      split at taken
      · simp at taken
      · simp only [Option.some.injEq] at taken
        exact beside rfl (taken ▸ ⟨rfl, id⟩)
  | handler i event =>
      simp only [dispatcherStep, Option.bind_eq_some_iff] at taken
      obtain ⟨pc, _, taken⟩ := taken
      exact beside rfl (handlerEvent_beside taken)
  | heartbeat jobId =>
      simp only [dispatcherStep, heartbeatJob, Option.map_eq_some_iff] at taken
      obtain ⟨entry, _, rfl⟩ := taken
      exact beside rfl ⟨rfl, id⟩
  | complete jobId outcome =>
      simp only [dispatcherStep, completeJob] at taken
      split at taken
      · simp at taken
      · exact beside rfl (settle_beside taken)
  | evict jobId =>
      simp only [dispatcherStep, evictJob] at taken
      split at taken
      · simp at taken
      · simp only [Option.bind_eq_some_iff] at taken
        obtain ⟨entry, _, taken⟩ := taken
        split at taken
        · exact beside rfl (settle_beside taken)
        · simp at taken
  | forward c =>
      simp only [dispatcherStep, Option.bind_eq_some_iff] at taken
      obtain ⟨caller, _, item, _, taken⟩ := taken
      exact beside rfl (forwardOutcome_beside taken)
  | closer i event =>
      simp only [dispatcherStep, Option.bind_eq_some_iff] at taken
      obtain ⟨pc, _, taken⟩ := taken
      exact beside rfl (closerEvent_beside taken)

/-- While the queue is open, a step loses a loop if and only if it is a panic. -/
theorem LoopStep.live (step : LoopStep s next action) (unclosed : s.queueClosed = false) :
    next.liveWorkers + action.panics.toNat = s.liveWorkers := by
  cases step with
  | same calm workers => simp [liveWorkers, workers, calm]
  | goes calm present before after workers =>
      rw [calm, liveWorkers, workers, countP_set_eq present (after.trans before.symm)]
      rfl
  | ends reason present before workers =>
      have panics : action.panics = true := by simpa [unclosed] using reason
      have counted := countP_set_add (p := WorkerPc.live) present .exited
      rw [before] at counted
      rw [panics, liveWorkers, workers]
      exact counted

end Steps

/-- A local pool has lost exactly the loops whose work panicked. -/
theorem liveWorkers_of_path {cfg : DispatcherConfig T} {n : Nat} (pool : cfg.executor = .pool n)
    {now : Nat} {actions : List (DispatcherAction T)} {s : DispatcherState T}
    (path : Path (dispatcherStep cfg) Always (DispatcherState.new cfg now) actions s)
    (unclosed : s.queueClosed = false) :
    s.liveWorkers + actions.countP DispatcherAction.panics = n := by
  induction path with
  | nil =>
      have live : WorkerPc.live (T := T) .idle = true := rfl
      simp [liveWorkers, DispatcherState.new, pool, List.countP_replicate, live]
  | @snoc actions before action next _ _ taken ih =>
      obtain ⟨step, closes⟩ := dispatcherStep_loop taken
      have opened : before.queueClosed = false := by
        by_contra closed
        simp [closes (by simpa using closed)] at unclosed
      have lost := step.live opened
      have earlier := ih opened
      rw [List.countP_append, List.countP_singleton]
      cases panics : action.panics with
      | true =>
          simp only [panics, Bool.toNat_true] at lost
          simp only [if_true]
          omega
      | false =>
          simp only [panics, Bool.toNat_false] at lost
          simp only [Bool.false_eq_true, if_false]
          omega

/-- The concurrency that a dispatcher block asks for. A `remote` target without an executor gets
a remote pool; any other action gets the default async pool. -/
def configuredConcurrency (actionName : String) : Option ExecutorKind → Option Nat
  | none => if actionName = "remote" then none else some defaultPoolSize
  | some (.asyncPool concurrency) | some (.threadPool concurrency) =>
      some (concurrency.getD defaultPoolSize)
  | some (.remotePool _) => none

inductive Attached.Carries : Attached → {T : Type} → Dispatcher T → Prop
  | check {dispatcher : Dispatcher CheckResult} : Carries (.check (some dispatcher)) dispatcher
  | transform {dispatcher : Dispatcher TransformResult} :
      Carries (.transform (some dispatcher)) dispatcher
  | target {dispatcher : Dispatcher TargetResult} : Carries (.target (some dispatcher)) dispatcher

/-- The parser accepts the block for some action and builds this dispatcher, a local pool with
configured concurrency `n`. -/
def AcceptedPool (ctx : ParseContext) (block : Option Json) (dispatcher : Dispatcher T)
    (n : Nat) : Prop :=
  ∃ settings entryName actionName kind attached,
    parseDispatcherFields block = .ok settings ∧
    attachDispatcher ctx entryName actionName kind settings = .ok attached ∧
    attached.Carries dispatcher ∧ configuredConcurrency actionName settings.executor = some n

section Accepted

variable {ctx : ParseContext} {settings later : DispatcherSettings} {actionName : String} {n : Nat}

theorem remoteExecutor_local (configured : configuredConcurrency actionName settings.executor = some n)
    (passed : remoteExecutor ctx actionName settings = .ok later) :
    actionName ≠ "remote" ∧ later = settings := by
  unfold remoteExecutor at passed
  split at passed
  next remote =>
    cases executor : settings.executor with
    | none => simp [executor, configuredConcurrency, remote] at configured
    | some kind =>
        cases kind with
        | remotePool cfg => simp [executor, configuredConcurrency] at configured
        | _ => simp [executor, bind, Except.bind] at passed
  next other =>
    split at passed
    · simp at passed
    · simp only [Except.ok.injEq] at passed
      exact ⟨other, passed.symm⟩

theorem defaultQueue_executor (settings : DispatcherSettings) :
    (defaultQueue settings).executor = settings.executor := by
  unfold defaultQueue
  split <;> rfl

theorem executorOf_local {asTarget : Option (WorkerOutcome → T)}
    {secs : JsonNumber → Except String Nat} {poolName : Option String}
    {server : Option WorkerServer} {kind : Option ExecutorKind}
    (other : actionName ≠ "remote") (configured : configuredConcurrency actionName kind = some n) :
    executorOf asTarget secs poolName server kind = .ok (.pool n) := by
  cases kind with
  | none =>
      simp only [configuredConcurrency, other, if_false, Option.some.injEq] at configured
      rw [← configured]
      rfl
  | some kind =>
      cases kind with
      | asyncPool concurrency | threadPool concurrency =>
          simp only [configuredConcurrency, Option.some.injEq] at configured
          rw [← configured]
          rfl
      | remotePool cfg => simp [configuredConcurrency] at configured

theorem AcceptedPool.executor {block : Option Json} {dispatcher : Dispatcher T}
    (accepted : AcceptedPool ctx block dispatcher n) : dispatcher.executor = .pool n := by
  obtain ⟨settings, entryName, actionName, kind, attached, _, made, carries, configured⟩ := accepted
  obtain ⟨later, passed, kindMade⟩ := attachDispatcher_ok made
  obtain ⟨other, rfl⟩ := remoteExecutor_local configured passed
  rw [← defaultQueue_executor] at configured
  cases kind with
  | check | transform | target =>
      obtain ⟨built, makes, rfl⟩ := exists_of_map_ok kindMade
      cases carries
      rcases buildDispatcher_ok makes with ⟨_, _, none_⟩ | ⟨executor, isExecutor, _, _, _, eq⟩
      · cases none_
      · rw [executorOf_local other configured] at isExecutor
        cases isExecutor
        cases eq
        rfl
  | switch =>
      simp only [attachKind] at kindMade
      split at kindMade
      · simp at kindMade
      · simp only [Except.ok.injEq] at kindMade
        subst kindMade
        cases carries

end Accepted

/-- All configured loops of the pool are there, at least one, so that no queued job is without a
loop to dequeue it. -/
def PoolServes (s : DispatcherState T) (n : Nat) : Prop :=
  s.liveWorkers = n ∧ 1 ≤ s.liveWorkers ∧
    ∀ index < s.queue.length, ∃ (i : Nat) (pc : WorkerPc T),
      s.workers[i]? = some pc ∧ pc.live = true

theorem exists_live {s : DispatcherState T} (some_ : 1 ≤ s.liveWorkers) :
    ∃ (i : Nat) (pc : WorkerPc T), s.workers[i]? = some pc ∧ pc.live = true := by
  obtain ⟨pc, member, live⟩ := List.countP_pos_iff.mp some_
  obtain ⟨i, present⟩ := List.mem_iff_getElem?.mp member
  exact ⟨i, pc, present, live⟩

/-- Before the queue is closed, the pool serves it with its configured concurrency if and only if
that is not zero and no work has panicked. -/
theorem pool_capacity_kept_iff {ctx : ParseContext} {block : Option Json}
    {dispatcher : Dispatcher T} {n : Nat} (accepted : AcceptedPool ctx block dispatcher n)
    {now : Nat} {actions : List (DispatcherAction T)} {s : DispatcherState T}
    (path : Path (dispatcherStep dispatcher.config) Always
      (DispatcherState.new dispatcher.config now) actions s)
    (unclosed : s.queueClosed = false) :
    PoolServes s n ↔ 1 ≤ n ∧ ∀ action ∈ actions, action.panics = false := by
  have counted := liveWorkers_of_path accepted.executor path unclosed
  constructor
  · rintro ⟨full, some_, _⟩
    refine ⟨by omega, ?_⟩
    intro action member
    by_contra panics
    have lost : 0 < actions.countP DispatcherAction.panics :=
      List.countP_pos_iff.mpr ⟨action, member, by simpa using panics⟩
    omega
  · rintro ⟨positive, calm⟩
    have none_ : actions.countP DispatcherAction.panics = 0 := by
      rw [List.countP_eq_zero]
      intro action member
      simp [calm action member]
    have some_ : 1 ≤ s.liveWorkers := by omega
    exact ⟨by omega, some_, fun _ _ => exists_live some_⟩

namespace Scenario

def standalone : ParseContext where
  workerServer := none
  jobStore := false
  brokerId := "broker"
  tryFromSecsF64 := fun _ => .error "unused"

def asyncPoolBlock (concurrency : UInt64) : Json :=
  .object [("executor", .object [("concurrency", .number (.posInt concurrency)),
    ("type", .string "async_pool")])]

def asyncPool (concurrency : Nat) : Dispatcher CheckResult where
  queue := .fifo
  executorType := .asyncPool
  executor := .pool concurrency
  queueCapacity := 500000
  userLimiter := none

theorem asyncPool_accepted (concurrency : UInt64) :
    AcceptedPool standalone (some (asyncPoolBlock concurrency)) (asyncPool concurrency.toNat)
      concurrency.toNat := by
  refine ⟨⟨none, some (.asyncPool (some concurrency.toNat)), 500000, none⟩, "limited", "limited",
    .check, .check (some (asyncPool concurrency.toNat)), rfl, rfl, .check, rfl⟩

def enterQueue (i : Nat) : List (DispatcherAction CheckResult) := List.replicate 5 (.call i .step)

/-- The loop takes the queued job at `index` as far as running its work. -/
def runWork (worker index : Nat) : List (DispatcherAction CheckResult) :=
  .worker worker (.dequeue index) :: List.replicate 4 (.worker worker .step)

def twoQueued : List (DispatcherAction CheckResult) :=
  [.submit (Job.newWithId "first" .null 0), .submit (Job.newWithId "second" .null 0),
    .dispatch 0 .cancelled, .dispatch 1 .cancelled] ++ enterQueue 0 ++ enterQueue 1

def panicThenWait : List (DispatcherAction CheckResult) :=
  twoQueued ++ runWork 0 0 ++ [.worker 0 .panic]

def finishThenWait : List (DispatcherAction CheckResult) :=
  twoQueued ++ runWork 1 0 ++ [.worker 1 (.finish (.error (.timeout "late"))), .worker 1 .step]

def leftAlone (s : DispatcherState CheckResult) : Bool :=
  !s.queueClosed && s.queue == [1] && s.liveWorkers == 0

def stillQueued (s : DispatcherState CheckResult) : Bool :=
  !s.queueClosed && s.queue == [1]

end Scenario

open Scenario in
theorem pool_capacity_kept_iff_failed : ∃ s : DispatcherState CheckResult,
    AcceptedPool standalone (some (asyncPoolBlock 2)) (asyncPool 2) 2 ∧
    Path (dispatcherStep (asyncPool 2).config) Always (DispatcherState.new (asyncPool 2).config 0)
      finishThenWait s ∧ s.queueClosed = false ∧ s.queue = [1] ∧ PoolServes s 2 := by
  have ran : (run (dispatcherStep (asyncPool 2).config)
      (DispatcherState.new (asyncPool 2).config 0) finishThenWait).any stillQueued = true := by
    decide +kernel
  obtain ⟨s, finished, checked⟩ := (Option.any_eq_true _ _).mp ran
  simp only [stillQueued, Bool.and_eq_true, Bool.not_eq_true', beq_iff_eq] at checked
  have path := Path.of_run _ _ finished
  refine ⟨s, asyncPool_accepted 2, path, checked.1, checked.2, ?_⟩
  exact (pool_capacity_kept_iff (asyncPool_accepted 2) path checked.1).mpr
    ⟨by decide, by decide⟩

open Scenario in
/-- One panic takes the only loop of a pool of one, and the next job stays in the queue; the parser
also accepts a pool that starts without loops. -/
theorem queued_job_without_loop :
    (∃ s : DispatcherState CheckResult,
      AcceptedPool standalone (some (asyncPoolBlock 1)) (asyncPool 1) 1 ∧
      Path (dispatcherStep (asyncPool 1).config) Always
        (DispatcherState.new (asyncPool 1).config 0) panicThenWait s ∧
      s.queueClosed = false ∧ s.queue = [1] ∧ s.liveWorkers = 0 ∧ ¬ PoolServes s 1) ∧
    AcceptedPool standalone (some (asyncPoolBlock 0)) (asyncPool 0) 0 ∧
      ¬ PoolServes (DispatcherState.new (asyncPool 0).config 0) 0 := by
  have ran : (run (dispatcherStep (asyncPool 1).config)
      (DispatcherState.new (asyncPool 1).config 0) panicThenWait).any leftAlone = true := by
    decide +kernel
  obtain ⟨s, finished, checked⟩ := (Option.any_eq_true _ _).mp ran
  simp only [leftAlone, Bool.and_eq_true, Bool.not_eq_true', beq_iff_eq] at checked
  obtain ⟨⟨unclosed, queued⟩, nobody⟩ := checked
  refine ⟨⟨s, asyncPool_accepted 1, Path.of_run _ _ finished, unclosed, queued, nobody, ?_⟩,
    asyncPool_accepted 0, ?_⟩
  · rintro ⟨_, some_, _⟩
    omega
  · rintro ⟨_, some_, _⟩
    simp [liveWorkers, DispatcherState.new, Dispatcher.config, asyncPool] at some_

end BitsBroker
