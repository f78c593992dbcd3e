import BitsBroker.Dispatcher.Claims
import BitsBroker.Dispatcher.PoolCapacity
import BitsBroker.Dispatcher.Waiting

/-!
One call of a local pool among all others. As long as the job of the call is neither cancelled
nor without a client, the dispatcher stays open and no other unfinished call has its identifier,
the item of the call goes from the map to one loop, the loop runs the work and the call returns
what the work resolved with. The loop has dropped the work by then.
-/

namespace BitsBroker

open Transition Table DispatcherState

variable {T : Type}

/-- The job of call `c` is not cancelled and its client is there: a poller is connected or the
reconnect deadline lies ahead, and a look that saw no poller finds the deadline ahead. -/
structure Attended (c : Nat) (s : DispatcherState T) : Prop where
  uncancelled (caller : Caller T) : s.callers[c]? = some caller → s.cancelledOf caller.job = false
  present (caller : Caller T) : s.callers[c]? = some caller →
    0 < s.pollersOf caller.job ∨ s.now < s.deadlineOf caller.job
  ahead (caller : Caller T) : s.callers[c]? = some caller →
    (caller.pc = .lookingDeadline ∨ ∃ i : Nat, s.workers[i]? = some (.pollingDeadline c)) →
    s.now < s.deadlineOf caller.job

/-- While call `c` is under way, the other calls of its identifier have ended. -/
def Alone (c : Nat) (s : DispatcherState T) : Prop :=
  ∀ (own other : Caller T) (i : Nat), s.callers[c]? = some own → own.gone = false →
    s.callers[i]? = some other → i ≠ c → other.jobId = own.jobId → other.gone = true

/-- The step leaves call `c` to the pool: the dispatcher stays open, the call is not dropped, its
work resolves with `outcome`, and the queue, whose dequeues no loop gives up, loses nothing. -/
structure Served (outcome : Except ActionError T) (c : Nat) (s : DispatcherState T)
    (action : DispatcherAction T) : Prop where
  attended : Attended c s
  alone : Alone c s
  unclosed : action ≠ .close
  undropped : action ≠ .call c .drop
  unlost (index : Nat) : action ≠ .lose index
  finishes (i : Nat) (result : Except ActionError T) : action = .worker i (.finish result) →
    s.workers[i]? = some (.running c) → result = outcome
  calm (i : Nat) : action = .worker i .panic → s.workers[i]? ≠ some (.running c)

/-- The reply is outstanding, or the outcome has been sent and the work is gone. -/
def Outstanding (outcome : Except ActionError T) (item : Item T) : Prop :=
  item.reply = .waiting ∨
    (∃ sender, item.reply = .sent sender outcome) ∧ item.work.ended = true

/-- What the program counter of call `c` says about its item while the call is served. -/
def CallOk (c : Nat) (outcome : Except ActionError T) (item : Item T) : DispatchPc T → Prop
  | .begun | .acquire | .checkClosing | .insert => item.reply = .waiting
  | .displacing d => d ≠ c ∧ Outstanding outcome item
  | .enqueue | .looking | .lookingPollers | .lookingDeadline | .choosing | .arming | .parked _ =>
      Outstanding outcome item
  | .abandoning _ | .rechecking | .discarding _ _ | .awaitReply | .dropped
  | .returned .abandoned _ => False
  | .returned .refused _ => item.work.ended = true
  | .returned .answered result => result = outcome ∧ item.work.ended = true

/-- What a step of call `i` does to the calls, the map and the queue. -/
structure CallStep (s next : DispatcherState T) (i : Nat) (caller later : Caller T) : Prop where
  callers : next.callers = s.callers.set i later
  job : later.job = caller.job
  jobId : later.jobId = caller.jobId
  guard : later.guard = caller.guard
  pending (id : String) (d : Nat) : next.pending.lookup id = some d →
    s.pending.lookup id = some d ∨ id = caller.jobId ∧ d = i
  kept (id : String) : id ≠ caller.jobId → next.pending.lookup id = s.pending.lookup id
  holds (d : Nat) : later.pc.item i = some d →
    d = i ∨ caller.pc.item i = some d ∨ s.pending.lookup caller.jobId = some d
  queue : next.queue = s.queue ∨ next.queue = s.queue ++ [caller.job]
  closers : next.closers = s.closers
  closed : next.queueClosed = s.queueClosed

section Steps

variable {cfg : DispatcherConfig T} {s next : DispatcherState T} {action : DispatcherAction T}
  {i c : Nat} {caller : Caller T} {item : Item T} {outcome : Except ActionError T}

/-- A step that changes nothing of the map and leaves the call without a foreign item. -/
theorem CallStep.of_setPc {later : Caller T} (callers : next.callers = s.callers.set i later)
    (job : later.job = caller.job) (jobId : later.jobId = caller.jobId)
    (guard : later.guard = caller.guard) (pending : next.pending = s.pending)
    (queue : next.queue = s.queue) (closers : next.closers = s.closers)
    (closed : next.queueClosed = s.queueClosed)
    (free : ∀ d, later.pc.item i = some d → d = i) : CallStep s next i caller later where
  closers := closers
  closed := closed
  callers := callers
  job := job
  jobId := jobId
  guard := guard
  pending := fun _ _ found => Or.inl (pending ▸ found)
  kept := fun _ _ => by rw [pending]
  holds := fun d held => Or.inl (free d held)
  queue := Or.inl queue

theorem dispatchRemove_step (error : ActionError) :
    ∃ later, CallStep s (dispatchRemove s i caller error) i caller later := by
  unfold dispatchRemove
  split
  next d found =>
    refine ⟨_, rfl, rfl, rfl, rfl, ?_, ?_, ?_, Or.inl rfl, rfl, rfl⟩
    · intro id e present
      simp only [setPc, take, HashMap.lookup_erase_eq] at present
      split at present
      · simp at present
      · exact Or.inl present
    · intro id other
      simp only [setPc, take, HashMap.lookup_erase_eq, if_neg other]
    · intro e held
      simp only [DispatchPc.item, Option.some.injEq] at held
      exact Or.inr (Or.inr (held ▸ found))
  next => exact ⟨_, .of_setPc rfl rfl rfl rfl rfl rfl rfl rfl (by simp [DispatchPc.item])⟩

theorem dispatchReceive_step (taken : dispatchReceive s i caller item = some next) :
    ∃ later, CallStep s next i caller later := by
  unfold dispatchReceive at taken
  split at taken
  · simp at taken
  all_goals
    simp only [Option.some.injEq] at taken
    subst taken
    exact ⟨_, .of_setPc rfl rfl rfl rfl rfl rfl rfl rfl (by simp [DispatchPc.item])⟩

theorem dispatchBegun_step {event : CallEvent}
    (taken : dispatchBegun cfg s i caller item event = some next) :
    ∃ later, CallStep s next i caller later := by
  unfold dispatchBegun at taken
  repeat' split at taken
  all_goals
    try simp only [Option.some.injEq, reduceCtorEq] at taken
  all_goals
    subst taken
    exact ⟨_, .of_setPc rfl rfl rfl rfl rfl rfl rfl rfl (by simp [DispatchPc.item])⟩

theorem dispatchInsert_step :
    ∃ later, CallStep s (dispatchInsert s i caller item) i caller later := by
  unfold dispatchInsert
  split
  · exact ⟨_, .of_setPc rfl rfl rfl rfl rfl rfl rfl rfl (by simp [DispatchPc.item])⟩
  · refine ⟨_, rfl, rfl, rfl, rfl, ?_, ?_, ?_, Or.inl rfl, rfl, rfl⟩
    · intro id d present
      simp only [setPc, HashMap.lookup_insert_eq] at present
      split at present
      next same => exact Or.inr ⟨same, by simpa using present.symm⟩
      next => exact Or.inl present
    · intro id other
      simp only [setPc, HashMap.lookup_insert_eq, if_neg other]
    · intro d held
      cases found : s.pending.lookup caller.jobId with
      | none => simp [found, DispatchPc.item] at held
      | some previous =>
          simp only [found, DispatchPc.item, Option.some.injEq] at held
          exact Or.inr (Or.inr (by rw [held]))

theorem dispatchEvent_step {event : CallEvent}
    (taken : dispatchEvent cfg s i caller item event = some next) :
    ∃ later, CallStep s next i caller later := by
  have goes : ∀ {t : DispatcherState T} {later : Caller T}, t.callers = s.callers.set i later →
      later.job = caller.job → later.jobId = caller.jobId → later.guard = caller.guard →
      t.pending = s.pending → t.queue = s.queue → t.closers = s.closers →
      t.queueClosed = s.queueClosed → (∀ d, later.pc.item i = some d → d = i) →
      ∃ later, CallStep s t i caller later :=
    fun callers job jobId guard pending queue closers closed free =>
      ⟨_, .of_setPc callers job jobId guard pending queue closers closed free⟩
  unfold dispatchEvent at taken
  split at taken
  next => exact dispatchBegun_step taken
  all_goals
    try simp only [Option.some.injEq, Option.map_eq_some_iff, reduceCtorEq] at taken
  next =>
    subst taken
    unfold dispatchAcquire
    repeat' split
    all_goals exact goes rfl rfl rfl rfl rfl rfl rfl rfl (by simp [DispatchPc.item])
  next =>
    subst taken
    unfold dispatchBuild
    split
    · exact goes rfl rfl rfl rfl rfl rfl rfl rfl (by simp [DispatchPc.item])
    · exact goes rfl rfl rfl rfl rfl rfl rfl rfl (by simp [DispatchPc.item])
  next => exact taken ▸ dispatchInsert_step
  next =>
    obtain ⟨previous, _, rfl⟩ := taken
    exact goes rfl rfl rfl rfl rfl rfl rfl rfl (by simp [DispatchPc.item])
  next =>
    subst taken
    refine ⟨_, rfl, rfl, rfl, rfl, fun _ _ found => Or.inl found, fun _ _ => rfl,
      by simp [DispatchPc.item], ?_, rfl, rfl⟩
    simp only [setPc]
    split
    · exact Or.inl rfl
    · exact Or.inr rfl
  next =>
    subst taken
    unfold dispatchLook
    refine goes rfl rfl rfl rfl rfl rfl rfl rfl ?_
    intro d held
    repeat' split at held
    all_goals simp [DispatchPc.item] at held
  next =>
    subst taken
    refine goes rfl rfl rfl rfl rfl rfl rfl rfl ?_
    intro d held
    split at held <;> simp [DispatchPc.item] at held
  next =>
    subst taken
    refine goes rfl rfl rfl rfl rfl rfl rfl rfl ?_
    intro d held
    split at held <;> simp [DispatchPc.item] at held
  next =>
    subst taken
    unfold dispatchAbandon
    split
    · split
      · exact dispatchRemove_step _
      · exact goes rfl rfl rfl rfl rfl rfl rfl rfl (by simp [DispatchPc.item])
    · refine goes rfl rfl rfl rfl rfl rfl rfl rfl ?_
      intro d held
      split at held <;> simp [DispatchPc.item] at held
    · exact goes rfl rfl rfl rfl rfl rfl rfl rfl (by simp [DispatchPc.item])
  next =>
    subst taken
    split
    · exact goes rfl rfl rfl rfl rfl rfl rfl rfl (by simp [DispatchPc.item])
    · exact dispatchRemove_step _
  next =>
    obtain ⟨removed, _, rfl⟩ := taken
    exact goes rfl rfl rfl rfl rfl rfl rfl rfl (by simp [DispatchPc.item])
  next =>
    subst taken
    refine goes rfl rfl rfl rfl rfl rfl rfl rfl ?_
    intro d held
    simp only [dispatchPark] at held
    split at held <;> simp [DispatchPc.item] at held
  next => exact taken ▸ goes rfl rfl rfl rfl rfl rfl rfl rfl (by simp [DispatchPc.item])
  next => exact dispatchReceive_step taken
  next =>
    split at taken
    · simp only [Option.some.injEq] at taken
      exact taken ▸ goes rfl rfl rfl rfl rfl rfl rfl rfl (by simp [DispatchPc.item])
    · simp at taken
  next =>
    split at taken
    · simp only [Option.some.injEq] at taken
      exact taken ▸ goes rfl rfl rfl rfl rfl rfl rfl rfl (by simp [DispatchPc.item])
    · simp at taken
  next => exact taken ▸ goes rfl rfl rfl rfl rfl rfl rfl rfl (by simp [DispatchPc.item])
  next => exact dispatchReceive_step taken
  next => exact taken ▸ goes rfl rfl rfl rfl rfl rfl rfl rfl (by simp [DispatchPc.item])

/-- A call that has ended takes no step. -/
theorem not_gone_of_event {event : CallEvent}
    (taken : dispatchEvent cfg s i caller item event = some next) : caller.gone = false := by
  cases pc : caller.pc with
  | returned exit result | dropped =>
      rw [dispatchEvent_at pc] at taken
      cases event <;> cases taken
  | _ => simp [Caller.gone, pc]

/-- The call and its item after a step of the call itself. -/
def Goes (c : Nat) (outcome : Except ActionError T) (next : DispatcherState T) (item : Item T) :
    Prop :=
  ∃ (later : Caller T) (changed : Item T), next.callers[c]? = some later ∧
    next.items[c]? = some changed ∧ CallOk c outcome changed later.pc ∧
    changed.spawned = item.spawned

theorem Goes.of_setPc {later : Caller T} (present : s.callers[c]? = some caller)
    (known : s.items[c]? = some item) (callers : next.callers = s.callers.set c later)
    (items : next.items = s.items) (ok : CallOk c outcome item later.pc) :
    Goes c outcome next item :=
  ⟨later, item, by rw [callers, List.getElem?_set_self (List.getElem?_eq_some_iff.mp present).1],
    items ▸ known, ok, rfl⟩

theorem Goes.of_put {later : Caller T} {changed : Item T} (present : s.callers[c]? = some caller)
    (known : s.items[c]? = some item) (callers : next.callers = s.callers.set c later)
    (items : next.items = s.items.set c changed) (ok : CallOk c outcome changed later.pc)
    (spawned : changed.spawned = item.spawned) : Goes c outcome next item :=
  ⟨later, changed,
    by rw [callers, List.getElem?_set_self (List.getElem?_eq_some_iff.mp present).1],
    by rw [items, List.getElem?_set_self (List.getElem?_eq_some_iff.mp known).1], ok, spawned⟩

theorem refuse_goes (present : s.callers[c]? = some caller) (known : s.items[c]? = some item)
    (error : ActionError) : Goes c outcome (refuse s c caller item error) item :=
  .of_put present known rfl rfl rfl rfl

theorem dispatchBegun_goes (present : s.callers[c]? = some caller)
    (known : s.items[c]? = some item) (waiting : item.reply = .waiting) {event : CallEvent}
    (undropped : event ≠ .drop)
    (taken : dispatchBegun cfg s c caller item event = some next) : Goes c outcome next item := by
  unfold dispatchBegun at taken
  repeat' split at taken
  all_goals
    try simp only [Option.some.injEq, reduceCtorEq] at taken
  all_goals subst taken
  next => exact .of_setPc present known rfl rfl waiting
  next => exact refuse_goes present known _
  next => exact refuse_goes present known _
  next => exact .of_put present known rfl rfl waiting rfl
  next => exact .of_put present known rfl rfl waiting rfl
  next => exact refuse_goes present known _
  next => exact absurd rfl undropped

theorem dispatchReceive_goes (present : s.callers[c]? = some caller)
    (known : s.items[c]? = some item) (outstanding : Outstanding outcome item)
    (taken : dispatchReceive s c caller item = some next) : Goes c outcome next item := by
  unfold dispatchReceive at taken
  rcases outstanding with waiting | ⟨⟨sender, sent⟩, ended⟩
  · simp [waiting] at taken
  · rw [sent] at taken
    simp only [Option.some.injEq] at taken
    exact taken ▸ .of_setPc present known rfl rfl ⟨rfl, ended⟩

/-- A step of the call itself. -/
theorem dispatchEvent_goes (present : s.callers[c]? = some caller)
    (known : s.items[c]? = some item) (ok : CallOk c outcome item caller.pc)
    (unmapped : caller.pc = .insert → s.pending.lookup caller.jobId ≠ some c) {event : CallEvent}
    (served : Served outcome c s (.call c event))
    (taken : dispatchEvent cfg s c caller item event = some next) : Goes c outcome next item := by
  have uncancelled := served.attended.uncancelled caller present
  unfold dispatchEvent at taken
  split at taken
  next pc =>
    rw [pc] at ok
    exact dispatchBegun_goes present known ok (fun drops => served.undropped (by rw [drops])) taken
  all_goals
    try simp only [Option.some.injEq, Option.map_eq_some_iff, reduceCtorEq] at taken
  next pc =>
    rw [pc] at ok
    subst taken
    unfold dispatchAcquire
    repeat' split
    · exact refuse_goes present known _
    · exact refuse_goes present known _
    · exact .of_put present known rfl rfl ok rfl
  next pc =>
    rw [pc] at ok
    subst taken
    unfold dispatchBuild
    split
    · exact refuse_goes present known _
    · exact .of_put present known rfl rfl ok rfl
  next pc =>
    rw [pc] at ok
    subst taken
    unfold dispatchInsert
    split
    · exact refuse_goes present known _
    · refine .of_setPc present known rfl rfl ?_
      cases found : s.pending.lookup caller.jobId with
      | none => exact Or.inl ok
      | some previous =>
          refine ⟨?_, Or.inl ok⟩
          rintro rfl
          exact unmapped pc found
  next d pc =>
    rw [pc] at ok
    obtain ⟨previous, _, rfl⟩ := taken
    refine ⟨_, item, List.getElem?_set_self (List.getElem?_eq_some_iff.mp present).1, ?_, ok.2, rfl⟩
    exact (List.getElem?_set_ne ok.1).trans known
  next pc =>
    rw [pc] at ok
    exact taken ▸ .of_setPc present known rfl rfl ok
  next pc =>
    rw [pc] at ok
    subst taken
    unfold dispatchLook
    refine .of_setPc present known rfl rfl ?_
    cases caller.guard with
    | none => exact ok
    | cancelled | cancelledOrClientGone =>
        simp only [uncancelled, Bool.false_eq_true, if_false]
        exact ok
  next pc =>
    rw [pc] at ok
    subst taken
    refine .of_setPc present known rfl rfl ?_
    by_cases polled : 0 < s.pollersOf caller.job
    · rw [if_pos polled]
      exact ok
    · rw [if_neg polled]
      exact ok
  next pc =>
    have ahead := served.attended.ahead caller present (Or.inl pc)
    rw [pc] at ok
    subst taken
    refine .of_setPc present known rfl rfl ?_
    rw [if_pos ahead]
    exact ok
  next error pc =>
    rw [pc] at ok
    exact ok.elim
  next pc =>
    rw [pc] at ok
    exact ok.elim
  next error d pc =>
    rw [pc] at ok
    exact ok.elim
  next pc =>
    rw [pc] at ok
    subst taken
    refine .of_setPc present known rfl rfl ?_
    unfold dispatchPark
    split <;> exact ok
  next pc =>
    rw [pc] at ok
    exact taken ▸ .of_setPc present known rfl rfl ok
  next timer pc =>
    rw [pc] at ok
    exact dispatchReceive_goes present known ok taken
  next timer pc =>
    rw [pc] at ok
    split at taken
    · simp only [Option.some.injEq] at taken
      exact taken ▸ .of_setPc present known rfl rfl ok
    · simp at taken
  next deadline pc =>
    rw [pc] at ok
    split at taken
    · simp only [Option.some.injEq] at taken
      exact taken ▸ .of_setPc present known rfl rfl ok
    · simp at taken
  next timer pc => exact absurd rfl served.undropped
  next pc =>
    rw [pc] at ok
    exact ok.elim
  next pc =>
    rw [pc] at ok
    exact ok.elim

/-- Changes of an item whose work has not ended, which leave the reply alone. -/
theorem CallOk.rework {pc : DispatchPc T} {changed : Item T} (ok : CallOk c outcome item pc)
    (reply : changed.reply = item.reply) (unended : item.work.ended = false) :
    CallOk c outcome changed pc := by
  have outstanding : Outstanding outcome item → Outstanding outcome changed := by
    rintro (waiting | ⟨_, ended⟩)
    · exact Or.inl (reply.trans waiting)
    · simp [unended] at ended
  cases pc with
  | begun | acquire | checkClosing | insert => exact reply.trans ok
  | displacing d => exact ⟨ok.1, outstanding ok.2⟩
  | enqueue | looking | lookingPollers | lookingDeadline | choosing | arming | parked =>
      exact outstanding ok
  | abandoning | rechecking | discarding | awaitReply | dropped => exact ok.elim
  | returned exit result =>
      cases exit with
      | refused =>
          have ended : item.work.ended = true := ok
          simp [unended] at ended
      | abandoned => exact ok.elim
      | answered =>
          have ended := ok.2
          simp [unended] at ended

theorem CallOk.not_gone (ok : CallOk c outcome item caller.pc) (unended : item.work.ended = false) :
    caller.gone = false := by
  cases pc : caller.pc with
  | returned exit result =>
      rw [pc] at ok
      cases exit with
      | refused =>
          have ended : item.work.ended = true := ok
          simp [unended] at ended
      | abandoned => exact ok.elim
      | answered =>
          have ended := ok.2
          simp [unended] at ended
  | dropped =>
      rw [pc] at ok
      exact ok.elim
  | _ => simp [Caller.gone, pc]

/-- The outcome is sent to a call that has put its item into the map. -/
theorem CallOk.sends (ok : CallOk c outcome item caller.pc) (late : caller.pc.early = false)
    (ended : item.work.ended = true) :
    CallOk c outcome
      { item with reply := item.reply.send (!caller.gone) .executor outcome } caller.pc := by
  have outstanding : caller.gone = false → Outstanding outcome item → Outstanding outcome
      { item with reply := item.reply.send (!caller.gone) .executor outcome } := by
    intro here
    rintro (waiting | ⟨⟨sender, sent⟩, _⟩)
    · exact Or.inr ⟨⟨.executor, by simp [waiting, Reply.send, here]⟩, ended⟩
    · exact Or.inr ⟨⟨sender, by simp [sent, Reply.send]⟩, ended⟩
  cases pc : caller.pc with
  | begun | acquire | checkClosing | insert => simp [pc, DispatchPc.early] at late
  | displacing d =>
      rw [pc] at ok
      exact ⟨ok.1, outstanding (by simp [Caller.gone, pc]) ok.2⟩
  | enqueue | looking | lookingPollers | lookingDeadline | choosing | arming | parked =>
      rw [pc] at ok
      exact outstanding (by simp [Caller.gone, pc]) ok
  | abandoning | rechecking | discarding | awaitReply | dropped =>
      rw [pc] at ok
      exact ok.elim
  | returned exit result =>
      rw [pc] at ok
      cases exit <;> exact ok

/-- A step of loop `i`, which holds item `d`. -/
structure LoopGoes (s next : DispatcherState T) (i d : Nat) (later : WorkerPc T)
    (changed : Item T) : Prop where
  callers : next.callers = s.callers
  pending : next.pending = s.pending
  queue : next.queue = s.queue
  jobs : next.jobs = s.jobs
  now : next.now = s.now
  handlers : next.handlers = s.handlers
  closers : next.closers = s.closers
  closed : next.queueClosed = s.queueClosed
  workers : next.workers = s.workers.set i later
  changed : next.items[d]? = some changed
  others (e : Nat) : e ≠ d → next.items[e]? = s.items[e]?

/-- How a loop goes on with the item it holds. -/
inductive LoopChange (s : DispatcherState T) (d : Nat) (caller : Caller T) (item : Item T)
    (event : WorkerEvent T) : WorkerPc T → WorkerPc T → Item T → Prop
  | unpermits : event = .step → LoopChange s d caller item event (.removed d) (.unpermitted d)
      { item with permit := false }
  | skips : event = .step → caller.gone = true →
      LoopChange s d caller item event (.unpermitted d) .idle item.discard
  | polls : event = .step → caller.gone = false →
      LoopChange s d caller item event (.unpermitted d) (.polling d) item
  | looks : event = .step → s.cancelledOf caller.job = false →
      LoopChange s d caller item event (.polling d) (.pollingPollers d) item
  | unpolled : event = .step → ¬ 0 < s.pollersOf caller.job →
      LoopChange s d caller item event (.pollingPollers d) (.pollingDeadline d) item
  | starts {pc : WorkerPc T} : event = .step → pc.item = some d → pc.phase = .live →
      LoopChange s d caller item event pc (.running d)
        { item with work := .running, starts := item.starts + 1 }
  | cancelled : event = .step → s.cancelledOf caller.job = true →
      LoopChange s d caller item event (.polling d) (.sending d (.error .cancelled))
        { item.endWork .resolved with observed := true }
  | clientGone : event = .step → ¬ s.now < s.deadlineOf caller.job →
      LoopChange s d caller item event (.pollingDeadline d) (.sending d (.error .clientGone))
        { item.endWork .resolved with observed := true }
  | finishes {result : Except ActionError T} : event = .finish result →
      LoopChange s d caller item event (.running d) (.sending d result) (item.endWork .resolved)
  | panics : event = .panic → LoopChange s d caller item event (.running d) .exited item.discard
  | sends {result : Except ActionError T} : event = .step →
      LoopChange s d caller item event (.sending d result) .idle
        { item with reply := item.reply.send (!caller.gone) .executor result }

theorem LoopGoes.of_put {d : Nat} (known : s.items[d]? = some item) (changed : Item T)
    (later : WorkerPc T) :
    LoopGoes s ((s.put d item changed).setWorker i later) i d later changed where
  callers := rfl
  pending := rfl
  queue := rfl
  jobs := rfl
  now := rfl
  handlers := rfl
  closers := rfl
  closed := rfl
  workers := rfl
  changed := List.getElem?_set_self (List.getElem?_eq_some_iff.mp known).1
  others := fun _ other => List.getElem?_set_ne (Ne.symm other)

theorem LoopGoes.of_setWorker {d : Nat} (known : s.items[d]? = some item) (later : WorkerPc T) :
    LoopGoes s (s.setWorker i later) i d later item where
  callers := rfl
  pending := rfl
  queue := rfl
  jobs := rfl
  now := rfl
  handlers := rfl
  closers := rfl
  closed := rfl
  workers := rfl
  changed := known
  others := fun _ _ => rfl

theorem workerItem_goes {d : Nat} {pc : WorkerPc T} {event : WorkerEvent T}
    (known : s.items[d]? = some item) (holds : pc.item = some d)
    (taken : workerItem s i d caller item pc event = some next) :
    ∃ later changed, LoopGoes s next i d later changed ∧
      LoopChange s d caller item event pc later changed := by
  unfold workerItem at taken
  split at taken
  next e =>
    obtain rfl : e = d := by simpa [WorkerPc.item] using holds
    simp only [Option.some.injEq] at taken
    exact ⟨_, _, taken ▸ .of_put known _ _, .unpermits rfl⟩
  next e =>
    obtain rfl : e = d := by simpa [WorkerPc.item] using holds
    split at taken
    next gone =>
      simp only [Option.some.injEq] at taken
      exact ⟨_, _, taken ▸ .of_put known _ _, .skips rfl gone⟩
    next here =>
      simp only [Option.some.injEq] at taken
      exact ⟨_, _, taken ▸ .of_setWorker known _, .polls rfl (by simpa using here)⟩
  next e =>
    obtain rfl : e = d := by simpa [WorkerPc.item] using holds
    simp only [Option.some.injEq] at taken
    subst taken
    have runs : ∃ later changed, LoopGoes s (workerRun s i e item) i e later changed ∧
        LoopChange s e caller item .step (.polling e) later changed :=
      ⟨_, _, .of_put known _ _, .starts rfl rfl rfl⟩
    unfold workerPoll
    split
    · exact runs
    · split
      next cancelled => exact ⟨_, _, .of_put known _ _, .cancelled rfl cancelled⟩
      · exact runs
    · split
      next cancelled => exact ⟨_, _, .of_put known _ _, .cancelled rfl cancelled⟩
      next uncancelled =>
        exact ⟨_, _, .of_setWorker known _, .looks rfl (by simpa using uncancelled)⟩
  next e =>
    obtain rfl : e = d := by simpa [WorkerPc.item] using holds
    split at taken
    · simp only [Option.some.injEq] at taken
      exact ⟨_, _, taken ▸ .of_put known _ _, .starts rfl rfl rfl⟩
    next unpolled =>
      simp only [Option.some.injEq] at taken
      exact ⟨_, _, taken ▸ .of_setWorker known _, .unpolled rfl unpolled⟩
  next e =>
    obtain rfl : e = d := by simpa [WorkerPc.item] using holds
    split at taken
    · simp only [Option.some.injEq] at taken
      exact ⟨_, _, taken ▸ .of_put known _ _, .starts rfl rfl rfl⟩
    next passed =>
      simp only [Option.some.injEq] at taken
      exact ⟨_, _, taken ▸ .of_put known _ _, .clientGone rfl passed⟩
  next e result =>
    obtain rfl : e = d := by simpa [WorkerPc.item] using holds
    simp only [Option.some.injEq] at taken
    exact ⟨_, _, taken ▸ .of_put known _ _, .finishes rfl⟩
  next e =>
    obtain rfl : e = d := by simpa [WorkerPc.item] using holds
    simp only [Option.some.injEq] at taken
    exact ⟨_, _, taken ▸ .of_put known _ _, .panics rfl⟩
  next e result =>
    obtain rfl : e = d := by simpa [WorkerPc.item] using holds
    simp only [Option.some.injEq] at taken
    exact ⟨_, _, taken ▸ .of_put known _ _, .sends rfl⟩
  next => simp at taken

/-- A step of loop `i`. -/
inductive LoopMove (s next : DispatcherState T) (i : Nat) (event : WorkerEvent T) :
    WorkerPc T → Prop
  | dequeues {index job : Nat} : s.queue[index]? = some job →
      next = { s with queue := s.queue.eraseIdx index }.setWorker i (.dequeued job) →
      LoopMove s next i event .idle
  | exits : next = s.setWorker i .exited → LoopMove s next i event .idle
  | misses {job : Nat} {handle : JobHandle} : s.jobs[job]? = some handle →
      s.pending.lookup handle.job.id = none → next = s.setWorker i .idle →
      LoopMove s next i event (.dequeued job)
  | takes {job d : Nat} {handle : JobHandle} : s.jobs[job]? = some handle →
      s.pending.lookup handle.job.id = some d →
      next = (s.take handle.job.id d .executor).setWorker i (.removed d) →
      LoopMove s next i event (.dequeued job)
  | works {pc later : WorkerPc T} {d : Nat} {caller : Caller T} {item changed : Item T} :
      pc.item = some d → s.callers[d]? = some caller → s.items[d]? = some item →
      LoopGoes s next i d later changed → LoopChange s d caller item event pc later changed →
      LoopMove s next i event pc

theorem workerEvent_goes {pc : WorkerPc T} {event : WorkerEvent T}
    (taken : workerEvent s i pc event = some next) : LoopMove s next i event pc := by
  unfold workerEvent at taken
  split at taken
  next index =>
    obtain ⟨job, found, rfl⟩ := Option.map_eq_some_iff.mp taken
    exact .dequeues found rfl
  next =>
    split at taken
    · simp only [Option.some.injEq] at taken
      exact .exits taken.symm
    · simp at taken
  next job =>
    simp only [workerRemove, Option.map_eq_some_iff] at taken
    obtain ⟨handle, known, rfl⟩ := taken
    split
    next absent => exact .misses known absent rfl
    next d found => exact .takes known found rfl
  next =>
    simp only [Option.bind_eq_some_iff] at taken
    obtain ⟨d, holds, caller, present, item, known, taken⟩ := taken
    obtain ⟨later, changed, goes, change⟩ := workerItem_goes known holds taken
    exact .works holds present known goes change

end Steps

/-- The invariant of a call that is served by a local pool. -/
structure ServedWf (outcome : Except ActionError T) (c : Nat) (s : DispatcherState T) : Prop where
  owned : Owned s
  handlers : s.handlers = []
  closers : s.closers = []
  unspawned (item : Item T) : s.items[c]? = some item → item.spawned = false
  ok (caller : Caller T) (item : Item T) : s.callers[c]? = some caller → s.items[c]? = some item →
    CallOk c outcome item caller.pc
  mapped (id : String) : s.pending.lookup id = some c →
    ∃ caller, s.callers[c]? = some caller ∧ caller.jobId = id
  others (i : Nat) (other : Caller T) : s.callers[i]? = some other → i ≠ c →
    other.pc.item i ≠ some c
  sending (i : Nat) (result : Except ActionError T) : s.workers[i]? = some (.sending c result) →
    result = outcome

section Invariant

variable {cfg : DispatcherConfig T} {s next : DispatcherState T} {action : DispatcherAction T}
  {i c : Nat} {caller : Caller T} {item : Item T} {outcome : Except ActionError T}

theorem ServedWf.of_same (wf : ServedWf outcome c s) (owned : Owned next)
    (handlers : next.handlers = s.handlers) (closers : next.closers = s.closers)
    (callers : next.callers = s.callers) (item : next.items[c]? = s.items[c]?)
    (pending : ∀ id, next.pending.lookup id = some c → s.pending.lookup id = some c)
    (sending : ∀ (i : Nat) (result : Except ActionError T),
      next.workers[i]? = some (.sending c result) → result = outcome) :
    ServedWf outcome c next where
  owned := owned
  handlers := handlers.trans wf.handlers
  closers := closers.trans wf.closers
  unspawned := fun changed known => wf.unspawned changed (item ▸ known)
  ok := fun caller changed present known => wf.ok caller changed (callers ▸ present) (item ▸ known)
  mapped := fun id found => callers ▸ wf.mapped id (pending id found)
  others := fun i other present => wf.others i other (callers ▸ present)
  sending := sending

theorem ServedWf.dispatch_step (wf : ServedWf outcome c s) (owned : Owned next) {later : Caller T}
    {fresh : Item T} (began : later.pc = .begun) (waiting : fresh.reply = .waiting)
    (unspawned : fresh.spawned = false) (callers : next.callers = s.callers ++ [later])
    (items : next.items = s.items ++ [fresh]) (handlers : next.handlers = s.handlers)
    (closers : next.closers = s.closers) (pending : next.pending = s.pending)
    (workers : next.workers = s.workers) : ServedWf outcome c next where
  owned := owned
  handlers := handlers.trans wf.handlers
  closers := closers.trans wf.closers
  unspawned := by
    intro item known
    rw [items] at known
    rcases getElem?_of_snoc known with old | ⟨_, rfl⟩
    · exact wf.unspawned item old
    · exact unspawned
  ok := by
    intro caller item present known
    rw [items] at known
    rw [callers] at present
    rcases getElem?_of_snoc present with old | ⟨last, rfl⟩
    · rcases getElem?_of_snoc known with before | ⟨last, _⟩
      · exact wf.ok caller item old before
      · have bound := (List.getElem?_eq_some_iff.mp old).1
        have aligned := wf.owned.aligned
        omega
    · rcases getElem?_of_snoc known with before | ⟨_, rfl⟩
      · have bound := (List.getElem?_eq_some_iff.mp before).1
        have aligned := wf.owned.aligned
        omega
      · rw [began]
        exact waiting
  mapped := by
    intro id found
    obtain ⟨caller, present, named⟩ := wf.mapped id (pending ▸ found)
    refine ⟨caller, ?_, named⟩
    rw [callers, List.getElem?_append_left (List.getElem?_eq_some_iff.mp present).1]
    exact present
  others := by
    intro i other present different
    rw [callers] at present
    rcases getElem?_of_snoc present with old | ⟨_, rfl⟩
    · exact wf.others i other old different
    · simp [began, DispatchPc.item]
  sending := fun i result is => wf.sending i result (workers ▸ is)

/-- The item is in the map only while the call waits for it. -/
theorem ServedWf.unended_of_mapped (wf : ServedWf outcome c s) {id : String}
    (found : s.pending.lookup id = some c) (known : s.items[c]? = some item) :
    item.work.ended = false := by
  have held : s.holding (.map id) = some (c, .live) := by simp [holding, found]
  rw [wf.owned.work_eq held known]
  rfl

theorem ServedWf.item_of_call (wf : ServedWf outcome c s) (present : s.callers[c]? = some caller) :
    ∃ item, s.items[c]? = some item := by
  have bound := (List.getElem?_eq_some_iff.mp present).1
  rw [← wf.owned.aligned] at bound
  exact ⟨_, List.getElem?_eq_getElem bound⟩

/-- No other unfinished call finds the item under its identifier. -/
theorem ServedWf.not_found (wf : ServedWf outcome c s) (served : Served outcome c s action)
    {other : Caller T} (present : s.callers[i]? = some other) (different : i ≠ c)
    (unfinished : other.gone = false) : s.pending.lookup other.jobId ≠ some c := by
  intro found
  obtain ⟨own, here, named⟩ := wf.mapped _ found
  obtain ⟨item, known⟩ := wf.item_of_call here
  have waits := (wf.ok own item here known).not_gone (wf.unended_of_mapped found known)
  have gone := served.alone own other i here waits present different named.symm
  simp [unfinished] at gone

theorem ServedWf.own_step (wf : ServedWf outcome c s) (owned : Owned next)
    (present : s.callers[c]? = some caller) (known : s.items[c]? = some item) {event : CallEvent}
    (served : Served outcome c s (.call c event))
    (taken : dispatchEvent cfg s c caller item event = some next) : ServedWf outcome c next := by
  have aside := (dispatchEvent_items taken).1
  obtain ⟨workers, _⟩ := dispatchEvent_beside taken
  obtain ⟨moved, step⟩ := dispatchEvent_step taken
  have unmapped : caller.pc = .insert → s.pending.lookup caller.jobId ≠ some c := by
    intro pc found
    have inMap : s.holding (.map caller.jobId) = some (c, .live) := by simp [holding, found]
    have inCall : s.holding (.call c) = some (c, .live) := by
      simp [holding, present, pc, DispatchPc.item]
    have same := wf.owned.unique _ _ c _ _ inMap inCall
    simp at same
  obtain ⟨later, changed, laterPresent, changedKnown, ok, spawned⟩ :=
    dispatchEvent_goes present known (wf.ok caller item present known) unmapped served taken
  have bound := (List.getElem?_eq_some_iff.mp present).1
  have here : next.callers[c]? = some moved := by
    rw [step.callers, List.getElem?_set_self bound]
  refine ⟨owned, aside.handlers.trans wf.handlers, step.closers.trans wf.closers, ?_, ?_, ?_, ?_,
    ?_⟩
  · intro item' known'
    rw [changedKnown] at known'
    simp only [Option.some.injEq] at known'
    rw [← known', spawned]
    exact wf.unspawned item known
  · intro caller' item' present' known'
    rw [laterPresent] at present'
    rw [changedKnown] at known'
    simp only [Option.some.injEq] at present' known'
    rw [← present', ← known']
    exact ok
  · intro id found
    refine ⟨moved, here, ?_⟩
    rcases step.pending id c found with old | ⟨rfl, _⟩
    · obtain ⟨before, presentBefore, named⟩ := wf.mapped id old
      rw [present] at presentBefore
      simp only [Option.some.injEq] at presentBefore
      rw [step.jobId, presentBefore, named]
    · exact step.jobId
  · intro i other present' different
    rw [step.callers, List.getElem?_set_ne (Ne.symm different)] at present'
    exact wf.others i other present' different
  · intro i result is
    exact wf.sending i result (workers ▸ is)

theorem ServedWf.item_of_other (wf : ServedWf outcome c s) (present : s.callers[i]? = some caller)
    (different : i ≠ c) {later : List (Item T)} (items : CallItems s i caller item later) :
    later[c]? = s.items[c]? := by
  cases items with
  | same => rfl
  | own _ _ _ => exact List.getElem?_set_ne different
  | dropped holds _ _ =>
      refine List.getElem?_set_ne ?_
      rintro rfl
      exact wf.others i caller present different holds

/-- Steps of other calls pass by. -/
theorem ServedWf.other_step (wf : ServedWf outcome c s) (owned : Owned next)
    (present : s.callers[i]? = some caller) (different : i ≠ c) {event : CallEvent}
    (served : Served outcome c s (.call i event))
    (taken : dispatchEvent cfg s i caller item event = some next) : ServedWf outcome c next := by
  obtain ⟨aside, items⟩ := dispatchEvent_items taken
  obtain ⟨workers, _⟩ := dispatchEvent_beside taken
  obtain ⟨moved, step⟩ := dispatchEvent_step taken
  have unfinished := not_gone_of_event taken
  have same : next.items[c]? = s.items[c]? := wf.item_of_other present different items
  have here : next.callers[c]? = s.callers[c]? := by
    rw [step.callers, List.getElem?_set_ne different]
  refine ⟨owned, aside.handlers.trans wf.handlers, step.closers.trans wf.closers, ?_, ?_, ?_, ?_,
    ?_⟩
  · intro changed known
    exact wf.unspawned changed (same ▸ known)
  · intro own changed presentOwn known
    exact wf.ok own changed (here ▸ presentOwn) (same ▸ known)
  · intro id found
    rcases step.pending id c found with old | ⟨_, rfl⟩
    · rw [here]
      exact wf.mapped id old
    · exact absurd rfl different
  · intro j other presentOther apart
    rw [step.callers] at presentOther
    rcases getElem?_of_set presentOther with ⟨rfl, rfl⟩ | ⟨_, away⟩
    · intro holds
      rcases step.holds c holds with rfl | before | found
      · exact apart rfl
      · exact wf.others j caller present different before
      · exact wf.not_found served present different unfinished found
    · exact wf.others j other away apart
  · intro j result is
    exact wf.sending j result (workers ▸ is)

/-- A call whose item is with a loop has put it into the map. -/
theorem Owned.late_of_worker (owned : Owned s) {pc : WorkerPc T} (at_ : s.workers[i]? = some pc)
    (holds : pc.item = some c) (present : s.callers[c]? = some caller)
    (known : s.items[c]? = some item) : caller.pc.early = false := by
  have inLoop : s.holding (.worker i) = some (c, pc.phase) := by
    rw [holding_worker at_, holds]
    rfl
  cases place : caller.pc with
  | begun | acquire | checkClosing =>
      have never := owned.unheld present known (by rw [place]; rfl) inLoop
      exact absurd rfl never
  | insert =>
      have inCall : s.holding (.call c) = some (c, .live) := by
        simp [holding, present, place, DispatchPc.item]
      have same := owned.unique _ _ c _ _ inLoop inCall
      simp at same
  | _ => rfl

/-- The loop that holds the item of the call goes on with it. -/
theorem ServedWf.loopChange (wf : ServedWf outcome c s) {pc later : WorkerPc T} {changed : Item T}
    {event : WorkerEvent T} (at_ : s.workers[i]? = some pc) (holds : pc.item = some c)
    (present : s.callers[c]? = some caller) (known : s.items[c]? = some item)
    (served : Served outcome c s (.worker i event))
    (change : LoopChange s c caller item event pc later changed) :
    CallOk c outcome changed caller.pc ∧ changed.spawned = item.spawned ∧
      ∀ result, later = .sending c result → result = outcome := by
  have ok := wf.ok caller item present known
  have work : item.work = pc.phase := by
    refine wf.owned.work_eq ?_ known (p := .worker i)
    rw [holding_worker at_, holds]
    rfl
  have uncancelled := served.attended.uncancelled caller present
  cases change with
  | unpermits =>
      exact ⟨ok.rework rfl (by rw [work]; rfl), rfl, by simp⟩
  | skips _ gone =>
      have waits := ok.not_gone (by rw [work]; rfl)
      simp [waits] at gone
  | polls => exact ⟨ok, rfl, by simp⟩
  | looks => exact ⟨ok, rfl, by simp⟩
  | unpolled => exact ⟨ok, rfl, by simp⟩
  | starts _ _ live => exact ⟨ok.rework rfl (by rw [work, live]; rfl), rfl, by simp⟩
  | cancelled _ cancelled => simp [uncancelled] at cancelled
  | clientGone _ passed =>
      exact absurd (served.attended.ahead caller present (Or.inr ⟨i, at_⟩)) passed
  | finishes finished =>
      refine ⟨ok.rework rfl (by rw [work]; rfl), rfl, ?_⟩
      rintro result ⟨⟩
      exact served.finishes i _ (by rw [finished]) at_
  | panics panicked => exact absurd at_ (served.calm i (by rw [panicked]))
  | sends =>
      have sent := wf.sending i _ at_
      subst sent
      have late := wf.owned.late_of_worker at_ holds present known
      exact ⟨ok.sends late (by rw [work]; rfl), rfl, by simp⟩

/-- A loop that keeps away from the item. -/
theorem ServedWf.loop_aside (wf : ServedWf outcome c s) (owned : Owned next) {later : WorkerPc T}
    (handlers : next.handlers = s.handlers) (closers : next.closers = s.closers)
    (callers : next.callers = s.callers) (item : next.items[c]? = s.items[c]?)
    (pending : ∀ id, next.pending.lookup id = some c → s.pending.lookup id = some c)
    (workers : next.workers = s.workers.set i later)
    (sends : ∀ result, later ≠ .sending c result) : ServedWf outcome c next := by
  refine wf.of_same owned handlers closers callers item pending ?_
  intro j result is
  rw [workers] at is
  rcases getElem?_of_set is with ⟨_, here⟩ | ⟨_, away⟩
  · exact absurd here.symm (sends result)
  · exact wf.sending j result away

/-- The loop that has the item of the call. -/
theorem ServedWf.loop_own (wf : ServedWf outcome c s) (owned : Owned next) {later : WorkerPc T}
    {changed : Item T} (present : s.callers[c]? = some caller) (known : s.items[c]? = some item)
    (goes : LoopGoes s next i c later changed) (ok : CallOk c outcome changed caller.pc)
    (spawned : changed.spawned = item.spawned)
    (sends : ∀ result, later = .sending c result → result = outcome) :
    ServedWf outcome c next where
  owned := owned
  handlers := goes.handlers.trans wf.handlers
  closers := goes.closers.trans wf.closers
  unspawned := by
    intro found is
    rw [goes.changed] at is
    simp only [Option.some.injEq] at is
    rw [← is, spawned]
    exact wf.unspawned item known
  ok := by
    intro own found here is
    rw [goes.callers, present] at here
    rw [goes.changed] at is
    simp only [Option.some.injEq] at here is
    rw [← here, ← is]
    exact ok
  mapped := fun id found => goes.callers ▸ wf.mapped id (goes.pending ▸ found)
  others := fun j other there => wf.others j other (goes.callers ▸ there)
  sending := by
    intro j result is
    rw [goes.workers] at is
    rcases getElem?_of_set is with ⟨_, here⟩ | ⟨_, away⟩
    · exact sends result here.symm
    · exact wf.sending j result away

theorem LoopChange.item_cases {d : Nat} {event : WorkerEvent T} {pc later : WorkerPc T}
    {changed : Item T} (change : LoopChange s d caller item event pc later changed) :
    later.item = none ∨ later.item = some d := by
  cases change <;> first | exact Or.inl rfl | exact Or.inr rfl

theorem ServedWf.worker_step (wf : ServedWf outcome c s) (owned : Owned next) {pc : WorkerPc T}
    {event : WorkerEvent T} (at_ : s.workers[i]? = some pc)
    (served : Served outcome c s (.worker i event))
    (taken : workerEvent s i pc event = some next) : ServedWf outcome c next := by
  cases workerEvent_goes taken with
  | dequeues _ is =>
      subst is
      exact wf.loop_aside owned rfl rfl rfl rfl (fun _ found => found) rfl (by simp)
  | exits is =>
      subst is
      exact wf.loop_aside owned rfl rfl rfl rfl (fun _ found => found) rfl (by simp)
  | misses _ _ is =>
      subst is
      exact wf.loop_aside owned rfl rfl rfl rfl (fun _ found => found) rfl (by simp)
  | takes _ _ is =>
      subst is
      refine wf.loop_aside owned rfl rfl rfl rfl ?_ rfl (by simp)
      intro id found
      simp only [setWorker, take, HashMap.lookup_erase_eq] at found
      split at found
      · simp at found
      · exact found
  | @works _ later d caller item changed holds present known goes change =>
      by_cases here : d = c
      · subst here
        obtain ⟨ok, spawned, sends⟩ := wf.loopChange at_ holds present known served change
        exact wf.loop_own owned present known goes ok spawned sends
      · refine wf.loop_aside owned goes.handlers goes.closers goes.callers
          (goes.others c (Ne.symm here)) (fun _ found => goes.pending ▸ found) goes.workers ?_
        rintro result rfl
        rcases change.item_cases with none_ | same
        · simp [WorkerPc.item] at none_
        · simp only [WorkerPc.item, Option.some.injEq] at same
          exact here same.symm

/-- Nothing is forwarded to the call: no handler has spawned a task for it. -/
theorem ServedWf.forward_other (wf : ServedWf outcome c s) {d : Nat}
    (known : s.items[d]? = some item) (taken : forwardOutcome s d caller item = some next) :
    d ≠ c ∧ ∃ changed, next = s.put d item changed := by
  have spawned : item.spawned = true := by
    by_contra unspawned
    simp [forwardOutcome, unspawned] at taken
  refine ⟨?_, ?_⟩
  · rintro rfl
    simp [wf.unspawned item known] at spawned
  · unfold forwardOutcome at taken
    rw [if_pos spawned] at taken
    split at taken
    · exact ⟨_, (Option.some.inj taken).symm⟩
    · exact ⟨_, (Option.some.inj taken).symm⟩
    · simp at taken

theorem ServedWf.step {n : Nat} (pool : cfg.executor = .pool n) (wf : ServedWf outcome c s)
    (served : Served outcome c s action) (taken : dispatcherStep cfg s action = some next) :
    ServedWf outcome c next := by
  have owned := wf.owned.step (dispatcherStep_move taken)
  cases action with
  | advance elapsed | submit job | shutdown =>
      simp only [dispatcherStep, Option.some.injEq] at taken
      subst taken
      exact wf.of_same owned rfl rfl rfl rfl (fun _ found => found) wf.sending
  | close => exact absurd rfl served.unclosed
  | flag job flag =>
      simp only [dispatcherStep, Option.map_eq_some_iff] at taken
      obtain ⟨handle, _, rfl⟩ := taken
      exact wf.of_same owned rfl rfl rfl rfl (fun _ found => found) wf.sending
  | dispatch job guard =>
      simp only [dispatcherStep, dispatch, Option.map_eq_some_iff] at taken
      obtain ⟨handle, _, rfl⟩ := taken
      exact wf.dispatch_step owned rfl rfl rfl rfl rfl rfl rfl rfl rfl
  | call i event =>
      simp only [dispatcherStep, Option.bind_eq_some_iff] at taken
      obtain ⟨caller, present, item, known, taken⟩ := taken
      by_cases own : i = c
      · subst own
        exact wf.own_step owned present known served taken
      · exact wf.other_step owned present own served taken
  | worker i event =>
      simp only [dispatcherStep, Option.bind_eq_some_iff] at taken
      obtain ⟨pc, at_, taken⟩ := taken
      exact wf.worker_step owned at_ served taken
  | lose index => exact absurd rfl (served.unlost index)
  | getWork => simp [dispatcherStep, pool] at taken
  | handler i event => simp [dispatcherStep, wf.handlers] at taken
  | heartbeat jobId =>
      simp only [dispatcherStep, heartbeatJob, Option.map_eq_some_iff] at taken
      obtain ⟨entry, _, rfl⟩ := taken
      exact wf.of_same owned rfl rfl rfl rfl (fun _ found => found) wf.sending
  | complete jobId result => simp [dispatcherStep, completeJob, pool] at taken
  | evict jobId => simp [dispatcherStep, evictJob, pool] at taken
  | forward d =>
      simp only [dispatcherStep, Option.bind_eq_some_iff] at taken
      obtain ⟨caller, _, item, known, taken⟩ := taken
      obtain ⟨different, changed, rfl⟩ := wf.forward_other known taken
      exact wf.of_same owned rfl rfl rfl (List.getElem?_set_ne different) (fun _ found => found)
        wf.sending
  | closer i event => simp [dispatcherStep, wf.closers] at taken

theorem ServedWf.initial (outcome : Except ActionError T) (c : Nat) (cfg : DispatcherConfig T)
    {n : Nat} (pool : cfg.executor = .pool n) (now : Nat) :
    ServedWf outcome c (DispatcherState.new cfg now) where
  owned := Owned.initial cfg now
  handlers := rfl
  closers := rfl
  unspawned := by simp [DispatcherState.new]
  ok := by simp [DispatcherState.new]
  mapped := by simp [DispatcherState.new]
  others := by simp [DispatcherState.new]
  sending := by
    intro i result is
    simp only [DispatcherState.new, pool, List.getElem?_replicate] at is
    split at is <;> simp at is

theorem ServedWf.of_path {n : Nat} (pool : cfg.executor = .pool n) {now : Nat}
    {actions : List (DispatcherAction T)}
    (path : Path (dispatcherStep cfg) (Served outcome c) (DispatcherState.new cfg now) actions s) :
    ServedWf outcome c s :=
  path.invariant (ServedWf.initial outcome c cfg pool now) fun _ _ _ wf served taken =>
    wf.step pool served taken

/-- A call that was admitted returns what its work resolved with, and the work is gone by then. -/
theorem ServedWf.returned (wf : ServedWf outcome c s) (present : s.callers[c]? = some caller)
    (known : s.items[c]? = some item) {exit_ : Exit} {result : Except ActionError T}
    (pc : caller.pc = .returned exit_ result) (admitted : exit_ ≠ .refused) :
    exit_ = .answered ∧ result = outcome ∧ item.work.ended = true := by
  have ok := wf.ok caller item present known
  rw [pc] at ok
  cases exit_ with
  | refused => exact absurd rfl admitted
  | abandoned => exact ok.elim
  | answered => exact ⟨rfl, ok⟩

end Invariant

end BitsBroker
