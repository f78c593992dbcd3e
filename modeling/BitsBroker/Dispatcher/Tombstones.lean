import BitsBroker.Dispatcher.HandedItems
import BitsBroker.Dispatcher.UserCap

/-!
Queue entries that outlive their dispatch. An abandoned call takes its item out of the map and
leaves its entry in the queue; the executor that dequeues the entry looks the item up by the
identifier of the job. A worker of a local pool awaits the work future of the item it finds, and that
future reads the flags of its own job. A `GET /work` handler reads the flags and the request of the
entry it has dequeued, so that it is right about the dispatch only where the two are of one job.
-/

namespace BitsBroker

open Transition Table DispatcherState

structure WorkResponse where
  jobId : String
  request : Json
  user : Json
  metadata : Json

def WorkResponse.of (job : Job) : WorkResponse where
  jobId := job.id
  request := job.request
  user := job.user
  metadata := job.metadata

/-- The flag that an executor reads next. -/
inductive Look where
  | cancelled
  | pollers
  | deadline

inductive Judgement where
  | pass
  | look (next : Look)
  | refuse (error : ActionError)

variable {T : Type}

/-- What the guard of a dispatch makes of one flag of a job. -/
def DispatcherState.judge (s : DispatcherState T) (guard : DispatchGuard) (job : Nat) :
    Look → Judgement
  | .cancelled => match guard with
      | .none => .pass
      | .cancelled => if s.cancelledOf job then .refuse .cancelled else .pass
      | .cancelledOrClientGone =>
          if s.cancelledOf job then .refuse .cancelled else .look .pollers
  | .pollers => if 0 < s.pollersOf job then .pass else .look .deadline
  | .deadline => if s.now < s.deadlineOf job then .pass else .refuse .clientGone

/-- The dispatch that a worker judges and the flag it reads. -/
def WorkerPc.looks : WorkerPc T → Option (Look × Nat)
  | .polling c => some (.cancelled, c)
  | .pollingPollers c => some (.pollers, c)
  | .pollingDeadline c => some (.deadline, c)
  | _ => none

def HandlerPc.looks : HandlerPc → Option (Look × Nat)
  | .checking _ c => some (.cancelled, c)
  | .checkingPollers _ c => some (.pollers, c)
  | .checkingDeadline _ c => some (.deadline, c)
  | _ => none

/-- A worker acts on a judgement about its item. -/
def workerActs (s : DispatcherState T) (i c : Nat) (item : Item T) : Judgement → DispatcherState T
  | .pass => workerRun s i c item
  | .look .cancelled => s.setWorker i (.polling c)
  | .look .pollers => s.setWorker i (.pollingPollers c)
  | .look .deadline => s.setWorker i (.pollingDeadline c)
  | .refuse error => workerObserve s i c item error

/-- A handler that has dequeued `job` acts on a judgement about its item. -/
def handlerActs (s : DispatcherState T) (i job c : Nat) (caller : Caller T) (item : Item T) :
    Judgement → DispatcherState T
  | .pass => s.setHandler i (.claiming job c)
  | .look .cancelled => s.setHandler i (.checking job c)
  | .look .pollers => s.setHandler i (.checkingPollers job c)
  | .look .deadline => s.setHandler i (.checkingDeadline job c)
  | .refuse error => handlerRefuse s i c caller item error

/-- What handler `i` tells its worker once it has claimed the job. -/
def response (s : DispatcherState T) (i : Nat) : Option WorkResponse :=
  match s.handlers[i]? with
  | some (.claiming job _) => s.jobs[job]?.map fun handle => .of handle.job
  | _ => none

/-- Whatever entry was dequeued, a dispatch is judged by the flags of its own job, a remote worker
gets its own request, and an entry without an item touches no dispatch. -/
structure Harmless (cfg : DispatcherConfig T) (s : DispatcherState T) : Prop where
  worker (i c : Nat) (pc : WorkerPc T) (look : Look) (caller : Caller T) (item : Item T) :
    s.workers[i]? = some pc → pc.looks = some (look, c) → s.callers[c]? = some caller →
    s.items[c]? = some item → dispatcherStep cfg s (.worker i .step) =
      some (workerActs s i c item (s.judge item.guard caller.job look))
  handler (i c : Nat) (pc : HandlerPc) (look : Look) (caller : Caller T) (item : Item T) :
    s.handlers[i]? = some pc → pc.looks = some (look, c) → s.callers[c]? = some caller →
    s.items[c]? = some item → dispatcherStep cfg s (.handler i .step) =
      some (handlerActs s i caller.job c caller item (s.judge item.guard caller.job look))
  served (i job c : Nat) (caller : Caller T) : s.handlers[i]? = some (.claiming job c) →
    s.callers[c]? = some caller →
    response s i = s.jobs[caller.job]?.map fun handle => .of handle.job
  idle (action : DispatcherAction T) (job : Nat) (handle : JobHandle) (next : DispatcherState T) :
    (∃ i : Nat, action = .worker i .step ∧ s.workers[i]? = some (.dequeued job)) ∨
      (∃ i : Nat, action = .handler i .step ∧ s.handlers[i]? = some (.dequeued job)) →
    s.jobs[job]? = some handle → s.pending.lookup handle.job.id = none →
    dispatcherStep cfg s action = some next →
    next.callers = s.callers ∧ next.items = s.items ∧ next.pending = s.pending

/-- A handler that takes an item out of the map has dequeued the entry of that dispatch. -/
def OwnEntry (s : DispatcherState T) (action : DispatcherAction T) : Prop :=
  ∀ (i job c : Nat) (handle : JobHandle) (caller : Caller T), action = .handler i .step →
    s.handlers[i]? = some (.dequeued job) → s.jobs[job]? = some handle →
    s.pending.lookup handle.job.id = some c → s.callers[c]? = some caller → caller.job = job

/-- Every handler has the job of the dispatch that it judges. -/
structure PairedWf (s : DispatcherState T) : Prop where
  reply : ReplyWf s
  paired (i : Nat) (pc : HandlerPc) (job c : Nat) : s.handlers[i]? = some pc →
    pc.checks = some (job, c) → ∃ caller, s.callers[c]? = some caller ∧ caller.job = job

section Steps

variable {cfg : DispatcherConfig T} {s next : DispatcherState T} {action : DispatcherAction T}
  {i c job : Nat} {caller : Caller T} {item : Item T}

/-- A call keeps its job. -/
theorem dispatcherStep_job (taken : dispatcherStep cfg s action = some next)
    (present : s.callers[c]? = some caller) :
    ∃ later, next.callers[c]? = some later ∧ later.job = caller.job := by
  by_cases impersonal : action.impersonal = true
  · have still := dispatcherStep_noMove impersonal taken
    exact ⟨caller, still.callers ▸ present, rfl⟩
  · cases action with
    | dispatch job guard =>
        simp only [dispatcherStep, dispatch, Option.map_eq_some_iff] at taken
        obtain ⟨handle, _, rfl⟩ := taken
        refine ⟨caller, ?_, rfl⟩
        exact (List.getElem?_append_left (List.getElem?_eq_some_iff.mp present).1).trans present
    | call i event =>
        simp only [dispatcherStep, Option.bind_eq_some_iff] at taken
        obtain ⟨own, there, item, _, taken⟩ := taken
        obtain ⟨later, step⟩ := dispatchEvent_step taken
        by_cases here : i = c
        · subst here
          obtain rfl := Option.some.inj (there.symm.trans present)
          refine ⟨later, ?_, step.job⟩
          rw [step.callers, List.getElem?_set_self (List.getElem?_eq_some_iff.mp there).1]
        · exact ⟨caller, by rw [step.callers, List.getElem?_set_ne here, present], rfl⟩
    | worker i event =>
        simp only [dispatcherStep, Option.bind_eq_some_iff] at taken
        obtain ⟨pc, _, taken⟩ := taken
        obtain ⟨_, step⟩ := workerEvent_depth taken
        exact ⟨caller, step.callers ▸ present, rfl⟩
    | handler i event =>
        simp only [dispatcherStep, Option.bind_eq_some_iff] at taken
        obtain ⟨pc, _, taken⟩ := taken
        obtain ⟨_, step⟩ := handlerEvent_depth taken
        exact ⟨caller, step.callers ▸ present, rfl⟩
    | closer i event =>
        simp only [dispatcherStep, Option.bind_eq_some_iff] at taken
        obtain ⟨pc, _, taken⟩ := taken
        obtain ⟨_, step⟩ := closerEvent_depth taken
        exact ⟨caller, step.callers ▸ present, rfl⟩
    | _ => simp [DispatcherAction.impersonal] at impersonal

theorem handlerItem_checks {pc : HandlerPc} (holds : pc.item = some c)
    (taken : handlerItem s i c caller item pc = some next) : ∃ later,
      next.handlers = s.handlers.set i later ∧
        ∀ claim, later.checks = some claim → pc.checks = some claim := by
  unfold handlerItem at taken
  split at taken
  all_goals
    simp only [HandlerPc.item, Option.some.injEq] at holds
    try subst holds
  next => exact Option.some.inj taken ▸ ⟨_, rfl, fun _ is => is⟩
  next =>
    split at taken
    · exact Option.some.inj taken ▸ ⟨_, rfl, by simp [HandlerPc.checks]⟩
    · exact Option.some.inj taken ▸ ⟨_, rfl, fun _ is => is⟩
  next =>
    rw [← Option.some.inj taken]
    unfold handlerCheck
    repeat' split
    all_goals
      first
      | exact ⟨_, rfl, fun _ is => is⟩
      | exact ⟨_, rfl, by simp [HandlerPc.checks]⟩
  next => split at taken <;> exact Option.some.inj taken ▸ ⟨_, rfl, fun _ is => is⟩
  next =>
    split at taken
    · exact Option.some.inj taken ▸ ⟨_, rfl, fun _ is => is⟩
    · exact Option.some.inj taken ▸ ⟨_, rfl, by simp [HandlerPc.checks]⟩
  next =>
    simp only [handlerClaim, Option.map_eq_some_iff] at taken
    obtain ⟨handle, _, rfl⟩ := taken
    refine ⟨_, rfl, ?_⟩
    split <;> simp [HandlerPc.checks]
  next =>
    simp only [Option.map_eq_some_iff] at taken
    obtain ⟨displaced, _, rfl⟩ := taken
    exact ⟨_, rfl, by simp [HandlerPc.checks]⟩
  next => exact Option.some.inj taken ▸ ⟨_, rfl, by simp [HandlerPc.checks]⟩
  next => exact Option.some.inj taken ▸ ⟨_, rfl, by simp [HandlerPc.checks]⟩
  next => simp at taken

/-- A handler comes to judge a dispatch by taking its item out of the map. -/
theorem handlerEvent_checks {pc : HandlerPc} {event : HandlerEvent}
    (taken : handlerEvent s i pc event = some next) : ∃ later,
      next.handlers = s.handlers.set i later ∧ ∀ claim, later.checks = some claim →
        pc.checks = some claim ∨ event = .step ∧ pc = .dequeued claim.1 ∧
          ∃ handle, s.jobs[claim.1]? = some handle ∧
            s.pending.lookup handle.job.id = some claim.2 := by
  unfold handlerEvent at taken
  split at taken
  · split at taken
    · simp only [Option.map_eq_some_iff] at taken
      obtain ⟨job, _, rfl⟩ := taken
      exact ⟨_, rfl, by simp [HandlerPc.checks]⟩
    · simp at taken
  · split at taken
    · exact Option.some.inj taken ▸ ⟨_, rfl, by simp [HandlerPc.checks]⟩
    · simp at taken
  · split at taken
    next job =>
      simp only [handlerRemove, Option.map_eq_some_iff] at taken
      obtain ⟨handle, submitted, rfl⟩ := taken
      split
      · exact ⟨_, rfl, by simp [HandlerPc.checks]⟩
      next d found =>
        refine ⟨_, rfl, fun claim is => Or.inr ?_⟩
        simp only [HandlerPc.checks, Option.some.injEq] at is
        subst is
        exact ⟨rfl, rfl, handle, submitted, found⟩
    · simp only [Option.bind_eq_some_iff] at taken
      obtain ⟨d, holds, caller, _, item, _, taken⟩ := taken
      obtain ⟨later, handlers, checks⟩ := handlerItem_checks holds taken
      exact ⟨later, handlers, fun claim is => Or.inl (checks claim is)⟩

theorem dispatcherStep_checks {pc : HandlerPc} {claim : Nat × Nat}
    (taken : dispatcherStep cfg s action = some next) (present : next.handlers[i]? = some pc)
    (checks : pc.checks = some claim) :
    (∃ before : HandlerPc, s.handlers[i]? = some before ∧ before.checks = some claim) ∨
      action = .handler i .step ∧ s.handlers[i]? = some (.dequeued claim.1) ∧
        ∃ handle, s.jobs[claim.1]? = some handle ∧
          s.pending.lookup handle.job.id = some claim.2 := by
  by_cases impersonal : action.impersonal = true
  · have still := dispatcherStep_noMove impersonal taken
    rcases handlers_before present still.handlers with before | rfl
    · exact Or.inl ⟨pc, before, checks⟩
    · simp [HandlerPc.checks] at checks
  · cases action with
    | dispatch job guard =>
        simp only [dispatcherStep, dispatch, Option.map_eq_some_iff] at taken
        obtain ⟨handle, _, rfl⟩ := taken
        exact Or.inl ⟨pc, present, checks⟩
    | call j event =>
        simp only [dispatcherStep, Option.bind_eq_some_iff] at taken
        obtain ⟨caller, _, item, _, taken⟩ := taken
        obtain ⟨aside, _⟩ := dispatchEvent_items taken
        exact Or.inl ⟨pc, aside.handlers ▸ present, checks⟩
    | worker j event =>
        simp only [dispatcherStep, Option.bind_eq_some_iff] at taken
        obtain ⟨_, _, taken⟩ := taken
        obtain ⟨_, step⟩ := workerEvent_depth taken
        exact Or.inl ⟨pc, step.handlers ▸ present, checks⟩
    | closer j event =>
        simp only [dispatcherStep, Option.bind_eq_some_iff] at taken
        obtain ⟨_, _, taken⟩ := taken
        obtain ⟨_, step⟩ := closerEvent_depth taken
        exact Or.inl ⟨pc, step.handlers ▸ present, checks⟩
    | handler j event =>
        simp only [dispatcherStep, Option.bind_eq_some_iff] at taken
        obtain ⟨before, there, taken⟩ := taken
        obtain ⟨later, handlers, came⟩ := handlerEvent_checks taken
        rw [handlers] at present
        rcases getElem?_of_set present with ⟨rfl, rfl⟩ | ⟨_, away⟩
        · rcases came claim checks with kept | ⟨rfl, rfl, took⟩
          · exact Or.inl ⟨before, there, kept⟩
          · exact Or.inr ⟨rfl, there, took⟩
        · exact Or.inl ⟨pc, away, checks⟩
    | _ => simp [DispatcherAction.impersonal] at impersonal

theorem PairedWf.step (wf : PairedWf s) (own : OwnEntry s action)
    (taken : dispatcherStep cfg s action = some next) : PairedWf next := by
  refine ⟨wf.reply.step taken, ?_⟩
  intro i pc job c present checks
  have before : ∃ caller, s.callers[c]? = some caller ∧ caller.job = job := by
    rcases dispatcherStep_checks taken present checks with ⟨pc, there, is⟩ | ⟨rfl, there, took⟩
    · exact wf.paired i pc job c there is
    · obtain ⟨handle, submitted, found⟩ := took
      have held : s.holding (.map handle.job.id) = some (c, .live) := by
        simp [holding, found]
      obtain ⟨item, known, _⟩ := wf.reply.taken.owned.held _ c _ held
      have bound := (List.getElem?_eq_some_iff.mp known).1
      rw [wf.reply.taken.owned.aligned] at bound
      refine ⟨s.callers[c], List.getElem?_eq_getElem bound, ?_⟩
      exact own i job c handle _ rfl there submitted found (List.getElem?_eq_getElem bound)
  obtain ⟨caller, there, same⟩ := before
  obtain ⟨later, found, kept⟩ := dispatcherStep_job taken there
  exact ⟨later, found, kept.trans same⟩

theorem PairedWf.initial (cfg : DispatcherConfig T) (now : Nat) :
    PairedWf (DispatcherState.new cfg now) where
  reply := ReplyWf.initial cfg now
  paired := by simp [DispatcherState.new]

/-- A worker judges a dispatch by the flags of its job, whatever it has dequeued. -/
theorem worker_judges {pc : WorkerPc T} {look : Look} (present : s.workers[i]? = some pc)
    (looks : pc.looks = some (look, c)) (called : s.callers[c]? = some caller)
    (known : s.items[c]? = some item) : dispatcherStep cfg s (.worker i .step) =
      some (workerActs s i c item (s.judge item.guard caller.job look)) := by
  cases pc with
  | polling d =>
      simp only [WorkerPc.looks, Option.some.injEq, Prod.mk.injEq] at looks
      obtain ⟨rfl, rfl⟩ := looks
      simp only [dispatcherStep, present, Option.bind_some, workerEvent, WorkerPc.item, called,
        known, workerItem, workerPoll, judge]
      cases item.guard with
      | none => rfl
      | cancelled | cancelledOrClientGone =>
          by_cases cancelled : s.cancelledOf caller.job = true
          · simp [cancelled, workerActs]
          · simp [cancelled, workerActs]
  | pollingPollers d =>
      simp only [WorkerPc.looks, Option.some.injEq, Prod.mk.injEq] at looks
      obtain ⟨rfl, rfl⟩ := looks
      simp only [dispatcherStep, present, Option.bind_some, workerEvent, WorkerPc.item, called,
        known, workerItem, judge]
      by_cases polled : 0 < s.pollersOf caller.job
      · simp [polled, workerActs]
      · simp [polled, workerActs]
  | pollingDeadline d =>
      simp only [WorkerPc.looks, Option.some.injEq, Prod.mk.injEq] at looks
      obtain ⟨rfl, rfl⟩ := looks
      simp only [dispatcherStep, present, Option.bind_some, workerEvent, WorkerPc.item, called,
        known, workerItem, judge]
      by_cases early : s.now < s.deadlineOf caller.job
      · simp [early, workerActs]
      · simp [early, workerActs]
  | _ => simp [WorkerPc.looks] at looks

/-- A handler judges a dispatch by the flags of the job it has dequeued. -/
theorem handler_judges {pc : HandlerPc} {look : Look} (present : s.handlers[i]? = some pc)
    (looks : pc.looks = some (look, c)) (called : s.callers[c]? = some caller)
    (known : s.items[c]? = some item) : ∃ job, pc.checks = some (job, c) ∧
      dispatcherStep cfg s (.handler i .step) =
        some (handlerActs s i job c caller item (s.judge item.guard job look)) := by
  cases pc with
  | checking job d =>
      simp only [HandlerPc.looks, Option.some.injEq, Prod.mk.injEq] at looks
      obtain ⟨rfl, rfl⟩ := looks
      refine ⟨job, rfl, ?_⟩
      simp only [dispatcherStep, present, Option.bind_some, handlerEvent, HandlerPc.item, called,
        known, handlerItem, handlerCheck, judge]
      cases item.guard with
      | none => rfl
      | cancelled | cancelledOrClientGone =>
          by_cases cancelled : s.cancelledOf job = true
          · simp [cancelled, handlerActs]
          · simp [cancelled, handlerActs]
  | checkingPollers job d =>
      simp only [HandlerPc.looks, Option.some.injEq, Prod.mk.injEq] at looks
      obtain ⟨rfl, rfl⟩ := looks
      refine ⟨job, rfl, ?_⟩
      simp only [dispatcherStep, present, Option.bind_some, handlerEvent, HandlerPc.item, called,
        known, handlerItem, judge]
      by_cases polled : 0 < s.pollersOf job
      · simp [polled, handlerActs]
      · simp [polled, handlerActs]
  | checkingDeadline job d =>
      simp only [HandlerPc.looks, Option.some.injEq, Prod.mk.injEq] at looks
      obtain ⟨rfl, rfl⟩ := looks
      refine ⟨job, rfl, ?_⟩
      simp only [dispatcherStep, present, Option.bind_some, handlerEvent, HandlerPc.item, called,
        known, handlerItem, judge]
      by_cases early : s.now < s.deadlineOf job
      · simp [early, handlerActs]
      · simp [early, handlerActs]
  | _ => simp [HandlerPc.looks] at looks

theorem PairedWf.harmless (wf : PairedWf s) : Harmless cfg s where
  worker := fun _ _ _ _ _ _ present looks called known => worker_judges present looks called known
  handler := by
    intro i c pc look caller item present looks called known
    obtain ⟨job, checks, judged⟩ := handler_judges present looks called known
    obtain ⟨own, there, same⟩ := wf.paired i pc job c present checks
    obtain rfl := Option.some.inj (there.symm.trans called)
    rw [judged, same]
  served := by
    intro i job c caller present called
    obtain ⟨own, there, same⟩ := wf.paired i _ job c present rfl
    obtain rfl := Option.some.inj (there.symm.trans called)
    simp [response, present, same]
  idle := by
    intro action job handle next dequeued submitted absent taken
    rcases dequeued with ⟨i, rfl, present⟩ | ⟨i, rfl, present⟩
    · simp only [dispatcherStep, present, Option.bind_some, workerEvent, workerRemove, submitted,
        Option.map_some, absent, Option.some.injEq] at taken
      exact taken ▸ ⟨rfl, rfl, rfl⟩
    · simp only [dispatcherStep, present, Option.bind_some, handlerEvent, handlerRemove, submitted,
        Option.map_some, absent, Option.some.injEq] at taken
      exact taken ▸ ⟨rfl, rfl, rfl⟩

end Steps

section Runs

variable {cfg : DispatcherConfig T} {now : Nat} {actions : List (DispatcherAction T)}
  {s : DispatcherState T}

/-- In a run in which handlers take out only items of the entries they dequeued, every entry of the
queue is harmless to the dispatches it was not made for. -/
theorem tombstones_harmless
    (path : Path (dispatcherStep cfg) OwnEntry (DispatcherState.new cfg now) actions s) :
    Harmless cfg s := by
  have wf : PairedWf s := path.invariant (PairedWf.initial cfg now)
    fun _ _ _ wf own taken => wf.step own taken
  exact wf.harmless

end Runs

def ownEntry (s : DispatcherState T) : DispatcherAction T → Bool
  | .handler i .step => match s.handlers[i]? with
      | some (.dequeued job) => s.jobs[job]?.all fun handle =>
          (s.pending.lookup handle.job.id).all fun c => s.callers[c]?.all fun caller =>
            decide (caller.job = job)
      | _ => true
  | _ => true

theorem ownEntry_sound (s : DispatcherState T) (action : DispatcherAction T)
    (checked : ownEntry s action = true) : OwnEntry s action := by
  rintro i job c handle caller rfl present submitted found called
  simpa [ownEntry, present, submitted, found, called] using checked

namespace Scenario

/-- A job is cancelled in the queue, and another job of the same identifier is queued behind its
entry. -/
def requeued : List (DispatcherAction String) :=
  [.submit (userJob "job"), .dispatch 0 .cancelled] ++ queueUp 0 ++
    [.flag 0 .cancel, .call 0 .step, .call 0 .step, .call 0 .step, .submit (userJob "job"),
      .dispatch 1 .cancelled] ++ queueUp 1

/-- A handler dequeues the entry at `index` and comes to look at the flags. -/
def comesToLook (index : Nat) : List (DispatcherAction String) :=
  [.getWork, .handler 0 (.dequeue index), .handler 0 .step, .handler 0 .step, .handler 0 .step]

end Scenario

open Scenario in
theorem tombstones_harmless_requeued :
    ∃ s, Path (dispatcherStep remotePool) OwnEntry (DispatcherState.new remotePool 0)
        (requeued ++ comesToLook 1) s ∧ s.cancelledOf 0 = true ∧
      dispatcherStep remotePool s (.handler 0 .step) = some (s.setHandler 0 (.claiming 1 1)) := by
  have ran : (run (fun s action => if ownEntry s action then dispatcherStep remotePool s action
      else none) (DispatcherState.new remotePool 0) (requeued ++ comesToLook 1)).any (fun s =>
        decide (s.handlers[0]? = some (.checking 1 1)) && s.cancelledOf 0 &&
        decide (s.cancelledOf 1 = false) && s.callers[1]?.any (fun caller => decide (caller.job = 1))
        && s.items[1]?.any (fun item => decide (item.guard = .cancelled))) = true := by
    decide +kernel
  obtain ⟨s, finished, checked⟩ := (Option.any_eq_true _ _).mp ran
  simp only [Bool.and_eq_true, decide_eq_true_eq] at checked
  obtain ⟨⟨⟨⟨present, stale⟩, own⟩, called⟩, known⟩ := checked
  obtain ⟨caller, called, job⟩ := (Option.any_eq_true _ _).mp called
  obtain ⟨item, known, guard⟩ := (Option.any_eq_true _ _).mp known
  rw [decide_eq_true_eq] at job guard
  have path := Path.of_run_if ownEntry_sound _ _ finished
  have judged := (tombstones_harmless path).handler 0 1 _ .cancelled caller item present rfl called
    known
  simp only [guard, job, judge, own, Bool.false_eq_true, if_false, handlerActs] at judged
  exact ⟨s, path, stale, judged⟩

open Scenario in
theorem tombstone_refuses_other_dispatch :
    ¬ ∀ (cfg : DispatcherConfig String) (now : Nat) (actions : List (DispatcherAction String))
      (s : DispatcherState String),
      Path (dispatcherStep cfg) Always (DispatcherState.new cfg now) actions s →
      Harmless cfg s := by
  intro claim
  have ran : (run (dispatcherStep remotePool) (DispatcherState.new remotePool 0)
      (requeued ++ comesToLook 0)).any (fun s =>
        decide (s.handlers[0]? = some (.checking 0 1)) && s.cancelledOf 0 &&
        decide (s.cancelledOf 1 = false) && s.callers[1]?.any (fun caller => decide (caller.job = 1))
        && s.items[1]?.any (fun item => decide (item.guard = .cancelled))) = true := by
    decide +kernel
  obtain ⟨s, finished, checked⟩ := (Option.any_eq_true _ _).mp ran
  simp only [Bool.and_eq_true, decide_eq_true_eq] at checked
  obtain ⟨⟨⟨⟨present, stale⟩, own⟩, called⟩, known⟩ := checked
  obtain ⟨caller, called, job⟩ := (Option.any_eq_true _ _).mp called
  obtain ⟨item, known, guard⟩ := (Option.any_eq_true _ _).mp known
  rw [decide_eq_true_eq] at job guard
  have harmless := claim remotePool 0 _ s (Path.of_run _ _ finished)
  have judged := harmless.handler 0 1 _ .cancelled caller item present rfl called known
  simp only [guard, job, judge, own, Bool.false_eq_true, if_false, handlerActs] at judged
  have goes : dispatcherStep remotePool s (.handler 0 .step) =
      some (handlerRefuse s 0 1 caller item .cancelled) := by
    simp [dispatcherStep, present, handlerEvent, HandlerPc.item, called, known, handlerItem,
      handlerCheck, guard, stale]
  have same := congrArg DispatcherState.handlers (Option.some.inj (goes.symm.trans judged))
  have bound := (List.getElem?_eq_some_iff.mp present).1
  have here := congrArg (fun handlers : List HandlerPc => handlers[0]?) same
  simp [handlerRefuse, setHandler, put, bound] at here

end BitsBroker
