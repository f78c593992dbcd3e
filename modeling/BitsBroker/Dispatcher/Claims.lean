import BitsBroker.Dispatcher.RemotePool
import BitsBroker.Dispatcher.Winner

/-!
The way of a job through a remote pool. A handler that took an item out of the pending map
claims it: it enters the in-progress table and waits for an outcome. Whoever removes the
entry settles the outcome, and the task spawned by the handler forwards it to the call.
With distinct identifiers the entry of an identifier is the claim of its one call, so an
outcome is settled at most once and stays as it is.
-/

namespace BitsBroker

open Transition Table DispatcherState

variable {T : Type}

/-- What every step leaves alone. -/
structure Frame (s next : DispatcherState T) : Prop where
  now : s.now ≤ next.now
  stopping : s.stopping = true → next.stopping = true
  workers : next.workers.length = s.workers.length
  ids (job : Nat) (handle : JobHandle) : s.jobs[job]? = some handle →
    ∃ later, next.jobs[job]? = some later ∧ later.job = handle.job

/-- A step of a call, of a worker or of a closer: the handlers and the table stay. -/
structure Aside (s next : DispatcherState T) : Prop where
  now : next.now = s.now
  stopping : next.stopping = s.stopping
  jobs : next.jobs = s.jobs
  handlers : next.handlers = s.handlers
  inProgress : next.inProgress = s.inProgress
  workers : next.workers.length = s.workers.length

theorem Aside.frame {s next : DispatcherState T} (aside : Aside s next) : Frame s next where
  now := aside.now.ge
  stopping := fun stopping => aside.stopping.trans stopping
  workers := aside.workers
  ids := fun _ handle known => ⟨handle, aside.jobs ▸ known, rfl⟩

/-- The items after a step of call `i`: it changes its own before giving it away, and drops one
that it took out of the map. -/
inductive CallItems (s : DispatcherState T) (i : Nat) (caller : Caller T) (item : Item T) :
    List (Item T) → Prop
  | same : CallItems s i caller item s.items
  | own {later : Item T} : caller.pc.early = true → later.outcome = item.outcome →
      later.spawned = item.spawned → CallItems s i caller item (s.items.set i later)
  | dropped {c : Nat} {removed : Item T} : caller.pc.item i = some c →
      caller.pc.early = false → s.items[c]? = some removed →
      CallItems s i caller item (s.items.set c removed.discard)

section Frames

variable {cfg : DispatcherConfig T} {s next : DispatcherState T} {action : DispatcherAction T}
  {i c : Nat} {caller : Caller T} {item : Item T}

theorem refuse_items (early : caller.pc.early = true) (error : ActionError) :
    Aside s (refuse s i caller item error) ∧
      CallItems s i caller item (refuse s i caller item error).items :=
  ⟨⟨rfl, rfl, rfl, rfl, rfl, rfl⟩, .own early rfl rfl⟩

theorem setPc_items (later : Caller T) :
    Aside s { s with callers := s.callers.set i later } ∧
      CallItems s i caller item { s with callers := s.callers.set i later }.items :=
  ⟨⟨rfl, rfl, rfl, rfl, rfl, rfl⟩, .same⟩

theorem dispatchBegun_items (pc : caller.pc = .begun) {event : CallEvent}
    (taken : dispatchBegun cfg s i caller item event = some next) :
    Aside s next ∧ CallItems s i caller item next.items := by
  have early : caller.pc.early = true := by rw [pc]; rfl
  unfold dispatchBegun at taken
  repeat' split at taken
  all_goals
    try simp only [Option.some.injEq, reduceCtorEq] at taken
  all_goals subst taken
  next => exact setPc_items _
  next => exact refuse_items early _
  next => exact refuse_items early _
  next => exact ⟨⟨rfl, rfl, rfl, rfl, rfl, rfl⟩, .own early rfl rfl⟩
  next => exact ⟨⟨rfl, rfl, rfl, rfl, rfl, rfl⟩, .own early rfl rfl⟩
  next => exact refuse_items early _
  next => exact ⟨⟨rfl, rfl, rfl, rfl, rfl, rfl⟩, .own early rfl rfl⟩

theorem dispatchRemove_items (error : ActionError) :
    Aside s (dispatchRemove s i caller error) ∧
      CallItems s i caller item (dispatchRemove s i caller error).items := by
  unfold dispatchRemove
  split
  · exact ⟨⟨rfl, rfl, rfl, rfl, rfl, rfl⟩, .same⟩
  · exact setPc_items _

theorem dispatchReceive_items (taken : dispatchReceive s i caller item = some next) :
    Aside s next ∧ CallItems s i caller item next.items := by
  unfold dispatchReceive at taken
  split at taken
  · simp at taken
  · simp only [Option.some.injEq] at taken
    exact taken ▸ setPc_items _
  · simp only [Option.some.injEq] at taken
    exact taken ▸ setPc_items _

theorem dispatchEvent_items {event : CallEvent}
    (taken : dispatchEvent cfg s i caller item event = some next) :
    Aside s next ∧ CallItems s i caller item next.items := by
  unfold dispatchEvent at taken
  split at taken
  next pc => exact dispatchBegun_items pc taken
  all_goals
    try simp only [Option.some.injEq, Option.map_eq_some_iff, reduceCtorEq] at taken
  next pc =>
    subst taken
    have early : caller.pc.early = true := by rw [pc]; rfl
    unfold dispatchAcquire
    repeat' split
    · exact refuse_items early _
    · exact refuse_items early _
    · exact ⟨⟨rfl, rfl, rfl, rfl, rfl, rfl⟩, .own early rfl rfl⟩
  next pc =>
    subst taken
    have early : caller.pc.early = true := by rw [pc]; rfl
    unfold dispatchBuild
    split
    · exact refuse_items early _
    · exact ⟨⟨rfl, rfl, rfl, rfl, rfl, rfl⟩, .own early rfl rfl⟩
  next pc =>
    subst taken
    have early : caller.pc.early = true := by rw [pc]; rfl
    unfold dispatchInsert
    split
    · exact refuse_items early _
    · exact ⟨⟨rfl, rfl, rfl, rfl, rfl, rfl⟩, .same⟩
  next c pc =>
    obtain ⟨previous, found, rfl⟩ := taken
    exact ⟨⟨rfl, rfl, rfl, rfl, rfl, rfl⟩, .dropped (by rw [pc]; rfl) (by rw [pc]; rfl) found⟩
  next pc =>
    subst taken
    exact ⟨⟨rfl, rfl, rfl, rfl, rfl, rfl⟩, .same⟩
  next pc => exact taken ▸ setPc_items _
  next pc => exact taken ▸ setPc_items _
  next pc => exact taken ▸ setPc_items _
  next error pc =>
    subst taken
    unfold dispatchAbandon
    split
    · split
      · exact dispatchRemove_items _
      · exact setPc_items _
    · exact setPc_items _
    · exact setPc_items _
  next pc =>
    subst taken
    split
    · exact setPc_items _
    · exact dispatchRemove_items _
  next error c pc =>
    obtain ⟨removed, found, rfl⟩ := taken
    exact ⟨⟨rfl, rfl, rfl, rfl, rfl, rfl⟩, .dropped (by rw [pc]; rfl) (by rw [pc]; rfl) found⟩
  next pc => exact taken ▸ setPc_items _
  next pc => exact taken ▸ setPc_items _
  next timer pc => exact dispatchReceive_items taken
  next timer pc =>
    split at taken
    · simp only [Option.some.injEq] at taken
      exact taken ▸ setPc_items _
    · simp at taken
  next deadline pc =>
    split at taken
    · simp only [Option.some.injEq] at taken
      exact taken ▸ setPc_items _
    · simp at taken
  next timer pc => exact taken ▸ setPc_items _
  next pc => exact dispatchReceive_items taken
  next pc => exact taken ▸ setPc_items _

end Frames

/-- The item is in the map or with the executor. -/
def Safe (s : DispatcherState T) (c : Nat) : Prop :=
  s.remover c = some .executor ∨ ∃ jobId, s.pending.lookup jobId = some c

/-- The items after a step that settles and forwards nothing. -/
def Kept (s : DispatcherState T) (items : List (Item T)) (free : Nat → Prop) : Prop :=
  ∀ c later, items[c]? = some later →
    (s.items.length ≤ c ∧ later.outcome = .unclaimed ∧ later.spawned = false) ∨
    ∃ item, s.items[c]? = some item ∧ later.outcome = item.outcome ∧
      later.spawned = item.spawned ∧ (Safe s c → ¬ free c → later.reply = item.reply)

/-- The job and the item of a handler that has not claimed the item. -/
def HandlerPc.checks : HandlerPc → Option (Nat × Nat)
  | .removed job c | .unpermitted job c | .checking job c | .checkingPollers job c
  | .checkingDeadline job c | .claiming job c => some (job, c)
  | _ => none

/-- The handler holds no item, or has only to drop it. -/
def HandlerPc.rests : HandlerPc → Bool
  | .waiting | .dequeued _ | .leaving _ | .done => true
  | _ => false

def Outcome.settled : Outcome T → Bool
  | .sent _ | .dropped => true
  | _ => false

def Outcome.answer : Outcome T → Option (Except ActionError T)
  | .sent value => some (.ok value)
  | .dropped => some (.error (.resourceError "worker heartbeat timeout or disconnect"))
  | _ => none

/-- What a step does to the handlers, the table and the outcomes. -/
inductive ClaimMove (s next : DispatcherState T) (action : DispatcherAction T) : Prop
  | aside : next.handlers = s.handlers → next.inProgress = s.inProgress →
      (WinnerWf s → Kept s next.items (fun _ => False)) → ClaimMove s next action
  | opened : next.handlers = s.handlers ++ [.waiting] → next.inProgress = s.inProgress →
      next.items = s.items → ClaimMove s next action
  | rested {i pc later} : s.handlers[i]? = some pc → next.handlers = s.handlers.set i later →
      later.rests = true → (∀ c, pc ≠ .spawning c) → next.inProgress = s.inProgress →
      Kept s next.items (fun c => ∃ job, pc.checks = some (job, c)) → ClaimMove s next action
  | took {i job handle c} : s.handlers[i]? = some (.dequeued job) → s.jobs[job]? = some handle →
      s.pending.lookup handle.job.id = some c →
      next.handlers = s.handlers.set i (.removed job c) → next.inProgress = s.inProgress →
      next.items = s.items → ClaimMove s next action
  | passed {i pc later claim} : s.handlers[i]? = some pc → pc.checks = some claim →
      later.checks = some claim → next.handlers = s.handlers.set i later →
      next.inProgress = s.inProgress → Kept s next.items (fun _ => False) → ClaimMove s next action
  | claimed {i job handle c item} {later : HandlerPc} : action = .handler i .step →
      s.handlers[i]? = some (.claiming job c) →
      s.jobs[job]? = some handle → s.items[c]? = some item →
      (∃ entry, s.inProgress.lookup handle.job.id = some entry ∧
          later = .displacing c entry.item) ∨
        s.inProgress.lookup handle.job.id = none ∧ later = .spawning c →
      next.handlers = s.handlers.set i later →
      next.inProgress = AList.insert handle.job.id ⟨c, s.now⟩ s.inProgress →
      next.items = s.items.set c { item with outcome := .waiting } → ClaimMove s next action
  | displaced {i c previous : Nat} : s.handlers[i]? = some (.displacing c previous) →
      next.inProgress = s.inProgress → ClaimMove s next action
  | spawned {i c item} : s.handlers[i]? = some (.spawning c) → s.items[c]? = some item →
      next.handlers = s.handlers.set i (.leaving c) → next.inProgress = s.inProgress →
      next.items = s.items.set c { item with spawned := true } → ClaimMove s next action
  | beat {jobId entry} : action = .heartbeat jobId → s.inProgress.lookup jobId = some entry →
      next.handlers = s.handlers →
      next.inProgress = AList.insert jobId { entry with lastHeartbeat := s.now } s.inProgress →
      next.items = s.items → ClaimMove s next action
  | settled {jobId entry item outcome} : action.onTable = true →
      s.inProgress.lookup jobId = some entry →
      s.items[entry.item]? = some item → outcome.settled = true → next.handlers = s.handlers →
      next.inProgress = AList.erase jobId s.inProgress →
      next.items = s.items.set entry.item { item with outcome := outcome } → ClaimMove s next action
  | forwarded {c caller item answer} : s.callers[c]? = some caller → s.items[c]? = some item →
      item.spawned = true → item.outcome.answer = some answer → next.handlers = s.handlers →
      next.inProgress = s.inProgress →
      next.items = s.items.set c { item with
        spawned := false
        reply := item.reply.send (!caller.gone) .executor answer } → ClaimMove s next action

section Inversion

variable {cfg : DispatcherConfig T} {s next : DispatcherState T} {action : DispatcherAction T}
  {i c : Nat} {caller : Caller T} {item : Item T} {free : Nat → Prop}

theorem Kept.same (free : Nat → Prop) : Kept s s.items free :=
  fun _ item known => Or.inr ⟨item, known, rfl, rfl, fun _ _ => rfl⟩

theorem Kept.set {later : Item T} (known : s.items[c]? = some item)
    (outcome : later.outcome = item.outcome) (spawned : later.spawned = item.spawned)
    (reply : Safe s c → ¬ free c → later.reply = item.reply) :
    Kept s (s.items.set c later) free := by
  intro d found present
  rcases getElem?_of_set present with ⟨rfl, rfl⟩ | ⟨_, away⟩
  · exact Or.inr ⟨item, known, outcome, spawned, reply⟩
  · exact Or.inr ⟨found, away, rfl, rfl, fun _ _ => rfl⟩

theorem WinnerWf.removed_of_mapped (wf : WinnerWf s) {jobId : String}
    (found : s.pending.lookup jobId = some c) : s.remover c = none := by
  have held : s.holding (.map jobId) = some (c, .live) := by simp [holding, found]
  obtain ⟨_, _, _, _, unremoved⟩ := wf.named jobId c .live held
  exact unremoved

theorem WinnerWf.not_safe_of_early (wf : WinnerWf s) (present : s.callers[i]? = some caller)
    (known : s.items[i]? = some item) (early : caller.pc.early = true) : ¬ Safe s i := by
  rintro (executed | ⟨jobId, found⟩)
  · have unremoved := ((pcOk_of_early early).mp (wf.pcs i caller item present known)).1
    simp [unremoved] at executed
  · have held : s.holding (.map jobId) = some (i, .live) := by simp [holding, found]
    obtain ⟨other, known, _, given, _⟩ := wf.named jobId i .live held
    obtain rfl := Option.some.inj (present.symm.trans known)
    simp [given_not_early given] at early

/-- An item that its call took back is out of the map. -/
theorem WinnerWf.not_safe_of_held (wf : WinnerWf s) (present : s.callers[i]? = some caller)
    (takes : caller.pc.item i = some c) (late : caller.pc.early = false) : ¬ Safe s c := by
  obtain ⟨item, known, ok⟩ := wf.pcOk present
  cases pc : caller.pc with
  | insert => simp [pc, DispatchPc.early] at late
  | displacing d =>
      rw [pc] at ok
      exact ok.elim
  | discarding error d =>
      simp only [pc, DispatchPc.item, Option.some.injEq] at takes
      subst takes
      rw [pc] at ok
      obtain ⟨rfl, removed⟩ := ok
      rintro (executed | ⟨jobId, found⟩)
      · simp [removed] at executed
      · simp [wf.removed_of_mapped found] at removed
  | _ => simp [pc, DispatchPc.item] at takes

theorem CallItems.kept (wf : WinnerWf s) (present : s.callers[i]? = some caller)
    (known : s.items[i]? = some item) {items : List (Item T)}
    (change : CallItems s i caller item items) : Kept s items (fun _ => False) := by
  cases change with
  | same => exact .same _
  | own early outcome spawned =>
      exact .set known outcome spawned
        fun safe _ => absurd safe (wf.not_safe_of_early present known early)
  | dropped takes late found =>
      exact .set found rfl rfl fun safe _ => absurd safe (wf.not_safe_of_held present takes late)

theorem closerEvent_items {pc : CloserPc} (present : s.closers[i]? = some pc)
    {event : CloserEvent} (taken : closerEvent s i pc event = some next) :
    Aside s next ∧ (WinnerWf s → Kept s next.items (fun _ => False)) := by
  unfold closerEvent at taken
  split at taken
  all_goals
    try simp only [Option.some.injEq, Option.bind_eq_some_iff, Option.map_eq_some_iff,
      reduceCtorEq] at taken
  iterate 3
    next =>
      subst taken
      exact ⟨⟨rfl, rfl, rfl, rfl, rfl, rfl⟩, fun _ => .same _⟩
  next stranded jobId =>
    obtain ⟨c, _, item, known, rfl⟩ := taken
    exact ⟨⟨rfl, rfl, rfl, rfl, rfl, rfl⟩, fun _ => .set known rfl rfl fun _ _ => rfl⟩
  next =>
    split at taken
    · simp only [Option.some.injEq] at taken
      subst taken
      exact ⟨⟨rfl, rfl, rfl, rfl, rfl, rfl⟩, fun _ => .same _⟩
    · simp at taken
  next c rest =>
    obtain ⟨caller, _, item, known, rfl⟩ := taken
    refine ⟨⟨rfl, rfl, rfl, rfl, rfl, rfl⟩, fun wf => .set known rfl rfl ?_⟩
    have stranded : s.Stranded c :=
      ⟨_, List.mem_of_getElem? present, List.mem_cons_self⟩
    have removed := wf.stranded c stranded
    rintro (executed | ⟨jobId, found⟩) _
    · simp [removed] at executed
    · simp [wf.removed_of_mapped found] at removed
  next =>
    subst taken
    exact ⟨⟨rfl, rfl, rfl, rfl, rfl, rfl⟩, fun _ => .same _⟩

theorem Frame.of_same (now : next.now = s.now) (stopping : next.stopping = s.stopping)
    (jobs : next.jobs = s.jobs) (workers : next.workers = s.workers) : Frame s next where
  now := now.ge
  stopping := fun stops => stopping.trans stops
  workers := by rw [workers]
  ids := fun _ handle known => ⟨handle, jobs ▸ known, rfl⟩

theorem handlerItem_claims {pc : HandlerPc} (stepped : action = .handler i .step)
    (present : s.handlers[i]? = some pc)
    (named : s.callers[c]? = some caller) (known : s.items[c]? = some item)
    (holds : pc.item = some c) (taken : handlerItem s i c caller item pc = some next) :
    Frame s next ∧ ClaimMove s next action := by
  have frame : ∀ {t : DispatcherState T}, t.now = s.now → t.stopping = s.stopping →
      t.jobs = s.jobs → t.workers = s.workers → Frame s t := Frame.of_same
  have pass : ∀ {job : Nat} {later : HandlerPc}, pc.checks = some (job, c) →
      later.checks = some (job, c) → Frame s (s.setHandler i later) ∧
        ClaimMove s (s.setHandler i later) action := by
    intro job later before after
    exact ⟨frame rfl rfl rfl rfl, .passed present before after rfl rfl (.same _)⟩
  have refused : ∀ {job : Nat} (error : ActionError), pc.checks = some (job, c) →
      Frame s (handlerRefuse s i c caller item error) ∧
        ClaimMove s (handlerRefuse s i c caller item error) action := by
    intro job error before
    refine ⟨frame rfl rfl rfl rfl, .rested present rfl rfl ?_ rfl
      (.set known rfl rfl fun _ unfree => absurd ⟨job, before⟩ unfree)⟩
    rintro d rfl
    simp [HandlerPc.checks] at before
  cases pc with
  | removed job d =>
      obtain rfl : d = c := by simpa [HandlerPc.item] using holds
      simp only [handlerItem, Option.some.injEq] at taken
      subst taken
      exact ⟨frame rfl rfl rfl rfl,
        .passed present rfl rfl rfl rfl (.set known rfl rfl fun _ _ => rfl)⟩
  | unpermitted job d =>
      obtain rfl : d = c := by simpa [HandlerPc.item] using holds
      simp only [handlerItem] at taken
      split at taken
      · simp only [Option.some.injEq] at taken
        subst taken
        exact ⟨frame rfl rfl rfl rfl, .rested present rfl rfl (by simp) rfl
          (.set known rfl rfl fun _ unfree => absurd ⟨job, rfl⟩ unfree)⟩
      · simp only [Option.some.injEq] at taken
        exact taken ▸ pass rfl rfl
  | checking job d =>
      obtain rfl : d = c := by simpa [HandlerPc.item] using holds
      simp only [handlerItem, Option.some.injEq] at taken
      subst taken
      unfold handlerCheck
      split
      · exact pass rfl rfl
      · split
        · exact refused _ rfl
        · exact pass rfl rfl
      · split
        · exact refused _ rfl
        · exact pass rfl rfl
  | checkingPollers job d =>
      obtain rfl : d = c := by simpa [HandlerPc.item] using holds
      simp only [handlerItem] at taken
      split at taken
      all_goals
        simp only [Option.some.injEq] at taken
        exact taken ▸ pass rfl rfl
  | checkingDeadline job d =>
      obtain rfl : d = c := by simpa [HandlerPc.item] using holds
      simp only [handlerItem] at taken
      split at taken
      · simp only [Option.some.injEq] at taken
        exact taken ▸ pass rfl rfl
      · simp only [Option.some.injEq] at taken
        exact taken ▸ refused _ rfl
  | claiming job d =>
      obtain rfl : d = c := by simpa [HandlerPc.item] using holds
      simp only [handlerItem, handlerClaim, Option.map_eq_some_iff] at taken
      obtain ⟨handle, submitted, rfl⟩ := taken
      refine ⟨frame rfl rfl rfl rfl, ?_⟩
      cases held : s.inProgress.lookup handle.job.id with
      | none => exact .claimed stepped present submitted known (Or.inr ⟨held, rfl⟩) rfl rfl rfl
      | some entry =>
          exact .claimed stepped present submitted known (Or.inl ⟨entry, held, rfl⟩) rfl rfl rfl
  | displacing d previous =>
      simp only [handlerItem, Option.map_eq_some_iff] at taken
      obtain ⟨displaced, _, rfl⟩ := taken
      exact ⟨frame rfl rfl rfl rfl, .displaced present rfl⟩
  | spawning d =>
      obtain rfl : d = c := by simpa [HandlerPc.item] using holds
      simp only [handlerItem, Option.some.injEq] at taken
      subst taken
      exact ⟨frame rfl rfl rfl rfl, .spawned present known rfl rfl rfl⟩
  | leaving d =>
      simp only [handlerItem, Option.some.injEq] at taken
      subst taken
      exact ⟨frame rfl rfl rfl rfl, .rested present rfl rfl (by simp) rfl
        (.set known rfl rfl fun _ _ => rfl)⟩
  | _ => simp [handlerItem] at taken

theorem handlerEvent_claims {pc : HandlerPc} (present : s.handlers[i]? = some pc)
    {event : HandlerEvent} (taken : handlerEvent s i pc event = some next) :
    Frame s next ∧ ClaimMove s next (.handler i event) := by
  unfold handlerEvent at taken
  split at taken
  · split at taken
    · simp only [Option.map_eq_some_iff] at taken
      obtain ⟨job, _, rfl⟩ := taken
      exact ⟨.of_same rfl rfl rfl rfl, .rested present rfl rfl (by simp) rfl (.same _)⟩
    · simp at taken
  · split at taken
    · simp only [Option.some.injEq] at taken
      subst taken
      exact ⟨.of_same rfl rfl rfl rfl, .rested present rfl rfl (by simp) rfl (.same _)⟩
    · simp at taken
  · split at taken
    next job =>
      simp only [handlerRemove, Option.map_eq_some_iff] at taken
      obtain ⟨handle, submitted, rfl⟩ := taken
      split
      · exact ⟨.of_same rfl rfl rfl rfl, .rested present rfl rfl (by simp) rfl (.same _)⟩
      next c found =>
        exact ⟨.of_same rfl rfl rfl rfl, .took present submitted found rfl rfl rfl⟩
    next =>
      simp only [Option.bind_eq_some_iff] at taken
      obtain ⟨c, holds, caller, named, item, known, taken⟩ := taken
      exact handlerItem_claims rfl present named known holds taken

theorem settle_claims {jobId : String} {outcome : Outcome T} (operates : action.onTable = true)
    (ends : outcome.settled = true) (taken : settle s jobId outcome = some next) : Frame s next ∧ ClaimMove s next action := by
  simp only [settle, Option.bind_eq_some_iff, Option.map_eq_some_iff] at taken
  obtain ⟨entry, found, item, known, rfl⟩ := taken
  exact ⟨.of_same rfl rfl rfl rfl, .settled operates found known ends rfl rfl rfl⟩

theorem forwardOutcome_claims (present : s.callers[c]? = some caller)
    (known : s.items[c]? = some item) (taken : forwardOutcome s c caller item = some next) :
    Frame s next ∧ ClaimMove s next action := by
  unfold forwardOutcome at taken
  split at taken
  next spawned =>
    split at taken
    next value is =>
      simp only [Option.some.injEq] at taken
      subst taken
      exact ⟨.of_same rfl rfl rfl rfl,
        .forwarded present known spawned (by rw [is]; rfl) rfl rfl rfl⟩
    next is =>
      simp only [Option.some.injEq] at taken
      subst taken
      exact ⟨.of_same rfl rfl rfl rfl,
        .forwarded present known spawned (by rw [is]; rfl) rfl rfl rfl⟩
    · simp at taken
  · simp at taken

/-- A step of a dispatcher without workers of its own. -/
theorem dispatcherStep_claims (remote : s.workers = [])
    (taken : dispatcherStep cfg s action = some next) : Frame s next ∧ ClaimMove s next action := by
  cases action with
  | advance elapsed =>
      simp only [dispatcherStep, Option.some.injEq] at taken
      subst taken
      exact ⟨⟨Nat.le_add_right _ _, id, rfl, fun _ handle known => ⟨handle, known, rfl⟩⟩,
        .aside rfl rfl fun _ => .same _⟩
  | submit job =>
      simp only [dispatcherStep, Option.some.injEq] at taken
      subst taken
      refine ⟨⟨le_rfl, id, rfl, fun _ handle known => ⟨handle, ?_, rfl⟩⟩, .aside rfl rfl fun _ => .same _⟩
      obtain ⟨bound, _⟩ := List.getElem?_eq_some_iff.mp known
      rw [List.getElem?_append_left bound]
      exact known
  | flag job flag =>
      simp only [dispatcherStep, Option.map_eq_some_iff] at taken
      obtain ⟨handle, known, rfl⟩ := taken
      refine ⟨⟨le_rfl, id, rfl, ?_⟩, .aside rfl rfl fun _ => .same _⟩
      intro other found present
      by_cases here : job = other
      · subst here
        obtain rfl := Option.some.inj (known.symm.trans present)
        refine ⟨handle.set flag, ?_, by cases flag <;> rfl⟩
        exact List.getElem?_set_self (List.getElem?_eq_some_iff.mp known).1
      · exact ⟨found, by simpa [List.getElem?_set_ne here] using present, rfl⟩
  | dispatch job guard =>
      simp only [dispatcherStep, dispatch, Option.map_eq_some_iff] at taken
      obtain ⟨handle, _, rfl⟩ := taken
      refine ⟨.of_same rfl rfl rfl rfl, .aside rfl rfl ?_⟩
      intro _ c later found
      rcases getElem?_of_snoc found with old | ⟨rfl, rfl⟩
      · exact Or.inr ⟨later, old, rfl, rfl, fun _ _ => rfl⟩
      · exact Or.inl ⟨le_rfl, rfl, rfl⟩
  | call i event =>
      simp only [dispatcherStep, Option.bind_eq_some_iff] at taken
      obtain ⟨caller, present, item, known, taken⟩ := taken
      obtain ⟨aside, items⟩ := dispatchEvent_items taken
      exact ⟨aside.frame, .aside aside.handlers aside.inProgress fun wf => items.kept wf present known⟩
  | worker i event => simp [dispatcherStep, remote] at taken
  | lose index =>
      simp only [dispatcherStep] at taken
      split at taken
      · simp only [Option.some.injEq] at taken
        subst taken
        exact ⟨.of_same rfl rfl rfl rfl, .aside rfl rfl fun _ => .same _⟩
      · simp at taken
  | getWork =>
      simp only [dispatcherStep] at taken
      split at taken
      · simp at taken
      · simp only [Option.some.injEq] at taken
        subst taken
        exact ⟨.of_same rfl rfl rfl rfl, .opened rfl rfl rfl⟩
  | handler i event =>
      simp only [dispatcherStep, Option.bind_eq_some_iff] at taken
      obtain ⟨pc, present, taken⟩ := taken
      exact handlerEvent_claims present taken
  | heartbeat jobId =>
      simp only [dispatcherStep, heartbeatJob, Option.map_eq_some_iff] at taken
      obtain ⟨entry, found, rfl⟩ := taken
      exact ⟨.of_same rfl rfl rfl rfl, .beat rfl found rfl rfl rfl⟩
  | complete jobId outcome =>
      simp only [dispatcherStep, completeJob] at taken
      split at taken
      · simp at taken
      · exact settle_claims rfl rfl taken
  | evict jobId =>
      simp only [dispatcherStep, evictJob] at taken
      split at taken
      · simp at taken
      · simp only [Option.bind_eq_some_iff] at taken
        obtain ⟨entry, _, taken⟩ := taken
        split at taken
        · exact settle_claims rfl rfl taken
        · simp at taken
  | forward c =>
      simp only [dispatcherStep, Option.bind_eq_some_iff] at taken
      obtain ⟨caller, present, item, known, taken⟩ := taken
      exact forwardOutcome_claims present known taken
  | shutdown =>
      simp only [dispatcherStep, Option.some.injEq] at taken
      subst taken
      exact ⟨⟨le_rfl, fun _ => rfl, rfl, fun _ handle known => ⟨handle, known, rfl⟩⟩,
        .aside rfl rfl fun _ => .same _⟩
  | close =>
      simp only [dispatcherStep, Option.some.injEq] at taken
      subst taken
      exact ⟨.of_same rfl rfl rfl rfl, .aside rfl rfl fun _ => .same _⟩
  | closer i event =>
      simp only [dispatcherStep, Option.bind_eq_some_iff] at taken
      obtain ⟨pc, present, taken⟩ := taken
      obtain ⟨aside, items⟩ := closerEvent_items present taken
      exact ⟨aside.frame, .aside aside.handlers aside.inProgress items⟩

/-- What a step does to the in-progress table, whatever the identifiers of the jobs. -/
inductive TableStep (s next : DispatcherState T) (action : DispatcherAction T) : Prop
  | same : next.inProgress = s.inProgress → TableStep s next action
  | claimed {i job c : Nat} {handle : JobHandle} : action = .handler i .step →
      s.handlers[i]? = some (.claiming job c) → s.jobs[job]? = some handle →
      next.inProgress = AList.insert handle.job.id ⟨c, s.now⟩ s.inProgress →
      TableStep s next action
  | beat {jobId : String} {entry : InProgressJob} : action = .heartbeat jobId →
      s.inProgress.lookup jobId = some entry →
      next.inProgress = AList.insert jobId { entry with lastHeartbeat := s.now } s.inProgress →
      TableStep s next action
  | settled {jobId : String} : action.onTable = true →
      next.inProgress = AList.erase jobId s.inProgress → TableStep s next action

theorem ClaimMove.table (claim : ClaimMove s next action) : TableStep s next action := by
  cases claim with
  | aside _ table _ | opened _ table _ | rested _ _ _ _ table _ | took _ _ _ _ table _
  | passed _ _ _ _ table _ | displaced _ table | spawned _ _ _ table _
  | forwarded _ _ _ _ _ table _ => exact .same table
  | claimed stepped present submitted _ _ _ table _ => exact .claimed stepped present submitted table
  | beat is found _ table _ => exact .beat is found table
  | settled operates _ _ _ _ table _ => exact .settled operates table

end Inversion

end BitsBroker
