import BitsBroker.Dispatcher.HandedItems
import BitsBroker.Dispatcher.RemoteResults

/-!
The end of a remote pool. `close` drains the map and then the server is told to stop; the reaper
reads the table shard by shard, drops what it has read and ends. A handler that took its item out of
the map before `close` drained it belongs to neither of the two drains until it has entered its job
into the table. Where no such handler is left for the shard that the reaper reads, the table is empty
when the reaper ends and stays so, and every call returns without a further request of a worker.
-/

namespace BitsBroker

open Transition Table DispatcherState

/-- The dispatcher is closed before the server is told to stop. -/
def ClosedFirst (s : PoolState) (action : PoolAction) : Prop :=
  action = .dispatcher .shutdown → s.dispatcher.Closed

/-- When the reaper reads a shard, no handler is between taking an item out of the map and entering
its job into that shard. -/
def HandedOver (pool : RemotePool) (s : PoolState) (action : PoolAction) : Prop :=
  action = .reaper .step → ∀ (shard : Nat) (ids : List String), s.reaper = .collecting shard ids →
    shard < pool.shards → ∀ (i : Nat) (pc : HandlerPc) (claim : Nat × Nat) (handle : JobHandle),
      s.dispatcher.handlers[i]? = some pc → pc.checks = some claim →
      s.dispatcher.jobs[claim.1]? = some handle → pool.shardOf handle.job.id ≠ shard

section Answers

variable {T : Type} {cfg : DispatcherConfig T} {s next : DispatcherState T} {i c : Nat}
  {caller : Caller T} {item : Item T}

/-- Steps of the calls, of `close`, of the handlers that have a job and of the forwarding tasks. -/
def Inside (c : Nat) (_ : DispatcherState T) : DispatcherAction T → Prop
  | .call i event => i = c ∨ event = .step ∨ event = .reply
  | .closer _ _ | .handler _ .step | .forward _ => True
  | _ => False

/-- The reply channel of the call can be brought to its end from inside. -/
def Ends (cfg : DispatcherConfig T) (c : Nat) (s : DispatcherState T) : Prop :=
  ∃ actions t item, Path (dispatcherStep cfg) (Inside c) s actions t ∧ t.callers = s.callers ∧
    t.pending = s.pending ∧ t.items[c]? = some item ∧ item.reply ≠ .waiting

/-- The call can be brought to its return from inside. -/
def Returns (cfg : DispatcherConfig T) (c : Nat) (s : DispatcherState T) : Prop :=
  ∃ actions t caller exit result, Path (dispatcherStep cfg) (Inside c) s actions t ∧
    t.callers[c]? = some caller ∧ caller.pc = .returned exit result

theorem Ends.back {action : DispatcherAction T} (taken : dispatcherStep cfg s action = some next)
    (permitted : Inside c s action) (callers : next.callers = s.callers)
    (pending : next.pending = s.pending) (ends : Ends cfg c next) : Ends cfg c s := by
  obtain ⟨actions, t, item, path, same, map, known, used⟩ := ends
  exact ⟨action :: actions, t, item, .cons permitted taken path, same.trans callers,
    map.trans pending, known, used⟩

theorem Returns.back {actions : List (DispatcherAction T)} {t : DispatcherState T}
    (path : Path (dispatcherStep cfg) (Inside c) s actions t) (returns : Returns cfg c t) :
    Returns cfg c s := by
  obtain ⟨more, u, caller, exit, result, rest, present, returned⟩ := returns
  exact ⟨actions ++ more, u, caller, exit, result, path.append rest, present, returned⟩

/-- The forwarding task has an outcome to send. -/
theorem ends_of_spawned (present : s.callers[c]? = some caller) (known : s.items[c]? = some item)
    (spawned : item.spawned = true) (settled : item.outcome.settled = true) : Ends cfg c s := by
  have bound := (List.getElem?_eq_some_iff.mp known).1
  cases outcome : item.outcome with
  | unclaimed | waiting => simp [outcome, Outcome.settled] at settled
  | sent value =>
      have taken : dispatcherStep cfg s (.forward c) = some (s.put c item { item with
          spawned := false
          reply := item.reply.send (!caller.gone) .executor (.ok value) }) := by
        simp [dispatcherStep, present, known, forwardOutcome, spawned, outcome]
      exact ⟨[.forward c], _, _, .cons trivial taken .nil, rfl, rfl, List.getElem?_set_self bound,
        Reply.send_ne_waiting _ _ _ _⟩
  | dropped =>
      have taken : dispatcherStep cfg s (.forward c) = some (s.put c item { item with
          spawned := false
          reply := item.reply.send (!caller.gone) .executor
            (.error (.resourceError "worker heartbeat timeout or disconnect")) }) := by
        simp [dispatcherStep, present, known, forwardOutcome, spawned, outcome]
      exact ⟨[.forward c], _, _, .cons trivial taken .nil, rfl, rfl, List.getElem?_set_self bound,
        Reply.send_ne_waiting _ _ _ _⟩

theorem ends_of_spawning (holds : s.handlers[i]? = some (.spawning c))
    (present : s.callers[c]? = some caller) (known : s.items[c]? = some item)
    (settled : item.outcome.settled = true) : Ends cfg c s := by
  have taken : dispatcherStep cfg s (.handler i .step) =
      some ((s.put c item { item with spawned := true }).setHandler i (.leaving c)) := by
    simp [dispatcherStep, holds, handlerEvent, HandlerPc.item, present, known, handlerItem]
  refine .back taken trivial rfl rfl ?_
  exact ends_of_spawned present (List.getElem?_set_self (List.getElem?_eq_some_iff.mp known).1) rfl
    settled

/-- The step of a handler that has overwritten an entry. -/
theorem overwrites_step (cfg : DispatcherConfig T) (wf : HandWf s) {d previous : Nat}
    (holds : s.handlers[i]? = some (.displacing d previous)) : ∃ displaced,
      s.items[previous]? = some displaced ∧ dispatcherStep cfg s (.handler i .step) =
        some ((s.put previous displaced { displaced with outcome := .dropped }).setHandler i
          (.spawning d)) := by
  have held : s.holding (.handler i) = some (d, .live) := by
    rw [holding_handler holds]
    rfl
  obtain ⟨own, ownKnown, _⟩ := wf.reply.taken.owned.held _ d _ held
  obtain ⟨holder, there⟩ : ∃ holder, s.callers[d]? = some holder :=
    ⟨_, List.getElem?_eq_getElem
      (wf.reply.taken.owned.aligned ▸ (List.getElem?_eq_some_iff.mp ownKnown).1)⟩
  have bound := wf.overwritten i _ previous holds rfl
  refine ⟨s.items[previous], List.getElem?_eq_getElem bound, ?_⟩
  simp [dispatcherStep, holds, handlerEvent, HandlerPc.item, there, ownKnown, handlerItem, bound]

theorem ends_of_claimed (wf : HandWf s) {pc : HandlerPc} (holds : s.handlers[i]? = some pc)
    (claimed : pc.claimed = some c) (present : s.callers[c]? = some caller)
    (known : s.items[c]? = some item) (settled : item.outcome.settled = true) : Ends cfg c s := by
  cases pc with
  | displacing d previous =>
      simp only [HandlerPc.claimed, Option.some.injEq] at claimed
      subst claimed
      obtain ⟨displaced, found, taken⟩ := overwrites_step cfg wf holds
      refine .back taken trivial rfl rfl ?_
      have spawning : (s.handlers.set i (.spawning d))[i]? = some (.spawning d) :=
        List.getElem?_set_self (List.getElem?_eq_some_iff.mp holds).1
      by_cases own : previous = d
      · subst own
        exact ends_of_spawning spawning present
          (List.getElem?_set_self (List.getElem?_eq_some_iff.mp found).1) rfl
      · exact ends_of_spawning spawning present ((List.getElem?_set_ne own).trans known) settled
  | spawning d =>
      simp only [HandlerPc.claimed, Option.some.injEq] at claimed
      subst claimed
      exact ends_of_spawning holds present known settled
  | _ => simp [HandlerPc.claimed] at claimed

theorem ends_of_settled (wf : HandWf s) (present : s.callers[c]? = some caller)
    (known : s.items[c]? = some item) (settled : item.outcome.settled = true)
    (forwards : item.spawned = true ∨
      ∃ (i : Nat) (pc : HandlerPc), s.handlers[i]? = some pc ∧ pc.claimed = some c) :
    Ends cfg c s := by
  rcases forwards with spawned | ⟨i, pc, holds, claimed⟩
  · exact ends_of_spawned present known spawned settled
  · exact ends_of_claimed wf holds claimed present known settled

/-- Nobody is left to enter a job into the table. -/
def NoHandover (s : DispatcherState T) : Prop :=
  ∀ (i : Nat) (pc : HandlerPc), s.handlers[i]? = some pc → pc.checks = none

theorem HandWf.forwards (wf : HandWf s) (handed : NoHandover s) (known : s.items[c]? = some item)
    (executed : s.remover c = some .executor) (waiting : item.reply = .waiting) :
    item.spawned = true ∨
      ∃ (i : Nat) (pc : HandlerPc), s.handlers[i]? = some pc ∧ pc.claimed = some c := by
  rcases wf.carried c item known executed waiting with spawned | ⟨i, pc, holds, carries⟩
  · exact Or.inl spawned
  · refine Or.inr ⟨i, pc, holds, ?_⟩
    have unchecked := handed i pc holds
    cases pc <;> simp_all [HandlerPc.carries, HandlerPc.checks, HandlerPc.claimed]

/-- With an empty table the call of an item that an executor took gets its reply. -/
theorem HandWf.ends (wf : HandWf s) (handed : NoHandover s) (empty : s.inProgress = ∅)
    (present : s.callers[c]? = some caller) (known : s.items[c]? = some item)
    (executed : s.remover c = some .executor) : Ends cfg c s := by
  by_cases waiting : item.reply = .waiting
  · have forwards := wf.forwards handed known executed waiting
    cases outcome : item.outcome with
    | sent value => exact ends_of_settled wf present known (by simp [outcome, Outcome.settled]) forwards
    | dropped => exact ends_of_settled wf present known (by simp [outcome, Outcome.settled]) forwards
    | unclaimed =>
        rcases forwards with spawned | ⟨i, pc, holds, claimed⟩
        · exact absurd outcome (wf.spawned c item known spawned)
        · exact absurd outcome (wf.claimed i pc c item holds claimed known)
    | waiting =>
        rcases wf.entered c item known outcome with ⟨jobId, entry, entered, _⟩ | ⟨j, pc, holds, is⟩
        · simp [empty] at entered
        · cases pc with
          | displacing d previous =>
              simp only [HandlerPc.overwrites, Option.some.injEq] at is
              subst is
              obtain ⟨displaced, found, taken⟩ := overwrites_step cfg wf holds
              obtain rfl := Option.some.inj (known.symm.trans found)
              refine .back taken trivial rfl rfl ?_
              refine ends_of_settled (wf.step taken) present
                (List.getElem?_set_self (List.getElem?_eq_some_iff.mp found).1) rfl ?_
              rcases forwards with spawned | claimed
              · exact Or.inl spawned
              · exact Or.inr (exists_of_set claimed holds fun is => is)
          | _ => simp [HandlerPc.overwrites] at is
  · exact ⟨[], s, item, .nil, rfl, rfl, known, waiting⟩

theorem returns_of_used (empty : s.pending = ∅) (present : s.callers[c]? = some caller)
    (known : s.items[c]? = some item) (waits : caller.pc.waits = true)
    (used : item.reply ≠ .waiting) : Returns cfg c s := by
  obtain ⟨actions, t, resting, path, there, rests, items⟩ :=
    rests_of_waits present known (by simp [empty]) waits
  have inside : Path (dispatcherStep cfg) (Inside c) s actions t :=
    path.mono fun _ action own => by rw [own]; exact Or.inl rfl
  have still : t.items[c]? = some item := by rw [items, known]
  have receives : ∃ result, dispatcherStep cfg t (.call c .reply) =
      some (t.setPc c resting (.returned .answered result)) := by
    cases reply : item.reply with
    | waiting => exact absurd reply used
    | dropped => exact ⟨_, receives_of_dropped there still rests reply⟩
    | sent sender value => exact ⟨value, receives_of_resting there still rests reply⟩
  obtain ⟨result, taken⟩ := receives
  refine .back inside ⟨[.call c .reply], _, { resting with pc := .returned .answered result },
    .answered, result, .cons (Or.inl rfl) taken .nil, ?_, rfl⟩
  exact List.getElem?_set_self (List.getElem?_eq_some_iff.mp there).1

theorem HandWf.returns_of_waits (wf : HandWf s) (closed : s.Closed) (handed : NoHandover s)
    (empty : s.inProgress = ∅) (present : s.callers[c]? = some caller)
    (waits : caller.pc.waits = true) : Returns cfg c s := by
  by_cases executed : s.remover c = some .executor
  · obtain ⟨item, known⟩ := wf.reply.taken.owned.item_of present
    obtain ⟨actions, t, changed, path, callers, pending, found, used⟩ :=
      wf.ends handed empty present known executed
    refine .back path (returns_of_used ?_ (callers ▸ present) found waits used)
    rw [pending, (wf.reply.flags closed).2.2.2]
  · obtain ⟨actions, t, last, path, there, returned⟩ :=
      wf.reply.completes_of_waits closed present waits executed
    refine ⟨actions, t, last, _, _, path.mono fun _ action own => ?_, there, returned⟩
    cases action <;> simp_all [Unaided, Inside]

/-- Once the table is empty for good, every call returns. -/
theorem HandWf.returns (wf : HandWf s) (closed : s.Closed) (handed : NoHandover s)
    (empty : s.inProgress = ∅) (present : s.callers[c]? = some caller) :
    caller.pc = .dropped ∨ Returns cfg c s := by
  obtain ⟨item, known⟩ := wf.reply.taken.owned.item_of present
  by_cases waits : caller.pc.waits = true
  · exact Or.inr (wf.returns_of_waits closed handed empty present waits)
  by_cases early : caller.pc.early = true
  · obtain ⟨actions, t, last, error, path, there, returned⟩ :=
      wf.reply.refused_of_early closed present early
    refine Or.inr ⟨actions, t, last, _, _, path.mono fun _ action own => ?_, there, returned⟩
    obtain ⟨event, rfl⟩ := own
    exact Or.inl rfl
  cases pc : caller.pc with
  | returned exit result => exact Or.inr ⟨[], s, caller, exit, result, .nil, present, pc⟩
  | dropped => exact Or.inl rfl
  | displacing d =>
      have held : s.holding (.call c) = some (d, .live) := by
        rw [holding_call present, pc]
        rfl
      obtain ⟨previous, old, _⟩ := wf.reply.taken.owned.held _ d _ held
      have taken : dispatcherStep cfg s (.call c .step) =
          some ((s.put d previous previous.discard).setPc c caller .enqueue) := by
        simp [dispatcherStep, present, known, dispatchEvent, pc, old]
      have there : ((s.put d previous previous.discard).setPc c caller .enqueue).callers[c]? =
          some { caller with pc := .enqueue } :=
        List.getElem?_set_self (List.getElem?_eq_some_iff.mp present).1
      have path : Path (dispatcherStep cfg) (Inside c) s [.call c .step] _ :=
        .cons (Or.inl rfl) taken .nil
      refine Or.inr (.back path ?_)
      exact (wf.step taken).returns_of_waits (Closed.step closed taken) handed empty there rfl
  | discarding error d =>
      have held : s.holding (.call c) = some (d, .live) := by
        rw [holding_call present, pc]
        rfl
      obtain ⟨removed, old, _⟩ := wf.reply.taken.owned.held _ d _ held
      have taken : dispatcherStep cfg s (.call c .step) = some ((s.put d removed
          removed.discard).setPc c caller (.returned .abandoned (.error error))) := by
        simp [dispatcherStep, present, known, dispatchEvent, pc, old]
      refine Or.inr ⟨[.call c .step], _, { caller with pc := .returned .abandoned (.error error) },
        .abandoned, .error error, .cons (Or.inl rfl) taken .nil, ?_, rfl⟩
      exact List.getElem?_set_self (List.getElem?_eq_some_iff.mp present).1
  | _ => simp_all [DispatchPc.waits, DispatchPc.early]

end Answers

/-- Which identifiers may still be entered into the table, by how far the reaper has read it. -/
def ReaperPc.mayEnter (pool : RemotePool) : ReaperPc → String → Prop
  | .collecting shard _, jobId => shard ≤ pool.shardOf jobId
  | .removing _, _ | .ended, _ => False
  | .selecting, _ | .retaining _ _, _ => True

/-- Which identifiers may be in the table. -/
def ReaperPc.mayStay (pool : RemotePool) : ReaperPc → String → Prop
  | .collecting shard ids, jobId => shard ≤ pool.shardOf jobId ∨ jobId ∈ ids
  | .removing ids, jobId => jobId ∈ ids
  | .ended, _ => False
  | .selecting, _ | .retaining _ _, _ => True

/-- The identifiers of the handlers and of the table. -/
structure Within {T : Type} (s : DispatcherState T) (mayEnter mayStay : String → Prop) : Prop where
  enters (i : Nat) (pc : HandlerPc) (claim : Nat × Nat) (handle : JobHandle) :
    s.handlers[i]? = some pc → pc.checks = some claim → s.jobs[claim.1]? = some handle →
    mayEnter handle.job.id
  stays (jobId : String) (entry : InProgressJob) : s.inProgress.lookup jobId = some entry →
    mayStay jobId

section Drain

variable {T : Type} {cfg : DispatcherConfig T} {s next : DispatcherState T}
  {action : DispatcherAction T} {mayEnter mayStay : String → Prop}

theorem Within.enters_step (within_ : Within s mayEnter mayStay) (wf : HandWf s)
    (empty : s.pending = ∅) (frame : Frame s next) (step : HandStep s next) (i : Nat)
    (pc : HandlerPc) (claim : Nat × Nat) (handle : JobHandle)
    (present : next.handlers[i]? = some pc) (checks : pc.checks = some claim)
    (submitted : next.jobs[claim.1]? = some handle) : mayEnter handle.job.id := by
  have kept : ∀ {j : Nat} {before : HandlerPc}, s.handlers[j]? = some before →
      before.checks = some claim → mayEnter handle.job.id := by
    intro j before there is
    obtain ⟨old, known⟩ := wf.submitted j before claim there is
    obtain ⟨later, found, same⟩ := frame.ids _ old known
    obtain rfl := Option.some.inj (found.symm.trans submitted)
    rw [same]
    exact within_.enters j before claim old there is known
  rcases step.handler_cases present with before | ⟨_, came⟩ | ⟨unchecked, _⟩
  · exact kept before checks
  · rcases came claim checks with ⟨before, there, is⟩ | ⟨_, _, _, found⟩
    · exact kept there is
    · simp [empty] at found
  · simp [unchecked] at checks

theorem Within.stays_step (within_ : Within s mayEnter mayStay)
    (enterable : ∀ jobId, mayEnter jobId → mayStay jobId) (step : HandStep s next) (jobId : String)
    (entry : InProgressJob) (found : next.inProgress.lookup jobId = some entry) :
    mayStay jobId := by
  cases step with
  | aside _ table _ _ | passed _ _ _ _ _ _ table _ _ | took _ _ _ _ _ table _ _
  | displaced _ _ _ table _ _ | spawned _ _ _ table _ _ | forwarded _ _ _ table _ _ =>
      exact within_.stays jobId entry (table ▸ found)
  | claimed present submitted _ _ _ table _ _ =>
      rw [table, HashMap.lookup_insert_eq] at found
      split at found
      next same =>
        rw [same]
        exact enterable _ (within_.enters _ _ _ _ present rfl submitted)
      · exact within_.stays jobId entry found
  | beat there _ table _ _ =>
      rw [table, HashMap.lookup_insert_eq] at found
      split at found
      next same =>
        rw [same]
        exact within_.stays _ _ there
      · exact within_.stays jobId entry found
  | settled _ _ _ _ table _ _ =>
      rw [table, HashMap.lookup_erase_eq] at found
      split at found
      · simp at found
      · exact within_.stays jobId entry found

theorem Within.step (within_ : Within s mayEnter mayStay)
    (enterable : ∀ jobId, mayEnter jobId → mayStay jobId) (wf : HandWf s) (closed : s.Closed)
    (taken : dispatcherStep cfg s action = some next) : Within next mayEnter mayStay := by
  have hand := dispatcherStep_hand wf.remote taken
  have frame := (dispatcherStep_claims wf.remote taken).1
  exact ⟨within_.enters_step wf (wf.reply.flags closed).2.2.2 frame hand,
    within_.stays_step enterable hand⟩

theorem Within.path (within_ : Within s mayEnter mayStay)
    (enterable : ∀ jobId, mayEnter jobId → mayStay jobId) (wf : HandWf s) (closed : s.Closed)
    {allowed : DispatcherState T → DispatcherAction T → Prop}
    {actions : List (DispatcherAction T)} {t : DispatcherState T}
    (path : Path (dispatcherStep cfg) allowed s actions t) :
    HandWf t ∧ t.Closed ∧ Within t mayEnter mayStay := by
  induction path with
  | nil => exact ⟨wf, closed, within_⟩
  | snoc _ _ taken ih =>
      obtain ⟨wf, closed, within_⟩ := ih
      exact ⟨wf.step taken, Closed.step closed taken, within_.step enterable wf closed taken⟩

theorem handlerItem_stopping {i c : Nat} {caller : Caller T} {item : Item T} {pc : HandlerPc}
    (taken : handlerItem s i c caller item pc = some next) : next.stopping = s.stopping := by
  unfold handlerItem at taken
  split at taken
  next => exact Option.some.inj taken ▸ rfl
  next => split at taken <;> exact Option.some.inj taken ▸ rfl
  next =>
    rw [← Option.some.inj taken]
    unfold handlerCheck
    repeat' split
    all_goals rfl
  next => split at taken <;> exact Option.some.inj taken ▸ rfl
  next => split at taken <;> exact Option.some.inj taken ▸ rfl
  next =>
    simp only [handlerClaim, Option.map_eq_some_iff] at taken
    obtain ⟨handle, _, rfl⟩ := taken
    rfl
  next =>
    simp only [Option.map_eq_some_iff] at taken
    obtain ⟨displaced, _, rfl⟩ := taken
    rfl
  next => exact Option.some.inj taken ▸ rfl
  next => exact Option.some.inj taken ▸ rfl
  next => simp at taken

theorem handlerEvent_stopping {i : Nat} {pc : HandlerPc} {event : HandlerEvent}
    (taken : handlerEvent s i pc event = some next) : next.stopping = s.stopping := by
  unfold handlerEvent at taken
  split at taken
  · split at taken
    · simp only [Option.map_eq_some_iff] at taken
      obtain ⟨job, _, rfl⟩ := taken
      rfl
    · simp at taken
  · split at taken
    · exact Option.some.inj taken ▸ rfl
    · simp at taken
  · split at taken
    · simp only [handlerRemove, Option.map_eq_some_iff] at taken
      obtain ⟨handle, _, rfl⟩ := taken
      split <;> rfl
    · simp only [Option.bind_eq_some_iff] at taken
      obtain ⟨c, _, caller, _, item, _, taken⟩ := taken
      exact handlerItem_stopping taken

/-- Only the signal stops the server. -/
theorem dispatcherStep_stopping (remote : s.workers = []) (other : action ≠ .shutdown)
    (elsewhere : action.onTable ≠ true) (taken : dispatcherStep cfg s action = some next) :
    next.stopping = s.stopping := by
  cases action with
  | shutdown => exact absurd rfl other
  | heartbeat | complete | evict => exact absurd rfl elsewhere
  | advance | submit | close => exact Option.some.inj taken ▸ rfl
  | flag =>
      simp only [dispatcherStep, Option.map_eq_some_iff] at taken
      obtain ⟨handle, _, rfl⟩ := taken
      rfl
  | dispatch =>
      simp only [dispatcherStep, dispatch, Option.map_eq_some_iff] at taken
      obtain ⟨handle, _, rfl⟩ := taken
      rfl
  | call i event =>
      simp only [dispatcherStep, Option.bind_eq_some_iff] at taken
      obtain ⟨caller, _, item, _, taken⟩ := taken
      exact (dispatchEvent_items taken).1.stopping
  | worker i event => simp [dispatcherStep, remote] at taken
  | lose index =>
      simp only [dispatcherStep] at taken
      split at taken
      · exact Option.some.inj taken ▸ rfl
      · simp at taken
  | getWork =>
      simp only [dispatcherStep] at taken
      split at taken
      · simp at taken
      · exact Option.some.inj taken ▸ rfl
  | handler i event =>
      simp only [dispatcherStep, Option.bind_eq_some_iff] at taken
      obtain ⟨pc, _, taken⟩ := taken
      exact handlerEvent_stopping taken
  | forward c =>
      simp only [dispatcherStep, Option.bind_eq_some_iff, forwardOutcome] at taken
      obtain ⟨caller, _, item, _, taken⟩ := taken
      repeat' split at taken
      all_goals
        first
        | exact Option.some.inj taken ▸ rfl
        | simp at taken
  | closer i event =>
      simp only [dispatcherStep, Option.bind_eq_some_iff] at taken
      obtain ⟨pc, present, taken⟩ := taken
      exact (closerEvent_items present taken).1.stopping

end Drain

structure EndingWf (s : PoolState) : Prop where
  hand : HandWf s.dispatcher
  clock : ReaperClock s
  closed : s.dispatcher.stopping = true → s.dispatcher.Closed

/-- No identifier is where the reaper has passed it by. -/
def Passed (pool : RemotePool) (s : PoolState) : Prop :=
  Within s.dispatcher (s.reaper.mayEnter pool) (s.reaper.mayStay pool)

section Pool

variable {pool : RemotePool} {s next : PoolState} {action : PoolAction}

/-- A step of the pool that is not one of the dispatcher is a run on the table. -/
theorem poolStep_inner (clock : ReaperClock s) (taken : poolStep pool s action = some next) :
    ∃ actions, Path (dispatcherStep pool.dispatcher) Always s.dispatcher actions next.dispatcher := by
  cases action with
  | dispatcher inner =>
      simp only [poolStep] at taken
      split at taken
      · simp at taken
      · simp only [Option.map_eq_some_iff] at taken
        obtain ⟨after, taken, rfl⟩ := taken
        exact ⟨[inner], .cons trivial taken .nil⟩
  | serve request =>
      obtain ⟨actions, path⟩ := poolStep_run clock (fun _ is => by simp at is) taken
      exact ⟨actions, path.mono fun _ _ _ => trivial⟩
  | reaper event =>
      obtain ⟨actions, path⟩ := poolStep_run clock (fun _ is => by simp at is) taken
      exact ⟨actions, path.mono fun _ _ _ => trivial⟩

theorem reaperStep_clock (clock : ReaperClock s) {event : ReaperEvent}
    (taken : reaperStep pool s event = some next) :
    ReaperClock next ∧ next.dispatcher.stopping = s.dispatcher.stopping := by
  simp only [reaperStep] at taken
  repeat' split at taken
  all_goals
    try simp only [Option.some.injEq, reduceCtorEq] at taken
  all_goals subst taken
  next is => exact ⟨⟨by simp, by simp, by simp⟩, rfl⟩
  next is stopping => exact ⟨⟨by simp, fun _ _ _ => stopping, by simp⟩, rfl⟩
  next now shard is _ =>
    have only : TableOnly s.dispatcher (retainShard pool now shard s.dispatcher) :=
      retain_tableOnly _ _ _
    refine ⟨⟨?_, by simp, by simp⟩, only.stopping⟩
    intro later other same
    simp only [ReaperPc.retaining.injEq] at same
    rw [← same.1]
    exact (clock.walks now shard is).trans only.now.ge
  next is _ => exact ⟨⟨by simp, by simp, by simp⟩, rfl⟩
  next is _ => exact ⟨⟨by simp, fun _ _ _ => clock.collects _ _ is, by simp⟩, rfl⟩
  next is _ => exact ⟨⟨by simp, by simp, fun _ _ => clock.collects _ _ is⟩, rfl⟩
  next jobId rest is =>
    have only := settle_tableOnly s.dispatcher jobId .dropped
    exact ⟨⟨by simp, by simp, fun _ _ => only.stopping.trans (clock.drops _ is)⟩, only.stopping⟩
  next is => exact ⟨⟨by simp, by simp, by simp⟩, rfl⟩

theorem HandWf.of_inner {t after : TargetDispatcher} (wf : HandWf t)
    (inner : ∃ actions, Path (dispatcherStep pool.dispatcher) Always t actions after) :
    HandWf after ∧ (t.Closed → after.Closed) := by
  obtain ⟨actions, path⟩ := inner
  refine ⟨path.invariant wf fun _ _ _ wf _ taken => wf.step taken, fun closed => ?_⟩
  exact path.invariant closed fun _ _ _ closed _ taken => Closed.step closed taken

theorem EndingWf.step (wf : EndingWf s) (first : ClosedFirst s action)
    (taken : poolStep pool s action = some next) : EndingWf next := by
  obtain ⟨hand, closed⟩ := wf.hand.of_inner (poolStep_inner wf.clock taken)
  cases action with
  | serve request =>
      simp only [poolStep, Option.some.injEq] at taken
      subst taken
      have only := serve_tableOnly s.dispatcher request
      refine ⟨hand, ⟨?_, ?_, ?_⟩, fun stopping => closed (wf.closed (only.stopping ▸ stopping))⟩
      · exact fun now shard is => (wf.clock.walks now shard is).trans only.now.ge
      · exact fun shard ids is => only.stopping.trans (wf.clock.collects shard ids is)
      · exact fun ids is => only.stopping.trans (wf.clock.drops ids is)
  | reaper event =>
      obtain ⟨clock, same⟩ := reaperStep_clock wf.clock taken
      exact ⟨hand, clock, fun stopping => closed (wf.closed (same ▸ stopping))⟩
  | dispatcher inner =>
      simp only [poolStep] at taken
      split at taken
      · simp at taken
      next elsewhere =>
        simp only [Option.map_eq_some_iff] at taken
        obtain ⟨after, taken, rfl⟩ := taken
        have frame := (dispatcherStep_claims wf.hand.remote taken).1
        refine ⟨hand, ⟨?_, ?_, ?_⟩, fun stopping => ?_⟩
        · exact fun now shard is => (wf.clock.walks now shard is).trans frame.now
        · exact fun shard ids is => frame.stopping (wf.clock.collects shard ids is)
        · exact fun ids is => frame.stopping (wf.clock.drops ids is)
        · by_cases signal : inner = .shutdown
          · subst signal
            exact closed (first rfl)
          · have same := dispatcherStep_stopping wf.hand.remote signal elsewhere taken
            exact closed (wf.closed (same ▸ stopping))

theorem EndingWf.initial (pool : RemotePool) (now : Nat) : EndingWf (PoolState.new pool now) where
  hand := HandWf.initial rfl
  clock := by
    unfold PoolState.new
    split <;> exact ⟨by simp, by simp, by simp⟩
  closed := by simp [PoolState.new, DispatcherState.new]

theorem ReaperPc.stay_of_enter {pc : ReaperPc} (jobId : String) (enters : pc.mayEnter pool jobId) :
    pc.mayStay pool jobId := by
  cases pc with
  | selecting | retaining => trivial
  | collecting shard ids => exact Or.inl enters
  | removing ids => exact enters.elim
  | ended => exact enters

/-- The reaper goes on with a shard or with an identifier. -/
theorem Passed.reaper_step (wf : EndingWf s) (passed : Passed pool s)
    (handed : HandedOver pool s (.reaper .step)) (taken : reaperStep pool s .step = some next) :
    Passed pool next := by
  simp only [reaperStep] at taken
  repeat' split at taken
  all_goals
    try simp only [Option.some.injEq, reduceCtorEq] at taken
  all_goals subst taken
  next => exact ⟨fun _ _ _ _ _ _ _ => trivial, fun _ _ _ => trivial⟩
  next => exact ⟨fun _ _ _ _ _ _ _ => trivial, fun _ _ _ => trivial⟩
  next shard ids is inside =>
    rw [Passed, is] at passed
    refine ⟨?_, ?_⟩
    · intro i pc claim handle present checks submitted
      have ahead : shard ≤ pool.shardOf handle.job.id :=
        passed.enters i pc claim handle present checks submitted
      have other := handed rfl shard ids is inside i pc claim handle present checks submitted
      show shard + 1 ≤ pool.shardOf handle.job.id
      omega
    · intro jobId entry found
      show shard + 1 ≤ pool.shardOf jobId ∨ jobId ∈ ids ++ shardKeys pool s.dispatcher shard
      rcases passed.stays jobId entry found with ahead | read
      · by_cases here : pool.shardOf jobId = shard
        · refine Or.inr (List.mem_append_right _ ?_)
          have inTable : jobId ∈ s.dispatcher.inProgress.keys := by
            apply AList.lookup_isSome.mp
            rw [found]
            rfl
          simp [shardKeys, here, inTable]
        · exact Or.inl (by omega)
      · exact Or.inr (List.mem_append_left _ read)
  next shard ids is beyond =>
    rw [Passed, is] at passed
    refine ⟨?_, ?_⟩
    · intro i pc claim handle present checks submitted
      have ahead : shard ≤ pool.shardOf handle.job.id :=
        passed.enters i pc claim handle present checks submitted
      have sharded := pool.sharded handle.job.id
      omega
    · intro jobId entry found
      rcases passed.stays jobId entry found with ahead | read
      · have sharded := pool.sharded jobId
        omega
      · exact read
  next id rest is =>
    rw [Passed, is] at passed
    have only := settle_tableOnly s.dispatcher id .dropped
    refine ⟨?_, ?_⟩
    · intro i pc claim handle present checks submitted
      exact passed.enters i pc claim handle (only.handlers ▸ present) checks (only.jobs ▸ submitted)
    · intro jobId entry found
      show jobId ∈ rest
      cases settled : settle s.dispatcher id .dropped with
      | some after =>
          rw [settled, Option.getD_some, settle_lookup settled] at found
          split at found
          · simp at found
          next other =>
            have inside : jobId ∈ id :: rest := passed.stays jobId entry found
            exact (List.mem_cons.mp inside).resolve_left other
      | none =>
          rw [settled, Option.getD_none] at found
          have inside : jobId ∈ id :: rest := passed.stays jobId entry found
          refine (List.mem_cons.mp inside).resolve_left ?_
          rintro rfl
          have bound := wf.hand.known jobId entry found
          simp [settle, found, bound] at settled
  next is =>
    rw [Passed, is] at passed
    refine ⟨passed.enters, ?_⟩
    intro jobId entry found
    have read : jobId ∈ ([] : List String) := passed.stays jobId entry found
    simp at read

theorem Passed.step (wf : EndingWf s) (closed : s.dispatcher.Closed) (passed : Passed pool s)
    (handed : HandedOver pool s action) (taken : poolStep pool s action = some next) :
    Passed pool next := by
  obtain ⟨actions, inner⟩ := poolStep_inner wf.clock taken
  obtain ⟨_, _, kept⟩ := Within.path passed ReaperPc.stay_of_enter wf.hand closed inner
  cases action with
  | serve request =>
      simp only [poolStep, Option.some.injEq] at taken
      subst taken
      exact kept
  | dispatcher inner =>
      simp only [poolStep] at taken
      split at taken
      · simp at taken
      · simp only [Option.map_eq_some_iff] at taken
        obtain ⟨after, _, rfl⟩ := taken
        exact kept
  | reaper event =>
      cases event with
      | step => exact Passed.reaper_step wf passed handed taken
      | tick =>
          simp only [poolStep, reaperStep] at taken
          split at taken
          · rw [← Option.some.inj taken]
            exact ⟨fun _ _ _ _ _ _ _ => trivial, fun _ _ _ => trivial⟩
          · simp at taken
      | shutdown =>
          simp only [poolStep, reaperStep] at taken
          split at taken
          · split at taken
            · rw [← Option.some.inj taken]
              exact ⟨fun _ _ _ _ _ _ _ => Nat.zero_le _, fun _ _ _ => Or.inl (Nat.zero_le _)⟩
            · simp at taken
          · simp at taken

/-- The reaper has heard the signal. -/
structure Stopping (pool : RemotePool) (s : PoolState) : Prop where
  wf : EndingWf s
  closed : s.dispatcher.Closed
  passed : Passed pool s

theorem Stopping.step (stopping : Stopping pool s) (first : ClosedFirst s action)
    (handed : HandedOver pool s action) (taken : poolStep pool s action = some next) :
    Stopping pool next where
  wf := stopping.wf.step first taken
  closed := (stopping.wf.hand.of_inner (poolStep_inner stopping.wf.clock taken)).2 stopping.closed
  passed := Passed.step stopping.wf stopping.closed stopping.passed handed taken

/-- The reaper has ended behind an empty table. -/
structure Exited (pool : RemotePool) (s : PoolState) : Prop extends Stopping pool s where
  ended : s.reaper = .ended

theorem Exited.step (exited : Exited pool s) (taken : poolStep pool s action = some next) :
    Exited pool next := by
  have ended : next.reaper = .ended := by
    cases action with
    | serve request =>
        simp only [poolStep, Option.some.injEq] at taken
        exact taken ▸ exited.ended
    | reaper event => cases event <;> simp [poolStep, reaperStep, exited.ended] at taken
    | dispatcher inner =>
        simp only [poolStep] at taken
        split at taken
        · simp at taken
        · simp only [Option.map_eq_some_iff] at taken
          obtain ⟨after, _, rfl⟩ := taken
          exact exited.ended
  refine ⟨exited.toStopping.step (fun _ => exited.closed) ?_ taken, ended⟩
  intro _ shard ids is
  simp [exited.ended] at is

theorem Exited.empty (exited : Exited pool s) :
    s.dispatcher.inProgress = ∅ ∧ NoHandover s.dispatcher := by
  have passed := exited.passed
  rw [Passed, exited.ended] at passed
  refine ⟨?_, ?_⟩
  · apply AList.ext
    rw [AList.empty_entries, List.eq_nil_iff_forall_not_mem]
    intro entry inside
    exact passed.stays entry.1 entry.2 (AList.mem_lookup_iff.mpr inside)
  · intro i pc present
    by_contra handed
    obtain ⟨claim, checks⟩ := Option.ne_none_iff_exists'.mp handed
    obtain ⟨handle, submitted⟩ := exited.wf.hand.submitted i pc claim present checks
    exact passed.enters i pc claim handle present checks submitted

/-- The steps of the dispatcher alone, without a request of a worker. -/
def Unrequested (c : Nat) (s : PoolState) (action : PoolAction) : Prop :=
  ∃ inner, action = .dispatcher inner ∧ Inside c s.dispatcher inner

theorem Returns.unrequested {c : Nat} (returns : Returns pool.dispatcher c s.dispatcher) :
    ∃ actions t caller exit result, Path (poolStep pool) (Unrequested c) s actions t ∧
      t.dispatcher.callers[c]? = some caller ∧ caller.pc = .returned exit result := by
  obtain ⟨actions, t, caller, exit, result, path, present, returned⟩ := returns
  refine ⟨actions.map .dispatcher, { s with dispatcher := t }, caller, exit, result, ?_, present,
    returned⟩
  clear present
  induction path with
  | nil => exact .nil
  | @snoc _ state action next _ inside taken ih =>
      rw [List.map_append]
      refine Path.snoc ih ⟨action, rfl, inside⟩ ?_
      have elsewhere : action.onTable ≠ true := by
        cases action <;> simp_all [Inside, DispatcherAction.onTable]
      simp [poolStep, elsewhere, taken]

end Pool

section Runs

variable {pool : RemotePool} {now : Nat} {s t : PoolState} {before after : List PoolAction}

/-- Once the reaper has ended on the signal, the table is empty for good, and every call returns
without a further request of a worker unless it was dropped. -/
theorem shutdown_leaves_nobody_waiting
    (path : Path (poolStep pool) (fun s action => ClosedFirst s action ∧ HandedOver pool s action)
      (PoolState.new pool now) before s)
    (signalled : PoolAction.reaper .shutdown ∈ before) (exited : s.reaper = .ended)
    (onward : Path (poolStep pool) Always s after t) :
    t.dispatcher.inProgress = ∅ ∧ ∀ (c : Nat) (caller : Caller TargetResult),
      t.dispatcher.callers[c]? = some caller → caller.pc = .dropped ∨
        ∃ actions u last exit result, Path (poolStep pool) (Unrequested c) t actions u ∧
          u.dispatcher.callers[c]? = some last ∧ last.pc = .returned exit result := by
  obtain ⟨early, late, rfl⟩ := List.append_of_mem signalled
  obtain ⟨stopping, begun, first, permitted, taken, rest⟩ := path.split
  have wf : EndingWf stopping := first.invariant (EndingWf.initial pool now)
    fun _ _ _ wf permitted taken => wf.step permitted.1 taken
  have signal : stopping.dispatcher.stopping = true ∧
      begun = { stopping with reaper := .collecting 0 [] } := by
    simp only [poolStep, reaperStep] at taken
    split at taken
    · split at taken
      next stops => exact ⟨stops, (Option.some.inj taken).symm⟩
      · simp at taken
    · simp at taken
  have closed : stopping.dispatcher.Closed := wf.closed signal.1
  have start : Stopping pool begun := by
    refine ⟨wf.step permitted.1 taken, by rw [signal.2]; exact closed, ?_⟩
    rw [signal.2]
    exact ⟨fun _ _ _ _ _ _ _ => Nat.zero_le _, fun _ _ _ => Or.inl (Nat.zero_le _)⟩
  have drained : Stopping pool s := rest.invariant start
    fun _ _ _ stopping permitted taken => stopping.step permitted.1 permitted.2 taken
  have ended : Exited pool t := onward.invariant ⟨drained, exited⟩
    fun _ _ _ exited _ taken => exited.step taken
  obtain ⟨empty, handed⟩ := ended.empty
  refine ⟨empty, fun c caller present => ?_⟩
  rcases ended.wf.hand.returns ended.closed handed empty present with dropped | returns
  · exact Or.inl dropped
  · exact Or.inr returns.unrequested

end Runs

def closedFirst (s : PoolState) : PoolAction → Bool
  | .dispatcher .shutdown => decide (CloserPc.done ∈ s.dispatcher.closers)
  | _ => true

theorem closedFirst_sound (s : PoolState) (action : PoolAction)
    (checked : closedFirst s action = true) : ClosedFirst s action := by
  rintro rfl
  simpa [closedFirst, DispatcherState.Closed] using checked

def handedOver (pool : RemotePool) (s : PoolState) : PoolAction → Bool
  | .reaper .step => match s.reaper with
      | .collecting shard _ => s.dispatcher.handlers.all fun pc =>
          pc.checks.all fun claim => s.dispatcher.jobs[claim.1]?.all fun handle =>
            decide (pool.shardOf handle.job.id ≠ shard)
      | _ => true
  | _ => true

theorem handedOver_sound (pool : RemotePool) (s : PoolState) (action : PoolAction)
    (checked : handedOver pool s action = true) : HandedOver pool s action := by
  rintro rfl shard ids is _ i pc claim handle present checks submitted
  simp only [handedOver, is, List.all_eq_true] at checked
  have own := checked pc (List.mem_of_getElem? present)
  simpa [checks, submitted] using own

namespace Scenario

/-- `close` runs, the server is told to stop, and the reaper drops the claims it knows. -/
def shutDown (claims : Nat) : List PoolAction :=
  let actions : List (DispatcherAction TargetResult) :=
    [.close] ++ List.replicate 5 (.closer 0 .step) ++ [.shutdown]
  actions.map .dispatcher ++ [.reaper .shutdown] ++ List.replicate (3 + claims) (.reaper .step)

/-- A handler has taken the one item out of the map. -/
def takeOne : List PoolAction :=
  let actions : List (DispatcherAction TargetResult) :=
    [.submit (userJob "job"), .dispatch 0 .none] ++ List.replicate 5 (.call 0 .step) ++
      [.getWork, .handler 0 (.dequeue 0), .handler 0 .step]
  actions.map .dispatcher

/-- It goes on and enters the job into the table. -/
def enterOne : List PoolAction := List.replicate 4 (.dispatcher (.handler 0 .step))

end Scenario

open Scenario in
theorem shutdown_leaves_nobody_waiting_claimed :
    ∃ s, Path (poolStep workerPool)
        (fun s action => ClosedFirst s action ∧ HandedOver workerPool s action)
        (PoolState.new workerPool 0) (claimOne ++ shutDown 1) s ∧
      s.reaper = .ended ∧ s.dispatcher.inProgress = ∅ ∧
      ∃ actions u last exit result, Path (poolStep workerPool) (Unrequested 0) s actions u ∧
        u.dispatcher.callers[0]? = some last ∧ last.pc = .returned exit result := by
  have ran : (run (fun s action => if closedFirst s action && handedOver workerPool s action then
      poolStep workerPool s action else none) (PoolState.new workerPool 0)
      (claimOne ++ shutDown 1)).any (fun s => decide (s.reaper = .ended) &&
        s.dispatcher.callers[0]?.any (fun caller => caller.pc.waits)) = true := by decide +kernel
  obtain ⟨s, finished, checked⟩ := (Option.any_eq_true _ _).mp ran
  simp only [Bool.and_eq_true, decide_eq_true_eq] at checked
  obtain ⟨ended, waits⟩ := checked
  obtain ⟨caller, present, waits⟩ := (Option.any_eq_true _ _).mp waits
  have sound : ∀ s action, (closedFirst s action && handedOver workerPool s action) = true →
      ClosedFirst s action ∧ HandedOver workerPool s action := by
    intro s action both
    rw [Bool.and_eq_true] at both
    exact ⟨closedFirst_sound s action both.1, handedOver_sound workerPool s action both.2⟩
  have path := Path.of_run_if sound _ _ finished
  obtain ⟨empty, returns⟩ := shutdown_leaves_nobody_waiting path
    (by simp [shutDown]) ended Path.nil
  refine ⟨s, path, ended, empty, (returns 0 caller present).resolve_left ?_⟩
  intro dropped
  simp [dropped, DispatchPc.waits] at waits

open Scenario in
theorem handler_enters_behind_reaper :
    ¬ ∀ (pool : RemotePool) (now : Nat) (actions : List PoolAction) (s : PoolState),
      Path (poolStep pool) ClosedFirst (PoolState.new pool now) actions s →
      PoolAction.reaper .shutdown ∈ actions → s.reaper = .ended →
      s.dispatcher.inProgress = ∅ := by
  intro claim
  have ran : (run (fun s action => if closedFirst s action then poolStep workerPool s action
      else none) (PoolState.new workerPool 0) (takeOne ++ shutDown 0 ++ enterOne)).any
      (fun s => decide (s.reaper = .ended) &&
        decide (s.dispatcher.inProgress.lookup "job" = some ⟨0, 0⟩)) = true := by decide +kernel
  obtain ⟨s, finished, checked⟩ := (Option.any_eq_true _ _).mp ran
  simp only [Bool.and_eq_true, decide_eq_true_eq] at checked
  have empty := claim workerPool 0 _ s (Path.of_run_if closedFirst_sound _ _ finished)
    (by simp [shutDown]) checked.1
  simp [empty] at checked

end BitsBroker
