import BitsBroker.Dispatcher.QueueDepth
import BitsBroker.Dispatcher.Waiting

/-!
`close` strands nobody. It raises the closing flag before it drains the map, and an insertion looks
at the flag under the lock of the map, so that nothing enters the map behind the drain. An item that
was in the map is from then on with the executor that took it, with the call that took it back or
displaced it, or with `close`; the last two end its reply channel in one way only.
-/

namespace BitsBroker

open Transition Table DispatcherState

variable {T : Type}

/-- The step leaves the flags alone, and a closed queue takes in nothing. -/
structure SameFlags (s next : DispatcherState T) : Prop where
  closing : next.closing = s.closing
  admission : next.admissionClosed = s.admissionClosed
  closed : next.queueClosed = s.queueClosed
  queue : s.queueClosed = true → next.queue.Sublist s.queue

section Flags

variable {cfg : DispatcherConfig T} {s next : DispatcherState T} {action : DispatcherAction T}
  {i c : Nat} {caller : Caller T} {item : Item T} {jobId : String}

theorem SameFlags.of_queue (closing : next.closing = s.closing)
    (admission : next.admissionClosed = s.admissionClosed)
    (closed : next.queueClosed = s.queueClosed) (queue : next.queue = s.queue) :
    SameFlags s next :=
  ⟨closing, admission, closed, fun _ => queue ▸ List.Sublist.refl _⟩

theorem dispatchRemove_flags (error : ActionError) :
    SameFlags s (dispatchRemove s i caller error) := by
  unfold dispatchRemove
  split <;> exact .of_queue rfl rfl rfl rfl

theorem dispatchReceive_flags (taken : dispatchReceive s i caller item = some next) :
    SameFlags s next := by
  unfold dispatchReceive at taken
  split at taken
  · simp at taken
  all_goals
    simp only [Option.some.injEq] at taken
    exact taken ▸ .of_queue rfl rfl rfl rfl

theorem dispatchBegun_flags {event : CallEvent}
    (taken : dispatchBegun cfg s i caller item event = some next) : SameFlags s next := by
  unfold dispatchBegun at taken
  repeat' split at taken
  all_goals
    try simp only [Option.some.injEq, reduceCtorEq] at taken
  all_goals exact taken ▸ .of_queue rfl rfl rfl rfl

theorem dispatchEvent_flags {event : CallEvent}
    (taken : dispatchEvent cfg s i caller item event = some next) : SameFlags s next := by
  unfold dispatchEvent at taken
  split at taken
  next => exact dispatchBegun_flags taken
  all_goals
    try simp only [Option.some.injEq, Option.map_eq_some_iff, reduceCtorEq] at taken
  next =>
    subst taken
    unfold dispatchAcquire
    repeat' split
    all_goals exact .of_queue rfl rfl rfl rfl
  next =>
    subst taken
    unfold dispatchBuild
    split <;> exact .of_queue rfl rfl rfl rfl
  next =>
    subst taken
    unfold dispatchInsert
    split <;> exact .of_queue rfl rfl rfl rfl
  next =>
    obtain ⟨previous, _, rfl⟩ := taken
    exact .of_queue rfl rfl rfl rfl
  next =>
    subst taken
    refine ⟨rfl, rfl, rfl, fun closed => ?_⟩
    simp [setPc, closed]
  next => exact taken ▸ .of_queue rfl rfl rfl rfl
  next => exact taken ▸ .of_queue rfl rfl rfl rfl
  next => exact taken ▸ .of_queue rfl rfl rfl rfl
  next =>
    subst taken
    unfold dispatchAbandon
    repeat' split
    · exact dispatchRemove_flags _
    all_goals exact .of_queue rfl rfl rfl rfl
  next =>
    subst taken
    split
    · exact .of_queue rfl rfl rfl rfl
    · exact dispatchRemove_flags _
  next =>
    obtain ⟨removed, _, rfl⟩ := taken
    exact .of_queue rfl rfl rfl rfl
  next => exact taken ▸ .of_queue rfl rfl rfl rfl
  next => exact taken ▸ .of_queue rfl rfl rfl rfl
  next => exact dispatchReceive_flags taken
  next =>
    split at taken
    · simp only [Option.some.injEq] at taken
      exact taken ▸ .of_queue rfl rfl rfl rfl
    · simp at taken
  next =>
    split at taken
    · simp only [Option.some.injEq] at taken
      exact taken ▸ .of_queue rfl rfl rfl rfl
    · simp at taken
  next => exact taken ▸ .of_queue rfl rfl rfl rfl
  next => exact dispatchReceive_flags taken
  next => exact taken ▸ .of_queue rfl rfl rfl rfl

theorem workerItem_flags {pc : WorkerPc T} {event : WorkerEvent T}
    (taken : workerItem s i c caller item pc event = some next) : SameFlags s next := by
  unfold workerItem at taken
  split at taken
  next => exact Option.some.inj taken ▸ .of_queue rfl rfl rfl rfl
  next => split at taken <;> exact Option.some.inj taken ▸ .of_queue rfl rfl rfl rfl
  next =>
    rw [← Option.some.inj taken]
    unfold workerPoll
    repeat' split
    all_goals exact .of_queue rfl rfl rfl rfl
  next => split at taken <;> exact Option.some.inj taken ▸ .of_queue rfl rfl rfl rfl
  next => split at taken <;> exact Option.some.inj taken ▸ .of_queue rfl rfl rfl rfl
  next => exact Option.some.inj taken ▸ .of_queue rfl rfl rfl rfl
  next => exact Option.some.inj taken ▸ .of_queue rfl rfl rfl rfl
  next => exact Option.some.inj taken ▸ .of_queue rfl rfl rfl rfl
  next => simp at taken

theorem workerEvent_flags {pc : WorkerPc T} {event : WorkerEvent T}
    (taken : workerEvent s i pc event = some next) : SameFlags s next := by
  unfold workerEvent at taken
  split at taken
  next =>
    simp only [Option.map_eq_some_iff] at taken
    obtain ⟨job, _, rfl⟩ := taken
    exact ⟨rfl, rfl, rfl, fun _ => List.eraseIdx_sublist _ _⟩
  next =>
    split at taken
    · exact Option.some.inj taken ▸ .of_queue rfl rfl rfl rfl
    · simp at taken
  next =>
    simp only [workerRemove, Option.map_eq_some_iff] at taken
    obtain ⟨handle, _, rfl⟩ := taken
    split <;> exact .of_queue rfl rfl rfl rfl
  next =>
    simp only [Option.bind_eq_some_iff] at taken
    obtain ⟨c, _, caller, _, item, _, taken⟩ := taken
    exact workerItem_flags taken

theorem handlerItem_flags {pc : HandlerPc}
    (taken : handlerItem s i c caller item pc = some next) : SameFlags s next := by
  unfold handlerItem at taken
  split at taken
  next => exact Option.some.inj taken ▸ .of_queue rfl rfl rfl rfl
  next => split at taken <;> exact Option.some.inj taken ▸ .of_queue rfl rfl rfl rfl
  next =>
    rw [← Option.some.inj taken]
    unfold handlerCheck
    repeat' split
    all_goals exact .of_queue rfl rfl rfl rfl
  next => split at taken <;> exact Option.some.inj taken ▸ .of_queue rfl rfl rfl rfl
  next => split at taken <;> exact Option.some.inj taken ▸ .of_queue rfl rfl rfl rfl
  next =>
    simp only [handlerClaim, Option.map_eq_some_iff] at taken
    obtain ⟨handle, _, rfl⟩ := taken
    exact .of_queue rfl rfl rfl rfl
  next =>
    simp only [Option.map_eq_some_iff] at taken
    obtain ⟨displaced, _, rfl⟩ := taken
    exact .of_queue rfl rfl rfl rfl
  next => exact Option.some.inj taken ▸ .of_queue rfl rfl rfl rfl
  next => exact Option.some.inj taken ▸ .of_queue rfl rfl rfl rfl
  next => simp at taken

theorem handlerEvent_flags {pc : HandlerPc} {event : HandlerEvent}
    (taken : handlerEvent s i pc event = some next) : SameFlags s next := by
  unfold handlerEvent at taken
  split at taken
  · split at taken
    · simp only [Option.map_eq_some_iff] at taken
      obtain ⟨job, _, rfl⟩ := taken
      exact ⟨rfl, rfl, rfl, fun _ => List.eraseIdx_sublist _ _⟩
    · simp at taken
  · split at taken
    · exact Option.some.inj taken ▸ .of_queue rfl rfl rfl rfl
    · simp at taken
  · split at taken
    · simp only [handlerRemove, Option.map_eq_some_iff] at taken
      obtain ⟨handle, _, rfl⟩ := taken
      split <;> exact .of_queue rfl rfl rfl rfl
    · simp only [Option.bind_eq_some_iff] at taken
      obtain ⟨c, _, caller, _, item, _, taken⟩ := taken
      exact handlerItem_flags taken

theorem settle_flags {outcome : Outcome T} (taken : settle s jobId outcome = some next) :
    SameFlags s next := by
  simp only [settle, Option.bind_eq_some_iff, Option.map_eq_some_iff] at taken
  obtain ⟨entry, _, item, _, rfl⟩ := taken
  exact .of_queue rfl rfl rfl rfl

theorem forwardOutcome_flags (taken : forwardOutcome s c caller item = some next) :
    SameFlags s next := by
  unfold forwardOutcome at taken
  repeat' split at taken
  all_goals
    try simp only [Option.some.injEq, reduceCtorEq] at taken
  all_goals exact taken ▸ .of_queue rfl rfl rfl rfl

/-- Only `close` changes the flags. -/
theorem dispatcherStep_flags (other : ∀ i event, action ≠ .closer i event)
    (taken : dispatcherStep cfg s action = some next) : SameFlags s next := by
  cases action with
  | closer i event => exact absurd rfl (other i event)
  | advance | submit | shutdown | close =>
      exact Option.some.inj taken ▸ .of_queue rfl rfl rfl rfl
  | flag =>
      simp only [dispatcherStep, Option.map_eq_some_iff] at taken
      obtain ⟨handle, _, rfl⟩ := taken
      exact .of_queue rfl rfl rfl rfl
  | dispatch job guard =>
      simp only [dispatcherStep, dispatch, Option.map_eq_some_iff] at taken
      obtain ⟨handle, _, rfl⟩ := taken
      exact .of_queue rfl rfl rfl rfl
  | call i event =>
      simp only [dispatcherStep, Option.bind_eq_some_iff] at taken
      obtain ⟨caller, _, item, _, taken⟩ := taken
      exact dispatchEvent_flags taken
  | worker i event =>
      simp only [dispatcherStep, Option.bind_eq_some_iff] at taken
      obtain ⟨pc, _, taken⟩ := taken
      exact workerEvent_flags taken
  | lose index =>
      simp only [dispatcherStep] at taken
      split at taken
      · exact Option.some.inj taken ▸ ⟨rfl, rfl, rfl, fun _ => List.eraseIdx_sublist _ _⟩
      · simp at taken
  | getWork =>
      simp only [dispatcherStep] at taken
      split at taken
      · simp at taken
      · exact Option.some.inj taken ▸ .of_queue rfl rfl rfl rfl
  | handler i event =>
      simp only [dispatcherStep, Option.bind_eq_some_iff] at taken
      obtain ⟨pc, _, taken⟩ := taken
      exact handlerEvent_flags taken
  | heartbeat jobId =>
      simp only [dispatcherStep, heartbeatJob, Option.map_eq_some_iff] at taken
      obtain ⟨entry, _, rfl⟩ := taken
      exact .of_queue rfl rfl rfl rfl
  | complete jobId outcome =>
      simp only [dispatcherStep, completeJob] at taken
      split at taken
      · simp at taken
      · exact settle_flags taken
  | evict jobId =>
      simp only [dispatcherStep, evictJob] at taken
      split at taken
      · simp at taken
      · simp only [Option.bind_eq_some_iff] at taken
        obtain ⟨entry, _, taken⟩ := taken
        split at taken
        · exact settle_flags taken
        · simp at taken
  | forward c =>
      simp only [dispatcherStep, Option.bind_eq_some_iff] at taken
      obtain ⟨caller, _, item, _, taken⟩ := taken
      exact forwardOutcome_flags taken

end Flags

/-- What a step does to the map. -/
inductive MapStep (s next : DispatcherState T) : Prop
  | same : SameMap s next → MapStep s next
  | takes {jobId : String} {c : Nat} {sender : Remover} : TakesOut s next jobId c sender →
      (sender = .closer → next.Stranded c) → MapStep s next
  | inserted : s.closing = false → next.remover = s.remover → MapStep s next

/-- What a step does to the calls of `close`. -/
inductive ClosersStep (s next : DispatcherState T) : DispatcherAction T → Prop
  | same {action : DispatcherAction T} : next.closers = s.closers → ClosersStep s next action
  | begun {action : DispatcherAction T} : next.closers = s.closers ++ [.begun] →
      ClosersStep s next action
  | stepped {i : Nat} {pc : CloserPc} {event : CloserEvent} : s.closers[i]? = some pc →
      closerEvent s i pc event = some next → ClosersStep s next (.closer i event)

section Map

variable {cfg : DispatcherConfig T} {s next : DispatcherState T} {action : DispatcherAction T}
  {i c : Nat} {caller : Caller T} {item : Item T} {jobId : String}

theorem TakerDepth.mapStep {stage later : TakerStage} (depth : TakerDepth s next stage later) :
    MapStep s next := by
  cases depth with
  | same same | unpermitted same | left same => exact .same same
  | took takes => exact .takes takes (by simp)

theorem ClosingDepth.mapStep {pc later : CloserPc} (present : s.closers[i]? = some pc)
    (step : ClosingDepth s next i pc later) : MapStep s next := by
  have here : later ∈ next.closers := by
    rw [step.closers]
    exact List.mem_set (List.getElem?_eq_some_iff.mp present).1 later
  have depth := step.depth
  cases depth with
  | same same _ _ | collected same | sent same _ => exact .same same
  | drained takes => exact .takes takes fun _ => ⟨_, here, by simp [CloserPc.stranded]⟩

theorem CallDepth.mapStep {event : CallEvent} {pc later : DispatchPc T}
    (depth : CallDepth s next i jobId event pc later) : MapStep s next := by
  cases depth with
  | same same _ _ _ _ | displaced same | enqueued _ same | discarded _ same => exact .same same
  | inserted unclosed _ remover _ => exact .inserted unclosed remover
  | recalled takes _ _ => exact .takes takes (by simp)

theorem dispatcherStep_map (taken : dispatcherStep cfg s action = some next) :
    MapStep s next ∧ ClosersStep s next action := by
  by_cases impersonal : action.impersonal = true
  · have still := dispatcherStep_noMove impersonal taken
    refine ⟨.same still.same, ?_⟩
    rcases still.closers with same | begun
    · exact .same same
    · exact .begun begun
  · cases action with
    | dispatch job guard =>
        simp only [dispatcherStep, dispatch, Option.map_eq_some_iff] at taken
        obtain ⟨handle, _, rfl⟩ := taken
        exact ⟨.same ⟨rfl, rfl⟩, .same rfl⟩
    | call i event =>
        simp only [dispatcherStep, Option.bind_eq_some_iff] at taken
        obtain ⟨caller, _, item, _, taken⟩ := taken
        obtain ⟨_, _, depth⟩ := dispatchEvent_depth taken
        obtain ⟨_, step⟩ := dispatchEvent_step taken
        exact ⟨depth.mapStep, .same step.closers⟩
    | worker i event =>
        simp only [dispatcherStep, Option.bind_eq_some_iff] at taken
        obtain ⟨pc, _, taken⟩ := taken
        obtain ⟨_, step⟩ := workerEvent_depth taken
        exact ⟨step.depth.mapStep, .same step.closers⟩
    | handler i event =>
        simp only [dispatcherStep, Option.bind_eq_some_iff] at taken
        obtain ⟨pc, _, taken⟩ := taken
        obtain ⟨_, step⟩ := handlerEvent_depth taken
        exact ⟨step.depth.mapStep, .same step.closers⟩
    | closer i event =>
        simp only [dispatcherStep, Option.bind_eq_some_iff] at taken
        obtain ⟨pc, present, taken⟩ := taken
        obtain ⟨later, step⟩ := closerEvent_depth taken
        exact ⟨step.mapStep present, .stepped present taken⟩
    | _ => simp [DispatcherAction.impersonal] at impersonal

/-- A closing dispatcher with an empty map keeps it empty. -/
theorem MapStep.empty (step : MapStep s next) (closing : s.closing = true)
    (empty : s.pending = ∅) : next.pending = ∅ := by
  cases step with
  | same same => rw [same.pending, empty]
  | takes takes _ =>
      have found := takes.found
      simp [empty] at found
  | inserted unclosed _ => simp [closing] at unclosed

end Map

/-- What a call of `close` has done so far. -/
def CloserOk (s : DispatcherState T) : CloserPc → Prop
  | .begun => True
  | .flagged => s.closing = true
  | .unadmitting => s.closing = true ∧ s.admissionClosed = true
  | .draining _ => s.closing = true ∧ s.admissionClosed = true ∧ s.queueClosed = true
  | .sending _ | .done =>
      s.closing = true ∧ s.admissionClosed = true ∧ s.queueClosed = true ∧ s.pending = ∅

/-- Every call of `close` has left its mark. -/
def ShutWf (s : DispatcherState T) : Prop := ∀ pc ∈ s.closers, CloserOk s pc

section Shut

variable {cfg : DispatcherConfig T} {s next : DispatcherState T} {action : DispatcherAction T}
  {i : Nat} {pc : CloserPc}

theorem CloserOk.mono (ok : CloserOk s pc) (closing : s.closing = true → next.closing = true)
    (admission : s.admissionClosed = true → next.admissionClosed = true)
    (closed : s.queueClosed = true → next.queueClosed = true)
    (empty : s.closing = true → s.pending = ∅ → next.pending = ∅) : CloserOk next pc := by
  cases pc with
  | begun => trivial
  | flagged => exact closing ok
  | unadmitting => exact ⟨closing ok.1, admission ok.2⟩
  | draining => exact ⟨closing ok.1, admission ok.2.1, closed ok.2.2⟩
  | sending | done =>
      exact ⟨closing ok.1, admission ok.2.1, closed ok.2.2.1, empty ok.1 ok.2.2.2⟩

/-- A call of `close` only raises flags, and each of its stages has its own. -/
theorem closerEvent_ok {event : CloserEvent} (taken : closerEvent s i pc event = some next)
    (ok : CloserOk s pc) : (s.closing = true → next.closing = true) ∧
      (s.admissionClosed = true → next.admissionClosed = true) ∧
      (s.queueClosed = true → next.queueClosed = true) ∧ next.queue = s.queue ∧
      ∃ later, next.closers = s.closers.set i later ∧ CloserOk next later := by
  unfold closerEvent at taken
  split at taken
  all_goals
    try simp only [Option.some.injEq, Option.bind_eq_some_iff, Option.map_eq_some_iff,
      reduceCtorEq] at taken
  next => exact taken ▸ ⟨fun _ => rfl, id, id, rfl, _, rfl, rfl⟩
  next => exact taken ▸ ⟨id, fun _ => rfl, id, rfl, _, rfl, ok, rfl⟩
  next => exact taken ▸ ⟨id, id, fun _ => rfl, rfl, _, rfl, ok.1, ok.2, rfl⟩
  next =>
    obtain ⟨c, found, item, known, rfl⟩ := taken
    exact ⟨id, id, id, rfl, _, rfl, ok⟩
  next =>
    split at taken
    next drained =>
      simp only [Option.some.injEq] at taken
      subst taken
      have empty : s.pending = ∅ := by
        apply AList.ext
        simpa using drained
      exact ⟨id, id, id, rfl, _, rfl, ok.1, ok.2.1, ok.2.2, empty⟩
    · simp at taken
  next =>
    obtain ⟨caller, _, item, known, rfl⟩ := taken
    exact ⟨id, id, id, rfl, _, rfl, ok⟩
  next => exact taken ▸ ⟨id, id, id, rfl, _, rfl, ok⟩

theorem ShutWf.step (shut : ShutWf s) (taken : dispatcherStep cfg s action = some next) :
    ShutWf next := by
  obtain ⟨map, closers⟩ := dispatcherStep_map taken
  by_cases closer : ∃ i event, action = .closer i event
  · obtain ⟨i, event, rfl⟩ := closer
    simp only [dispatcherStep, Option.bind_eq_some_iff] at taken
    obtain ⟨pc, present, taken⟩ := taken
    obtain ⟨closing, admission, closed, _, later, set, ok⟩ :=
      closerEvent_ok taken (shut pc (List.mem_of_getElem? present))
    intro other inside
    rw [set] at inside
    rcases List.mem_or_eq_of_mem_set inside with old | rfl
    · exact (shut other old).mono closing admission closed map.empty
    · exact ok
  · have flags := dispatcherStep_flags (by rintro i event rfl; exact closer ⟨i, event, rfl⟩) taken
    have kept : ∀ pc ∈ s.closers, CloserOk next pc := by
      intro pc inside
      refine (shut pc inside).mono ?_ ?_ ?_ map.empty
      · rw [flags.closing]; exact id
      · rw [flags.admission]; exact id
      · rw [flags.closed]; exact id
    cases closers with
    | same same => rw [ShutWf, same]; exact kept
    | begun begun =>
        intro pc inside
        rw [begun, List.mem_append, List.mem_singleton] at inside
        rcases inside with old | rfl
        · exact kept pc old
        · trivial
    | stepped _ _ => exact absurd ⟨_, _, rfl⟩ closer

end Shut

/-- What a step does to a reply channel. -/
structure ReplyStep (old new : Reply T) : Prop where
  used : old ≠ .waiting → new = old
  sent (sender : Remover) (value : Except ActionError T) : new = .sent sender value →
    old = .sent sender value ∨ sender = .executor ∨ value = .error .closed

/-- Somebody who is to end the reply channel has the item. -/
def InHand (s : DispatcherState T) (c : Nat) : Prop :=
  (∃ jobId, s.holding (.map jobId) = some (c, .live)) ∨
    (∃ i, s.holding (.call i) = some (c, .live)) ∨ s.Stranded c ∨ s.remover c = some .executor

structure ReplyWf (s : DispatcherState T) : Prop where
  taken : TakenWf s
  shut : ShutWf s
  sent (c : Nat) (item : Item T) (sender : Remover) (value : Except ActionError T) :
    s.items[c]? = some item → item.reply = .sent sender value →
    sender = .executor ∨ value = .error .closed
  located (c : Nat) (caller : Caller T) (item : Item T) : s.callers[c]? = some caller →
    s.items[c]? = some item → caller.pc.early = false → item.reply = .waiting → InHand s c
  answered (c : Nat) (caller : Caller T) (item : Item T) (result : Except ActionError T) :
    s.callers[c]? = some caller → s.items[c]? = some item →
    caller.pc = .returned .answered result →
    (∃ sender, item.reply = .sent sender result) ∨ result = .error .closed
  refused (c : Nat) (caller : Caller T) (result : Except ActionError T) :
    s.callers[c]? = some caller → caller.pc = .returned .refused result →
    ∃ error, result = .error error

section Replies

variable {cfg : DispatcherConfig T} {s next : DispatcherState T} {action : DispatcherAction T}
  {i c : Nat} {caller : Caller T} {item : Item T} {phase : WorkPhase}

theorem ReplyStep.refl (reply : Reply T) : ReplyStep reply reply :=
  ⟨fun _ => rfl, fun _ _ sent => Or.inl sent⟩

theorem ReplyStep.drop (reply : Reply T) : ReplyStep reply reply.drop where
  used := by
    intro used
    unfold Reply.drop
    split
    · exact absurd rfl used
    · rfl
  sent := fun _ _ sent => Or.inl (Reply.sent_of_drop sent)

theorem ReplyStep.send (reply : Reply T) {received : Bool} {by_ : Remover}
    {result : Except ActionError T} (fits : by_ = .executor ∨ result = .error .closed) :
    ReplyStep reply (reply.send received by_ result) where
  used := fun used => Reply.send_of_ne used _ _ _
  sent := by
    intro sender value sent
    unfold Reply.send at sent
    repeat' split at sent
    · simp only [Reply.sent.injEq] at sent
      obtain ⟨rfl, rfl⟩ := sent
      exact Or.inr fits
    · simp at sent
    · exact Or.inl sent

theorem Reply.drop_ne_waiting {reply : Reply T} : reply.drop ≠ .waiting := by
  unfold Reply.drop
  split
  · simp
  next other => exact other

theorem HeldStep.reply {kept : Option WorkPhase} {later : Item T}
    (step : HeldStep phase item later kept) : ReplyStep item.reply later.reply := by
  cases step with
  | sent _ => exact .send _ (Or.inl rfl)
  | discarded => exact .drop _
  | _ => exact .refl _

theorem LooseStep.reply {later : Item T} (step : LooseStep s c item later) :
    ReplyStep item.reply later.reply := by
  cases step with
  | settled => exact .refl _
  | forwarded _ => exact .send _ (Or.inl rfl)
  | closed _ => exact .send _ (Or.inr rfl)

/-- The reply channel of an item is that of the same item before the step, or new. -/
theorem Move.reply {later : Item T} (move : Move cfg s next action)
    (known : next.items[c]? = some later) :
    (∃ item, s.items[c]? = some item ∧ ReplyStep item.reply later.reply) ∨
      c = s.items.length ∧ later.reply = .waiting := by
  have updated : ∀ {d : Nat} {item changed : Item T}, s.items[d]? = some item →
      next.items = s.items.set d changed → ReplyStep item.reply changed.reply →
      ∃ item, s.items[c]? = some item ∧ ReplyStep item.reply later.reply := by
    intro d item changed old items step
    rw [items] at known
    rcases getElem?_of_set known with ⟨rfl, rfl⟩ | ⟨_, away⟩
    · exact ⟨item, old, step⟩
    · exact ⟨later, away, .refl _⟩
  cases move with
  | idle _ items _ _ | moved _ _ _ _ _ items _ _ | inserted _ _ _ _ _ items _ _
  | recalled _ _ _ _ _ items _ _ _ _ | taken _ _ _ _ items _ _ _ _ =>
      exact Or.inl ⟨later, items ▸ known, .refl _⟩
  | dispatched _ _ items _ _ =>
      rw [items] at known
      rcases getElem?_of_snoc known with old | ⟨last, rfl⟩
      · exact Or.inl ⟨later, old, .refl _⟩
      · exact Or.inr ⟨last, rfl⟩
  | admitted _ old _ _ _ _ items _ _ _ | acquired _ old _ _ items _ _ | built _ old _ _ items _ _ =>
      exact Or.inl (updated old items (.refl _))
  | refused _ old _ _ _ items _ _ _ _ | displaced _ _ old _ items _ _ _ _
  | abandoned _ _ old _ items _ _ _ _ => exact Or.inl (updated old items (.drop _))
  | held _ _ old step _ items _ _ _ _ _ => exact Or.inl (updated old items step.reply)
  | loose old step _ items _ _ => exact Or.inl (updated old items step.reply)
  | drained _ old _ items _ _ _ _ _ => exact Or.inl (updated old items (.refl _))

theorem ReplyWf.sent_step (wf : ReplyWf s) (move : Move cfg s next action) (c : Nat)
    (item : Item T) (sender : Remover) (value : Except ActionError T)
    (known : next.items[c]? = some item) (sent : item.reply = .sent sender value) :
    sender = .executor ∨ value = .error .closed := by
  rcases move.reply known with ⟨before, old, step⟩ | ⟨_, waiting⟩
  · rcases step.sent sender value sent with was | fits
    · exact wf.sent c before sender value old was
    · exact fits
  · simp [waiting] at sent

/-- How a call comes to have returned. -/
theorem Move.returned {exit : Exit} {result : Except ActionError T} (move : Move cfg s next action)
    (present : next.callers[c]? = some caller) (pc : caller.pc = .returned exit result) :
    s.callers[c]? = some caller ∨ exit = .abandoned ∨
      exit = .refused ∧ (∃ error, result = .error error) ∨
      exit = .answered ∧ next.items = s.items ∧ ∃ item, s.items[c]? = some item ∧
        ((∃ sender, item.reply = .sent sender result) ∨ result = .error .closed) := by
  have updated : ∀ {k : Nat} {later : Caller T}, next.callers = s.callers.set k later →
      s.callers[c]? = some caller ∨ c = k ∧ caller = later := by
    intro k later callers
    rw [callers] at present
    rcases getElem?_of_set present with ⟨same, is⟩ | ⟨_, away⟩
    · exact Or.inr ⟨same, is⟩
    · exact Or.inl away
  cases move with
  | idle _ _ callers _ | taken _ _ _ callers _ _ _ _ _ | held _ _ _ _ callers _ _ _ _ _ _
  | loose _ _ callers _ _ _ | drained _ _ callers _ _ _ _ _ _ => exact Or.inl (callers ▸ present)
  | dispatched _ callers _ _ _ =>
      rw [callers] at present
      rcases getElem?_of_snoc present with old | ⟨_, rfl⟩
      · exact Or.inl old
      · simp at pc
  | @moved _ before _ _ _ _ known step _ callers items _ _ =>
      rcases updated callers with old | ⟨rfl, rfl⟩
      · exact Or.inl old
      · rw [pc] at step
        refine Or.inr (Or.inr (Or.inr ?_))
        generalize before.pc = stage at step
        cases step with
        | waiting _ waits => simp [DispatchPc.waits] at waits
        | answered _ reply => exact ⟨rfl, items, _, known, Or.inl ⟨_, reply⟩⟩
        | unanswered _ reply => exact ⟨rfl, items, _, known, Or.inr rfl⟩
  | admitted _ _ _ _ _ callers _ _ _ _ | acquired _ _ _ callers _ _ _ | built _ _ _ callers _ _ _
  | displaced _ _ _ callers _ _ _ _ _ | recalled _ _ _ _ callers _ _ _ _ _ =>
      rcases updated callers with old | ⟨rfl, rfl⟩
      · exact Or.inl old
      · simp at pc
  | inserted _ _ goes _ callers _ _ _ =>
      rcases updated callers with old | ⟨rfl, rfl⟩
      · exact Or.inl old
      · rcases goes with ⟨d, is, _⟩ | is <;> simp [is] at pc
  | refused _ _ _ ends callers _ _ _ _ _ =>
      rcases updated callers with old | ⟨rfl, rfl⟩
      · exact Or.inl old
      · rcases ends with ⟨error, rfl⟩ | rfl
        · simp only [DispatchPc.returned.injEq] at pc
          exact Or.inr (Or.inr (Or.inl ⟨pc.1.symm, error, pc.2.symm⟩))
        · simp at pc
  | abandoned _ _ _ callers _ _ _ _ _ =>
      rcases updated callers with old | ⟨rfl, rfl⟩
      · exact Or.inl old
      · simp only [DispatchPc.returned.injEq] at pc
        exact Or.inr (Or.inl pc.1.symm)

theorem ReplyWf.answered_step (wf : ReplyWf s) (move : Move cfg s next action) (c : Nat)
    (caller : Caller T) (item : Item T) (result : Except ActionError T)
    (present : next.callers[c]? = some caller) (known : next.items[c]? = some item)
    (pc : caller.pc = .returned .answered result) :
    (∃ sender, item.reply = .sent sender result) ∨ result = .error .closed := by
  rcases move.returned present pc with old | abandoned | ⟨refused, _⟩ | ⟨_, items, found, was, ends⟩
  · rcases move.reply known with ⟨before, there, step⟩ | ⟨last, _⟩
    · rcases wf.answered c caller before result old there pc with ⟨sender, sent⟩ | closed
      · exact Or.inl ⟨sender, by rw [step.used (by simp [sent]), sent]⟩
      · exact Or.inr closed
    · have bound := (List.getElem?_eq_some_iff.mp old).1
      rw [last, wf.taken.owned.aligned] at bound
      omega
  · simp at abandoned
  · simp at refused
  · rw [items, was, Option.some.injEq] at known
    exact known ▸ ends

theorem ReplyWf.refused_step (wf : ReplyWf s) (move : Move cfg s next action) (c : Nat)
    (caller : Caller T) (result : Except ActionError T) (present : next.callers[c]? = some caller)
    (pc : caller.pc = .returned .refused result) : ∃ error, result = .error error := by
  rcases move.returned present pc with old | abandoned | ⟨_, fails⟩ | ⟨answered, _⟩
  · exact wf.refused c caller result old pc
  · simp at abandoned
  · exact fails
  · simp at answered

theorem closerEvent_stranded {pc : CloserPc} {event : CloserEvent}
    (taken : closerEvent s i pc event = some next) (stranded : c ∈ pc.stranded) :
    ∃ later, next.closers = s.closers.set i later ∧
      (c ∈ later.stranded ∨ ∀ item, next.items[c]? = some item → item.reply ≠ .waiting) := by
  unfold closerEvent at taken
  split at taken
  all_goals
    try simp only [Option.some.injEq, Option.bind_eq_some_iff, Option.map_eq_some_iff,
      reduceCtorEq] at taken
  next => simp [CloserPc.stranded] at stranded
  next => simp [CloserPc.stranded] at stranded
  next => simp [CloserPc.stranded] at stranded
  next =>
    obtain ⟨d, found, item, known, rfl⟩ := taken
    refine ⟨_, rfl, Or.inl ?_⟩
    simpa [CloserPc.stranded] using Or.inl stranded
  next =>
    split at taken
    · simp only [Option.some.injEq] at taken
      exact taken ▸ ⟨_, rfl, Or.inl stranded⟩
    · simp at taken
  next d rest =>
    obtain ⟨caller, _, item, known, rfl⟩ := taken
    refine ⟨_, rfl, ?_⟩
    rcases List.mem_cons.mp stranded with rfl | later
    · refine Or.inr fun changed there => ?_
      have bound := (List.getElem?_eq_some_iff.mp known).1
      simp only [setCloser, put, List.getElem?_set_self bound, Option.some.injEq] at there
      rw [← there]
      exact Reply.send_ne_waiting _ _ _ _
    · exact Or.inl later
  next => simp [CloserPc.stranded] at stranded

/-- An item that `close` has drained stays with it until the reply is sent. -/
theorem ClosersStep.stranded (step : ClosersStep s next action) (stranded : s.Stranded c) :
    next.Stranded c ∨ ∀ item, next.items[c]? = some item → item.reply ≠ .waiting := by
  obtain ⟨pc, inside, has⟩ := stranded
  cases step with
  | same same => exact Or.inl ⟨pc, same ▸ inside, has⟩
  | begun begun => exact Or.inl ⟨pc, by rw [begun]; exact List.mem_append_left _ inside, has⟩
  | @stepped i before event present taken =>
      obtain ⟨j, there⟩ := List.mem_iff_getElem?.mp inside
      by_cases same : i = j
      · subst same
        obtain rfl := Option.some.inj (present.symm.trans there)
        obtain ⟨later, closers, has | used⟩ := closerEvent_stranded taken has
        · refine Or.inl ⟨later, ?_, has⟩
          rw [closers]
          exact List.mem_set (List.getElem?_eq_some_iff.mp present).1 later
        · exact Or.inr used
      · obtain ⟨later, depth⟩ := closerEvent_depth taken
        refine Or.inl ⟨pc, ?_, has⟩
        rw [depth.closers]
        exact List.mem_of_getElem? (by rw [List.getElem?_set_ne same]; exact there)

/-- An item that `close` takes out is with it. -/
theorem MapStep.stranded (step : MapStep s next) (unremoved : s.remover c = none)
    (removed : next.remover c = some .closer) : next.Stranded c := by
  cases step with
  | same same => simp [same.remover, unremoved] at removed
  | inserted _ remover => simp [remover, unremoved] at removed
  | @takes _ d sender takes drained =>
      rw [takes.remover] at removed
      by_cases here : c = d
      · subst here
        rw [Function.update_self, Option.some.injEq] at removed
        exact drained removed
      · simp [Function.update_of_ne here, unremoved] at removed

theorem ReplyWf.mapped_step (wf : ReplyWf s) (move : Move cfg s next action)
    (map : MapStep s next) {jobId : String} (mapped : s.holding (.map jobId) = some (c, .live)) :
    InHand next c := by
  have still : next.holding (.map jobId) = s.holding (.map jobId) → InHand next c :=
    fun same => Or.inl ⟨jobId, same.trans mapped⟩
  have only : ∀ {other : String} {d : Nat}, s.holding (.map other) = some (d, .live) →
      jobId = other → c = d := by
    rintro other d held rfl
    exact (Prod.mk.inj (Option.some.inj (mapped.symm.trans held))).1
  cases move with
  | idle _ _ _ holds | dispatched _ _ _ _ holds | moved _ _ _ _ _ _ _ holds
  | admitted _ _ _ _ _ _ _ _ _ holds | acquired _ _ _ _ _ _ holds | loose _ _ _ _ _ holds =>
      exact still (holds _)
  | refused _ _ _ _ _ _ _ _ _ holds | displaced _ _ _ _ _ _ _ _ holds
  | abandoned _ _ _ _ _ _ _ _ holds | built _ _ _ _ _ _ holds =>
      exact still (by rw [holds, if_neg (by simp)])
  | @inserted i before _ _ _ _ _ _ _ _ _ holds =>
      by_cases here : jobId = before.jobId
      · exact Or.inr (Or.inl ⟨i, by rw [holds, if_pos rfl, ← here, mapped]⟩)
      · exact still (by rw [holds, if_neg (by simp), if_neg (by simpa using here)])
  | @recalled i d before _ _ _ _ _ held _ _ _ _ _ holds =>
      by_cases here : jobId = before.jobId
      · exact Or.inr (Or.inl ⟨i, by rw [holds, if_pos rfl, only held here]⟩)
      · exact still (by rw [holds, if_neg (by simp), if_neg (by simpa using here)])
  | @taken p other d _ place _ held _ _ _ remover _ holds =>
      by_cases here : jobId = other
      · refine Or.inr (Or.inr (Or.inr ?_))
        rw [remover, only held here, Function.update_self]
      · refine still ?_
        rw [holds, if_neg (by rcases place with ⟨_, rfl⟩ | ⟨_, rfl⟩ <;> simp),
          if_neg (by simpa using here)]
  | held place _ _ _ _ _ _ _ _ _ holds =>
      exact still (by rw [holds, if_neg (by rcases place with ⟨_, rfl⟩ | ⟨_, rfl⟩ <;> simp)])
  | @drained other d _ _ held _ _ _ _ remover _ _ holds =>
      by_cases here : jobId = other
      · refine Or.inr (Or.inr (Or.inl (map.stranded (wf.taken.mapped jobId c .live mapped) ?_)))
        rw [remover, only held here, Function.update_self]
      · exact still (by rw [holds, if_neg (by simpa using here)])

theorem ReplyWf.called_step (move : Move cfg s next action)
    (present : s.callers[c]? = some caller) (late : caller.pc.early = false)
    (called : s.holding (.call i) = some (c, .live)) (known : next.items[c]? = some item)
    (waiting : item.reply = .waiting) : InHand next c := by
  have ended : ∀ {d : Nat} {old : Item T}, c = d → next.items = s.items.set d old.discard →
      False := by
    rintro d old rfl items
    rw [items] at known
    rcases getElem?_of_set known with ⟨_, rfl⟩ | ⟨different, _⟩
    · exact Reply.drop_ne_waiting waiting
    · exact different rfl
  have still : next.holding (.call i) = s.holding (.call i) → InHand next c :=
    fun same => Or.inr (Or.inl ⟨i, same.trans called⟩)
  have own : ∀ {other : Caller T}, s.callers[i]? = some other → other.pc.item i = some c := by
    intro other there
    rw [holding_call there, Option.map_eq_some_iff] at called
    obtain ⟨d, held, same⟩ := called
    rw [held, (Prod.mk.inj same).1]
  have inserting : ∀ {other : Caller T}, s.callers[i]? = some other → other.pc.early = true →
      False := by
    intro other there early
    have held := own there
    cases pc : other.pc with
    | insert =>
        simp only [pc, DispatchPc.item, Option.some.injEq] at held
        subst held
        obtain rfl := Option.some.inj (present.symm.trans there)
        simp [late] at early
    | begun | acquire | checkClosing => simp [pc, DispatchPc.item] at held
    | _ => simp [pc, DispatchPc.early] at early
  cases move with
  | idle _ _ _ holds | dispatched _ _ _ _ holds | moved _ _ _ _ _ _ _ holds
  | admitted _ _ _ _ _ _ _ _ _ holds | acquired _ _ _ _ _ _ holds | loose _ _ _ _ _ holds =>
      exact still (holds _)
  | @refused k _ _ _ _ there _ early _ _ _ _ _ _ holds =>
      by_cases here : i = k
      · subst here
        exact (inserting there early).elim
      · exact still (by rw [holds, if_neg (by simpa using here)])
  | @built k _ _ _ there _ pc _ _ _ holds =>
      by_cases here : i = k
      · subst here
        exact (inserting there (by rw [pc]; rfl)).elim
      · exact still (by rw [holds, if_neg (by simpa using here)])
  | @inserted k _ _ _ there pc _ _ _ _ _ holds =>
      by_cases here : i = k
      · subst here
        exact (inserting there (by rw [pc]; rfl)).elim
      · exact still (by rw [holds, if_neg (by simpa using here), if_neg (by simp)])
  | @displaced k d _ _ _ there pc _ _ items _ _ _ holds =>
      by_cases here : i = k
      · subst here
        have held := own there
        simp only [pc, DispatchPc.item, Option.some.injEq] at held
        exact (ended held.symm items).elim
      · exact still (by rw [holds, if_neg (by simpa using here)])
  | @abandoned k d _ _ _ _ there pc _ _ items _ _ _ holds =>
      by_cases here : i = k
      · subst here
        have held := own there
        simp only [pc, DispatchPc.item, Option.some.injEq] at held
        exact (ended held.symm items).elim
      · exact still (by rw [holds, if_neg (by simpa using here)])
  | @recalled k d _ _ _ there waits _ _ _ _ _ _ _ holds =>
      by_cases here : i = k
      · subst here
        have held := own there
        simp [DispatchPc.item_of_waits waits] at held
      · exact still (by rw [holds, if_neg (by simpa using here), if_neg (by simp)])
  | taken place _ _ _ _ _ _ _ holds =>
      refine still ?_
      rw [holds, if_neg (by rcases place with ⟨_, rfl⟩ | ⟨_, rfl⟩ <;> simp), if_neg (by simp)]
  | held place _ _ _ _ _ _ _ _ _ holds =>
      exact still (by rw [holds, if_neg (by rcases place with ⟨_, rfl⟩ | ⟨_, rfl⟩ <;> simp)])
  | drained _ _ _ _ _ _ _ _ holds => exact still (by rw [holds, if_neg (by simp)])

/-- The item of a waiting call changes hands, or its reply channel ends. -/
theorem ReplyWf.inHand_step (wf : ReplyWf s) (move : Move cfg s next action) (map : MapStep s next)
    (closers : ClosersStep s next action) (present : s.callers[c]? = some caller)
    (late : caller.pc.early = false) (hand : InHand s c) (known : next.items[c]? = some item)
    (waiting : item.reply = .waiting) : InHand next c := by
  rcases hand with ⟨jobId, mapped⟩ | ⟨i, called⟩ | stranded | executed
  · exact wf.mapped_step move map mapped
  · exact ReplyWf.called_step move present late called known waiting
  · rcases closers.stranded stranded with still | used
    · exact Or.inr (Or.inr (Or.inl still))
    · exact absurd waiting (used item known)
  · exact Or.inr (Or.inr (Or.inr (wf.taken.remover_kept move executed)))

theorem DispatchPc.late_of_waits {pc : DispatchPc T} (waits : pc.waits = true) :
    pc.early = false := by
  cases pc <;> first | rfl | simp [DispatchPc.waits] at waits

/-- A call leaves its early stages by putting its item into the map or with an error. -/
theorem Move.late {later : Caller T} (move : Move cfg s next action)
    (present : next.callers[c]? = some later) (late : later.pc.early = false) :
    (∃ caller, s.callers[c]? = some caller ∧ caller.pc.early = false) ∨
      (∃ jobId, next.holding (.map jobId) = some (c, .live)) ∨
      ∀ item, next.items[c]? = some item → item.reply ≠ .waiting := by
  have updated : ∀ {k : Nat} {other after : Caller T}, s.callers[k]? = some other →
      next.callers = s.callers.set k after →
      (∃ caller, s.callers[c]? = some caller ∧ caller.pc.early = false) ∨
        c = k ∧ later = after := by
    intro k other after found callers
    rw [callers] at present
    rcases getElem?_of_set present with ⟨same, is⟩ | ⟨_, away⟩
    · exact Or.inr ⟨same, is⟩
    · exact Or.inl ⟨later, away, late⟩
  cases move with
  | idle _ _ callers _ | taken _ _ _ callers _ _ _ _ _ | held _ _ _ _ callers _ _ _ _ _ _
  | loose _ _ callers _ _ _ | drained _ _ callers _ _ _ _ _ _ =>
      exact Or.inl ⟨later, callers ▸ present, late⟩
  | dispatched _ callers _ _ _ =>
      rw [callers] at present
      rcases getElem?_of_snoc present with old | ⟨_, rfl⟩
      · exact Or.inl ⟨later, old, late⟩
      · simp [DispatchPc.early] at late
  | moved found _ step _ callers _ _ _ =>
      rcases updated found callers with old | ⟨rfl, rfl⟩
      · exact Or.inl old
      · exact Or.inl ⟨_, found, step.late_before late⟩
  | admitted found _ _ _ _ callers _ _ _ _ | acquired found _ _ callers _ _ _
  | built found _ _ callers _ _ _ =>
      rcases updated found callers with old | ⟨rfl, rfl⟩
      · exact Or.inl old
      · simp [DispatchPc.early] at late
  | refused found _ _ _ callers items _ _ _ _ =>
      rcases updated found callers with old | ⟨rfl, rfl⟩
      · exact Or.inl old
      · refine Or.inr (Or.inr fun item known => ?_)
        rw [items] at known
        rcases getElem?_of_set known with ⟨_, rfl⟩ | ⟨different, _⟩
        · exact Reply.drop_ne_waiting
        · exact absurd rfl different
  | @inserted k before _ _ found _ _ _ callers _ _ holds =>
      rcases updated found callers with old | ⟨rfl, _⟩
      · exact Or.inl old
      · exact Or.inr (Or.inl ⟨before.jobId, by rw [holds, if_neg (by simp), if_pos rfl]⟩)
  | displaced found pc _ callers _ _ _ _ _ | abandoned found pc _ callers _ _ _ _ _ =>
      rcases updated found callers with old | ⟨rfl, _⟩
      · exact Or.inl old
      · exact Or.inl ⟨_, found, by rw [pc]; rfl⟩
  | recalled found waits _ _ callers _ _ _ _ _ =>
      rcases updated found callers with old | ⟨rfl, _⟩
      · exact Or.inl old
      · exact Or.inl ⟨_, found, DispatchPc.late_of_waits waits⟩

theorem ReplyWf.located_step (wf : ReplyWf s) (taken : dispatcherStep cfg s action = some next)
    (c : Nat) (caller : Caller T) (item : Item T) (present : next.callers[c]? = some caller)
    (known : next.items[c]? = some item) (late : caller.pc.early = false)
    (waiting : item.reply = .waiting) : InHand next c := by
  have move := dispatcherStep_move taken
  obtain ⟨map, closers⟩ := dispatcherStep_map taken
  rcases move.late present late with ⟨before, there, was⟩ | mapped | used
  · rcases move.reply known with ⟨old, found, step⟩ | ⟨last, _⟩
    · have waited : old.reply = .waiting := by
        by_contra used
        exact used (step.used used ▸ waiting)
      exact wf.inHand_step move map closers there was (wf.located c before old there found was waited)
        known waiting
    · have bound := (List.getElem?_eq_some_iff.mp there).1
      rw [last, wf.taken.owned.aligned] at bound
      omega
  · exact Or.inl mapped
  · exact absurd waiting (used item known)

theorem ReplyWf.step (wf : ReplyWf s) (taken : dispatcherStep cfg s action = some next) :
    ReplyWf next := by
  have move := dispatcherStep_move taken
  exact ⟨wf.taken.step taken, wf.shut.step taken, wf.sent_step move, wf.located_step taken,
    wf.answered_step move, wf.refused_step move⟩

theorem ReplyWf.initial (cfg : DispatcherConfig T) (now : Nat) :
    ReplyWf (DispatcherState.new cfg now) where
  taken := TakenWf.initial cfg now
  shut := by simp [ShutWf, DispatcherState.new]
  sent := by simp [DispatcherState.new]
  located := by simp [DispatcherState.new]
  answered := by simp [DispatcherState.new]
  refused := by simp [DispatcherState.new]

theorem ReplyWf.of_path {start : DispatcherState T} {actions : List (DispatcherAction T)}
    {allowed : DispatcherState T → DispatcherAction T → Prop} (wf : ReplyWf start)
    (path : Path (dispatcherStep cfg) allowed start actions s) : ReplyWf s :=
  path.invariant wf fun _ _ _ wf _ taken => wf.step taken

end Replies

section AfterClose

variable {cfg : DispatcherConfig T} {s next : DispatcherState T} {action : DispatcherAction T}
  {i c : Nat} {caller : Caller T} {item : Item T}

/-- A call of `close` has returned. -/
def DispatcherState.Closed (s : DispatcherState T) : Prop := CloserPc.done ∈ s.closers

theorem Closed.step (closed : s.Closed) (taken : dispatcherStep cfg s action = some next) :
    next.Closed := by
  obtain ⟨_, closers⟩ := dispatcherStep_map taken
  unfold DispatcherState.Closed at closed ⊢
  cases closers with
  | same same => rw [same]; exact closed
  | begun begun => rw [begun]; exact List.mem_append_left _ closed
  | @stepped i pc event present stepped =>
      obtain ⟨later, depth⟩ := closerEvent_depth stepped
      obtain ⟨j, there⟩ := List.mem_iff_getElem?.mp closed
      have different : i ≠ j := by
        rintro rfl
        obtain rfl := Option.some.inj (present.symm.trans there)
        cases event <;> simp [closerEvent] at stepped
      rw [depth.closers]
      exact List.mem_of_getElem? (by rw [List.getElem?_set_ne different]; exact there)

theorem ReplyWf.flags (wf : ReplyWf s) (closed : s.Closed) : s.closing = true ∧
    s.admissionClosed = true ∧ s.queueClosed = true ∧ s.pending = ∅ :=
  wf.shut _ closed

theorem unmapped (empty : s.pending = ∅) (jobId : String) : s.holding (.map jobId) = none := by
  simp [holding, empty]

/-- With an empty map nobody takes anything out. -/
theorem remover_of_empty (empty : s.pending = ∅) (taken : dispatcherStep cfg s action = some next) :
    next.remover = s.remover := by
  obtain ⟨map, _⟩ := dispatcherStep_map taken
  cases map with
  | same same => exact same.remover
  | takes takes _ =>
      have found := takes.found
      simp [empty] at found
  | inserted _ remover => exact remover

/-- The call has put its item into the map, has not taken an item back and was not dropped
before that. -/
def DispatchPc.inserted : DispatchPc T → Bool
  | .displacing _ | .returned .answered _ | .dropped => true
  | pc => pc.waits

theorem DispatchPc.inserted_of_waits {pc : DispatchPc T} (waits : pc.waits = true) :
    pc.inserted = true := by
  cases pc <;> first | rfl | simp [DispatchPc.waits] at waits

theorem DispatchPc.late_of_inserted {pc : DispatchPc T} (inserted : pc.inserted = true) :
    pc.early = false := by
  cases pc <;> first | rfl | simp [DispatchPc.inserted, DispatchPc.waits] at inserted

/-- Such a call waits on or is answered. -/
theorem inserted_step (empty : s.pending = ∅) (move : Move cfg s next action)
    (present : s.callers[c]? = some caller) (inserted : caller.pc.inserted = true) :
    ∃ later, next.callers[c]? = some later ∧ later.pc.inserted = true := by
  have updated : ∀ {k : Nat} {other later : Caller T}, s.callers[k]? = some other →
      next.callers = s.callers.set k later →
      (other.pc.inserted = true → later.pc.inserted = true) →
      ∃ later, next.callers[c]? = some later ∧ later.pc.inserted = true := by
    intro k other later found callers stays
    by_cases here : k = c
    · subst here
      obtain rfl := Option.some.inj (found.symm.trans present)
      exact ⟨later, by rw [callers, List.getElem?_set_self (List.getElem?_eq_some_iff.mp found).1],
        stays inserted⟩
    · exact ⟨caller, by rw [callers, List.getElem?_set_ne here, present], inserted⟩
  cases move with
  | idle _ _ callers _ | taken _ _ _ callers _ _ _ _ _ | held _ _ _ _ callers _ _ _ _ _ _
  | loose _ _ callers _ _ _ | drained _ _ callers _ _ _ _ _ _ =>
      exact ⟨caller, by rw [callers, present], inserted⟩
  | dispatched _ callers _ _ _ =>
      refine ⟨caller, ?_, inserted⟩
      rw [callers, List.getElem?_append_left (List.getElem?_eq_some_iff.mp present).1, present]
  | @moved _ before later _ _ found _ step _ callers _ _ _ =>
      refine updated found callers fun was => ?_
      generalize before.pc = pc at step was
      generalize later.pc = arrived at step
      cases step with
      | unlimited _ => simp [DispatchPc.inserted, DispatchPc.waits] at was
      | waiting _ after => exact DispatchPc.inserted_of_waits after
      | answered _ _ | unanswered _ _ | dropped _ => rfl
  | admitted found _ pc _ _ callers _ _ _ _ | acquired found _ pc callers _ _ _
  | built found _ pc callers _ _ _ =>
      exact updated found callers fun was => by simp [pc, DispatchPc.inserted, DispatchPc.waits] at was
  | inserted found pc _ _ callers _ _ _ =>
      exact updated found callers fun was => by simp [pc, DispatchPc.inserted, DispatchPc.waits] at was
  | @refused _ before _ _ _ found _ early _ callers _ _ _ _ _ =>
      exact updated found callers fun was => by simp [DispatchPc.late_of_inserted was] at early
  | displaced found _ _ callers _ _ _ _ _ => exact updated found callers fun _ => rfl
  | recalled _ _ _ held _ _ _ _ _ _ => simp [unmapped empty] at held
  | abandoned found pc _ callers _ _ _ _ _ =>
      exact updated found callers fun was => by simp [pc, DispatchPc.inserted, DispatchPc.waits] at was

/-- Steps of the calls and of `close`, without any executor. -/
def Unaided (_ : DispatcherState T) : DispatcherAction T → Prop
  | .call _ event => event = .step ∨ event = .reply
  | .closer _ _ => True
  | _ => False

/-- The calls and `close` can go on until the call returns. -/
def Completes (cfg : DispatcherConfig T) (c : Nat) (s : DispatcherState T)
    (result : Except ActionError T) : Prop :=
  ∃ actions t caller, Path (dispatcherStep cfg) Unaided s actions t ∧
    t.callers[c]? = some caller ∧ caller.pc = .returned .answered result

theorem Completes.back {t : DispatcherState T} {actions : List (DispatcherAction T)}
    {result : Except ActionError T} (path : Path (dispatcherStep cfg) Unaided s actions t)
    (completes : Completes cfg c t result) : Completes cfg c s result := by
  obtain ⟨more, u, caller, rest, present, returned⟩ := completes
  exact ⟨actions ++ more, u, caller, path.append rest, present, returned⟩

/-- A call at rest learns that its reply sender is gone. -/
theorem receives_of_dropped (present : s.callers[c]? = some caller)
    (known : s.items[c]? = some item) (resting : caller.pc.resting = true)
    (dropped : item.reply = .dropped) : dispatcherStep cfg s (.call c .reply) =
      some (s.setPc c caller (.returned .answered (.error .closed))) := by
  have receives : dispatchReceive s c caller item =
      some (s.setPc c caller (.returned .answered (.error .closed))) := by
    rw [dispatchReceive, dropped]
  cases pc : caller.pc with
  | parked timer | awaitReply =>
      rw [dispatcherStep, present, known, ← receives]
      exact dispatchEvent_at pc
  | _ => simp [pc, DispatchPc.resting] at resting

/-- The reply channel of a call is used and no executor was the one: the call returns the
closed error. -/
theorem ReplyWf.completes_of_used (wf : ReplyWf s) (empty : s.pending = ∅)
    (present : s.callers[c]? = some caller) (known : s.items[c]? = some item)
    (waits : caller.pc.waits = true) (other : s.remover c ≠ some .executor)
    (used : item.reply ≠ .waiting) : Completes cfg c s (.error .closed) := by
  obtain ⟨actions, t, resting, path, there, rests, items⟩ :=
    rests_of_waits present known (by simp [empty]) waits
  have unaided : Path (dispatcherStep cfg) Unaided s actions t :=
    path.mono fun _ action own => by rw [own]; exact Or.inl rfl
  have still : t.items[c]? = some item := by rw [items, known]
  have ends : dispatcherStep cfg t (.call c .reply) =
      some (t.setPc c resting (.returned .answered (.error .closed))) := by
    cases reply : item.reply with
    | waiting => exact absurd reply used
    | dropped => exact receives_of_dropped there still rests reply
    | sent sender value =>
        have by_ := (wf.taken.items c item known).sent sender value reply
        rcases wf.sent c item sender value known reply with rfl | rfl
        · exact absurd by_ other
        · exact receives_of_resting there still rests reply
  refine .back unaided ⟨[.call c .reply], _,
    { resting with pc := .returned .answered (.error .closed) }, .cons (Or.inr rfl) ends .nil, ?_,
    rfl⟩
  exact List.getElem?_set_self (List.getElem?_eq_some_iff.mp there).1

/-- A call of `close` that has the item goes on until it has sent the reply. -/
theorem ReplyWf.closer_sends (stranded : List Nat) : ∀ {s : DispatcherState T}, ReplyWf s →
    s.closers[i]? = some (.sending stranded) → c ∈ stranded →
    ∃ actions t item, Path (dispatcherStep cfg) Unaided s actions t ∧ t.callers = s.callers ∧
      t.items[c]? = some item ∧ item.reply ≠ .waiting := by
  induction stranded with
  | nil => simp
  | cons d rest ih =>
      intro s wf present inside
      have removed : s.remover d = some .closer :=
        wf.taken.stranded d ⟨_, List.mem_of_getElem? present, by simp [CloserPc.stranded]⟩
      have bound : d < s.items.length := by
        by_contra outside
        simp [wf.taken.unmade d (by omega)] at removed
      obtain ⟨item, known⟩ : ∃ item, s.items[d]? = some item := ⟨_, List.getElem?_eq_getElem bound⟩
      obtain ⟨caller, there⟩ : ∃ caller, s.callers[d]? = some caller :=
        ⟨_, List.getElem?_eq_getElem (wf.taken.owned.aligned ▸ bound)⟩
      let after := (s.put d item { item with
        reply := item.reply.send (!caller.gone) .closer (.error .closed) }).setCloser i
        (.sending rest)
      have taken : dispatcherStep cfg s (.closer i .step) = some after := by
        simp [dispatcherStep, present, closerEvent, there, known, after]
      by_cases here : c = d
      · subst here
        refine ⟨[.closer i .step], after, _, .cons trivial taken .nil, rfl,
          List.getElem?_set_self bound, ?_⟩
        exact Reply.send_ne_waiting _ _ _ _
      · have next : after.closers[i]? = some (.sending rest) :=
          List.getElem?_set_self (List.getElem?_eq_some_iff.mp present).1
        have later : c ∈ rest := by simpa [here] using inside
        obtain ⟨actions, t, changed, path, callers, found, used⟩ := ih (wf.step taken) next later
        exact ⟨.closer i .step :: actions, t, changed, .cons trivial taken path, callers, found,
          used⟩

/-- Whoever has the item of a waiting call ends its reply channel without an executor. -/
theorem ReplyWf.ends (wf : ReplyWf s) (empty : s.pending = ∅)
    (present : s.callers[c]? = some caller) (known : s.items[c]? = some item)
    (waits : caller.pc.waits = true) (other : s.remover c ≠ some .executor) :
    ∃ actions t changed, Path (dispatcherStep cfg) Unaided s actions t ∧
      t.callers[c]? = some caller ∧ t.items[c]? = some changed ∧ changed.reply ≠ .waiting := by
  by_cases waiting : item.reply = .waiting
  · rcases wf.located c caller item present known (DispatchPc.late_of_waits waits) waiting with
      ⟨jobId, mapped⟩ | ⟨i, called⟩ | ⟨pc, inside, stranded⟩ | executed
    · simp [unmapped empty] at mapped
    · obtain ⟨holder, there, held⟩ : ∃ holder, s.callers[i]? = some holder ∧
          holder.pc.item i = some c := by
        simp only [holding, Option.bind_eq_some_iff, Option.map_eq_some_iff, Prod.mk.injEq,
          and_true, exists_eq_right] at called
        exact called
      have different : i ≠ c := by
        rintro rfl
        obtain rfl := Option.some.inj (present.symm.trans there)
        simp [DispatchPc.item_of_waits waits] at held
      have bound := (List.getElem?_eq_some_iff.mp known).1
      have discards : ∃ pc, dispatcherStep cfg s (.call i .step) =
          some ((s.put c item item.discard).setPc i holder pc) := by
        obtain ⟨own, ownKnown⟩ := wf.taken.owned.item_of there
        cases pc : holder.pc with
        | displacing d | discarding error d =>
            simp only [pc, DispatchPc.item, Option.some.injEq] at held
            subst held
            simp [dispatcherStep, there, ownKnown, dispatchEvent, pc, known]
        | insert =>
            simp only [pc, DispatchPc.item, Option.some.injEq] at held
            exact absurd held different
        | _ => simp [pc, DispatchPc.item] at held
      obtain ⟨pc, taken⟩ := discards
      refine ⟨[.call i .step], _, item.discard, .cons (Or.inl rfl) taken .nil, ?_,
        List.getElem?_set_self bound, Reply.drop_ne_waiting⟩
      rw [← present]
      exact List.getElem?_set_ne different
    · obtain ⟨j, there⟩ := List.mem_iff_getElem?.mp inside
      cases pc with
      | draining stranded_ =>
          have collects : dispatcherStep cfg s (.closer j .step) =
              some (s.setCloser j (.sending stranded_)) := by
            simp [dispatcherStep, there, closerEvent, empty]
          have next : (s.setCloser j (.sending stranded_)).closers[j]? =
              some (.sending stranded_) :=
            List.getElem?_set_self (List.getElem?_eq_some_iff.mp there).1
          obtain ⟨actions, t, changed, path, callers, found, used⟩ :=
            ReplyWf.closer_sends stranded_ (wf.step collects) next stranded
          exact ⟨.closer j .step :: actions, t, changed, .cons trivial collects path,
            by rw [callers]; exact present, found, used⟩
      | sending stranded_ =>
          obtain ⟨actions, t, changed, path, callers, found, used⟩ :=
            ReplyWf.closer_sends stranded_ wf there stranded
          exact ⟨actions, t, changed, path, by rw [callers]; exact present, found, used⟩
      | _ => simp [CloserPc.stranded] at stranded
    · exact absurd executed other
  · exact ⟨[], s, item, .nil, present, known, waiting⟩

/-- With an empty map the removers stay. -/
theorem ReplyWf.path_of_closed (wf : ReplyWf s) (closed : s.Closed)
    {allowed : DispatcherState T → DispatcherAction T → Prop}
    {actions : List (DispatcherAction T)} {t : DispatcherState T}
    (path : Path (dispatcherStep cfg) allowed s actions t) :
    ReplyWf t ∧ t.Closed ∧ t.remover = s.remover := by
  induction path with
  | nil => exact ⟨wf, closed, rfl⟩
  | snoc _ _ taken ih =>
      obtain ⟨wf, closed, remover⟩ := ih
      refine ⟨wf.step taken, Closed.step closed taken, ?_⟩
      rw [remover_of_empty (wf.flags closed).2.2.2 taken, remover]

/-- What an answered call has returned if no executor took its item. -/
theorem ReplyWf.answered_closed (wf : ReplyWf s) (present : s.callers[c]? = some caller)
    (other : s.remover c ≠ some .executor) {result : Except ActionError T}
    (pc : caller.pc = .returned .answered result) : result = .error .closed := by
  obtain ⟨item, known⟩ := wf.taken.owned.item_of present
  rcases wf.answered c caller item result present known pc with ⟨sender, sent⟩ | closed
  · have by_ := (wf.taken.items c item known).sent sender result sent
    rcases wf.sent c item sender result known sent with rfl | closed
    · exact absurd by_ other
    · exact closed
  · exact closed

theorem ReplyWf.completes_of_waits (wf : ReplyWf s) (closed : s.Closed)
    (present : s.callers[c]? = some caller) (waits : caller.pc.waits = true)
    (other : s.remover c ≠ some .executor) : Completes cfg c s (.error .closed) := by
  obtain ⟨item, known⟩ := wf.taken.owned.item_of present
  obtain ⟨actions, t, changed, path, there, found, used⟩ :=
    wf.ends (wf.flags closed).2.2.2 present known waits other
  obtain ⟨later, still, remover⟩ := wf.path_of_closed closed path
  refine .back path ?_
  exact later.completes_of_used (later.flags still).2.2.2 there found waits (by rwa [remover]) used

/-- A call that had put its item into the map returns the closed error, unless an executor took
the item or the call was dropped. -/
theorem ReplyWf.completes (wf : ReplyWf s) (closed : s.Closed)
    (present : s.callers[c]? = some caller) (inserted : caller.pc.inserted = true)
    (other : s.remover c ≠ some .executor) :
    caller.pc = .dropped ∨ Completes cfg c s (.error .closed) := by
  by_cases waits : caller.pc.waits = true
  · exact Or.inr (wf.completes_of_waits closed present waits other)
  · cases pc : caller.pc with
    | dropped => exact Or.inl rfl
    | returned exit result =>
        cases exit with
        | answered =>
            have ends := wf.answered_closed present other pc
            exact Or.inr ⟨[], s, caller, .nil, present, by rw [pc, ends]⟩
        | _ => simp [pc, DispatchPc.inserted, DispatchPc.waits] at inserted
    | displacing d =>
        have held : s.holding (.call c) = some (d, .live) := by
          rw [holding_call present, pc]
          rfl
        obtain ⟨item, known⟩ := wf.taken.owned.item_of present
        obtain ⟨previous, old, _⟩ := wf.taken.owned.held _ d _ held
        have taken : dispatcherStep cfg s (.call c .step) =
            some ((s.put d previous previous.discard).setPc c caller .enqueue) := by
          simp [dispatcherStep, present, known, dispatchEvent, pc, old]
        have there : ((s.put d previous previous.discard).setPc c caller .enqueue).callers[c]? =
            some { caller with pc := .enqueue } :=
          List.getElem?_set_self (List.getElem?_eq_some_iff.mp present).1
        have path : Path (dispatcherStep cfg) Unaided s [.call c .step] _ :=
          .cons (Or.inl rfl) taken .nil
        refine Or.inr (.back path ?_)
        exact (wf.step taken).completes_of_waits (Closed.step closed taken) there rfl other
    | _ => simp_all [DispatchPc.inserted, DispatchPc.waits]

theorem inserted_path (wf : ReplyWf s) (closed : s.Closed)
    {allowed : DispatcherState T → DispatcherAction T → Prop}
    {actions : List (DispatcherAction T)} {t : DispatcherState T}
    (path : Path (dispatcherStep cfg) allowed s actions t) (present : s.callers[c]? = some caller)
    (inserted : caller.pc.inserted = true) :
    ∃ later, t.callers[c]? = some later ∧ later.pc.inserted = true := by
  induction path with
  | nil => exact ⟨caller, present, inserted⟩
  | snoc before _ taken ih =>
      obtain ⟨later, there, still⟩ := ih
      obtain ⟨after, shut, _⟩ := wf.path_of_closed closed before
      exact inserted_step (after.flags shut).2.2.2 (dispatcherStep_move taken) there still

/-- The call has put nothing into the map and ends, if at all, with an error. -/
structure Void (c : Nat) (s : DispatcherState T) : Prop where
  caller : ∃ caller, s.callers[c]? = some caller ∧ (caller.pc.early = true ∨
    (caller.pc = .dropped ∨ ∃ error, caller.pc = .returned .refused (.error error)) ∧
      ∀ p phase, s.holding p ≠ some (c, phase))
  unstarted (item : Item T) : s.items[c]? = some item → item.starts = 0
  unremoved : s.remover c = none

/-- Whoever holds an item has it from another holder or has built it. -/
theorem Move.held_before {p : Place} {phase : WorkPhase} (move : Move cfg s next action)
    (held : next.holding p = some (c, phase)) : (∃ q before, s.holding q = some (c, before)) ∨
      ∃ caller, s.callers[c]? = some caller ∧ caller.pc = .checkClosing := by
  have old : s.holding p = some (c, phase) → ∃ q before, s.holding q = some (c, before) :=
    fun was => ⟨p, phase, was⟩
  cases move with
  | idle _ _ _ holds | dispatched _ _ _ _ holds | moved _ _ _ _ _ _ _ holds
  | admitted _ _ _ _ _ _ _ _ _ holds | acquired _ _ _ _ _ _ holds | loose _ _ _ _ _ holds =>
      exact Or.inl (old ((holds p).symm.trans held))
  | refused _ _ _ _ _ _ _ _ _ holds | displaced _ _ _ _ _ _ _ _ holds
  | abandoned _ _ _ _ _ _ _ _ holds | drained _ _ _ _ _ _ _ _ holds =>
      rw [holds] at held
      split at held
      · simp at held
      · exact Or.inl (old held)
  | built present _ pc _ _ _ holds =>
      rw [holds] at held
      split at held
      · obtain ⟨rfl, _⟩ := Prod.mk.inj (Option.some.inj held)
        exact Or.inr ⟨_, present, pc⟩
      · exact Or.inl (old held)
  | @inserted i before _ _ present pc _ _ _ _ _ holds =>
      rw [holds] at held
      split at held
      · exact Or.inl ⟨_, phase, held⟩
      · split at held
        · obtain ⟨rfl, _⟩ := Prod.mk.inj (Option.some.inj held)
          refine Or.inl ⟨.call i, .live, ?_⟩
          rw [holding_call present, pc]
          rfl
        · exact Or.inl (old held)
  | recalled _ _ _ mapped _ _ _ _ _ holds | taken _ _ mapped _ _ _ _ _ holds =>
      rw [holds] at held
      split at held
      · obtain ⟨rfl, _⟩ := Prod.mk.inj (Option.some.inj held)
        exact Or.inl ⟨_, _, mapped⟩
      · split at held
        · simp at held
        · exact Or.inl (old held)
  | held _ before _ _ _ _ _ _ _ _ holds =>
      rw [holds] at held
      split at held
      · simp only [Option.map_eq_some_iff, Prod.mk.injEq] at held
        obtain ⟨_, _, rfl, _⟩ := held
        exact Or.inl ⟨_, _, before⟩
      · exact Or.inl (old held)

/-- Only an executor that took the item starts its work. -/
theorem TakenWf.starts_step (wf : TakenWf s) (move : Move cfg s next action)
    (unremoved : s.remover c = none) (known : next.items[c]? = some item) :
    (∃ before, s.items[c]? = some before ∧ item.starts = before.starts) ∨ item.starts = 0 := by
  have updated : ∀ {d : Nat} {before changed : Item T}, s.items[d]? = some before →
      next.items = s.items.set d changed → (c = d → changed.starts = before.starts) →
      ∃ before, s.items[c]? = some before ∧ item.starts = before.starts := by
    intro d before changed old items same
    rw [items] at known
    rcases getElem?_of_set known with ⟨rfl, rfl⟩ | ⟨_, away⟩
    · exact ⟨before, old, same rfl⟩
    · exact ⟨item, away, rfl⟩
  cases move with
  | idle _ items _ _ | moved _ _ _ _ _ items _ _ | inserted _ _ _ _ _ items _ _
  | recalled _ _ _ _ _ items _ _ _ _ | taken _ _ _ _ items _ _ _ _ =>
      exact Or.inl ⟨item, items ▸ known, rfl⟩
  | dispatched _ _ items _ _ =>
      rw [items] at known
      rcases getElem?_of_snoc known with old | ⟨_, rfl⟩
      · exact Or.inl ⟨item, old, rfl⟩
      · exact Or.inr rfl
  | admitted _ old _ _ _ _ items _ _ _ | acquired _ old _ _ items _ _ | built _ old _ _ items _ _
  | refused _ old _ _ _ items _ _ _ _ | displaced _ _ old _ items _ _ _ _
  | abandoned _ _ old _ items _ _ _ _ | drained _ old _ items _ _ _ _ _ =>
      exact Or.inl (updated old items fun _ => rfl)
  | held place before old _ _ items _ _ _ _ _ =>
      refine Or.inl (updated old items ?_)
      rintro rfl
      simp [wf.executors _ _ _ place before] at unremoved
  | loose old step _ items _ _ =>
      refine Or.inl (updated old items fun _ => ?_)
      cases step <;> rfl

theorem ReplyWf.void_of_early (wf : ReplyWf s) (present : s.callers[c]? = some caller)
    (early : caller.pc.early = true) : Void c s where
  caller := ⟨caller, present, Or.inl early⟩
  unremoved := wf.taken.early c caller present early
  unstarted := by
    intro item known
    refine (wf.taken.items c item known).unstarted ?_
    by_cases unbuilt : caller.pc.unbuilt = true
    · exact Or.inl (wf.taken.owned.unbuilt c caller item present known unbuilt)
    · have inserting : caller.pc = .insert := by
        cases pc : caller.pc <;> simp_all [DispatchPc.early, DispatchPc.unbuilt]
      refine Or.inr (wf.taken.owned.work_eq (p := .call c) ?_ known)
      rw [holding_call present, inserting]
      rfl

/-- A call that the closed dispatcher has not let in yet stays out. -/
theorem Owned.early_kept (owned : Owned s) (empty : next.pending = ∅)
    (move : Move cfg s next action) (present : s.callers[c]? = some caller)
    (early : caller.pc.early = true) :
    ∃ later, next.callers[c]? = some later ∧ (later.pc.early = true ∨
      (later.pc = .dropped ∨ ∃ error, later.pc = .returned .refused (.error error)) ∧
        ∀ p phase, next.holding p ≠ some (c, phase)) := by
  have updated : ∀ {k : Nat} {other later : Caller T}, s.callers[k]? = some other →
      next.callers = s.callers.set k later → (k = c → other = caller → later.pc.early = true ∨
        (later.pc = .dropped ∨ ∃ error, later.pc = .returned .refused (.error error)) ∧
          ∀ p phase, next.holding p ≠ some (c, phase)) →
      ∃ later, next.callers[c]? = some later ∧ (later.pc.early = true ∨
        (later.pc = .dropped ∨ ∃ error, later.pc = .returned .refused (.error error)) ∧
          ∀ p phase, next.holding p ≠ some (c, phase)) := by
    intro k other later found callers goes
    by_cases here : k = c
    · subst here
      refine ⟨later, ?_, goes rfl (Option.some.inj (found.symm.trans present))⟩
      rw [callers, List.getElem?_set_self (List.getElem?_eq_some_iff.mp found).1]
    · exact ⟨caller, by rw [callers, List.getElem?_set_ne here, present], Or.inl early⟩
  cases move with
  | idle _ _ callers _ | taken _ _ _ callers _ _ _ _ _ | held _ _ _ _ callers _ _ _ _ _ _
  | loose _ _ callers _ _ _ | drained _ _ callers _ _ _ _ _ _ =>
      exact ⟨caller, by rw [callers, present], Or.inl early⟩
  | dispatched _ callers _ _ _ =>
      refine ⟨caller, ?_, Or.inl early⟩
      rw [callers, List.getElem?_append_left (List.getElem?_eq_some_iff.mp present).1, present]
  | moved found _ step _ callers _ _ _ =>
      refine updated found callers ?_
      rintro rfl rfl
      refine Or.inl ?_
      by_contra late
      simp [step.late_before (by simpa using late)] at early
  | admitted found _ _ _ _ callers _ _ _ _ | acquired found _ _ callers _ _ _
  | built found _ _ callers _ _ _ => exact updated found callers fun _ _ => Or.inl rfl
  | @refused k _ item _ _ found known _ ends callers _ _ _ _ holds =>
      refine updated found callers ?_
      rintro rfl rfl
      refine Or.inr ⟨ends.symm, fun p phase held => ?_⟩
      rw [holds] at held
      split at held
      · simp at held
      next away => exact owned.early found known early away held rfl
  | @inserted k before _ _ found _ _ _ callers _ _ holds =>
      refine updated found callers ?_
      rintro rfl _
      have mapped : next.holding (.map before.jobId) = some (k, .live) := by
        rw [holds, if_neg (by simp), if_pos rfl]
      simp [unmapped empty] at mapped
  | displaced found pc _ callers _ _ _ _ _ | abandoned found pc _ callers _ _ _ _ _ =>
      refine updated found callers ?_
      rintro rfl rfl
      simp [pc, DispatchPc.early] at early
  | recalled found waits _ _ callers _ _ _ _ _ =>
      refine updated found callers ?_
      rintro rfl rfl
      simp [DispatchPc.late_of_waits waits] at early

theorem Move.new_early {later : Caller T} (move : Move cfg s next action)
    (absent : s.callers[c]? = none) (present : next.callers[c]? = some later) :
    later.pc.early = true := by
  have updated : ∀ {k : Nat} {other after : Caller T}, s.callers[k]? = some other →
      next.callers = s.callers.set k after → False := by
    intro k other after found callers
    rw [callers] at present
    rcases getElem?_of_set present with ⟨rfl, _⟩ | ⟨_, away⟩
    · simp [absent] at found
    · simp [absent] at away
  cases move with
  | idle _ _ callers _ | taken _ _ _ callers _ _ _ _ _ | held _ _ _ _ callers _ _ _ _ _ _
  | loose _ _ callers _ _ _ | drained _ _ callers _ _ _ _ _ _ =>
      simp [callers, absent] at present
  | dispatched _ callers _ _ _ =>
      rw [callers] at present
      rcases getElem?_of_snoc present with old | ⟨_, rfl⟩
      · simp [absent] at old
      · rfl
  | moved found _ _ _ callers _ _ _ | admitted found _ _ _ _ callers _ _ _ _
  | refused found _ _ _ callers _ _ _ _ _ | acquired found _ _ callers _ _ _
  | built found _ _ callers _ _ _ | inserted found _ _ _ callers _ _ _
  | displaced found _ _ callers _ _ _ _ _ | recalled found _ _ _ callers _ _ _ _ _
  | abandoned found _ _ callers _ _ _ _ _ => exact (updated found callers).elim

theorem Void.step (void : Void c s) (wf : ReplyWf s) (closed : s.Closed)
    (taken : dispatcherStep cfg s action = some next) : Void c next := by
  have move := dispatcherStep_move taken
  have empty := (wf.flags closed).2.2.2
  have still := ((wf.step taken).flags (Closed.step closed taken)).2.2.2
  refine ⟨?_, ?_, by rw [remover_of_empty empty taken, void.unremoved]⟩
  · obtain ⟨caller, present, early | ⟨gone, unheld⟩⟩ := void.caller
    · exact wf.taken.owned.early_kept still move present early
    · have isGone : caller.gone = true := by
        rcases gone with pc | ⟨error, pc⟩ <;> simp [Caller.gone, pc]
      refine ⟨caller, gone_kept move present isGone, Or.inr ⟨gone, fun p phase held => ?_⟩⟩
      rcases move.held_before held with ⟨q, before, was⟩ | ⟨other, there, pc⟩
      · exact unheld q before was
      · obtain rfl := Option.some.inj (present.symm.trans there)
        simp [Caller.gone, pc] at isGone
  · intro item known
    rcases wf.taken.starts_step move void.unremoved known with ⟨before, was, same⟩ | zero
    · rw [same, void.unstarted before was]
    · exact zero

theorem void_path (wf : ReplyWf s) (closed : s.Closed)
    {allowed : DispatcherState T → DispatcherAction T → Prop}
    {actions : List (DispatcherAction T)} {t : DispatcherState T}
    (path : Path (dispatcherStep cfg) allowed s actions t)
    (early : ∀ caller, s.callers[c]? = some caller → caller.pc.early = true) {later : Caller T}
    (present : t.callers[c]? = some later) : Void c t := by
  induction path generalizing later with
  | nil => exact wf.void_of_early present (early later present)
  | @snoc _ state action next before _ taken ih =>
      obtain ⟨wf', closed', _⟩ := wf.path_of_closed closed before
      cases was : state.callers[c]? with
      | some caller => exact (ih was).step wf' closed' taken
      | none =>
          refine (wf'.step taken).void_of_early present ?_
          exact (dispatcherStep_move taken).new_early was present

def OwnCall (c : Nat) (_ : DispatcherState T) (action : DispatcherAction T) : Prop :=
  ∃ event, action = .call c event

/-- The steps of the call and the answer of the store lead to an error. -/
def Refused (cfg : DispatcherConfig T) (c : Nat) (s : DispatcherState T) : Prop :=
  ∃ actions t caller error, Path (dispatcherStep cfg) (OwnCall c) s actions t ∧
    t.callers[c]? = some caller ∧ caller.pc = .returned .refused (.error error)

theorem Refused.of_step (event : CallEvent) (item : Item T) (error : ActionError)
    (present : s.callers[c]? = some caller)
    (taken : dispatcherStep cfg s (.call c event) = some (refuse s c caller item error)) :
    Refused cfg c s :=
  ⟨[.call c event], _, { caller with pc := .returned .refused (.error error) }, error,
    .cons ⟨event, rfl⟩ taken .nil,
    List.getElem?_set_self (List.getElem?_eq_some_iff.mp present).1, rfl⟩

theorem refused_of_acquire (admission : s.admissionClosed = true)
    (present : s.callers[c]? = some caller) (known : s.items[c]? = some item)
    (pc : caller.pc = .acquire) : Refused cfg c s := by
  refine .of_step .step item .closed present ?_
  simp [dispatcherStep, present, known, dispatchEvent, pc, dispatchAcquire, admission]

/-- The call goes on to take a permit. -/
theorem refused_of_admitted (event : CallEvent) (later : Item T) (counts : HashMap String Nat)
    (admission : s.admissionClosed = true) (present : s.callers[c]? = some caller)
    (known : s.items[c]? = some item) (taken : dispatcherStep cfg s (.call c event) =
      some ({ s.put c item later with counts := counts }.setPc c caller .acquire)) :
    Refused cfg c s := by
  have there : ({ s.put c item later with counts := counts }.setPc c caller .acquire).callers[c]? =
      some { caller with pc := .acquire } :=
    List.getElem?_set_self (List.getElem?_eq_some_iff.mp present).1
  have found : ({ s.put c item later with counts := counts }.setPc c caller .acquire).items[c]? =
      some later :=
    List.getElem?_set_self (List.getElem?_eq_some_iff.mp known).1
  have goes : Refused cfg c ({ s.put c item later with counts := counts }.setPc c caller .acquire) :=
    refused_of_acquire admission there found rfl
  obtain ⟨actions, t, refused, error, path, ends, pc⟩ := goes
  exact ⟨.call c event :: actions, t, refused, error, .cons ⟨event, rfl⟩ taken path, ends, pc⟩

theorem refused_of_begun (admission : s.admissionClosed = true)
    (present : s.callers[c]? = some caller) (known : s.items[c]? = some item)
    (pc : caller.pc = .begun) : Refused cfg c s := by
  have begins : ∀ event, dispatcherStep cfg s (.call c event) =
      dispatchBegun cfg s c caller item event := by
    intro event
    simp [dispatcherStep, present, known, dispatchEvent, pc]
  cases limit : item.limit with
  | none =>
      have taken : dispatcherStep cfg s (.call c .step) = some (s.setPc c caller .acquire) := by
        simp [begins, dispatchBegun, limit]
      have there : (s.setPc c caller .acquire).callers[c]? = some { caller with pc := .acquire } :=
        List.getElem?_set_self (List.getElem?_eq_some_iff.mp present).1
      have goes : Refused cfg c (s.setPc c caller .acquire) :=
        refused_of_acquire admission there known rfl
      obtain ⟨actions, t, refused, error, path, ends, returned⟩ := goes
      exact ⟨.call c .step :: actions, t, refused, error, .cons ⟨.step, rfl⟩ taken path, ends,
        returned⟩
  | some limited =>
      obtain ⟨key, max⟩ := limited
      by_cases shared : cfg.shared = true
      · refine .of_step (.admitted false) item (.overLimit max) present ?_
        simp [begins, dispatchBegun, limit, shared]
      · by_cases zero : max = 0
        · refine .of_step .step item (.overLimit max) present ?_
          simp [begins, dispatchBegun, limit, shared, zero]
        · cases admits : tryAdmitLocal s.counts key max with
          | none =>
              refine .of_step .step item (.overLimit max) present ?_
              simp [begins, dispatchBegun, limit, shared, zero, admits]
          | some counts =>
              refine refused_of_admitted .step { item with slot := true } counts admission present
                known ?_
              simp [begins, dispatchBegun, limit, shared, zero, admits]

/-- A call that has not put its item into the map returns an error. -/
theorem ReplyWf.refused_of_early (wf : ReplyWf s) (closed : s.Closed)
    (present : s.callers[c]? = some caller) (early : caller.pc.early = true) :
    Refused cfg c s := by
  obtain ⟨closing, admission, _, _⟩ := wf.flags closed
  obtain ⟨item, known⟩ := wf.taken.owned.item_of present
  cases pc : caller.pc with
  | begun => exact refused_of_begun admission present known pc
  | acquire => exact refused_of_acquire admission present known pc
  | checkClosing =>
      refine .of_step .step item .closed present ?_
      simp [dispatcherStep, present, known, dispatchEvent, pc, dispatchBuild, closing]
  | insert =>
      refine .of_step .step item .closed present ?_
      simp [dispatcherStep, present, known, dispatchEvent, pc, dispatchInsert, closing]
  | _ => simp [pc, DispatchPc.early] at early

theorem queue_path (wf : ReplyWf s) (closed : s.Closed)
    {allowed : DispatcherState T → DispatcherAction T → Prop}
    {actions : List (DispatcherAction T)} {t : DispatcherState T}
    (path : Path (dispatcherStep cfg) allowed s actions t) : t.queue.Sublist s.queue := by
  induction path with
  | nil => exact List.Sublist.refl _
  | @snoc _ state action next before _ taken ih =>
      obtain ⟨wf', closed', _⟩ := wf.path_of_closed closed before
      refine List.Sublist.trans ?_ ih
      by_cases closer : ∃ i event, action = .closer i event
      · obtain ⟨i, event, rfl⟩ := closer
        simp only [dispatcherStep, Option.bind_eq_some_iff] at taken
        obtain ⟨pc, there, taken⟩ := taken
        rw [(closerEvent_ok taken (wf'.shut pc (List.mem_of_getElem? there))).2.2.2.1]
      · have flags := dispatcherStep_flags (by rintro i event rfl; exact closer ⟨i, event, rfl⟩)
          taken
        exact flags.queue (wf'.flags closed').2.2.1

end AfterClose

section Runs

variable {cfg : DispatcherConfig T} {now : Nat} {before after : List (DispatcherAction T)}
  {s t : DispatcherState T}

/-- Once `close` has returned, the map is empty for good; a call that had put its item into the
map and did not take an item back, and whose item no executor took, returns the closed error; a
call that had not put its item into the map returns an error, and nothing of it is queued or run. -/
theorem close_strands_nobody
    (path : Path (dispatcherStep cfg) Always (DispatcherState.new cfg now) before s)
    (closed : s.Closed) (later : Path (dispatcherStep cfg) Always s after t) :
    t.pending = ∅ ∧
      (∀ (c : Nat) (caller : Caller T), s.callers[c]? = some caller →
        caller.pc.inserted = true → s.remover c ≠ some .executor →
        ∃ last, t.callers[c]? = some last ∧
          (last.pc = .dropped ∨ Completes cfg c t (.error .closed)) ∧
          ∀ exit result, last.pc = .returned exit result → result = .error .closed) ∧
      t.queue.Sublist s.queue ∧
      ∀ (c : Nat) (last : Caller T), t.callers[c]? = some last →
        (∀ caller, s.callers[c]? = some caller → caller.pc.early = true) →
        (last.pc = .dropped ∨ Refused cfg c t) ∧
          (∀ exit result, last.pc = .returned exit result → ∃ error, result = .error error) ∧
          t.remover c = none ∧ ∀ item, t.items[c]? = some item → item.starts = 0 := by
  have wf : ReplyWf s := (ReplyWf.initial cfg now).of_path path
  obtain ⟨wf', closed', remover⟩ := wf.path_of_closed closed later
  refine ⟨(wf'.flags closed').2.2.2, ?_, queue_path wf closed later, ?_⟩
  · intro c caller present inserted other
    obtain ⟨last, there, still⟩ := inserted_path wf closed later present inserted
    rw [← remover] at other
    refine ⟨last, there, wf'.completes closed' there still other, ?_⟩
    intro exit result pc
    cases exit with
    | answered => exact wf'.answered_closed there other pc
    | _ => simp [pc, DispatchPc.inserted, DispatchPc.waits] at still
  · intro c last present early
    have void := void_path wf closed later early present
    obtain ⟨own, there, state⟩ := void.caller
    obtain rfl := Option.some.inj (present.symm.trans there)
    refine ⟨?_, ?_, void.unremoved, void.unstarted⟩
    · rcases state with early | ⟨dropped | ⟨error, pc⟩, _⟩
      · exact Or.inr (wf'.refused_of_early closed' present early)
      · exact Or.inl dropped
      · exact Or.inr ⟨[], t, last, error, .nil, present, pc⟩
    · intro exit result pc
      rcases state with early | ⟨dropped | ⟨error, returned⟩, _⟩
      · simp [pc, DispatchPc.early] at early
      · simp [pc] at dropped
      · rw [pc, DispatchPc.returned.injEq] at returned
        exact ⟨error, returned.2⟩

end Runs

namespace Scenario

/-- The job is cancelled and its call takes the item back while `close` is on its way. -/
def takenBackWhileClosing : List (DispatcherAction String) :=
  [.submit (userJob "first"), .dispatch 0 .cancelled] ++ queueUp 0 ++
    [.close, .closer 0 .step, .flag 0 .cancel, .call 0 .step, .call 0 .step, .call 0 .step,
      .closer 0 .step, .closer 0 .step, .closer 0 .step, .closer 0 .step]

/-- One call has queued its job and the other is about to insert its item when `close` runs. -/
def closedOnTwo : List (DispatcherAction String) :=
  [.submit (userJob "first"), .submit (userJob "second"), .dispatch 0 .none, .dispatch 1 .none]
    ++ queueUp 0 ++ [.call 1 .step, .call 1 .step, .call 1 .step, .close, .closer 0 .step,
      .closer 0 .step, .closer 0 .step, .closer 0 (.drain "first"), .closer 0 .step,
      .closer 0 .step, .closer 0 .step]

end Scenario

open Scenario in
theorem close_answers_takenBack :
    ¬ ∀ (actions : List (DispatcherAction String)) (s : DispatcherState String),
      Path (dispatcherStep localPool) Always (DispatcherState.new localPool 0) actions s →
      s.Closed → ∀ (c : Nat) (caller : Caller String) (exit : Exit)
        (result : Except ActionError String), s.callers[c]? = some caller →
        caller.pc = .returned exit result → exit ≠ .refused → s.remover c ≠ some .executor →
        result = .error .closed := by
  intro claim
  have ran : (run (dispatcherStep localPool) (DispatcherState.new localPool 0)
      takenBackWhileClosing).any (fun s => decide (CloserPc.done ∈ s.closers) &&
        s.callers[0]?.any (abandonedWith .cancelled) &&
        decide (s.remover 0 ≠ some .executor)) = true := by decide +kernel
  obtain ⟨s, finished, checked⟩ := (Option.any_eq_true _ _).mp ran
  simp only [Bool.and_eq_true, decide_eq_true_eq] at checked
  obtain ⟨⟨closed, abandons⟩, other⟩ := checked
  obtain ⟨caller, present, abandons⟩ := (Option.any_eq_true _ _).mp abandons
  have returns := claim _ s (Path.of_run _ _ finished) closed 0 caller _ _ present
    (abandonedWith_pc abandons) (by simp) other
  simp [ActionError.closed] at returns

open Scenario in
theorem close_strands_nobody_closedOnTwo :
    ∃ s, Path (dispatcherStep localPool) Always (DispatcherState.new localPool 0) closedOnTwo s ∧
      s.Closed ∧ s.pending = ∅ ∧ Completes localPool 0 s (.error .closed) ∧
      Refused localPool 1 s := by
  have ran : (run (dispatcherStep localPool) (DispatcherState.new localPool 0)
      closedOnTwo).any (fun s => decide (CloserPc.done ∈ s.closers) &&
        s.callers[0]?.any (fun caller => caller.pc.waits) &&
        s.callers[1]?.any (fun caller => caller.pc.early) &&
        decide (s.remover 0 ≠ some .executor)) = true := by decide +kernel
  obtain ⟨s, finished, checked⟩ := (Option.any_eq_true _ _).mp ran
  simp only [Bool.and_eq_true, decide_eq_true_eq] at checked
  obtain ⟨⟨⟨closed, waits⟩, early⟩, other⟩ := checked
  obtain ⟨first, firstIn, waits⟩ := (Option.any_eq_true _ _).mp waits
  obtain ⟨second, secondIn, early⟩ := (Option.any_eq_true _ _).mp early
  have path := Path.of_run _ _ finished
  obtain ⟨empty, inserted, _, outside⟩ := close_strands_nobody path closed Path.nil
  obtain ⟨last, there, completes, _⟩ :=
    inserted 0 first firstIn (DispatchPc.inserted_of_waits waits) other
  obtain ⟨refused, _⟩ := outside 1 second secondIn (by
    intro caller present
    rw [← Option.some.inj (secondIn.symm.trans present)]
    exact early)
  refine ⟨s, path, closed, empty, ?_, ?_⟩
  · rcases completes with dropped | completes
    · obtain rfl := Option.some.inj (firstIn.symm.trans there)
      simp [dropped, DispatchPc.waits] at waits
    · exact completes
  · rcases refused with dropped | refused
    · simp [dropped, DispatchPc.early] at early
    · exact refused

end BitsBroker
