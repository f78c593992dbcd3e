import BitsBroker.Dispatcher.Winner

/-!
A waiting call comes to rest. A call whose item is out of the pending map looks at its job
once more, may try to take the item back in vain, and then waits for the reply: its own
steps lead to a state in which a reply that has been sent is received.
-/

namespace BitsBroker

open Transition Table DispatcherState

variable {T : Type}

/-- The call waits for the reply and for nothing it does itself. -/
def DispatchPc.resting : DispatchPc T → Bool
  | .parked _ | .awaitReply => true
  | _ => false

def OwnStep (c : Nat) (_ : DispatcherState T) (action : DispatcherAction T) : Prop :=
  action = .call c .step

/-- The steps of call `c` alone lead to a state in which it rests. -/
def Rests (cfg : DispatcherConfig T) (c : Nat) (s : DispatcherState T) : Prop :=
  ∃ actions t caller, Path (dispatcherStep cfg) (OwnStep c) s actions t ∧
    t.callers[c]? = some caller ∧ caller.pc.resting = true ∧ t.items = s.items

section Steps

variable {cfg : DispatcherConfig T} {s t : DispatcherState T} {c : Nat} {caller : Caller T}
  {item : Item T}

theorem Rests.here (present : s.callers[c]? = some caller) (resting : caller.pc.resting = true) :
    Rests cfg c s :=
  ⟨[], s, caller, Path.nil, present, resting, rfl⟩

theorem Rests.back (present : s.callers[c]? = some caller) (known : s.items[c]? = some item)
    (taken : dispatchEvent cfg s c caller item .step = some t) (items : t.items = s.items)
    (rests : Rests cfg c t) : Rests cfg c s := by
  obtain ⟨actions, last, later, path, found, resting, same⟩ := rests
  refine ⟨.call c .step :: actions, last, later, Path.cons rfl ?_ path, found, resting,
    same.trans items⟩
  simp [dispatcherStep, present, known, taken]

/-- One step of the call changes its program counter only. -/
theorem Rests.setPc (present : s.callers[c]? = some caller) (known : s.items[c]? = some item)
    (later : Caller T) (taken : dispatchEvent cfg s c caller item .step =
      some { s with callers := s.callers.set c later })
    (rests : { s with callers := s.callers.set c later }.callers[c]? = some later →
      Rests cfg c { s with callers := s.callers.set c later }) : Rests cfg c s :=
  .back present known taken rfl
    (rests (List.getElem?_set_self (List.getElem?_eq_some_iff.mp present).1))

/-- The step a call takes is decided by its program counter. -/
theorem dispatchEvent_at {pc : DispatchPc T} {event : CallEvent} (at_ : caller.pc = pc) :
    dispatchEvent cfg s c caller item event =
      dispatchEvent cfg s c { caller with pc := pc } item event := by
  rw [← at_]

theorem rests_of_arming (present : s.callers[c]? = some caller) (known : s.items[c]? = some item)
    (pc : caller.pc = .arming) : Rests cfg c s :=
  .setPc present known { caller with pc := .parked (some (s.deadlineOf caller.job)) }
    (dispatchEvent_at pc) fun found => .here found rfl

theorem rests_of_choosing (present : s.callers[c]? = some caller) (known : s.items[c]? = some item)
    (pc : caller.pc = .choosing) : Rests cfg c s := by
  refine .setPc present known { caller with pc := dispatchPark s caller } (dispatchEvent_at pc) ?_
  intro found
  by_cases armed : caller.guard = .cancelledOrClientGone ∧ s.pollersOf caller.job = 0
  · have parks : dispatchPark s caller = .arming := if_pos armed
    exact rests_of_arming found known parks
  · have parks : dispatchPark s caller = .parked none := if_neg armed
    exact .here found (by simp [parks, DispatchPc.resting])

/-- The item is gone from the map, so an attempt to take it back ends in waiting. -/
theorem rests_of_removing (present : s.callers[c]? = some caller)
    (known : s.items[c]? = some item) (out : s.pending.lookup caller.jobId = none)
    (error : ActionError) (taken : dispatchEvent cfg s c caller item .step =
      some (dispatchRemove s c caller error)) : Rests cfg c s := by
  refine .setPc present known { caller with pc := .awaitReply } ?_ fun found => .here found rfl
  rw [taken, dispatchRemove, out]
  rfl

theorem rests_of_rechecking_gone (present : s.callers[c]? = some caller)
    (known : s.items[c]? = some item) (out : s.pending.lookup caller.jobId = none)
    (pc : caller.pc = .rechecking) (passed : ¬ s.now < s.deadlineOf caller.job) :
    Rests cfg c s := by
  have rechecks : dispatchEvent cfg s c caller item .step =
      some (if s.now < s.deadlineOf caller.job then s.setPc c caller .looking
        else dispatchRemove s c caller .clientGone) := dispatchEvent_at pc
  refine rests_of_removing present known out .clientGone ?_
  rw [rechecks, if_neg passed]

theorem rests_of_abandoning_gone (present : s.callers[c]? = some caller)
    (known : s.items[c]? = some item) (out : s.pending.lookup caller.jobId = none)
    (pc : caller.pc = .abandoning .clientGone) (nobody : ¬ 0 < s.pollersOf caller.job)
    (passed : ¬ s.now < s.deadlineOf caller.job) : Rests cfg c s := by
  refine .setPc present known { caller with pc := .rechecking } ?_ ?_
  · rw [dispatchEvent_at pc]
    exact congrArg some (congrArg (s.setPc c caller) (if_neg nobody))
  · intro found
    exact rests_of_rechecking_gone found known out rfl passed

theorem rests_of_lookingDeadline_unpolled (present : s.callers[c]? = some caller)
    (known : s.items[c]? = some item) (out : s.pending.lookup caller.jobId = none)
    (pc : caller.pc = .lookingDeadline) (nobody : ¬ 0 < s.pollersOf caller.job) :
    Rests cfg c s := by
  by_cases ahead : s.now < s.deadlineOf caller.job
  · refine .setPc present known { caller with pc := .choosing } ?_ ?_
    · rw [dispatchEvent_at pc]
      exact congrArg some (congrArg (s.setPc c caller) (if_pos ahead))
    · intro found
      exact rests_of_choosing found known rfl
  · refine .setPc present known { caller with pc := .abandoning .clientGone } ?_ ?_
    · rw [dispatchEvent_at pc]
      exact congrArg some (congrArg (s.setPc c caller) (if_neg ahead))
    · intro found
      exact rests_of_abandoning_gone found known out rfl nobody ahead

theorem rests_of_lookingPollers (present : s.callers[c]? = some caller)
    (known : s.items[c]? = some item) (out : s.pending.lookup caller.jobId = none)
    (pc : caller.pc = .lookingPollers) : Rests cfg c s := by
  by_cases polled : 0 < s.pollersOf caller.job
  · refine .setPc present known { caller with pc := .choosing } ?_ ?_
    · rw [dispatchEvent_at pc]
      exact congrArg some (congrArg (s.setPc c caller) (if_pos polled))
    · intro found
      exact rests_of_choosing found known rfl
  · refine .setPc present known { caller with pc := .lookingDeadline } ?_ ?_
    · rw [dispatchEvent_at pc]
      exact congrArg some (congrArg (s.setPc c caller) (if_neg polled))
    · intro found
      exact rests_of_lookingDeadline_unpolled found known out rfl polled

theorem rests_of_cancelled (present : s.callers[c]? = some caller)
    (known : s.items[c]? = some item) (out : s.pending.lookup caller.jobId = none)
    (pc : caller.pc = .abandoning .cancelled) (cancelled : s.cancelledOf caller.job = true) :
    Rests cfg c s := by
  refine rests_of_removing present known out .cancelled ?_
  rw [dispatchEvent_at pc]
  exact congrArg some (if_pos cancelled)

theorem rests_of_looking (present : s.callers[c]? = some caller) (known : s.items[c]? = some item)
    (out : s.pending.lookup caller.jobId = none) (pc : caller.pc = .looking) : Rests cfg c s := by
  have moves : ∀ after, dispatchLook s c caller =
      s.setPc c { caller with armed := s.notificationsOf caller.job } after →
      dispatchEvent cfg s c caller item .step = some { s with
        callers := (s.callers.set c
          { caller with armed := s.notificationsOf caller.job, pc := after }) } := by
    intro after looks
    have steps : dispatchEvent cfg s c caller item .step = some (dispatchLook s c caller) :=
      dispatchEvent_at pc
    rw [steps, looks]
    rfl
  cases guard : caller.guard with
  | none =>
      refine .setPc present known _ (moves .choosing (by simp [dispatchLook, guard])) ?_
      intro found
      exact rests_of_choosing found known rfl
  | cancelled =>
      by_cases cancelled : s.cancelledOf caller.job = true
      · refine .setPc present known _ (moves (.abandoning .cancelled)
          (by simp [dispatchLook, guard, cancelled])) ?_
        intro found
        exact rests_of_cancelled found known out rfl cancelled
      · refine .setPc present known _ (moves .choosing
          (by simp [dispatchLook, guard, cancelled])) ?_
        intro found
        exact rests_of_choosing found known rfl
  | cancelledOrClientGone =>
      by_cases cancelled : s.cancelledOf caller.job = true
      · refine .setPc present known _ (moves (.abandoning .cancelled)
          (by simp [dispatchLook, guard, cancelled])) ?_
        intro found
        exact rests_of_cancelled found known out rfl cancelled
      · refine .setPc present known _ (moves .lookingPollers
          (by simp [dispatchLook, guard, cancelled])) ?_
        intro found
        exact rests_of_lookingPollers found known out rfl

theorem rests_of_rechecking (present : s.callers[c]? = some caller)
    (known : s.items[c]? = some item) (out : s.pending.lookup caller.jobId = none)
    (pc : caller.pc = .rechecking) : Rests cfg c s := by
  by_cases ahead : s.now < s.deadlineOf caller.job
  · refine .setPc present known { caller with pc := .looking } ?_ ?_
    · rw [dispatchEvent_at pc]
      exact congrArg some (if_pos ahead)
    · intro found
      exact rests_of_looking found known out rfl
  · exact rests_of_rechecking_gone present known out pc ahead

theorem rests_of_abandoning (present : s.callers[c]? = some caller)
    (known : s.items[c]? = some item) (out : s.pending.lookup caller.jobId = none)
    {error : ActionError} (pc : caller.pc = .abandoning error) : Rests cfg c s := by
  have looks : dispatchAbandon s c caller error = s.setPc c caller .looking → Rests cfg c s := by
    intro again
    have steps : dispatchEvent cfg s c caller item .step =
        some (dispatchAbandon s c caller error) := by
      rw [dispatchEvent_at pc]
      cases error <;> rfl
    refine .setPc present known { caller with pc := .looking } ?_ ?_
    · rw [steps, again]
      rfl
    · intro found
      exact rests_of_looking found known out rfl
  cases error with
  | cancelled =>
      by_cases cancelled : s.cancelledOf caller.job = true
      · exact rests_of_cancelled present known out pc cancelled
      · exact looks (by simp [dispatchAbandon, cancelled])
  | clientGone =>
      by_cases polled : 0 < s.pollersOf caller.job
      · exact looks (by simp [dispatchAbandon, polled])
      · refine .setPc present known { caller with pc := .rechecking } ?_ ?_
        · rw [dispatchEvent_at pc]
          exact congrArg some (congrArg (s.setPc c caller) (if_neg polled))
        · intro found
          exact rests_of_rechecking found known out rfl
  | _ => exact looks rfl

theorem rests_of_lookingDeadline (present : s.callers[c]? = some caller)
    (known : s.items[c]? = some item) (out : s.pending.lookup caller.jobId = none)
    (pc : caller.pc = .lookingDeadline) : Rests cfg c s := by
  by_cases ahead : s.now < s.deadlineOf caller.job
  · refine .setPc present known { caller with pc := .choosing } ?_ ?_
    · rw [dispatchEvent_at pc]
      exact congrArg some (congrArg (s.setPc c caller) (if_pos ahead))
    · intro found
      exact rests_of_choosing found known rfl
  · refine .setPc present known { caller with pc := .abandoning .clientGone } ?_ ?_
    · rw [dispatchEvent_at pc]
      exact congrArg some (congrArg (s.setPc c caller) (if_neg ahead))
    · intro found
      exact rests_of_abandoning found known out rfl

theorem rests_of_enqueue (present : s.callers[c]? = some caller) (known : s.items[c]? = some item)
    (out : s.pending.lookup caller.jobId = none) (pc : caller.pc = .enqueue) : Rests cfg c s := by
  let queue := if s.queueClosed then s.queue else s.queue ++ [caller.job]
  have taken : dispatchEvent cfg s c caller item .step =
      some ({ s with queue := queue }.setPc c caller .looking) := dispatchEvent_at pc
  refine .back present known taken rfl ?_
  have found : ({ s with queue := queue }.setPc c caller .looking).callers[c]? =
      some { caller with pc := .looking } :=
    List.getElem?_set_self (List.getElem?_eq_some_iff.mp present).1
  exact rests_of_looking found known out rfl

/-- A waiting call whose item is out of the map comes to rest. -/
theorem rests_of_waits (present : s.callers[c]? = some caller) (known : s.items[c]? = some item)
    (out : s.pending.lookup caller.jobId = none) (waits : caller.pc.waits = true) :
    Rests cfg c s := by
  cases pc : caller.pc with
  | enqueue => exact rests_of_enqueue present known out pc
  | looking => exact rests_of_looking present known out pc
  | lookingPollers => exact rests_of_lookingPollers present known out pc
  | lookingDeadline => exact rests_of_lookingDeadline present known out pc
  | abandoning error => exact rests_of_abandoning present known out pc
  | rechecking => exact rests_of_rechecking present known out pc
  | choosing => exact rests_of_choosing present known pc
  | arming => exact rests_of_arming present known pc
  | parked timer | awaitReply => exact .here present (by rw [pc]; rfl)
  | _ => simp [pc, DispatchPc.waits] at waits

/-- A call at rest receives a reply that has been sent. -/
theorem receives_of_resting (present : s.callers[c]? = some caller)
    (known : s.items[c]? = some item) (resting : caller.pc.resting = true) {sender : Remover}
    {value : Except ActionError T} (sent : item.reply = .sent sender value) :
    dispatcherStep cfg s (.call c .reply) =
      some (s.setPc c caller (.returned .answered value)) := by
  have receives : dispatchReceive s c caller item =
      some (s.setPc c caller (.returned .answered value)) := by
    rw [dispatchReceive, sent]
  cases pc : caller.pc with
  | parked timer | awaitReply =>
      rw [dispatcherStep, present, known, ← receives]
      exact dispatchEvent_at pc
  | _ => simp [pc, DispatchPc.resting] at resting

end Steps

end BitsBroker
