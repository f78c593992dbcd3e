import BitsBroker.Dispatcher.Winner
import BitsBroker.Lib.Counting

/-!
The permits of the admission semaphore. A permit is with the semaphore, with a call that has not
put its item into the map, with an item in the map, or with an item that was taken out and whose
taker has not dropped it yet. So the permits that are left tell how many items the map can take.
-/

namespace BitsBroker

open Transition Table Counting

variable {T : Type}

/-- The call has its permit and has not put its item into the map. -/
def DispatchPc.permitted : DispatchPc T → Bool
  | .checkClosing | .insert => true
  | _ => false

/-- The permits that are not with the semaphore are with items, and an item in the map has
one. -/
structure PermitsCounted (cfg : DispatcherConfig T) (s : DispatcherState T) : Prop where
  owned : Owned s
  total : s.permits + s.items.countP Item.permit = cfg.capacity
  early (i : Nat) (caller : Caller T) (item : Item T) : s.callers[i]? = some caller →
    s.items[i]? = some item → caller.pc.early = true → item.permit = caller.pc.permitted
  mapped (jobId : String) (c : Nat) (item : Item T) :
    s.holding (.map jobId) = some (c, .live) → s.items[c]? = some item → item.permit = true

structure PermitWf (cfg : DispatcherConfig T) (s : DispatcherState T) : Prop where
  wf : WinnerWf s
  total : s.permits + s.items.countP Item.permit = cfg.capacity
  early (i : Nat) (caller : Caller T) (item : Item T) : s.callers[i]? = some caller →
    s.items[i]? = some item → caller.pc.early = true → item.permit = caller.pc.permitted
  mapped (jobId : String) (c : Nat) (item : Item T) :
    s.holding (.map jobId) = some (c, .live) → s.items[c]? = some item → item.permit = true
  kept (c : Nat) (caller : Caller T) (item : Item T) : s.callers[c]? = some caller →
    s.items[c]? = some item → caller.pc.early = false → item.permit = true →
    s.remover c = none → s.holding (.map caller.jobId) = some (c, .live)

section Balance

open DispatcherState

variable {cfg : DispatcherConfig T} {s next : DispatcherState T} {action : DispatcherAction T}
  {i c : Nat} {caller : Caller T} {item later : Item T}

/-- The step gives back every permit that its items lose. -/
def Balanced (s next : DispatcherState T) : Prop :=
  next.permits + next.items.countP Item.permit = s.permits + s.items.countP Item.permit

theorem Balanced.of_same (permits : next.permits = s.permits) (items : next.items = s.items) :
    Balanced s next := by
  rw [Balanced, permits, items]

theorem Balanced.put {t : DispatcherState T} (known : s.items[c]? = some item)
    (fewer : later.permit = true → item.permit = true)
    (permits : t.permits = if item.permit && !later.permit then s.permits + 1 else s.permits)
    (items : t.items = s.items.set c later) : Balanced s t := by
  have counted := countP_set_add (p := Item.permit) known later
  rw [Balanced, permits, items]
  cases before : item.permit with
  | false =>
      have after : later.permit = false := by
        by_contra kept
        simp [before] at fewer
        simp [fewer] at kept
      simp only [before, after, Bool.toNat_false] at counted
      simp only [Bool.false_and, Bool.false_eq_true, if_false]
      omega
  | true =>
      cases after : later.permit with
      | true =>
          simp only [before, after, Bool.toNat_true] at counted
          simp only [Bool.not_true, Bool.and_false, Bool.false_eq_true, if_false]
          omega
      | false =>
          simp only [before, after, Bool.toNat_true, Bool.toNat_false] at counted
          simp only [Bool.not_false, Bool.and_true, if_true]
          omega

theorem dispatchBegun_balanced (known : s.items[i]? = some item) {event : CallEvent}
    (taken : dispatchBegun cfg s i caller item event = some next) : Balanced s next := by
  unfold dispatchBegun at taken
  repeat' split at taken
  all_goals
    try simp only [Option.some.injEq, reduceCtorEq] at taken
  all_goals subst taken
  next => exact .of_same rfl rfl
  all_goals exact .put known (by simp [Item.discard]) rfl rfl

theorem dispatchRemove_balanced (error : ActionError) :
    Balanced s (dispatchRemove s i caller error) := by
  unfold dispatchRemove
  split <;> exact .of_same rfl rfl

theorem dispatchReceive_balanced (taken : dispatchReceive s i caller item = some next) :
    Balanced s next := by
  unfold dispatchReceive at taken
  split at taken
  · simp at taken
  all_goals
    simp only [Option.some.injEq] at taken
    exact taken ▸ .of_same rfl rfl

theorem dispatchAcquire_balanced (known : s.items[i]? = some item) (none_ : item.permit = false) :
    Balanced s (dispatchAcquire s i caller item) := by
  unfold dispatchAcquire
  split
  · exact .put known (by simp [Item.discard]) rfl rfl
  · split
    · exact .put known (by simp [Item.discard]) rfl rfl
    next some_ =>
      have counted : (s.items.set i { item with permit := true }).countP Item.permit =
          s.items.countP Item.permit + 1 := countP_set_succ known none_ rfl
      show s.permits - 1 + (s.items.set i { item with permit := true }).countP Item.permit = _
      omega

theorem dispatchEvent_balanced (known : s.items[i]? = some item)
    (none_ : caller.pc = .acquire → item.permit = false) {event : CallEvent}
    (taken : dispatchEvent cfg s i caller item event = some next) : Balanced s next := by
  unfold dispatchEvent at taken
  split at taken
  next => exact dispatchBegun_balanced known taken
  all_goals
    try simp only [Option.some.injEq, Option.map_eq_some_iff, reduceCtorEq] at taken
  next pc => exact taken ▸ dispatchAcquire_balanced known (none_ pc)
  next =>
    subst taken
    unfold dispatchBuild
    split
    · exact .put known (by simp [Item.discard]) rfl rfl
    · exact .put known (by simp) rfl rfl
  next =>
    subst taken
    unfold dispatchInsert
    split
    · exact .put known (by simp [Item.discard]) rfl rfl
    · exact .of_same rfl rfl
  next =>
    obtain ⟨previous, found, rfl⟩ := taken
    exact .put found (by simp [Item.discard]) rfl rfl
  next => exact taken ▸ .of_same rfl rfl
  next => exact taken ▸ .of_same rfl rfl
  next => exact taken ▸ .of_same rfl rfl
  next => exact taken ▸ .of_same rfl rfl
  next =>
    subst taken
    unfold dispatchAbandon
    split
    · split
      · exact dispatchRemove_balanced _
      · exact .of_same rfl rfl
    · exact .of_same rfl rfl
    · exact .of_same rfl rfl
  next =>
    subst taken
    split
    · exact .of_same rfl rfl
    · exact dispatchRemove_balanced _
  next =>
    obtain ⟨removed, found, rfl⟩ := taken
    exact .put found (by simp [Item.discard]) rfl rfl
  next => exact taken ▸ .of_same rfl rfl
  next => exact taken ▸ .of_same rfl rfl
  next => exact dispatchReceive_balanced taken
  next =>
    split at taken
    · simp only [Option.some.injEq] at taken
      exact taken ▸ .of_same rfl rfl
    · simp at taken
  next =>
    split at taken
    · simp only [Option.some.injEq] at taken
      exact taken ▸ .of_same rfl rfl
    · simp at taken
  next => exact taken ▸ .of_same rfl rfl
  next => exact dispatchReceive_balanced taken
  next => exact taken ▸ .of_same rfl rfl

theorem workerItem_balanced {pc : WorkerPc T} {event : WorkerEvent T}
    (known : s.items[c]? = some item)
    (taken : workerItem s i c caller item pc event = some next) : Balanced s next := by
  unfold workerItem at taken
  split at taken
  all_goals
    try simp only [Option.some.injEq, reduceCtorEq] at taken
  next => exact taken ▸ .put known (by simp) rfl rfl
  next =>
    split at taken
    · simp only [Option.some.injEq] at taken
      exact taken ▸ .put known (by simp [Item.discard]) rfl rfl
    · simp only [Option.some.injEq] at taken
      exact taken ▸ .of_same rfl rfl
  next =>
    subst taken
    unfold workerPoll
    repeat' split
    all_goals
      first
      | exact .of_same rfl rfl
      | exact .put known (by simp [Item.endWork]) rfl rfl
  next =>
    split at taken
    · simp only [Option.some.injEq] at taken
      exact taken ▸ .put known (by simp) rfl rfl
    · simp only [Option.some.injEq] at taken
      exact taken ▸ .of_same rfl rfl
  next =>
    split at taken
    · simp only [Option.some.injEq] at taken
      exact taken ▸ .put known (by simp) rfl rfl
    · simp only [Option.some.injEq] at taken
      exact taken ▸ .put known (by simp [Item.endWork]) rfl rfl
  next => exact taken ▸ .put known (by simp [Item.endWork]) rfl rfl
  next => exact taken ▸ .put known (by simp [Item.discard]) rfl rfl
  next => exact taken ▸ .put known (by simp) rfl rfl

theorem workerEvent_balanced {pc : WorkerPc T} {event : WorkerEvent T}
    (taken : workerEvent s i pc event = some next) : Balanced s next := by
  unfold workerEvent at taken
  split at taken
  next =>
    simp only [Option.map_eq_some_iff] at taken
    obtain ⟨job, _, rfl⟩ := taken
    exact .of_same rfl rfl
  next =>
    split at taken
    · simp only [Option.some.injEq] at taken
      exact taken ▸ .of_same rfl rfl
    · simp at taken
  next =>
    simp only [workerRemove, Option.map_eq_some_iff] at taken
    obtain ⟨handle, _, rfl⟩ := taken
    split <;> exact .of_same rfl rfl
  next =>
    simp only [Option.bind_eq_some_iff] at taken
    obtain ⟨c, _, caller, _, item, known, taken⟩ := taken
    exact workerItem_balanced known taken

theorem handlerRefuse_balanced (known : s.items[c]? = some item) (error : ActionError) :
    Balanced s (handlerRefuse s i c caller item error) :=
  .put known (by simp) rfl rfl

theorem handlerItem_balanced {pc : HandlerPc} (known : s.items[c]? = some item)
    (taken : handlerItem s i c caller item pc = some next) : Balanced s next := by
  unfold handlerItem at taken
  split at taken
  all_goals
    try simp only [Option.some.injEq, reduceCtorEq] at taken
  next => exact taken ▸ .put known (by simp) rfl rfl
  next =>
    split at taken
    · simp only [Option.some.injEq] at taken
      exact taken ▸ .put known (by simp [Item.discard]) rfl rfl
    · simp only [Option.some.injEq] at taken
      exact taken ▸ .of_same rfl rfl
  next =>
    subst taken
    unfold handlerCheck
    repeat' split
    all_goals
      first
      | exact .of_same rfl rfl
      | exact handlerRefuse_balanced known _
  next =>
    split at taken
    all_goals
      simp only [Option.some.injEq] at taken
      exact taken ▸ .of_same rfl rfl
  next =>
    split at taken
    · simp only [Option.some.injEq] at taken
      exact taken ▸ .of_same rfl rfl
    · simp only [Option.some.injEq] at taken
      exact taken ▸ handlerRefuse_balanced known _
  next =>
    simp only [handlerClaim, Option.map_eq_some_iff] at taken
    obtain ⟨handle, _, rfl⟩ := taken
    exact .put known (by simp) rfl rfl
  next =>
    simp only [Option.map_eq_some_iff] at taken
    obtain ⟨displaced, found, rfl⟩ := taken
    exact .put found (by simp) rfl rfl
  next => exact taken ▸ .put known (by simp) rfl rfl
  next => exact taken ▸ .put known (by simp [Item.endWork]) rfl rfl

theorem handlerEvent_balanced {pc : HandlerPc} {event : HandlerEvent}
    (taken : handlerEvent s i pc event = some next) : Balanced s next := by
  unfold handlerEvent at taken
  split at taken
  · split at taken
    · simp only [Option.map_eq_some_iff] at taken
      obtain ⟨job, _, rfl⟩ := taken
      exact .of_same rfl rfl
    · simp at taken
  · split at taken
    · simp only [Option.some.injEq] at taken
      exact taken ▸ .of_same rfl rfl
    · simp at taken
  · split at taken
    · simp only [handlerRemove, Option.map_eq_some_iff] at taken
      obtain ⟨handle, _, rfl⟩ := taken
      split <;> exact .of_same rfl rfl
    · simp only [Option.bind_eq_some_iff] at taken
      obtain ⟨c, _, caller, _, item, known, taken⟩ := taken
      exact handlerItem_balanced known taken

theorem settle_balanced {jobId : String} {outcome : Outcome T}
    (taken : settle s jobId outcome = some next) : Balanced s next := by
  simp only [settle, Option.bind_eq_some_iff, Option.map_eq_some_iff] at taken
  obtain ⟨entry, _, item, known, rfl⟩ := taken
  exact .put known (by simp) rfl rfl

theorem forwardOutcome_balanced (known : s.items[c]? = some item)
    (taken : forwardOutcome s c caller item = some next) : Balanced s next := by
  unfold forwardOutcome at taken
  split at taken
  · split at taken
    · simp only [Option.some.injEq] at taken
      exact taken ▸ .put known (by simp) rfl rfl
    · simp only [Option.some.injEq] at taken
      exact taken ▸ .put known (by simp) rfl rfl
    · simp at taken
  · simp at taken

theorem closerEvent_balanced {pc : CloserPc} {event : CloserEvent}
    (taken : closerEvent s i pc event = some next) : Balanced s next := by
  unfold closerEvent at taken
  split at taken
  all_goals
    try simp only [Option.some.injEq, Option.bind_eq_some_iff, Option.map_eq_some_iff,
      reduceCtorEq] at taken
  next => exact taken ▸ .of_same rfl rfl
  next => exact taken ▸ .of_same rfl rfl
  next => exact taken ▸ .of_same rfl rfl
  next =>
    obtain ⟨c, _, item, known, rfl⟩ := taken
    exact .put known (by simp) rfl rfl
  next =>
    split at taken
    · simp only [Option.some.injEq] at taken
      exact taken ▸ .of_same rfl rfl
    · simp at taken
  next =>
    obtain ⟨caller, _, item, known, rfl⟩ := taken
    exact .put known (by simp) rfl rfl
  next => exact taken ▸ .of_same rfl rfl

theorem dispatcherStep_balanced
    (none_ : ∀ (i : Nat) caller item, s.callers[i]? = some caller → s.items[i]? = some item →
      caller.pc = .acquire → item.permit = false)
    (taken : dispatcherStep cfg s action = some next) : Balanced s next := by
  cases action with
  | advance elapsed | submit job | shutdown | close =>
      simp only [dispatcherStep, Option.some.injEq] at taken
      exact taken ▸ .of_same rfl rfl
  | flag job flag =>
      simp only [dispatcherStep, Option.map_eq_some_iff] at taken
      obtain ⟨handle, _, rfl⟩ := taken
      exact .of_same rfl rfl
  | dispatch job guard =>
      simp only [dispatcherStep, dispatch, Option.map_eq_some_iff] at taken
      obtain ⟨handle, _, rfl⟩ := taken
      simp [Balanced, List.countP_append, Item.new]
  | call i event =>
      simp only [dispatcherStep, Option.bind_eq_some_iff] at taken
      obtain ⟨caller, present, item, known, taken⟩ := taken
      exact dispatchEvent_balanced known (none_ i caller item present known) taken
  | worker i event =>
      simp only [dispatcherStep, Option.bind_eq_some_iff] at taken
      obtain ⟨pc, _, taken⟩ := taken
      exact workerEvent_balanced taken
  | lose index =>
      simp only [dispatcherStep] at taken
      split at taken
      · simp only [Option.some.injEq] at taken
        exact taken ▸ .of_same rfl rfl
      · simp at taken
  | getWork =>
      simp only [dispatcherStep] at taken
      split at taken
      · simp at taken
      · simp only [Option.some.injEq] at taken
        exact taken ▸ .of_same rfl rfl
  | handler i event =>
      simp only [dispatcherStep, Option.bind_eq_some_iff] at taken
      obtain ⟨pc, _, taken⟩ := taken
      exact handlerEvent_balanced taken
  | heartbeat jobId =>
      simp only [dispatcherStep, heartbeatJob, Option.map_eq_some_iff] at taken
      obtain ⟨entry, _, rfl⟩ := taken
      exact .of_same rfl rfl
  | complete jobId outcome =>
      simp only [dispatcherStep, completeJob] at taken
      split at taken
      · simp at taken
      · exact settle_balanced taken
  | evict jobId =>
      simp only [dispatcherStep, evictJob] at taken
      split at taken
      · simp at taken
      · simp only [Option.bind_eq_some_iff] at taken
        obtain ⟨entry, _, taken⟩ := taken
        split at taken
        · exact settle_balanced taken
        · simp at taken
  | forward i =>
      simp only [dispatcherStep, Option.bind_eq_some_iff] at taken
      obtain ⟨caller, _, item, known, taken⟩ := taken
      exact forwardOutcome_balanced known taken
  | closer i event =>
      simp only [dispatcherStep, Option.bind_eq_some_iff] at taken
      obtain ⟨pc, _, taken⟩ := taken
      exact closerEvent_balanced taken

end Balance

section Step

variable {cfg : DispatcherConfig T} {s next : DispatcherState T} {action : DispatcherAction T}
  {i c : Nat} {caller : Caller T} {item : Item T} {jobId : String}

theorem WinnerWf.late_of_mapped (wf : WinnerWf s) (found : s.holding (.map jobId) = some (c, .live))
    (present : s.callers[c]? = some caller) : caller.pc.early = false := by
  obtain ⟨own, known, _, given, _⟩ := wf.named jobId c .live found
  obtain rfl := Option.some.inj (known.symm.trans present)
  exact given_not_early given

theorem WinnerWf.late_of_removed (wf : WinnerWf s) {sender : Remover}
    (removed : s.remover c = some sender) (present : s.callers[c]? = some caller) :
    caller.pc.early = false := by
  obtain ⟨item, _, ok⟩ := wf.pcOk present
  cases pc : caller.pc with
  | begun | acquire | checkClosing | insert =>
      rw [pc] at ok
      obtain ⟨unremoved, _⟩ := ok
      simp [removed] at unremoved
  | _ => rfl

theorem WinnerWf.jobId_ne (wf : WinnerWf s) (found : s.holding (.map jobId) = some (c, .live))
    (present : s.callers[i]? = some caller) (different : i ≠ c) : caller.jobId ≠ jobId := by
  rintro rfl
  exact different (wf.own_item present found).symm

theorem WinnerWf.unremoved_of_mapped (wf : WinnerWf s)
    (found : s.holding (.map jobId) = some (c, .live)) : s.remover c = none := by
  obtain ⟨_, _, _, _, unremoved⟩ := wf.named jobId c .live found
  exact unremoved

theorem WinnerWf.undisplaced (wf : WinnerWf s) (present : s.callers[i]? = some caller) {d : Nat}
    (pc : caller.pc = .displacing d) : False := by
  obtain ⟨_, _, ok⟩ := wf.pcOk present
  rw [pc] at ok
  exact ok

/-- A call discards its own item. -/
theorem WinnerWf.discards (wf : WinnerWf s) (present : s.callers[i]? = some caller)
    {error : ActionError} {d : Nat} (pc : caller.pc = .discarding error d) :
    d = i ∧ s.remover i = some .caller := by
  obtain ⟨_, _, ok⟩ := wf.pcOk present
  rw [pc] at ok
  exact ok

theorem LooseStep.permit_eq {later : Item T} (step : LooseStep s c item later) :
    later.permit = item.permit := by
  cases step <;> rfl

theorem PcMove.late_before {pc later : DispatchPc T} (step : PcMove item pc later)
    (late : later.early = false) : pc.early = false := by
  have before : ∀ {pc : DispatchPc T}, pc.waits = true → pc.early = false := by
    intro pc waits
    cases pc <;> simp_all [DispatchPc.early, DispatchPc.waits]
  cases step with
  | unlimited _ => simp [DispatchPc.early] at late
  | waiting waits _ => exact before waits
  | answered waits _ | unanswered waits _ | dropped waits => exact before waits

theorem PermitsCounted.early_step (permits : PermitsCounted cfg s) (move : Move cfg s next action) (i : Nat)
    (caller : Caller T) (item : Item T) (present : next.callers[i]? = some caller)
    (known : next.items[i]? = some item) (early : caller.pc.early = true) :
    item.permit = caller.pc.permitted := by
  have owned := permits.owned
  cases move with
  | idle _ items callers _ =>
      exact permits.early i caller item (callers ▸ present) (items ▸ known) early
  | dispatched _ callers items _ _ =>
      rw [callers] at present
      rw [items] at known
      have aligned := owned.aligned
      rcases getElem?_of_snoc present with old | ⟨last, rfl⟩
      · have bound := (List.getElem?_eq_some_iff.mp old).1
        rcases getElem?_of_snoc known with before | ⟨index, _⟩
        · exact permits.early i caller item old before early
        · omega
      · rcases getElem?_of_snoc known with before | ⟨_, rfl⟩
        · have bound := (List.getElem?_eq_some_iff.mp before).1
          omega
        · rfl
  | moved there found step _ callers items _ _ =>
      rw [callers] at present
      rw [items] at known
      rcases getElem?_of_set present with ⟨rfl, rfl⟩ | ⟨_, away⟩
      · obtain ⟨begun, acquires⟩ := step.permitted early
        have before := permits.early i _ item there known (by rw [begun]; rfl)
        rw [before, begun, acquires]
        rfl
      · exact permits.early i caller item away known early
  | admitted there found pc _ _ callers items _ _ _ =>
      rw [callers] at present
      rw [items] at known
      rcases getElem?_of_set_both present known with ⟨rfl, rfl, rfl⟩ | ⟨_, away, kept⟩
      · have before := permits.early i _ _ there found (by rw [pc]; rfl)
        rw [pc] at before
        exact before
      · exact permits.early i caller item away kept early
  | refused _ _ _ ends callers items _ _ _ _ =>
      rw [callers] at present
      rw [items] at known
      rcases getElem?_of_set_both present known with ⟨_, rfl, _⟩ | ⟨_, away, kept⟩
      · rcases ends with ⟨error, rfl⟩ | rfl
        · simp [DispatchPc.early] at early
        · simp [DispatchPc.early] at early
      · exact permits.early i caller item away kept early
  | acquired there found pc callers items _ _ =>
      rw [callers] at present
      rw [items] at known
      rcases getElem?_of_set_both present known with ⟨rfl, rfl, rfl⟩ | ⟨_, away, kept⟩
      · rfl
      · exact permits.early i caller item away kept early
  | built there found pc callers items _ _ =>
      rw [callers] at present
      rw [items] at known
      rcases getElem?_of_set_both present known with ⟨rfl, rfl, rfl⟩ | ⟨_, away, kept⟩
      · have before := permits.early i _ _ there found (by rw [pc]; rfl)
        rw [pc] at before
        exact before
      · exact permits.early i caller item away kept early
  | inserted _ _ ends _ callers items _ _ =>
      rw [callers] at present
      rw [items] at known
      rcases getElem?_of_set present with ⟨rfl, rfl⟩ | ⟨_, away⟩
      · rcases ends with ⟨d, pc, _⟩ | pc
        · simp [pc, DispatchPc.early] at early
        · simp [pc, DispatchPc.early] at early
      · exact permits.early i caller item away known early
  | displaced there pc _ callers items _ _ _ _ | abandoned there pc _ callers items _ _ _ _ =>
      rw [callers] at present
      rw [items] at known
      rcases getElem?_of_set present with ⟨rfl, rfl⟩ | ⟨different, away⟩
      · simp [DispatchPc.early] at early
      · have carried := DispatcherState.holding_call there
        rw [pc] at carried
        obtain ⟨_, old⟩ := owned.item_of away
        have other := owned.early away old early (by simpa using Ne.symm different) carried
        rw [List.getElem?_set_ne other] at known
        exact permits.early i caller item away known early
  | recalled _ _ _ _ callers items _ _ _ _ =>
      rw [callers] at present
      rw [items] at known
      rcases getElem?_of_set present with ⟨rfl, rfl⟩ | ⟨_, away⟩
      · simp [DispatchPc.early] at early
      · exact permits.early i caller item away known early
  | taken _ _ _ callers items _ _ _ _ =>
      exact permits.early i caller item (callers ▸ present) (items ▸ known) early
  | held place before _ _ callers items _ _ _ _ _ =>
      rw [callers] at present
      rw [items] at known
      obtain ⟨_, old⟩ := owned.item_of present
      have other := owned.early present old early
        (by rcases place with ⟨_, rfl⟩ | ⟨_, rfl⟩ <;> simp) before
      rw [List.getElem?_set_ne other] at known
      exact permits.early i caller item present known early
  | loose found step callers items _ _ =>
      rw [callers] at present
      rw [items] at known
      rcases getElem?_of_set known with ⟨rfl, rfl⟩ | ⟨_, away⟩
      · rw [step.permit_eq]
        exact permits.early i caller _ present found early
      · exact permits.early i caller item present away early
  | drained before _ callers items _ _ _ _ _ =>
      rw [callers] at present
      rw [items] at known
      obtain ⟨_, old⟩ := owned.item_of present
      have other := owned.early present old early (by simp) before
      rw [List.getElem?_set_ne other] at known
      exact permits.early i caller item present known early

theorem PermitsCounted.mapped_step (permits : PermitsCounted cfg s) (move : Move cfg s next action)
    (jobId : String) (c : Nat) (item : Item T)
    (found : next.holding (.map jobId) = some (c, .live)) (known : next.items[c]? = some item) :
    item.permit = true := by
  have owned := permits.owned
  have unchanged : s.holding (.map jobId) = some (c, .live) → s.items[c]? = some item →
      item.permit = true := fun before there => permits.mapped jobId c item before there
  cases move with
  | idle _ items _ holding | moved _ _ _ _ _ items _ holding =>
      exact unchanged (holding _ ▸ found) (items ▸ known)
  | dispatched _ _ items _ holding =>
      rw [holding] at found
      rw [items] at known
      obtain ⟨old, there, _⟩ := owned.held _ _ _ found
      have bound := (List.getElem?_eq_some_iff.mp there).1
      rcases getElem?_of_snoc known with before | ⟨last, _⟩
      · exact unchanged found before
      · omega
  | admitted _ old _ _ _ _ items _ _ holding =>
      rw [holding] at found
      rw [items] at known
      rcases getElem?_of_set known with ⟨rfl, rfl⟩ | ⟨_, away⟩
      · have before := permits.mapped jobId c _ found old
        exact before
      · exact unchanged found away
  | refused present old early _ _ items _ _ _ holding =>
      rw [holding, if_neg (by simp)] at found
      have other := owned.early present old early (by simp) found
      rw [items, List.getElem?_set_ne (Ne.symm other)] at known
      exact unchanged found known
  | acquired _ _ _ _ items _ holding =>
      rw [holding] at found
      rw [items] at known
      rcases getElem?_of_set known with ⟨_, rfl⟩ | ⟨_, away⟩
      · rfl
      · exact unchanged found away
  | built _ old _ _ items _ holding =>
      rw [holding, if_neg (by simp)] at found
      rw [items] at known
      rcases getElem?_of_set known with ⟨rfl, rfl⟩ | ⟨_, away⟩
      · have before := permits.mapped jobId c _ found old
        exact before
      · exact unchanged found away
  | @inserted i caller later _ present pc _ _ _ items _ holding =>
      rw [holding, if_neg (by simp)] at found
      rw [items] at known
      split at found
      · obtain ⟨rfl, _⟩ := Prod.mk.inj (Option.some.inj found)
        have early := permits.early i caller item present known (by rw [pc]; rfl)
        rw [early, pc]
        rfl
      · exact unchanged found known
  | displaced there pc _ _ items _ _ _ holding | abandoned there pc _ _ items _ _ _ holding =>
      rw [holding, if_neg (by simp)] at found
      have carried := DispatcherState.holding_call there
      rw [pc] at carried
      have other := owned.elsewhere carried found (by simp)
      rw [items, List.getElem?_set_ne (Ne.symm other)] at known
      exact unchanged found known
  | recalled _ _ _ _ _ items _ _ _ holding =>
      rw [holding, if_neg (by simp)] at found
      rw [items] at known
      split at found
      · simp at found
      · exact unchanged found known
  | taken place _ _ _ items _ _ _ holding =>
      rw [holding] at found
      rw [items] at known
      rw [if_neg (by rcases place with ⟨_, rfl⟩ | ⟨_, rfl⟩ <;> simp)] at found
      split at found
      · simp at found
      · exact unchanged found known
  | @held p _ _ _ _ _ _ place before _ _ _ items _ _ _ _ holding =>
      have apart : Place.map jobId ≠ p := by rcases place with ⟨_, rfl⟩ | ⟨_, rfl⟩ <;> simp
      rw [holding, if_neg apart] at found
      have other := owned.elsewhere before found apart
      rw [items, List.getElem?_set_ne (Ne.symm other)] at known
      exact unchanged found known
  | loose old step _ items _ holding =>
      rw [holding] at found
      rw [items] at known
      rcases getElem?_of_set known with ⟨rfl, rfl⟩ | ⟨_, away⟩
      · rw [step.permit_eq]
        exact permits.mapped jobId c _ found old
      · exact unchanged found away
  | drained before _ _ items _ _ _ _ holding =>
      rw [holding] at found
      rw [items] at known
      split at found
      · simp at found
      next other =>
        rcases getElem?_of_set known with ⟨rfl, _⟩ | ⟨_, away⟩
        · have same := owned.unique _ _ _ _ _ found before
          exact absurd same other
        · exact unchanged found away

theorem PermitsCounted.step (permits : PermitsCounted cfg s)
    (taken : dispatcherStep cfg s action = some next) : PermitsCounted cfg next := by
  have move := dispatcherStep_move taken
  have balanced : Balanced s next := by
    refine dispatcherStep_balanced ?_ taken
    intro i caller item present known pc
    have before := permits.early i caller item present known (by rw [pc]; rfl)
    rw [before, pc]
    rfl
  exact ⟨permits.owned.step move, balanced.trans permits.total, permits.early_step move,
    permits.mapped_step move⟩

theorem PermitsCounted.of_path {now : Nat} {actions : List (DispatcherAction T)}
    (path : Path (dispatcherStep cfg) Always (DispatcherState.new cfg now) actions s) :
    PermitsCounted cfg s := by
  refine path.invariant ?_ fun _ _ _ permits _ taken => permits.step taken
  constructor
  · exact Owned.initial cfg now
  · simp [DispatcherState.new]
  · simp [DispatcherState.new]
  · simp [DispatcherState.new, DispatcherState.holding]

theorem PermitWf.counted (permits : PermitWf cfg s) : PermitsCounted cfg s :=
  ⟨permits.wf.owned, permits.total, permits.early, permits.mapped⟩

theorem PermitWf.kept_step (permits : PermitWf cfg s) (move : Move cfg s next action) (c : Nat)
    (caller : Caller T) (item : Item T) (present : next.callers[c]? = some caller)
    (known : next.items[c]? = some item) (late : caller.pc.early = false)
    (permit : item.permit = true) (unremoved : next.remover c = none) :
    next.holding (.map caller.jobId) = some (c, .live) := by
  have wf := permits.wf
  have removed : ∀ {d : Nat} {sender : Remover},
      next.remover = Function.update s.remover d (some sender) → c ≠ d ∧ s.remover c = none := by
    intro d sender remover
    rw [remover] at unremoved
    by_cases here : c = d
    · subst here
      simp at unremoved
    · rw [Function.update_of_ne here] at unremoved
      exact ⟨here, unremoved⟩
  cases move with
  | idle quiet items callers holding =>
      rw [callers] at present
      rw [items] at known
      rw [quiet.remover] at unremoved
      rw [holding]
      exact permits.kept c caller item present known late permit unremoved
  | dispatched _ callers items quiet holding =>
      rw [callers] at present
      rw [items] at known
      rw [quiet.remover] at unremoved
      rw [holding]
      have aligned := wf.owned.aligned
      rcases getElem?_of_snoc present with old | ⟨_, rfl⟩
      · have bound := (List.getElem?_eq_some_iff.mp old).1
        rcases getElem?_of_snoc known with before | ⟨last, _⟩
        · exact permits.kept c caller item old before late permit unremoved
        · omega
      · simp [DispatchPc.early] at late
  | moved there _ step sameId callers items quiet holding =>
      rw [callers] at present
      rw [items] at known
      rw [quiet.remover] at unremoved
      rw [holding]
      rcases getElem?_of_set present with ⟨rfl, rfl⟩ | ⟨_, away⟩
      · rw [sameId]
        exact permits.kept c _ item there known (step.late_before late) permit unremoved
      · exact permits.kept c caller item away known late permit unremoved
  | admitted _ _ _ _ _ callers items remover _ holding =>
      rw [callers] at present
      rw [items] at known
      rw [remover] at unremoved
      rw [holding]
      rcases getElem?_of_set present with ⟨rfl, rfl⟩ | ⟨different, away⟩
      · simp [DispatchPc.early] at late
      · rw [List.getElem?_set_ne (Ne.symm different)] at known
        exact permits.kept c caller item away known late permit unremoved
  | refused there _ _ _ callers items _ remover _ holding =>
      rw [callers] at present
      rw [items] at known
      rw [remover] at unremoved
      rw [holding, if_neg (by simp)]
      rcases getElem?_of_set known with ⟨rfl, rfl⟩ | ⟨different, away⟩
      · simp [Item.discard] at permit
      · rw [List.getElem?_set_ne (Ne.symm different)] at present
        exact permits.kept c caller item present away late permit unremoved
  | acquired _ _ _ callers items quiet holding =>
      rw [callers] at present
      rw [items] at known
      rw [quiet.remover] at unremoved
      rw [holding]
      rcases getElem?_of_set present with ⟨rfl, rfl⟩ | ⟨different, away⟩
      · simp [DispatchPc.early] at late
      · rw [List.getElem?_set_ne (Ne.symm different)] at known
        exact permits.kept c caller item away known late permit unremoved
  | built _ _ _ callers items quiet holding =>
      rw [callers] at present
      rw [items] at known
      rw [quiet.remover] at unremoved
      rw [holding, if_neg (by simp)]
      rcases getElem?_of_set present with ⟨rfl, rfl⟩ | ⟨different, away⟩
      · simp [DispatchPc.early] at late
      · rw [List.getElem?_set_ne (Ne.symm different)] at known
        exact permits.kept c caller item away known late permit unremoved
  | @inserted i before later _ there _ _ sameId callers items quiet holding =>
      rw [callers] at present
      rw [items] at known
      rw [quiet.remover] at unremoved
      rw [holding, if_neg (by simp)]
      rcases getElem?_of_set present with ⟨rfl, rfl⟩ | ⟨different, away⟩
      · rw [if_pos (by rw [sameId])]
      · have apart : caller.jobId ≠ before.jobId := fun same =>
          different (wf.distinct c i caller before away there same)
        rw [if_neg (by simpa using apart)]
        exact permits.kept c caller item away known late permit unremoved
  | displaced there pc _ _ _ _ _ _ _ => exact (wf.undisplaced there pc).elim
  | @recalled i d before _ _ there _ _ mapped callers items _ remover _ holding =>
      obtain ⟨different, unremoved⟩ := removed remover
      obtain rfl := wf.own_item there mapped
      rw [callers, List.getElem?_set_ne (Ne.symm different)] at present
      rw [items] at known
      rw [holding, if_neg (by simp), if_neg (by simpa using wf.jobId_ne mapped present different)]
      exact permits.kept c caller item present known late permit unremoved
  | abandoned there pc _ callers items _ remover _ holding =>
      obtain ⟨rfl, _⟩ := wf.discards there pc
      rw [callers] at present
      rw [items] at known
      rw [remover] at unremoved
      rw [holding, if_neg (by simp)]
      rcases getElem?_of_set known with ⟨rfl, rfl⟩ | ⟨different, away⟩
      · simp [Item.discard] at permit
      · rw [List.getElem?_set_ne (Ne.symm different)] at present
        exact permits.kept c caller item present away late permit unremoved
  | taken place _ mapped callers items _ remover _ holding =>
      obtain ⟨different, unremoved⟩ := removed remover
      rw [callers] at present
      rw [items] at known
      rw [holding, if_neg (by rcases place with ⟨_, rfl⟩ | ⟨_, rfl⟩ <;> simp),
        if_neg (by simpa using wf.jobId_ne mapped present different)]
      exact permits.kept c caller item present known late permit unremoved
  | held place before _ _ callers items _ remover _ _ holding =>
      rw [callers] at present
      rw [items] at known
      rw [remover] at unremoved
      rw [holding, if_neg (by rcases place with ⟨_, rfl⟩ | ⟨_, rfl⟩ <;> simp)]
      rcases getElem?_of_set known with ⟨rfl, _⟩ | ⟨_, away⟩
      · have executes := wf.executors _ _ _ place before
        simp [unremoved] at executes
      · exact permits.kept c caller item present away late permit unremoved
  | loose old step callers items quiet holding =>
      rw [callers] at present
      rw [items] at known
      rw [quiet.remover] at unremoved
      rw [holding]
      rcases getElem?_of_set known with ⟨rfl, rfl⟩ | ⟨_, away⟩
      · rw [step.permit_eq] at permit
        exact permits.kept c caller _ present old late permit unremoved
      · exact permits.kept c caller item present away late permit unremoved
  | drained mapped _ callers items _ remover _ _ holding =>
      obtain ⟨different, unremoved⟩ := removed remover
      rw [callers] at present
      rw [items, List.getElem?_set_ne (Ne.symm different)] at known
      rw [holding, if_neg (by simpa using wf.jobId_ne mapped present different)]
      exact permits.kept c caller item present known late permit unremoved

theorem PermitWf.step (permits : PermitWf cfg s) (fresh : DistinctJobs s action)
    (taken : dispatcherStep cfg s action = some next) : PermitWf cfg next := by
  have counted := permits.counted.step taken
  exact ⟨permits.wf.step fresh taken, counted.total, counted.early, counted.mapped,
    permits.kept_step (dispatcherStep_move taken)⟩

theorem PermitWf.initial (cfg : DispatcherConfig T) (now : Nat) :
    PermitWf cfg (DispatcherState.new cfg now) where
  wf := WinnerWf.initial cfg now
  total := by simp [DispatcherState.new]
  early := by simp [DispatcherState.new]
  mapped := by simp [DispatcherState.new, DispatcherState.holding]
  kept := by simp [DispatcherState.new]

end Step

namespace DispatcherState

/-- The number of items that were taken out of the map and have their permit. -/
def unreleased (s : DispatcherState T) : Nat :=
  (List.range s.items.length).countP fun c => (s.remover c).isSome && s.items[c]?.any Item.permit

/-- The number of calls that have a permit and no entry in the map yet. -/
def permitted (s : DispatcherState T) : Nat := s.callers.countP (·.pc.permitted)

def waitsInMap (s : DispatcherState T) (c : Nat) : Bool :=
  (s.remover c).isNone && s.callers[c]?.any (fun caller => !caller.pc.early) &&
    s.items[c]?.any Item.permit

end DispatcherState

section Count

open DispatcherState

variable {cfg : DispatcherConfig T} {s : DispatcherState T}

theorem PermitWf.waitsInMap_iff (permits : PermitWf cfg s) (c : Nat) : s.waitsInMap c = true ↔
    ∃ caller, s.callers[c]? = some caller ∧ s.pending.lookup caller.jobId = some c := by
  have wf := permits.wf
  simp only [waitsInMap, Bool.and_eq_true, Option.isNone_iff_eq_none, Option.any_eq_true,
    Bool.not_eq_true']
  constructor
  · rintro ⟨⟨unremoved, caller, present, late⟩, item, known, permit⟩
    have found := permits.kept c caller item present known late permit unremoved
    refine ⟨caller, present, ?_⟩
    simpa [holding] using found
  · rintro ⟨caller, present, found⟩
    have mapped : s.holding (.map caller.jobId) = some (c, .live) := by simp [holding, found]
    obtain ⟨item, known, _⟩ := wf.owned.held _ _ _ mapped
    exact ⟨⟨wf.unremoved_of_mapped mapped, caller, present, wf.late_of_mapped mapped present⟩,
      item, known, permits.mapped _ c item mapped known⟩

/-- The entries of the map are the items that wait in it. -/
theorem PermitWf.size_eq (permits : PermitWf cfg s) :
    HashMap.size s.pending = (List.range s.items.length).countP s.waitsInMap := by
  have wf := permits.wf
  let name : Nat → Option String := fun c => s.callers[c]?.map (·.jobId)
  have entries : HashMap.size s.pending = s.pending.keys.countP fun _ => true := by
    rw [List.countP_true]
    rfl
  rw [entries]
  apply Nat.le_antisymm
  · refine countP_le_countP (f := some) (g := name) ?_ ?_
    · intro i j left right leftIn rightIn _ _ same
      obtain ⟨leftBound, rfl⟩ := List.getElem?_eq_some_iff.mp leftIn
      obtain ⟨rightBound, rfl⟩ := List.getElem?_eq_some_iff.mp rightIn
      exact s.pending.keys_nodup.getElem_inj_iff.mp (Option.some.inj same)
    · intro jobId inside _
      obtain ⟨c, found⟩ := Option.isSome_iff_exists.mp (AList.lookup_isSome.mpr inside)
      have mapped : s.holding (.map jobId) = some (c, .live) := by simp [holding, found]
      obtain ⟨caller, present, named, _⟩ := wf.named jobId c .live mapped
      have bound := (List.getElem?_eq_some_iff.mp present).1
      refine ⟨c, by rw [List.mem_range, wf.owned.aligned]; exact bound, ?_, ?_⟩
      · exact (permits.waitsInMap_iff c).mpr ⟨caller, present, by rw [named, found]⟩
      · simp [name, present, named]
  · refine countP_le_countP (f := name) (g := some) ?_ ?_
    · intro i j left right leftIn rightIn leftWaits rightWaits same
      obtain ⟨_, rfl⟩ := List.getElem?_eq_some_iff.mp leftIn
      obtain ⟨_, rfl⟩ := List.getElem?_eq_some_iff.mp rightIn
      simp only [List.getElem_range] at leftWaits rightWaits same
      obtain ⟨first, firstIn, _⟩ := (permits.waitsInMap_iff i).mp leftWaits
      obtain ⟨second, secondIn, _⟩ := (permits.waitsInMap_iff j).mp rightWaits
      simp only [name, firstIn, secondIn, Option.map_some, Option.some.injEq] at same
      exact wf.distinct i j first second firstIn secondIn same
    · intro c _ waits
      obtain ⟨caller, present, found⟩ := (permits.waitsInMap_iff c).mp waits
      refine ⟨caller.jobId, ?_, rfl, ?_⟩
      · exact AList.lookup_isSome.mp (by simp [found])
      · simp [name, present]

/-- The permits with calls on their way to the map. -/
theorem PermitWf.permitted_eq (permits : PermitWf cfg s) :
    s.permitted = (List.range s.items.length).countP fun c =>
      s.callers[c]?.any (·.pc.early) && s.items[c]?.any Item.permit := by
  have wf := permits.wf
  rw [permitted, ← countP_range_getElem? (fun caller : Caller T => caller.pc.permitted),
    wf.owned.aligned]
  refine List.countP_congr ?_
  intro c inside
  obtain ⟨caller, present⟩ : ∃ caller, s.callers[c]? = some caller :=
    ⟨_, List.getElem?_eq_getElem (List.mem_range.mp inside)⟩
  obtain ⟨item, known, _⟩ := wf.pcOk present
  rw [present, known, Option.any_some, Option.any_some, Option.any_some]
  cases early : caller.pc.early with
  | true => rw [permits.early c caller item present known early, Bool.true_and]
  | false =>
      have unpermitted : caller.pc.permitted = false := by
        cases pc : caller.pc <;> first | rfl | simp [pc, DispatchPc.early] at early
      rw [unpermitted, Bool.false_and]

/-- Every permit is with the semaphore, with a call, in the map or with a taker. -/
theorem PermitWf.exact (permits : PermitWf cfg s) :
    s.permits + HashMap.size s.pending + s.permitted + s.unreleased = cfg.capacity := by
  have wf := permits.wf
  have total := permits.total
  have kinds : (List.range s.items.length).countP (fun c => s.items[c]?.any Item.permit) =
      (List.range s.items.length).countP s.waitsInMap +
        (List.range s.items.length).countP (fun c =>
          s.callers[c]?.any (·.pc.early) && s.items[c]?.any Item.permit) + s.unreleased := by
    refine countP_eq_add ?_
    intro c inside
    obtain ⟨item, known⟩ : ∃ item, s.items[c]? = some item :=
      ⟨_, List.getElem?_eq_getElem (List.mem_range.mp inside)⟩
    obtain ⟨caller, present⟩ : ∃ caller, s.callers[c]? = some caller :=
      ⟨_, List.getElem?_eq_getElem (wf.owned.aligned ▸ List.mem_range.mp inside)⟩
    simp only [waitsInMap, known, present, Option.any_some]
    cases early : caller.pc.early with
    | true =>
        have unremoved : s.remover c = none := by
          by_contra taken
          obtain ⟨sender, removed⟩ := Option.ne_none_iff_exists'.mp taken
          simp [wf.late_of_removed removed present] at early
        simp [unremoved]
    | false => cases s.remover c <;> simp
  rw [countP_range_getElem?] at kinds
  rw [permits.size_eq, permits.permitted_eq]
  omega

end Count

end BitsBroker
