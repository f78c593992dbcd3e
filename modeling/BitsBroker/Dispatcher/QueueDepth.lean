import BitsBroker.Dispatcher.LocalProgress
import BitsBroker.Dispatcher.Permits

/-!
The queue depth gauge. A dispatch records the insertion of its item into the map; whoever takes
the item out records that: the taker after it has dropped the permit, a call that gives up before
it drops the item, and `close` for all that it drained. `Meter` adds these records to a dispatcher,
each as a step of its own that its party takes before it goes on. The gauge then differs from the
size of the map only by the parties that are between the two.
-/

namespace BitsBroker

open Transition Table Counting DispatcherState

variable {T : Type}

/-- Where an executor is with the item it takes out of the map. -/
inductive TakerStage where
  | away
  | removed (item : Nat)
  | unpermitted (item : Nat)
deriving DecidableEq

def TakerStage.item : TakerStage → Option Nat
  | .removed c | .unpermitted c => some c
  | .away => none

def WorkerPc.stage : WorkerPc T → TakerStage
  | .removed c => .removed c
  | .unpermitted c => .unpermitted c
  | _ => .away

def HandlerPc.stage : HandlerPc → TakerStage
  | .removed _ c => .removed c
  | .unpermitted _ c => .unpermitted c
  | _ => .away

/-- The item that a call has taken back and not dropped yet. -/
def DispatchPc.discards : DispatchPc T → Option Nat
  | .discarding _ c => some c
  | _ => none

def CloserPc.owed (recorded : Bool) : CloserPc → Nat
  | .draining stranded => stranded.length
  | .sending stranded => if recorded then 0 else stranded.length
  | _ => 0

structure Meter (T : Type) where
  dispatcher : DispatcherState T
  enqueued : Nat
  dequeued : Nat
  drained : Nat
  entered : Nat → Bool
  left : Nat → Bool
  swept : Nat → Bool

def Meter.new (cfg : DispatcherConfig T) (now : Nat) : Meter T where
  dispatcher := .new cfg now
  enqueued := 0
  dequeued := 0
  drained := 0
  entered := fun _ => false
  left := fun _ => false
  swept := fun _ => false

inductive MeterAction (T : Type) where
  | dispatcher (action : DispatcherAction T)
  | recordEnqueued (call : Nat)
  | recordDequeued (place : Place)
  | recordDrained (closer : Nat)

namespace Meter

/-- The item whose removal the party records next. -/
def removal (m : Meter T) : Place → Option Nat
  | .map _ => none
  | .call i => m.dispatcher.callers[i]?.bind (·.pc.discards)
  | .worker i => m.dispatcher.workers[i]?.bind fun pc => match pc.stage with
      | .unpermitted c => some c
      | _ => none
  | .handler i => m.dispatcher.handlers[i]?.bind fun pc => match pc.stage with
      | .unpermitted c => some c
      | _ => none

def drain (m : Meter T) (i : Nat) : Option Nat :=
  m.dispatcher.closers[i]?.bind fun
    | .sending stranded => if m.swept i then none else some stranded.length
    | _ => none

/-- The party records something before this step. -/
def owes (m : Meter T) : DispatcherAction T → Bool
  | .call i .step =>
      m.dispatcher.callers[i]?.any (fun caller => match caller.pc with
        | .enqueue => true
        | _ => false) && !m.entered i || (m.removal (.call i)).any fun c => !m.left c
  | .worker i _ => (m.removal (.worker i)).any fun c => !m.left c
  | .handler i _ => (m.removal (.handler i)).any fun c => !m.left c
  | .closer i _ => (m.drain i).isSome
  | _ => false

end Meter

def meterStep (cfg : DispatcherConfig T) (m : Meter T) : MeterAction T → Option (Meter T)
  | .dispatcher action =>
      if m.owes action then none
      else (dispatcherStep cfg m.dispatcher action).map fun next => { m with dispatcher := next }
  | .recordEnqueued i => m.dispatcher.callers[i]?.bind fun caller => match caller.pc with
      | .enqueue =>
          if m.entered i then none
          else some { m with
            enqueued := m.enqueued + 1
            entered := Function.update m.entered i true }
      | _ => none
  | .recordDequeued place => (m.removal place).bind fun c =>
      if m.left c then none
      else some { m with
        dequeued := m.dequeued + 1
        left := Function.update m.left c true }
  | .recordDrained i => (m.drain i).map fun count => { m with
      drained := m.drained + count
      swept := Function.update m.swept i true }

namespace Meter

/-- The call is between the insertion of its item and the record of it. -/
def enters (m : Meter T) (i : Nat) : Bool :=
  m.dispatcher.callers[i]?.any (·.pc.enters) && !m.entered i

/-- Some party is between the removal of the item and the record of it. -/
def leaves (m : Meter T) (c : Nat) : Bool :=
  !m.left c && (m.dispatcher.callers.any (fun caller => decide (caller.pc.discards = some c)) ||
    m.dispatcher.workers.any (fun pc => decide (pc.stage.item = some c)) ||
    m.dispatcher.handlers.any (fun pc => decide (pc.stage.item = some c)))

/-- The number of items that a call of `close` has drained and not recorded. -/
def drains (m : Meter T) (i : Nat) : Nat :=
  (m.dispatcher.closers[i]?.map (·.owed (m.swept i))).getD 0

def entering (m : Meter T) : Nat :=
  (List.range m.dispatcher.callers.length).countP m.enters

def leaving (m : Meter T) : Nat :=
  (List.range m.dispatcher.items.length).countP m.leaves

def draining (m : Meter T) : Nat :=
  total m.drains m.dispatcher.closers.length

end Meter

/-- The step leaves the map alone. -/
structure SameMap (s next : DispatcherState T) : Prop where
  pending : next.pending = s.pending
  remover : next.remover = s.remover

/-- The step takes item `c` out of the map. -/
structure TakesOut (s next : DispatcherState T) (jobId : String) (c : Nat) (sender : Remover) :
    Prop where
  found : s.pending.lookup jobId = some c
  pending : next.pending = AList.erase jobId s.pending
  remover : next.remover = Function.update s.remover c (some sender)

/-- What a step of call `i` has to do with the map. -/
inductive CallDepth (s next : DispatcherState T) (i : Nat) (jobId : String) (event : CallEvent) :
    DispatchPc T → DispatchPc T → Prop
  | same {pc later : DispatchPc T} : SameMap s next → pc.enters = false → later.enters = false →
      pc.discards = none → later.discards = none → CallDepth s next i jobId event pc later
  | displaced {d : Nat} : SameMap s next → CallDepth s next i jobId event (.displacing d) .enqueue
  | enqueued : event = .step → SameMap s next → CallDepth s next i jobId event .enqueue .looking
  | inserted {later : DispatchPc T} : s.closing = false →
      next.pending = AList.insert jobId i s.pending →
      next.remover = s.remover → (s.pending.lookup jobId = none → later = .enqueue) →
      CallDepth s next i jobId event .insert later
  | recalled {pc : DispatchPc T} {error : ActionError} {c : Nat} : TakesOut s next jobId c .caller →
      pc.enters = false → pc.discards = none →
      CallDepth s next i jobId event pc (.discarding error c)
  | discarded {error : ActionError} {c : Nat} {result : Except ActionError T} : event = .step →
      SameMap s next →
      CallDepth s next i jobId event (.discarding error c) (.returned .abandoned result)

/-- What a step of an executor has to do with the map. -/
inductive TakerDepth (s next : DispatcherState T) : TakerStage → TakerStage → Prop
  | same : SameMap s next → TakerDepth s next .away .away
  | took {jobId : String} {c : Nat} : TakesOut s next jobId c .executor →
      TakerDepth s next .away (.removed c)
  | unpermitted {c : Nat} : SameMap s next → TakerDepth s next (.removed c) (.unpermitted c)
  | left {c : Nat} : SameMap s next → TakerDepth s next (.unpermitted c) .away

/-- What a step of `close` has to do with the map. -/
inductive CloserDepth (s next : DispatcherState T) : CloserPc → CloserPc → Prop
  | same {pc later : CloserPc} : SameMap s next → pc = .begun ∨ pc = .flagged ∨ pc = .unadmitting →
      later = .flagged ∨ later = .unadmitting ∨ later = .draining [] → CloserDepth s next pc later
  | drained {stranded : List Nat} {jobId : String} {c : Nat} : TakesOut s next jobId c .closer →
      CloserDepth s next (.draining stranded) (.draining (stranded ++ [c]))
  | collected {stranded : List Nat} : SameMap s next →
      CloserDepth s next (.draining stranded) (.sending stranded)
  | sent {stranded : List Nat} {later : CloserPc} : SameMap s next →
      (∃ rest, later = .sending rest) ∨ later = .done →
      CloserDepth s next (.sending stranded) later

section Inversion

variable {cfg : DispatcherConfig T} {s next : DispatcherState T} {i c : Nat} {caller : Caller T}
  {item : Item T}

/-- A call that changes only its program counter, away from the map. -/
theorem CallDepth.quiet {pc later : DispatchPc T} {jobId : String} {event : CallEvent}
    (pending : next.pending = s.pending) (remover : next.remover = s.remover)
    (before : pc.enters = false ∧ pc.discards = none)
    (after : later.enters = false ∧ later.discards = none) :
    CallDepth s next i jobId event pc later :=
  .same ⟨pending, remover⟩ before.1 after.1 before.2 after.2

theorem dispatchRemove_depth {pc : DispatchPc T} (error : ActionError) {event : CallEvent}
    (before : pc.enters = false ∧ pc.discards = none) :
    ∃ later, (dispatchRemove s i caller error).callers = s.callers.set i later ∧
      CallDepth s (dispatchRemove s i caller error) i caller.jobId event pc later.pc := by
  unfold dispatchRemove
  split
  next d found => exact ⟨_, rfl, .recalled ⟨found, rfl, rfl⟩ before.1 before.2⟩
  next => exact ⟨_, rfl, .quiet rfl rfl before ⟨rfl, rfl⟩⟩

theorem dispatchReceive_depth {pc : DispatchPc T} {event : CallEvent}
    (before : pc.enters = false ∧ pc.discards = none)
    (taken : dispatchReceive s i caller item = some next) :
    ∃ later, next.callers = s.callers.set i later ∧
      CallDepth s next i caller.jobId event pc later.pc := by
  unfold dispatchReceive at taken
  split at taken
  · simp at taken
  all_goals
    simp only [Option.some.injEq] at taken
    subst taken
    exact ⟨_, rfl, .quiet rfl rfl before ⟨rfl, rfl⟩⟩

theorem dispatchBegun_depth {event : CallEvent}
    (taken : dispatchBegun cfg s i caller item event = some next) :
    ∃ later, next.callers = s.callers.set i later ∧
      CallDepth s next i caller.jobId event .begun later.pc := by
  unfold dispatchBegun at taken
  repeat' split at taken
  all_goals
    try simp only [Option.some.injEq, reduceCtorEq] at taken
  all_goals
    subst taken
    exact ⟨_, rfl, .quiet rfl rfl ⟨rfl, rfl⟩ ⟨rfl, rfl⟩⟩

theorem dispatchEvent_depth {event : CallEvent}
    (taken : dispatchEvent cfg s i caller item event = some next) :
    ∃ later, next.callers = s.callers.set i later ∧
      CallDepth s next i caller.jobId event caller.pc later.pc := by
  have goes : ∀ {t : DispatcherState T} {later : Caller T},
      caller.pc.enters = false ∧ caller.pc.discards = none → t.callers = s.callers.set i later →
      t.pending = s.pending → t.remover = s.remover →
      later.pc.enters = false ∧ later.pc.discards = none →
      ∃ later, t.callers = s.callers.set i later ∧
        CallDepth s t i caller.jobId event caller.pc later.pc :=
    fun before callers pending remover after =>
      ⟨_, callers, .quiet pending remover before after⟩
  unfold dispatchEvent at taken
  split at taken
  next pc =>
    rw [pc]
    exact dispatchBegun_depth taken
  all_goals
    try simp only [Option.some.injEq, Option.map_eq_some_iff, reduceCtorEq] at taken
  next pc =>
    subst taken
    unfold dispatchAcquire
    repeat' split
    all_goals exact goes (by rw [pc]; exact ⟨rfl, rfl⟩) rfl rfl rfl ⟨rfl, rfl⟩
  next pc =>
    subst taken
    unfold dispatchBuild
    split
    · exact goes (by rw [pc]; exact ⟨rfl, rfl⟩) rfl rfl rfl ⟨rfl, rfl⟩
    · exact goes (by rw [pc]; exact ⟨rfl, rfl⟩) rfl rfl rfl ⟨rfl, rfl⟩
  next pc =>
    subst taken
    unfold dispatchInsert
    split
    · exact goes (by rw [pc]; exact ⟨rfl, rfl⟩) rfl rfl rfl ⟨rfl, rfl⟩
    next unclosed =>
      rw [pc]
      refine ⟨_, rfl, .inserted (by simpa using unclosed) rfl rfl ?_⟩
      intro absent
      simp [absent]
  next d pc =>
    obtain ⟨previous, _, rfl⟩ := taken
    rw [pc]
    exact ⟨_, rfl, .displaced ⟨rfl, rfl⟩⟩
  next pc =>
    subst taken
    rw [pc]
    exact ⟨_, rfl, .enqueued rfl ⟨rfl, rfl⟩⟩
  next pc =>
    subst taken
    unfold dispatchLook
    refine goes (by rw [pc]; exact ⟨rfl, rfl⟩) rfl rfl rfl ?_
    dsimp only
    repeat' split
    all_goals exact ⟨rfl, rfl⟩
  next pc =>
    subst taken
    refine goes (by rw [pc]; exact ⟨rfl, rfl⟩) rfl rfl rfl ?_
    dsimp only
    split <;> exact ⟨rfl, rfl⟩
  next pc =>
    subst taken
    refine goes (by rw [pc]; exact ⟨rfl, rfl⟩) rfl rfl rfl ?_
    dsimp only
    split <;> exact ⟨rfl, rfl⟩
  next error pc =>
    subst taken
    unfold dispatchAbandon
    split
    · split
      · exact dispatchRemove_depth _ (by rw [pc]; exact ⟨rfl, rfl⟩)
      · exact goes (by rw [pc]; exact ⟨rfl, rfl⟩) rfl rfl rfl ⟨rfl, rfl⟩
    · refine goes (by rw [pc]; exact ⟨rfl, rfl⟩) rfl rfl rfl ?_
      dsimp only
      split <;> exact ⟨rfl, rfl⟩
    · exact goes (by rw [pc]; exact ⟨rfl, rfl⟩) rfl rfl rfl ⟨rfl, rfl⟩
  next pc =>
    subst taken
    split
    · exact goes (by rw [pc]; exact ⟨rfl, rfl⟩) rfl rfl rfl ⟨rfl, rfl⟩
    · exact dispatchRemove_depth _ (by rw [pc]; exact ⟨rfl, rfl⟩)
  next error d pc =>
    obtain ⟨removed, _, rfl⟩ := taken
    rw [pc]
    exact ⟨_, rfl, .discarded rfl ⟨rfl, rfl⟩⟩
  next pc =>
    subst taken
    refine goes (by rw [pc]; exact ⟨rfl, rfl⟩) rfl rfl rfl ?_
    dsimp only [dispatchPark]
    split <;> exact ⟨rfl, rfl⟩
  next pc => exact taken ▸ goes (by rw [pc]; exact ⟨rfl, rfl⟩) rfl rfl rfl ⟨rfl, rfl⟩
  next pc => exact dispatchReceive_depth (by rw [pc]; exact ⟨rfl, rfl⟩) taken
  next pc =>
    split at taken
    · simp only [Option.some.injEq] at taken
      exact taken ▸ goes (by rw [pc]; exact ⟨rfl, rfl⟩) rfl rfl rfl ⟨rfl, rfl⟩
    · simp at taken
  next pc =>
    split at taken
    · simp only [Option.some.injEq] at taken
      exact taken ▸ goes (by rw [pc]; exact ⟨rfl, rfl⟩) rfl rfl rfl ⟨rfl, rfl⟩
    · simp at taken
  next pc => exact taken ▸ goes (by rw [pc]; exact ⟨rfl, rfl⟩) rfl rfl rfl ⟨rfl, rfl⟩
  next pc => exact dispatchReceive_depth (by rw [pc]; exact ⟨rfl, rfl⟩) taken
  next pc => exact taken ▸ goes (by rw [pc]; exact ⟨rfl, rfl⟩) rfl rfl rfl ⟨rfl, rfl⟩

/-- A step of loop `i` of a local pool. -/
structure LoopDepth (s next : DispatcherState T) (i : Nat) (pc later : WorkerPc T) : Prop where
  callers : next.callers = s.callers
  handlers : next.handlers = s.handlers
  closers : next.closers = s.closers
  length : next.items.length = s.items.length
  workers : next.workers = s.workers.set i later
  depth : TakerDepth s next pc.stage later.stage

theorem workerItem_depth {pc : WorkerPc T} {event : WorkerEvent T}
    (taken : workerItem s i c caller item pc event = some next) (holds : pc.item = some c) :
    ∃ later, LoopDepth s next i pc later := by
  unfold workerItem at taken
  split at taken
  next e =>
    obtain rfl : e = c := by simpa [WorkerPc.item] using holds
    simp only [Option.some.injEq] at taken
    subst taken
    exact ⟨_, rfl, rfl, rfl, List.length_set, rfl, .unpermitted ⟨rfl, rfl⟩⟩
  next e =>
    split at taken
    all_goals
      simp only [Option.some.injEq] at taken
      subst taken
    · exact ⟨_, rfl, rfl, rfl, List.length_set, rfl, .left ⟨rfl, rfl⟩⟩
    · exact ⟨_, rfl, rfl, rfl, rfl, rfl, .left ⟨rfl, rfl⟩⟩
  next e =>
    simp only [Option.some.injEq] at taken
    subst taken
    unfold workerPoll
    repeat' split
    all_goals
      first
      | exact ⟨_, rfl, rfl, rfl, List.length_set, rfl, .same ⟨rfl, rfl⟩⟩
      | exact ⟨_, rfl, rfl, rfl, rfl, rfl, .same ⟨rfl, rfl⟩⟩
  next e =>
    split at taken
    all_goals
      simp only [Option.some.injEq] at taken
      subst taken
    · exact ⟨_, rfl, rfl, rfl, List.length_set, rfl, .same ⟨rfl, rfl⟩⟩
    · exact ⟨_, rfl, rfl, rfl, rfl, rfl, .same ⟨rfl, rfl⟩⟩
  next e =>
    split at taken
    all_goals
      simp only [Option.some.injEq] at taken
      subst taken
      exact ⟨_, rfl, rfl, rfl, List.length_set, rfl, .same ⟨rfl, rfl⟩⟩
  all_goals
    simp only [Option.some.injEq, reduceCtorEq] at taken
  all_goals
    subst taken
    exact ⟨_, rfl, rfl, rfl, List.length_set, rfl, .same ⟨rfl, rfl⟩⟩

theorem workerEvent_depth {pc : WorkerPc T} {event : WorkerEvent T}
    (taken : workerEvent s i pc event = some next) : ∃ later, LoopDepth s next i pc later := by
  unfold workerEvent at taken
  split at taken
  next =>
    simp only [Option.map_eq_some_iff] at taken
    obtain ⟨job, _, rfl⟩ := taken
    exact ⟨_, rfl, rfl, rfl, rfl, rfl, .same ⟨rfl, rfl⟩⟩
  next =>
    split at taken
    · simp only [Option.some.injEq] at taken
      subst taken
      exact ⟨_, rfl, rfl, rfl, rfl, rfl, .same ⟨rfl, rfl⟩⟩
    · simp at taken
  next =>
    simp only [workerRemove, Option.map_eq_some_iff] at taken
    obtain ⟨handle, _, rfl⟩ := taken
    split
    next => exact ⟨_, rfl, rfl, rfl, rfl, rfl, .same ⟨rfl, rfl⟩⟩
    next found => exact ⟨_, rfl, rfl, rfl, rfl, rfl, .took ⟨found, rfl, rfl⟩⟩
  next =>
    simp only [Option.bind_eq_some_iff] at taken
    obtain ⟨c, holds, caller, _, item, _, taken⟩ := taken
    exact workerItem_depth taken holds

/-- A step of a `GET /work` handler. -/
structure HandlerDepth (s next : DispatcherState T) (i : Nat) (pc later : HandlerPc) : Prop where
  callers : next.callers = s.callers
  workers : next.workers = s.workers
  closers : next.closers = s.closers
  length : next.items.length = s.items.length
  handlers : next.handlers = s.handlers.set i later
  depth : TakerDepth s next pc.stage later.stage

theorem handlerItem_depth {pc : HandlerPc}
    (taken : handlerItem s i c caller item pc = some next) (holds : pc.item = some c) :
    ∃ later, HandlerDepth s next i pc later := by
  unfold handlerItem at taken
  split at taken
  next job e =>
    obtain rfl : e = c := by simpa [HandlerPc.item] using holds
    simp only [Option.some.injEq] at taken
    subst taken
    exact ⟨_, rfl, rfl, rfl, List.length_set, rfl, .unpermitted ⟨rfl, rfl⟩⟩
  next job e =>
    split at taken
    all_goals
      simp only [Option.some.injEq] at taken
      subst taken
    · exact ⟨_, rfl, rfl, rfl, List.length_set, rfl, .left ⟨rfl, rfl⟩⟩
    · exact ⟨_, rfl, rfl, rfl, rfl, rfl, .left ⟨rfl, rfl⟩⟩
  next =>
    simp only [Option.some.injEq] at taken
    subst taken
    unfold handlerCheck
    repeat' split
    all_goals
      first
      | exact ⟨_, rfl, rfl, rfl, List.length_set, rfl, .same ⟨rfl, rfl⟩⟩
      | exact ⟨_, rfl, rfl, rfl, rfl, rfl, .same ⟨rfl, rfl⟩⟩
  next =>
    split at taken
    all_goals
      simp only [Option.some.injEq] at taken
      subst taken
      exact ⟨_, rfl, rfl, rfl, rfl, rfl, .same ⟨rfl, rfl⟩⟩
  next =>
    split at taken
    all_goals
      simp only [Option.some.injEq] at taken
      subst taken
    · exact ⟨_, rfl, rfl, rfl, rfl, rfl, .same ⟨rfl, rfl⟩⟩
    · exact ⟨_, rfl, rfl, rfl, List.length_set, rfl, .same ⟨rfl, rfl⟩⟩
  next =>
    simp only [handlerClaim, Option.map_eq_some_iff] at taken
    obtain ⟨handle, _, rfl⟩ := taken
    refine ⟨_, rfl, rfl, rfl, List.length_set, rfl, ?_⟩
    split <;> exact .same ⟨rfl, rfl⟩
  next =>
    simp only [Option.map_eq_some_iff] at taken
    obtain ⟨displaced, _, rfl⟩ := taken
    exact ⟨_, rfl, rfl, rfl, List.length_set, rfl, .same ⟨rfl, rfl⟩⟩
  all_goals
    simp only [Option.some.injEq, reduceCtorEq] at taken
  all_goals
    subst taken
    exact ⟨_, rfl, rfl, rfl, List.length_set, rfl, .same ⟨rfl, rfl⟩⟩

theorem handlerEvent_depth {pc : HandlerPc} {event : HandlerEvent}
    (taken : handlerEvent s i pc event = some next) : ∃ later, HandlerDepth s next i pc later := by
  unfold handlerEvent at taken
  split at taken
  · split at taken
    · simp only [Option.map_eq_some_iff] at taken
      obtain ⟨job, _, rfl⟩ := taken
      exact ⟨_, rfl, rfl, rfl, rfl, rfl, .same ⟨rfl, rfl⟩⟩
    · simp at taken
  · split at taken
    · simp only [Option.some.injEq] at taken
      subst taken
      exact ⟨_, rfl, rfl, rfl, rfl, rfl, .same ⟨rfl, rfl⟩⟩
    · simp at taken
  · split at taken
    · simp only [handlerRemove, Option.map_eq_some_iff] at taken
      obtain ⟨handle, _, rfl⟩ := taken
      split
      next => exact ⟨_, rfl, rfl, rfl, rfl, rfl, .same ⟨rfl, rfl⟩⟩
      next found => exact ⟨_, rfl, rfl, rfl, rfl, rfl, .took ⟨found, rfl, rfl⟩⟩
    · simp only [Option.bind_eq_some_iff] at taken
      obtain ⟨c, holds, caller, _, item, _, taken⟩ := taken
      exact handlerItem_depth taken holds

/-- A step of a call of `close`. -/
structure ClosingDepth (s next : DispatcherState T) (i : Nat) (pc later : CloserPc) : Prop where
  callers : next.callers = s.callers
  workers : next.workers = s.workers
  handlers : next.handlers = s.handlers
  length : next.items.length = s.items.length
  closers : next.closers = s.closers.set i later
  depth : CloserDepth s next pc later

theorem closerEvent_depth {pc : CloserPc} {event : CloserEvent}
    (taken : closerEvent s i pc event = some next) : ∃ later, ClosingDepth s next i pc later := by
  unfold closerEvent at taken
  split at taken
  all_goals
    try simp only [Option.some.injEq, Option.bind_eq_some_iff, Option.map_eq_some_iff,
      reduceCtorEq] at taken
  next =>
    subst taken
    exact ⟨_, rfl, rfl, rfl, rfl, rfl, .same ⟨rfl, rfl⟩ (by simp) (by simp)⟩
  next =>
    subst taken
    exact ⟨_, rfl, rfl, rfl, rfl, rfl, .same ⟨rfl, rfl⟩ (by simp) (by simp)⟩
  next =>
    subst taken
    exact ⟨_, rfl, rfl, rfl, rfl, rfl, .same ⟨rfl, rfl⟩ (by simp) (by simp)⟩
  next =>
    obtain ⟨c, found, item, known, rfl⟩ := taken
    exact ⟨_, rfl, rfl, rfl, List.length_set, rfl, .drained ⟨found, rfl, rfl⟩⟩
  next =>
    split at taken
    · simp only [Option.some.injEq] at taken
      subst taken
      exact ⟨_, rfl, rfl, rfl, rfl, rfl, .collected ⟨rfl, rfl⟩⟩
    · simp at taken
  next =>
    obtain ⟨caller, _, item, known, rfl⟩ := taken
    exact ⟨_, rfl, rfl, rfl, List.length_set, rfl, .sent ⟨rfl, rfl⟩ (Or.inl ⟨_, rfl⟩)⟩
  next =>
    subst taken
    exact ⟨_, rfl, rfl, rfl, rfl, rfl, .sent ⟨rfl, rfl⟩ (Or.inr rfl)⟩

end Inversion

/-- Some party has taken the item out and has not got past the record of it. -/
def Leaver (s : DispatcherState T) (c : Nat) : Prop :=
  (∃ (i : Nat) (caller : Caller T), s.callers[i]? = some caller ∧ caller.pc.discards = some c) ∨
  (∃ (i : Nat) (pc : WorkerPc T), s.workers[i]? = some pc ∧ pc.stage.item = some c) ∨
  ∃ (i : Nat) (pc : HandlerPc), s.handlers[i]? = some pc ∧ pc.stage.item = some c

/-- The item was taken out by an executor or by its call, and that is not recorded. -/
def Meter.unrecorded (m : Meter T) (c : Nat) : Bool :=
  (match m.dispatcher.remover c with
    | some .executor | some .caller => true
    | _ => false) && !m.left c

structure DepthWf (m : Meter T) : Prop where
  wf : WinnerWf m.dispatcher
  balance : m.enqueued + m.entering = HashMap.size m.dispatcher.pending + m.dequeued + m.drained +
    (List.range m.dispatcher.items.length).countP m.unrecorded + m.draining
  entered (i : Nat) : m.entered i = true → ∃ caller, m.dispatcher.callers[i]? = some caller ∧
    caller.pc.early = false
  left (c : Nat) : m.left c = true → m.dispatcher.remover c ≠ none
  swept (i : Nat) : m.swept i = true → ∃ pc, m.dispatcher.closers[i]? = some pc ∧
    ((∃ stranded, pc = .sending stranded) ∨ pc = .done)
  leaver (c : Nat) : m.unrecorded c = true → Leaver m.dispatcher c

section Leavers

variable {s next : DispatcherState T} {i c : Nat}

theorem Leaver.call_step {caller later : Caller T} (leaver : Leaver s c)
    (present : s.callers[i]? = some caller) (callers : next.callers = s.callers.set i later)
    (workers : next.workers = s.workers) (handlers : next.handlers = s.handlers)
    (keeps : caller.pc.discards = some c → later.pc.discards = some c) : Leaver next c := by
  unfold Leaver at leaver ⊢
  rw [callers, workers, handlers]
  exact leaver.imp_left fun call => exists_of_set call present keeps

theorem Leaver.worker_step {pc later : WorkerPc T} (leaver : Leaver s c)
    (present : s.workers[i]? = some pc) (step : LoopDepth s next i pc later)
    (keeps : pc.stage.item = some c → later.stage.item = some c) : Leaver next c := by
  unfold Leaver at leaver ⊢
  rw [step.callers, step.workers, step.handlers]
  exact leaver.imp_right fun taker => taker.imp_left fun worker =>
    exists_of_set worker present keeps

theorem Leaver.handler_step {pc later : HandlerPc} (leaver : Leaver s c)
    (present : s.handlers[i]? = some pc) (step : HandlerDepth s next i pc later)
    (keeps : pc.stage.item = some c → later.stage.item = some c) : Leaver next c := by
  unfold Leaver at leaver ⊢
  rw [step.callers, step.workers, step.handlers]
  exact leaver.imp_right fun taker => taker.imp_right fun handler =>
    exists_of_set handler present keeps

theorem Leaver.of_same (leaver : Leaver s c) (callers : next.callers = s.callers)
    (workers : next.workers = s.workers) (handlers : next.handlers = s.handlers) :
    Leaver next c := by
  unfold Leaver at leaver ⊢
  rw [callers, workers, handlers]
  exact leaver

end Leavers

section Step

variable {cfg : DispatcherConfig T} {m : Meter T} {next : DispatcherState T} {i c : Nat}
  {jobId : String} {sender : Remover}

theorem WinnerWf.known_of_found (wf : WinnerWf m.dispatcher)
    (found : m.dispatcher.pending.lookup jobId = some c) :
    c < m.dispatcher.items.length ∧ m.dispatcher.remover c = none := by
  have mapped : m.dispatcher.holding (.map jobId) = some (c, .live) := by simp [holding, found]
  obtain ⟨item, known, _⟩ := wf.owned.held _ _ _ mapped
  exact ⟨(List.getElem?_eq_some_iff.mp known).1, wf.unremoved_of_mapped mapped⟩

theorem DepthWf.unrecorded_same (remover : next.remover = m.dispatcher.remover) :
    { m with dispatcher := next }.unrecorded = m.unrecorded := by
  funext c
  simp only [Meter.unrecorded, remover]

/-- An item that an executor or its call takes out is not recorded at first. -/
theorem DepthWf.unrecorded_takes (wf : DepthWf m)
    (takes : TakesOut m.dispatcher next jobId c sender) (length : next.items.length =
      m.dispatcher.items.length) (by_ : sender = .executor ∨ sender = .caller) :
    HashMap.size next.pending + 1 = HashMap.size m.dispatcher.pending ∧
      (List.range next.items.length).countP { m with dispatcher := next }.unrecorded =
        (List.range m.dispatcher.items.length).countP m.unrecorded + 1 := by
  obtain ⟨bound, unremoved⟩ := wf.wf.known_of_found takes.found
  have unleft : m.left c = false := by
    by_contra recorded
    exact wf.left c (by simpa using recorded) unremoved
  refine ⟨by rw [takes.pending]; exact HashMap.size_erase_of_present takes.found, ?_⟩
  rw [length]
  have change := countP_range_change (p := { m with dispatcher := next }.unrecorded)
    (q := m.unrecorded) bound ?_
  · have before : m.unrecorded c = false := by simp [Meter.unrecorded, unremoved]
    have after : { m with dispatcher := next }.unrecorded c = true := by
      rcases by_ with rfl | rfl <;> simp [Meter.unrecorded, takes.remover, unleft]
    rw [before, after] at change
    simpa using change
  · intro j different
    simp [Meter.unrecorded, takes.remover, Function.update_of_ne different]

/-- An item that `close` drains is recorded with the others that it drained. -/
theorem DepthWf.unrecorded_drains (wf : DepthWf m)
    (takes : TakesOut m.dispatcher next jobId c .closer) :
    { m with dispatcher := next }.unrecorded = m.unrecorded := by
  obtain ⟨_, unremoved⟩ := wf.wf.known_of_found takes.found
  funext j
  by_cases here : j = c
  · subst here
    simp [Meter.unrecorded, takes.remover, unremoved]
  · simp [Meter.unrecorded, takes.remover, Function.update_of_ne here]

theorem Meter.entering_change {caller later : Caller T}
    (present : m.dispatcher.callers[i]? = some caller)
    (callers : next.callers = m.dispatcher.callers.set i later) :
    { m with dispatcher := next }.entering + (caller.pc.enters && !m.entered i).toNat =
      m.entering + (later.pc.enters && !m.entered i).toNat := by
  have bound := (List.getElem?_eq_some_iff.mp present).1
  have change := countP_range_change (p := { m with dispatcher := next }.enters) (q := m.enters)
    bound ?_
  · have before : m.enters i = (caller.pc.enters && !m.entered i) := by
      simp [Meter.enters, present]
    have after : { m with dispatcher := next }.enters i = (later.pc.enters && !m.entered i) := by
      simp [Meter.enters, callers, List.getElem?_set_self bound]
    rw [before, after] at change
    simpa [Meter.entering, callers] using change
  · intro j different
    simp [Meter.enters, callers, List.getElem?_set_ne (Ne.symm different)]

theorem Meter.draining_change {pc later : CloserPc}
    (present : m.dispatcher.closers[i]? = some pc)
    (closers : next.closers = m.dispatcher.closers.set i later) :
    { m with dispatcher := next }.draining + m.drains i =
      m.draining + { m with dispatcher := next }.drains i := by
  have bound := (List.getElem?_eq_some_iff.mp present).1
  have change := total_change (f := { m with dispatcher := next }.drains) (g := m.drains)
    bound ?_
  · simpa [Meter.draining, closers] using change
  · intro j different
    simp [Meter.drains, closers, List.getElem?_set_ne (Ne.symm different)]

theorem TakesOut.removed {s : DispatcherState T} (takes : TakesOut s next jobId c sender) (d : Nat)
    (before : s.remover d ≠ none) : next.remover d ≠ none := by
  rw [takes.remover]
  by_cases here : d = c
  · subst here
    simp
  · rw [Function.update_of_ne here]
    exact before

/-- A call that has put its item into the map does not go back before that. -/
theorem Move.late_kept {s : DispatcherState T} {action : DispatcherAction T} {caller : Caller T}
    (move : Move cfg s next action) (present : s.callers[i]? = some caller)
    (late : caller.pc.early = false) :
    ∃ later, next.callers[i]? = some later ∧ later.pc.early = false := by
  have updated : ∀ {k : Nat} {other later : Caller T}, s.callers[k]? = some other →
      next.callers = s.callers.set k later →
      (other.pc.early = false → later.pc.early = false) →
      ∃ later, next.callers[i]? = some later ∧ later.pc.early = false := by
    intro k other later found callers stays
    by_cases here : k = i
    · subst here
      obtain rfl := Option.some.inj (found.symm.trans present)
      exact ⟨later, by rw [callers, List.getElem?_set_self (List.getElem?_eq_some_iff.mp found).1],
        stays late⟩
    · exact ⟨caller, by rw [callers, List.getElem?_set_ne here, present], late⟩
  cases move with
  | idle _ _ callers _ | taken _ _ _ callers _ _ _ _ _ | held _ _ _ _ callers _ _ _ _ _ _
  | loose _ _ callers _ _ _ | drained _ _ callers _ _ _ _ _ _ =>
      exact ⟨caller, by rw [callers, present], late⟩
  | dispatched _ callers _ _ _ =>
      refine ⟨caller, ?_, late⟩
      rw [callers, List.getElem?_append_left (List.getElem?_eq_some_iff.mp present).1, present]
  | moved found _ step _ callers _ _ _ =>
      refine updated found callers fun before => ?_
      by_contra early
      have begun := (step.permitted (by simpa using early)).1
      simp [begun, DispatchPc.early] at before
  | admitted found _ pc _ _ callers _ _ _ _ =>
      exact updated found callers (by simp [pc, DispatchPc.early])
  | refused found _ early _ callers _ _ _ _ _ => exact updated found callers (by simp [early])
  | acquired found _ pc callers _ _ _ | built found _ pc callers _ _ _ =>
      exact updated found callers (by simp [pc, DispatchPc.early])
  | inserted found pc _ _ callers _ _ _ =>
      exact updated found callers (by simp [pc, DispatchPc.early])
  | displaced found _ _ callers _ _ _ _ _ | recalled found _ _ _ callers _ _ _ _ _
  | abandoned found _ _ callers _ _ _ _ _ => exact updated found callers fun _ => rfl

theorem DepthWf.entered_step (wf : DepthWf m) {action : DispatcherAction T}
    (move : Move cfg m.dispatcher next action) (i : Nat) (entered : m.entered i = true) :
    ∃ caller, next.callers[i]? = some caller ∧ caller.pc.early = false := by
  obtain ⟨caller, present, late⟩ := wf.entered i entered
  exact move.late_kept present late

/-- A step that keeps the map. -/
theorem DepthWf.of_same (wf : DepthWf m) (wf' : WinnerWf next)
    (same : SameMap m.dispatcher next)
    (length : next.items.length = m.dispatcher.items.length)
    (entering : { m with dispatcher := next }.entering = m.entering)
    (draining : { m with dispatcher := next }.draining = m.draining)
    (entered : ∀ i, m.entered i = true →
      ∃ caller, next.callers[i]? = some caller ∧ caller.pc.early = false)
    (swept : ∀ i, m.swept i = true → ∃ pc, next.closers[i]? = some pc ∧
      ((∃ stranded, pc = .sending stranded) ∨ pc = .done))
    (leaver : ∀ c, m.unrecorded c = true → Leaver m.dispatcher c → Leaver next c) :
    DepthWf { m with dispatcher := next } where
  wf := wf'
  balance := by
    rw [entering, draining, DepthWf.unrecorded_same same.remover]
    simpa [same.pending, length] using wf.balance
  entered := entered
  left := by
    intro c recorded
    simpa [same.remover] using wf.left c recorded
  swept := swept
  leaver := by
    intro c unrecorded
    rw [DepthWf.unrecorded_same same.remover] at unrecorded
    exact leaver c unrecorded (wf.leaver c unrecorded)

/-- A step that takes an item out of the map. -/
theorem DepthWf.of_takes (wf : DepthWf m) (wf' : WinnerWf next)
    (takes : TakesOut m.dispatcher next jobId c sender)
    (length : next.items.length = m.dispatcher.items.length)
    (by_ : sender = .executor ∨ sender = .caller)
    (entering : { m with dispatcher := next }.entering = m.entering)
    (draining : { m with dispatcher := next }.draining = m.draining)
    (entered : ∀ i, m.entered i = true →
      ∃ caller, next.callers[i]? = some caller ∧ caller.pc.early = false)
    (swept : ∀ i, m.swept i = true → ∃ pc, next.closers[i]? = some pc ∧
      ((∃ stranded, pc = .sending stranded) ∨ pc = .done))
    (taker : Leaver next c) (leaver : ∀ d, Leaver m.dispatcher d → Leaver next d) :
    DepthWf { m with dispatcher := next } where
  wf := wf'
  balance := by
    obtain ⟨size, count⟩ := wf.unrecorded_takes takes length by_
    have balance := wf.balance
    rw [entering, draining, count]
    show m.enqueued + m.entering = HashMap.size next.pending + m.dequeued + m.drained + _ + _
    omega
  entered := entered
  left := fun d recorded => takes.removed d (wf.left d recorded)
  swept := swept
  leaver := by
    intro d unrecorded
    by_cases here : d = c
    · subst here
      exact taker
    · refine leaver d (wf.leaver d ?_)
      simpa [Meter.unrecorded, takes.remover, Function.update_of_ne here] using unrecorded

theorem Meter.draining_same (closers : next.closers = m.dispatcher.closers) :
    { m with dispatcher := next }.draining = m.draining := by
  have same : { m with dispatcher := next }.drains = m.drains := by
    funext j
    simp only [Meter.drains, closers]
  simp only [Meter.draining, same, closers]

theorem Meter.entering_same (callers : next.callers = m.dispatcher.callers) :
    { m with dispatcher := next }.entering = m.entering := by
  have same : { m with dispatcher := next }.enters = m.enters := by
    funext j
    simp only [Meter.enters, callers]
  simp only [Meter.entering, same, callers]

theorem DepthWf.swept_same (wf : DepthWf m) (closers : next.closers = m.dispatcher.closers)
    (i : Nat) (swept : m.swept i = true) : ∃ pc, next.closers[i]? = some pc ∧
      ((∃ stranded, pc = .sending stranded) ∨ pc = .done) := by
  rw [closers]
  exact wf.swept i swept

theorem DepthWf.call_step (wf : DepthWf m) (wf' : WinnerWf next) {caller : Caller T}
    {item : Item T} {event : CallEvent} (present : m.dispatcher.callers[i]? = some caller)
    (move : Move cfg m.dispatcher next (.call i event)) (free : m.owes (.call i event) = false)
    (taken : dispatchEvent cfg m.dispatcher i caller item event = some next) :
    DepthWf { m with dispatcher := next } := by
  obtain ⟨later, callers, depth⟩ := dispatchEvent_depth taken
  obtain ⟨workers, _⟩ := dispatchEvent_beside taken
  have handlers := (dispatchEvent_items taken).1.handlers
  obtain ⟨_, step⟩ := dispatchEvent_step taken
  have closers := step.closers
  have length : next.items.length = m.dispatcher.items.length := by
    rw [wf'.owned.aligned, callers, List.length_set, wf.wf.owned.aligned]
  have change := Meter.entering_change present callers
  have draining := Meter.draining_same closers
  have entered := wf.entered_step move
  have swept := wf.swept_same closers
  have here : next.callers[i]? = some later := by
    rw [callers, List.getElem?_set_self (List.getElem?_eq_some_iff.mp present).1]
  generalize before : caller.pc = pc at depth change
  generalize after : later.pc = arrived at depth change
  cases depth with
  | same same enters later_ discards _ =>
      rw [enters, later_] at change
      refine wf.of_same wf' same length (by simpa using change) draining entered swept ?_
      intro c _ leaver
      refine leaver.call_step present callers workers handlers ?_
      simp [before, discards]
  | displaced _ => exact (wf.wf.undisplaced present before).elim
  | enqueued stepped same =>
      have recorded : m.entered i = true := by
        subst stepped
        by_contra unentered
        simp [Meter.owes, present, before, unentered] at free
      rw [recorded] at change
      refine wf.of_same wf' same length (by simpa using change) draining entered swept ?_
      intro c _ leaver
      refine leaver.call_step present callers workers handlers ?_
      simp [before, DispatchPc.discards]
  | inserted _ pending remover goes =>
      have absent : m.dispatcher.pending.lookup caller.jobId = none := by
        by_contra found
        obtain ⟨d, found⟩ := Option.ne_none_iff_exists'.mp found
        have mapped : m.dispatcher.holding (.map caller.jobId) = some (d, .live) := by
          simp [holding, found]
        obtain rfl := wf.wf.own_item present mapped
        have late := wf.wf.late_of_mapped mapped present
        simp [before, DispatchPc.early] at late
      have unentered : m.entered i = false := by
        by_contra recorded
        obtain ⟨own, there, late⟩ := wf.entered i (by simpa using recorded)
        obtain rfl := Option.some.inj (present.symm.trans there)
        simp [before, DispatchPc.early] at late
      obtain rfl := goes absent
      have size : HashMap.size next.pending = HashMap.size m.dispatcher.pending + 1 := by
        rw [pending]
        exact HashMap.size_insert_of_absent absent i
      have balance := wf.balance
      simp only [DispatchPc.enters, unentered, Bool.false_and, Bool.true_and, Bool.not_false,
        Bool.toNat_false, Bool.toNat_true] at change
      refine ⟨wf', ?_, entered, ?_, swept, ?_⟩
      · rw [DepthWf.unrecorded_same remover, draining]
        show m.enqueued + _ = HashMap.size next.pending + m.dequeued + m.drained +
          (List.range next.items.length).countP m.unrecorded + m.draining
        rw [length]
        omega
      · intro c recorded
        simpa [remover] using wf.left c recorded
      · intro c unrecorded
        rw [DepthWf.unrecorded_same remover] at unrecorded
        refine (wf.leaver c unrecorded).call_step present callers workers handlers ?_
        simp [before, DispatchPc.discards]
  | @recalled _ error c takes enters discards =>
      rw [enters] at change
      refine wf.of_takes wf' takes length (Or.inr rfl) (by simpa [DispatchPc.enters] using change)
        draining entered swept (Or.inl ⟨i, later, here, by rw [after]; rfl⟩) ?_
      intro d leaver
      refine leaver.call_step present callers workers handlers ?_
      simp [before, discards]
  | @discarded error c result stepped same =>
      have recorded : m.left c = true := by
        subst stepped
        by_contra unrecorded
        simp [Meter.owes, Meter.removal, present, before, DispatchPc.discards, unrecorded] at free
      refine wf.of_same wf' same length (by simpa [DispatchPc.enters] using change) draining entered
        swept ?_
      intro d unrecorded leaver
      refine leaver.call_step present callers workers handlers ?_
      rw [before]
      rintro ⟨⟩
      simp [Meter.unrecorded, recorded] at unrecorded

/-- A step of an executor, which has recorded the item it lets go of. -/
theorem DepthWf.taker_step (wf : DepthWf m) (wf' : WinnerWf next) {stage later : TakerStage}
    (depth : TakerDepth m.dispatcher next stage later)
    (recorded : ∀ c, stage = .unpermitted c → m.left c = true)
    (callers : next.callers = m.dispatcher.callers) (closers : next.closers = m.dispatcher.closers)
    (length : next.items.length = m.dispatcher.items.length)
    (taker : ∀ c, later.item = some c → Leaver next c)
    (leaver : ∀ c, (stage.item = some c → later.item = some c) → Leaver m.dispatcher c →
      Leaver next c) : DepthWf { m with dispatcher := next } := by
  have entering := Meter.entering_same callers
  have draining := Meter.draining_same closers
  have swept := wf.swept_same closers
  have entered : ∀ i, m.entered i = true →
      ∃ caller, next.callers[i]? = some caller ∧ caller.pc.early = false := by
    rw [callers]
    exact wf.entered
  cases depth with
  | same same =>
      exact wf.of_same wf' same length entering draining entered swept fun c _ =>
        leaver c (by simp [TakerStage.item])
  | took takes =>
      exact wf.of_takes wf' takes length (Or.inl rfl) entering draining entered swept
        (taker _ rfl) fun d => leaver d (by simp [TakerStage.item])
  | unpermitted same =>
      exact wf.of_same wf' same length entering draining entered swept fun c _ =>
        leaver c id
  | @left c same =>
      refine wf.of_same wf' same length entering draining entered swept fun d unrecorded => ?_
      refine leaver d ?_
      rintro ⟨⟩
      simp [Meter.unrecorded, recorded c rfl] at unrecorded

theorem DepthWf.worker_step (wf : DepthWf m) (wf' : WinnerWf next) {pc : WorkerPc T}
    {event : WorkerEvent T} (present : m.dispatcher.workers[i]? = some pc)
    (free : m.owes (.worker i event) = false)
    (taken : workerEvent m.dispatcher i pc event = some next) :
    DepthWf { m with dispatcher := next } := by
  obtain ⟨later, step⟩ := workerEvent_depth taken
  have here : next.workers[i]? = some later := by
    rw [step.workers, List.getElem?_set_self (List.getElem?_eq_some_iff.mp present).1]
  refine wf.taker_step wf' step.depth ?_ step.callers step.closers step.length ?_ ?_
  · intro c stage
    by_contra unrecorded
    simp [Meter.owes, Meter.removal, present, stage, unrecorded] at free
  · intro c has
    exact Or.inr (Or.inl ⟨i, later, here, has⟩)
  · intro c keeps leaver
    exact leaver.worker_step present step keeps

theorem DepthWf.handler_step (wf : DepthWf m) (wf' : WinnerWf next) {pc : HandlerPc}
    {event : HandlerEvent} (present : m.dispatcher.handlers[i]? = some pc)
    (free : m.owes (.handler i event) = false)
    (taken : handlerEvent m.dispatcher i pc event = some next) :
    DepthWf { m with dispatcher := next } := by
  obtain ⟨later, step⟩ := handlerEvent_depth taken
  have here : next.handlers[i]? = some later := by
    rw [step.handlers, List.getElem?_set_self (List.getElem?_eq_some_iff.mp present).1]
  refine wf.taker_step wf' step.depth ?_ step.callers step.closers step.length ?_ ?_
  · intro c stage
    by_contra unrecorded
    simp [Meter.owes, Meter.removal, present, stage, unrecorded] at free
  · intro c has
    exact Or.inr (Or.inr ⟨i, later, here, has⟩)
  · intro c keeps leaver
    exact leaver.handler_step present step keeps

theorem DepthWf.closer_step (wf : DepthWf m) (wf' : WinnerWf next) {pc : CloserPc}
    {event : CloserEvent} (present : m.dispatcher.closers[i]? = some pc)
    (free : m.owes (.closer i event) = false)
    (taken : closerEvent m.dispatcher i pc event = some next) :
    DepthWf { m with dispatcher := next } := by
  obtain ⟨later, step⟩ := closerEvent_depth taken
  have bound := (List.getElem?_eq_some_iff.mp present).1
  have here : next.closers[i]? = some later := by
    rw [step.closers, List.getElem?_set_self bound]
  have change := Meter.draining_change present step.closers
  have entering := Meter.entering_same step.callers
  have entered : ∀ i, m.entered i = true →
      ∃ caller, next.callers[i]? = some caller ∧ caller.pc.early = false := by
    rw [step.callers]
    exact wf.entered
  have leaver : ∀ c, Leaver m.dispatcher c → Leaver next c := fun c leaver =>
    leaver.of_same step.callers step.workers step.handlers
  have unswept : ∀ {pc : CloserPc}, m.dispatcher.closers[i]? = some pc → (∀ stranded,
      pc ≠ .sending stranded) → pc ≠ .done → m.swept i = false := by
    intro pc there unsent undone
    by_contra is
    obtain ⟨found, known, ⟨stranded, rfl⟩ | rfl⟩ := wf.swept i (by simpa using is)
    · exact unsent stranded (Option.some.inj (there.symm.trans known))
    · exact undone (Option.some.inj (there.symm.trans known))
  have swept : (m.swept i = true → (∃ stranded, later = .sending stranded) ∨ later = .done) →
      ∀ j, m.swept j = true → ∃ pc, next.closers[j]? = some pc ∧
        ((∃ stranded, pc = .sending stranded) ∨ pc = .done) := by
    intro own j is
    by_cases same : j = i
    · subst same
      exact ⟨later, here, own is⟩
    · rw [step.closers, List.getElem?_set_ne (Ne.symm same)]
      exact wf.swept j is
  have own : { m with dispatcher := next }.drains i = later.owed (m.swept i) := by
    simp [Meter.drains, here]
  have before : m.drains i = pc.owed (m.swept i) := by simp [Meter.drains, present]
  have depth := step.depth
  cases depth with
  | same same begins continues =>
      have none : pc.owed (m.swept i) = 0 := by rcases begins with rfl | rfl | rfl <;> rfl
      have still : later.owed (m.swept i) = 0 := by rcases continues with rfl | rfl | rfl <;> rfl
      have unrecorded := unswept present (by rcases begins with rfl | rfl | rfl <;> simp)
        (by rcases begins with rfl | rfl | rfl <;> simp)
      exact wf.of_same wf' same step.length entering (by omega) entered
        (swept (by simp [unrecorded])) fun c _ => leaver c
  | @drained stranded jobId c takes =>
      have size : HashMap.size next.pending + 1 = HashMap.size m.dispatcher.pending := by
        rw [takes.pending]
        exact HashMap.size_erase_of_present takes.found
      have balance := wf.balance
      have same := wf.unrecorded_drains takes
      simp only [CloserPc.owed, List.length_append, List.length_singleton] at own before
      refine ⟨wf', ?_, entered, fun d recorded => takes.removed d (wf.left d recorded),
        swept ?_, ?_⟩
      · rw [entering, same]
        show m.enqueued + m.entering = HashMap.size next.pending + m.dequeued + m.drained +
          (List.range next.items.length).countP m.unrecorded + _
        rw [step.length]
        omega
      · simp [unswept present (by simp) (by simp)]
      · intro d unrecorded
        rw [same] at unrecorded
        exact leaver d (wf.leaver d unrecorded)
  | collected same =>
      have unrecorded := unswept present (by simp) (by simp)
      simp only [CloserPc.owed, unrecorded, Bool.false_eq_true, if_false] at own before
      exact wf.of_same wf' same step.length entering (by omega) entered
        (swept (by simp [unrecorded])) fun c _ => leaver c
  | @sent stranded later same ends =>
      have recorded : m.swept i = true := by
        by_contra unrecorded
        simp [Meter.owes, Meter.drain, present, unrecorded] at free
      have still : later.owed (m.swept i) = 0 := by
        rw [recorded]
        rcases ends with ⟨rest, rfl⟩ | rfl <;> rfl
      simp only [CloserPc.owed, recorded, if_true] at before
      exact wf.of_same wf' same step.length entering (by omega) entered (swept fun _ => ends)
        fun c _ => leaver c

/-- A step in which no party moves; a handler or a call of `close` may begin. -/
structure NoMove (s next : DispatcherState T) : Prop where
  same : SameMap s next
  callers : next.callers = s.callers
  workers : next.workers = s.workers
  length : next.items.length = s.items.length
  handlers : next.handlers = s.handlers ∨ next.handlers = s.handlers ++ [.waiting]
  closers : next.closers = s.closers ∨ next.closers = s.closers ++ [.begun]

theorem settle_noMove {s : DispatcherState T} {outcome : Outcome T}
    (taken : settle s jobId outcome = some next) : NoMove s next := by
  simp only [settle, Option.bind_eq_some_iff, Option.map_eq_some_iff] at taken
  obtain ⟨entry, _, item, _, rfl⟩ := taken
  exact ⟨⟨rfl, rfl⟩, rfl, rfl, List.length_set, Or.inl rfl, Or.inl rfl⟩

theorem forwardOutcome_noMove {s : DispatcherState T} {caller : Caller T} {item : Item T}
    (taken : forwardOutcome s c caller item = some next) : NoMove s next := by
  unfold forwardOutcome at taken
  repeat' split at taken
  all_goals
    simp only [Option.some.injEq, reduceCtorEq] at taken
  all_goals
    subst taken
    exact ⟨⟨rfl, rfl⟩, rfl, rfl, List.length_set, Or.inl rfl, Or.inl rfl⟩

/-- The actions that are not a step of a party. -/
def DispatcherAction.impersonal : DispatcherAction T → Bool
  | .dispatch _ _ | .call _ _ | .worker _ _ | .handler _ _ | .closer _ _ => false
  | _ => true

theorem dispatcherStep_noMove {s : DispatcherState T} {action : DispatcherAction T}
    (impersonal : action.impersonal = true) (taken : dispatcherStep cfg s action = some next) :
    NoMove s next := by
  cases action with
  | dispatch | call | worker | handler | closer => simp [DispatcherAction.impersonal] at impersonal
  | advance | submit | shutdown =>
      simp only [dispatcherStep, Option.some.injEq] at taken
      subst taken
      exact ⟨⟨rfl, rfl⟩, rfl, rfl, rfl, Or.inl rfl, Or.inl rfl⟩
  | flag =>
      simp only [dispatcherStep, Option.map_eq_some_iff] at taken
      obtain ⟨handle, _, rfl⟩ := taken
      exact ⟨⟨rfl, rfl⟩, rfl, rfl, rfl, Or.inl rfl, Or.inl rfl⟩
  | lose index =>
      simp only [dispatcherStep] at taken
      split at taken
      · simp only [Option.some.injEq] at taken
        subst taken
        exact ⟨⟨rfl, rfl⟩, rfl, rfl, rfl, Or.inl rfl, Or.inl rfl⟩
      · simp at taken
  | getWork =>
      simp only [dispatcherStep] at taken
      split at taken
      · simp at taken
      · simp only [Option.some.injEq] at taken
        subst taken
        exact ⟨⟨rfl, rfl⟩, rfl, rfl, rfl, Or.inr rfl, Or.inl rfl⟩
  | heartbeat jobId =>
      simp only [dispatcherStep, heartbeatJob, Option.map_eq_some_iff] at taken
      obtain ⟨entry, _, rfl⟩ := taken
      exact ⟨⟨rfl, rfl⟩, rfl, rfl, rfl, Or.inl rfl, Or.inl rfl⟩
  | complete jobId outcome =>
      simp only [dispatcherStep, completeJob] at taken
      split at taken
      · simp at taken
      · exact settle_noMove taken
  | evict jobId =>
      simp only [dispatcherStep, evictJob] at taken
      split at taken
      · simp at taken
      · simp only [Option.bind_eq_some_iff] at taken
        obtain ⟨entry, _, taken⟩ := taken
        split at taken
        · exact settle_noMove taken
        · simp at taken
  | forward c =>
      simp only [dispatcherStep, Option.bind_eq_some_iff] at taken
      obtain ⟨caller, _, item, _, taken⟩ := taken
      exact forwardOutcome_noMove taken
  | close =>
      simp only [dispatcherStep, Option.some.injEq] at taken
      subst taken
      exact ⟨⟨rfl, rfl⟩, rfl, rfl, rfl, Or.inl rfl, Or.inr rfl⟩

theorem NoMove.draining_eq (still : NoMove m.dispatcher next) :
    { m with dispatcher := next }.draining = m.draining := by
  rcases still.closers with closers | closers
  · exact Meter.draining_same closers
  · have same : ∀ j, j < m.dispatcher.closers.length →
        { m with dispatcher := next }.drains j = m.drains j := by
      intro j inside
      simp only [Meter.drains, closers, List.getElem?_append_left inside]
    have none : { m with dispatcher := next }.drains m.dispatcher.closers.length = 0 := by
      simp [Meter.drains, closers, CloserPc.owed]
    simp only [Meter.draining, closers, List.length_append, List.length_singleton, total,
      total_congr same, none, Nat.add_zero]

theorem NoMove.leaver (still : NoMove m.dispatcher next) (leaver : Leaver m.dispatcher c) :
    Leaver next c := by
  unfold Leaver at leaver ⊢
  rw [still.callers, still.workers]
  refine leaver.imp_right fun taker => taker.imp_right ?_
  rintro ⟨j, pc, present, takes⟩
  rcases still.handlers with handlers | handlers
  · exact ⟨j, pc, by rw [handlers, present], takes⟩
  · refine ⟨j, pc, ?_, takes⟩
    rw [handlers, List.getElem?_append_left (List.getElem?_eq_some_iff.mp present).1, present]

theorem DepthWf.impersonal_step (wf : DepthWf m) (wf' : WinnerWf next)
    (still : NoMove m.dispatcher next) : DepthWf { m with dispatcher := next } := by
  refine wf.of_same wf' still.same still.length (Meter.entering_same still.callers)
    still.draining_eq ?_ ?_ fun c _ => still.leaver
  · rw [still.callers]
    exact wf.entered
  · intro j swept
    obtain ⟨pc, present, sends⟩ := wf.swept j swept
    refine ⟨pc, ?_, sends⟩
    rcases still.closers with closers | closers
    · rw [closers, present]
    · rw [closers, List.getElem?_append_left (List.getElem?_eq_some_iff.mp present).1, present]

theorem Meter.entering_begun {caller : Caller T} (begun : caller.pc = .begun)
    (callers : next.callers = m.dispatcher.callers ++ [caller]) :
    { m with dispatcher := next }.entering = m.entering := by
  have same : ∀ j ∈ List.range m.dispatcher.callers.length,
      ({ m with dispatcher := next }.enters j = true ↔ m.enters j = true) := by
    intro j inside
    simp only [Meter.enters, callers, List.getElem?_append_left (List.mem_range.mp inside)]
  have none : { m with dispatcher := next }.enters m.dispatcher.callers.length = false := by
    simp [Meter.enters, callers, begun, DispatchPc.enters]
  simp only [Meter.entering, callers, List.length_append, List.length_singleton, List.range_succ,
    List.countP_append, List.countP_congr same]
  simp [none]

theorem DepthWf.dispatch_step (wf : DepthWf m) (wf' : WinnerWf next) {job : Nat}
    {guard : DispatchGuard} (taken : dispatch cfg m.dispatcher job guard = some next) :
    DepthWf { m with dispatcher := next } := by
  simp only [dispatch, Option.map_eq_some_iff] at taken
  obtain ⟨handle, _, made⟩ := taken
  have callers : next.callers = m.dispatcher.callers ++ [⟨job, handle.job.id, guard, 0, .begun⟩] :=
    by rw [← made]
  have same : SameMap m.dispatcher next := by rw [← made]; exact ⟨rfl, rfl⟩
  have closers : next.closers = m.dispatcher.closers := by rw [← made]
  have length : next.items.length = m.dispatcher.items.length + 1 := by rw [← made]; simp
  have unmade := wf.wf.unmade m.dispatcher.items.length (le_refl _)
  have counted : (List.range next.items.length).countP m.unrecorded =
      (List.range m.dispatcher.items.length).countP m.unrecorded := by
    rw [length, List.range_succ, List.countP_append, List.countP_singleton]
    simp [Meter.unrecorded, unmade]
  have kept : ∀ {j : Nat} {caller : Caller T}, m.dispatcher.callers[j]? = some caller →
      next.callers[j]? = some caller := by
    intro j caller present
    rw [callers, List.getElem?_append_left (List.getElem?_eq_some_iff.mp present).1, present]
  refine ⟨wf', ?_, ?_, ?_, wf.swept_same closers, ?_⟩
  · rw [Meter.draining_same closers, Meter.entering_begun rfl callers,
      DepthWf.unrecorded_same same.remover, counted]
    simpa [same.pending] using wf.balance
  · intro j entered
    obtain ⟨caller, present, late⟩ := wf.entered j entered
    exact ⟨caller, kept present, late⟩
  · intro c recorded
    simpa [same.remover] using wf.left c recorded
  · intro c unrecorded
    rw [DepthWf.unrecorded_same same.remover] at unrecorded
    obtain ⟨j, caller, present, discards⟩ | taker := wf.leaver c unrecorded
    · exact Or.inl ⟨j, caller, kept present, discards⟩
    · have workers : next.workers = m.dispatcher.workers := by rw [← made]
      have handlers : next.handlers = m.dispatcher.handlers := by rw [← made]
      refine Or.inr ?_
      rw [workers, handlers]
      exact taker

theorem DepthWf.base_step (wf : DepthWf m) {action : DispatcherAction T}
    (fresh : DistinctJobs m.dispatcher action) (free : m.owes action = false)
    (taken : dispatcherStep cfg m.dispatcher action = some next) :
    DepthWf { m with dispatcher := next } := by
  have wf' := wf.wf.step fresh taken
  have move := dispatcherStep_move taken
  by_cases impersonal : action.impersonal = true
  · exact wf.impersonal_step wf' (dispatcherStep_noMove impersonal taken)
  · cases action with
    | dispatch job guard => exact wf.dispatch_step wf' taken
    | call i event =>
        simp only [dispatcherStep, Option.bind_eq_some_iff] at taken
        obtain ⟨caller, present, item, _, taken⟩ := taken
        exact wf.call_step wf' present move free taken
    | worker i event =>
        simp only [dispatcherStep, Option.bind_eq_some_iff] at taken
        obtain ⟨pc, present, taken⟩ := taken
        exact wf.worker_step wf' present free taken
    | handler i event =>
        simp only [dispatcherStep, Option.bind_eq_some_iff] at taken
        obtain ⟨pc, present, taken⟩ := taken
        exact wf.handler_step wf' present free taken
    | closer i event =>
        simp only [dispatcherStep, Option.bind_eq_some_iff] at taken
        obtain ⟨pc, present, taken⟩ := taken
        exact wf.closer_step wf' present free taken
    | _ => simp [DispatcherAction.impersonal] at impersonal

/-- An item that a party is letting go of was taken by an executor or by its call. -/
theorem WinnerWf.remover_of_leaver {s : DispatcherState T} (wf : WinnerWf s) (leaver : Leaver s c) :
    c < s.items.length ∧ (s.remover c = some .executor ∨ s.remover c = some .caller) := by
  have known : s.remover c ≠ none → c < s.items.length := by
    intro removed
    by_contra outside
    exact removed (wf.unmade c (by omega))
  have removed : s.remover c = some .executor ∨ s.remover c = some .caller := by
    obtain ⟨i, caller, present, discards⟩ | ⟨i, pc, present, takes⟩ | ⟨i, pc, present, takes⟩ :=
      leaver
    · cases pc : caller.pc with
      | discarding error d =>
          simp only [pc, DispatchPc.discards, Option.some.injEq] at discards
          obtain ⟨rfl, removed⟩ := wf.discards present pc
          exact Or.inr (discards ▸ removed)
      | _ => simp [pc, DispatchPc.discards] at discards
    · have item : pc.item = some c := by
        cases pc <;> simp_all [WorkerPc.stage, TakerStage.item, WorkerPc.item]
      exact Or.inl (wf.executors (.worker i) c pc.phase (Or.inl ⟨i, rfl⟩)
        (by simp [holding, present, item]))
    · have item : pc.item = some c := by
        cases pc <;> simp_all [HandlerPc.stage, TakerStage.item, HandlerPc.item]
      exact Or.inl (wf.executors (.handler i) c .live (Or.inr ⟨i, rfl⟩)
        (by simp [holding, present, item]))
  refine ⟨known ?_, removed⟩
  rcases removed with removed | removed <;> simp [removed]

theorem Meter.leaver_of_removal {place : Place} (removal : m.removal place = some c) :
    Leaver m.dispatcher c := by
  cases place with
  | map => simp [Meter.removal] at removal
  | call i =>
      simp only [Meter.removal, Option.bind_eq_some_iff] at removal
      obtain ⟨caller, present, discards⟩ := removal
      exact Or.inl ⟨i, caller, present, discards⟩
  | worker i =>
      simp only [Meter.removal, Option.bind_eq_some_iff] at removal
      obtain ⟨pc, present, removal⟩ := removal
      split at removal
      next stage => exact Or.inr (Or.inl ⟨i, pc, present, by rw [stage]; exact removal⟩)
      next => simp at removal
  | handler i =>
      simp only [Meter.removal, Option.bind_eq_some_iff] at removal
      obtain ⟨pc, present, removal⟩ := removal
      split at removal
      next stage => exact Or.inr (Or.inr ⟨i, pc, present, by rw [stage]; exact removal⟩)
      next => simp at removal

/-- The parties that are letting go of an item are the removals without a record. -/
theorem DepthWf.leaves_eq (wf : DepthWf m) (c : Nat) : m.leaves c = m.unrecorded c := by
  have iff : (m.dispatcher.callers.any (fun caller => decide (caller.pc.discards = some c)) ||
      m.dispatcher.workers.any (fun pc => decide (pc.stage.item = some c)) ||
      m.dispatcher.handlers.any (fun pc => decide (pc.stage.item = some c))) = true ↔
      Leaver m.dispatcher c := by
    simp only [Leaver, Bool.or_eq_true, any_iff_getElem?, decide_eq_true_eq, or_assoc]
  rw [Bool.eq_iff_iff, Meter.leaves, Bool.and_eq_true, iff]
  constructor
  · rintro ⟨unrecorded, leaver⟩
    rcases (wf.wf.remover_of_leaver leaver).2 with removed | removed <;>
      simpa [Meter.unrecorded, removed] using unrecorded
  · intro unrecorded
    refine ⟨?_, wf.leaver c unrecorded⟩
    simp only [Meter.unrecorded, Bool.and_eq_true] at unrecorded
    exact unrecorded.2

theorem DepthWf.record_enqueued (wf : DepthWf m) {after : Meter T}
    (taken : meterStep cfg m (.recordEnqueued i) = some after) : DepthWf after := by
  simp only [meterStep, Option.bind_eq_some_iff] at taken
  obtain ⟨caller, present, taken⟩ := taken
  split at taken
  next pc =>
    split at taken
    · simp at taken
    next unentered =>
      simp only [Option.some.injEq] at taken
      subst taken
      have bound := (List.getElem?_eq_some_iff.mp present).1
      have before : m.enters i = true := by
        simpa [Meter.enters, present, pc, DispatchPc.enters] using unentered
      have after : { m with entered := Function.update m.entered i true }.enters i = false := by
        simp [Meter.enters]
      have change := countP_range_change (p := m.enters)
        (q := { m with entered := Function.update m.entered i true }.enters) bound ?_
      · have balance : m.enqueued + (List.range m.dispatcher.callers.length).countP m.enters =
            _ := wf.balance
        rw [before, after, Bool.toNat_true, Bool.toNat_false] at change
        refine ⟨wf.wf, ?_, ?_, wf.left, wf.swept, wf.leaver⟩
        · show m.enqueued + 1 + (List.range m.dispatcher.callers.length).countP
              { m with entered := Function.update m.entered i true }.enters =
            HashMap.size m.dispatcher.pending + m.dequeued + m.drained +
              (List.range m.dispatcher.items.length).countP m.unrecorded + m.draining
          omega
        · intro j entered
          by_cases same : j = i
          · subst same
            exact ⟨caller, present, by rw [pc]; rfl⟩
          · exact wf.entered j (by simpa [Function.update_of_ne same] using entered)
      · intro j different
        simp [Meter.enters, Function.update_of_ne different]
  next => simp at taken

theorem DepthWf.record_dequeued (wf : DepthWf m) {after : Meter T} {place : Place}
    (taken : meterStep cfg m (.recordDequeued place) = some after) : DepthWf after := by
  simp only [meterStep, Option.bind_eq_some_iff] at taken
  obtain ⟨c, removal, taken⟩ := taken
  split at taken
  · simp at taken
  next unrecorded =>
    simp only [Option.some.injEq] at taken
    subst taken
    obtain ⟨bound, removed⟩ := wf.wf.remover_of_leaver (Meter.leaver_of_removal removal)
    have before : m.unrecorded c = true := by
      rcases removed with removed | removed <;> simpa [Meter.unrecorded, removed] using unrecorded
    have after : { m with left := Function.update m.left c true }.unrecorded c = false := by
      simp [Meter.unrecorded]
    have change := countP_range_change (p := m.unrecorded)
      (q := { m with left := Function.update m.left c true }.unrecorded) bound ?_
    · have balance := wf.balance
      rw [before, after, Bool.toNat_true, Bool.toNat_false] at change
      refine ⟨wf.wf, ?_, wf.entered, ?_, wf.swept, ?_⟩
      · show m.enqueued + m.entering =
          HashMap.size m.dispatcher.pending + (m.dequeued + 1) + m.drained +
            (List.range m.dispatcher.items.length).countP
              { m with left := Function.update m.left c true }.unrecorded + m.draining
        omega
      · intro d recorded
        by_cases same : d = c
        · subst same
          rcases removed with removed | removed <;> simp [removed]
        · exact wf.left d (by simpa [Function.update_of_ne same] using recorded)
      · intro d unleft
        by_cases same : d = c
        · subst same
          simp [Meter.unrecorded] at unleft
        · refine wf.leaver d ?_
          simpa [Meter.unrecorded, Function.update_of_ne same] using unleft
    · intro d different
      simp [Meter.unrecorded, Function.update_of_ne different]

theorem DepthWf.record_drained (wf : DepthWf m) {after : Meter T}
    (taken : meterStep cfg m (.recordDrained i) = some after) : DepthWf after := by
  simp only [meterStep, Meter.drain, Option.map_eq_some_iff, Option.bind_eq_some_iff] at taken
  obtain ⟨count, ⟨pc, present, sends⟩, rfl⟩ := taken
  split at sends
  next stranded =>
    split at sends
    · simp at sends
    next unrecorded =>
      simp only [Option.some.injEq] at sends
      subst sends
      have bound := (List.getElem?_eq_some_iff.mp present).1
      have before : m.drains i = stranded.length := by
        simp [Meter.drains, present, CloserPc.owed, unrecorded]
      have after : { m with swept := Function.update m.swept i true }.drains i = 0 := by
        simp [Meter.drains, present, CloserPc.owed]
      have change := total_change (f := m.drains)
        (g := { m with swept := Function.update m.swept i true }.drains) bound ?_
      · have balance : _ = _ + m.dequeued + m.drained + _ +
            total m.drains m.dispatcher.closers.length := wf.balance
        rw [before, after] at change
        refine ⟨wf.wf, ?_, wf.entered, wf.left, ?_, wf.leaver⟩
        · show m.enqueued + m.entering =
            HashMap.size m.dispatcher.pending + m.dequeued + (m.drained + stranded.length) +
              (List.range m.dispatcher.items.length).countP m.unrecorded +
              total { m with swept := Function.update m.swept i true }.drains
                m.dispatcher.closers.length
          omega
        · intro j swept
          by_cases same : j = i
          · subst same
            exact ⟨_, present, Or.inl ⟨stranded, rfl⟩⟩
          · exact wf.swept j (by simpa [Function.update_of_ne same] using swept)
      · intro j different
        simp [Meter.drains, Function.update_of_ne different]
  next => simp at sends

end Step

section Runs

variable {cfg : DispatcherConfig T} {m : Meter T} {now : Nat}

/-- Each dispatch call is for a job with an identifier of its own. -/
def DistinctMeterJobs (m : Meter T) : MeterAction T → Prop
  | .dispatcher action => DistinctJobs m.dispatcher action
  | _ => True

/-- The permits and the records fit the map. -/
structure MeterWf (cfg : DispatcherConfig T) (m : Meter T) : Prop where
  permits : PermitWf cfg m.dispatcher
  depth : DepthWf m

theorem MeterWf.initial (cfg : DispatcherConfig T) (now : Nat) :
    MeterWf cfg (Meter.new cfg now) where
  permits := PermitWf.initial cfg now
  depth := {
    wf := WinnerWf.initial cfg now
    balance := rfl
    entered := by simp [Meter.new]
    left := by simp [Meter.new]
    swept := by simp [Meter.new]
    leaver := by simp [Meter.new, Meter.unrecorded, DispatcherState.new] }

theorem MeterWf.step (wf : MeterWf cfg m) {action : MeterAction T} {next : Meter T}
    (fresh : DistinctMeterJobs m action) (taken : meterStep cfg m action = some next) :
    MeterWf cfg next := by
  cases action with
  | dispatcher action =>
      simp only [meterStep] at taken
      split at taken
      · simp at taken
      next free =>
        simp only [Option.map_eq_some_iff] at taken
        obtain ⟨later, taken, rfl⟩ := taken
        exact ⟨wf.permits.step fresh taken, wf.depth.base_step fresh (by simpa using free) taken⟩
  | recordEnqueued call =>
      have depth := wf.depth.record_enqueued taken
      simp only [meterStep, Option.bind_eq_some_iff] at taken
      obtain ⟨caller, _, taken⟩ := taken
      repeat' split at taken
      all_goals
        simp only [Option.some.injEq, reduceCtorEq] at taken
      subst taken
      exact ⟨wf.permits, depth⟩
  | recordDequeued place =>
      have depth := wf.depth.record_dequeued taken
      simp only [meterStep, Option.bind_eq_some_iff] at taken
      obtain ⟨c, _, taken⟩ := taken
      split at taken
      · simp at taken
      · simp only [Option.some.injEq] at taken
        subst taken
        exact ⟨wf.permits, depth⟩
  | recordDrained closer =>
      have depth := wf.depth.record_drained taken
      simp only [meterStep, Option.map_eq_some_iff] at taken
      obtain ⟨count, _, rfl⟩ := taken
      exact ⟨wf.permits, depth⟩

theorem MeterWf.of_path {actions : List (MeterAction T)}
    (path : Path (meterStep cfg) DistinctMeterJobs (Meter.new cfg now) actions m) :
    MeterWf cfg m :=
  path.invariant (MeterWf.initial cfg now) fun _ _ _ wf fresh taken => wf.step fresh taken

theorem DepthWf.leaving_eq (wf : DepthWf m) :
    m.leaving = (List.range m.dispatcher.items.length).countP m.unrecorded := by
  rw [Meter.leaving]
  refine List.countP_congr ?_
  intro c _
  rw [wf.leaves_eq c]

/-- Capacity is neither lost nor gained, and the gauge follows the map. -/
theorem queue_accounting_exact {actions : List (MeterAction T)}
    (path : Path (meterStep cfg) DistinctMeterJobs (Meter.new cfg now) actions m) :
    m.dispatcher.permits + HashMap.size m.dispatcher.pending + m.dispatcher.permitted +
        m.dispatcher.unreleased = cfg.capacity ∧
      HashMap.size m.dispatcher.pending ≤ cfg.capacity ∧
      (m.enqueued : Int) - m.dequeued - m.drained =
        HashMap.size m.dispatcher.pending - m.entering + m.leaving + m.draining := by
  have wf := MeterWf.of_path path
  have capacity := wf.permits.exact
  have balance := wf.depth.balance
  rw [← wf.depth.leaving_eq] at balance
  refine ⟨capacity, by omega, by omega⟩

end Runs

def distinctMeterJobs (m : Meter T) : MeterAction T → Bool
  | .dispatcher action => distinctJobs m.dispatcher action
  | _ => true

theorem distinctMeterJobs_sound (m : Meter T) (action : MeterAction T)
    (checked : distinctMeterJobs m action = true) : DistinctMeterJobs m action := by
  cases action with
  | dispatcher action => exact distinctJobs_sound m.dispatcher action checked
  | _ => trivial

namespace Scenario

def meteredQueueUp (i : Nat) : List (MeterAction String) :=
  List.replicate 4 (.dispatcher (.call i .step)) ++
    [.recordEnqueued i, .dispatcher (.call i .step)]

/-- One call takes its item back, the pool runs one, `close` drains the third; the pool and
`close` have not recorded that yet. -/
def oneLeftOneDrained : List (MeterAction String) :=
  [.dispatcher (.submit (userJob "first")), .dispatcher (.submit (userJob "second")),
    .dispatcher (.submit (userJob "third")), .dispatcher (.dispatch 0 .cancelled),
    .dispatcher (.dispatch 1 .none), .dispatcher (.dispatch 2 .none)]
    ++ meteredQueueUp 0 ++ meteredQueueUp 1 ++ meteredQueueUp 2 ++
    [.dispatcher (.flag 0 .cancel), .dispatcher (.call 0 .step), .dispatcher (.call 0 .step),
      .recordDequeued (.call 0), .dispatcher (.call 0 .step),
      .dispatcher (.worker 0 (.dequeue 1)), .dispatcher (.worker 0 .step),
      .dispatcher .close, .dispatcher (.closer 0 .step), .dispatcher (.closer 0 .step),
      .dispatcher (.closer 0 .step), .dispatcher (.closer 0 (.drain "third")),
      .dispatcher (.worker 0 .step)]

end Scenario

open Scenario in
theorem queue_accounting_oneLeftOneDrained :
    ∃ m, Path (meterStep localPool) DistinctMeterJobs (Meter.new localPool 0) oneLeftOneDrained m ∧
      HashMap.size m.dispatcher.pending = 0 ∧ m.enqueued = 3 ∧ m.dequeued = 1 ∧ m.drained = 0 ∧
      m.entering = 0 ∧ m.leaving = 1 ∧ m.draining = 1 ∧
      m.dispatcher.permits + m.dispatcher.permitted + m.dispatcher.unreleased = 4 ∧
      (m.enqueued : Int) - m.dequeued - m.drained =
        HashMap.size m.dispatcher.pending - m.entering + m.leaving + m.draining := by
  have ran : (run (fun m action => if distinctMeterJobs m action then meterStep localPool m action
      else none) (Meter.new localPool 0) oneLeftOneDrained).any (fun m =>
        decide (HashMap.size m.dispatcher.pending = 0 ∧ m.enqueued = 3 ∧ m.dequeued = 1 ∧
          m.drained = 0 ∧ m.entering = 0 ∧ m.leaving = 1 ∧ m.draining = 1)) = true := by
    decide +kernel
  obtain ⟨m, finished, checked⟩ := (Option.any_eq_true _ _).mp ran
  obtain ⟨empty, enqueued, dequeued, drained, entering, leaving, draining⟩ :=
    of_decide_eq_true checked
  have path := Path.of_run_if distinctMeterJobs_sound _ _ finished
  obtain ⟨capacity, _, gauge⟩ := queue_accounting_exact path
  refine ⟨m, path, empty, enqueued, dequeued, drained, entering, leaving, draining, ?_, gauge⟩
  rw [empty] at capacity
  simpa [localPool] using capacity

end BitsBroker
