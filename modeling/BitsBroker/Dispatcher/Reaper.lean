import BitsBroker.Dispatcher.RemoteResults

/-!
The time that the reaper of a remote pool takes to notice a silent worker, and what a worker has to
do to keep its job. The interval of the reaper is half the heartbeat timeout and, after a late tick,
keeps to the instants it was due at. `delay` bounds how late the executor lets the reaper run and how
long a walk over the table takes; it is a bound on the clock, so a run in which the reaper is late
does not let more time pass.
-/

namespace BitsBroker

open Transition Table DispatcherState

/-- `due` is the instant of the next tick, and `walked` the one that the last finished walk has
compared with. -/
structure TimedPool where
  state : PoolState
  due : Nat
  walked : Nat

namespace TimedPool

def now (s : TimedPool) : Nat := s.state.dispatcher.now

def reaper (s : TimedPool) : ReaperPc := s.state.reaper

def new (pool : RemotePool) (start : Nat) : TimedPool where
  state := PoolState.new pool start
  due := start
  walked := start

end TimedPool

def RemotePool.interval (pool : RemotePool) : Nat := pool.heartbeatTimeout / 2

/-- What the last finished walk has compared with after a step from `s` to `next`. -/
def walkedAfter (s : TimedPool) (next : PoolState) : Nat :=
  match s.reaper, next.reaper with
  | .retaining now _, .selecting => now
  | _, _ => s.walked

def timedStep (pool : RemotePool) (s : TimedPool) (action : PoolAction) : Option TimedPool :=
  match action with
  | .reaper .tick =>
      if s.due ≤ s.now then
        (poolStep pool s.state (.reaper .tick)).map fun next =>
          ⟨next, s.due + pool.interval, s.walked⟩
      else none
  | action => (poolStep pool s.state action).map fun next => ⟨next, s.due, walkedAfter s next⟩

/-- The clock does not run ahead of a reaper that has a step to take. -/
def Punctual (delay : Nat) (s : TimedPool) : PoolAction → Prop
  | .dispatcher (.advance elapsed) => match s.reaper with
      | .selecting => elapsed = 0 ∨ s.now + elapsed ≤ s.due + delay
      | .retaining now _ => s.now + elapsed ≤ now + delay
      | _ => True
  | _ => True

def TimelyStep (delay : Nat) (s : TimedPool) (action : PoolAction) : Prop :=
  PoolDistinct s.state action ∧ Punctual delay s action

/-- Where the reaper is between two walks, and how long ago the last one was. -/
structure Timely (pool : RemotePool) (delay : Nat) (s : TimedPool) : Prop where
  wf : PoolWf pool s.state
  walked : s.walked ≤ s.now
  fresh (jobId : String) (entry : InProgressJob) :
    s.state.dispatcher.inProgress.lookup jobId = some entry →
      s.walked < entry.lastHeartbeat + pool.heartbeatTimeout
  selecting : s.reaper = .selecting → s.due ≤ s.walked + pool.interval ∧
    (s.now ≤ s.due + delay ∨ s.now ≤ s.walked + delay)
  retaining (now shard : Nat) : s.reaper = .retaining now shard →
    s.walked ≤ now ∧ now ≤ s.walked + pool.interval + delay ∧ s.now ≤ now + delay ∧
      s.due ≤ now + pool.interval
  ended : s.reaper = .ended → s.state.dispatcher.stopping = true

section Clock

variable {T : Type} {cfg : DispatcherConfig T} {s next : DispatcherState T} {i c : Nat}
  {caller : Caller T} {item : Item T} {pc : HandlerPc}

theorem handlerItem_now (taken : handlerItem s i c caller item pc = some next) :
    next.now = s.now := by
  cases pc with
  | checking job d =>
      cases taken
      unfold handlerCheck
      repeat' split
      all_goals rfl
  | claiming job d =>
      obtain ⟨handle, _, rfl⟩ := Option.map_eq_some_iff.mp taken
      rfl
  | displacing d previous =>
      obtain ⟨displaced, _, rfl⟩ := Option.map_eq_some_iff.mp taken
      rfl
  | removed _ _ | spawning _ | leaving _ =>
      cases taken
      rfl
  | unpermitted _ _ | checkingPollers _ _ | checkingDeadline _ _ =>
      simp only [handlerItem] at taken
      split at taken
      · cases taken
        rfl
      · cases taken
        rfl
  | waiting | dequeued _ | done => cases taken

theorem handlerEvent_now {event : HandlerEvent}
    (taken : handlerEvent s i pc event = some next) : next.now = s.now := by
  unfold handlerEvent at taken
  split at taken
  · split at taken
    · obtain ⟨job, _, rfl⟩ := Option.map_eq_some_iff.mp taken
      rfl
    · cases taken
  · split at taken
    · cases taken
      rfl
    · cases taken
  · split at taken
    · obtain ⟨handle, _, rfl⟩ := Option.map_eq_some_iff.mp taken
      split <;> rfl
    · simp only [Option.bind_eq_some_iff] at taken
      obtain ⟨c, _, caller, _, item, _, taken⟩ := taken
      exact handlerItem_now taken

/-- Of the steps that leave the table to the handlers only `advance` takes time. -/
theorem dispatcherStep_now {action : DispatcherAction T} (remote : s.workers = [])
    (timeless : ∀ elapsed, action ≠ .advance elapsed) (elsewhere : action.onTable = false)
    (taken : dispatcherStep cfg s action = some next) : next.now = s.now := by
  cases action with
  | advance elapsed => exact absurd rfl (timeless elapsed)
  | heartbeat | complete | evict => cases elsewhere
  | submit | close | shutdown => exact Option.some.inj taken ▸ rfl
  | flag | dispatch =>
      obtain ⟨handle, _, rfl⟩ := Option.map_eq_some_iff.mp taken
      rfl
  | call i event =>
      simp only [dispatcherStep, Option.bind_eq_some_iff] at taken
      obtain ⟨caller, _, item, _, taken⟩ := taken
      exact (dispatchEvent_items taken).1.now
  | worker i event => simp [dispatcherStep, remote] at taken
  | lose index =>
      simp only [dispatcherStep] at taken
      split at taken
      · exact Option.some.inj taken ▸ rfl
      · cases taken
  | getWork =>
      simp only [dispatcherStep] at taken
      split at taken
      · cases taken
      · exact Option.some.inj taken ▸ rfl
  | handler i event =>
      simp only [dispatcherStep, Option.bind_eq_some_iff] at taken
      obtain ⟨pc, _, taken⟩ := taken
      exact handlerEvent_now taken
  | forward c =>
      simp only [dispatcherStep, Option.bind_eq_some_iff, forwardOutcome] at taken
      obtain ⟨caller, _, item, _, taken⟩ := taken
      repeat' split at taken
      all_goals
        first
        | exact Option.some.inj taken ▸ rfl
        | cases taken
  | closer i event =>
      simp only [dispatcherStep, Option.bind_eq_some_iff] at taken
      obtain ⟨pc, present, taken⟩ := taken
      exact (closerEvent_items present taken).1.now

end Clock

section Steps

variable {pool : RemotePool} {delay : Nat} {s next : TimedPool} {action : PoolAction}

theorem timedStep_pool (taken : timedStep pool s action = some next) :
    poolStep pool s.state action = some next.state := by
  unfold timedStep at taken
  split at taken
  · split at taken
    · obtain ⟨after, moved, rfl⟩ := Option.map_eq_some_iff.mp taken
      exact moved
    · cases taken
  · obtain ⟨after, moved, rfl⟩ := Option.map_eq_some_iff.mp taken
    exact moved

theorem Timely.progress (timely : Timely pool delay s) (distinct : PoolDistinct s.state action)
    (taken : poolStep pool s.state action = some next.state) :
    Progress s.state.dispatcher next.state.dispatcher :=
  (poolStep_run timely.wf.reaper.clock distinct taken).progress timely.wf.winner timely.wf.claims

/-- An entry of the table is an old one, or newer than the last walk. -/
theorem Timely.fresh_step (timely : Timely pool delay s)
    (progress : Progress s.state.dispatcher next.state.dispatcher)
    (positive : 0 < pool.heartbeatTimeout) {jobId : String} {entry : InProgressJob}
    (found : next.state.dispatcher.inProgress.lookup jobId = some entry) :
    s.walked < entry.lastHeartbeat + pool.heartbeatTimeout := by
  rcases progress.refreshed jobId entry found with old | newer
  · exact timely.fresh jobId entry old
  · have walked : s.walked ≤ s.state.dispatcher.now := timely.walked
    omega

/-- A step that leaves the reaper where it is. -/
theorem Timely.still (timely : Timely pool delay s) (positive : 0 < pool.heartbeatTimeout)
    (allowed : TimelyStep delay s action) (moved : poolStep pool s.state action = some next.state)
    (reaper : next.reaper = s.reaper) (due : next.due = s.due) (walked : next.walked = s.walked)
    (clock : next.now = s.now ∨
      ∃ elapsed, action = .dispatcher (.advance elapsed) ∧ next.now = s.now + elapsed) :
    Timely pool delay next := by
  have progress := timely.progress allowed.1 moved
  have later : s.now ≤ next.now := progress.now
  have before := timely.walked
  refine ⟨timely.wf.step allowed.1 moved, by omega, ?_, ?_, ?_, ?_⟩
  · intro jobId entry found
    rw [walked]
    exact timely.fresh_step progress positive found
  · intro selecting
    rw [reaper] at selecting
    obtain ⟨soon, late⟩ := timely.selecting selecting
    rw [due, walked]
    refine ⟨soon, ?_⟩
    rcases clock with same | ⟨elapsed, rfl, same⟩
    · rw [same]
      exact late
    · have kept := allowed.2
      simp only [Punctual, selecting] at kept
      rcases kept with still | kept
      · rw [same, still, Nat.add_zero]
        exact late
      · exact Or.inl (same ▸ kept)
  · intro now shard retaining
    rw [reaper] at retaining
    obtain ⟨first, second, third, fourth⟩ := timely.retaining now shard retaining
    rw [due, walked]
    refine ⟨first, second, ?_, fourth⟩
    rcases clock with same | ⟨elapsed, rfl, same⟩
    · rw [same]
      exact third
    · have kept := allowed.2
      simp only [Punctual, retaining] at kept
      rw [same]
      exact kept
  · intro ended
    rw [reaper] at ended
    exact progress.stopping (timely.ended ended)

theorem walkedAfter_same {after : PoolState} (same : after.reaper = s.reaper) :
    walkedAfter s after = s.walked := by
  unfold walkedAfter
  split
  next now shard retaining selecting =>
    rw [same] at selecting
    exact absurd (retaining.symm.trans selecting) (by simp)
  · rfl

theorem timedStep_step (taken : timedStep pool s action = some next) (ticks : action ≠ .reaper .tick) :
    next.due = s.due ∧ next.walked = walkedAfter s next.state := by
  unfold timedStep at taken
  split at taken
  · exact absurd rfl ticks
  · obtain ⟨after, moved, rfl⟩ := Option.map_eq_some_iff.mp taken
    exact ⟨rfl, rfl⟩

theorem Timely.serve_step {request : WorkerRequest} (timely : Timely pool delay s)
    (positive : 0 < pool.heartbeatTimeout) (allowed : TimelyStep delay s (.serve request))
    (taken : timedStep pool s (.serve request) = some next) : Timely pool delay next := by
  have moved := timedStep_pool taken
  obtain ⟨due, walked⟩ := timedStep_step taken (by simp)
  have after : ({ s.state with dispatcher := (serve s.state.dispatcher request).2 } : PoolState) =
      next.state := Option.some.inj moved
  have reaper : next.state.reaper = s.state.reaper := after ▸ rfl
  have clock : next.state.dispatcher.now = s.state.dispatcher.now :=
    after ▸ (serve_tableOnly s.state.dispatcher request).now
  exact timely.still positive allowed moved reaper due (walked.trans (walkedAfter_same reaper))
    (Or.inl clock)

theorem Timely.dispatcher_step {inner : DispatcherAction TargetResult}
    (timely : Timely pool delay s) (positive : 0 < pool.heartbeatTimeout)
    (allowed : TimelyStep delay s (.dispatcher inner))
    (taken : timedStep pool s (.dispatcher inner) = some next) : Timely pool delay next := by
  have moved := timedStep_pool taken
  obtain ⟨due, walked⟩ := timedStep_step taken (by simp)
  have stepped := moved
  simp only [poolStep] at stepped
  split at stepped
  · cases stepped
  next elsewhere =>
    obtain ⟨dispatcher, inside, after⟩ := Option.map_eq_some_iff.mp stepped
    have reaper : next.state.reaper = s.state.reaper := after ▸ rfl
    have inState : next.state.dispatcher = dispatcher := after ▸ rfl
    apply timely.still positive allowed moved reaper due (walked.trans (walkedAfter_same reaper))
    by_cases advances : ∃ elapsed, inner = .advance elapsed
    · obtain ⟨elapsed, rfl⟩ := advances
      have advanced : { s.state.dispatcher with now := s.state.dispatcher.now + elapsed } =
          dispatcher := Option.some.inj inside
      have clock : next.state.dispatcher.now = s.state.dispatcher.now + elapsed :=
        inState ▸ advanced ▸ rfl
      exact Or.inr ⟨elapsed, rfl, clock⟩
    · have kept : dispatcher.now = s.state.dispatcher.now := by
        apply dispatcherStep_now timely.wf.claims.remote _ (by simpa using elsewhere) inside
        intro elapsed same
        exact advances ⟨elapsed, same⟩
      have clock : next.state.dispatcher.now = s.state.dispatcher.now := inState ▸ kept
      exact Or.inl clock

/-- The next tick is due an interval after this one was, however late this one is. -/
theorem Timely.tick_step (timely : Timely pool delay s)
    (allowed : TimelyStep delay s (.reaper .tick))
    (taken : timedStep pool s (.reaper .tick) = some next) : Timely pool delay next := by
  have moved := timedStep_pool taken
  have progress := timely.progress allowed.1 moved
  have wf := timely.wf.step allowed.1 moved
  simp only [timedStep] at taken
  split at taken
  next late =>
    obtain ⟨after, ticked, rfl⟩ := Option.map_eq_some_iff.mp taken
    simp only [poolStep, reaperStep] at ticked
    split at ticked
    next selecting =>
      cases ticked
      obtain ⟨soon, bound⟩ := timely.selecting selecting
      have before := timely.walked
      refine ⟨wf, before, timely.fresh, by simp [TimedPool.reaper], ?_, by simp [TimedPool.reaper]⟩
      intro now shard retaining
      obtain ⟨rfl, rfl⟩ := ReaperPc.retaining.inj retaining
      change s.walked ≤ s.now ∧ s.now ≤ s.walked + pool.interval + delay ∧ s.now ≤ s.now + delay ∧
        s.due + pool.interval ≤ s.now + pool.interval
      omega
    · cases ticked
  · cases taken

/-- The walk ends: every entry that is left was alive when the tick came. -/
theorem Timely.finish_step {now shard : Nat} (timely : Timely pool delay s)
    (retaining : s.state.reaper = .retaining now shard) (beyond : pool.shards ≤ shard)
    (wf : PoolWf pool ⟨s.state.dispatcher, .selecting⟩) :
    Timely pool delay ⟨⟨s.state.dispatcher, .selecting⟩, s.due, now⟩ := by
  obtain ⟨first, second, third, fourth⟩ := timely.retaining now shard retaining
  have ok := timely.wf.reaper
  rw [ReaperOk, retaining] at ok
  obtain ⟨positive, captured, alive⟩ := ok
  refine ⟨wf, captured, ?_, ?_, by simp [TimedPool.reaper], by simp [TimedPool.reaper]⟩
  · intro jobId entry found
    have inside := pool.sharded jobId
    have kept := alive jobId entry found (by omega)
    show now < entry.lastHeartbeat + pool.heartbeatTimeout
    omega
  · intro _
    exact ⟨fourth, Or.inr third⟩

/-- The reaper of a stopping server makes no more promises. -/
theorem Timely.stopped (timely : Timely pool delay s) (positive : 0 < pool.heartbeatTimeout)
    (progress : Progress s.state.dispatcher next.state.dispatcher) (wf : PoolWf pool next.state)
    (walked : next.walked = s.walked) (stopping : next.state.dispatcher.stopping = true)
    (selecting : next.reaper ≠ .selecting)
    (retaining : ∀ now shard, next.reaper ≠ .retaining now shard) : Timely pool delay next := by
  have later : s.now ≤ next.now := progress.now
  have before := timely.walked
  refine ⟨wf, by omega, ?_, fun is => absurd is selecting,
    fun now shard is => absurd is (retaining now shard), fun _ => stopping⟩
  intro jobId entry found
  rw [walked]
  exact timely.fresh_step progress positive found

theorem Timely.walk_step {event : ReaperEvent} (timely : Timely pool delay s)
    (positive : 0 < pool.heartbeatTimeout) (allowed : TimelyStep delay s (.reaper event))
    (ticks : event ≠ .tick) (taken : timedStep pool s (.reaper event) = some next) :
    Timely pool delay next := by
  have moved := timedStep_pool taken
  have progress := timely.progress allowed.1 moved
  have wf := timely.wf.step allowed.1 moved
  obtain ⟨due, walked⟩ := timedStep_step taken (by simpa using ticks)
  have unwalked : (∀ now shard, s.reaper ≠ .retaining now shard) → next.walked = s.walked := by
    intro idle
    rw [walked]
    unfold walkedAfter
    split
    next now shard retaining _ => exact absurd retaining (idle now shard)
    · rfl
  obtain ⟨state, dueNext, walkedNext⟩ := next
  dsimp only at moved progress wf due walked unwalked
  subst due
  have clock := timely.wf.reaper.clock
  cases is : s.state.reaper with
  | selecting =>
      cases event with
      | tick => exact absurd rfl ticks
      | shutdown =>
          simp only [poolStep, reaperStep, is] at moved
          split at moved
          next stopping =>
            cases moved
            exact timely.stopped positive progress wf (unwalked (by simp [TimedPool.reaper, is]))
              stopping (by simp [TimedPool.reaper]) (by simp [TimedPool.reaper])
          · cases moved
      | step => simp [poolStep, reaperStep, is] at moved
  | retaining now shard =>
      cases event with
      | tick => exact absurd rfl ticks
      | shutdown => simp [poolStep, reaperStep, is] at moved
      | step =>
          simp only [poolStep, reaperStep, is] at moved
          split at moved
          next inside =>
            cases moved
            obtain ⟨first, second, third, fourth⟩ := timely.retaining now shard is
            have same : walkedNext = s.walked := by
              rw [walked]
              simp [walkedAfter]
            have still : (retainShard pool now shard s.state.dispatcher).now =
                s.state.dispatcher.now := (retain_tableOnly _ _ _).now
            subst same
            have before : s.walked ≤ s.now := timely.walked
            refine ⟨wf, ?_, ?_, by simp [TimedPool.reaper], ?_, by simp [TimedPool.reaper]⟩
            · exact before.trans still.ge
            · exact fun jobId entry found => timely.fresh_step progress positive found
            · intro begun walking retaining
              obtain ⟨rfl, rfl⟩ := ReaperPc.retaining.inj retaining
              exact ⟨first, second, still.le.trans third, fourth⟩
          next beyond =>
            cases moved
            have same : walkedNext = now := by
              rw [walked]
              simp [walkedAfter, TimedPool.reaper, is]
            subst same
            exact timely.finish_step is (by omega) wf
  | collecting shard ids =>
      have stopping := clock.collects shard ids is
      have same := unwalked (by simp [TimedPool.reaper, is])
      cases event with
      | tick => exact absurd rfl ticks
      | shutdown => simp [poolStep, reaperStep, is] at moved
      | step =>
          simp only [poolStep, reaperStep, is] at moved
          split at moved
          · cases moved
            exact timely.stopped positive progress wf same stopping (by simp [TimedPool.reaper])
              (by simp [TimedPool.reaper])
          · cases moved
            exact timely.stopped positive progress wf same stopping (by simp [TimedPool.reaper])
              (by simp [TimedPool.reaper])
  | removing ids =>
      have stopping := clock.drops ids is
      have same := unwalked (by simp [TimedPool.reaper, is])
      have stops := progress.stopping stopping
      cases event with
      | tick => exact absurd rfl ticks
      | shutdown => simp [poolStep, reaperStep, is] at moved
      | step =>
          cases ids with
          | nil =>
              simp only [poolStep, reaperStep, is] at moved
              cases moved
              exact timely.stopped positive progress wf same stops (by simp [TimedPool.reaper])
                (by simp [TimedPool.reaper])
          | cons jobId rest =>
              simp only [poolStep, reaperStep, is] at moved
              cases moved
              exact timely.stopped positive progress wf same stops (by simp [TimedPool.reaper])
                (by simp [TimedPool.reaper])
  | ended =>
      cases event with
      | tick => exact absurd rfl ticks
      | shutdown | step => simp [poolStep, reaperStep, is] at moved

theorem Timely.step (timely : Timely pool delay s) (positive : 0 < pool.heartbeatTimeout)
    (allowed : TimelyStep delay s action) (taken : timedStep pool s action = some next) :
    Timely pool delay next := by
  cases action with
  | serve request => exact timely.serve_step positive allowed taken
  | dispatcher inner => exact timely.dispatcher_step positive allowed taken
  | reaper event =>
      by_cases ticks : event = .tick
      · subst ticks
        exact timely.tick_step allowed taken
      · exact timely.walk_step positive allowed ticks taken

theorem Timely.initial (ticks : 0 < pool.interval) (start : Nat) :
    Timely pool delay (TimedPool.new pool start) := by
  have selecting : (TimedPool.new pool start).reaper = .selecting := by
    simp only [TimedPool.reaper, TimedPool.new, PoolState.new]
    rw [if_neg (by simpa [RemotePool.interval] using ticks.ne')]
  refine ⟨PoolWf.initial pool start, Nat.le_refl start, ?_, ?_, ?_, ?_⟩
  · intro jobId entry found
    simp [TimedPool.new, PoolState.new, DispatcherState.new] at found
  · intro _
    exact ⟨Nat.le_add_right start _, Or.inl (Nat.le_add_right start _)⟩
  · intro now shard retaining
    rw [selecting] at retaining
    cases retaining
  · intro ended
    rw [selecting] at ended
    cases ended

theorem Timely.of_path {start : Nat} {actions : List PoolAction} (ticks : 0 < pool.interval)
    (path : Path (timedStep pool) (TimelyStep delay) (TimedPool.new pool start) actions s) :
    Timely pool delay s := by
  have positive : 0 < pool.heartbeatTimeout := by
    have half : 0 < pool.heartbeatTimeout / 2 := ticks
    omega
  apply path.invariant (Timely.initial ticks start)
  intro _ _ _ timely allowed taken
  exact timely.step positive allowed taken

theorem timed_path {start : TimedPool} {actions : List PoolAction}
    (path : Path (timedStep pool) (TimelyStep delay) start actions s) :
    Path (poolStep pool) PoolDistinct start.state actions s.state := by
  induction path with
  | nil => exact Path.nil
  | snoc _ allowed taken ih => exact Path.snoc ih allowed.1 (timedStep_pool taken)

/-- The clock is never further than this from the last finished walk. -/
theorem Timely.recent (timely : Timely pool delay s)
    (running : s.state.dispatcher.stopping = false) :
    s.now ≤ s.walked + pool.interval + 2 * delay := by
  have clock := timely.wf.reaper.clock
  cases is : s.state.reaper with
  | selecting =>
      obtain ⟨soon, late⟩ := timely.selecting is
      omega
  | retaining now shard =>
      obtain ⟨_, second, third, _⟩ := timely.retaining now shard is
      omega
  | collecting shard ids => simp [clock.collects shard ids is] at running
  | removing ids => simp [clock.drops ids is] at running
  | ended => simp [timely.ended is] at running

end Steps

/-- While the server runs, a call that waits for a worker has heard from it within one and a half
heartbeat timeouts and what the reaper was late. -/
theorem silent_worker_noticed {pool : RemotePool} {delay start : Nat} {actions : List PoolAction}
    {s : TimedPool} {c : Nat} {caller : Caller TargetResult} {item : Item TargetResult}
    (ticks : 0 < pool.interval)
    (path : Path (timedStep pool) (TimelyStep delay) (TimedPool.new pool start) actions s)
    (running : s.state.dispatcher.stopping = false)
    (present : s.state.dispatcher.callers[c]? = some caller)
    (known : s.state.dispatcher.items[c]? = some item) (waiting : item.outcome = .waiting) :
    ∃ heard, LastContact pool start actions s.state caller.jobId heard ∧
      s.now < heard + pool.heartbeatTimeout + pool.interval + 2 * delay := by
  have timely := Timely.of_path ticks path
  obtain ⟨entry, found, _⟩ := timely.wf.claims.entered c caller item present known waiting
  have fresh := timely.fresh caller.jobId entry found
  have recent := timely.recent running
  exact ⟨entry.lastHeartbeat, lastContact_of_entry (timed_path path) found, by omega⟩

def timelyStep (delay : Nat) (s : TimedPool) (action : PoolAction) : Bool :=
  poolDistinct s.state action && match action with
    | .dispatcher (.advance elapsed) => match s.reaper with
        | .selecting => elapsed == 0 || decide (s.now + elapsed ≤ s.due + delay)
        | .retaining now _ => decide (s.now + elapsed ≤ now + delay)
        | _ => true
    | _ => true

theorem timelyStep_sound (delay : Nat) (s : TimedPool) (action : PoolAction)
    (checked : timelyStep delay s action = true) : TimelyStep delay s action := by
  simp only [timelyStep, Bool.and_eq_true] at checked
  refine ⟨poolDistinct_sound s.state action checked.1, ?_⟩
  have kept := checked.2
  unfold Punctual
  split
  · split
    next selecting => simpa [selecting] using kept
    next retaining => simpa [retaining] using kept
    · trivial
  · trivial

namespace Scenario

/-- A walk over the one shard. -/
def walkOne : List PoolAction := [.reaper .tick, .reaper .step, .reaper .step]

/-- The worker beats once in the second interval; the tick that ends it is late. -/
def beatOnce : List PoolAction :=
  walkOne ++ [.dispatcher (.advance 5)] ++ walkOne ++
    [.dispatcher (.advance 3), .serve (.heartbeat "job"), .dispatcher (.advance 3)] ++ walkOne

def waitsForWorker (s : PoolState) : Bool :=
  !s.dispatcher.stopping &&
    s.dispatcher.callers[0]?.any (fun caller => decide (caller.jobId = "job")) &&
    s.dispatcher.items[0]?.any (fun item => match item.outcome with
      | .waiting => true
      | _ => false)

end Scenario

open Scenario in
theorem silent_worker_noticed_once :
    ∃ s, Path (timedStep workerPool) (TimelyStep 1) (TimedPool.new workerPool 0)
        (claimOne ++ beatOnce) s ∧ s.now = 11 ∧
      ∃ heard, LastContact workerPool 0 (claimOne ++ beatOnce) s.state "job" heard ∧
        s.now < heard + 10 + 5 + 2 * 1 := by
  have ran : (run (fun s action => if timelyStep 1 s action then timedStep workerPool s action
      else none) (TimedPool.new workerPool 0) (claimOne ++ beatOnce)).any (fun s =>
        waitsForWorker s.state && decide (s.now = 11)) = true := by decide +kernel
  obtain ⟨s, finished, checked⟩ := (Option.any_eq_true _ _).mp ran
  simp only [waitsForWorker, Bool.and_eq_true, Bool.not_eq_true', decide_eq_true_eq] at checked
  obtain ⟨⟨⟨running, called⟩, waits⟩, clock⟩ := checked
  obtain ⟨caller, present, named⟩ := (Option.any_eq_true _ _).mp called
  obtain ⟨item, known, open_⟩ := (Option.any_eq_true _ _).mp waits
  have waiting : item.outcome = .waiting := by
    split at open_
    next is => exact is
    · cases open_
  have path := Path.of_run_if (timelyStep_sound 1) _ _ finished
  have noticed := silent_worker_noticed (by decide) path running present known waiting
  rw [of_decide_eq_true named] at noticed
  exact ⟨s, path, clock, noticed⟩

section Beating

variable {pool : RemotePool} {s next : PoolState} {jobId : String} {entry : InProgressJob}

/-- The worker of the job has not been silent for a timeout, it has not reported an end, and the
server runs. -/
structure KeptUp (pool : RemotePool) (jobId : String) (s : PoolState) (action : PoolAction) :
    Prop where
  distinct : PoolDistinct s action
  heard (entry : InProgressJob) : s.dispatcher.inProgress.lookup jobId = some entry →
    s.dispatcher.now < entry.lastHeartbeat + pool.heartbeatTimeout
  unreported (request : WorkerRequest) : action = .serve request → request.jobId = jobId →
    request.outcome = none
  running : s.dispatcher.stopping = false

theorem KeptUp.stays {action : PoolAction} (kept : KeptUp pool jobId s action)
    (wf : PoolWf pool s) (taken : poolStep pool s action = some next)
    (found : s.dispatcher.inProgress.lookup jobId = some entry) :
    next.dispatcher.inProgress.lookup jobId ≠ none := by
  intro removed
  obtain ⟨_, _, answers, _⟩ := removal_settles wf taken found removed
  cases action with
  | serve request =>
      cases taken
      obtain ⟨outcome, is⟩ : ∃ outcome, request.outcome = some outcome := by
        simpa [PoolAction.answer, Option.isSome_iff_exists] using answers
      by_cases here : request.jobId = jobId
      · rw [kept.unreported request rfl here] at is
        cases is
      · dsimp only at removed
        rw [serve_of_outcome is] at removed
        cases settled : settle s.dispatcher request.jobId (.sent outcome.toTarget) with
        | none => simp [settled, found] at removed
        | some after =>
            rw [settled, Option.getD_some, settle_lookup settled,
              if_neg (Ne.symm here), found] at removed
            cases removed
  | dispatcher inner => simp [PoolAction.answer] at answers
  | reaper event =>
      have ok := wf.reaper
      cases reaperStep_move taken with
      | ticked _ | stopped _ | finished _ _ | collected _ _ | ended =>
          rw [found] at removed
          cases removed
      | @walked now shard is =>
          rw [ReaperOk, is] at ok
          obtain ⟨positive, captured, _⟩ := ok
          have heard := kept.heard entry found
          have alive : entryAlive pool.heartbeatTimeout now entry = true := by
            simp only [entryAlive, decide_eq_true_eq]
            omega
          rw [retainShard_lookup wf.winner wf.claims captured, found, Option.filter_some,
            alive] at removed
          simp at removed
      | dropped is =>
          have stopping := wf.reaper.clock.drops _ is
          simp [kept.running] at stopping

/-- A claim under the identifier of a call is the claim of that call. -/
theorem PoolWf.same_claim (wf : PoolWf pool s) (after : PoolWf pool next)
    (progress : Progress s.dispatcher next.dispatcher) {later : InProgressJob}
    (found : s.dispatcher.inProgress.lookup jobId = some entry)
    (inNext : next.dispatcher.inProgress.lookup jobId = some later) : later.item = entry.item := by
  obtain ⟨caller, _, present, named, _⟩ := wf.claims.table jobId entry found
  obtain ⟨still, here, same⟩ := progress.names entry.item caller present
  obtain ⟨other, _, there, renamed, _⟩ := after.claims.table jobId later inNext
  exact after.winner.distinct later.item entry.item other still there here
    (renamed.trans (named.symm.trans same.symm))

end Beating

/-- A worker that never lets the timeout pass between two heartbeats keeps its job. -/
theorem beating_worker_keeps_job {pool : RemotePool} {start : Nat} {before actions : List PoolAction}
    {s t : PoolState} {jobId : String} {entry : InProgressJob}
    (reached : Path (poolStep pool) PoolDistinct (PoolState.new pool start) before s)
    (found : s.dispatcher.inProgress.lookup jobId = some entry)
    (path : Path (poolStep pool) (KeptUp pool jobId) s actions t) :
    ∃ later, t.dispatcher.inProgress.lookup jobId = some later ∧ later.item = entry.item ∧
      ∃ item, t.dispatcher.items[entry.item]? = some item ∧ item.outcome = .waiting := by
  have wf : PoolWf pool s := PoolRun.wf ⟨_, reached⟩ (PoolWf.initial pool start)
  have kept : PoolWf pool t ∧ ∃ later, t.dispatcher.inProgress.lookup jobId = some later ∧
      later.item = entry.item := by
    induction path with
    | nil => exact ⟨wf, entry, found, rfl⟩
    | @snoc _ state action next _ kept taken ih =>
        obtain ⟨wf', later, inState, same⟩ := ih
        have after := wf'.step kept.distinct taken
        have progress := (poolStep_run wf'.reaper.clock kept.distinct taken).progress wf'.winner
          wf'.claims
        obtain ⟨last, inNext⟩ := Option.ne_none_iff_exists'.mp (kept.stays wf' taken inState)
        exact ⟨after, last, inNext, (wf'.same_claim after progress inState inNext).trans same⟩
  obtain ⟨wf', later, inState, same⟩ := kept
  obtain ⟨_, item, _, _, known, waiting⟩ := wf'.claims.table jobId later inState
  exact ⟨later, inState, same, item, same ▸ known, waiting⟩

def keptUp (s : PoolState) (action : PoolAction) : Bool :=
  poolDistinct s action && !s.dispatcher.stopping &&
    (s.dispatcher.inProgress.lookup "job").all (fun entry =>
      decide (s.dispatcher.now < entry.lastHeartbeat + Scenario.workerPool.heartbeatTimeout)) &&
    match action with
    | .serve request => request.outcome.isNone
    | _ => true

theorem keptUp_sound (s : PoolState) (action : PoolAction) (checked : keptUp s action = true) :
    KeptUp Scenario.workerPool "job" s action := by
  simp only [keptUp, Bool.and_eq_true, Bool.not_eq_true'] at checked
  obtain ⟨⟨⟨distinct, running⟩, heard⟩, unreported⟩ := checked
  refine ⟨poolDistinct_sound s action distinct, ?_, ?_, running⟩
  · intro entry found
    simpa [found] using heard
  · rintro request rfl _
    simpa using unreported

open Scenario in
theorem beating_worker_keeps_job_once :
    ∃ s t, Path (poolStep workerPool) PoolDistinct (PoolState.new workerPool 0) claimOne s ∧
      s.dispatcher.inProgress.lookup "job" = some ⟨0, 0⟩ ∧
      Path (poolStep workerPool) (KeptUp workerPool "job") s beatOnce t ∧
      ∃ later, t.dispatcher.inProgress.lookup "job" = some later ∧ later.item = 0 ∧
        ∃ item, t.dispatcher.items[0]? = some item ∧ item.outcome = .waiting := by
  have ran : (run (fun s action => if poolDistinct s action then poolStep workerPool s action
      else none) (PoolState.new workerPool 0) claimOne).any (fun s =>
        decide (s.dispatcher.inProgress.lookup "job" = some ⟨0, 0⟩) &&
        (run (fun s action => if keptUp s action then poolStep workerPool s action else none) s
          beatOnce).isSome) = true := by decide +kernel
  obtain ⟨s, finished, checked⟩ := (Option.any_eq_true _ _).mp ran
  simp only [Bool.and_eq_true, decide_eq_true_eq] at checked
  obtain ⟨t, beaten⟩ := Option.isSome_iff_exists.mp checked.2
  have reached := Path.of_run_if poolDistinct_sound _ _ finished
  have path := Path.of_run_if keptUp_sound _ _ beaten
  exact ⟨s, t, reached, checked.1, path, beating_worker_keeps_job reached checked.1 path⟩

end BitsBroker
