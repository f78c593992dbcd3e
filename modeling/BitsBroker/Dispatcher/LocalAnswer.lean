import BitsBroker.Dispatcher.LocalProgress

/-!
What a local pool answers to one dispatch. The run starts with the pool; at some moment the job
is dispatched, and the call is followed to its return while it is served. A call that was admitted
returns what its work resolved with, and while no work panics it comes to return.
-/

namespace BitsBroker

open Transition Table DispatcherState

variable {T : Type}

/-- A local pool admits a dispatch of `job` whose work resolves with `outcome`, and the dispatch
returns `result`; `shared` says whether the work is still there when it does. -/
def LocalAnswer (cfg : DispatcherConfig T) (job : Job) (guard : DispatchGuard)
    (outcome result : Except ActionError T) (shared : Bool) : Prop :=
  ∃ (n now j : Nat) (before after : List (DispatcherAction T)) (s t : DispatcherState T)
    (handle : JobHandle) (caller : Caller T) (item : Item T) (exit_ : Exit),
    cfg.executor = .pool n ∧
    Path (dispatcherStep cfg) (Served outcome s.callers.length) (DispatcherState.new cfg now)
      before s ∧
    s.jobs[j]? = some handle ∧ handle.job = job ∧
    Path (dispatcherStep cfg) (Served outcome s.callers.length) s (.dispatch j guard :: after) t ∧
    t.callers[s.callers.length]? = some caller ∧ t.items[s.callers.length]? = some item ∧
    caller.pc = .returned exit_ result ∧ exit_ ≠ .refused ∧ shared = !item.work.ended

/-- Every call that a local pool has admitted can go on to return the outcome of its work, as long
as no work panics. -/
def PoolsAnswer : Prop :=
  ∀ {T : Type} {cfg : DispatcherConfig T} {n now c : Nat} {outcome : Except ActionError T}
    {actions : List (DispatcherAction T)} {s : DispatcherState T} {caller : Caller T},
    cfg.executor = .pool n → 1 ≤ n →
    Path (dispatcherStep cfg) (Served outcome c) (DispatcherState.new cfg now) actions s →
    (∀ action ∈ actions, action.panics = false) → Attended c s → Alone c s →
    s.callers[c]? = some caller → caller.pc.early = false → caller.gone = false →
    ∃ more t, Path (dispatcherStep cfg) (Served outcome c) s more t ∧ CallAnswered outcome c t

section Answers

variable {cfg : DispatcherConfig T} {c n now : Nat} {s : DispatcherState T}
  {outcome : Except ActionError T}

theorem LocalAnswer.eq {job : Job} {guard : DispatchGuard} {result : Except ActionError T}
    {shared : Bool} (answer : LocalAnswer cfg job guard outcome result shared) :
    result = outcome ∧ shared = false := by
  obtain ⟨n, now, j, before, after, s, t, handle, caller, item, exit_, pool, start, _, _, rest,
    present, known, pc, admitted, rfl⟩ := answer
  have wf := ServedWf.of_path pool (start.append rest)
  obtain ⟨_, same, ended⟩ := wf.returned present known pc admitted
  exact ⟨same, by rw [ended]; rfl⟩

theorem QueuedWf.of_path (pool : cfg.executor = .pool n) {actions : List (DispatcherAction T)}
    (path : Path (dispatcherStep cfg) (Served outcome c) (DispatcherState.new cfg now) actions s) :
    QueuedWf c s := by
  induction path with
  | nil => exact QueuedWf.initial c cfg pool now
  | snoc before served taken queued =>
      exact QueuedWf.step pool (ServedWf.of_path pool before) queued served taken

theorem Tended.of_path (pool : cfg.executor = .pool n) {actions : List (DispatcherAction T)}
    (path : Path (dispatcherStep cfg) (Served outcome c) (DispatcherState.new cfg now) actions s)
    (attended : Attended c s) (alone : Alone c s) : Tended outcome c s :=
  ⟨ServedWf.of_path pool path, QueuedWf.of_path pool path, attended, alone⟩

theorem pools_answer : PoolsAnswer := by
  intro T cfg n now c outcome actions s caller pool loops path calm attended alone present late
    unfinished
  have tended := Tended.of_path pool path attended alone
  have counted := liveWorkers_of_path pool (path.mono fun _ _ _ => trivial) tended.queued.unclosed
  have none_ : actions.countP DispatcherAction.panics = 0 := by
    rw [List.countP_eq_zero]
    intro action member
    simp [calm action member]
  obtain ⟨i, pc, there, live⟩ := exists_live (by omega : 1 ≤ s.liveWorkers)
  obtain ⟨more, t, rest, _, answered⟩ := tended.answers pool present late unfinished there live
  exact ⟨more, t, rest, answered⟩

end Answers

section Fresh

variable (cfg : DispatcherConfig T) (job : Job) (guard : DispatchGuard)

/-- A pool in which the first call is under way. -/
def firstCall (permits : Nat) (pending : HashMap String Nat) (pc : DispatchPc T) (item : Item T) :
    DispatcherState T :=
  { DispatcherState.new cfg 0 with
    jobs := [{ JobHandle.new job 0 with reconnectDeadline := 1 }]
    callers := [⟨0, job.id, guard, 0, pc⟩]
    items := [item]
    permits := permits
    pending := pending }

variable {cfg job guard} {permits : Nat} {pending : HashMap String Nat} {pc : DispatchPc T}
  {item : Item T} {outcome : Except ActionError T}

theorem firstCall_attended : Attended 0 (firstCall cfg job guard permits pending pc item) where
  uncancelled := by
    intro caller present
    simp only [firstCall, List.getElem?_cons_zero, Option.some.injEq] at present
    subst present
    rfl
  present := by
    intro caller present
    simp only [firstCall, List.getElem?_cons_zero, Option.some.injEq] at present
    subst present
    exact Or.inr Nat.zero_lt_one
  ahead := by
    intro caller present _
    simp only [firstCall, List.getElem?_cons_zero, Option.some.injEq] at present
    subst present
    exact Nat.zero_lt_one

theorem firstCall_alone : Alone 0 (firstCall cfg job guard permits pending pc item) := by
  intro own other i _ _ there different
  obtain ⟨k, rfl⟩ := Nat.exists_eq_succ_of_ne_zero different
  simp [firstCall] at there

theorem firstCall_served : Served outcome 0 (firstCall cfg job guard permits pending pc item)
    (.call 0 .step) where
  attended := firstCall_attended
  alone := firstCall_alone
  unclosed := by simp
  undropped := by simp
  unlost := by simp
  finishes := by simp
  calm := by simp

/-- Nothing is asked of a call that has not begun. -/
theorem Served.of_unbegun {s : DispatcherState T} (none_ : s.callers = [])
    {action : DispatcherAction T} (unclosed : action ≠ .close)
    (uncalled : ∀ event, action ≠ .call 0 event) (unlost : ∀ index, action ≠ .lose index)
    (unworked : ∀ i event, action ≠ .worker i event) : Served outcome 0 s action where
  attended := ⟨by simp [none_], by simp [none_], by simp [none_]⟩
  alone := by simp [Alone, none_]
  unclosed := unclosed
  undropped := uncalled _
  unlost := unlost
  finishes := fun i _ is => absurd is (unworked i _)
  calm := fun i is => absurd is (unworked i _)

/-- A pool with a loop and room for a job, and without a limit per user, answers. -/
theorem LocalAnswer.of_pool {n : Nat} (pool : cfg.executor = .pool n) (loops : 1 ≤ n)
    (room : 1 ≤ cfg.capacity) (unlimited : cfg.userLimit = none) (job : Job)
    (guard : DispatchGuard) (outcome : Except ActionError T) :
    LocalAnswer cfg job guard outcome outcome false := by
  let submitted : DispatcherState T :=
    { DispatcherState.new cfg 0 with jobs := [JobHandle.new job 0] }
  let waited : DispatcherState T := { DispatcherState.new cfg 0 with
    jobs := [{ JobHandle.new job 0 with reconnectDeadline := 1 }] }
  let fresh : Item T := Item.new guard none
  let admitted : Item T := { fresh with permit := true }
  let built : Item T := { admitted with work := .live }
  have start : Path (dispatcherStep cfg) (Served outcome 0) (DispatcherState.new cfg 0)
      [.submit job, .flag 0 (.deadline 1)] waited := by
    have first : dispatcherStep cfg (DispatcherState.new cfg 0) (.submit job) = some submitted := rfl
    have second : dispatcherStep cfg submitted (.flag 0 (.deadline 1)) = some waited := rfl
    refine .cons (.of_unbegun rfl (by simp) (by simp) (by simp) (by simp)) first ?_
    exact .cons (.of_unbegun rfl (by simp) (by simp) (by simp) (by simp)) second .nil
  have enters : Path (dispatcherStep cfg) (Served outcome 0) waited
      [.dispatch 0 guard, .call 0 .step, .call 0 .step, .call 0 .step, .call 0 .step]
      (firstCall cfg job guard (cfg.capacity - 1) (AList.insert job.id 0 ∅) .enqueue built) := by
    have begins : dispatcherStep cfg waited (.dispatch 0 guard) =
        some (firstCall cfg job guard cfg.capacity ∅ .begun fresh) := by
      simp [dispatcherStep, dispatch, waited, unlimited, firstCall, fresh, DispatcherState.new,
        JobHandle.new]
    have admits : dispatcherStep cfg (firstCall cfg job guard cfg.capacity ∅ .begun fresh)
        (.call 0 .step) = some (firstCall cfg job guard cfg.capacity ∅ .acquire fresh) := rfl
    have acquires : dispatcherStep cfg (firstCall cfg job guard cfg.capacity ∅ .acquire fresh)
        (.call 0 .step) =
          some (firstCall cfg job guard (cfg.capacity - 1) ∅ .checkClosing admitted) := by
      have some_ : cfg.capacity ≠ 0 := by omega
      show some (dispatchAcquire _ _ _ _) = _
      rw [dispatchAcquire, if_neg (by simp [firstCall, DispatcherState.new]),
        if_neg (by simpa [firstCall] using some_)]
      rfl
    have builds : dispatcherStep cfg
        (firstCall cfg job guard (cfg.capacity - 1) ∅ .checkClosing admitted) (.call 0 .step) =
          some (firstCall cfg job guard (cfg.capacity - 1) ∅ .insert built) := rfl
    have inserts : dispatcherStep cfg
        (firstCall cfg job guard (cfg.capacity - 1) ∅ .insert built) (.call 0 .step) =
          some (firstCall cfg job guard (cfg.capacity - 1) (AList.insert job.id 0 ∅) .enqueue
            built) := rfl
    refine .cons (.of_unbegun rfl (by simp) (by simp) (by simp) (by simp)) begins ?_
    refine .cons firstCall_served admits ?_
    refine .cons firstCall_served acquires ?_
    refine .cons firstCall_served builds ?_
    exact .cons firstCall_served inserts .nil
  have waiting : (firstCall cfg job guard (cfg.capacity - 1) (AList.insert job.id 0 ∅) .enqueue
      built).callers[0]? = some ⟨0, job.id, guard, 0, .enqueue⟩ := rfl
  obtain ⟨more, t, rest, caller, present, pc⟩ := pools_answer pool loops
    (start.append enters) (by simp [DispatcherAction.panics]) firstCall_attended firstCall_alone
    waiting rfl rfl
  have wf := ServedWf.of_path pool ((start.append enters).append rest)
  obtain ⟨item, known⟩ := wf.item_of_call present
  obtain ⟨_, _, ended⟩ := wf.returned present known pc (by simp)
  refine ⟨n, 0, 0, _, _, waited, t, _, caller, item, .answered, pool, start, rfl, rfl,
    enters.append rest, present, known, pc, by simp, ?_⟩
  rw [ended]
  rfl

end Fresh

end BitsBroker
