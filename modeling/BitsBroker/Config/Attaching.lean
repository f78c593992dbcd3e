import BitsBroker.Config.Routes

/-!
What the parser attaches to an action, given the settings of its dispatcher block, and what
building one step does to the state of the parser.
-/

namespace BitsBroker

def Attached.dispatcher : Attached → Option AnyDispatcher
  | .check dispatcher => dispatcher.map .check
  | .transform dispatcher => dispatcher.map .transform
  | .target dispatcher => dispatcher.map .target
  | .bare => none

section Building

variable {T : Type} {ctx : ParseContext} {asTarget : Option (WorkerOutcome → T)}
  {entryName actionName : String} {settings later : DispatcherSettings}
  {poolName : Option String} {server : Option WorkerServer} {kind : ActionKind}
  {attached : Attached}

/-- The limiter that a dispatcher gets. -/
def limitOf (ctx : ParseContext) (entryName : String) (settings : DispatcherSettings) :
    Option UserLimit :=
  settings.userLimit.map fun cfg => ⟨cfg, ⟨entryName, ctx.brokerId⟩, ctx.jobStore⟩

theorem fromConfig_ok {secs : JsonNumber → Except String Nat} {queue : Option QueueKind}
    {executor : Option ExecutorKind} {capacity : Nat} {result : Option (Dispatcher T)}
    (made : fromConfig asTarget secs queue executor poolName server capacity = .ok result) :
    queue = none ∧ executor = none ∧ result = none ∨
      ∃ built, executorOf asTarget secs poolName server executor = .ok built ∧
        0 < capacity ∧ capacity ≤ maxPermits ∧
        startScheduler poolName server built = .ok () ∧
        result = some ⟨queue.getD .fifo, executorType executor, built, capacity, none⟩ := by
  unfold fromConfig at made
  split at made
  next none_ =>
    simp only [Bool.and_eq_true, Option.isNone_iff_eq_none] at none_
    exact Or.inl ⟨none_.1, none_.2, (Except.ok.inj made).symm⟩
  next =>
    refine Or.inr ?_
    cases chosen : executorOf asTarget secs poolName server executor with
    | error e => simp [chosen, bind, Except.bind] at made
    | ok built =>
        simp only [chosen, bind, Except.bind] at made
        split at made
        · simp at made
        next fresh new =>
          obtain rfl := Except.ok.inj made
          unfold Dispatcher.new at new
          split at new
          · simp at new
          next positive =>
            split at new
            · simp at new
            next fits =>
              cases started : startScheduler poolName server built with
              | error e => simp [started, Except.map] at new
              | ok _ =>
                  simp only [started, Except.map, Except.ok.injEq] at new
                  exact ⟨built, rfl, by omega, by omega, started, by rw [← new]⟩

theorem buildDispatcher_ok {result : Option (Dispatcher T)}
    (made : buildDispatcher ctx asTarget entryName settings poolName server = .ok result) :
    settings.queue = none ∧ settings.executor = none ∧ result = none ∨
      ∃ built, executorOf asTarget ctx.tryFromSecsF64 poolName server settings.executor =
          .ok built ∧
        0 < settings.queueCapacity ∧ settings.queueCapacity ≤ maxPermits ∧
        startScheduler poolName server built = .ok () ∧
        result = some ⟨settings.queue.getD .fifo, executorType settings.executor, built,
          settings.queueCapacity, limitOf ctx entryName settings⟩ := by
  unfold buildDispatcher at made
  split at made
  · simp at made
  · simp at made
  next plain chosen =>
    obtain rfl := Except.ok.inj made
    rcases fromConfig_ok chosen with ⟨queue, executor, rfl⟩ | ⟨built, isExecutor, positive, fits,
      started, rfl⟩
    · exact Or.inl ⟨queue, executor, rfl⟩
    · exact Or.inr ⟨built, isExecutor, positive, fits, started, rfl⟩

theorem buildDispatcher_userLimiter {dispatcher : Dispatcher T}
    (made : buildDispatcher ctx asTarget entryName settings poolName server =
      .ok (some dispatcher)) : dispatcher.userLimiter = limitOf ctx entryName settings := by
  rcases buildDispatcher_ok made with ⟨_, _, none_⟩ | ⟨_, _, _, _, _, eq⟩
  · simp at none_
  · rw [Option.some.inj eq]

theorem attachDispatcher_ok
    (made : attachDispatcher ctx entryName actionName kind settings = .ok attached) :
    ∃ later, remoteExecutor ctx actionName settings = .ok later ∧
      attachKind ctx entryName actionName (defaultQueue later) kind = .ok attached := by
  unfold attachDispatcher at made
  cases passed : remoteExecutor ctx actionName settings with
  | error e => simp [passed, Except.mapError, bind, Except.bind] at made
  | ok later =>
      simp only [passed, Except.mapError, bind, Except.bind] at made
      exact ⟨later, rfl, made⟩

/-- Only the executor of a `remote` target is filled in. -/
theorem remoteExecutor_ok (passed : remoteExecutor ctx actionName settings = .ok later) :
    later = settings ∨ actionName = "remote" ∧ settings.executor = none ∧
      later = { settings with
        executor := some (.remotePool ⟨defaultHeartbeatTimeoutSecs⟩) } := by
  unfold remoteExecutor at passed
  split at passed
  next remote =>
    cases executor : settings.executor with
    | none =>
        simp only [executor, bind, Except.bind] at passed
        split at passed
        · simp at passed
        · exact Or.inr ⟨remote, rfl, (Except.ok.inj passed).symm⟩
    | some kind =>
        cases kind with
        | remotePool cfg =>
            simp only [executor, bind, Except.bind] at passed
            split at passed
            · simp at passed
            · exact Or.inl (Except.ok.inj passed).symm
        | asyncPool | threadPool => simp [executor, bind, Except.bind] at passed
  next =>
    split at passed
    · simp at passed
    · exact Or.inl (Except.ok.inj passed).symm

theorem remoteExecutor_userLimit (passed : remoteExecutor ctx actionName settings = .ok later) :
    later.userLimit = settings.userLimit := by
  rcases remoteExecutor_ok passed with rfl | ⟨_, _, rfl⟩
  · rfl
  · rfl

theorem defaultQueue_userLimit (settings : DispatcherSettings) :
    (defaultQueue settings).userLimit = settings.userLimit := by
  unfold defaultQueue
  split <;> rfl

theorem exists_of_map_ok {E A B : Type} {f : A → B} {result : Except E A} {value : B}
    (mapped : result.map f = .ok value) : ∃ inner, result = .ok inner ∧ f inner = value := by
  cases result with
  | error e => simp [Except.map] at mapped
  | ok inner => exact ⟨inner, rfl, by simpa [Except.map] using mapped⟩

theorem attachDispatcher_userLimiter
    (made : attachDispatcher ctx entryName actionName kind settings = .ok attached)
    {dispatcher : AnyDispatcher} (carried : attached.dispatcher = some dispatcher) :
    dispatcher.userLimiter = limitOf ctx entryName settings := by
  obtain ⟨later, passed, made⟩ := attachDispatcher_ok made
  have same : limitOf ctx entryName (defaultQueue later) = limitOf ctx entryName settings := by
    rw [limitOf, defaultQueue_userLimit, remoteExecutor_userLimit passed, limitOf]
  rw [← same]
  cases kind with
  | switch =>
      simp only [attachKind] at made
      split at made
      · simp at made
      · obtain rfl := Except.ok.inj made
        simp [Attached.dispatcher] at carried
  | check =>
      obtain ⟨result, built, rfl⟩ := exists_of_map_ok made
      obtain ⟨inner, rfl, rfl⟩ := Option.map_eq_some_iff.mp carried
      exact buildDispatcher_userLimiter built
  | transform =>
      obtain ⟨result, built, rfl⟩ := exists_of_map_ok made
      obtain ⟨inner, rfl, rfl⟩ := Option.map_eq_some_iff.mp carried
      exact buildDispatcher_userLimiter built
  | target =>
      obtain ⟨result, built, rfl⟩ := exists_of_map_ok made
      obtain ⟨inner, rfl, rfl⟩ := Option.map_eq_some_iff.mp carried
      exact buildDispatcher_userLimiter built

end Building

section Steps

variable {ctx : RouteContext} {entryName actionName : String} {action : Action}
  {settings : DispatcherSettings} {silent : Option Bool} {s : ParseState} {built : StepAction}

/-- Building a step adds to the state and leaves the cache alone. -/
structure StepGrows (s t : ParseState) : Prop where
  dispatchers : s.dispatchers <+: t.dispatchers
  targets : s.targets <+: t.targets
  cache : t.resolvedTargets = s.resolvedTargets

theorem ask_grows (s : ParseState) (asks : Bool) (poolName : String) :
    StepGrows s (s.ask asks poolName) := by
  unfold ParseState.ask
  split
  · exact ⟨List.prefix_rfl, List.prefix_rfl, rfl⟩
  · exact ⟨List.prefix_rfl, List.prefix_rfl, rfl⟩

theorem build_grows (s : ParseState) (dispatcher : Option AnyDispatcher) :
    StepGrows s (s.build dispatcher).2 := by
  cases dispatcher with
  | none => exact ⟨List.prefix_rfl, List.prefix_rfl, rfl⟩
  | some dispatcher => exact ⟨List.prefix_append _ _, List.prefix_rfl, rfl⟩

theorem finishStep_grows (action : Action) (silent : Option Bool) (attached : Attached)
    (s : ParseState) : StepGrows s (finishStep action silent attached s).2 := by
  unfold finishStep
  split
  · exact build_grows s _
  · exact build_grows s _
  next dispatcher target _ _ =>
    obtain ⟨dispatchers, _, cache⟩ := build_grows s (dispatcher.map .target)
    exact ⟨dispatchers, List.prefix_append _ _, cache⟩
  · exact ⟨List.prefix_rfl, List.prefix_rfl, rfl⟩
  · exact ⟨List.prefix_rfl, List.prefix_rfl, rfl⟩

theorem StepGrows.trans {s t u : ParseState} (first : StepGrows s t) (second : StepGrows t u) :
    StepGrows s u where
  dispatchers := first.dispatchers.trans second.dispatchers
  targets := first.targets.trans second.targets
  cache := second.cache.trans first.cache

theorem attachStep_grows (ctx : RouteContext) (entryName actionName : String) (action : Action)
    (settings : DispatcherSettings) (silent : Option Bool) (s : ParseState) :
    StepGrows s (attachStep ctx entryName actionName action settings silent s).2 := by
  unfold attachStep
  have asked := ask_grows s (asksForPool ctx entryName actionName (actionKind action) settings)
    entryName
  dsimp only
  split
  · exact asked
  · exact asked
  · exact asked.trans (finishStep_grows _ _ _ _)

theorem build_dispatcher (s : ParseState) (dispatcher : Option AnyDispatcher) :
    (s.build dispatcher).1 = dispatcher.map (fun _ => s.dispatchers.length) ∧
      (s.build dispatcher).2.dispatchers = s.dispatchers ++ dispatcher.toList := by
  cases dispatcher <;> simp [ParseState.build]

theorem ask_dispatchers (s : ParseState) (asks : Bool) (poolName : String) :
    (s.ask asks poolName).dispatchers = s.dispatchers := by
  unfold ParseState.ask
  split <;> rfl

/-- The dispatcher of a step is the one attached to it, named by the next index. -/
theorem finishStep_ok {attached : Attached}
    (finished : (finishStep action silent attached s).1 = .ok built)
    (bare : ∀ switch, action = .switch switch → attached.dispatcher = none) :
    built.dispatcher = attached.dispatcher.map (fun _ => s.dispatchers.length) ∧
      (finishStep action silent attached s).2.dispatchers =
        s.dispatchers ++ attached.dispatcher.toList := by
  unfold finishStep at finished ⊢
  split at finished
  next dispatcher _ _ _ =>
    obtain rfl := Except.ok.inj finished
    exact build_dispatcher s (dispatcher.map .check)
  next dispatcher _ _ _ =>
    obtain rfl := Except.ok.inj finished
    exact build_dispatcher s (dispatcher.map .transform)
  next dispatcher _ _ _ =>
    obtain rfl := Except.ok.inj finished
    exact build_dispatcher s (dispatcher.map .target)
  next switch =>
    obtain rfl := Except.ok.inj finished
    simp [bare switch rfl, StepAction.dispatcher]
  · simp at finished

theorem attachStep_ok
    (finished : (attachStep ctx entryName actionName action settings silent s).1 = .ok built) :
    ∃ attached, attachDispatcher ctx.toParseContext entryName actionName (actionKind action)
        settings = .ok attached ∧
      built.dispatcher = attached.dispatcher.map (fun _ => s.dispatchers.length) ∧
      (attachStep ctx entryName actionName action settings silent s).2.dispatchers =
        s.dispatchers ++ attached.dispatcher.toList := by
  unfold attachStep at finished ⊢
  dsimp only at finished ⊢
  cases made : attachDispatcher ctx.toParseContext entryName actionName (actionKind action)
      settings with
  | error e => cases e <;> simp [made] at finished
  | ok attached =>
      simp only [made] at finished ⊢
      refine ⟨attached, rfl, ?_⟩
      have bare : ∀ switch, action = .switch switch → attached.dispatcher = none := by
        rintro switch rfl
        obtain ⟨later, _, made⟩ := attachDispatcher_ok made
        simp only [actionKind, attachKind] at made
        split at made
        · simp at made
        · obtain rfl := Except.ok.inj made
          rfl
      rw [← ask_dispatchers s (asksForPool ctx entryName actionName (actionKind action) settings)
        entryName]
      exact finishStep_ok finished bare

end Steps

end BitsBroker
