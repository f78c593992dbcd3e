import BitsBroker.Dispatcher.Resolution

/-!
Runs of a remote pool. Worker requests, ticks of the reaper and the shutdown drain are runs
of the dispatcher underneath, so what its steps preserve holds here too. The walk of the
reaper over a shard keeps exactly the live entries of that shard, and an operation that
takes an entry out of the table settles the outcome of its item.
-/

namespace BitsBroker

open Transition Table DispatcherState

/-- Every dispatched job has an identifier of its own. -/
def PoolDistinct (s : PoolState) (action : PoolAction) : Prop :=
  ∀ inner, action = .dispatcher inner → DistinctJobs s.dispatcher inner

section Simulation

variable {pool : RemotePool} {s next : TargetDispatcher} {jobId : String} {now : Nat}

abbrev DispatcherRun (pool : RemotePool) (s next : TargetDispatcher) : Prop :=
  ∃ actions, Path (dispatcherStep pool.dispatcher) DistinctJobs s actions next

theorem DispatcherRun.one (action : DispatcherAction TargetResult)
    (untouched : ∀ job guard, action ≠ .dispatch job guard)
    (taken : dispatcherStep pool.dispatcher s action = some next) : DispatcherRun pool s next :=
  ⟨[] ++ [action], Path.snoc Path.nil (fun job guard _ is => absurd is (untouched job guard)) taken⟩

theorem serve_run (s : TargetDispatcher) (request : WorkerRequest) :
    DispatcherRun pool s (serve s request).2 := by
  have complete : ∀ jobId outcome, DispatcherRun pool s (handleComplete s jobId outcome).2 := by
    intro jobId outcome
    unfold handleComplete
    split
    next next taken => exact .one (.complete jobId outcome) (by simp) taken
    · exact ⟨[], Path.nil⟩
  cases request with
  | heartbeat jobId =>
      simp only [serve, handleHeartbeat]
      split
      next entry found =>
        exact .one (.heartbeat jobId) (by simp) (by simp [dispatcherStep, heartbeatJob, found])
      · exact ⟨[], Path.nil⟩
  | completeData jobId contentType contentLength body => exact complete jobId _
  | completeRedirect jobId location message contentType contentLength => exact complete jobId _
  | completeReject jobId reason => exact complete jobId _
  | completeError jobId message => exact complete jobId _

theorem settle_now {outcome : Outcome TargetResult} (taken : settle s jobId outcome = some next) :
    next.now = s.now := by
  simp only [settle, Option.bind_eq_some_iff, Option.map_eq_some_iff] at taken
  obtain ⟨entry, _, item, _, rfl⟩ := taken
  rfl

theorem evict_run {entry : InProgressJob} (found : s.inProgress.lookup jobId = some entry)
    (due : s.stopping = true ∨ pool.heartbeatTimeout ≤ s.now - entry.lastHeartbeat)
    (taken : settle s jobId .dropped = some next) : DispatcherRun pool s next := by
  refine .one (.evict jobId) (by simp) ?_
  simp only [dispatcherStep, evictJob, RemotePool.dispatcher, found, Option.bind_some]
  rw [if_pos due, taken]

theorem retainEntry_run (pool : RemotePool) (captured : now ≤ s.now) (jobId : String) :
    DispatcherRun pool s (retainEntry pool.heartbeatTimeout now s jobId) ∧
      now ≤ (retainEntry pool.heartbeatTimeout now s jobId).now := by
  unfold retainEntry
  split
  next entry found =>
    split
    · exact ⟨⟨[], Path.nil⟩, captured⟩
    next silent =>
      cases taken : settle s jobId .dropped with
      | none => exact ⟨⟨[], Path.nil⟩, captured⟩
      | some next =>
          simp only [entryAlive, decide_eq_true_eq] at silent
          refine ⟨evict_run found (Or.inr (by omega)) taken, ?_⟩
          rw [Option.getD_some, settle_now taken]
          exact captured
  · exact ⟨⟨[], Path.nil⟩, captured⟩

theorem retain_run (ids : List String) : ∀ {s : TargetDispatcher}, now ≤ s.now →
    DispatcherRun pool s (ids.foldl (retainEntry pool.heartbeatTimeout now) s) := by
  induction ids with
  | nil => exact fun _ => ⟨[], Path.nil⟩
  | cons jobId rest ih =>
      intro s captured
      obtain ⟨⟨first, begins⟩, still⟩ := retainEntry_run pool captured jobId
      obtain ⟨second, ends⟩ := ih still
      exact ⟨first ++ second, begins.append ends⟩

theorem DispatcherRun.wf (run : DispatcherRun pool s next) (wf : WinnerWf s) (ok : ClaimWf s) :
    WinnerWf next ∧ ClaimWf next := by
  obtain ⟨actions, path⟩ := run
  induction path with
  | nil => exact ⟨wf, ok⟩
  | snoc _ distinct taken ih => exact ⟨ih.1.step distinct taken, ih.2.step ih.1 distinct taken⟩

/-- The clock goes forward, a stopped server stays stopped, and an entry that was not there before
is as new as the run. -/
structure Progress (s next : TargetDispatcher) : Prop where
  now : s.now ≤ next.now
  stopping : s.stopping = true → next.stopping = true
  refreshed (jobId : String) (entry : InProgressJob) :
    next.inProgress.lookup jobId = some entry →
    s.inProgress.lookup jobId = some entry ∨ s.now ≤ entry.lastHeartbeat
  names (c : Nat) (caller : Caller TargetResult) : s.callers[c]? = some caller →
    ∃ later, next.callers[c]? = some later ∧ later.jobId = caller.jobId

theorem ClaimMove.refreshed {action : DispatcherAction TargetResult} (ok : ClaimWf s)
    (claim : ClaimMove s next action) {entry : InProgressJob}
    (found : next.inProgress.lookup jobId = some entry) :
    s.inProgress.lookup jobId = some entry ∨ s.now ≤ entry.lastHeartbeat := by
  cases claim with
  | aside _ table _ | opened _ table _ | rested _ _ _ _ table _ | took _ _ _ _ table _
  | passed _ _ _ _ table _ | spawned _ _ _ table _ | forwarded _ _ _ _ _ table _ =>
      rw [table] at found
      exact Or.inl found
  | displaced present _ => exact absurd rfl ((ok.handlers _ _ present).displaces _ _)
  | claimed _ _ _ _ _ _ table _ | beat _ _ _ table _ =>
      rw [table, HashMap.lookup_insert_eq] at found
      split at found
      · simp only [Option.some.injEq] at found
        subst found
        exact Or.inr le_rfl
      · exact Or.inl found
  | settled _ _ _ _ _ table _ =>
      rw [table, HashMap.lookup_erase_eq] at found
      split at found
      · simp at found
      · exact Or.inl found

theorem DispatcherRun.progress (run : DispatcherRun pool s next) (wf : WinnerWf s)
    (ok : ClaimWf s) : Progress s next := by
  obtain ⟨actions, path⟩ := run
  induction path with
  | nil => exact ⟨le_rfl, id, fun _ _ found => Or.inl found, fun _ caller is => ⟨caller, is, rfl⟩⟩
  | snoc before distinct taken ih =>
      obtain ⟨wf', ok'⟩ := DispatcherRun.wf ⟨_, before⟩ wf ok
      obtain ⟨frame, claim⟩ := dispatcherStep_claims ok'.remote taken
      refine ⟨ih.now.trans frame.now, frame.stopping ∘ ih.stopping, ?_, ?_⟩
      · intro jobId entry found
        rcases claim.refreshed ok' found with old | fresh
        · exact ih.refreshed jobId entry old
        · exact Or.inr (ih.now.trans fresh)
      · intro c caller present
        obtain ⟨middle, found, named⟩ := ih.names c caller present
        obtain ⟨later, inNext, renamed⟩ := (dispatcherStep_move taken).names found
        exact ⟨later, inNext, renamed.trans named⟩

theorem settle_of_entry (ok : ClaimWf s) {entry : InProgressJob} (outcome : Outcome TargetResult)
    (found : s.inProgress.lookup jobId = some entry) :
    ∃ next, settle s jobId outcome = some next ∧
      next.inProgress = AList.erase jobId s.inProgress := by
  obtain ⟨_, item, _, _, known, _⟩ := ok.table jobId entry found
  refine ⟨{ s.put entry.item item { item with outcome := outcome } with
    inProgress := AList.erase jobId s.inProgress }, ?_, rfl⟩
  simp only [settle, found, Option.bind_some, known, Option.map_some]

theorem retainEntry_lookup (ok : ClaimWf s) (timeout now : Nat) (jobId query : String) :
    (retainEntry timeout now s jobId).inProgress.lookup query =
      if query = jobId then (s.inProgress.lookup query).filter (entryAlive timeout now)
      else s.inProgress.lookup query := by
  unfold retainEntry
  split
  next entry found =>
    split
    next alive =>
      split
      next same =>
        subst same
        rw [found, Option.filter_some, if_pos alive]
      · rfl
    next silent =>
      obtain ⟨after, taken, table⟩ := settle_of_entry ok .dropped found
      rw [taken, Option.getD_some, table, HashMap.lookup_erase_eq]
      split
      next same =>
        subst same
        rw [found, Option.filter_some, if_neg silent]
      · rfl
  next absent =>
    split
    next same =>
      subst same
      simp [absent]
    · rfl

theorem retain_lookup (pool : RemotePool) (ids : List String) (query : String) :
    ∀ {s : TargetDispatcher}, WinnerWf s → ClaimWf s → now ≤ s.now →
      (ids.foldl (retainEntry pool.heartbeatTimeout now) s).inProgress.lookup query =
        if query ∈ ids then
          (s.inProgress.lookup query).filter (entryAlive pool.heartbeatTimeout now)
        else s.inProgress.lookup query := by
  induction ids with
  | nil => simp
  | cons jobId rest ih =>
      intro s wf ok captured
      obtain ⟨run, still⟩ := retainEntry_run pool captured jobId
      obtain ⟨wf', ok'⟩ := run.wf wf ok
      rw [List.foldl_cons, ih wf' ok' still, retainEntry_lookup ok]
      by_cases here : query = jobId
      · simp [here]
      · simp [here]

/-- The walk over a shard keeps its live entries and nothing else of it. -/
theorem retainShard_lookup (wf : WinnerWf s) (ok : ClaimWf s) (captured : now ≤ s.now)
    (shard : Nat) (query : String) :
    (retainShard pool now shard s).inProgress.lookup query =
      if pool.shardOf query = shard then
        (s.inProgress.lookup query).filter (entryAlive pool.heartbeatTimeout now)
      else s.inProgress.lookup query := by
  unfold retainShard
  rw [retain_lookup pool _ query wf ok captured]
  by_cases inShard : pool.shardOf query = shard
  · by_cases present : query ∈ s.inProgress.keys
    · simp [shardKeys, inShard, present]
    · have absent : s.inProgress.lookup query = none := AList.lookup_eq_none.mpr present
      simp [shardKeys, inShard, present, absent]
  · simp [shardKeys, inShard]

/-- The outcome of the item has been settled. -/
def Settled (s : TargetDispatcher) (c : Nat) (outcome : Outcome TargetResult) : Prop :=
  outcome.settled = true ∧ ∃ item, s.items[c]? = some item ∧ item.outcome = outcome

theorem Settled.kept {c : Nat} {outcome : Outcome TargetResult}
    {action : DispatcherAction TargetResult} (settled : Settled s c outcome) (wf : WinnerWf s)
    (ok : ClaimWf s) (distinct : DistinctJobs s action)
    (taken : dispatcherStep pool.dispatcher s action = some next) : Settled next c outcome := by
  obtain ⟨ends, item, known, is⟩ := settled
  have move := dispatcherStep_move taken
  obtain ⟨_, claim⟩ := dispatcherStep_claims ok.remote taken
  obtain ⟨caller, present⟩ := wf.caller_of_item known
  obtain ⟨later, found⟩ := (wf.step distinct taken).later_item move present
  refine ⟨ends, later, found, ?_⟩
  cases ok.table_move wf claim with
  | still outcomes _ =>
      rcases outcomes c later found with ⟨beyond, _⟩ | ⟨old, inItems, same⟩
      · have bound := (List.getElem?_eq_some_iff.mp known).1
        omega
      · obtain rfl := Option.some.inj (known.symm.trans inItems)
        exact same.trans is
  | @claimed i job d handle claimed handler _ _ _ items =>
      rw [items] at found
      rcases getElem?_of_set found with ⟨rfl, _⟩ | ⟨_, away⟩
      · obtain ⟨_, _, old, _, _, _, inItems, unclaimed, _⟩ :=
          (ok.handlers i _ handler).checks job c rfl
        obtain rfl := Option.some.inj (known.symm.trans inItems)
        rw [← is, unclaimed] at ends
        simp [Outcome.settled] at ends
      · obtain rfl := Option.some.inj (known.symm.trans away)
        exact is
  | @settled jobId entry old outcome' entered _ _ _ items =>
      rw [items] at found
      rcases getElem?_of_set found with ⟨rfl, _⟩ | ⟨_, away⟩
      · obtain ⟨_, held, _, _, inItems, waiting⟩ := ok.table jobId entry entered
        obtain rfl := Option.some.inj (known.symm.trans inItems)
        rw [← is, waiting] at ends
        simp [Outcome.settled] at ends
      · obtain rfl := Option.some.inj (known.symm.trans away)
        exact is

theorem Settled.run {c : Nat} {outcome : Outcome TargetResult} (settled : Settled s c outcome)
    (run : DispatcherRun pool s next) (wf : WinnerWf s) (ok : ClaimWf s) :
    Settled next c outcome := by
  obtain ⟨actions, path⟩ := run
  induction path with
  | nil => exact settled
  | snoc before distinct taken ih =>
      obtain ⟨wf', ok'⟩ := DispatcherRun.wf ⟨_, before⟩ wf ok
      exact ih.kept wf' ok' distinct taken

theorem settle_settled {entry : InProgressJob} {outcome : Outcome TargetResult}
    (ends : outcome.settled = true) (found : s.inProgress.lookup jobId = some entry)
    (taken : settle s jobId outcome = some next) : Settled next entry.item outcome := by
  simp only [settle, Option.bind_eq_some_iff, Option.map_eq_some_iff] at taken
  obtain ⟨held, found', item, known, rfl⟩ := taken
  obtain rfl := Option.some.inj (found.symm.trans found')
  refine ⟨ends, { item with outcome := outcome }, ?_, rfl⟩
  exact List.getElem?_set_self (List.getElem?_eq_some_iff.mp known).1

theorem settle_lookup {outcome : Outcome TargetResult} (taken : settle s jobId outcome = some next)
    (query : String) :
    next.inProgress.lookup query = if query = jobId then none else s.inProgress.lookup query := by
  simp only [settle, Option.bind_eq_some_iff, Option.map_eq_some_iff] at taken
  obtain ⟨_, _, _, _, rfl⟩ := taken
  exact HashMap.lookup_erase_eq _ _ _

/-- An operation that takes the entry of an identifier out of the table settles its outcome. -/
theorem removed_of_settle {entry : InProgressJob} {id : String} {outcome : Outcome TargetResult}
    (ends : outcome.settled = true) (found : s.inProgress.lookup jobId = some entry)
    (removed : ((settle s id outcome).getD s).inProgress.lookup jobId = none) :
    Settled ((settle s id outcome).getD s) entry.item outcome := by
  cases taken : settle s id outcome with
  | none =>
      rw [taken, Option.getD_none, found] at removed
      simp at removed
  | some after =>
      rw [taken, Option.getD_some, settle_lookup taken] at removed
      split at removed
      next same =>
        subst same
        exact settle_settled ends found taken
      · simp [found] at removed

theorem retain_removes (pool : RemotePool) {entry : InProgressJob} (ids : List String) :
    ∀ {s : TargetDispatcher}, WinnerWf s → ClaimWf s → now ≤ s.now →
      s.inProgress.lookup jobId = some entry →
      (ids.foldl (retainEntry pool.heartbeatTimeout now) s).inProgress.lookup jobId = none →
      Settled (ids.foldl (retainEntry pool.heartbeatTimeout now) s) entry.item .dropped := by
  induction ids with
  | nil =>
      intro s _ _ _ found removed
      simp [found] at removed
  | cons id rest ih =>
      intro s wf ok captured found removed
      obtain ⟨run, still⟩ := retainEntry_run pool captured id
      obtain ⟨wf', ok'⟩ := run.wf wf ok
      rw [List.foldl_cons] at removed ⊢
      cases kept : (retainEntry pool.heartbeatTimeout now s id).inProgress.lookup jobId with
      | some later =>
          have same : later = entry := by
            rw [retainEntry_lookup ok, found] at kept
            split at kept
            · rw [Option.filter_eq_some_iff] at kept
              exact (Option.some.inj kept.1).symm
            · exact (Option.some.inj kept).symm
          subst same
          exact ih wf' ok' still kept removed
      | none =>
          have gone : Settled (retainEntry pool.heartbeatTimeout now s id) entry.item .dropped := by
            unfold retainEntry at kept ⊢
            split
            next held present =>
              simp only [present] at kept
              split
              next alive => simp [alive, found] at kept
              next silent =>
                simp only [silent] at kept
                exact removed_of_settle rfl found kept
            next absent =>
              simp only [absent] at kept
              simp [found] at kept
          exact gone.run (retain_run rest still) wf' ok'

theorem serve_of_outcome {request : WorkerRequest} {outcome : WorkerOutcome}
    (is : request.outcome = some outcome) :
    (serve s request).2 = (settle s request.jobId (.sent outcome.toTarget)).getD s := by
  have complete : ∀ jobId, (handleComplete s jobId outcome).2 =
      (settle s jobId (.sent outcome.toTarget)).getD s := by
    intro jobId
    unfold handleComplete
    cases settle s jobId (.sent outcome.toTarget) <;> rfl
  cases request with
  | heartbeat jobId => simp [WorkerRequest.outcome] at is
  | completeData jobId _ _ _ | completeRedirect jobId _ _ _ _ | completeReject jobId _
  | completeError jobId _ =>
      simp only [WorkerRequest.outcome, Option.some.injEq] at is
      subst is
      exact complete jobId

/-- The operations on the table change nothing but the table and the items. -/
structure TableOnly (s next : TargetDispatcher) : Prop where
  now : next.now = s.now
  jobs : next.jobs = s.jobs
  workers : next.workers = s.workers
  handlers : next.handlers = s.handlers
  stopping : next.stopping = s.stopping

theorem settle_tableOnly (s : TargetDispatcher) (id : String) (outcome : Outcome TargetResult) :
    TableOnly s ((settle s id outcome).getD s) := by
  cases taken : settle s id outcome with
  | none => exact ⟨rfl, rfl, rfl, rfl, rfl⟩
  | some after =>
      simp only [settle, Option.bind_eq_some_iff, Option.map_eq_some_iff] at taken
      obtain ⟨_, _, _, _, rfl⟩ := taken
      exact ⟨rfl, rfl, rfl, rfl, rfl⟩

theorem retain_tableOnly (timeout now : Nat) (ids : List String) : ∀ {s : TargetDispatcher},
    TableOnly s (ids.foldl (retainEntry timeout now) s) := by
  induction ids with
  | nil => exact ⟨rfl, rfl, rfl, rfl, rfl⟩
  | cons id rest ih =>
      intro s
      have first : TableOnly s (retainEntry timeout now s id) := by
        unfold retainEntry
        split
        · split
          · exact ⟨rfl, rfl, rfl, rfl, rfl⟩
          · exact settle_tableOnly s id .dropped
        · exact ⟨rfl, rfl, rfl, rfl, rfl⟩
      obtain ⟨clock, jobs, workers, handlers, stopping⟩ := @ih (retainEntry timeout now s id)
      exact ⟨clock.trans first.now, jobs.trans first.jobs, workers.trans first.workers,
        handlers.trans first.handlers, stopping.trans first.stopping⟩

theorem serve_tableOnly (s : TargetDispatcher) (request : WorkerRequest) :
    TableOnly s (serve s request).2 := by
  cases is : request.outcome with
  | some outcome =>
      rw [serve_of_outcome is]
      exact settle_tableOnly s _ _
  | none =>
      cases request with
      | heartbeat id =>
          simp only [serve, handleHeartbeat]
          split <;> exact ⟨rfl, rfl, rfl, rfl, rfl⟩
      | _ => simp [WorkerRequest.outcome] at is

/-- A report on a job that is not in progress is refused and changes nothing. -/
theorem serve_notFound {request : WorkerRequest}
    (absent : s.inProgress.lookup request.jobId = none) : serve s request = (.notFound, s) := by
  have complete : ∀ {jobId : String}, s.inProgress.lookup jobId = none → ∀ outcome,
      handleComplete s jobId outcome = (.notFound, s) := by
    intro jobId none_ outcome
    unfold handleComplete
    simp [settle, none_]
  cases request with
  | heartbeat jobId =>
      have none_ : s.inProgress.lookup jobId = none := absent
      simp [serve, handleHeartbeat, none_]
  | completeData jobId _ _ _ | completeRedirect jobId _ _ _ _ | completeReject jobId _
  | completeError jobId _ => exact complete absent _

end Simulation

/-- Where the reaper is in its loop: a tick looks at a time that has passed, and every shard it
has walked holds live entries only. -/
def ReaperOk (pool : RemotePool) (s : PoolState) : Prop :=
  match s.reaper with
  | .selecting => 0 < pool.heartbeatTimeout
  | .retaining now shard => 0 < pool.heartbeatTimeout ∧ now ≤ s.dispatcher.now ∧
      ∀ jobId entry, s.dispatcher.inProgress.lookup jobId = some entry →
        pool.shardOf jobId < shard → now - entry.lastHeartbeat < pool.heartbeatTimeout
  | .collecting _ _ | .removing _ => s.dispatcher.stopping = true
  | .ended => True

structure PoolWf (pool : RemotePool) (s : PoolState) : Prop where
  winner : WinnerWf s.dispatcher
  claims : ClaimWf s.dispatcher
  reaper : ReaperOk pool s

section Steps

variable {pool : RemotePool} {s next : PoolState} {action : PoolAction}

/-- What a step of the reaper does: most of them leave the dispatcher alone. -/
inductive ReaperMove (pool : RemotePool) (s : PoolState) : PoolState → Prop
  | ticked : s.reaper = .selecting →
      ReaperMove pool s { s with reaper := .retaining s.dispatcher.now 0 }
  | stopped : s.dispatcher.stopping = true →
      ReaperMove pool s { s with reaper := .collecting 0 [] }
  | walked {now shard : Nat} : s.reaper = .retaining now shard → ReaperMove pool s
      { dispatcher := retainShard pool now shard s.dispatcher, reaper := .retaining now (shard + 1) }
  | finished {now shard : Nat} : s.reaper = .retaining now shard → pool.shards ≤ shard →
      ReaperMove pool s { s with reaper := .selecting }
  | collected {shard : Nat} {ids : List String} {later : ReaperPc} :
      s.reaper = .collecting shard ids →
      (∃ shard ids, later = .collecting shard ids) ∨ later = .removing ids →
      ReaperMove pool s { s with reaper := later }
  | dropped {jobId : String} {rest : List String} : s.reaper = .removing (jobId :: rest) →
      ReaperMove pool s
        { dispatcher := (settle s.dispatcher jobId .dropped).getD s.dispatcher
          reaper := .removing rest }
  | ended : ReaperMove pool s { s with reaper := .ended }

theorem reaperStep_move {event : ReaperEvent} (taken : reaperStep pool s event = some next) :
    ReaperMove pool s next := by
  simp only [reaperStep] at taken
  repeat' split at taken
  all_goals
    try simp only [Option.some.injEq, reduceCtorEq] at taken
  all_goals subst taken
  next is => exact .ticked is
  next stopping => exact .stopped stopping
  next is _ => exact .walked is
  next is beyond => exact .finished is (by omega)
  next is _ => exact .collected is (Or.inl ⟨_, _, rfl⟩)
  next is _ => exact .collected is (Or.inr rfl)
  next is => exact .dropped is
  next => exact .ended

/-- A walk looks at a time that has passed; only a stopped server drops its claims. -/
structure ReaperClock (s : PoolState) : Prop where
  walks (now shard : Nat) : s.reaper = .retaining now shard → now ≤ s.dispatcher.now
  collects (shard : Nat) (ids : List String) : s.reaper = .collecting shard ids →
    s.dispatcher.stopping = true
  drops (ids : List String) : s.reaper = .removing ids → s.dispatcher.stopping = true

theorem ReaperOk.clock (ok : ReaperOk pool s) : ReaperClock s := by
  unfold ReaperOk at ok
  refine ⟨?_, ?_, ?_⟩
  · intro now shard is
    rw [is] at ok
    exact ok.2.1
  · intro shard ids is
    rw [is] at ok
    exact ok
  · intro ids is
    rw [is] at ok
    exact ok

/-- A step of the pool is a run of the dispatcher. -/
theorem poolStep_run (clock : ReaperClock s) (distinct : PoolDistinct s action)
    (taken : poolStep pool s action = some next) :
    DispatcherRun pool s.dispatcher next.dispatcher := by
  cases action with
  | serve request =>
      simp only [poolStep, Option.some.injEq] at taken
      subst taken
      exact serve_run s.dispatcher request
  | dispatcher inner =>
      simp only [poolStep] at taken
      split at taken
      · simp at taken
      · simp only [Option.map_eq_some_iff] at taken
        obtain ⟨after, taken, rfl⟩ := taken
        exact ⟨[] ++ [inner], Path.snoc Path.nil (distinct inner rfl) taken⟩
  | reaper event =>
      cases reaperStep_move taken with
      | ticked _ | stopped _ | finished _ _ | collected _ _ | ended => exact ⟨[], Path.nil⟩
      | walked is => exact retain_run _ (clock.walks _ _ is)
      | @dropped jobId rest is =>
          dsimp only
          cases settled : settle s.dispatcher jobId .dropped with
          | none => exact ⟨[], Path.nil⟩
          | some after =>
              have entered := settled
              simp only [settle, Option.bind_eq_some_iff] at entered
              obtain ⟨entry, found, _⟩ := entered
              exact evict_run found (Or.inl (clock.drops _ is)) settled

theorem ReaperOk.carry (ok : ReaperOk pool s) (progress : Progress s.dispatcher next.dispatcher)
    (same : next.reaper = s.reaper) : ReaperOk pool next := by
  unfold ReaperOk at *
  rw [same]
  cases is : s.reaper with
  | selecting =>
      rw [is] at ok
      exact ok
  | retaining now shard =>
      rw [is] at ok
      obtain ⟨positive, captured, walked⟩ := ok
      refine ⟨positive, captured.trans progress.now, ?_⟩
      intro jobId entry found below
      rcases progress.refreshed jobId entry found with old | fresh
      · exact walked jobId entry old below
      · have none_ : now - entry.lastHeartbeat = 0 := by omega
        omega
  | collecting shard ids | removing ids =>
      rw [is] at ok
      exact progress.stopping ok
  | ended => trivial

theorem ReaperOk.step (wf : PoolWf pool s)
    (progress : Progress s.dispatcher next.dispatcher) {event : ReaperEvent}
    (taken : reaperStep pool s event = some next) : ReaperOk pool next := by
  have ok := wf.reaper
  cases reaperStep_move taken with
  | ticked is =>
      rw [ReaperOk, is] at ok
      exact ⟨ok, le_rfl, fun _ _ _ below => absurd below (Nat.not_lt_zero _)⟩
  | stopped stopping => exact stopping
  | walked is =>
      rw [ReaperOk, is] at ok
      obtain ⟨positive, captured, walked⟩ := ok
      refine ⟨positive, captured.trans progress.now, ?_⟩
      intro jobId entry found below
      rw [retainShard_lookup wf.winner wf.claims captured] at found
      split at found
      · rw [Option.filter_eq_some_iff] at found
        simpa [entryAlive] using found.2
      next other => exact walked jobId entry found (by omega)
  | finished is _ =>
      rw [ReaperOk, is] at ok
      exact ok.1
  | collected is later =>
      rw [ReaperOk, is] at ok
      rcases later with ⟨_, _, rfl⟩ | rfl
      · exact ok
      · exact ok
  | dropped is =>
      rw [ReaperOk, is] at ok
      exact progress.stopping ok
  | ended => trivial

theorem PoolWf.step (wf : PoolWf pool s) (distinct : PoolDistinct s action)
    (taken : poolStep pool s action = some next) : PoolWf pool next := by
  have run := poolStep_run wf.reaper.clock distinct taken
  obtain ⟨winner, claims⟩ := run.wf wf.winner wf.claims
  have progress := run.progress wf.winner wf.claims
  refine ⟨winner, claims, ?_⟩
  cases action with
  | serve request =>
      simp only [poolStep, Option.some.injEq] at taken
      exact wf.reaper.carry progress (taken ▸ rfl)
  | reaper event => exact .step wf progress taken
  | dispatcher inner =>
      simp only [poolStep] at taken
      split at taken
      · simp at taken
      · simp only [Option.map_eq_some_iff] at taken
        obtain ⟨after, _, rfl⟩ := taken
        exact wf.reaper.carry progress rfl

theorem PoolWf.initial (pool : RemotePool) (now : Nat) : PoolWf pool (PoolState.new pool now) := by
  refine ⟨WinnerWf.initial _ now, ClaimWf.initial rfl, ?_⟩
  unfold ReaperOk PoolState.new
  by_cases none_ : pool.heartbeatTimeout / 2 = 0
  · simp [none_]
  · simp only [none_, if_false]
    omega

/-- What an operation on the table tells the call whose entry it removes. -/
def PoolAction.answer : PoolAction → Option (Except ActionError TargetResult)
  | .serve request => request.outcome.map fun outcome => .ok outcome.toTarget
  | .reaper _ => some (.error (.resourceError "worker heartbeat timeout or disconnect"))
  | .dispatcher _ => none

theorem removal_settles (wf : PoolWf pool s) (taken : poolStep pool s action = some next)
    {jobId : String} {entry : InProgressJob}
    (found : s.dispatcher.inProgress.lookup jobId = some entry)
    (removed : next.dispatcher.inProgress.lookup jobId = none) :
    ∃ outcome, Settled next.dispatcher entry.item outcome ∧ action.answer.isSome = true ∧
      outcome.answer = action.answer := by
  have stays : ∀ {t : TargetDispatcher}, t.inProgress = s.dispatcher.inProgress →
      t.inProgress.lookup jobId ≠ none := by
    intro t same
    simp [same, found]
  cases action with
  | serve request =>
      simp only [poolStep, Option.some.injEq] at taken
      subst taken
      cases is : request.outcome with
      | none =>
          cases request with
          | heartbeat id =>
              simp only [serve, handleHeartbeat] at removed
              split at removed
              · rw [HashMap.lookup_insert_eq] at removed
                split at removed
                · simp at removed
                · exact absurd removed (stays rfl)
              · exact absurd removed (stays rfl)
          | _ => simp [WorkerRequest.outcome] at is
      | some outcome =>
          dsimp only at removed ⊢
          rw [serve_of_outcome is] at removed ⊢
          exact ⟨_, removed_of_settle rfl found removed, by simp [PoolAction.answer, is],
            by simp [PoolAction.answer, is, Outcome.answer]⟩
  | dispatcher inner =>
      simp only [poolStep] at taken
      split at taken
      · simp at taken
      next elsewhere =>
        simp only [Option.map_eq_some_iff] at taken
        obtain ⟨after, taken, rfl⟩ := taken
        obtain ⟨_, claim⟩ := dispatcherStep_claims wf.claims.remote taken
        dsimp only at removed
        cases claim with
        | aside _ table _ | opened _ table _ | rested _ _ _ _ table _ | took _ _ _ _ table _
        | passed _ _ _ _ table _ | spawned _ _ _ table _ | forwarded _ _ _ _ _ table _ =>
            exact absurd removed (stays table)
        | displaced present _ =>
            exact absurd rfl ((wf.claims.handlers _ _ present).displaces _ _)
        | claimed _ _ _ _ _ _ table _ | beat _ _ _ table _ =>
            rw [table, HashMap.lookup_insert_eq] at removed
            split at removed
            · simp at removed
            · exact absurd removed (stays rfl)
        | settled operates _ _ _ _ _ _ => exact absurd operates elsewhere
  | reaper event =>
      have ok := wf.reaper
      cases reaperStep_move taken with
      | ticked _ | stopped _ | finished _ _ | collected _ _ | ended =>
          exact absurd removed (stays rfl)
      | walked is =>
          rw [ReaperOk, is] at ok
          exact ⟨.dropped, retain_removes pool _ wf.winner wf.claims ok.2.1 found removed, rfl, rfl⟩
      | dropped is => exact ⟨.dropped, removed_of_settle rfl found removed, rfl, rfl⟩

end Steps

end BitsBroker
