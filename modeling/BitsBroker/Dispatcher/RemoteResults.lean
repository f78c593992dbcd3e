import BitsBroker.Dispatcher.PoolRuns
import BitsBroker.Dispatcher.Waiting

/-!
The results of remotely claimed jobs, over all runs of a remote pool: worker requests,
reaper ticks and the shutdown drain in any order with the dispatcher underneath. The one
operation that removes an entry decides the answer of its call; afterwards and before a
claim a worker is told that the job is unknown. A tick of the reaper removes exactly the
entries that were silent for the heartbeat timeout when the tick began.
-/

namespace BitsBroker

open Transition Table DispatcherState

section Answers

variable {pool : RemotePool} {s : PoolState} {c : Nat} {caller : Caller TargetResult}
  {item : Item TargetResult} {answer : Except ActionError TargetResult}

abbrev PoolRun (pool : RemotePool) (s next : PoolState) : Prop :=
  ∃ actions, Path (poolStep pool) PoolDistinct s actions next

theorem PoolRun.trans {t u : PoolState} (first : PoolRun pool s t) (second : PoolRun pool t u) :
    PoolRun pool s u := by
  obtain ⟨firsts, begins⟩ := first
  obtain ⟨seconds, ends⟩ := second
  exact ⟨firsts ++ seconds, begins.append ends⟩

theorem PoolRun.wf {t : PoolState} (run : PoolRun pool s t) (wf : PoolWf pool s) :
    PoolWf pool t := by
  obtain ⟨actions, path⟩ := run
  exact path.invariant wf fun _ _ _ wf distinct taken => wf.step distinct taken

theorem PoolRun.one {inner : DispatcherAction TargetResult} {t : TargetDispatcher}
    (elsewhere : inner.onTable = false) (fresh : ∀ job guard, inner ≠ .dispatch job guard)
    (taken : dispatcherStep pool.dispatcher s.dispatcher inner = some t) :
    PoolRun pool s { s with dispatcher := t } := by
  refine ⟨[] ++ [.dispatcher inner], Path.snoc Path.nil ?_ ?_⟩
  · rintro other is job guard _ dispatches
    obtain rfl : inner = other := by simpa using is
    exact absurd dispatches (fresh job guard)
  · simp [poolStep, elsewhere, taken]

theorem PoolRun.of_own {t : TargetDispatcher} {actions : List (DispatcherAction TargetResult)}
    (path : Path (dispatcherStep pool.dispatcher) (OwnStep c) s.dispatcher actions t) :
    PoolRun pool s { s with dispatcher := t } := by
  induction path with
  | nil => exact ⟨[], Path.nil⟩
  | snoc _ own taken ih =>
      subst own
      exact ih.trans (.one (s := ⟨_, s.reaper⟩) rfl (by simp) taken)

/-- The call of a claimed item still waits for its reply, if it is still there. -/
theorem WinnerWf.waits_of_executed {s : TargetDispatcher} (wf : WinnerWf s)
    (present : s.callers[c]? = some caller) (executed : s.remover c = some .executor)
    (here : caller.gone = false) : caller.pc.waits = true := by
  obtain ⟨item, _, ok⟩ := wf.pcOk present
  rw [executed] at ok
  cases pc : caller.pc with
  | begun | acquire | checkClosing | insert | displacing _ | discarding _ _ =>
      rw [pc] at ok
      simp [PcOk] at ok
  | returned exit result => simp [Caller.gone, pc] at here
  | dropped => simp [Caller.gone, pc] at here
  | _ => rfl

theorem WinnerWf.unmapped_of_executed {s : TargetDispatcher} (wf : WinnerWf s)
    (present : s.callers[c]? = some caller) (executed : s.remover c = some .executor) :
    s.pending.lookup caller.jobId = none := by
  cases found : s.pending.lookup caller.jobId with
  | none => rfl
  | some d =>
      have held : s.holding (.map caller.jobId) = some (d, .live) := by simp [holding, found]
      obtain rfl := wf.own_item present held
      simp [wf.removed_of_mapped found] at executed

def Answered (s : PoolState) (c : Nat) (answer : Except ActionError TargetResult) : Prop :=
  ∃ caller, s.dispatcher.callers[c]? = some caller ∧ caller.pc = .returned .answered answer

theorem answered_of_sent (wf : PoolWf pool s) (present : s.dispatcher.callers[c]? = some caller)
    (known : s.dispatcher.items[c]? = some item)
    (executed : s.dispatcher.remover c = some .executor) (here : caller.gone = false)
    (sent : item.reply = .sent .executor answer) :
    ∃ last, PoolRun pool s last ∧ Answered last c answer := by
  have rests : Rests pool.dispatcher c s.dispatcher :=
    rests_of_waits present known (wf.winner.unmapped_of_executed present executed)
      (wf.winner.waits_of_executed present executed here)
  obtain ⟨actions, t, later, path, found, resting, items⟩ := rests
  have first : PoolRun pool s { s with dispatcher := t } := .of_own path
  have received : dispatcherStep pool.dispatcher t (.call c .reply) =
      some (t.setPc c later (.returned .answered answer)) :=
    receives_of_resting found (items ▸ known) resting sent
  have second : PoolRun pool { s with dispatcher := t }
      { s with dispatcher := t.setPc c later (.returned .answered answer) } :=
    .one rfl (by simp) received
  refine ⟨_, first.trans second, { later with pc := .returned .answered answer }, ?_, rfl⟩
  exact List.getElem?_set_self (List.getElem?_eq_some_iff.mp found).1

theorem answered_of_spawned (wf : PoolWf pool s) (present : s.dispatcher.callers[c]? = some caller)
    (known : s.dispatcher.items[c]? = some item)
    (executed : s.dispatcher.remover c = some .executor) (here : caller.gone = false)
    (waiting : item.reply = .waiting) (spawned : item.spawned = true)
    (is : item.outcome.answer = some answer) :
    ∃ last, PoolRun pool s last ∧ Answered last c answer := by
  let later : Item TargetResult := { item with
    spawned := false
    reply := .sent .executor answer }
  have taken : dispatcherStep pool.dispatcher s.dispatcher (.forward c) =
      some (s.dispatcher.put c item later) := by
    simp only [dispatcherStep, present, known, Option.bind_some, forwardOutcome, spawned, if_true]
    split
    next value outcome =>
      simp only [outcome, Outcome.answer, Option.some.injEq] at is
      subst is
      simp [waiting, Reply.send, here, later]
    next outcome =>
      simp only [outcome, Outcome.answer, Option.some.injEq] at is
      subst is
      simp [waiting, Reply.send, here, later]
    next unsent undropped =>
      cases outcome : item.outcome with
      | unclaimed | waiting => simp [outcome, Outcome.answer] at is
      | sent value => exact absurd outcome (unsent value)
      | dropped => exact absurd outcome undropped
  have run : PoolRun pool s { s with dispatcher := s.dispatcher.put c item later } :=
    .one rfl (by simp) taken
  have inItems : (s.dispatcher.put c item later).items[c]? = some later :=
    List.getElem?_set_self (List.getElem?_eq_some_iff.mp known).1
  obtain ⟨last, rest, done⟩ := answered_of_sent (run.wf wf) present inItems executed here rfl
  exact ⟨last, run.trans rest, done⟩

/-- A call that still waits when its outcome is settled can be answered with it. -/
theorem answered_of_settled (wf : PoolWf pool s) {outcome : Outcome TargetResult}
    (settled : Settled s.dispatcher c outcome) (is : outcome.answer = some answer)
    (present : s.dispatcher.callers[c]? = some caller) (here : caller.gone = false) :
    ∃ last, PoolRun pool s last ∧ Answered last c answer := by
  obtain ⟨ends, item, known, rfl⟩ := settled
  have ok := wf.claims.items c item known
  have claimed : item.outcome ≠ .unclaimed := by
    intro unclaimed
    simp [unclaimed, Outcome.settled] at ends
  have executed := ok.executed claimed
  rcases ok.forwarded claimed with ⟨waiting, spawned | ⟨i, spawning⟩⟩ | ⟨_, sent, is', replied⟩
  · exact answered_of_spawned wf present known executed here waiting spawned is
  · let later : Item TargetResult := { item with spawned := true }
    have taken : dispatcherStep pool.dispatcher s.dispatcher (.handler i .step) =
        some ((s.dispatcher.put c item later).setHandler i (.leaving c)) := by
      simp [dispatcherStep, spawning, handlerEvent, HandlerPc.item, present, known, handlerItem,
        later]
    have run : PoolRun pool s { s with
        dispatcher := (s.dispatcher.put c item later).setHandler i (.leaving c) } :=
      .one rfl (by simp) taken
    have inItems : (s.dispatcher.put c item later).items[c]? = some later :=
      List.getElem?_set_self (List.getElem?_eq_some_iff.mp known).1
    obtain ⟨last, rest, done⟩ :=
      answered_of_spawned (run.wf wf) present inItems executed here waiting rfl is
    exact ⟨last, run.trans rest, done⟩
  · obtain rfl : answer = sent := Option.some.inj (is.symm.trans is')
    rcases replied with sent | ⟨_, other, found, dropped⟩
    · exact answered_of_sent wf present known executed here sent
    · obtain rfl := Option.some.inj (present.symm.trans found)
      simp [Caller.gone, dropped] at here

theorem settled_later {later : PoolState} {outcome : Outcome TargetResult}
    (settled : Settled s.dispatcher c outcome) (run : PoolRun pool s later) (wf : PoolWf pool s)
    (present : s.dispatcher.callers[c]? = some caller) :
    Settled later.dispatcher c outcome ∧
      ∃ after, later.dispatcher.callers[c]? = some after ∧ after.jobId = caller.jobId := by
  obtain ⟨actions, path⟩ := run
  induction path with
  | nil => exact ⟨settled, caller, present, rfl⟩
  | snoc before distinct taken ih =>
      have wf' := PoolRun.wf ⟨_, before⟩ wf
      obtain ⟨still, middle, found, named⟩ := ih
      have inner := poolStep_run wf'.reaper.clock distinct taken
      have progress := inner.progress wf'.winner wf'.claims
      obtain ⟨after, inNext, renamed⟩ := progress.names c middle found
      exact ⟨still.run inner wf'.winner wf'.claims, after, inNext, renamed.trans named⟩

/-- Once the outcome is settled the call can only return its answer. -/
theorem answer_of_settled (wf : PoolWf pool s) {outcome : Outcome TargetResult}
    (settled : Settled s.dispatcher c outcome) (is : outcome.answer = some answer)
    (present : s.dispatcher.callers[c]? = some caller) {exit : Exit}
    {result : Except ActionError TargetResult} (returned : caller.pc = .returned exit result) :
    exit = .answered ∧ result = answer := by
  obtain ⟨ends, item, known, rfl⟩ := settled
  have ok := wf.claims.items c item known
  have claimed : item.outcome ≠ .unclaimed := by
    intro unclaimed
    simp [unclaimed, Outcome.settled] at ends
  have executed := ok.executed claimed
  have answered : exit = .answered := by
    have pcOk := wf.winner.pcs c caller item present known
    rw [executed, returned] at pcOk
    cases exit with
    | answered => rfl
    | refused | abandoned => simp [PcOk] at pcOk
  refine ⟨answered, ?_⟩
  rcases ok.forwarded claimed with ⟨waiting, _⟩ | ⟨_, sent, is', replied⟩
  · rcases wf.winner.executed present known executed returned with replied | ⟨dropped, _⟩
    · simp [waiting] at replied
    · simp [waiting] at dropped
  · obtain rfl : answer = sent := Option.some.inj (is.symm.trans is')
    rcases replied with sent | ⟨_, other, found, dropped⟩
    · rcases wf.winner.executed present known executed returned with replied | ⟨dropped, _⟩
      · rw [sent] at replied
        simpa using replied.symm
      · simp [sent] at dropped
    · obtain rfl := Option.some.inj (present.symm.trans found)
      simp [returned] at dropped

/-- Workers that report on the identifier are told that there is no such job. -/
def Refuses (s : PoolState) (jobId : String) : Prop :=
  ∀ request : WorkerRequest, request.jobId = jobId →
    serve s.dispatcher request = (.notFound, s.dispatcher)

/-- From `s` on the entry of the identifier is gone for good and call `c` has no other answer. -/
structure Resolved (pool : RemotePool) (s : PoolState) (jobId : String) (c : Nat)
    (answer : Except ActionError TargetResult) : Prop where
  gone (later : PoolState) : PoolRun pool s later →
    later.dispatcher.inProgress.lookup jobId = none
  refuses (later : PoolState) : PoolRun pool s later → Refuses later jobId
  called (later : PoolState) : PoolRun pool s later →
    ∃ caller, later.dispatcher.callers[c]? = some caller ∧ caller.jobId = jobId
  receives (later : PoolState) (caller : Caller TargetResult) (exit : Exit)
    (result : Except ActionError TargetResult) : PoolRun pool s later →
    later.dispatcher.callers[c]? = some caller → caller.pc = .returned exit result →
    exit = .answered ∧ result = answer
  delivered (later : PoolState) (caller : Caller TargetResult) : PoolRun pool s later →
    later.dispatcher.callers[c]? = some caller → caller.gone = false →
    ∃ last, PoolRun pool later last ∧ Answered last c answer

theorem resolved_of_settled (wf : PoolWf pool s) {outcome : Outcome TargetResult}
    (settled : Settled s.dispatcher c outcome) (is : outcome.answer = some answer)
    (present : s.dispatcher.callers[c]? = some caller) :
    Resolved pool s caller.jobId c answer := by
  have absent : ∀ later, PoolRun pool s later →
      later.dispatcher.inProgress.lookup caller.jobId = none := by
    intro later run
    obtain ⟨⟨ends, item, known, rfl⟩, after, found, named⟩ := settled_later settled run wf present
    have wf' := run.wf wf
    rw [← named]
    refine wf'.claims.no_entry wf'.winner found known ?_
    intro waiting
    simp [waiting, Outcome.settled] at ends
  refine ⟨absent, ?_, ?_, ?_, ?_⟩
  · intro later run request same
    exact serve_notFound (same ▸ absent later run)
  · intro later run
    exact (settled_later settled run wf present).2
  · intro later after exit result run found returned
    exact answer_of_settled (run.wf wf) (settled_later settled run wf present).1 is found returned
  · intro later after run found here
    exact answered_of_settled (run.wf wf) (settled_later settled run wf present).1 is found here

end Answers

section Table

variable {pool : RemotePool} {s next : PoolState} {action : PoolAction} {jobId : String}
  {entry : InProgressJob}

/-- The step is the insertion of a `GET /work` handler under the identifier. -/
def ClaimsJob (jobId : String) (s : PoolState) (action : PoolAction) : Prop :=
  ∃ i job c handle, action = .dispatcher (.handler i .step) ∧
    s.dispatcher.handlers[i]? = some (.claiming job c) ∧
    s.dispatcher.jobs[job]? = some handle ∧ handle.job.id = jobId

/-- The step is a claim of the identifier or a heartbeat for it. -/
def Contacts (jobId : String) (s : PoolState) (action : PoolAction) : Prop :=
  ClaimsJob jobId s action ∨ action = .serve (.heartbeat jobId)

theorem lookup_of_settle {t : TargetDispatcher} {id : String} {outcome : Outcome TargetResult}
    (found : ((settle t id outcome).getD t).inProgress.lookup jobId = some entry) :
    t.inProgress.lookup jobId = some entry := by
  cases taken : settle t id outcome with
  | none =>
      rw [taken] at found
      exact found
  | some after =>
      rw [taken, Option.getD_some, settle_lookup taken] at found
      split at found
      · simp at found
      · exact found

theorem claim_table {t after : TargetDispatcher} {i job c : Nat} {handle : JobHandle}
    (present : t.handlers[i]? = some (.claiming job c)) (submitted : t.jobs[job]? = some handle)
    (taken : dispatcherStep pool.dispatcher t (.handler i .step) = some after) :
    after.inProgress = AList.insert handle.job.id ⟨c, t.now⟩ t.inProgress := by
  simp only [dispatcherStep, present, Option.bind_some, handlerEvent, HandlerPc.item,
    Option.bind_eq_some_iff] at taken
  obtain ⟨caller, _, item, _, taken⟩ := taken
  simp only [handlerItem, handlerClaim, submitted, Option.map_some, Option.some.injEq] at taken
  subst taken
  rfl

/-- An entry is put in by a claim, renewed by a heartbeat, and otherwise as it was. -/
theorem entry_cases (wf : PoolWf pool s) (taken : poolStep pool s action = some next)
    (found : next.dispatcher.inProgress.lookup jobId = some entry) :
    (ClaimsJob jobId s action ∨ action = .serve (.heartbeat jobId) ∧
        s.dispatcher.inProgress.lookup jobId ≠ none) ∧
      entry.lastHeartbeat = s.dispatcher.now ∨
    ¬ Contacts jobId s action ∧ s.dispatcher.inProgress.lookup jobId = some entry := by
  cases action with
  | serve request =>
      have unclaiming : ¬ ClaimsJob jobId s (.serve request) := by
        rintro ⟨_, _, _, _, is, _⟩
        simp at is
      simp only [poolStep, Option.some.injEq] at taken
      subst taken
      dsimp only at found
      cases is : request.outcome with
      | some outcome =>
          rw [serve_of_outcome is] at found
          refine Or.inr ⟨?_, lookup_of_settle found⟩
          rintro (claims | beats)
          · exact unclaiming claims
          · simp only [PoolAction.serve.injEq] at beats
            subst beats
            simp [WorkerRequest.outcome] at is
      | none =>
          cases request with
          | heartbeat id =>
              simp only [serve, handleHeartbeat] at found
              split at found
              next old present =>
                rw [HashMap.lookup_insert_eq] at found
                split at found
                next same =>
                  subst same
                  simp only [Option.some.injEq] at found
                  subst found
                  exact Or.inl ⟨Or.inr ⟨rfl, by simp [present]⟩, rfl⟩
                next other =>
                  refine Or.inr ⟨?_, found⟩
                  rintro (claims | beats)
                  · exact unclaiming claims
                  · simp only [PoolAction.serve.injEq, WorkerRequest.heartbeat.injEq] at beats
                    exact other beats.symm
              next absent =>
                refine Or.inr ⟨?_, found⟩
                rintro (claims | beats)
                · exact unclaiming claims
                · simp only [PoolAction.serve.injEq, WorkerRequest.heartbeat.injEq] at beats
                  subst beats
                  simp [absent] at found
          | _ => simp [WorkerRequest.outcome] at is
  | reaper event =>
      have silent : ¬ Contacts jobId s (.reaper event) := by
        rintro (⟨_, _, _, _, is, _⟩ | is)
        · simp at is
        · simp at is
      refine Or.inr ⟨silent, ?_⟩
      have ok := wf.reaper
      cases reaperStep_move taken with
      | ticked _ | stopped _ | finished _ _ | collected _ _ | ended => exact found
      | walked is =>
          rw [ReaperOk, is] at ok
          rw [retainShard_lookup wf.winner wf.claims ok.2.1] at found
          split at found
          · exact (Option.filter_eq_some_iff.mp found).1
          · exact found
      | dropped is => exact lookup_of_settle found
  | dispatcher inner =>
      simp only [poolStep] at taken
      split at taken
      · simp at taken
      next elsewhere =>
        simp only [Option.map_eq_some_iff] at taken
        obtain ⟨after, taken, rfl⟩ := taken
        dsimp only at found
        by_cases claims : ClaimsJob jobId s (.dispatcher inner)
        · refine Or.inl ⟨Or.inl claims, ?_⟩
          obtain ⟨i, job, c, handle, is, present, submitted, rfl⟩ := claims
          simp only [PoolAction.dispatcher.injEq] at is
          subst is
          rw [claim_table present submitted taken, HashMap.lookup_insert_eq, if_pos rfl] at found
          simp only [Option.some.injEq] at found
          subst found
          rfl
        · refine Or.inr ⟨?_, ?_⟩
          · rintro (again | is)
            · exact claims again
            · simp at is
          obtain ⟨_, claim⟩ := dispatcherStep_claims wf.claims.remote taken
          cases claim with
          | aside _ table _ | opened _ table _ | rested _ _ _ _ table _ | took _ _ _ _ table _
          | passed _ _ _ _ table _ | spawned _ _ _ table _ | forwarded _ _ _ _ _ table _ =>
              rw [table] at found
              exact found
          | displaced present _ =>
              exact absurd rfl ((wf.claims.handlers _ _ present).displaces _ _)
          | claimed stepped present submitted _ _ _ table _ =>
              rw [table, HashMap.lookup_insert_eq] at found
              split at found
              next same =>
                subst same stepped
                exact absurd ⟨_, _, _, _, rfl, present, submitted, rfl⟩ claims
              · exact found
          | beat is _ _ _ _ =>
              subst is
              simp [DispatcherAction.onTable] at elsewhere
          | settled operates _ _ _ _ _ _ => exact absurd operates elsewhere

/-- A run without a claim of the identifier leaves no entry for it. -/
theorem absent_of_unclaimed {start : Nat} {actions : List PoolAction}
    (path : Path (poolStep pool) (fun s action => PoolDistinct s action ∧ ¬ ClaimsJob jobId s action)
      (PoolState.new pool start) actions s) :
    PoolWf pool s ∧ s.dispatcher.inProgress.lookup jobId = none := by
  induction path with
  | nil => exact ⟨PoolWf.initial pool start, rfl⟩
  | @snoc _ state action next _ allowed taken ih =>
      obtain ⟨wf, absent⟩ := ih
      refine ⟨wf.step allowed.1 taken, ?_⟩
      cases found : next.dispatcher.inProgress.lookup jobId with
      | none => rfl
      | some entry =>
          rcases entry_cases wf taken found with ⟨claims | ⟨_, present⟩, _⟩ | ⟨_, present⟩
          · exact absurd claims allowed.2
          · exact absurd absent present
          · simp [absent] at present

/-- The last claim or heartbeat of the identifier in the run was at `time`. -/
def LastContact (pool : RemotePool) (start : Nat) (actions : List PoolAction) (s : PoolState)
    (jobId : String) (time : Nat) : Prop :=
  ∃ before action after state next, actions = before ++ action :: after ∧
    Path (poolStep pool) PoolDistinct (PoolState.new pool start) before state ∧
    Contacts jobId state action ∧ state.dispatcher.now = time ∧
    poolStep pool state action = some next ∧
    Path (poolStep pool) (fun s action => PoolDistinct s action ∧ ¬ Contacts jobId s action)
      next after s

theorem lastContact_of_entry {start : Nat} {actions : List PoolAction}
    (path : Path (poolStep pool) PoolDistinct (PoolState.new pool start) actions s)
    (found : s.dispatcher.inProgress.lookup jobId = some entry) :
    LastContact pool start actions s jobId entry.lastHeartbeat := by
  induction path with
  | nil => simp [PoolState.new, DispatcherState.new] at found
  | @snoc actions state action next before distinct taken ih =>
      have wf : PoolWf pool state := PoolRun.wf ⟨_, before⟩ (PoolWf.initial pool start)
      rcases entry_cases wf taken found with ⟨contact, time⟩ | ⟨silent, old⟩
      · refine ⟨actions, action, [], state, next, rfl, before, ?_, time.symm, taken, Path.nil⟩
        exact contact.imp id And.left
      · obtain ⟨early, last, after, cut, resumed, rfl, first, contact, time, moved, rest⟩ := ih old
        refine ⟨early, last, after ++ [action], cut, resumed, by simp, first, contact, time, moved,
          Path.snoc rest ⟨distinct, silent⟩ taken⟩

/-- The entry was last claimed or renewed a heartbeat timeout before `now` or earlier. -/
def Silent (pool : RemotePool) (now : Nat) (entry : InProgressJob) : Prop :=
  entry.lastHeartbeat + pool.heartbeatTimeout ≤ now

theorem silent_iff (positive : 0 < pool.heartbeatTimeout) (now : Nat) (entry : InProgressJob) :
    Silent pool now entry ↔ entryAlive pool.heartbeatTimeout now entry = false := by
  simp only [Silent, entryAlive, decide_eq_false_iff_not]
  omega

/-- A tick that began at `now` walks the shards in turn and drops their silent entries; other
steps may come in between, and a tick that is not interrupted drops all silent entries at once. -/
structure TickExact (pool : RemotePool) (s : PoolState) : Prop where
  begins : s.reaper = .selecting → poolStep pool s (.reaper .tick) =
    some { s with reaper := .retaining s.dispatcher.now 0 }
  walks (now shard : Nat) : s.reaper = .retaining now shard → shard < pool.shards →
    ∃ next, poolStep pool s (.reaper .step) = some next ∧
      next.reaper = .retaining now (shard + 1) ∧ ∀ jobId entry,
        s.dispatcher.inProgress.lookup jobId = some entry →
        (next.dispatcher.inProgress.lookup jobId = none ↔
          pool.shardOf jobId = shard ∧ Silent pool now entry) ∧
        (next.dispatcher.inProgress.lookup jobId ≠ none →
          next.dispatcher.inProgress.lookup jobId = some entry)
  finishes (now shard : Nat) : s.reaper = .retaining now shard → pool.shards ≤ shard →
    ∀ jobId entry, s.dispatcher.inProgress.lookup jobId = some entry → ¬ Silent pool now entry
  alone : s.reaper = .selecting → ∃ last, run (poolStep pool) s
      (.reaper .tick :: List.replicate (pool.shards + 1) (.reaper .step)) = some last ∧
    last.reaper = .selecting ∧ ∀ jobId entry,
      s.dispatcher.inProgress.lookup jobId = some entry →
      (last.dispatcher.inProgress.lookup jobId = none ↔ Silent pool s.dispatcher.now entry) ∧
      (last.dispatcher.inProgress.lookup jobId ≠ none →
        last.dispatcher.inProgress.lookup jobId = some entry)

theorem filter_silent (positive : 0 < pool.heartbeatTimeout) (now : Nat) (entry : InProgressJob) :
    ((some entry).filter (entryAlive pool.heartbeatTimeout now) = none ↔ Silent pool now entry) ∧
      ((some entry).filter (entryAlive pool.heartbeatTimeout now) ≠ none →
        (some entry).filter (entryAlive pool.heartbeatTimeout now) = some entry) := by
  rw [silent_iff positive, Option.filter_some]
  cases entryAlive pool.heartbeatTimeout now entry <;> simp

theorem retaining_step {now shard : Nat} (is : s.reaper = .retaining now shard)
    (inside : shard < pool.shards) : poolStep pool s (.reaper .step) =
      some ⟨retainShard pool now shard s.dispatcher, .retaining now (shard + 1)⟩ := by
  simp [poolStep, reaperStep, is, inside]

/-- The rest of a tick that nothing interrupts. -/
theorem walk_alone (count : Nat) : ∀ {s : PoolState} {now shard : Nat}, PoolWf pool s →
    s.reaper = .retaining now shard → shard + count = pool.shards →
    ∃ last, run (poolStep pool) s (List.replicate (count + 1) (.reaper .step)) = some last ∧
      last.reaper = .selecting ∧ ∀ query, last.dispatcher.inProgress.lookup query =
        if shard ≤ pool.shardOf query then (s.dispatcher.inProgress.lookup query).filter
          (entryAlive pool.heartbeatTimeout now)
        else s.dispatcher.inProgress.lookup query := by
  induction count with
  | zero =>
      intro s now shard wf is bound
      refine ⟨{ s with reaper := .selecting }, ?_, rfl, ?_⟩
      · have outside : ¬ shard < pool.shards := by omega
        simp [run, poolStep, reaperStep, is, outside]
      · intro query
        have inside := pool.sharded query
        rw [if_neg (by omega)]
  | succ count ih =>
      intro s now shard wf is bound
      have inside : shard < pool.shards := by omega
      have taken := retaining_step (s := s) is inside
      have wf' := wf.step (by rintro _ ⟨⟩) taken
      have captured : now ≤ s.dispatcher.now := by
        have ok := wf.reaper
        rw [ReaperOk, is] at ok
        exact ok.2.1
      obtain ⟨last, ran, ends, table⟩ := ih wf' rfl (by omega)
      refine ⟨last, ?_, ends, ?_⟩
      · rw [List.replicate_succ, run, taken]
        exact ran
      · intro query
        rw [table query, retainShard_lookup wf.winner wf.claims captured]
        rcases Nat.lt_trichotomy (pool.shardOf query) shard with below | here | above
        · rw [if_neg (by omega), if_neg (by omega), if_neg (by omega)]
        · rw [if_neg (by omega), if_pos here, if_pos (by omega)]
        · rw [if_pos (by omega), if_neg (by omega), if_pos (by omega)]

theorem tickExact (wf : PoolWf pool s) : TickExact pool s := by
  have ok := wf.reaper
  refine ⟨?_, ?_, ?_, ?_⟩
  · intro is
    simp [poolStep, reaperStep, is]
  · intro now shard is inside
    rw [ReaperOk, is] at ok
    refine ⟨_, retaining_step is inside, rfl, ?_⟩
    intro jobId entry found
    rw [retainShard_lookup wf.winner wf.claims ok.2.1, found]
    by_cases here : pool.shardOf jobId = shard
    · rw [if_pos here]
      obtain ⟨dropped, kept⟩ := filter_silent ok.1 now entry
      exact ⟨dropped.trans (by simp [here]), kept⟩
    · rw [if_neg here]
      exact ⟨by simp [here], fun _ => rfl⟩
  · intro now shard is outside jobId entry found
    rw [ReaperOk, is] at ok
    have inside := pool.sharded jobId
    have alive := ok.2.2 jobId entry found (by omega)
    unfold Silent
    omega
  · intro is
    rw [ReaperOk, is] at ok
    have taken : poolStep pool s (.reaper .tick) =
        some { s with reaper := .retaining s.dispatcher.now 0 } := by
      simp [poolStep, reaperStep, is]
    have wf' := wf.step (by rintro _ ⟨⟩) taken
    obtain ⟨last, ran, ends, table⟩ := walk_alone pool.shards wf' rfl (by omega)
    refine ⟨last, ?_, ends, ?_⟩
    · rw [run, taken]
      exact ran
    · intro jobId entry found
      rw [table jobId, if_pos (Nat.zero_le _), found]
      exact filter_silent ok s.dispatcher.now entry

end Table

/-- Each remotely claimed job is resolved exactly once. -/
theorem remote_job_resolved_once {pool : RemotePool} {start : Nat} {actions : List PoolAction}
    {s : PoolState}
    (path : Path (poolStep pool) PoolDistinct (PoolState.new pool start) actions s) :
    (∀ action next jobId entry, PoolDistinct s action → poolStep pool s action = some next →
      s.dispatcher.inProgress.lookup jobId = some entry →
      next.dispatcher.inProgress.lookup jobId = none →
      ∃ answer, action.answer = some answer ∧ Resolved pool next jobId entry.item answer) ∧
    (∀ jobId entry, s.dispatcher.inProgress.lookup jobId = some entry →
      (∃ caller, s.dispatcher.callers[entry.item]? = some caller ∧ caller.jobId = jobId ∧
        ∀ exit result, caller.pc ≠ .returned exit result) ∧
      LastContact pool start actions s jobId entry.lastHeartbeat) ∧
    (∀ jobId, Path (poolStep pool)
        (fun s action => PoolDistinct s action ∧ ¬ ClaimsJob jobId s action)
        (PoolState.new pool start) actions s → Refuses s jobId) ∧
    TickExact pool s := by
  have wf : PoolWf pool s := PoolRun.wf ⟨_, path⟩ (PoolWf.initial pool start)
  refine ⟨?_, ?_, ?_, tickExact wf⟩
  · intro action next jobId entry distinct taken found removed
    obtain ⟨outcome, settled, some_, is⟩ := removal_settles wf taken found removed
    obtain ⟨answer, given⟩ := Option.isSome_iff_exists.mp some_
    obtain ⟨caller, _, present, rfl, _, _⟩ := wf.claims.table jobId entry found
    have inner := poolStep_run wf.reaper.clock distinct taken
    obtain ⟨later, inNext, named⟩ :=
      (inner.progress wf.winner wf.claims).names entry.item caller present
    refine ⟨answer, given, ?_⟩
    rw [← named]
    exact resolved_of_settled (wf.step distinct taken) settled (is.trans given) inNext
  · intro jobId entry found
    refine ⟨?_, lastContact_of_entry path found⟩
    obtain ⟨caller, item, present, named, known, waiting⟩ := wf.claims.table jobId entry found
    refine ⟨caller, present, named, ?_⟩
    intro exit result returned
    have ok := wf.claims.items entry.item item known
    have claimed : item.outcome ≠ .unclaimed := by simp [waiting]
    rcases ok.forwarded claimed with ⟨open_, _⟩ | ⟨_, answer, is, _⟩
    · rcases wf.winner.executed present known (ok.executed claimed) returned with
        replied | ⟨dropped, _⟩
      · simp [open_] at replied
      · simp [open_] at dropped
    · simp [waiting, Outcome.answer] at is
  · intro jobId unclaimed request same
    exact serve_notFound (same ▸ (absent_of_unclaimed unclaimed).2)

def poolDistinct (s : PoolState) : PoolAction → Bool
  | .dispatcher inner => distinctJobs s.dispatcher inner
  | _ => true

theorem poolDistinct_sound (s : PoolState) (action : PoolAction)
    (checked : poolDistinct s action = true) : PoolDistinct s action := by
  rintro inner rfl
  exact distinctJobs_sound s.dispatcher inner checked

namespace Scenario

def workerPool : RemotePool where
  capacity := 4
  userLimit := none
  shared := false
  heartbeatTimeout := 10
  shards := 1
  shardOf := fun _ => 0
  sharded := fun _ => Nat.one_pos

/-- A worker has claimed the job of the one dispatch call. -/
def claimOne : List PoolAction :=
  let actions : List (DispatcherAction TargetResult) :=
    [.submit (userJob "job"), .dispatch 0 .none] ++ List.replicate 5 (.call 0 .step) ++
      [.getWork, .handler 0 (.dequeue 0)] ++ List.replicate 5 (.handler 0 .step)
  actions.map .dispatcher

def rejectJob : WorkerRequest := .completeReject "job" "no data"

def rejects (s : PoolState) : Bool :=
  decide (s.dispatcher.inProgress.lookup "job" = some ⟨0, 0⟩) &&
    decide ((serve s.dispatcher rejectJob).2.inProgress.lookup "job" = none)

end Scenario

open Scenario in
theorem remote_job_resolved_once_rejected :
    ∃ s next, Path (poolStep workerPool) PoolDistinct (PoolState.new workerPool 0) claimOne s ∧
      poolStep workerPool s (.serve rejectJob) = some next ∧
      s.dispatcher.inProgress.lookup "job" = some ⟨0, 0⟩ ∧
      Resolved workerPool next "job" 0 (.ok (.reject "no data" true)) ∧
      TickExact workerPool s := by
  have ran : (run (fun s action => if poolDistinct s action then poolStep workerPool s action
      else none) (PoolState.new workerPool 0) claimOne).any rejects = true := by decide +kernel
  obtain ⟨s, finished, checked⟩ := (Option.any_eq_true _ _).mp ran
  simp only [rejects, Bool.and_eq_true, decide_eq_true_eq] at checked
  have path := Path.of_run_if poolDistinct_sound _ _ finished
  obtain ⟨resolves, _, _, tick⟩ := remote_job_resolved_once path
  obtain ⟨answer, given, resolved⟩ := resolves (.serve rejectJob) _ "job" ⟨0, 0⟩
    (by rintro _ ⟨⟩) rfl checked.1 checked.2
  simp only [PoolAction.answer, rejectJob, WorkerRequest.outcome, Option.map_some,
    WorkerOutcome.toTarget, Option.some.injEq] at given
  subst given
  exact ⟨s, _, path, rfl, checked.1, resolved, tick⟩

end BitsBroker
