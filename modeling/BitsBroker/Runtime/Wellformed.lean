import BitsBroker.Runtime.Provenance

/-!
The invariant of the cluster. Every table entry points at an instance of the job it
names; every record, and every copy of a record that a poll carries, was written by a
directly submitted instance and agrees with its job in all but the owner; every restored
instance runs the record of such a submission under the router of the broker.
-/

namespace BitsBroker

open RequestId Cluster Table Transition

def HoldsJob (s : Cluster) (i : Nat) (broker id : String) : Prop :=
  ∃ launch, s.launches[i]? = some launch ∧ launch.job.id = id ∧ launch.broker = broker

def WrittenBy (s : Cluster) (writer : Option Nat) (id : String) (record : PersistentJobRecord) :
    Prop :=
  ∃ w launch, writer = some w ∧ s.launches[w]? = some launch ∧ launch.origin = none ∧
    launch.job.id = id ∧ record = launch.job.toRecord record.brokerId

def RestoredFrom (cfg : Config) (s : Cluster) (launch : Launch) : Prop :=
  launch.router = cfg.router ∧ ∃ w first, launch.origin = some w ∧
    s.launches[w]? = some first ∧ first.origin = none ∧
    launch.job = { first.job with request := first.job.originalRequest }

structure ClusterWf (cfg : Config) (s : Cluster) : Prop where
  held (b id : String) (i : Nat) : (s.brokers b).jobs.lookup id = some i → HoldsJob s i b id
  polled (p : Nat) (poll : Poll) (i : Nat) : s.polls[p]? = some poll →
    poll.pc.holding = some i → HoldsJob s i poll.broker poll.id
  recorded (id : String) (record : PersistentJobRecord) : s.store.recordOf id = some record →
    WrittenBy s (s.writer id) id record
  carried (p : Nat) (poll : Poll) (record : PersistentJobRecord) (source : Option Nat) :
    s.polls[p]? = some poll → poll.pc.carrying = some (record, source) →
    WrittenBy s source poll.id record ∧ record.brokerId = poll.broker
  restored (i : Nat) (launch : Launch) : s.launches[i]? = some launch →
    launch.alreadyPersisted = true → RestoredFrom cfg s launch
  upserters (i : Nat) (inst : Instance) : s.instances[i]? = some inst →
    inst.mayUpsert = true → inst.origin = none

section Step

variable {cfg : Config} {s next : Cluster} {action : ClusterAction}

theorem HoldsJob.keep {i : Nat} {broker id : String} (move : ClusterMove cfg s action next)
    (holds : HoldsJob s i broker id) : HoldsJob next i broker id := by
  obtain ⟨launch, present, sameId, sameBroker⟩ := holds
  exact ⟨launch, (clusterMove_growth move).keeps present, sameId, sameBroker⟩

theorem WrittenBy.keep {writer : Option Nat} {id : String} {record : PersistentJobRecord}
    (move : ClusterMove cfg s action next) (written : WrittenBy s writer id record) :
    WrittenBy next writer id record := by
  obtain ⟨w, launch, isWriter, present, rest⟩ := written
  exact ⟨w, launch, isWriter, (clusterMove_growth move).keeps present, rest⟩

theorem RestoredFrom.keep {launch : Launch} (move : ClusterMove cfg s action next)
    (restored : RestoredFrom cfg s launch) : RestoredFrom cfg next launch := by
  obtain ⟨router, w, first, origin, present, rest⟩ := restored
  exact ⟨router, w, first, origin, (clusterMove_growth move).keeps present, rest⟩

theorem WrittenBy.withOwner {writer : Option Nat} {id : String} {record : PersistentJobRecord}
    (written : WrittenBy s writer id record) (owner : String) :
    WrittenBy s writer id { record with brokerId := owner } := by
  obtain ⟨w, launch, isWriter, present, direct, sameId, eq⟩ := written
  refine ⟨w, launch, isWriter, present, direct, sameId, ?_⟩
  rw [eq]
  rfl

theorem WrittenBy.jobId {writer : Option Nat} {id : String} {record : PersistentJobRecord}
    (written : WrittenBy s writer id record) : record.jobId = id := by
  obtain ⟨w, launch, _, _, _, sameId, eq⟩ := written
  rw [eq]
  exact sameId

theorem ClusterWf.held_step (wf : ClusterWf cfg s) (move : ClusterMove cfg s action next)
    (b id : String) (i : Nat) (held : (next.brokers b).jobs.lookup id = some i) :
    HoldsJob next i b id := by
  rcases clusterMove_jobs move held with kept | ⟨last, launch, grown, sameId, sameBroker⟩
  · exact (wf.held b id i kept).keep move
  · refine ⟨launch, ?_, sameId, sameBroker⟩
    rw [grown, last]
    simp

theorem ClusterWf.polled_step (wf : ClusterWf cfg s) (move : ClusterMove cfg s action next)
    (p : Nat) (poll : Poll) (i : Nat) (present : next.polls[p]? = some poll)
    (holding : poll.pc.holding = some i) : HoldsJob next i poll.broker poll.id := by
  cases clusterMove_polls move present with
  | same kept => exact (wf.polled p poll i kept holding).keep move
  | begun _ => simp [PollPc.holding] at holding
  | @moved before event pc known _ change =>
      refine HoldsJob.keep move ?_
      cases change with
      | idle empty _ => simp [empty] at holding
      | kept same _ => exact wf.polled p before i known (same ▸ holding)
      | found stored eq =>
          simp only [eq, PollPc.holding, Option.some.injEq] at holding
          exact wf.held _ _ _ (holding ▸ stored)
      | claimed _ _ eq => simp [eq, PollPc.holding] at holding

theorem ClusterWf.recorded_step (wf : ClusterWf cfg s) (move : ClusterMove cfg s action next)
    (id : String) (record : PersistentJobRecord)
    (stored : next.store.recordOf id = some record) :
    WrittenBy next (next.writer id) id record := by
  refine WrittenBy.keep move ?_
  have change := clusterMove_store move id
  rw [stored] at change
  generalize same : some record = written at change
  generalize next.writer id = writer at change ⊢
  cases change with
  | same => exact wf.recorded id record same.symm
  | deleted => simp at same
  | transferred _ _ _ before _ | probed before _ =>
      simp only [Option.some.injEq] at same
      exact same ▸ (wf.recorded id _ before).withOwner _
  | @written i inst _ present task sameId =>
      simp only [Option.some.injEq] at same
      refine ⟨i, inst.launch, rfl, launches_of_instance present, ?_, sameId, ?_⟩
      · exact wf.upserters i inst present (by simp [Instance.mayUpsert, task])
      · rw [same]
        rfl

theorem ClusterWf.carried_step (wf : ClusterWf cfg s) (move : ClusterMove cfg s action next)
    (p : Nat) (poll : Poll) (record : PersistentJobRecord) (source : Option Nat)
    (present : next.polls[p]? = some poll)
    (carrying : poll.pc.carrying = some (record, source)) :
    WrittenBy next source poll.id record ∧ record.brokerId = poll.broker := by
  have recorded := wf.recorded_step move poll.id
  cases clusterMove_polls move present with
  | same kept =>
      obtain ⟨written, owner⟩ := wf.carried p poll record source kept carrying
      exact ⟨written.keep move, owner⟩
  | begun _ => simp [PollPc.carrying] at carrying
  | @moved before event pc known step change =>
      cases change with
      | idle _ empty => simp [empty] at carrying
      | kept _ same =>
          obtain ⟨written, owner⟩ := wf.carried p before record source known (same ▸ carrying)
          exact ⟨written.keep move, owner⟩
      | found _ eq => simp [eq, PollPc.carrying] at carrying
      | claimed stored mine eq =>
          simp only [eq, PollPc.carrying, Option.some.injEq, Prod.mk.injEq] at carrying
          obtain ⟨rfl, rfl⟩ := carrying
          exact ⟨recorded _ stored, mine⟩

theorem ClusterWf.restored_step (wf : ClusterWf cfg s) (move : ClusterMove cfg s action next)
    (i : Nat) (launch : Launch) (present : next.launches[i]? = some launch)
    (recovered : launch.alreadyPersisted = true) : RestoredFrom cfg next launch := by
  refine RestoredFrom.keep move ?_
  have grown := clusterMove_growth move
  generalize next.launches = launches at grown present
  cases grown with
  | same => exact wf.restored i launch present recovered
  | submitted _ _ =>
      rcases getElem?_of_snoc present with kept | ⟨_, rfl⟩
      · exact wf.restored i launch kept recovered
      · simp at recovered
  | @restored p poll record source deadline polled pc =>
      rcases getElem?_of_snoc present with kept | ⟨_, rfl⟩
      · exact wf.restored i launch kept recovered
      · have carrying : poll.pc.carrying = some (record, source) := by rw [pc]; rfl
        obtain ⟨⟨writer, first, isWriter, known, direct, _, eq⟩, _⟩ :=
          wf.carried p poll record source polled carrying
        refine ⟨rfl, writer, first, isWriter, known, direct, ?_⟩
        rw [eq]
        exact Job.restore_toRecord first.job record.brokerId

theorem ClusterWf.upserters_step (wf : ClusterWf cfg s) (move : ClusterMove cfg s action next)
    (i : Nat) (inst : Instance) (present : next.instances[i]? = some inst)
    (may : inst.mayUpsert = true) : inst.origin = none := by
  have origin : inst.origin = inst.launch.origin := rfl
  rcases clusterMove_continues move present with
    ⟨before, known, same, weaker⟩ | ⟨_, ⟨_, _, _, _, _, _, launched⟩ | never⟩
  · rw [origin, ← same]
    exact wf.upserters i before known (weaker may)
  · rw [origin, launched]
  · simp [never] at may

theorem ClusterWf.step (wf : ClusterWf cfg s) (taken : clusterStep cfg s action = some next) :
    ClusterWf cfg next := by
  have move := clusterStep_move taken
  constructor
  · exact wf.held_step move
  · exact wf.polled_step move
  · exact wf.recorded_step move
  · exact wf.carried_step move
  · exact wf.restored_step move
  · exact wf.upserters_step move

end Step

theorem ClusterWf.initial (cfg : Config) (now : Nat) : ClusterWf cfg (Cluster.new now) := by
  constructor
  · intro b id i held
    simp [Cluster.new, BrokerState.new] at held
  · intro p poll i present
    simp [Cluster.new] at present
  · intro id record stored
    simp only [Cluster.new, MemoryStore.recordOf, MemoryStore.new] at stored
    split at stored <;> simp at stored
  · intro p poll record source present
    simp [Cluster.new] at present
  · intro i launch present
    simp [Cluster.new, launches] at present
  · intro i inst present
    simp [Cluster.new] at present

theorem ClusterWf.of_path {cfg : Config} {allowed : Cluster → ClusterAction → Prop} {now : Nat}
    {actions : List ClusterAction} {s : Cluster}
    (path : Path (clusterStep cfg) allowed (Cluster.new now) actions s) : ClusterWf cfg s :=
  path.invariant (ClusterWf.initial cfg now) fun _ _ _ wf _ taken => wf.step taken

/-- An instance that a poll restored runs the job it was recovered from exactly when that
job went through the broker's own router and was submitted untransformed. -/
theorem restored_instance_is_submitted_job {cfg : Config} {now : Nat}
    {actions : List ClusterAction} {s : Cluster}
    (path : Path (clusterStep cfg) Always (Cluster.new now) actions s) {i : Nat}
    {inst : Instance} (present : s.instances[i]? = some inst)
    (recovered : inst.alreadyPersisted = true) :
    ∃ w first, inst.origin = some w ∧ s.instances[w]? = some first ∧
      first.alreadyPersisted = false ∧
      (inst.router = first.router ∧ inst.job = first.job ↔
        first.router = cfg.router ∧ first.job.request = first.job.originalRequest) := by
  have wf := ClusterWf.of_path path
  obtain ⟨router, w, launch, origin, known, direct, job⟩ :=
    wf.restored i inst.launch (launches_of_instance present) recovered
  obtain ⟨first, found, rfl⟩ := instance_of_launch known
  refine ⟨w, first, origin, found, ?_, ?_⟩
  · by_contra again
    obtain ⟨_, _, _, twice, _⟩ := wf.restored w first.launch known (eq_true_of_ne_false again)
    simp [direct] at twice
  · change inst.router = cfg.router at router
    change inst.job = { first.job with request := first.job.originalRequest } at job
    rw [router, job]
    constructor
    · rintro ⟨sameRouter, sameJob⟩
      exact ⟨sameRouter.symm, (congrArg Job.request sameJob).symm⟩
    · rintro ⟨sameRouter, sameRequest⟩
      refine ⟨sameRouter.symm, ?_⟩
      rw [← sameRequest]

namespace Scenario

def config : Config where
  router := .mk []
  maxJobs := 10
  persistAfter := some 0
  reconnectBuffer := 5
  brokerLeaseTtl := 20
  internalPollBaseUrl := fun broker => "http://" ++ broker
  divF64 := (· / 10)

def brokerA : BrokerIdentity := ⟨"bol", "dev", 0⟩

def brokerB : BrokerIdentity := ⟨"bol", "dev", 1⟩

def brokerC : BrokerIdentity := ⟨"bol", "dev", 2⟩

def jobId : String := "017sg4fag00000000000000001"

def job : Job := Job.newWithId jobId (.object [("param", .string "t2m")]) 0

def addedRoute : Switch := .mk [.mk "added" []]

def persistOn (broker : BrokerIdentity) (router : Switch) : List ClusterAction :=
  [.broker broker (.submit router job []), .submitInsert 0, .taskEvent 0 .step,
    .taskEvent 0 .elapse, .taskEvent 0 .step]

def pollSteps (p count : Nat) : List ClusterAction := List.replicate count (.pollEvent p .step)

def recoverFrom (router : Switch) : List ClusterAction :=
  persistOn brokerA router ++
    [.broker brokerA .crash, .broker brokerB (.poll jobId false)] ++ pollSteps 0 5

end Scenario

open Scenario in
theorem restored_instance_is_submitted_job_own_router :
    ∃ s inst, run (clusterStep config) (Cluster.new 0) (recoverFrom config.router) = some s ∧
      s.instances[1]? = some inst ∧ inst.alreadyPersisted = true ∧
      ∃ w first, inst.origin = some w ∧ s.instances[w]? = some first ∧
        first.alreadyPersisted = false ∧
        (inst.router = first.router ∧ inst.job = first.job ↔
          first.router = config.router ∧ first.job.request = first.job.originalRequest) := by
  have ran : (run (clusterStep config) (Cluster.new 0) (recoverFrom config.router)).any
      (fun s => s.instances[1]?.any (·.alreadyPersisted)) = true := by decide +kernel
  obtain ⟨s, finished, second⟩ := (Option.any_eq_true _ _).mp ran
  obtain ⟨inst, present, recovered⟩ := (Option.any_eq_true _ _).mp second
  exact ⟨s, inst, finished, present, recovered,
    restored_instance_is_submitted_job (Path.of_run _ _ finished) present recovered⟩

def Scenario.routerLost (s : Cluster) : Bool :=
  s.instances[0]?.any fun first => s.instances[1]?.any fun inst =>
    decide (inst.origin = some 0) && decide (first.router.routes.length = 1) &&
      decide (inst.router.routes.length = 0)

open Scenario in
theorem restored_instance_changes_router :
    ∃ s first inst,
      run (clusterStep config) (Cluster.new 0) (recoverFrom addedRoute) = some s ∧
      s.instances[0]? = some first ∧ s.instances[1]? = some inst ∧ inst.origin = some 0 ∧
      inst.router ≠ first.router := by
  have ran : (run (clusterStep config) (Cluster.new 0) (recoverFrom addedRoute)).any
      routerLost = true := by decide +kernel
  obtain ⟨s, finished, lost⟩ := (Option.any_eq_true _ _).mp ran
  obtain ⟨first, submitted, lost⟩ := (Option.any_eq_true _ _).mp lost
  obtain ⟨inst, restored, lost⟩ := (Option.any_eq_true _ _).mp lost
  simp only [Bool.and_eq_true, decide_eq_true_eq] at lost
  obtain ⟨⟨origin, one⟩, zero⟩ := lost
  refine ⟨s, first, inst, finished, submitted, restored, origin, ?_⟩
  intro same
  rw [same, one] at zero
  omega

end BitsBroker
