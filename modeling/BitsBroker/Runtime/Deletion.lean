import BitsBroker.Runtime.Removal
import BitsBroker.Runtime.Failover

/-!
Who deletes a durable record. A delete carries only the identifier, so a broker that has a
delete pending, or a persisted instance that will lead to one, deletes the record whoever owns
it by then. As long as the owner of a record changes only when no other live broker is `Armed`
in this sense, every delete is executed by the owner.
-/

namespace BitsBroker

open RequestId Cluster Table Transition

/-- The instance has written a record, or was restored from one. -/
def Instance.recorded (inst : Instance) : Bool :=
  inst.persisted || inst.alreadyPersisted || match inst.task with
    | .upserted => true
    | _ => false

def SweepPc.handling : SweepPc → Option (String × Nat)
  | .removed id i | .deleting id i => some (id, i)
  | _ => none

/-- The instance whose record the poll can still schedule for deletion. -/
def mayClean (s : Cluster) (poll : Poll) : Option Nat :=
  match poll.pc with
  | .uncount i _ | .cleanup i _ => some i
  | _ => mayRemove s poll

def Handles (s : Cluster) (b id : String) (i : Nat) : Prop :=
  (s.brokers b).jobs.lookup id = some i ∨ (s.brokers b).sweep.handling = some (id, i) ∨
    ∃ (p : Nat) (poll : Poll), s.polls[p]? = some poll ∧ poll.broker = b ∧ poll.id = id ∧
      mayClean s poll = some i

/-- The broker has a delete of the record pending, or something that can lead to one. -/
def Armed (s : Cluster) (b id : String) : Prop :=
  id ∈ (s.brokers b).cleanup ∨
    (∃ (p : Nat) (poll : Poll), s.polls[p]? = some poll ∧ poll.broker = b ∧ poll.id = id ∧
      poll.pc.carrying.isSome = true) ∨
    ∃ (i : Nat) (inst : Instance), s.instances[i]? = some inst ∧ inst.recorded = true ∧
      Handles s b id i

/-- The identifier and the broker for which a step writes the owner of a record. -/
def newOwner (s : Cluster) : ClusterAction → Option (String × String)
  | .pollEvent p .step => s.polls[p]?.bind fun poll =>
      match poll.pc with
      | .claim owner => (s.store.recordOf poll.id).bind fun record =>
          if record.brokerId = owner ∧ record.brokerId ≠ poll.broker then
            some (poll.id, poll.broker)
          else none
      | _ => none
  | .taskEvent i .step => s.instances[i]?.bind fun inst =>
      match inst.task with
      | .upserting => some (inst.job.id, inst.broker)
      | _ => none
  | _ => none

def OwnerAlone (s : Cluster) (action : ClusterAction) : Prop :=
  ∀ id owner, newOwner s action = some (id, owner) → ∀ b, b ≠ owner →
    (s.brokers b).crashed = false → ¬ Armed s b id

structure DeletionWf (s : Cluster) : Prop where
  sweeping (b id : String) (i : Nat) : (s.brokers b).sweep.handling = some (id, i) →
    HoldsJob s i b id
  armed (b id : String) (record : PersistentJobRecord) : s.store.recordOf id = some record →
    (s.brokers b).crashed = false → Armed s b id → record.brokerId = b

section Step

variable {cfg : Config} {s next : Cluster} {action : ClusterAction} {b id : String}

theorem sweep_setBroker (changed : String) (state : BrokerState) :
    (Function.update s.brokers changed state b).sweep =
      if b = changed then state.sweep else (s.brokers b).sweep := by
  by_cases same : b = changed
  · subst same
    simp
  · simp [same]

theorem sweep_of_same {changed : String} {state : BrokerState}
    (same : state.sweep = (s.brokers changed).sweep) :
    (Function.update s.brokers changed state b).sweep = (s.brokers b).sweep := by
  rw [sweep_setBroker]
  split
  next here => rw [here, same]
  · rfl

theorem brokerMove_sweep {identity : BrokerIdentity} {label : BrokerAction} {i : Nat}
    (move : BrokerMove cfg s identity label next)
    (handling : (next.brokers b).sweep.handling = some (id, i)) :
    (s.brokers b).sweep.handling = some (id, i) ∨ (s.brokers b).jobs.lookup id = some i := by
  cases move with
  | leased | unleased | overloaded _ | begun => exact Or.inl handling
  | crashed | counted _ | marked _ | passed _ =>
      rw [setBroker_brokers, sweep_of_same] at handling
      · exact Or.inl handling
      · rfl
  | started | rested | undeleted _ _ _ =>
      rw [setBroker_brokers, sweep_setBroker] at handling
      split at handling
      · simp [SweepPc.handling] at handling
      · exact Or.inl handling
  | deleted _ _ _ =>
      rw [deleteRecord_brokers, setBroker_brokers, sweep_setBroker] at handling
      split at handling
      · simp [SweepPc.handling] at handling
      · exact Or.inl handling
  | cleaned _ =>
      rw [deleteRecord_brokers, setBroker_brokers, sweep_of_same] at handling
      · exact Or.inl handling
      · rfl
  | swept _ expired =>
      rw [setBroker_brokers, sweep_setBroker] at handling
      split at handling
      next here =>
        simp only [SweepPc.handling, Option.some.injEq, Prod.mk.injEq] at handling
        obtain ⟨rfl, rfl⟩ := handling
        exact Or.inr (here ▸ (expiredInstance_some expired).1)
      · exact Or.inl handling
  | uncounted removed =>
      rw [setBroker_brokers, sweep_setBroker] at handling
      split at handling
      next here =>
        rw [here, removed]
        exact Or.inl handling
      · exact Or.inl handling

theorem clusterMove_sweep {i : Nat} (move : ClusterMove cfg s action next)
    (handling : (next.brokers b).sweep.handling = some (id, i)) :
    (s.brokers b).sweep.handling = some (id, i) ∨ (s.brokers b).jobs.lookup id = some i := by
  cases move with
  | advanced => exact Or.inl handling
  | broker _ move => exact brokerMove_sweep move handling
  | duplicate _ _ _ =>
      rw [uncount, setBroker_brokers, sweep_of_same] at handling
      · exact Or.inl handling
      · rfl
  | accepted _ _ _ =>
      rw [insertJob, setBroker_brokers, sweep_of_same] at handling
      · exact Or.inl handling
      · rfl
  | task _ move =>
      rw [taskMove_brokers move] at handling
      exact Or.inl handling
  | poll _ move =>
      cases move with
      | removed _ _ | scheduled _ _ _ =>
          rw [setPc_brokers, setBroker_brokers, sweep_of_same] at handling
          · exact Or.inl handling
          · rfl
      | uncounted _ | duplicate _ _ =>
          rw [setPc_brokers, uncount, setBroker_brokers, sweep_of_same] at handling
          · exact Or.inl handling
          · rfl
      | counted _ =>
          rw [pollRestore, setPc_brokers, setBroker_brokers, sweep_of_same] at handling
          · exact Or.inl handling
          · rfl
      | restored _ _ =>
          rw [setPc_brokers, insertJob, setBroker_brokers, sweep_of_same] at handling
          · exact Or.inl handling
          · rfl
      | _ => exact Or.inl handling

theorem cleanup_setBroker {changed : String} {state : BrokerState}
    (listed : id ∈ (Function.update s.brokers changed state b).cleanup)
    (fewer : ∀ id ∈ state.cleanup, id ∈ (s.brokers changed).cleanup) :
    id ∈ (s.brokers b).cleanup := by
  by_cases same : b = changed
  · subst same
    rw [Function.update_self] at listed
    exact fewer id listed
  · rwa [Function.update_of_ne same] at listed

theorem brokerMove_cleanup {identity : BrokerIdentity} {label : BrokerAction}
    (move : BrokerMove cfg s identity label next) (listed : id ∈ (next.brokers b).cleanup) :
    id ∈ (s.brokers b).cleanup := by
  cases move with
  | leased | unleased | overloaded _ | begun => exact listed
  | deleted _ _ _ =>
      rw [deleteRecord_brokers] at listed
      exact cleanup_setBroker listed fun _ kept => kept
  | cleaned queued =>
      rw [deleteRecord_brokers] at listed
      refine cleanup_setBroker listed fun _ kept => ?_
      rw [queued]
      exact List.mem_cons_of_mem _ kept
  | _ => exact cleanup_setBroker listed fun _ kept => kept

theorem clusterMove_cleanup (move : ClusterMove cfg s action next)
    (listed : id ∈ (next.brokers b).cleanup) :
    id ∈ (s.brokers b).cleanup ∨ ∃ (p : Nat) (poll : Poll) (i : Nat) (result : JobResult)
      (inst : Instance), s.polls[p]? = some poll ∧ poll.broker = b ∧ poll.id = id ∧
      poll.pc = .cleanup i result ∧ s.instances[i]? = some inst ∧ inst.persisted = true := by
  cases move with
  | advanced => exact Or.inl listed
  | broker _ move => exact Or.inl (brokerMove_cleanup move listed)
  | duplicate _ _ _ | accepted _ _ _ =>
      exact Or.inl (cleanup_setBroker listed fun _ kept => kept)
  | task _ move =>
      rw [taskMove_brokers move] at listed
      exact Or.inl listed
  | @poll p poll _ _ polled move =>
      cases move with
      | removed _ _ | uncounted _ | counted _ | duplicate _ _ | restored _ _ =>
          exact Or.inl (cleanup_setBroker listed fun _ kept => kept)
      | scheduled pc present persisted =>
          rw [setPc_brokers, setBroker_brokers] at listed
          by_cases here : b = poll.broker
          · subst here
            simp only [Function.update_self, List.mem_append, List.mem_singleton] at listed
            rcases listed with kept | rfl
            · exact Or.inl kept
            · exact Or.inr ⟨p, poll, _, _, _, polled, rfl, rfl, pc, present, persisted⟩
          · rw [Function.update_of_ne here] at listed
            exact Or.inl listed
      | _ => exact Or.inl listed

theorem mayClean_of_mayRemove {poll : Poll} {i : Nat} (may : mayRemove s poll = some i) :
    mayClean s poll = some i := by
  have held := holding_of_mayRemove may
  unfold mayClean
  split
  next pc => rwa [pc] at held
  next pc => rwa [pc] at held
  · exact may

theorem holding_of_mayClean {poll : Poll} {i : Nat} (may : mayClean s poll = some i) :
    poll.pc.holding = some i := by
  unfold mayClean at may
  split at may
  next pc => rw [pc]; exact may
  next pc => rw [pc]; exact may
  · exact holding_of_mayRemove may

theorem mayClean_back {poll : Poll} {i : Nat} (move : ClusterMove cfg s action next)
    (may : mayClean next poll = some i) : mayClean s poll = some i := by
  unfold mayClean at may ⊢
  split at may
  · exact may
  · exact may
  · exact mayRemove_back move may

theorem pollMove_mayClean {p : Nat} {poll later : Poll} {event : PollEvent} {i : Nat}
    (polled : s.polls[p]? = some poll) (move : PollMove cfg s p poll event next)
    (present : next.polls[p]? = some later) (may : mayClean next later = some i) :
    mayClean s poll = some i ∨ (s.brokers poll.broker).jobs.lookup poll.id = some i := by
  by_cases removing : mayRemove next later = some i
  · rcases pollMove_mayRemove polled move present removing with kept | ⟨held, _⟩
    · exact Or.inl (mayClean_of_mayRemove kept)
    · exact Or.inr held
  · have cleaning : (∃ result, later.pc = .uncount i result) ∨ ∃ result, later.pc = .cleanup i result := by
      unfold mayClean at may
      split at may
      next pc => simp_all
      next pc => simp_all
      · exact absurd may removing
    left
    cases move with
    | removed pc _ | alreadyRemoved pc _ =>
        have same := holding_of_mayClean may
        rw [pc_of_set present] at same
        simpa [mayClean, mayRemove, pc, PollPc.holding] using same
    | uncounted pc =>
        have same := holding_of_mayClean may
        rw [pc_of_set present] at same
        simpa [mayClean, pc, PollPc.holding] using same
    | @missed resumed _ _ =>
        have same := holding_of_mayClean may
        rw [pc_of_set present, (pollMiss_idle poll resumed).1] at same
        simp at same
    | claimed _ _ =>
        have same := holding_of_mayClean may
        rw [pc_of_set present, claimedPc_holding] at same
        simp at same
    | woken _ =>
        rw [pc_of_set present] at cleaning
        split at cleaning <;> simp at cleaning
    | pending _ _ => simp [pc_of_set present, pollPending] at cleaning
    | _ => simp [pc_of_set present] at cleaning

theorem handles_holdsJob {i : Nat} (wf : ClusterWf cfg s) (deletion : DeletionWf s)
    (handles : Handles s b id i) : HoldsJob s i b id := by
  rcases handles with held | sweeping | ⟨p, poll, polled, rfl, rfl, may⟩
  · exact wf.held b id i held
  · exact deletion.sweeping b id i sweeping
  · exact wf.polled p poll i polled (holding_of_mayClean may)

theorem handles_back {i : Nat} (move : ClusterMove cfg s action next)
    (handles : Handles next b id i) : Handles s b id i ∨ Enters s next b id i := by
  rcases handles with held | sweeping | ⟨p, poll, present, rfl, rfl, may⟩
  · rcases clusterMove_jobs move held with kept | entered
    · exact Or.inl (Or.inl kept)
    · exact Or.inr entered
  · rcases clusterMove_sweep move sweeping with kept | held
    · exact Or.inl (Or.inr (Or.inl kept))
    · exact Or.inl (Or.inl held)
  · cases clusterMove_polls move present with
    | same polled =>
        exact Or.inl (Or.inr (Or.inr ⟨p, poll, polled, rfl, rfl, mayClean_back move may⟩))
    | begun _ => simp [mayClean, mayRemove] at may
    | @moved before event pc polled moved _ =>
        rcases pollMove_mayClean polled moved present may with kept | held
        · exact Or.inl (Or.inr (Or.inr ⟨p, before, polled, rfl, rfl, kept⟩))
        · exact Or.inl (Or.inl held)

theorem recorded_of_set {i j : Nat} {inst value later : Instance}
    (known : s.instances[i]? = some inst)
    (present : (s.instances.set i value)[j]? = some later)
    (weaker : value.recorded = true → inst.recorded = true) (recorded : later.recorded = true) :
    ∃ before, s.instances[j]? = some before ∧ before.recorded = true := by
  rcases getElem?_of_set present with ⟨rfl, rfl⟩ | ⟨_, kept⟩
  · exact ⟨inst, known, weaker recorded⟩
  · exact ⟨later, kept, recorded⟩

/-- An instance counts as recorded after a step if it did before, or if the step restored it or
wrote its record. -/
theorem recorded_back {i : Nat} {later : Instance} (move : ClusterMove cfg s action next)
    (present : next.instances[i]? = some later) (recorded : later.recorded = true) :
    (∃ inst, s.instances[i]? = some inst ∧ inst.recorded = true) ∨
      (∃ inst, s.instances[i]? = some inst ∧
        next.store.recordOf inst.job.id = some (inst.job.toRecord inst.broker)) ∨
      i = s.instances.length ∧ ∃ (p : Nat) (poll : Poll) (record : PersistentJobRecord)
        (source : Option Nat) (deadline : Nat), s.polls[p]? = some poll ∧
        poll.pc = .insert record source deadline ∧ later.broker = poll.broker ∧
        later.job.id = record.jobId := by
  cases move with
  | advanced => exact Or.inl ⟨later, present, recorded⟩
  | duplicate _ _ _ => exact Or.inl ⟨later, present, recorded⟩
  | broker _ move =>
      rw [brokerMove_instances move] at present
      exact Or.inl ⟨later, present, recorded⟩
  | accepted _ _ _ =>
      rcases getElem?_of_snoc present with kept | ⟨_, rfl⟩
      · exact Or.inl ⟨later, kept, recorded⟩
      · simp [Instance.recorded, submittedInstance] at recorded
  | @poll p poll _ _ polled move =>
      cases move with
      | connected _ known | took _ known _ _ | left _ known =>
          exact Or.inl (recorded_of_set known present (by simp [Instance.recorded]) recorded)
      | restored pc _ =>
          rcases getElem?_of_snoc present with kept | ⟨last, rfl⟩
          · exact Or.inl ⟨later, kept, recorded⟩
          · exact Or.inr (Or.inr ⟨last, p, poll, _, _, _, polled, pc, rfl, rfl⟩)
      | _ => exact Or.inl ⟨later, present, recorded⟩
  | @task j inst _ _ known move =>
      cases move with
      | upserted task written =>
          rcases getElem?_of_set present with ⟨rfl, rfl⟩ | ⟨_, kept⟩
          · refine Or.inr (Or.inl ⟨inst, known, ?_⟩)
            rw [MemoryStore.recordOf_upsertJob written]
            simp [Job.toRecord]
          · exact Or.inl ⟨later, kept, recorded⟩
      | started task | elapsed task _ _ | skipped task | marked task | resolved task
      | upsertFailed task | persisted task | stored task =>
          refine Or.inl (recorded_of_set known present ?_ recorded)
          simp [Instance.recorded, task]

theorem armed_back (wf : ClusterWf cfg s) (deletion : DeletionWf s)
    (move : ClusterMove cfg s action next) (armed : Armed next b id) :
    Armed s b id ∨ ∃ record, next.store.recordOf id = some record ∧ record.brokerId = b := by
  rcases armed with listed | ⟨p, poll, present, rfl, rfl, carrying⟩ | ⟨i, later, present, recorded, handles⟩
  · rcases clusterMove_cleanup move listed with
      kept | ⟨p, poll, i, result, inst, polled, rfl, rfl, pc, known, persisted⟩
    · exact Or.inl (Or.inl kept)
    · refine Or.inl (Or.inr (Or.inr ⟨i, inst, known, by simp [Instance.recorded, persisted], ?_⟩))
      exact Or.inr (Or.inr ⟨p, poll, polled, rfl, rfl, by simp [mayClean, pc]⟩)
  · cases clusterMove_polls move present with
    | same kept => exact Or.inl (Or.inr (Or.inl ⟨p, poll, kept, rfl, rfl, carrying⟩))
    | begun _ => simp [PollPc.carrying] at carrying
    | @moved before event pc polled _ change =>
        cases change with
        | idle _ empty => simp [empty] at carrying
        | kept _ same =>
            exact Or.inl (Or.inr (Or.inl ⟨p, before, polled, rfl, rfl, same ▸ carrying⟩))
        | found _ eq => simp [eq, PollPc.carrying] at carrying
        | claimed stored mine _ => exact Or.inr ⟨_, stored, mine⟩
  · rcases handles_back move handles with before | ⟨last, launch, grown, sameId, sameBroker⟩
    · obtain ⟨launch, launched, sameId, sameBroker⟩ := handles_holdsJob wf deletion before
      obtain ⟨first, known, rfl⟩ := instance_of_launch launched
      rcases recorded_back move present recorded with
        ⟨inst, found, already⟩ | ⟨inst, found, written⟩ | ⟨fresh, _⟩
      · exact Or.inl (Or.inr (Or.inr ⟨i, inst, found, already, before⟩))
      · rw [known, Option.some.injEq] at found
        subst found
        exact Or.inr ⟨_, sameId ▸ written, sameBroker⟩
      · have bound := (List.getElem?_eq_some_iff.mp known).1
        omega
    · have length : s.launches.length = s.instances.length := by simp [launches]
      rcases recorded_back move present recorded with
        ⟨inst, found, _⟩ | ⟨inst, found, _⟩ | ⟨_, p, poll, record, source, deadline, polled, pc, broker, jobId⟩
      · have bound := (List.getElem?_eq_some_iff.mp found).1
        omega
      · have bound := (List.getElem?_eq_some_iff.mp found).1
        omega
      · have launched : launch = later.launch := by
          have at_ := launches_of_instance present
          rw [grown, last] at at_
          simpa using at_
        obtain ⟨written, _⟩ := wf.carried p poll record source polled (by rw [pc]; rfl)
        subst launched
        refine Or.inl (Or.inr (Or.inl ⟨p, poll, polled, ?_, ?_, by rw [pc]; rfl⟩))
        · exact broker.symm.trans sameBroker
        · exact written.jobId.symm.trans (jobId.symm.trans sameId)

theorem brokerMove_alive {identity : BrokerIdentity} {label : BrokerAction}
    (move : BrokerMove cfg s identity label next) (alive : (next.brokers b).crashed = false) :
    (s.brokers b).crashed = false := by
  cases move with
  | leased | unleased | overloaded _ | begun => exact alive
  | crashed =>
      rw [setBroker_brokers] at alive
      by_cases here : b = identity.brokerId
      · subst here
        simp at alive
      · rwa [Function.update_of_ne here] at alive
  | deleted _ _ _ | cleaned _ =>
      rw [deleteRecord_brokers, setBroker_brokers, crashed_update] at alive
      · exact alive
      · rfl
  | _ =>
      rw [setBroker_brokers, crashed_update] at alive
      · exact alive
      · rfl

theorem clusterMove_alive (move : ClusterMove cfg s action next)
    (alive : (next.brokers b).crashed = false) : (s.brokers b).crashed = false := by
  cases move with
  | advanced => exact alive
  | broker _ move => exact brokerMove_alive move alive
  | duplicate _ _ _ =>
      rw [uncount, setBroker_brokers, crashed_update] at alive
      · exact alive
      · rfl
  | accepted _ _ _ =>
      rw [insertJob, setBroker_brokers, crashed_update] at alive
      · exact alive
      · rfl
  | task _ move => rwa [taskMove_brokers move] at alive
  | poll _ move => rwa [pollMove_crashed move] at alive

theorem newOwner_of_change {record : PersistentJobRecord} (ownership : OwnershipWf s)
    (taken : clusterStep cfg s action = some next)
    (stored : next.store.recordOf id = some record)
    (changed : s.store.recordOf id ≠ some record) :
    newOwner s action = some (id, record.brokerId) := by
  have change := clusterMove_store (clusterStep_move taken) id
  rw [stored] at change
  generalize same : some record = later at change
  generalize next.writer id = writer at change
  cases change with
  | same => exact absurd same.symm changed
  | deleted => simp at same
  | probed before probe =>
      exact absurd (probe ▸ ownership.recordNamed id _ before) not_isIdentity_probe
  | transferred polled pc sameId before other =>
      simp only [Option.some.injEq] at same
      subst same sameId
      simp [newOwner, polled, pc, before, other]
  | @written i inst event known task sameId =>
      simp only [Option.some.injEq] at same
      subst same sameId
      cases event with
      | step => simp [newOwner, known, task, Job.toRecord]
      | storeError =>
          simp only [clusterStep, known, Option.bind_some, taskEvent, task] at taken
          split at taken
          · simp at taken
          · simp only [Option.some.injEq] at taken
            subst taken
            exact absurd stored changed
      | _ =>
          simp only [clusterStep, known, Option.bind_some, taskEvent, task] at taken
          split at taken <;> simp at taken

theorem DeletionWf.step (deletion : DeletionWf s) (wf : ClusterWf cfg s) (ownership : OwnershipWf s)
    (alone : OwnerAlone s action) (taken : clusterStep cfg s action = some next) :
    DeletionWf next := by
  have move := clusterStep_move taken
  constructor
  · intro b id i handling
    rcases clusterMove_sweep move handling with kept | held
    · exact (deletion.sweeping b id i kept).keep move
    · exact (wf.held b id i held).keep move
  · intro b id record stored alive armed
    have aliveBefore := clusterMove_alive move alive
    rcases armed_back wf deletion move armed with before | ⟨mine, storedMine, owner⟩
    · by_cases unchanged : s.store.recordOf id = some record
      · exact deletion.armed b id record unchanged aliveBefore before
      · by_contra other
        have written := newOwner_of_change ownership taken stored unchanged
        exact alone id record.brokerId written b (Ne.symm other) aliveBefore before
    · rw [stored, Option.some.injEq] at storedMine
      subst storedMine
      exact owner

theorem DeletionWf.initial (now : Nat) : DeletionWf (Cluster.new now) := by
  constructor
  · intro b id i handling
    simp [Cluster.new, BrokerState.new, SweepPc.handling] at handling
  · intro b id record stored
    simp [Cluster.new, recordOf_new] at stored

theorem pollMove_keeps_record {p : Nat} {poll : Poll} {event : PollEvent}
    {record : PersistentJobRecord} (move : PollMove cfg s p poll event next)
    (stored : s.store.recordOf id = some record) : next.store.recordOf id ≠ none := by
  have claim : ∀ {expected claimant : String} {result : ClaimResult} {store : MemoryStore},
      s.store.claimIfOwner poll.id expected claimant = .ok (result, store) →
      store.recordOf id ≠ none := by
    intro expected claimant result store answered
    rcases (MemoryStore.claimIfOwner_effect answered).recordOf id with
      same | ⟨rfl, _, _, _, _, changed⟩
    · simp [same, stored]
    · simp [changed]
  have kept : s.store.recordOf id ≠ none := by simp [stored]
  cases move with
  | claimed _ answered => exact claim answered
  | probed _ answered _ => exact claim answered
  | _ => exact kept

theorem taskMove_keeps_record {i : Nat} {inst : Instance} {record : PersistentJobRecord}
    (move : TaskMove cfg s i inst next) (stored : s.store.recordOf id = some record) :
    next.store.recordOf id ≠ none := by
  cases move with
  | upserted _ written =>
      rw [MemoryStore.recordOf_upsertJob written]
      split
      · simp
      · simp [stored]
  | _ => simp [stored]

/-- The only steps that remove a record, and what the deleting broker had at hand. -/
theorem deletes_armed {record : PersistentJobRecord} (move : ClusterMove cfg s action next)
    (stored : s.store.recordOf id = some record) (gone : next.store.recordOf id = none) :
    ∃ identity, (action = .broker identity .cleanupDelete ∨
      action = .broker identity .sweepDelete) ∧
      (s.brokers identity.brokerId).crashed = false ∧ Armed s identity.brokerId id := by
  have kept : s.store.recordOf id ≠ none := by simp [stored]
  cases move with
  | poll _ move => exact absurd gone (pollMove_keeps_record move stored)
  | task _ move => exact absurd gone (taskMove_keeps_record move stored)
  | @broker identity label _ alive move =>
      refine ⟨identity, ?_⟩
      cases move with
      | @deleted deletedId i inst deleting present persisted =>
          rcases recordOf_deleteRecord _ deletedId id with same | ⟨_, rfl⟩
          · rw [same, setBroker_store, stored] at gone
            simp at gone
          · refine ⟨Or.inr rfl, alive, Or.inr (Or.inr ⟨i, inst, present, ?_, ?_⟩)⟩
            · simp [Instance.recorded, persisted]
            · exact Or.inr (Or.inl (by rw [deleting]; rfl))
      | @cleaned deletedId rest queued =>
          rcases recordOf_deleteRecord _ deletedId id with same | ⟨_, rfl⟩
          · rw [same, setBroker_store, stored] at gone
            simp at gone
          · exact ⟨Or.inl rfl, alive, Or.inl (by simp [queued])⟩
      | _ => exact absurd gone kept
  | _ => exact absurd gone kept

end Step

theorem DeletionWf.of_path {cfg : Config} {now : Nat} {actions : List ClusterAction} {s : Cluster}
    (path : Path (clusterStep cfg) OwnerAlone (Cluster.new now) actions s) : DeletionWf s := by
  induction path with
  | nil => exact DeletionWf.initial now
  | snoc path alone taken ih =>
      exact ih.step (ClusterWf.of_path path) (OwnershipWf.of_path path) alone taken

/-- If the owner of a record changes only when no other live broker can still delete it, then
every step that removes a record is a delete by its owner. -/
theorem record_deleted_by_owner {cfg : Config} {now : Nat} {actions : List ClusterAction}
    {s next : Cluster} {action : ClusterAction} {id : String} {record : PersistentJobRecord}
    (path : Path (clusterStep cfg) OwnerAlone (Cluster.new now) actions s)
    (taken : clusterStep cfg s action = some next)
    (stored : s.store.recordOf id = some record) (gone : next.store.recordOf id = none) :
    ∃ identity, (action = .broker identity .cleanupDelete ∨
      action = .broker identity .sweepDelete) ∧ identity.brokerId = record.brokerId := by
  have deletion := DeletionWf.of_path path
  obtain ⟨identity, deletes, alive, armed⟩ := deletes_armed (clusterStep_move taken) stored gone
  exact ⟨identity, deletes, (deletion.armed _ id record stored alive armed).symm⟩

theorem not_armed_initial (now : Nat) (b id : String) : ¬ Armed (Cluster.new now) b id := by
  rintro (listed | ⟨p, poll, present, _⟩ | ⟨i, inst, present, _⟩)
  · simp [Cluster.new, BrokerState.new] at listed
  · simp [Cluster.new] at present
  · simp [Cluster.new] at present

/-- Records are written by one broker as long as it is alive, and by another one afterwards. -/
def FailsOver (first second : String) (s : Cluster) (action : ClusterAction) : Prop :=
  ∀ id owner, newOwner s action = some (id, owner) →
    owner = first ∧ (s.brokers first).crashed = false ∨
      owner = second ∧ (s.brokers first).crashed = true

/-- A broker that never owned a record is not armed, and a crashed one does not delete. -/
theorem ownerAlone_of_failsOver {cfg : Config} {now : Nat} {actions : List ClusterAction}
    {s : Cluster} {first second : String}
    (path : Path (clusterStep cfg) (FailsOver first second) (Cluster.new now) actions s) :
    Path (clusterStep cfg) OwnerAlone (Cluster.new now) actions s ∧
      (∀ b id, Armed s b id → b = first ∨ b = second ∧ (s.brokers first).crashed = true) ∧
      ∀ id record, s.store.recordOf id = some record → record.brokerId = first ∨
        record.brokerId = second ∧ (s.brokers first).crashed = true := by
  induction path with
  | nil =>
      refine ⟨Path.nil, ?_, ?_⟩
      · intro b id armed
        exact absurd armed (not_armed_initial now b id)
      · intro id record stored
        simp [Cluster.new, recordOf_new] at stored
  | @snoc actions s action next path permitted taken ih =>
      obtain ⟨alone, arms, owners⟩ := ih
      have move := clusterStep_move taken
      have stays : (s.brokers first).crashed = true → (next.brokers first).crashed = true := by
        intro crashed
        by_contra alive
        have before := clusterMove_alive move (eq_false_of_ne_true alive)
        rw [crashed] at before
        cases before
      have ownersNext : ∀ id record, next.store.recordOf id = some record →
          record.brokerId = first ∨
            record.brokerId = second ∧ (next.brokers first).crashed = true := by
        intro id record stored
        by_cases unchanged : s.store.recordOf id = some record
        · exact (owners id record unchanged).imp_right fun late => ⟨late.1, stays late.2⟩
        · have written := newOwner_of_change (OwnershipWf.of_path path) taken stored unchanged
          rcases permitted id record.brokerId written with early | late
          · exact Or.inl early.1
          · exact Or.inr ⟨late.1, stays late.2⟩
      refine ⟨alone.snoc ?_ taken, ?_, ownersNext⟩
      · intro id owner written b different alive armed
        rcases permitted id owner written with ⟨rfl, early⟩ | ⟨rfl, late⟩
        · rcases arms b id armed with rfl | ⟨_, late⟩
          · exact different rfl
          · rw [early] at late
            cases late
        · rcases arms b id armed with rfl | ⟨rfl, _⟩
          · rw [late] at alive
            cases alive
          · exact different rfl
      · intro b id armed
        rcases armed_back (ClusterWf.of_path path) (DeletionWf.of_path alone) move armed with
          before | ⟨record, stored, rfl⟩
        · exact (arms b id before).imp_right fun late => ⟨late.1, stays late.2⟩
        · exact ownersNext id record stored

def failsOver (first second : String) (s : Cluster) (action : ClusterAction) : Bool :=
  (newOwner s action).all fun written =>
    (decide (written.2 = first) && !(s.brokers first).crashed) ||
      (decide (written.2 = second) && (s.brokers first).crashed)

theorem failsOver_sound (first second : String) (s : Cluster) (action : ClusterAction)
    (checked : failsOver first second s action = true) : FailsOver first second s action := by
  intro id owner written
  simpa [failsOver, written] using checked

namespace Scenario

def takeAndLeave : List ClusterAction :=
  finishOn brokerA ++ [.broker brokerA (.poll jobId false)] ++ pollSteps 0 7

/-- The owner crashes, another broker claims the record, runs the job again and hands the result
out. -/
def takeOver : List ClusterAction :=
  recoverFrom config.router ++ [.taskEvent 1 .step, .taskEvent 1 (.resolve (.failed "no match")),
    .taskEvent 1 .step] ++ pollSteps 0 7

/-- The owner has handed the result out and stalls before its queued delete; another broker
claims the record and runs the job again. -/
def claimedBeforeDelete : List ClusterAction :=
  takeAndLeave ++ [.broker brokerB (.poll jobId false)] ++ pollSteps 1 5

def deletesAs (deleter owner : BrokerIdentity) (s : Cluster) : Bool :=
  (s.store.recordOf jobId).any (fun record => decide (record.brokerId = owner.brokerId)) &&
    (clusterStep config s (.broker deleter .cleanupDelete)).any fun next =>
      (next.store.recordOf jobId).isNone

end Scenario

open Scenario in
theorem record_deleted_by_owner_after_failover :
    ∃ s next record,
      Path (clusterStep config) OwnerAlone (Cluster.new 0) takeOver s ∧
      clusterStep config s (.broker brokerB .cleanupDelete) = some next ∧
      s.store.recordOf jobId = some record ∧ next.store.recordOf jobId = none ∧
      record.brokerId = brokerB.brokerId ∧
      ∃ identity, (ClusterAction.broker brokerB .cleanupDelete = .broker identity .cleanupDelete ∨
        ClusterAction.broker brokerB .cleanupDelete = .broker identity .sweepDelete) ∧
        identity.brokerId = record.brokerId := by
  have ran : (run (fun s a => if failsOver brokerA.brokerId brokerB.brokerId s a then
      clusterStep config s a else none) (Cluster.new 0) takeOver).any
      (deletesAs brokerB brokerB) = true := by decide +kernel
  obtain ⟨s, finished, facts⟩ := (Option.any_eq_true _ _).mp ran
  simp only [deletesAs, Bool.and_eq_true] at facts
  obtain ⟨record, stored, owner⟩ := (Option.any_eq_true _ _).mp facts.1
  obtain ⟨next, taken, gone⟩ := (Option.any_eq_true _ _).mp facts.2
  have checked := Path.of_run_if (failsOver_sound _ _) takeOver _ finished
  have path := (ownerAlone_of_failsOver checked).1
  have absent : next.store.recordOf jobId = none := by simpa using gone
  exact ⟨s, next, record, path, taken, stored, absent, of_decide_eq_true owner,
    record_deleted_by_owner path taken stored absent⟩

open Scenario in
theorem stalled_broker_deletes_record :
    ∃ s next record, run (clusterStep config) (Cluster.new 0) claimedBeforeDelete = some s ∧
      clusterStep config s (.broker brokerA .cleanupDelete) = some next ∧
      s.store.recordOf jobId = some record ∧ next.store.recordOf jobId = none ∧
      record.brokerId = brokerB.brokerId ∧ brokerA.brokerId ≠ record.brokerId := by
  have ran : (run (clusterStep config) (Cluster.new 0) claimedBeforeDelete).any
      (deletesAs brokerA brokerB) = true := by decide +kernel
  obtain ⟨s, finished, facts⟩ := (Option.any_eq_true _ _).mp ran
  simp only [deletesAs, Bool.and_eq_true] at facts
  obtain ⟨record, stored, owner⟩ := (Option.any_eq_true _ _).mp facts.1
  obtain ⟨next, taken, gone⟩ := (Option.any_eq_true _ _).mp facts.2
  have owned := of_decide_eq_true owner
  refine ⟨s, next, record, finished, taken, stored, by simpa using gone, owned, ?_⟩
  rw [owned]
  decide

end BitsBroker
