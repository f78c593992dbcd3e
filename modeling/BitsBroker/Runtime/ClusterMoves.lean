import BitsBroker.Runtime.Cluster

/-!
What a step of the cluster can do, said once. `PollMove` lists the moves of a poll
with the point they start from, the condition they are taken under and the state they
lead to; `TaskMove` does the same for the task of a submitted job. The invariants are
proved from these lists and from the projection equations of the update functions.
-/

namespace BitsBroker

open RequestId Cluster

namespace Cluster

@[simp] theorem setBroker_now (s : Cluster) (broker : String) (state : BrokerState) :
    (s.setBroker broker state).now = s.now := rfl
@[simp] theorem setBroker_store (s : Cluster) (broker : String) (state : BrokerState) :
    (s.setBroker broker state).store = s.store := rfl
@[simp] theorem setBroker_instances (s : Cluster) (broker : String) (state : BrokerState) :
    (s.setBroker broker state).instances = s.instances := rfl
@[simp] theorem setBroker_submits (s : Cluster) (broker : String) (state : BrokerState) :
    (s.setBroker broker state).submits = s.submits := rfl
@[simp] theorem setBroker_polls (s : Cluster) (broker : String) (state : BrokerState) :
    (s.setBroker broker state).polls = s.polls := rfl
@[simp] theorem setBroker_writer (s : Cluster) (broker : String) (state : BrokerState) :
    (s.setBroker broker state).writer = s.writer := rfl
@[simp] theorem setBroker_brokers (s : Cluster) (broker : String) (state : BrokerState) :
    (s.setBroker broker state).brokers = Function.update s.brokers broker state := rfl

@[simp] theorem setInstance_now (s : Cluster) (i : Nat) (inst : Instance) :
    (s.setInstance i inst).now = s.now := rfl
@[simp] theorem setInstance_store (s : Cluster) (i : Nat) (inst : Instance) :
    (s.setInstance i inst).store = s.store := rfl
@[simp] theorem setInstance_brokers (s : Cluster) (i : Nat) (inst : Instance) :
    (s.setInstance i inst).brokers = s.brokers := rfl
@[simp] theorem setInstance_submits (s : Cluster) (i : Nat) (inst : Instance) :
    (s.setInstance i inst).submits = s.submits := rfl
@[simp] theorem setInstance_polls (s : Cluster) (i : Nat) (inst : Instance) :
    (s.setInstance i inst).polls = s.polls := rfl
@[simp] theorem setInstance_writer (s : Cluster) (i : Nat) (inst : Instance) :
    (s.setInstance i inst).writer = s.writer := rfl
@[simp] theorem setInstance_instances (s : Cluster) (i : Nat) (inst : Instance) :
    (s.setInstance i inst).instances = s.instances.set i inst := rfl

@[simp] theorem setPc_now (s : Cluster) (p : Nat) (poll : Poll) (pc : PollPc) :
    (s.setPc p poll pc).now = s.now := rfl
@[simp] theorem setPc_store (s : Cluster) (p : Nat) (poll : Poll) (pc : PollPc) :
    (s.setPc p poll pc).store = s.store := rfl
@[simp] theorem setPc_brokers (s : Cluster) (p : Nat) (poll : Poll) (pc : PollPc) :
    (s.setPc p poll pc).brokers = s.brokers := rfl
@[simp] theorem setPc_instances (s : Cluster) (p : Nat) (poll : Poll) (pc : PollPc) :
    (s.setPc p poll pc).instances = s.instances := rfl
@[simp] theorem setPc_submits (s : Cluster) (p : Nat) (poll : Poll) (pc : PollPc) :
    (s.setPc p poll pc).submits = s.submits := rfl
@[simp] theorem setPc_writer (s : Cluster) (p : Nat) (poll : Poll) (pc : PollPc) :
    (s.setPc p poll pc).writer = s.writer := rfl
@[simp] theorem setPc_polls (s : Cluster) (p : Nat) (poll : Poll) (pc : PollPc) :
    (s.setPc p poll pc).polls = s.polls.set p { poll with pc := pc } := rfl

@[simp] theorem deleteRecord_now (s : Cluster) (id : String) :
    (s.deleteRecord id).now = s.now := by
  unfold deleteRecord
  split <;> rfl
@[simp] theorem deleteRecord_brokers (s : Cluster) (id : String) :
    (s.deleteRecord id).brokers = s.brokers := by
  unfold deleteRecord
  split <;> rfl
@[simp] theorem deleteRecord_instances (s : Cluster) (id : String) :
    (s.deleteRecord id).instances = s.instances := by
  unfold deleteRecord
  split <;> rfl
@[simp] theorem deleteRecord_submits (s : Cluster) (id : String) :
    (s.deleteRecord id).submits = s.submits := by
  unfold deleteRecord
  split <;> rfl
@[simp] theorem deleteRecord_polls (s : Cluster) (id : String) :
    (s.deleteRecord id).polls = s.polls := by
  unfold deleteRecord
  split <;> rfl
@[simp] theorem deleteRecord_writer (s : Cluster) (id : String) :
    (s.deleteRecord id).writer = s.writer := by
  unfold deleteRecord
  split <;> rfl

theorem recordOf_deleteRecord (s : Cluster) (deleted id : String) :
    (s.deleteRecord deleted).store.recordOf id = s.store.recordOf id ∨
      ((s.deleteRecord deleted).store.recordOf id = none ∧ id = deleted) := by
  unfold deleteRecord
  split
  next store ok =>
    simp only [MemoryStore.recordOf_deleteJob ok]
    by_cases same : id = deleted
    · exact Or.inr ⟨by simp [same], same⟩
    · exact Or.inl (by simp [same])
  next => exact Or.inl rfl

end Cluster

/-- The points of a poll past its local miss, where it can still give up. -/
def PollPc.isRemote : PollPc → Bool
  | .leaseOf _ | .claim _ | .restore _ _ | .ownerLease _ | .proxy _ | .probe => true
  | _ => false

/-- The instance whose result the next step of a poll takes, if it takes one. -/
def takesFrom (s : Cluster) (poll : Poll) : Option Nat :=
  match poll.pc with
  | .check i =>
      if (s.instances[i]?.bind (·.result)).any fun result =>
        !(poll.submitting && result.isDeliverable) then some i else none
  | .recheck i => if (s.instances[i]?.bind (·.result)).isSome then some i else none
  | _ => none

inductive PollMove (cfg : Config) (s : Cluster) (p : Nat) (poll : Poll) :
    PollEvent → Cluster → Prop
  | found {resumed i} : poll.pc = .lookup resumed →
      (s.brokers poll.broker).jobs.lookup poll.id = some i →
      PollMove cfg s p poll .step (s.setPc p poll (.connect i))
  | missed {resumed} : poll.pc = .lookup resumed →
      (s.brokers poll.broker).jobs.lookup poll.id = none →
      PollMove cfg s p poll .step (s.setPc p poll (pollMiss poll resumed))
  | connected {i inst} : poll.pc = .connect i → s.instances[i]? = some inst →
      PollMove cfg s p poll .step
        ((s.setInstance i { inst with activePollers := inst.activePollers + 1 }).setPc p poll
          (.check i))
  | took {i inst result} : poll.pc = .check i ∨ poll.pc = .recheck i →
      s.instances[i]? = some inst → inst.result = some result → takesFrom s poll = some i →
      PollMove cfg s p poll .step (pollTake s p poll i inst result)
  | parked {i inst} : poll.pc = .check i → s.instances[i]? = some inst → inst.result = none →
      PollMove cfg s p poll .step (s.setPc p poll (.wait i))
  | pending {i inst event} : poll.pc = .check i ∨ poll.pc = .wait i ∨ poll.pc = .recheck i →
      s.instances[i]? = some inst →
      PollMove cfg s p poll event (s.setPc p poll (pollPending poll i inst))
  | woken {i} : poll.pc = .wait i →
      PollMove cfg s p poll .wake
        (s.setPc p poll (if poll.submitting then .check i else .recheck i))
  | disconnected {i} : poll.pc = .wait i →
      PollMove cfg s p poll .drop (s.setPc p poll (.leave i none))
  | removed {i result j} : poll.pc = .remove i result →
      (s.brokers poll.broker).jobs.lookup poll.id = some j →
      PollMove cfg s p poll .step
        ((s.setBroker poll.broker { s.brokers poll.broker with
          jobs := AList.erase poll.id (s.brokers poll.broker).jobs }).setPc p poll
          (.uncount i result))
  | alreadyRemoved {i result} : poll.pc = .remove i result →
      (s.brokers poll.broker).jobs.lookup poll.id = none →
      PollMove cfg s p poll .step (s.setPc p poll (.cleanup i result))
  | uncounted {i result} : poll.pc = .uncount i result →
      PollMove cfg s p poll .step ((s.uncount poll.broker).setPc p poll (.cleanup i result))
  | scheduled {i result inst} : poll.pc = .cleanup i result → s.instances[i]? = some inst →
      inst.persisted = true →
      PollMove cfg s p poll .step
        ((s.setBroker poll.broker { s.brokers poll.broker with
          cleanup := (s.brokers poll.broker).cleanup ++ [poll.id] }).setPc p poll
          (.leave i (some (.ready result))))
  | unscheduled {i result inst} : poll.pc = .cleanup i result → s.instances[i]? = some inst →
      inst.persisted = false →
      PollMove cfg s p poll .step (s.setPc p poll (.leave i (some (.ready result))))
  | left {i outcome inst} : poll.pc = .leave i outcome → s.instances[i]? = some inst →
      PollMove cfg s p poll .step (pollLeave cfg s p poll i inst outcome)
  | leaseActive {owner lease} : poll.pc = .leaseOf owner ∨ poll.pc = .ownerLease owner →
      lookupOwnerLease cfg.divF64 s.store owner s.now = .active lease →
      PollMove cfg s p poll .step (s.setPc p poll (.proxy lease))
  | leaseDead {owner} : poll.pc = .leaseOf owner →
      lookupOwnerLease cfg.divF64 s.store owner s.now = .missingOrExpired →
      PollMove cfg s p poll .step (s.setPc p poll (.claim owner))
  | claimed {owner result store} : poll.pc = .claim owner →
      s.store.claimIfOwner poll.id owner poll.broker = .ok (result, store) →
      PollMove cfg s p poll .step
        (({ s with store := store } : Cluster).setPc p poll (claimedPc s poll owner result))
  | retried {owner} : poll.pc = .claim owner →
      PollMove cfg s p poll (.storeError true) (s.setPc p poll (.claim owner))
  | gaveUp {event outcome} : poll.pc.isRemote = true →
      (∀ result, outcome ≠ some (.ready result)) ∨ (∃ lease, poll.pc = .proxy lease) →
      PollMove cfg s p poll event (s.setPc p poll (.finished outcome))
  | counted {record source} : poll.pc = .restore record source →
      PollMove cfg s p poll .step (pollRestore cfg s p poll record source)
  | duplicate {record source deadline j} : poll.pc = .insert record source deadline →
      (s.brokers poll.broker).jobs.lookup record.jobId = some j →
      PollMove cfg s p poll .step ((s.uncount poll.broker).setPc p poll (.lookup true))
  | restored {record source deadline} : poll.pc = .insert record source deadline →
      (s.brokers poll.broker).jobs.lookup record.jobId = none →
      PollMove cfg s p poll .step
        ((s.insertJob (submittedInstance (Job.restore record) poll.broker cfg.router source true
          deadline)).setPc p poll (.lookup true))
  | probing {lease} : poll.pc = .proxy lease →
      PollMove cfg s p poll .answerNotFound (s.setPc p poll .probe)
  | probed {result store outcome} : poll.pc = .probe →
      s.store.claimIfOwner poll.id "__never_expected__" "__presence_probe__" =
        .ok (result, store) →
      (∀ result, outcome ≠ .ready result) →
      PollMove cfg s p poll .step
        (({ s with store := store } : Cluster).setPc p poll (.finished (some outcome)))

theorem pollCheck_move {cfg : Config} {s : Cluster} {p : Nat} {poll : Poll} {i : Nat}
    {inst : Instance} (pc : poll.pc = .check i) (present : s.instances[i]? = some inst) :
    PollMove cfg s p poll .step (pollCheck s p poll i inst) := by
  unfold pollCheck
  split
  next result stored =>
    split
    · exact .pending (Or.inl pc) present
    next consumes =>
      have takes : takesFrom s poll = some i := by
        simpa [takesFrom, pc, present, stored] using consumes
      exact .took (Or.inl pc) present stored takes
  next empty =>
    split
    · exact .pending (Or.inl pc) present
    · exact .parked pc present empty

theorem pollRecheck_move {cfg : Config} {s : Cluster} {p : Nat} {poll : Poll} {i : Nat}
    {inst : Instance} (pc : poll.pc = .recheck i) (present : s.instances[i]? = some inst) :
    PollMove cfg s p poll .step (pollRecheck s p poll i inst) := by
  unfold pollRecheck
  split
  next result stored =>
    have takes : takesFrom s poll = some i := by simp [takesFrom, pc, present, stored]
    exact .took (Or.inr pc) present stored takes
  next => exact .pending (Or.inr (Or.inr pc)) present

theorem pollLookup_move {cfg : Config} {s : Cluster} {p : Nat} {poll : Poll} {resumed : Bool}
    (pc : poll.pc = .lookup resumed) :
    PollMove cfg s p poll .step (pollLookup s p poll resumed) := by
  unfold pollLookup
  split
  next i held => exact .found pc held
  next absent => exact .missed pc absent

theorem pollRemove_move {cfg : Config} {s : Cluster} {p : Nat} {poll : Poll} {i : Nat}
    {result : JobResult} (pc : poll.pc = .remove i result) :
    PollMove cfg s p poll .step (pollRemove s p poll i result) := by
  unfold pollRemove
  dsimp only
  split
  next j held => exact .removed pc held
  next absent => exact .alreadyRemoved pc absent

theorem pollCleanup_move {cfg : Config} {s : Cluster} {p : Nat} {poll : Poll} {i : Nat}
    {inst : Instance} {result : JobResult} (pc : poll.pc = .cleanup i result)
    (present : s.instances[i]? = some inst) :
    PollMove cfg s p poll .step (pollCleanup s p poll i inst result) := by
  unfold pollCleanup
  dsimp only
  split
  next persisted => exact .scheduled pc present persisted
  next volatile => exact .unscheduled pc present (by simpa using volatile)

theorem pollLeaseOf_move {cfg : Config} {s : Cluster} {p : Nat} {poll : Poll} {owner : String}
    (pc : poll.pc = .leaseOf owner) :
    PollMove cfg s p poll .step (pollLeaseOf cfg s p poll owner) := by
  unfold pollLeaseOf
  split
  next lease active => exact .leaseActive (Or.inl pc) active
  next dead => exact .leaseDead pc dead
  next => exact .gaveUp (by simp [pc, PollPc.isRemote]) (Or.inl (by simp [PollOutcome.queued]))

theorem pollClaim_move {cfg : Config} {s : Cluster} {p : Nat} {poll : Poll} {owner : String}
    (pc : poll.pc = .claim owner) :
    PollMove cfg s p poll .step (pollClaim s p poll owner) := by
  unfold pollClaim
  split
  next result store answered => exact .claimed pc answered
  next => exact .gaveUp (by simp [pc, PollPc.isRemote]) (Or.inl (by simp [PollOutcome.queued]))

theorem pollInsert_move {cfg : Config} {s : Cluster} {p : Nat} {poll : Poll}
    {record : PersistentJobRecord} {source : Option Nat} {deadline : Nat}
    (pc : poll.pc = .insert record source deadline) :
    PollMove cfg s p poll .step (pollInsert cfg s p poll record source deadline) := by
  unfold pollInsert
  split
  next j held => exact .duplicate pc held
  next absent => exact .restored pc absent

theorem pollOwnerLease_move {cfg : Config} {s : Cluster} {p : Nat} {poll : Poll} {owner : String}
    (pc : poll.pc = .ownerLease owner) :
    PollMove cfg s p poll .step (pollOwnerLease cfg s p poll owner) := by
  unfold pollOwnerLease
  split
  next lease active => exact .leaseActive (Or.inr pc) active
  next => exact .gaveUp (by simp [pc, PollPc.isRemote]) (Or.inl (by simp [PollOutcome.queued]))

theorem pollProbe_move {cfg : Config} {s : Cluster} {p : Nat} {poll : Poll}
    (pc : poll.pc = .probe) : PollMove cfg s p poll .step (pollProbe s p poll) := by
  unfold pollProbe
  split
  next store answered => exact .probed pc answered (by simp)
  next answered => exact .probed pc answered (by simp [PollOutcome.queued])
  next => exact .gaveUp (by simp [pc, PollPc.isRemote]) (Or.inl (by simp [PollOutcome.queued]))

theorem pollEvent_move {cfg : Config} {s next : Cluster} {p : Nat} {poll : Poll}
    {event : PollEvent} (taken : pollEvent cfg s p poll event = some next) :
    PollMove cfg s p poll event next := by
  unfold pollEvent at taken
  split at taken
  · simp at taken
  · have queued : ∀ result, some (PollOutcome.queued poll.id) ≠ some (.ready result) := by
      simp [PollOutcome.queued]
    split at taken <;>
      simp only [Option.some.injEq, Option.map_eq_some_iff, reduceCtorEq] at taken
    next pc => exact taken ▸ pollLookup_move pc
    next pc =>
      obtain ⟨inst, present, rfl⟩ := taken
      exact .connected pc present
    next pc =>
      obtain ⟨inst, present, rfl⟩ := taken
      exact pollCheck_move pc present
    next pc => exact taken ▸ .woken pc
    next pc =>
      obtain ⟨inst, present, rfl⟩ := taken
      exact .pending (Or.inr (Or.inl pc)) present
    next pc => exact taken ▸ .disconnected pc
    next pc =>
      obtain ⟨inst, present, rfl⟩ := taken
      exact pollRecheck_move pc present
    next pc => exact taken ▸ pollRemove_move pc
    next pc => exact taken ▸ .uncounted pc
    next pc =>
      obtain ⟨inst, present, rfl⟩ := taken
      exact pollCleanup_move pc present
    next pc =>
      obtain ⟨inst, present, rfl⟩ := taken
      exact .left pc present
    next pc => exact taken ▸ pollLeaseOf_move pc
    next pc => exact taken ▸ .gaveUp (by simp [pc, PollPc.isRemote]) (Or.inl queued)
    next pc => exact taken ▸ .gaveUp (by simp [pc, PollPc.isRemote]) (Or.inl (by simp))
    next pc => exact taken ▸ pollClaim_move pc
    next pc => exact taken ▸ .retried pc
    next pc => exact taken ▸ .gaveUp (by simp [pc, PollPc.isRemote]) (Or.inl queued)
    next pc => exact taken ▸ .gaveUp (by simp [pc, PollPc.isRemote]) (Or.inl (by simp))
    next pc => exact taken ▸ .counted pc
    next pc => exact taken ▸ .gaveUp (by simp [pc, PollPc.isRemote]) (Or.inl (by simp))
    next pc => exact taken ▸ pollInsert_move pc
    next pc => exact taken ▸ pollOwnerLease_move pc
    next pc => exact taken ▸ .gaveUp (by simp [pc, PollPc.isRemote]) (Or.inl queued)
    next pc => exact taken ▸ .gaveUp (by simp [pc, PollPc.isRemote]) (Or.inl (by simp))
    next pc => exact taken ▸ .gaveUp (by simp [pc, PollPc.isRemote]) (Or.inl queued)
    next pc =>
      exact taken ▸ .gaveUp (by simp [pc, PollPc.isRemote]) (Or.inr ⟨_, pc⟩)
    next pc => exact taken ▸ .probing pc
    next pc => exact taken ▸ .gaveUp (by simp [pc, PollPc.isRemote]) (Or.inl (by simp))
    next pc => exact taken ▸ pollProbe_move pc
    next pc => exact taken ▸ .gaveUp (by simp [pc, PollPc.isRemote]) (Or.inl queued)
    next pc => exact taken ▸ .gaveUp (by simp [pc, PollPc.isRemote]) (Or.inl (by simp))

inductive TaskMove (cfg : Config) (s : Cluster) (i : Nat) (inst : Instance) : Cluster → Prop
  | started : inst.task = .spawned → TaskMove cfg s i inst (s.setInstance i { inst with
      persisted := inst.persisted || inst.alreadyPersisted
      task := .dispatching (cfg.persistAfter.map (s.now + ·)) })
  | elapsed {persistAt} : inst.task = .dispatching (some persistAt) → inst.persisted = false →
      inst.result = none → TaskMove cfg s i inst (s.setInstance i { inst with task := .upserting })
  | skipped {persistAt} : inst.task = .dispatching (some persistAt) →
      TaskMove cfg s i inst (s.setInstance i { inst with task := .dispatching none })
  | marked {persistAt} : inst.task = .dispatching persistAt →
      TaskMove cfg s i inst (s.setInstance i { inst with pendingStatus := .processing })
  | resolved {persistAt result} : inst.task = .dispatching persistAt →
      TaskMove cfg s i inst (s.setInstance i { inst with task := .finishing result })
  | upserted {store} : inst.task = .upserting →
      s.store.upsertJob (inst.job.toRecord inst.broker) = .ok store →
      TaskMove cfg s i inst { s.setInstance i { inst with task := .upserted } with
        store := store
        writer := Function.update s.writer inst.job.id (some i) }
  | upsertFailed : inst.task = .upserting →
      TaskMove cfg s i inst (s.setInstance i { inst with task := .dispatching none })
  | persisted : inst.task = .upserted →
      TaskMove cfg s i inst (s.setInstance i { inst with
        persisted := true, task := .dispatching none })
  | stored {result} : inst.task = .finishing result →
      TaskMove cfg s i inst (s.setInstance i { inst with result := some result, task := .done })

theorem taskEvent_move {cfg : Config} {s next : Cluster} {i : Nat} {inst : Instance}
    {event : TaskEvent} (taken : taskEvent cfg s i inst event = some next) :
    TaskMove cfg s i inst next := by
  unfold taskEvent at taken
  split at taken
  · simp at taken
  · split at taken
    next task =>
      simp only [Option.some.injEq] at taken
      exact taken ▸ .started task
    next persistAt task =>
      split at taken
      · simp at taken
      · split at taken <;> simp only [Option.some.injEq] at taken
        next fresh =>
          simp only [Bool.and_eq_true, Bool.not_eq_eq_eq_not, Bool.not_true,
            Option.isNone_iff_eq_none] at fresh
          exact taken ▸ .elapsed task fresh.1 fresh.2
        next => exact taken ▸ .skipped task
    next task =>
      simp only [Option.some.injEq] at taken
      exact taken ▸ .marked task
    next task =>
      simp only [Option.some.injEq] at taken
      exact taken ▸ .resolved task
    next task =>
      simp only [Option.some.injEq] at taken
      subst taken
      unfold taskUpsert
      split
      next store written => exact .upserted task written
      next => exact .upsertFailed task
    next task =>
      simp only [Option.some.injEq] at taken
      exact taken ▸ .upsertFailed task
    next task =>
      simp only [Option.some.injEq] at taken
      exact taken ▸ .persisted task
    next task =>
      simp only [Option.some.injEq] at taken
      exact taken ▸ .stored task
    next => simp at taken

theorem expiredInstance_some {s : Cluster} {broker id : String} {i : Nat}
    (expired : expiredInstance s broker id = some i) :
    (s.brokers broker).jobs.lookup id = some i ∧ ∃ inst, s.instances[i]? = some inst ∧
      inst.result.isSome = true ∧ inst.clientPresent s.now = false := by
  unfold expiredInstance at expired
  split at expired
  · simp at expired
  next held =>
    split at expired
    · simp at expired
    next inst present =>
      split at expired
      next ready =>
        simp only [Option.some.injEq] at expired
        subst expired
        simp only [Bool.and_eq_true, Bool.not_eq_eq_eq_not, Bool.not_true] at ready
        exact ⟨held, inst, present, ready.1, ready.2⟩
      · simp at expired

inductive BrokerMove (cfg : Config) (s : Cluster) (identity : BrokerIdentity) :
    BrokerAction → Cluster → Prop
  | leased : BrokerMove cfg s identity .upsertLease { s with
      store := s.store.upsertBrokerLease identity.brokerId
        (cfg.internalPollBaseUrl identity.brokerId) cfg.brokerLeaseTtl s.now }
  | unleased : BrokerMove cfg s identity .deleteLease
      { s with store := s.store.deleteBrokerLease identity.brokerId }
  | crashed : BrokerMove cfg s identity .crash
      (s.setBroker identity.brokerId { s.brokers identity.brokerId with crashed := true })
  | overloaded {router job random id} : acceptedId identity s.now random job = .ok id →
      BrokerMove cfg s identity (.submit router job random) { s with
        submits := s.submits ++ [⟨identity.brokerId, router, { job with id := id }, .overloaded⟩] }
  | counted {router job random id} : acceptedId identity s.now random job = .ok id →
      BrokerMove cfg s identity (.submit router job random)
        { s.setBroker identity.brokerId { s.brokers identity.brokerId with
            jobCount := (s.brokers identity.brokerId).jobCount + 1 } with
          submits := s.submits ++ [⟨identity.brokerId, router, { job with id := id },
            .counted (s.now + cfg.reconnectBuffer)⟩] }
  | begun {id submitting} : BrokerMove cfg s identity (.poll id submitting) { s with
      polls := s.polls ++ [⟨identity.brokerId, id, submitting, .lookup false⟩] }
  | marked {id i} : expiredInstance s identity.brokerId id = some i →
      BrokerMove cfg s identity (.sweepMark id)
        (s.setBroker identity.brokerId { s.brokers identity.brokerId with
          expired := (s.brokers identity.brokerId).expired ++ [id] })
  | started : BrokerMove cfg s identity .sweepStart
      (s.setBroker identity.brokerId { s.brokers identity.brokerId with sweep := .processing })
  | swept {id rest i} : (s.brokers identity.brokerId).expired = id :: rest →
      expiredInstance s identity.brokerId id = some i →
      BrokerMove cfg s identity .sweepRemove
        (s.setBroker identity.brokerId { s.brokers identity.brokerId with
          jobs := AList.erase id (s.brokers identity.brokerId).jobs
          expired := rest, sweep := .removed id i })
  | passed {id rest} : (s.brokers identity.brokerId).expired = id :: rest →
      BrokerMove cfg s identity .sweepRemove
        (s.setBroker identity.brokerId { s.brokers identity.brokerId with expired := rest })
  | rested : BrokerMove cfg s identity .sweepRemove
      (s.setBroker identity.brokerId { s.brokers identity.brokerId with sweep := .collecting })
  | uncounted {id i} : (s.brokers identity.brokerId).sweep = .removed id i →
      BrokerMove cfg s identity .sweepCount
        (s.setBroker identity.brokerId { s.brokers identity.brokerId with
          jobCount := (s.brokers identity.brokerId).jobCount - 1, sweep := .deleting id i })
  | deleted {id i inst} : (s.brokers identity.brokerId).sweep = .deleting id i →
      s.instances[i]? = some inst → inst.persisted = true →
      BrokerMove cfg s identity .sweepDelete
        ((s.setBroker identity.brokerId { s.brokers identity.brokerId with
          sweep := .processing }).deleteRecord id)
  | undeleted {id i inst} : (s.brokers identity.brokerId).sweep = .deleting id i →
      s.instances[i]? = some inst → inst.persisted = false →
      BrokerMove cfg s identity .sweepDelete
        (s.setBroker identity.brokerId { s.brokers identity.brokerId with sweep := .processing })
  | cleaned {id rest} : (s.brokers identity.brokerId).cleanup = id :: rest →
      BrokerMove cfg s identity .cleanupDelete
        ((s.setBroker identity.brokerId { s.brokers identity.brokerId with
          cleanup := rest }).deleteRecord id)

theorem brokerStep_move {cfg : Config} {s next : Cluster} {identity : BrokerIdentity}
    {action : BrokerAction} (taken : brokerStep cfg s identity action = some next) :
    BrokerMove cfg s identity action next := by
  cases action with
  | upsertLease =>
      simp only [brokerStep, Option.some.injEq] at taken
      exact taken ▸ .leased
  | deleteLease =>
      simp only [brokerStep, Option.some.injEq] at taken
      exact taken ▸ .unleased
  | crash =>
      simp only [brokerStep, Option.some.injEq] at taken
      exact taken ▸ .crashed
  | submit router job random =>
      simp only [brokerStep, submitBegin] at taken
      split at taken
      · simp at taken
      next id accepted =>
        split at taken <;> simp only [Option.some.injEq] at taken
        · exact taken ▸ .overloaded accepted
        · exact taken ▸ .counted accepted
  | poll id submitting =>
      simp only [brokerStep, Option.some.injEq] at taken
      exact taken ▸ .begun
  | sweepMark id =>
      simp only [brokerStep, sweepMark] at taken
      split at taken
      next expired =>
        simp only [Option.some.injEq] at taken
        exact taken ▸ .marked expired
      · simp at taken
  | sweepStart =>
      simp only [brokerStep, sweepStart] at taken
      split at taken
      · simp only [Option.some.injEq] at taken
        exact taken ▸ .started
      · simp at taken
  | sweepRemove =>
      simp only [brokerStep, sweepRemove] at taken
      split at taken
      · simp only [Option.some.injEq] at taken
        exact taken ▸ .rested
      next listed =>
        split at taken <;> simp only [Option.some.injEq] at taken
        next expired => exact taken ▸ .swept listed expired
        next => exact taken ▸ .passed listed
      · simp at taken
  | sweepCount =>
      simp only [brokerStep, sweepCount] at taken
      split at taken
      next removed =>
        simp only [Option.some.injEq] at taken
        exact taken ▸ .uncounted removed
      · simp at taken
  | sweepDelete =>
      simp only [brokerStep, sweepDelete] at taken
      split at taken
      next deleting =>
        simp only [Option.map_eq_some_iff] at taken
        obtain ⟨inst, present, eq⟩ := taken
        split at eq
        next persisted => exact eq ▸ .deleted deleting present persisted
        next volatile => exact eq ▸ .undeleted deleting present (by simpa using volatile)
      · simp at taken
  | cleanupDelete =>
      simp only [brokerStep, cleanupDelete] at taken
      split at taken
      next listed =>
        simp only [Option.some.injEq] at taken
        exact taken ▸ .cleaned listed
      · simp at taken

theorem brokerStep_sweep {cfg : Config} {s next : Cluster} {identity : BrokerIdentity}
    {action : BrokerAction} (taken : brokerStep cfg s identity action = some next)
    (sweeps : action = .sweepStart ∨ action = .sweepRemove) :
    (s.brokers identity.brokerId).sweep = .collecting ∨
      (s.brokers identity.brokerId).sweep = .processing := by
  rcases sweeps with rfl | rfl
  · simp only [brokerStep, sweepStart] at taken
    split at taken
    next idle => exact Or.inl idle
    · simp at taken
  · simp only [brokerStep, sweepRemove] at taken
    split at taken
    next idle _ => exact Or.inr idle
    next idle _ => exact Or.inr idle
    · simp at taken

inductive ClusterMove (cfg : Config) (s : Cluster) : ClusterAction → Cluster → Prop
  | advanced {elapsed} : ClusterMove cfg s (.advance elapsed) { s with now := s.now + elapsed }
  | broker {identity action next} : (s.brokers identity.brokerId).crashed = false →
      BrokerMove cfg s identity action next → ClusterMove cfg s (.broker identity action) next
  | duplicate {k submission deadline i} : s.submits[k]? = some submission →
      submission.pc = .counted deadline →
      (s.brokers submission.broker).jobs.lookup submission.job.id = some i →
      ClusterMove cfg s (.submitInsert k) { s.uncount submission.broker with
        submits := s.submits.set k { submission with pc := .overloaded } }
  | accepted {k submission deadline} : s.submits[k]? = some submission →
      submission.pc = .counted deadline →
      (s.brokers submission.broker).jobs.lookup submission.job.id = none →
      ClusterMove cfg s (.submitInsert k) { s.insertJob (submittedInstance submission.job
          submission.broker submission.router none false deadline) with
        submits := s.submits.set k { submission with pc := .accepted } }
  | poll {p poll event next} : s.polls[p]? = some poll → PollMove cfg s p poll event next →
      ClusterMove cfg s (.pollEvent p event) next
  | task {i inst event next} : s.instances[i]? = some inst → TaskMove cfg s i inst next →
      ClusterMove cfg s (.taskEvent i event) next

theorem clusterStep_move {cfg : Config} {s next : Cluster} {action : ClusterAction}
    (taken : clusterStep cfg s action = some next) : ClusterMove cfg s action next := by
  cases action with
  | advance elapsed =>
      simp only [clusterStep, Option.some.injEq] at taken
      exact taken ▸ .advanced
  | broker identity action =>
      simp only [clusterStep] at taken
      split at taken
      · simp at taken
      next alive => exact .broker (by simpa using alive) (brokerStep_move taken)
  | submitInsert k =>
      simp only [clusterStep, Option.bind_eq_some_iff] at taken
      obtain ⟨submission, present, taken⟩ := taken
      unfold submitInsert at taken
      dsimp only at taken
      split at taken
      · simp at taken
      · split at taken
        next deadline counted =>
          split at taken <;> simp only [Option.some.injEq] at taken
          next i held => exact taken ▸ .duplicate present counted held
          next absent => exact taken ▸ .accepted present counted absent
        · simp at taken
  | pollEvent p event =>
      simp only [clusterStep, Option.bind_eq_some_iff] at taken
      obtain ⟨poll, present, taken⟩ := taken
      exact .poll present (pollEvent_move taken)
  | taskEvent i event =>
      simp only [clusterStep, Option.bind_eq_some_iff] at taken
      obtain ⟨inst, present, taken⟩ := taken
      exact .task present (taskEvent_move taken)

end BitsBroker
