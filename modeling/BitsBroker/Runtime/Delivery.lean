import BitsBroker.Runtime.Ownership

/-!
Delivery on one broker. A result is handed to the poll that takes it out of its slot;
the map entry and the durable record go away in later steps. `Careful` names the two
windows this leaves: a result may be taken only from the instance the job map holds and
while no poll of the job is between its claim and its re-submission, and once a result
is taken no claim may still find the record. In runs that keep out of both windows a
job is delivered at most once and is never run again afterwards.
-/

namespace BitsBroker

open RequestId Cluster Table Transition

def OneBroker (b : String) : ClusterAction → Prop
  | .broker identity _ => identity.brokerId = b
  | _ => True

def PollPc.direct (b : String) : PollPc → Prop
  | .leaseOf owner => owner ≠ b
  | .ownerLease _ | .proxy _ | .probe => False
  | _ => True

structure Solo (b : String) (s : Cluster) : Prop where
  submits (k : Nat) (submission : Submit) : s.submits[k]? = some submission →
    submission.broker = b
  polls (p : Nat) (poll : Poll) : s.polls[p]? = some poll → poll.broker = b ∧ poll.pc.direct b
  launches (i : Nat) (launch : Launch) : s.launches[i]? = some launch → launch.broker = b
  records (id : String) (record : PersistentJobRecord) : s.store.recordOf id = some record →
    record.brokerId = b
  leases (owner : String) (lease : BrokerLeaseRecord) :
    s.store.getBrokerLease owner = some lease → owner = b

theorem lookupOwnerLease_active {divF64 : Nat → Nat} {store : MemoryStore} {owner : String}
    {now : Nat} {lease : BrokerLeaseRecord}
    (active : lookupOwnerLease divF64 store owner now = .active lease) :
    store.getBrokerLease owner = some lease := by
  unfold lookupOwnerLease at active
  split at active
  next found =>
    split at active
    · simp only [LeaseLookup.active.injEq] at active
      rw [found, active]
    · simp at active
  · simp at active

theorem claimEffect_leases {store next : MemoryStore} {id expected claimant : String}
    {result : ClaimResult}
    (effect : MemoryStore.ClaimEffect store id expected claimant result next) :
    next.brokers = store.brokers := by
  cases effect <;> rfl

theorem deleteRecord_leases (s : Cluster) (id : String) :
    (s.deleteRecord id).store.brokers = s.store.brokers := by
  unfold deleteRecord MemoryStore.deleteJob
  split
  next store ok =>
    split at ok
    · simp at ok
    · simp only [Except.ok.injEq] at ok
      subst ok
      rfl
  · rfl

section Solo

variable {cfg : Config} {s next : Cluster} {action : ClusterAction} {b : String}

theorem pollMove_leases {p : Nat} {poll : Poll} {event : PollEvent}
    (move : PollMove cfg s p poll event next) : next.store.brokers = s.store.brokers := by
  cases move with
  | claimed _ answered => exact claimEffect_leases (MemoryStore.claimIfOwner_effect answered)
  | probed _ answered _ => exact claimEffect_leases (MemoryStore.claimIfOwner_effect answered)
  | _ => rfl

theorem taskMove_leases {i : Nat} {inst : Instance} (move : TaskMove cfg s i inst next) :
    next.store.brokers = s.store.brokers := by
  cases move with
  | upserted _ written =>
      unfold MemoryStore.upsertJob at written
      split at written
      · simp at written
      · simp only [Except.ok.injEq] at written
        subst written
        rfl
  | _ => rfl

theorem brokerMove_leases {identity : BrokerIdentity} {label : BrokerAction} {owner : String}
    {lease : BrokerLeaseRecord} (move : BrokerMove cfg s identity label next)
    (held : next.store.getBrokerLease owner = some lease) :
    owner = identity.brokerId ∨ s.store.getBrokerLease owner = some lease := by
  unfold MemoryStore.getBrokerLease at *
  cases move with
  | leased =>
      simp only [MemoryStore.upsertBrokerLease, HashMap.lookup_insert_eq] at held
      split at held
      next same => exact Or.inl same
      next => exact Or.inr held
  | unleased =>
      simp only [MemoryStore.deleteBrokerLease, HashMap.lookup_erase_eq] at held
      split at held
      · simp at held
      · exact Or.inr held
  | deleted _ _ _ | cleaned _ =>
      rw [deleteRecord_leases] at held
      exact Or.inr held
  | _ => exact Or.inr held

theorem Solo.leases_step (solo : Solo b s) (one : OneBroker b action)
    (move : ClusterMove cfg s action next) (owner : String) (lease : BrokerLeaseRecord)
    (held : next.store.getBrokerLease owner = some lease) : owner = b := by
  cases move with
  | broker _ move =>
      rcases brokerMove_leases move held with rfl | kept
      · exact one
      · exact solo.leases owner lease kept
  | poll _ move =>
      unfold MemoryStore.getBrokerLease at held
      rw [pollMove_leases move] at held
      exact solo.leases owner lease held
  | task _ move =>
      unfold MemoryStore.getBrokerLease at held
      rw [taskMove_leases move] at held
      exact solo.leases owner lease held
  | _ => exact solo.leases owner lease held

theorem claimedPc_direct (solo : Solo b s) {poll : Poll} {owner : String} {result : ClaimResult}
    {store : MemoryStore} (here : poll.broker = b)
    (effect : MemoryStore.ClaimEffect s.store poll.id owner poll.broker result store) :
    (claimedPc s poll owner result).direct b := by
  cases effect with
  | active stored foreign _ => exact absurd (solo.records _ _ stored) (here ▸ foreign)
  | _ => trivial

theorem pollMove_direct (solo : Solo b s) {p : Nat} {poll later : Poll} {event : PollEvent}
    (polled : s.polls[p]? = some poll) (move : PollMove cfg s p poll event next)
    (present : next.polls[p]? = some later) : later.pc.direct b := by
  obtain ⟨here, direct⟩ := solo.polls p poll polled
  cases move with
  | missed _ _ =>
      rw [pc_of_set present]
      unfold pollMiss
      repeat' split
      all_goals simp_all [PollPc.direct]
  | pending _ _ =>
      rw [pc_of_set present]
      trivial
  | woken _ =>
      rw [pc_of_set present]
      split <;> trivial
  | leaseActive at_ active =>
      have held := solo.leases _ _ (lookupOwnerLease_active active)
      rcases at_ with at_ | at_ <;> rw [at_] at direct
      · exact absurd held direct
      · exact direct.elim
  | claimed _ answered =>
      rw [pc_of_set present]
      exact claimedPc_direct solo here (MemoryStore.claimIfOwner_effect answered)
  | probing at_ =>
      rw [at_] at direct
      exact direct.elim
  | _ =>
      rw [pc_of_set present]
      trivial

theorem Solo.step (solo : Solo b s) (wf : OwnershipWf s) (one : OneBroker b action)
    (taken : clusterStep cfg s action = some next) : Solo b next := by
  have move := clusterStep_move taken
  have submits := clusterMove_submits move
  have grown := clusterMove_growth move
  constructor
  · intro k submission present
    generalize next.submits = later at submits present
    cases submits with
    | same _ => exact solo.submits k submission present
    | begun _ named =>
        rcases getElem?_of_snoc present with kept | ⟨_, rfl⟩
        · exact solo.submits k submission kept
        · exact named.trans one
    | @settled l settled _ known _ =>
        rcases getElem?_of_set present with ⟨_, rfl⟩ | ⟨_, kept⟩
        · exact solo.submits l settled known
        · exact solo.submits k submission kept
  · intro p poll present
    cases clusterMove_polls move present with
    | same kept => exact solo.polls p poll kept
    | begun _ => exact ⟨one, trivial⟩
    | @moved before _ _ known step _ =>
        exact ⟨(solo.polls p before known).1, pollMove_direct solo known step present⟩
  · intro i launch present
    generalize next.launches = later at grown present
    cases grown with
    | same => exact solo.launches i launch present
    | submitted known _ =>
        rcases getElem?_of_snoc present with kept | ⟨_, rfl⟩
        · exact solo.launches i launch kept
        · exact solo.submits _ _ known
    | restored known _ =>
        rcases getElem?_of_snoc present with kept | ⟨_, rfl⟩
        · exact solo.launches i launch kept
        · exact (solo.polls _ _ known).1
  · intro id record stored
    have change := clusterMove_store move id
    rw [stored] at change
    generalize same : some record = later at change
    generalize next.writer id = writer at change
    cases change with
    | same => exact solo.records id record same.symm
    | deleted => simp at same
    | transferred known _ _ _ _ =>
        simp only [Option.some.injEq] at same
        exact same ▸ (solo.polls _ _ known).1
    | probed before probe =>
        exact absurd (probe ▸ wf.recordNamed id _ before) not_isIdentity_probe
    | written known _ _ =>
        simp only [Option.some.injEq] at same
        exact same ▸ solo.launches _ _ (launches_of_instance known)
  · exact solo.leases_step one move

theorem Solo.initial (b : String) (now : Nat) : Solo b (Cluster.new now) := by
  constructor
  · intro k submission present
    simp [Cluster.new] at present
  · intro p poll present
    simp [Cluster.new] at present
  · intro i launch present
    simp [Cluster.new, Cluster.launches] at present
  · intro other record stored
    simp [Cluster.new, recordOf_new] at stored
  · intro owner lease held
    simp [Cluster.new, MemoryStore.new, MemoryStore.getBrokerLease] at held

theorem Solo.of_path {now : Nat} {actions : List ClusterAction}
    {allowed : Cluster → ClusterAction → Prop}
    (one : ∀ state action, allowed state action → OneBroker b action)
    (path : Path (clusterStep cfg) allowed (Cluster.new now) actions s) : Solo b s := by
  induction path with
  | nil => exact Solo.initial b now
  | snoc path permitted taken ih => exact ih.step (OwnershipWf.of_path path) (one _ _ permitted) taken

end Solo

def PollPc.delivers : PollPc → Bool
  | .remove _ _ | .uncount _ _ | .cleanup _ _ => true
  | .leave _ outcome | .finished outcome => outcome.any PollOutcome.isReady
  | _ => false

def Delivering (s : Cluster) (p : Nat) (id : String) : Prop :=
  ∃ poll, s.polls[p]? = some poll ∧ poll.id = id ∧ poll.pc.delivers = true

def Taken (s : Cluster) (id : String) : Prop := ∃ p, Delivering s p id

structure Careful (b id : String) (s : Cluster) (action : ClusterAction) : Prop where
  broker : OneBroker b action
  fresh : SubmitsFresh s action id
  take (p : Nat) (poll : Poll) (i : Nat) : action = .pollEvent p .step →
    s.polls[p]? = some poll → poll.id = id → takesFrom s poll = some i →
    (s.brokers b).jobs.lookup id = some i ∧
      ∀ (q : Nat) other, s.polls[q]? = some other → other.id = id → other.pc.carrying = none
  claim (p : Nat) (poll : Poll) (owner : String) : action = .pollEvent p .step →
    s.polls[p]? = some poll → poll.id = id → poll.pc = .claim owner → Taken s id →
    s.store.recordOf id = none

structure Consumed (b id : String) (s : Cluster) (i : Nat) : Prop where
  spent : ∃ inst, s.instances[i]? = some inst ∧ inst.job.id = id ∧ inst.result = none ∧
    inst.task = .done
  mapped (j : Nat) : (s.brokers b).jobs.lookup id = some j → j = i
  idle (q : Nat) (poll : Poll) : s.polls[q]? = some poll → poll.id = id →
    poll.pc.carrying = none
  unique (p q : Nat) : Delivering s p id → Delivering s q id → p = q

def ResultsDone (s : Cluster) : Prop :=
  ∀ (i : Nat) (inst : Instance) (result : JobResult), s.instances[i]? = some inst →
    inst.result = some result → inst.task = .done

def WaitingAlone (id : String) (s : Cluster) : Prop :=
  ∀ (k i : Nat) (launch : Launch), Waiting s k id → s.launches[i]? = some launch →
    launch.job.id ≠ id

def LaunchesKnown (id : String) (s : Cluster) : Prop :=
  ∀ (i : Nat) (launch : Launch), s.launches[i]? = some launch → launch.job.id = id → Known s id

structure DeliveryWf (b id : String) (s : Cluster) : Prop where
  finished (i : Nat) (inst : Instance) (result : JobResult) : s.instances[i]? = some inst →
    inst.result = some result → inst.task = .done
  waiting (k i : Nat) (launch : Launch) : Waiting s k id → s.launches[i]? = some launch →
    launch.job.id ≠ id
  known (i : Nat) (launch : Launch) : s.launches[i]? = some launch → launch.job.id = id →
    Known s id
  consumed : Taken s id → ∃ i, Consumed b id s i

inductive InstanceStep (inst later : Instance) : Prop
  | same : later.result = inst.result → later.task = inst.task → InstanceStep inst later
  | emptied : later.result = none → later.task = inst.task → InstanceStep inst later
  | running : inst.task ≠ .done → later.result = inst.result → InstanceStep inst later
  | done : inst.task ≠ .done → later.task = .done → InstanceStep inst later

section Step

variable {cfg : Config} {s next : Cluster} {action : ClusterAction} {b id : String}

theorem instanceStep_of_set {i j : Nat} {inst value later : Instance}
    (known : s.instances[i]? = some inst)
    (present : (s.instances.set i value)[j]? = some later) (step : InstanceStep inst value) :
    ∃ before, s.instances[j]? = some before ∧ InstanceStep before later := by
  rcases getElem?_of_set present with ⟨rfl, rfl⟩ | ⟨_, kept⟩
  · exact ⟨inst, known, step⟩
  · exact ⟨later, kept, .same rfl rfl⟩

theorem taskMove_instance {i j : Nat} {inst later : Instance}
    (known : s.instances[i]? = some inst) (move : TaskMove cfg s i inst next)
    (present : next.instances[j]? = some later) :
    ∃ before, s.instances[j]? = some before ∧ InstanceStep before later := by
  cases move with
  | stored task => exact instanceStep_of_set known present (.done (by simp [task]) rfl)
  | started task | elapsed task _ _ | skipped task | marked task | resolved task
  | upserted task _ | upsertFailed task | persisted task =>
      exact instanceStep_of_set known present (.running (by simp [task]) rfl)

theorem clusterMove_instance {j : Nat} {later : Instance} (move : ClusterMove cfg s action next)
    (present : next.instances[j]? = some later) :
    (∃ before, s.instances[j]? = some before ∧ InstanceStep before later) ∨
      j = s.instances.length ∧ later.result = none := by
  cases move with
  | accepted _ _ _ =>
      rcases getElem?_of_snoc present with kept | ⟨last, rfl⟩
      · exact Or.inl ⟨later, kept, .same rfl rfl⟩
      · exact Or.inr ⟨last, rfl⟩
  | broker _ move =>
      rw [brokerMove_instances move] at present
      exact Or.inl ⟨later, present, .same rfl rfl⟩
  | poll _ move =>
      cases move with
      | connected _ known | left _ known =>
          exact Or.inl (instanceStep_of_set known present (.same rfl rfl))
      | took _ known _ _ =>
          exact Or.inl (instanceStep_of_set known present (.emptied rfl rfl))
      | restored _ _ =>
          rcases getElem?_of_snoc present with kept | ⟨last, rfl⟩
          · exact Or.inl ⟨later, kept, .same rfl rfl⟩
          · exact Or.inr ⟨last, rfl⟩
      | _ => exact Or.inl ⟨later, present, .same rfl rfl⟩
  | task known move => exact Or.inl (taskMove_instance known move present)
  | _ => exact Or.inl ⟨later, present, .same rfl rfl⟩

theorem ResultsDone.step (done : ResultsDone s) (move : ClusterMove cfg s action next) :
    ResultsDone next := by
  intro i inst result present stored
  rcases clusterMove_instance move present with ⟨before, known, step⟩ | ⟨_, empty⟩
  · cases step with
    | same sameResult sameTask =>
        rw [sameTask]
        exact done i before result known (sameResult ▸ stored)
    | emptied empty _ => simp [empty] at stored
    | running busy sameResult =>
        exact absurd (done i before result known (sameResult ▸ stored)) busy
    | done _ finished => exact finished
  · simp [empty] at stored

theorem restored_launch_known (wf : ClusterWf cfg s) {p : Nat} {poll : Poll}
    {record : PersistentJobRecord} {source : Option Nat} {deadline : Nat}
    (polled : s.polls[p]? = some poll) (pc : poll.pc = .insert record source deadline) :
    (Job.restore record).id = poll.id ∧
      ∃ (w : Nat) (launch : Launch), s.launches[w]? = some launch ∧ launch.job.id = poll.id := by
  obtain ⟨written, _⟩ := wf.carried p poll record source polled (by rw [pc]; rfl)
  refine ⟨written.jobId, ?_⟩
  obtain ⟨w, launch, _, present, _, sameId, _⟩ := written
  exact ⟨w, launch, present, sameId⟩

theorem LaunchesKnown.step (known : LaunchesKnown id s) (cluster : ClusterWf cfg s)
    (move : ClusterMove cfg s action next) : LaunchesKnown id next := by
  intro i launch present sameId
  refine Known.keep move ?_
  have grown := clusterMove_growth move
  generalize next.launches = later at grown present
  cases grown with
  | same => exact known i launch present sameId
  | @submitted k submission _ found _ =>
      rcases getElem?_of_snoc present with kept | ⟨_, rfl⟩
      · exact known i launch kept sameId
      · exact ⟨submission, List.mem_of_getElem? found, sameId⟩
  | restored polled pc =>
      rcases getElem?_of_snoc present with kept | ⟨_, rfl⟩
      · exact known i launch kept sameId
      · obtain ⟨restoredId, w, first, found, firstId⟩ := restored_launch_known cluster polled pc
        exact known w first found (firstId.trans (restoredId.symm.trans sameId))

theorem WaitingAlone.step (alone : WaitingAlone id s) (known : LaunchesKnown id s)
    (cluster : ClusterWf cfg s) (writer : SingleWriter id s) (fresh : SubmitsFresh s action id)
    (move : ClusterMove cfg s action next) : WaitingAlone id next := by
  intro k i launch waiting present sameId
  have old : ∀ (j : Nat) earlier, s.launches[j]? = some earlier → earlier.job.id ≠ id := by
    intro j earlier found same
    rcases waiting_step fresh move waiting with ⟨before, _⟩ | ⟨_, unknown⟩
    · exact alone k j earlier before found same
    · exact unknown (known j earlier found same)
  have grown := clusterMove_growth move
  generalize next.launches = later at grown present
  cases grown with
  | same => exact old i launch present sameId
  | @submitted l submission deadline found counted =>
      rcases getElem?_of_snoc present with kept | ⟨_, rfl⟩
      · exact old i launch kept sameId
      · rcases waiting_step fresh move waiting with ⟨before, other⟩ | ⟨other, _⟩
        · obtain ⟨left, _, leftIn, leftId, _⟩ := before
          exact other (by rw [writer.once k l left submission leftIn found leftId sameId])
        · exact other l rfl
  | restored polled pc =>
      rcases getElem?_of_snoc present with kept | ⟨_, rfl⟩
      · exact old i launch kept sameId
      · obtain ⟨restoredId, w, first, found, firstId⟩ := restored_launch_known cluster polled pc
        exact old w first found (firstId.trans (restoredId.symm.trans sameId))

theorem no_launch_of_consumed {i : Nat} (wf : DeliveryWf b id s) (cluster : ClusterWf cfg s)
    (consumed : Consumed b id s i) (move : ClusterMove cfg s action next) {launch : Launch}
    (grown : next.launches = s.launches ++ [launch]) : launch.job.id ≠ id := by
  intro sameId
  obtain ⟨inst, present, instId, _, _⟩ := consumed.spent
  have growth := clusterMove_growth move
  rw [grown] at growth
  generalize same : s.launches ++ [launch] = later at growth
  cases growth with
  | same => simp at same
  | @submitted k submission deadline found counted =>
      simp only [List.append_cancel_left_eq, List.cons.injEq, and_true] at same
      subst same
      exact wf.waiting k i _ ⟨submission, deadline, found, sameId, counted⟩
        (launches_of_instance present) instId
  | @restored p poll record source deadline polled pc =>
      simp only [List.append_cancel_left_eq, List.cons.injEq, and_true] at same
      subst same
      obtain ⟨restoredId, _⟩ := restored_launch_known cluster polled pc
      have carrying := consumed.idle p poll polled (restoredId.symm.trans sameId)
      simp [pc, PollPc.carrying] at carrying

theorem Consumed.spent_step {i : Nat} (consumed : Consumed b id s i)
    (move : ClusterMove cfg s action next) :
    ∃ inst, next.instances[i]? = some inst ∧ inst.job.id = id ∧ inst.result = none ∧
      inst.task = .done := by
  obtain ⟨inst, present, sameId, empty, finished⟩ := consumed.spent
  obtain ⟨later, found, same⟩ :=
    instance_of_launch ((clusterMove_growth move).keeps (launches_of_instance present))
  have job : later.job = inst.job := congrArg Launch.job same
  refine ⟨later, found, job ▸ sameId, ?_⟩
  rcases clusterMove_instance move found with ⟨before, known, step⟩ | ⟨last, _⟩
  · rw [present] at known
    simp only [Option.some.injEq] at known
    subst known
    cases step with
    | same sameResult sameTask => exact ⟨sameResult.trans empty, sameTask.trans finished⟩
    | emptied isEmpty sameTask => exact ⟨isEmpty, sameTask.trans finished⟩
    | running busy _ | done busy _ => exact absurd finished busy
  · have bound := (List.getElem?_eq_some_iff.mp present).1
    omega

theorem pollMove_restore {p : Nat} {poll later : Poll} {event : PollEvent}
    {record : PersistentJobRecord} {source : Option Nat} (move : PollMove cfg s p poll event next)
    (present : next.polls[p]? = some later) (restoring : later.pc = .restore record source) :
    ∃ owner, poll.pc = .claim owner ∧ event = .step := by
  cases move with
  | claimed pc _ => exact ⟨_, pc, rfl⟩
  | @missed resumed _ _ =>
      rw [pc_of_set present] at restoring
      have idle := (pollMiss_idle poll resumed).2
      simp [restoring, PollPc.carrying] at idle
  | woken _ =>
      rw [pc_of_set present] at restoring
      split at restoring <;> simp at restoring
  | pending _ _ => simp [pc_of_set present, pollPending] at restoring
  | _ => simp [pc_of_set present] at restoring

theorem pollMove_delivers {p : Nat} {poll later : Poll} {event : PollEvent}
    (direct : poll.pc.direct b) (move : PollMove cfg s p poll event next)
    (present : next.polls[p]? = some later) (delivers : later.pc.delivers = true) :
    poll.pc.delivers = true ∨ ∃ i inst result, event = .step ∧
      (poll.pc = .check i ∨ poll.pc = .recheck i) ∧ s.instances[i]? = some inst ∧
      inst.result = some result ∧ takesFrom s poll = some i ∧
      next = pollTake s p poll i inst result := by
  cases move with
  | took pc known stored takes => exact Or.inr ⟨_, _, _, rfl, pc, known, stored, takes, rfl⟩
  | removed pc _ | alreadyRemoved pc _ | uncounted pc | scheduled pc _ _ | unscheduled pc _ _ =>
      exact Or.inl (by rw [pc]; rfl)
  | left pc _ =>
      rw [pc_of_set present] at delivers
      exact Or.inl (by rw [pc]; exact delivers)
  | missed _ _ =>
      rw [pc_of_set present] at delivers
      unfold pollMiss at delivers
      repeat' split at delivers
      all_goals simp [PollPc.delivers, PollOutcome.queued, PollOutcome.isReady] at delivers
  | woken _ =>
      rw [pc_of_set present] at delivers
      split at delivers <;> simp [PollPc.delivers] at delivers
  | pending _ _ =>
      simp [pc_of_set present, pollPending, PollPc.delivers, PollOutcome.isReady] at delivers
  | @claimed owner result _ _ _ =>
      rw [pc_of_set present] at delivers
      cases result <;> simp only [claimedPc] at delivers
      · split at delivers <;> simp [PollPc.delivers, PollOutcome.isReady] at delivers
      · split at delivers <;>
          simp [PollPc.delivers, PollOutcome.queued, PollOutcome.isReady] at delivers
      · simp [PollPc.delivers] at delivers
  | gaveUp _ answered =>
      rw [pc_of_set present] at delivers
      rcases answered with never | ⟨lease, proxied⟩
      · obtain ⟨outcome, is, ready⟩ := (Option.any_eq_true _ _).mp delivers
        cases outcome <;> simp_all [PollOutcome.isReady]
      · simp [proxied, PollPc.direct] at direct
  | @probed _ _ outcome _ _ never =>
      rw [pc_of_set present] at delivers
      cases outcome <;> simp_all [PollPc.delivers, PollOutcome.isReady]
  | disconnected _ => simp [pc_of_set present, PollPc.delivers] at delivers
  | _ => simp [pc_of_set present, PollPc.delivers] at delivers

def Takes (s next : Cluster) (action : ClusterAction) (p : Nat) (id : String) : Prop :=
  ∃ poll i inst result, action = .pollEvent p .step ∧ s.polls[p]? = some poll ∧ poll.id = id ∧
    (poll.pc = .check i ∨ poll.pc = .recheck i) ∧ s.instances[i]? = some inst ∧
    inst.result = some result ∧ takesFrom s poll = some i ∧
    next = pollTake s p poll i inst result

theorem delivering_step (solo : Solo b s) (move : ClusterMove cfg s action next) {p : Nat}
    (delivering : Delivering next p id) : Delivering s p id ∨ Takes s next action p id := by
  obtain ⟨poll, present, sameId, delivers⟩ := delivering
  cases clusterMove_polls move present with
  | same kept => exact Or.inl ⟨poll, kept, sameId, delivers⟩
  | begun _ => simp [PollPc.delivers] at delivers
  | @moved before event pc known step _ =>
      rcases pollMove_delivers (solo.polls p before known).2 step present delivers with
        already | ⟨i, inst, result, rfl, at_, found, stored, takes, eq⟩
      · exact Or.inl ⟨before, known, sameId, already⟩
      · exact Or.inr ⟨before, i, inst, result, rfl, known, sameId, at_, found, stored, takes, eq⟩

theorem Consumed.idle_step {i : Nat} (consumed : Consumed b id s i) (taken : Taken s id)
    (careful : Careful b id s action) (move : ClusterMove cfg s action next) (q : Nat)
    (poll : Poll) (present : next.polls[q]? = some poll) (sameId : poll.id = id) :
    poll.pc.carrying = none := by
  cases clusterMove_polls move present with
  | same kept => exact consumed.idle q poll kept sameId
  | begun _ => rfl
  | @moved before event pc known step change =>
      cases change with
      | idle _ empty => exact empty
      | kept _ same => exact same.trans (consumed.idle q before known sameId)
      | found _ eq =>
          rw [eq]
          rfl
      | claimed stored _ eq =>
          obtain ⟨owner, claiming, rfl⟩ := pollMove_restore step present eq
          have gone := careful.claim q before owner rfl known sameId claiming taken
          have store := clusterMove_store move before.id
          simp only at sameId
          rw [stored, sameId] at store
          generalize same : some _ = later at store
          generalize next.writer id = writer at store
          cases store with
          | same => simp [gone] at same
          | deleted => simp at same
          | transferred _ _ _ found _ | probed found _ => simp [gone] at found

theorem Consumed.step {i : Nat} (wf : DeliveryWf b id s) (cluster : ClusterWf cfg s)
    (solo : Solo b s) (consumed : Consumed b id s i) (taken : Taken s id)
    (careful : Careful b id s action) (move : ClusterMove cfg s action next) :
    Consumed b id next i := by
  have old : ∀ {p}, Delivering next p id → Delivering s p id := by
    intro p delivering
    rcases delivering_step solo move delivering with before | again
    · exact before
    · obtain ⟨poll, j, inst, result, is, polled, sameId, _, present, stored, takes, _⟩ := again
      have here := consumed.mapped j (careful.take p poll j is polled sameId takes).1
      subst here
      obtain ⟨spent, found, _, empty, _⟩ := consumed.spent
      rw [present] at found
      simp only [Option.some.injEq] at found
      subst found
      simp [empty] at stored
  refine ⟨consumed.spent_step move, ?_, consumed.idle_step taken careful move, ?_⟩
  · intro j held
    rcases clusterMove_jobs move held with kept | ⟨_, launch, grown, sameId, _⟩
    · exact consumed.mapped j kept
    · exact absurd sameId (no_launch_of_consumed wf cluster consumed move grown)
  · intro p q left right
    exact consumed.unique p q (old left) (old right)

theorem consumed_of_takes (wf : DeliveryWf b id s) (cluster : ClusterWf cfg s) (solo : Solo b s)
    (untaken : ¬ Taken s id) (careful : Careful b id s action)
    (move : ClusterMove cfg s action next) {p : Nat} (takes : Takes s next action p id) :
    ∃ i, Consumed b id next i := by
  obtain ⟨poll, i, inst, result, is, polled, sameId, at_, present, stored, from_, eq⟩ := takes
  obtain ⟨mapped, idle⟩ := careful.take p poll i is polled sameId from_
  have bound := (List.getElem?_eq_some_iff.mp present).1
  have holding : poll.pc.holding = some i := by rcases at_ with at_ | at_ <;> rw [at_] <;> rfl
  obtain ⟨launch, launched, launchId, _⟩ := cluster.polled p poll i polled holding
  have job : inst.job.id = id := by
    rw [launches_of_instance present] at launched
    simp only [Option.some.injEq] at launched
    subst launched
    exact launchId.trans sameId
  have only : ∀ {q}, Delivering next q id → q = p := by
    intro q delivering
    rcases delivering_step solo move delivering with before | again
    · exact absurd ⟨q, before⟩ untaken
    · obtain ⟨_, _, _, _, same, _⟩ := again
      rw [is] at same
      simp only [ClusterAction.pollEvent.injEq, and_true] at same
      exact same.symm
  subst eq
  refine ⟨i, ⟨{ inst with result := none }, ?_, job, rfl, wf.finished i inst result present stored⟩,
    ?_, ?_, ?_⟩
  · simp [pollTake, bound]
  · intro j held
    rw [show (pollTake s p poll i inst result).brokers = s.brokers from rfl, mapped] at held
    simpa using held.symm
  · intro q other found otherId
    rcases getElem?_of_set found with ⟨_, rfl⟩ | ⟨_, kept⟩
    · rfl
    · exact idle q other kept otherId
  · intro q r left right
    rw [only left, only right]

theorem DeliveryWf.step (wf : DeliveryWf b id s) (cluster : ClusterWf cfg s)
    (writer : SingleWriter id s) (solo : Solo b s) (careful : Careful b id s action)
    (taken : clusterStep cfg s action = some next) : DeliveryWf b id next := by
  have move := clusterStep_move taken
  constructor
  · exact ResultsDone.step wf.finished move
  · exact WaitingAlone.step wf.waiting wf.known cluster writer careful.fresh move
  · exact LaunchesKnown.step wf.known cluster move
  · rintro ⟨p, delivering⟩
    by_cases before : Taken s id
    · obtain ⟨i, consumed⟩ := wf.consumed before
      exact ⟨i, consumed.step wf cluster solo before careful move⟩
    · rcases delivering_step solo move delivering with already | takes
      · exact absurd ⟨p, already⟩ before
      · exact consumed_of_takes wf cluster solo before careful move takes

theorem pollMove_keeps_delivers {p : Nat} {poll later : Poll} {event : PollEvent}
    (delivers : poll.pc.delivers = true) (move : PollMove cfg s p poll event next)
    (present : next.polls[p]? = some later) : later.pc.delivers = true := by
  cases move with
  | left pc _ =>
      rw [pc] at delivers
      rw [pc_of_set present]
      exact delivers
  | removed _ _ | alreadyRemoved _ _ | uncounted _ | scheduled _ _ _ | unscheduled _ _ _
  | took _ _ _ _ =>
      rw [pc_of_set present]
      rfl
  | gaveUp remote _ =>
      cases pc : poll.pc <;> simp [pc, PollPc.isRemote, PollPc.delivers] at remote delivers
  | pending pc _ => rcases pc with pc | pc | pc <;> simp [pc, PollPc.delivers] at delivers
  | leaseActive pc _ => rcases pc with pc | pc <;> simp [pc, PollPc.delivers] at delivers
  | found pc _ | missed pc _ | connected pc _ | parked pc _ _ | woken pc | disconnected pc
  | leaseDead pc _ | claimed pc _ | retried pc | counted pc | duplicate pc _ | restored pc _
  | probing pc | probed pc _ _ => simp [pc, PollPc.delivers] at delivers

theorem clusterMove_polls_length (move : ClusterMove cfg s action next) :
    s.polls.length ≤ next.polls.length := by
  cases move with
  | broker _ move => cases move <;> simp
  | poll _ move =>
      obtain ⟨pc, moved, _⟩ := pollMove_pc move
      simp [moved]
  | task _ move => rw [taskMove_polls move]
  | _ => exact Nat.le_refl _

theorem Taken.keep (taken : Taken s id) (move : ClusterMove cfg s action next) :
    Taken next id := by
  obtain ⟨p, poll, polled, sameId, delivers⟩ := taken
  have bound := (List.getElem?_eq_some_iff.mp polled).1
  have grown := clusterMove_polls_length move
  obtain ⟨later, present⟩ : ∃ later, next.polls[p]? = some later :=
    ⟨_, List.getElem?_eq_getElem (by omega)⟩
  refine ⟨p, later, present, ?_⟩
  cases clusterMove_polls move present with
  | same kept =>
      rw [polled] at kept
      simp only [Option.some.injEq] at kept
      subst kept
      exact ⟨sameId, delivers⟩
  | begun last => omega
  | @moved before event pc known step _ =>
      rw [polled] at known
      simp only [Option.some.injEq] at known
      subst known
      exact ⟨sameId, pollMove_keeps_delivers delivers step present⟩

structure DeliveryInv (cfg : Config) (b id : String) (s : Cluster) : Prop where
  cluster : ClusterWf cfg s
  owner : OwnershipWf s
  writer : SingleWriter id s
  solo : Solo b s
  delivery : DeliveryWf b id s

theorem DeliveryInv.step (inv : DeliveryInv cfg b id s) (careful : Careful b id s action)
    (taken : clusterStep cfg s action = some next) : DeliveryInv cfg b id next :=
  ⟨inv.cluster.step taken, inv.owner.step taken, inv.writer.step careful.fresh taken,
    inv.solo.step inv.owner careful.broker taken,
    inv.delivery.step inv.cluster inv.writer inv.solo careful taken⟩

end Step

theorem DeliveryInv.initial (cfg : Config) (b id : String) (now : Nat) :
    DeliveryInv cfg b id (Cluster.new now) := by
  refine ⟨ClusterWf.initial cfg now, OwnershipWf.initial now, SingleWriter.initial id now,
    Solo.initial b now, ?_⟩
  constructor
  · intro i inst result present
    simp [Cluster.new] at present
  · rintro k i launch _ present
    simp [Cluster.new, launches] at present
  · intro i launch present
    simp [Cluster.new, launches] at present
  · rintro ⟨p, poll, present, _⟩
    simp [Cluster.new] at present

def ReturnedReady (s : Cluster) (p : Nat) (id : String) : Prop :=
  ∃ poll result, s.polls[p]? = some poll ∧ poll.id = id ∧
    poll.pc = .finished (some (.ready result))

theorem ReturnedReady.delivering {s : Cluster} {p : Nat} {id : String}
    (returned : ReturnedReady s p id) : Delivering s p id := by
  obtain ⟨poll, result, present, sameId, pc⟩ := returned
  exact ⟨poll, present, sameId, by rw [pc]; rfl⟩

/-- No instance of the job at or past index `count`, in a state where its result is taken. -/
structure NoRerun (cfg : Config) (b id : String) (count : Nat) (s : Cluster) : Prop where
  inv : DeliveryInv cfg b id s
  taken : Taken s id
  old (i : Nat) (launch : Launch) : s.launches[i]? = some launch → launch.job.id = id → i < count

theorem NoRerun.step {cfg : Config} {b id : String} {count : Nat} {s next : Cluster}
    {action : ClusterAction} (before : NoRerun cfg b id count s)
    (careful : Careful b id s action) (taken : clusterStep cfg s action = some next) :
    NoRerun cfg b id count next := by
  have move := clusterStep_move taken
  refine ⟨before.inv.step careful taken, before.taken.keep move, ?_⟩
  intro i launch present sameId
  obtain ⟨spent, consumed⟩ := before.inv.delivery.consumed before.taken
  have fresh : ∀ {new}, next.launches = s.launches ++ [new] → new.job.id ≠ id :=
    no_launch_of_consumed before.inv.delivery before.inv.cluster consumed move
  have grown := clusterMove_growth move
  generalize next.launches = later at grown present fresh
  cases grown with
  | same => exact before.old i launch present sameId
  | submitted _ _ | restored _ _ =>
      rcases getElem?_of_snoc present with kept | ⟨_, rfl⟩
      · exact before.old i launch kept sameId
      · exact absurd sameId (fresh rfl)

/-- In a run of one broker whose steps are all `Careful` about a job submitted once, at most
one poll returns its result and no instance of the job is created after that. -/
theorem delivered_once_of_careful {cfg : Config} {b id : String} {now : Nat}
    {actions : List ClusterAction} {s : Cluster}
    (path : Path (clusterStep cfg) (Careful b id) (Cluster.new now) actions s) :
    (∀ p q, ReturnedReady s p id → ReturnedReady s q id → p = q) ∧
    ∀ p, ReturnedReady s p id → ∀ rest later,
      Path (clusterStep cfg) (Careful b id) s rest later →
      ∀ i inst, later.instances[i]? = some inst → inst.job.id = id → i < s.instances.length := by
  have inv : DeliveryInv cfg b id s := path.invariant (DeliveryInv.initial cfg b id now)
    fun _ _ _ before careful taken => before.step careful taken
  constructor
  · intro p q left right
    obtain ⟨i, consumed⟩ := inv.delivery.consumed ⟨p, left.delivering⟩
    exact consumed.unique p q left.delivering right.delivering
  · intro p returned rest later after i inst present sameId
    have start : NoRerun cfg b id s.instances.length s := by
      refine ⟨inv, ⟨p, returned.delivering⟩, ?_⟩
      intro j launch found _
      have bound := (List.getElem?_eq_some_iff.mp found).1
      simpa [launches] using bound
    have final : NoRerun cfg b id s.instances.length later :=
      after.invariant start fun _ _ _ before careful taken => before.step careful taken
    exact final.old i inst.launch (launches_of_instance present) sameId

def takenBool (s : Cluster) (id : String) : Bool :=
  s.polls.any fun poll => decide (poll.id = id) && poll.pc.delivers

def takeClear (b id : String) (s : Cluster) (poll : Poll) : Bool :=
  (takesFrom s poll).all fun i =>
    decide ((s.brokers b).jobs.lookup id = some i) &&
      s.polls.all fun other => decide (other.id ≠ id) || other.pc.carrying.isNone

def claimClear (id : String) (s : Cluster) (poll : Poll) : Bool :=
  match poll.pc with
  | .claim _ => !takenBool s id || (s.store.recordOf id).isNone
  | _ => true

def careful (b id : String) (s : Cluster) (action : ClusterAction) : Bool :=
  submittedOnce s action && match action with
    | .broker identity _ => decide (identity.brokerId = b)
    | .pollEvent p .step => s.polls[p]?.all fun poll =>
        decide (poll.id ≠ id) || (takeClear b id s poll && claimClear id s poll)
    | _ => true

theorem takenBool_of_taken {s : Cluster} {id : String} (taken : Taken s id) :
    takenBool s id = true := by
  obtain ⟨p, poll, present, sameId, delivers⟩ := taken
  simp only [takenBool, List.any_eq_true, Bool.and_eq_true, decide_eq_true_eq]
  exact ⟨poll, List.mem_of_getElem? present, sameId, delivers⟩

theorem careful_sound (b id : String) (s : Cluster) (action : ClusterAction)
    (checked : careful b id s action = true) : Careful b id s action := by
  simp only [careful, Bool.and_eq_true] at checked
  obtain ⟨once, checked⟩ := checked
  have clear : ∀ p poll, action = .pollEvent p .step → s.polls[p]? = some poll → poll.id = id →
      takeClear b id s poll = true ∧ claimClear id s poll = true := by
    rintro p poll rfl polled sameId
    simpa [polled, sameId] using checked
  refine ⟨?_, submittedOnce_sound s action once id, ?_, ?_⟩
  · unfold OneBroker
    split
    · simpa using checked
    · trivial
  · intro p poll i is polled sameId takes
    have take := (clear p poll is polled sameId).1
    simp only [takeClear, takes, Option.all_some, Bool.and_eq_true, decide_eq_true_eq,
      List.all_eq_true, Bool.or_eq_true, Option.isNone_iff_eq_none] at take
    refine ⟨take.1, ?_⟩
    intro q other found otherId
    rcases take.2 other (List.mem_of_getElem? found) with different | empty
    · exact absurd otherId different
    · exact empty
  · intro p poll owner is polled sameId claiming taken
    have claim := (clear p poll is polled sameId).2
    simpa [claimClear, claiming, takenBool_of_taken taken] using claim

def returnedReady (s : Cluster) (p : Nat) (id : String) : Bool :=
  s.polls[p]?.any fun poll => decide (poll.id = id) && match poll.pc with
    | .finished (some (.ready _)) => true
    | _ => false

theorem returnedReady_sound {s : Cluster} {p : Nat} {id : String}
    (checked : returnedReady s p id = true) : ReturnedReady s p id := by
  obtain ⟨poll, present, checked⟩ := (Option.any_eq_true _ _).mp checked
  simp only [Bool.and_eq_true, decide_eq_true_eq] at checked
  obtain ⟨sameId, ready⟩ := checked
  split at ready
  next result pc => exact ⟨poll, result, present, sameId, pc⟩
  · simp at ready

namespace Scenario

def finishRun (i : Nat) : List ClusterAction :=
  [.taskEvent i (.resolve (.error "no data")), .taskEvent i .step]

def deliverOnce : List ClusterAction :=
  persistOn brokerA config.router ++ [.taskEvent 0 .step] ++ finishRun 0 ++
    [.broker brokerA (.poll jobId false)] ++ pollSteps 0 7

def deliverTwice : List ClusterAction :=
  deliverOnce ++ [.broker brokerA (.poll jobId false)] ++ pollSteps 1 4 ++
    [.taskEvent 1 .step] ++ finishRun 1 ++ pollSteps 1 7

end Scenario

open Scenario in
theorem delivered_once_of_careful_one_poll :
    ∃ s, Path (clusterStep config) (Careful brokerA.brokerId jobId) (Cluster.new 0) deliverOnce s ∧
      ReturnedReady s 0 jobId ∧
      (∀ p q, ReturnedReady s p jobId → ReturnedReady s q jobId → p = q) ∧
      ∀ p, ReturnedReady s p jobId → ∀ rest later,
        Path (clusterStep config) (Careful brokerA.brokerId jobId) s rest later →
        ∀ i inst, later.instances[i]? = some inst → inst.job.id = jobId →
          i < s.instances.length := by
  have ran : (run (fun s action => if careful brokerA.brokerId jobId s action
      then clusterStep config s action else none) (Cluster.new 0) deliverOnce).any
      (returnedReady · 0 jobId) = true := by decide +kernel
  obtain ⟨s, finished, ready⟩ := (Option.any_eq_true _ _).mp ran
  have path := Path.of_run_if (careful_sound brokerA.brokerId jobId) deliverOnce _ finished
  exact ⟨s, path, returnedReady_sound ready, delivered_once_of_careful path⟩

def OneBrokerOnce (b id : String) (s : Cluster) (action : ClusterAction) : Prop :=
  OneBroker b action ∧ SubmitsFresh s action id

def oneBrokerOnce (b : String) (s : Cluster) (action : ClusterAction) : Bool :=
  submittedOnce s action && match action with
    | .broker identity _ => decide (identity.brokerId = b)
    | _ => true

theorem oneBrokerOnce_sound (b id : String) (s : Cluster) (action : ClusterAction)
    (checked : oneBrokerOnce b s action = true) : OneBrokerOnce b id s action := by
  simp only [oneBrokerOnce, Bool.and_eq_true] at checked
  obtain ⟨once, checked⟩ := checked
  refine ⟨?_, submittedOnce_sound s action once id⟩
  unfold OneBroker
  split
  · simpa using checked
  · trivial

open Scenario in
theorem delivered_twice_before_cleanup :
    ∃ s, Path (clusterStep config) (OneBrokerOnce brokerA.brokerId jobId) (Cluster.new 0)
        deliverTwice s ∧ ReturnedReady s 0 jobId ∧ ReturnedReady s 1 jobId := by
  have ran : (run (fun s action => if oneBrokerOnce brokerA.brokerId s action
      then clusterStep config s action else none) (Cluster.new 0) deliverTwice).any
      (fun s => returnedReady s 0 jobId && returnedReady s 1 jobId) = true := by decide +kernel
  obtain ⟨s, finished, ready⟩ := (Option.any_eq_true _ _).mp ran
  simp only [Bool.and_eq_true] at ready
  exact ⟨s, Path.of_run_if (oneBrokerOnce_sound brokerA.brokerId jobId) deliverTwice _ finished,
    returnedReady_sound ready.1, returnedReady_sound ready.2⟩

end BitsBroker
