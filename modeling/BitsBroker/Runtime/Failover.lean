import BitsBroker.Runtime.Ownership

/-!
A poll that runs alone. From any state the poll comes to an end when no other party
moves, and what it recovers is decided by its first claim: the poll expects the owner
its identifier names, so it takes over a record whose owner is that broker, or one it
already owns and cannot proxy. A record whose owner was itself a claimant is not
recovered by anybody else.
-/

namespace BitsBroker

open RequestId Cluster Table Transition

def PollAlone (p : Nat) (_ : Cluster) (action : ClusterAction) : Prop :=
  ∃ event, action = .pollEvent p event ∧ event ≠ .drop ∧ ∀ retry, event ≠ .storeError retry

def Finished (p : Nat) (s : Cluster) : Prop :=
  ∃ poll outcome, s.polls[p]? = some poll ∧ poll.pc = .finished outcome

def PollPc.rank : PollPc → Nat
  | .lookup false => 17
  | .leaseOf _ => 16
  | .claim _ => 15
  | .restore _ _ => 14
  | .insert _ _ _ => 13
  | .lookup true => 12
  | .connect _ => 11
  | .check _ => 10
  | .wait _ => 9
  | .recheck _ => 8
  | .remove _ _ => 7
  | .uncount _ _ => 6
  | .cleanup _ _ => 5
  | .leave _ _ => 4
  | .ownerLease _ => 3
  | .proxy _ => 2
  | .probe => 1
  | .finished _ => 0

section Termination

variable {cfg : Config} {s next : Cluster} {p : Nat} {poll later : Poll} {event : PollEvent}

theorem pollMiss_rank (poll : Poll) (resumed : Bool) :
    (pollMiss poll resumed).rank < (PollPc.lookup resumed).rank := by
  unfold pollMiss
  cases resumed with
  | true => split <;> simp [PollPc.rank]
  | false =>
      split
      · simp [PollPc.rank]
      · simp only [Bool.false_eq_true, if_false]
        split
        · simp [PollPc.rank]
        · split <;> simp [PollPc.rank]

theorem claimedPc_rank (s : Cluster) (poll : Poll) (owner : String) (result : ClaimResult) :
    (claimedPc s poll owner result).rank < (PollPc.claim owner).rank := by
  cases result with
  | active current =>
      simp only [claimedPc]
      split <;> simp [PollPc.rank]
  | _ => simp [claimedPc, PollPc.rank]

theorem pollMove_rank (waits : poll.submitting = false)
    (quiet : ∀ retry, event ≠ .storeError retry) (move : PollMove cfg s p poll event next)
    (present : next.polls[p]? = some later) : later.pc.rank < poll.pc.rank := by
  cases move with
  | found pc _ =>
      rw [pc_of_set present, pc]
      cases ‹Bool› <;> simp [PollPc.rank]
  | missed pc _ =>
      rw [pc_of_set present, pc]
      exact pollMiss_rank poll _
  | took pc _ _ _ | leaseActive pc _ =>
      rw [pc_of_set present]
      rcases pc with pc | pc <;> simp [pc, PollPc.rank]
  | pending pc _ =>
      rw [pc_of_set present]
      rcases pc with pc | pc | pc <;> simp [pc, pollPending, PollPc.rank]
  | woken pc =>
      rw [pc_of_set present, pc, waits]
      simp [PollPc.rank]
  | claimed pc _ =>
      rw [pc_of_set present, pc]
      exact claimedPc_rank s poll _ _
  | retried _ => exact absurd rfl (quiet true)
  | gaveUp remote _ =>
      rw [pc_of_set present]
      cases pc : poll.pc <;> simp [pc, PollPc.isRemote] at remote <;> simp [PollPc.rank]
  | connected pc _ | parked pc _ _ | disconnected pc | removed pc _ | alreadyRemoved pc _
  | uncounted pc | scheduled pc _ _ | unscheduled pc _ _ | left pc _ | leaseDead pc _
  | counted pc | duplicate pc _ | restored pc _ | probing pc | probed pc _ _ =>
      rw [pc_of_set present, pc]
      simp [PollPc.rank]

theorem crashed_update (s : Cluster) (broker : String) (state : BrokerState)
    (same : state.crashed = (s.brokers broker).crashed) (b : String) :
    (Function.update s.brokers broker state b).crashed = (s.brokers b).crashed := by
  by_cases here : b = broker
  · subst here
    simpa using same
  · simp [here]

theorem pollMove_crashed (move : PollMove cfg s p poll event next) (b : String) :
    (next.brokers b).crashed = (s.brokers b).crashed := by
  cases move with
  | removed _ _ | uncounted _ | scheduled _ _ _ | counted _ | duplicate _ _ | restored _ _ =>
      refine crashed_update s _ _ ?_ b
      rfl
  | _ => rfl

theorem pollMove_poll (polled : s.polls[p]? = some poll)
    (move : PollMove cfg s p poll event next) :
    ∃ pc, next.polls[p]? = some { poll with pc := pc } ∧ PcChange s next poll pc := by
  obtain ⟨pc, moved, change⟩ := pollMove_pc move
  have bound := (List.getElem?_eq_some_iff.mp polled).1
  exact ⟨pc, by rw [moved]; simp [bound], change⟩

theorem pollEvent_enabled (wf : ClusterWf cfg s) (polled : s.polls[p]? = some poll)
    (alive : (s.brokers poll.broker).crashed = false)
    (unfinished : ∀ outcome, poll.pc ≠ .finished outcome) :
    ∃ event, event ≠ .drop ∧ (∀ retry, event ≠ .storeError retry) ∧
      (pollEvent cfg s p poll event).isSome = true := by
  have instanceOf : ∀ i, poll.pc.holding = some i → ∃ inst, s.instances[i]? = some inst := by
    intro i holding
    obtain ⟨launch, known, _⟩ := wf.polled p poll i polled holding
    obtain ⟨inst, present, _⟩ := instance_of_launch known
    exact ⟨inst, present⟩
  cases pc : poll.pc with
  | connect i | check i | recheck i | cleanup i _ | leave i _ =>
      obtain ⟨inst, present⟩ := instanceOf i (by rw [pc]; rfl)
      exact ⟨.step, by simp, by simp, by simp [pollEvent, alive, pc, present]⟩
  | wait i =>
      obtain ⟨inst, present⟩ := instanceOf i (by rw [pc]; rfl)
      exact ⟨.timeout, by simp, by simp, by simp [pollEvent, alive, pc, present]⟩
  | proxy lease => exact ⟨.answer none, by simp, by simp, by simp [pollEvent, alive, pc]⟩
  | finished outcome => exact absurd pc (unfinished outcome)
  | _ => exact ⟨.step, by simp, by simp, by simp [pollEvent, alive, pc]⟩

/-- A poll that is left to run alone comes to an end. -/
theorem poll_alone_finishes (wf : ClusterWf cfg s) (polled : s.polls[p]? = some poll)
    (alive : (s.brokers poll.broker).crashed = false) (waits : poll.submitting = false) :
    ∃ events last, Path (clusterStep cfg) (PollAlone p) s events last ∧ Finished p last := by
  generalize ranked : poll.pc.rank = rank
  induction rank using Nat.strong_induction_on generalizing s poll with
  | _ rank ih =>
      by_cases done : ∃ outcome, poll.pc = .finished outcome
      · obtain ⟨outcome, pc⟩ := done
        exact ⟨[], s, .nil, poll, outcome, polled, pc⟩
      · simp only [not_exists] at done
        obtain ⟨event, kept, quiet, enabled⟩ := pollEvent_enabled wf polled alive done
        obtain ⟨next, taken⟩ := Option.isSome_iff_exists.mp enabled
        have move := pollEvent_move taken
        obtain ⟨pc, present, _⟩ := pollMove_poll polled move
        have less := pollMove_rank waits quiet move present
        have stepped : clusterStep cfg s (.pollEvent p event) = some next := by
          simp [clusterStep, polled, taken]
        have stillAlive : (next.brokers poll.broker).crashed = false := by
          rw [pollMove_crashed move]
          exact alive
        obtain ⟨events, last, path, finished⟩ :=
          ih pc.rank (ranked ▸ less) (wf.step stepped) present stillAlive waits rfl
        exact ⟨.pollEvent p event :: events, last,
          path.cons ⟨event, rfl, kept, quiet⟩ stepped, finished⟩

end Termination

/-- The record of `id` belongs to `c`, whose job map holds a new instance of the job. -/
def RecoveredAt (s t : Cluster) (id c : String) (i : Nat) : Prop :=
  ∃ record inst, t.store.recordOf id = some record ∧ record.brokerId = c ∧
    s.instances.length ≤ i ∧ t.instances[i]? = some inst ∧ inst.broker = c ∧
    inst.job = Job.restore record ∧ (t.brokers c).jobs.lookup id = some i

def Recovered (s t : Cluster) (id c : String) : Prop := ∃ i, RecoveredAt s t id c i

def HintAllows (cfg : Config) (s : Cluster) (c id owner : String) : Prop :=
  slotFromJobId id = .ok owner ∨
    (owner = c ∧ ∀ hint, slotFromJobId id = .ok hint →
      lookupOwnerLease cfg.divF64 s.store hint s.now = .missingOrExpired)

structure DeadOwner (cfg : Config) (s : Cluster) (c id hint : String)
    (record : PersistentJobRecord) : Prop where
  absent : (s.brokers c).jobs.lookup id = none
  stored : s.store.recordOf id = some record
  jobId : record.jobId = id
  named : IsIdentity record.brokerId
  hinted : slotFromJobId id = .ok hint
  dead : lookupOwnerLease cfg.divF64 s.store record.brokerId s.now = .missingOrExpired

structure Untouched (s t : Cluster) : Prop where
  now : t.now = s.now
  store : t.store = s.store
  instances : t.instances = s.instances
  brokers : t.brokers = s.brokers

structure Claimed (s t : Cluster) (id c : String) (record : PersistentJobRecord) : Prop where
  stored : t.store.recordOf id = some record
  owner : record.brokerId = c
  jobId : record.jobId = id
  instances : t.instances = s.instances
  absent : (t.brokers c).jobs.lookup id = none

def Resumed (s t : Cluster) (id c : String) (i : Nat) : Prop :=
  RecoveredAt s t id c i ∧ ∀ inst, t.instances[i]? = some inst → inst.result = none

def PollPc.resumes (i : Nat) : PollPc → Prop
  | .lookup resumed => resumed = true
  | .connect j | .check j | .wait j | .recheck j | .leave j _ => j = i
  | .finished _ => True
  | _ => False

def PollPc.refuses : PollPc → Prop
  | .ownerLease _ | .proxy _ | .probe | .finished _ => True
  | _ => False

inductive Stage (cfg : Config) (s : Cluster) (c id hint owner : String) (t : Cluster) :
    PollPc → Prop
  | looking : Untouched s t → Stage cfg s c id hint owner t (.lookup false)
  | leasing : Untouched s t → hint ≠ c → Stage cfg s c id hint owner t (.leaseOf hint)
  | claiming : Untouched s t → (hint ≠ c →
      lookupOwnerLease cfg.divF64 s.store hint s.now = .missingOrExpired) →
      Stage cfg s c id hint owner t (.claim hint)
  | restoring {record source} : HintAllows cfg s c id owner → Claimed s t id c record →
      Stage cfg s c id hint owner t (.restore record source)
  | inserting {record source deadline} : HintAllows cfg s c id owner → Claimed s t id c record →
      Stage cfg s c id hint owner t (.insert record source deadline)
  | resumed {i pc} : HintAllows cfg s c id owner → Resumed s t id c i → pc.resumes i →
      Stage cfg s c id hint owner t pc
  | refused {pc} : ¬ HintAllows cfg s c id owner → Untouched s t → pc.refuses →
      Stage cfg s c id hint owner t pc

section Alone

variable {cfg : Config} {s t next : Cluster} {c id hint : String} {record : PersistentJobRecord}
  {p : Nat} {event : PollEvent}

theorem Untouched.setPc (untouched : Untouched s t) (poll : Poll) (pc : PollPc) :
    Untouched s (t.setPc p poll pc) :=
  ⟨untouched.now, untouched.store, untouched.instances, untouched.brokers⟩

theorem DeadOwner.not_allows_of_active (setting : DeadOwner cfg s c id hint record)
    (other : lookupOwnerLease cfg.divF64 s.store hint s.now ≠ .missingOrExpired) :
    ¬ HintAllows cfg s c id record.brokerId := by
  rintro (named | ⟨_, all⟩)
  · rw [setting.hinted] at named
    simp only [Except.ok.injEq] at named
    exact other (named ▸ setting.dead)
  · exact other (all hint setting.hinted)

def Advances (cfg : Config) (s : Cluster) (c id hint owner : String) (p : Nat)
    (t next : Cluster) : Prop :=
  ∃ pc, next.polls = t.polls.set p ⟨c, id, false, pc⟩ ∧ Stage cfg s c id hint owner next pc

theorem advances_lookup (setting : DeadOwner cfg s c id hint record) (untouched : Untouched s t) :
    Advances cfg s c id hint record.brokerId p t
      (pollLookup t p ⟨c, id, false, .lookup false⟩ false) := by
  simp only [pollLookup, untouched.brokers, setting.absent]
  refine ⟨_, rfl, ?_⟩
  simp only [pollMiss, setting.hinted, Bool.false_eq_true, if_false]
  split
  next foreign => exact .leasing (untouched.setPc _ _) foreign
  next own => exact .claiming (untouched.setPc _ _) (fun foreign => absurd foreign own)

theorem advances_leaseOf (setting : DeadOwner cfg s c id hint record)
    (untouched : Untouched s t) (poll : Poll) (is : poll = ⟨c, id, false, .leaseOf hint⟩) :
    Advances cfg s c id hint record.brokerId p t (pollLeaseOf cfg t p poll hint) := by
  subst is
  simp only [pollLeaseOf, untouched.store, untouched.now]
  cases looked : lookupOwnerLease cfg.divF64 s.store hint s.now with
  | missingOrExpired => exact ⟨_, rfl, .claiming (untouched.setPc _ _) fun _ => looked⟩
  | active lease =>
      have never := setting.not_allows_of_active (by simp [looked])
      exact ⟨_, rfl, .refused never (untouched.setPc _ _) trivial⟩
  | unknown =>
      have never := setting.not_allows_of_active (by simp [looked])
      exact ⟨_, rfl, .refused never (untouched.setPc _ _) trivial⟩

theorem advances_claim (setting : DeadOwner cfg s c id hint record) (untouched : Untouched s t)
    (expired : hint ≠ c → lookupOwnerLease cfg.divF64 s.store hint s.now = .missingOrExpired)
    (poll : Poll) (is : poll = ⟨c, id, false, .claim hint⟩) :
    Advances cfg s c id hint record.brokerId p t (pollClaim t p poll hint) := by
  subst is
  have stored : t.store.recordOf id = some record := by rw [untouched.store, setting.stored]
  have absent : (t.brokers c).jobs.lookup id = none := by
    rw [untouched.brokers]
    exact setting.absent
  obtain ⟨result, store, answered⟩ := MemoryStore.claimIfOwner_ok_of_record stored hint c
  simp only [pollClaim, answered]
  refine ⟨_, rfl, ?_⟩
  cases MemoryStore.claimIfOwner_effect answered with
  | notFound none => simp [stored] at none
  | alreadyMine found mine =>
      rw [stored] at found
      simp only [Option.some.injEq] at found
      subst found
      refine .restoring ?_ ⟨stored, mine, setting.jobId, untouched.instances, absent⟩
      by_cases own : hint = c
      · exact Or.inl (by rw [setting.hinted, own, mine])
      · refine Or.inr ⟨mine, ?_⟩
        intro other named
        rw [setting.hinted] at named
        simp only [Except.ok.injEq] at named
        exact named ▸ expired own
  | active found notMine notHint =>
      rw [stored] at found
      simp only [Option.some.injEq] at found
      subst found
      simp only [claimedPc, notMine, if_false]
      refine .refused ?_ (untouched.setPc _ _) trivial
      rintro (named | ⟨mine, _⟩)
      · rw [setting.hinted] at named
        simp only [Except.ok.injEq] at named
        exact notHint named.symm
      · exact notMine mine
  | transferred found _ expectedOwner keyed =>
      rw [stored] at found
      simp only [Option.some.injEq] at found
      subst found
      refine .restoring (Or.inl (by rw [setting.hinted, expectedOwner]))
        ⟨?_, rfl, setting.jobId, untouched.instances, absent⟩
      simp only [setPc_store]
      rw [MemoryStore.recordOf_insert keyed]
      simp

theorem advances_restore {source : Option Nat} {won : PersistentJobRecord}
    (allows : HintAllows cfg s c id record.brokerId) (claimed : Claimed s t id c won)
    (poll : Poll) (is : poll = ⟨c, id, false, .restore won source⟩) :
    Advances cfg s c id hint record.brokerId p t (pollRestore cfg t p poll won source) := by
  subst is
  refine ⟨_, rfl, .inserting allows ?_⟩
  refine ⟨claimed.stored, claimed.owner, claimed.jobId, claimed.instances, ?_⟩
  simpa [pollRestore] using claimed.absent

theorem advances_insert {source : Option Nat} {deadline : Nat} {won : PersistentJobRecord}
    (allows : HintAllows cfg s c id record.brokerId) (claimed : Claimed s t id c won)
    (poll : Poll) (is : poll = ⟨c, id, false, .insert won source deadline⟩) :
    Advances cfg s c id hint record.brokerId p t
      (pollInsert cfg t p poll won source deadline) := by
  subst is
  have absent : (t.brokers c).jobs.lookup won.jobId = none := by
    rw [claimed.jobId]
    exact claimed.absent
  simp only [pollInsert, absent]
  have fresh : (t.instances ++ [submittedInstance (Job.restore won) c cfg.router source true
      deadline])[t.instances.length]? = some (submittedInstance (Job.restore won) c cfg.router
      source true deadline) := by simp
  have sameId : (Job.restore won).id = id := claimed.jobId
  refine ⟨.lookup true, rfl, ?_⟩
  refine .resumed allows (i := t.instances.length) ⟨?_, ?_⟩ rfl
  · refine ⟨won, _, claimed.stored, claimed.owner, by rw [claimed.instances], fresh, rfl, rfl, ?_⟩
    simp [insertJob, submittedInstance, sameId]
  · intro inst present
    simp only [insertJob, setPc_instances] at present
    rw [fresh] at present
    simp only [Option.some.injEq] at present
    subst present
    rfl

theorem Resumed.update {i : Nat} {inst value : Instance} (resumed : Resumed s t id c i)
    (present : t.instances[i]? = some inst) (sameStore : next.store = t.store)
    (sameBrokers : next.brokers = t.brokers) (updated : next.instances = t.instances.set i value)
    (sameBroker : value.broker = inst.broker) (sameJob : value.job = inst.job)
    (sameResult : value.result = inst.result) : Resumed s next id c i := by
  obtain ⟨⟨record, known, stored, owner, fresh, present', broker, job, held⟩, empty⟩ := resumed
  rw [present] at present'
  simp only [Option.some.injEq] at present'
  subst present'
  have bound := (List.getElem?_eq_some_iff.mp present).1
  have here : next.instances[i]? = some value := by
    rw [updated]
    simp [bound]
  constructor
  · refine ⟨record, value, ?_, owner, fresh, here, ?_, ?_, ?_⟩
    · rw [sameStore, stored]
    · rw [sameBroker, broker]
    · rw [sameJob, job]
    · rw [sameBrokers, held]
  · intro other found
    rw [here] at found
    simp only [Option.some.injEq] at found
    subst found
    rw [sameResult]
    exact empty inst present

theorem Resumed.setPc {i : Nat} (resumed : Resumed s t id c i) (poll : Poll) (pc : PollPc) :
    Resumed s (t.setPc p poll pc) id c i := resumed

theorem advances_resumed {i : Nat} {pc : PollPc}
    (allows : HintAllows cfg s c id record.brokerId) (resumed : Resumed s t id c i)
    (resumes : pc.resumes i) (move : PollMove cfg t p ⟨c, id, false, pc⟩ event next) :
    Advances cfg s c id hint record.brokerId p t next := by
  have held : (t.brokers c).jobs.lookup id = some i := by
    obtain ⟨⟨_, _, _, _, _, _, _, _, held⟩, _⟩ := resumed
    exact held
  have empty := resumed.2
  cases move with
  | found _ lookedUp =>
      simp only [held, Option.some.injEq] at lookedUp
      subst lookedUp
      exact ⟨_, rfl, .resumed allows (resumed.setPc _ _) rfl⟩
  | missed _ none => simp [held] at none
  | connected at_ present =>
      simp only at at_
      subst at_
      obtain rfl : _ = i := resumes
      exact ⟨_, rfl, .resumed allows (resumed.update present rfl rfl rfl rfl rfl rfl) rfl⟩
  | took at_ present stored _ =>
      simp only at at_
      rcases at_ with rfl | rfl <;>
      · obtain rfl : _ = i := resumes
        simp [empty _ present] at stored
  | parked at_ _ _ | disconnected at_ =>
      simp only at at_
      subst at_
      exact ⟨_, rfl, .resumed allows (resumed.setPc _ _) resumes⟩
  | pending at_ _ =>
      simp only at at_
      rcases at_ with rfl | rfl | rfl <;>
      exact ⟨_, rfl, .resumed allows (resumed.setPc _ _) resumes⟩
  | woken at_ =>
      simp only at at_
      subst at_
      exact ⟨_, rfl, .resumed allows (resumed.setPc _ _) resumes⟩
  | left at_ present =>
      simp only at at_
      subst at_
      obtain rfl : _ = i := resumes
      exact ⟨_, rfl, .resumed allows (resumed.update present rfl rfl rfl rfl rfl rfl) trivial⟩
  | gaveUp remote _ => cases pc <;> simp [PollPc.isRemote, PollPc.resumes] at remote resumes
  | leaseActive at_ _ =>
      simp only at at_
      rcases at_ with rfl | rfl <;> exact resumes.elim
  | removed at_ _ | alreadyRemoved at_ _ | uncounted at_ | scheduled at_ _ _
  | unscheduled at_ _ _ | leaseDead at_ _ | claimed at_ _ | retried at_ | counted at_
  | duplicate at_ _ | restored at_ _ | probing at_ | probed at_ _ _ =>
      simp only at at_
      subst at_
      exact resumes.elim

theorem advances_refused {pc : PollPc} (setting : DeadOwner cfg s c id hint record)
    (never : ¬ HintAllows cfg s c id record.brokerId) (untouched : Untouched s t)
    (refuses : pc.refuses) (move : PollMove cfg t p ⟨c, id, false, pc⟩ event next) :
    Advances cfg s c id hint record.brokerId p t next := by
  cases move with
  | leaseActive _ _ | gaveUp _ _ | probing _ =>
      exact ⟨_, rfl, .refused never (untouched.setPc _ _) trivial⟩
  | @probed result store outcome _ answered _ =>
      have kept : store = t.store := by
        cases MemoryStore.claimIfOwner_effect answered with
        | notFound _ | alreadyMine _ _ | active _ _ _ => rfl
        | transferred found _ probe _ =>
            rw [untouched.store, setting.stored] at found
            simp only [Option.some.injEq] at found
            subst found
            exact absurd (probe ▸ setting.named) not_isIdentity_probe
      subst kept
      exact ⟨_, rfl, .refused never (untouched.setPc _ _) trivial⟩
  | took at_ _ _ _ =>
      simp only at at_
      rcases at_ with rfl | rfl <;> exact refuses.elim
  | pending at_ _ =>
      simp only at at_
      rcases at_ with rfl | rfl | rfl <;> exact refuses.elim
  | found at_ _ | missed at_ _ | connected at_ _ | parked at_ _ _ | woken at_
  | disconnected at_ | removed at_ _ | alreadyRemoved at_ _ | uncounted at_ | scheduled at_ _ _
  | unscheduled at_ _ _ | left at_ _ | leaseDead at_ _ | claimed at_ _ | retried at_
  | counted at_ | duplicate at_ _ | restored at_ _ =>
      simp only at at_
      subst at_
      exact refuses.elim

theorem stage_step {pc : PollPc} (setting : DeadOwner cfg s c id hint record)
    (alive : (t.brokers c).crashed = false) (kept : event ≠ .drop)
    (quiet : ∀ retry, event ≠ .storeError retry)
    (stage : Stage cfg s c id hint record.brokerId t pc)
    (taken : pollEvent cfg t p ⟨c, id, false, pc⟩ event = some next) :
    Advances cfg s c id hint record.brokerId p t next := by
  have move := pollEvent_move taken
  cases stage with
  | looking untouched =>
      cases event <;> simp [pollEvent, alive] at taken
      exact taken ▸ advances_lookup setting untouched
  | leasing untouched _ =>
      cases event <;> simp [pollEvent, alive] at taken kept quiet
      exact taken ▸ advances_leaseOf setting untouched _ rfl
  | claiming untouched expired =>
      cases event <;> simp [pollEvent, alive] at taken kept quiet
      exact taken ▸ advances_claim setting untouched expired _ rfl
  | restoring allows claimed =>
      cases event <;> simp [pollEvent, alive] at taken kept
      exact taken ▸ advances_restore allows claimed _ rfl
  | inserting allows claimed =>
      cases event <;> simp [pollEvent, alive] at taken
      exact taken ▸ advances_insert allows claimed _ rfl
  | resumed allows resumed resumes => exact advances_resumed allows resumed resumes move
  | refused never untouched refuses =>
      exact advances_refused setting never untouched refuses move

def Staged (cfg : Config) (s : Cluster) (c id hint owner : String) (p : Nat) (t : Cluster) :
    Prop :=
  ∃ pc, t.polls[p]? = some ⟨c, id, false, pc⟩ ∧ (t.brokers c).crashed = false ∧
    Stage cfg s c id hint owner t pc

theorem Staged.step {action : ClusterAction} (setting : DeadOwner cfg s c id hint record)
    (staged : Staged cfg s c id hint record.brokerId p t) (alone : PollAlone p t action)
    (taken : clusterStep cfg t action = some next) :
    Staged cfg s c id hint record.brokerId p next := by
  obtain ⟨pc, polled, alive, stage⟩ := staged
  obtain ⟨event, rfl, kept, quiet⟩ := alone
  simp only [clusterStep, polled, Option.bind_some] at taken
  obtain ⟨later, moved, stage⟩ := stage_step setting alive kept quiet stage taken
  have bound := (List.getElem?_eq_some_iff.mp polled).1
  refine ⟨later, ?_, ?_, stage⟩
  · rw [moved]
    simp [bound]
  · rw [pollMove_crashed (pollEvent_move taken)]
    exact alive

theorem Staged.recovered_iff (staged : Staged cfg s c id hint record.brokerId p t)
    (finished : Finished p t) :
    Recovered s t id c ↔ HintAllows cfg s c id record.brokerId := by
  obtain ⟨pc, polled, _, stage⟩ := staged
  obtain ⟨poll, outcome, present, done⟩ := finished
  rw [polled] at present
  simp only [Option.some.injEq] at present
  subst present
  simp only at done
  subst done
  cases stage with
  | resumed allows resumed _ => exact ⟨fun _ => allows, fun _ => ⟨_, resumed.1⟩⟩
  | refused never untouched _ =>
      refine ⟨?_, fun allows => absurd allows never⟩
      rintro ⟨i, _, inst, _, _, fresh, present, _⟩
      rw [untouched.instances] at present
      have bound := (List.getElem?_eq_some_iff.mp present).1
      omega

end Alone

theorem slotFromJobId_of_recordOf {store : MemoryStore} {id : String}
    {record : PersistentJobRecord} (stored : store.recordOf id = some record) :
    ∃ hint, slotFromJobId id = .ok hint := by
  obtain ⟨key, keyed⟩ := keyed_of_recordOf stored
  obtain ⟨decoded, found⟩ := decode_of_memoryJobKey keyed
  simp [slotFromJobId, found]

/-- A poll with no other step in between recovers a record with a dead owner exactly when the
identifier names that owner, or when the polling broker is that owner and the broker the
identifier names is dead too. -/
theorem poll_recovers_dead_owner_iff {cfg : Config} {now : Nat} {actions : List ClusterAction}
    {s : Cluster} (path : Path (clusterStep cfg) Always (Cluster.new now) actions s)
    {broker : BrokerIdentity} {id : String} {record : PersistentJobRecord}
    (alive : (s.brokers broker.brokerId).crashed = false)
    (absent : (s.brokers broker.brokerId).jobs.lookup id = none)
    (stored : s.store.recordOf id = some record)
    (dead : lookupOwnerLease cfg.divF64 s.store record.brokerId s.now = .missingOrExpired) :
    ∃ first, clusterStep cfg s (.broker broker (.poll id false)) = some first ∧
      (∃ events last, Path (clusterStep cfg) (PollAlone s.polls.length) first events last ∧
        Finished s.polls.length last) ∧
      ∀ events last, Path (clusterStep cfg) (PollAlone s.polls.length) first events last →
        Finished s.polls.length last →
        (Recovered s last id broker.brokerId ↔
          HintAllows cfg s broker.brokerId id record.brokerId) := by
  have wf := ClusterWf.of_path path
  obtain ⟨hint, hinted⟩ := slotFromJobId_of_recordOf stored
  have setting : DeadOwner cfg s broker.brokerId id hint record :=
    ⟨absent, stored, (wf.recorded id record stored).jobId,
      (OwnershipWf.of_path path).recordNamed id record stored, hinted, dead⟩
  let poll : Poll := ⟨broker.brokerId, id, false, .lookup false⟩
  let first : Cluster := { s with polls := s.polls ++ [poll] }
  have begun : clusterStep cfg s (.broker broker (.poll id false)) = some first := by
    simp [clusterStep, alive, brokerStep, first, poll]
  have polled : first.polls[s.polls.length]? = some poll := by simp [first]
  refine ⟨first, begun, ?_, ?_⟩
  · exact poll_alone_finishes (wf.step begun) polled alive rfl
  · intro events last alone finished
    have staged : Staged cfg s broker.brokerId id hint record.brokerId s.polls.length first :=
      ⟨.lookup false, polled, alive, .looking ⟨rfl, rfl, rfl, rfl⟩⟩
    have final := alone.invariant staged fun _ _ _ before permitted taken =>
      before.step setting permitted taken
    exact final.recovered_iff finished

namespace Scenario

def secondFailover : List ClusterAction :=
  [.broker brokerA .upsertLease] ++ persistOn brokerA config.router ++
    [.broker brokerA .crash, .advance 30, .broker brokerB .upsertLease,
      .broker brokerB (.poll jobId false)] ++ pollSteps 0 5 ++
    [.broker brokerB .crash, .advance 30]

def deadOwner (s : Cluster) : Bool :=
  decide ((s.brokers brokerC.brokerId).crashed = false) &&
    decide ((s.brokers brokerC.brokerId).jobs.lookup jobId = none) &&
    (s.store.recordOf jobId).any fun record =>
      decide (record.brokerId = brokerB.brokerId) &&
        decide (lookupOwnerLease config.divF64 s.store record.brokerId s.now = .missingOrExpired)

end Scenario

open Scenario in
theorem poll_recovers_dead_owner_iff_second_failover :
    ∃ s record, run (clusterStep config) (Cluster.new 0) secondFailover = some s ∧
      (s.brokers brokerC.brokerId).crashed = false ∧
      (s.brokers brokerC.brokerId).jobs.lookup jobId = none ∧
      s.store.recordOf jobId = some record ∧
      lookupOwnerLease config.divF64 s.store record.brokerId s.now = .missingOrExpired ∧
      ∃ first, clusterStep config s (.broker brokerC (.poll jobId false)) = some first ∧
        (∃ events last,
          Path (clusterStep config) (PollAlone s.polls.length) first events last ∧
          Finished s.polls.length last) ∧
        ∀ events last,
          Path (clusterStep config) (PollAlone s.polls.length) first events last →
          Finished s.polls.length last →
          (Recovered s last jobId brokerC.brokerId ↔
            HintAllows config s brokerC.brokerId jobId record.brokerId) := by
  have ran : (run (clusterStep config) (Cluster.new 0) secondFailover).any deadOwner = true := by
    decide +kernel
  obtain ⟨s, finished, checked⟩ := (Option.any_eq_true _ _).mp ran
  simp only [deadOwner, Bool.and_eq_true, decide_eq_true_eq] at checked
  obtain ⟨⟨alive, absent⟩, checked⟩ := checked
  obtain ⟨record, stored, checked⟩ := (Option.any_eq_true _ _).mp checked
  simp only [Bool.and_eq_true, decide_eq_true_eq] at checked
  exact ⟨s, record, finished, alive, absent, stored, checked.2,
    poll_recovers_dead_owner_iff (Path.of_run _ _ finished) alive absent stored checked.2⟩

def Scenario.leftWithB (s : Cluster) : Bool :=
  decide (ownerOf s = some brokerB.brokerId) && s.polls[1]?.any fun poll => match poll.pc with
    | .finished _ => true
    | _ => false

open Scenario in
theorem second_failover_not_recovered :
    ∃ s record first last, run (clusterStep config) (Cluster.new 0) secondFailover = some s ∧
      (s.brokers brokerC.brokerId).crashed = false ∧
      (s.brokers brokerC.brokerId).jobs.lookup jobId = none ∧
      s.store.recordOf jobId = some record ∧
      lookupOwnerLease config.divF64 s.store record.brokerId s.now = .missingOrExpired ∧
      clusterStep config s (.broker brokerC (.poll jobId false)) = some first ∧
      run (clusterStep config) first (pollSteps 1 4) = some last ∧ Finished 1 last ∧
      ¬ Recovered s last jobId brokerC.brokerId := by
  have ran : ((run (clusterStep config) (Cluster.new 0) secondFailover).any fun s =>
      deadOwner s && (clusterStep config s (.broker brokerC (.poll jobId false))).any fun first =>
        (run (clusterStep config) first (pollSteps 1 4)).any leftWithB) = true := by
    decide +kernel
  obtain ⟨s, finished, checked⟩ := (Option.any_eq_true _ _).mp ran
  simp only [deadOwner, Bool.and_eq_true, decide_eq_true_eq] at checked
  obtain ⟨⟨⟨alive, absent⟩, owned⟩, polled⟩ := checked
  obtain ⟨record, stored, owned⟩ := (Option.any_eq_true _ _).mp owned
  simp only [Bool.and_eq_true, decide_eq_true_eq] at owned
  obtain ⟨first, begun, polled⟩ := (Option.any_eq_true _ _).mp polled
  obtain ⟨last, ended, left⟩ := (Option.any_eq_true _ _).mp polled
  simp only [leftWithB, Bool.and_eq_true, decide_eq_true_eq] at left
  obtain ⟨poll, present, done⟩ := (Option.any_eq_true _ _).mp left.2
  refine ⟨s, record, first, last, finished, alive, absent, stored, owned.2, begun, ended, ?_, ?_⟩
  · split at done
    next pc => exact ⟨poll, _, present, pc⟩
    · simp at done
  · rintro ⟨_, found, _, holds, owner, _⟩
    have stays := left.1
    simp only [ownerOf, holds, Option.map_some, owner, Option.some.injEq] at stays
    exact absurd stays (by decide)

end BitsBroker
