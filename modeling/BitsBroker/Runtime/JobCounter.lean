import BitsBroker.Runtime.Wellformed
import BitsBroker.Lib.Counting

/-!
The job counter of a broker. It is incremented before the map insertion and decremented
after the map removal, so it is ahead of the map by the submissions that have not inserted
yet and by the removals that have not been subtracted yet. No subtraction meets a zero
counter, and while every submission goes through the limit the map stays within it.
-/

namespace BitsBroker

open RequestId Cluster Counting Transition

def SubmitPc.isCounted : SubmitPc → Bool
  | .counted _ => true
  | _ => false

def PollPc.isInsert : PollPc → Bool
  | .insert _ _ _ => true
  | _ => false

def PollPc.isUncount : PollPc → Bool
  | .uncount _ _ => true
  | _ => false

def SweepPc.isRemoved : SweepPc → Bool
  | .removed _ _ => true
  | _ => false

def Submit.uninserted (broker : String) (submission : Submit) : Bool :=
  decide (submission.broker = broker) && submission.pc.isCounted

def Poll.uninserted (broker : String) (poll : Poll) : Bool :=
  decide (poll.broker = broker) && poll.pc.isInsert

def Poll.undecremented (broker : String) (poll : Poll) : Bool :=
  decide (poll.broker = broker) && poll.pc.isUncount

/-- The submissions that have incremented the counter but neither inserted nor rolled back. -/
def uninserted (s : Cluster) (broker : String) : Nat :=
  s.submits.countP (Submit.uninserted broker) + s.polls.countP (Poll.uninserted broker)

/-- The removals that have not been subtracted from the counter. -/
def undecremented (s : Cluster) (broker : String) : Nat :=
  s.polls.countP (Poll.undecremented broker) + (s.brokers broker).sweep.isRemoved.toNat

def CounterExact (s : Cluster) : Prop :=
  ∀ broker, (s.brokers broker).jobCount =
    HashMap.size (s.brokers broker).jobs + uninserted s broker + undecremented s broker

/-- The broker whose counter a step subtracts from, if it does. -/
def decrements (s : Cluster) : ClusterAction → Option String
  | .broker identity .sweepCount => some identity.brokerId
  | .submitInsert k => s.submits[k]?.bind fun submission =>
      if submission.pc.isCounted &&
          ((s.brokers submission.broker).jobs.lookup submission.job.id).isSome then
        some submission.broker
      else none
  | .pollEvent p _ => s.polls[p]?.bind fun poll =>
      match poll.pc with
      | .uncount _ _ => some poll.broker
      | .insert record _ _ =>
          if ((s.brokers poll.broker).jobs.lookup record.jobId).isSome then some poll.broker
          else none
      | _ => none
  | _ => none

def WithinLimit (cfg : Config) (broker : String) (s : Cluster) : Prop :=
  (s.brokers broker).jobCount ≤ cfg.maxJobs

/-- The step does not submit a restored job past the limit of the broker. -/
def EnforcesLimit (broker : String) (s : Cluster) (action : ClusterAction) : Prop :=
  ∀ p poll record source, action = .pollEvent p .step → s.polls[p]? = some poll →
    poll.broker = broker → poll.pc ≠ .restore record source

section Ledger

variable {s t : Cluster} {p : Nat} {poll : Poll}

def PollPc.isQuiet (pc : PollPc) : Bool := !pc.isInsert && !pc.isUncount

/-- The part of a broker's state that the counter is about. -/
def ledger (s : Cluster) (broker : String) : Nat × HashMap String Nat × SweepPc :=
  ((s.brokers broker).jobCount, (s.brokers broker).jobs, (s.brokers broker).sweep)

theorem CounterExact.of_same (balanced : CounterExact s) (submits : t.submits = s.submits)
    (polls : t.polls = s.polls) (ledgers : ∀ broker, ledger t broker = ledger s broker) :
    CounterExact t := by
  intro broker
  have known := balanced broker
  have same := ledgers broker
  simp only [ledger, Prod.mk.injEq] at same
  rw [same.1, same.2.1, known]
  simp [uninserted, undecremented, submits, polls, same.2.2]

theorem CounterExact.setInstance (balanced : CounterExact s) (i : Nat) (inst : Instance) :
    CounterExact (s.setInstance i inst) :=
  balanced.of_same rfl rfl fun _ => rfl

theorem CounterExact.setStore (balanced : CounterExact s) (store : MemoryStore) :
    CounterExact { s with store := store } :=
  balanced.of_same rfl rfl fun _ => rfl

theorem CounterExact.deleteRecord (balanced : CounterExact s) (id : String) :
    CounterExact (s.deleteRecord id) := by
  refine balanced.of_same (by simp) (by simp) fun broker => ?_
  simp [ledger]

theorem uninserted_setPc (polled : s.polls[p]? = some poll) (pc : PollPc) (broker : String) :
    uninserted (s.setPc p poll pc) broker + (poll.uninserted broker).toNat =
      uninserted s broker + (Poll.uninserted broker { poll with pc := pc }).toNat := by
  have counted := countP_set_add (p := Poll.uninserted broker) polled { poll with pc := pc }
  simp only [uninserted, setPc_polls, setPc_submits]
  omega

theorem undecremented_setPc (polled : s.polls[p]? = some poll) (pc : PollPc) (broker : String) :
    undecremented (s.setPc p poll pc) broker + (poll.undecremented broker).toNat =
      undecremented s broker + (Poll.undecremented broker { poll with pc := pc }).toNat := by
  have counted := countP_set_add (p := Poll.undecremented broker) polled { poll with pc := pc }
  simp only [undecremented, setPc_polls, setPc_brokers]
  omega

theorem CounterExact.quiet (balanced : CounterExact s) (polled : s.polls[p]? = some poll)
    (before : poll.pc.isQuiet = true) {pc : PollPc} (after : pc.isQuiet = true) :
    CounterExact (s.setPc p poll pc) := by
  intro broker
  have known := balanced broker
  have inserting := uninserted_setPc polled pc broker
  have removing := undecremented_setPc polled pc broker
  simp only [PollPc.isQuiet, Bool.and_eq_true, Bool.not_eq_eq_eq_not, Bool.not_true] at before after
  simp only [Poll.uninserted, before.1, after.1, Bool.and_false, Bool.toNat_false] at inserting
  simp only [Poll.undecremented, before.2, after.2, Bool.and_false, Bool.toNat_false] at removing
  rw [setPc_brokers]
  omega

theorem CounterExact.setBroker_setPc (balanced : CounterExact s) (polled : s.polls[p]? = some poll)
    {state : BrokerState} {pc : PollPc} (sweep : state.sweep = (s.brokers poll.broker).sweep)
    (balance : state.jobCount + HashMap.size (s.brokers poll.broker).jobs +
        poll.pc.isInsert.toNat + poll.pc.isUncount.toNat =
      (s.brokers poll.broker).jobCount + HashMap.size state.jobs +
        pc.isInsert.toNat + pc.isUncount.toNat) :
    CounterExact ((s.setBroker poll.broker state).setPc p poll pc) := by
  intro broker
  have known := balanced broker
  have inserting := uninserted_setPc polled pc broker
  have removing := undecremented_setPc polled pc broker
  by_cases here : broker = poll.broker
  · subst here
    simp only [Poll.uninserted, Poll.undecremented, decide_true, Bool.true_and] at inserting removing
    simp only [uninserted, undecremented, setPc_polls, setPc_submits, setPc_brokers,
      setBroker_brokers, setBroker_polls, setBroker_submits, Function.update_self, sweep]
      at known inserting removing ⊢
    omega
  · have elsewhere : poll.broker ≠ broker := fun same => here same.symm
    simp only [Poll.uninserted, Poll.undecremented, elsewhere, decide_false, Bool.false_and,
      Bool.toNat_false] at inserting removing
    simp only [uninserted, undecremented, setPc_polls, setPc_submits, setPc_brokers,
      setBroker_brokers, setBroker_polls, setBroker_submits, Function.update_of_ne here]
      at known inserting removing ⊢
    omega

theorem CounterExact.setBroker (balanced : CounterExact s) {changed : String} {state : BrokerState}
    (balance : state.jobCount + HashMap.size (s.brokers changed).jobs +
        (s.brokers changed).sweep.isRemoved.toNat =
      (s.brokers changed).jobCount + HashMap.size state.jobs + state.sweep.isRemoved.toNat) :
    CounterExact (s.setBroker changed state) := by
  intro broker
  have known := balanced broker
  by_cases here : broker = changed
  · subst here
    simp only [uninserted, undecremented, setBroker_brokers, setBroker_polls, setBroker_submits,
      Function.update_self] at known ⊢
    omega
  · simp only [uninserted, undecremented, setBroker_brokers, setBroker_polls, setBroker_submits,
      Function.update_of_ne here] at known ⊢
    omega

/-- A change of the submission table and of the counted state of the submitting broker. -/
theorem CounterExact.setSubmits (balanced : CounterExact s) {submission : Submit}
    {submits : List Submit} {state : BrokerState} {owed given : Nat}
    (sweep : state.sweep = (s.brokers submission.broker).sweep)
    (table : ∀ broker, submits.countP (Submit.uninserted broker) +
        (if submission.broker = broker then owed else 0) =
      s.submits.countP (Submit.uninserted broker) +
        if submission.broker = broker then given else 0)
    (balance : state.jobCount + HashMap.size (s.brokers submission.broker).jobs + owed =
      (s.brokers submission.broker).jobCount + HashMap.size state.jobs + given) :
    CounterExact { s.setBroker submission.broker state with submits := submits } := by
  intro broker
  have known := balanced broker
  have counted := table broker
  by_cases here : broker = submission.broker
  · subst here
    simp only [if_true] at counted
    simp only [uninserted, undecremented, setBroker_brokers, setBroker_polls,
      Function.update_self, sweep] at known ⊢
    omega
  · have elsewhere : submission.broker ≠ broker := fun same => here same.symm
    simp only [elsewhere, if_false] at counted
    simp only [uninserted, undecremented, setBroker_brokers, setBroker_polls,
      Function.update_of_ne here] at known ⊢
    omega

theorem countP_snoc_uninserted (submits : List Submit) (submission : Submit) (broker : String) :
    (submits ++ [submission]).countP (Submit.uninserted broker) +
        (if submission.broker = broker then 0 else 0) =
      submits.countP (Submit.uninserted broker) +
        if submission.broker = broker then submission.pc.isCounted.toNat else 0 := by
  rw [List.countP_append, List.countP_singleton]
  by_cases here : submission.broker = broker
  · cases pending : submission.pc.isCounted <;> simp [Submit.uninserted, here, pending]
  · simp [Submit.uninserted, here]

theorem countP_set_uninserted {submits : List Submit} {k : Nat} {submission : Submit}
    (present : submits[k]? = some submission) (pc : SubmitPc) (broker : String) :
    (submits.set k { submission with pc := pc }).countP (Submit.uninserted broker) +
        (if submission.broker = broker then submission.pc.isCounted.toNat else 0) =
      submits.countP (Submit.uninserted broker) +
        if submission.broker = broker then pc.isCounted.toNat else 0 := by
  have counted := countP_set_add (p := Submit.uninserted broker) present
    { submission with pc := pc }
  by_cases here : submission.broker = broker
  · simpa [Submit.uninserted, here] using counted
  · simpa [Submit.uninserted, here] using counted

theorem CounterExact.pos_of_poll (balanced : CounterExact s) (polled : s.polls[p]? = some poll)
    (pending : poll.pc.isInsert = true ∨ poll.pc.isUncount = true) :
    0 < (s.brokers poll.broker).jobCount := by
  have known := balanced poll.broker
  have member := List.mem_of_getElem? polled
  rcases pending with inserting | removing
  · have counted : 0 < s.polls.countP (Poll.uninserted poll.broker) :=
      List.countP_pos_iff.mpr ⟨poll, member, by simp [Poll.uninserted, inserting]⟩
    simp only [uninserted] at known
    omega
  · have counted : 0 < s.polls.countP (Poll.undecremented poll.broker) :=
      List.countP_pos_iff.mpr ⟨poll, member, by simp [Poll.undecremented, removing]⟩
    simp only [undecremented] at known
    omega

theorem CounterExact.pos_of_submit (balanced : CounterExact s) {k : Nat} {submission : Submit}
    (present : s.submits[k]? = some submission) (pending : submission.pc.isCounted = true) :
    0 < (s.brokers submission.broker).jobCount := by
  have known := balanced submission.broker
  have counted : 0 < s.submits.countP (Submit.uninserted submission.broker) :=
    List.countP_pos_iff.mpr ⟨submission, List.mem_of_getElem? present,
      by simp [Submit.uninserted, pending]⟩
  simp only [uninserted] at known
  omega

theorem CounterExact.pos_of_sweep (balanced : CounterExact s) {broker : String}
    (pending : (s.brokers broker).sweep.isRemoved = true) : 0 < (s.brokers broker).jobCount := by
  have known := balanced broker
  simp only [undecremented, pending, Bool.toNat_true] at known
  omega

end Ledger

section Step

variable {cfg : Config} {s next : Cluster} {p : Nat} {poll : Poll}

theorem isQuiet_of_isRemote {pc : PollPc} (remote : pc.isRemote = true) : pc.isQuiet = true := by
  cases pc <;> first | rfl | simp [PollPc.isRemote] at remote

theorem pollMiss_isQuiet (poll : Poll) (resumed : Bool) : (pollMiss poll resumed).isQuiet = true := by
  unfold pollMiss
  split
  · rfl
  · split
    · rfl
    · split
      · rfl
      · split <;> rfl

theorem claimedPc_isQuiet (s : Cluster) (poll : Poll) (owner : String) (result : ClaimResult) :
    (claimedPc s poll owner result).isQuiet = true := by
  unfold claimedPc
  split
  · rfl
  · split <;> rfl
  · rfl

theorem pollMove_exact {event : PollEvent} (balanced : CounterExact s)
    (polled : s.polls[p]? = some poll) (move : PollMove cfg s p poll event next) :
    CounterExact next := by
  cases move with
  | found pc _ | parked pc _ _ | disconnected pc | alreadyRemoved pc _ | unscheduled pc _ _
  | leaseDead pc _ | retried pc | probing pc => exact balanced.quiet polled (by rw [pc]; rfl) rfl
  | missed pc _ => exact balanced.quiet polled (by rw [pc]; rfl) (pollMiss_isQuiet _ _)
  | connected pc _ | left pc _ =>
      exact (balanced.setInstance _ _).quiet polled (by rw [pc]; rfl) rfl
  | took pc _ _ _ =>
      refine (balanced.setInstance _ _).quiet polled ?_ rfl
      rcases pc with pc | pc <;> rw [pc] <;> rfl
  | pending pc _ =>
      refine balanced.quiet polled ?_ rfl
      rcases pc with pc | pc | pc <;> rw [pc] <;> rfl
  | woken pc =>
      refine balanced.quiet polled (by rw [pc]; rfl) ?_
      split <;> rfl
  | leaseActive pc _ =>
      refine balanced.quiet polled ?_ rfl
      rcases pc with pc | pc <;> rw [pc] <;> rfl
  | gaveUp remote _ => exact balanced.quiet polled (isQuiet_of_isRemote remote) rfl
  | claimed pc _ =>
      exact (balanced.setStore _).quiet polled (by rw [pc]; rfl) (claimedPc_isQuiet _ _ _ _)
  | probed pc _ _ => exact (balanced.setStore _).quiet polled (by rw [pc]; rfl) rfl
  | scheduled pc _ _ =>
      refine balanced.setBroker_setPc polled rfl ?_
      simp [pc, PollPc.isInsert, PollPc.isUncount]
  | removed pc held =>
      refine balanced.setBroker_setPc polled rfl ?_
      have shrunk := HashMap.size_erase_of_present held
      simp only [pc, PollPc.isInsert, PollPc.isUncount, Bool.toNat_false, Bool.toNat_true]
      omega
  | uncounted pc =>
      have positive := balanced.pos_of_poll polled (Or.inr (by rw [pc]; rfl))
      refine balanced.setBroker_setPc polled rfl ?_
      simp only [pc, PollPc.isInsert, PollPc.isUncount, Bool.toNat_false, Bool.toNat_true]
      omega
  | counted pc =>
      refine balanced.setBroker_setPc polled rfl ?_
      simp only [pc, PollPc.isInsert, PollPc.isUncount, Bool.toNat_false, Bool.toNat_true]
      omega
  | duplicate pc _ =>
      have positive := balanced.pos_of_poll polled (Or.inl (by rw [pc]; rfl))
      refine balanced.setBroker_setPc polled rfl ?_
      simp only [pc, PollPc.isInsert, PollPc.isUncount, Bool.toNat_false, Bool.toNat_true]
      omega
  | @restored record source deadline pc absent =>
      have grown := HashMap.size_insert_of_absent absent s.instances.length
      have inserted : CounterExact ((s.setBroker poll.broker { s.brokers poll.broker with
          jobs := AList.insert record.jobId s.instances.length (s.brokers poll.broker).jobs }).setPc
          p poll (.lookup true)) := by
        refine balanced.setBroker_setPc polled rfl ?_
        simp only [pc, PollPc.isInsert, PollPc.isUncount, Bool.toNat_false, Bool.toNat_true]
        omega
      exact inserted.of_same rfl rfl fun _ => rfl

theorem brokerStep_sweeping {identity : BrokerIdentity} {action : BrokerAction}
    (taken : brokerStep cfg s identity action = some next)
    (sweeps : action = .sweepStart ∨ action = .sweepRemove) :
    (s.brokers identity.brokerId).sweep.isRemoved = false := by
  rcases brokerStep_sweep taken sweeps with idle | idle <;> rw [idle] <;> rfl

theorem brokerStep_exact {identity : BrokerIdentity} {action : BrokerAction}
    (balanced : CounterExact s) (taken : brokerStep cfg s identity action = some next) :
    CounterExact next := by
  have sweeping := brokerStep_sweeping taken
  cases brokerStep_move taken with
  | leased | unleased => exact balanced.setStore _
  | crashed | marked _ => exact balanced.setBroker rfl
  | overloaded _ =>
      intro broker
      have known := balanced broker
      simpa [uninserted, undecremented, Submit.uninserted, SubmitPc.isCounted] using known
  | @counted router job random id _ =>
      let submission : Submit := ⟨identity.brokerId, router, { job with id := id },
        .counted (s.now + cfg.reconnectBuffer)⟩
      have table := countP_snoc_uninserted s.submits submission
      have submitted : CounterExact { s.setBroker submission.broker
          { s.brokers submission.broker with
            jobCount := (s.brokers submission.broker).jobCount + 1 } with
          submits := s.submits ++ [submission] } := by
        refine balanced.setSubmits rfl table ?_
        simp only [submission, SubmitPc.isCounted, Bool.toNat_true]
        omega
      exact submitted
  | begun =>
      intro broker
      have known := balanced broker
      simpa [uninserted, undecremented, Poll.uninserted, Poll.undecremented, PollPc.isInsert,
        PollPc.isUncount] using known
  | started =>
      refine balanced.setBroker ?_
      rw [sweeping (Or.inl rfl)]
      rfl
  | swept _ expired =>
      have shrunk := HashMap.size_erase_of_present (expiredInstance_some expired).1
      have idle := sweeping (Or.inr rfl)
      refine balanced.setBroker ?_
      rw [idle]
      simp only [SweepPc.isRemoved, Bool.toNat_true, Bool.toNat_false]
      omega
  | passed _ => exact balanced.setBroker rfl
  | rested =>
      refine balanced.setBroker ?_
      rw [sweeping (Or.inr rfl)]
      rfl
  | uncounted removed =>
      have positive := balanced.pos_of_sweep (by rw [removed]; rfl)
      refine balanced.setBroker ?_
      simp only [removed, SweepPc.isRemoved, Bool.toNat_true, Bool.toNat_false]
      omega
  | deleted deleting _ _ =>
      refine CounterExact.deleteRecord (balanced.setBroker ?_) _
      rw [deleting]
      rfl
  | undeleted deleting _ _ =>
      refine balanced.setBroker ?_
      rw [deleting]
      rfl
  | cleaned _ =>
      refine CounterExact.deleteRecord (balanced.setBroker ?_) _
      rfl

theorem clusterStep_exact {action : ClusterAction} (balanced : CounterExact s)
    (taken : clusterStep cfg s action = some next) : CounterExact next := by
  cases clusterStep_move taken with
  | advanced => exact balanced.of_same rfl rfl fun _ => rfl
  | @broker identity action _ alive _ =>
      simp only [clusterStep, alive, Bool.false_eq_true, if_false] at taken
      exact brokerStep_exact balanced taken
  | duplicate present counted _ =>
      have positive := balanced.pos_of_submit present (by rw [counted]; rfl)
      refine balanced.setSubmits rfl (countP_set_uninserted present _) ?_
      simp only [counted, SubmitPc.isCounted, Bool.toNat_true, Bool.toNat_false]
      omega
  | @accepted k submission deadline present counted absent =>
      have grown := HashMap.size_insert_of_absent absent s.instances.length
      have table := countP_set_uninserted present .accepted
      have inserted : CounterExact { s.setBroker submission.broker { s.brokers submission.broker with
          jobs := AList.insert submission.job.id s.instances.length
            (s.brokers submission.broker).jobs } with
          submits := s.submits.set k { submission with pc := .accepted } } := by
        refine balanced.setSubmits rfl table ?_
        simp only [counted, SubmitPc.isCounted, Bool.toNat_true, Bool.toNat_false]
        omega
      exact inserted.of_same rfl rfl fun _ => rfl
  | poll polled move => exact pollMove_exact balanced polled move
  | task _ move => cases move <;> exact balanced.of_same rfl rfl fun _ => rfl

theorem CounterExact.initial (now : Nat) : CounterExact (Cluster.new now) := by
  intro broker
  rfl

theorem CounterExact.of_path {allowed : Cluster → ClusterAction → Prop} {now : Nat}
    {actions : List ClusterAction} (path : Path (clusterStep cfg) allowed (Cluster.new now)
      actions s) : CounterExact s :=
  path.invariant (CounterExact.initial now) fun _ _ _ balanced _ taken =>
    clusterStep_exact balanced taken

theorem decrement_exact {action : ClusterAction} {broker : String} (balanced : CounterExact s)
    (taken : clusterStep cfg s action = some next) (subtracts : decrements s action = some broker) :
    (next.brokers broker).jobCount + 1 = (s.brokers broker).jobCount := by
  cases action with
  | advance _ | taskEvent _ _ => simp [decrements] at subtracts
  | broker identity action =>
      cases action with
      | sweepCount =>
          simp only [decrements, Option.some.injEq] at subtracts
          subst subtracts
          simp only [clusterStep] at taken
          split at taken
          · simp at taken
          · cases brokerStep_move taken with
            | uncounted removed =>
                have positive := balanced.pos_of_sweep (by rw [removed]; rfl)
                simp only [setBroker_brokers, Function.update_self]
                omega
      | _ => simp [decrements] at subtracts
  | submitInsert k =>
      simp only [decrements, Option.bind_eq_some_iff] at subtracts
      obtain ⟨submission, present, subtracts⟩ := subtracts
      split at subtracts
      next occupied =>
        simp only [Bool.and_eq_true] at occupied
        simp only [Option.some.injEq] at subtracts
        subst subtracts
        have positive := balanced.pos_of_submit present occupied.1
        cases clusterStep_move taken with
        | duplicate again _ _ =>
            rw [present, Option.some.injEq] at again
            subst again
            simp only [uncount, setBroker_brokers, Function.update_self]
            omega
        | accepted again _ absent =>
            rw [present, Option.some.injEq] at again
            subst again
            rw [absent] at occupied
            simp at occupied
      · simp at subtracts
  | pollEvent p event =>
      simp only [decrements, Option.bind_eq_some_iff] at subtracts
      obtain ⟨poll, polled, subtracts⟩ := subtracts
      simp only [clusterStep, polled, Option.bind_some] at taken
      split at subtracts
      next i result pc =>
        simp only [Option.some.injEq] at subtracts
        subst subtracts
        have positive := balanced.pos_of_poll polled (Or.inr (by rw [pc]; rfl))
        unfold pollEvent at taken
        split at taken
        · simp at taken
        · cases event <;> simp only [pc, Option.some.injEq, reduceCtorEq] at taken
          subst taken
          simp only [uncount, setPc_brokers, setBroker_brokers, Function.update_self]
          omega
      next record source deadline pc =>
        split at subtracts
        next occupied =>
          simp only [Option.some.injEq] at subtracts
          subst subtracts
          have positive := balanced.pos_of_poll polled (Or.inl (by rw [pc]; rfl))
          obtain ⟨j, held⟩ := Option.isSome_iff_exists.mp occupied
          unfold pollEvent at taken
          split at taken
          · simp at taken
          · cases event <;> simp only [pc, Option.some.injEq, reduceCtorEq] at taken
            subst taken
            simp only [pollInsert, held, uncount, setPc_brokers, setBroker_brokers,
              Function.update_self]
            omega
        · simp at subtracts
      · simp at subtracts

theorem jobCount_setBroker_le {changed : String} {state : BrokerState}
    (fewer : state.jobCount ≤ (s.brokers changed).jobCount) (broker : String) :
    ((s.setBroker changed state).brokers broker).jobCount ≤ (s.brokers broker).jobCount := by
  by_cases here : broker = changed
  · subst here
    simpa using fewer
  · simp [here]

theorem submitBegin_jobCount {identity : BrokerIdentity} {router : Switch} {job : Job}
    {random : List Nat} (taken : submitBegin cfg s identity router job random = some next)
    (broker : String) :
    (next.brokers broker).jobCount ≤ max (s.brokers broker).jobCount cfg.maxJobs := by
  unfold submitBegin at taken
  split at taken
  · simp at taken
  · dsimp only at taken
    split at taken <;> simp only [Option.some.injEq] at taken <;> subst taken
    · exact le_max_left _ _
    next room =>
      by_cases here : broker = identity.brokerId
      · subst here
        simp only [setBroker_brokers, Function.update_self]
        omega
      · simp [here]

theorem brokerStep_jobCount {identity : BrokerIdentity} {action : BrokerAction}
    (taken : brokerStep cfg s identity action = some next) (broker : String) :
    (next.brokers broker).jobCount ≤ max (s.brokers broker).jobCount cfg.maxJobs := by
  cases brokerStep_move taken with
  | counted _ => exact submitBegin_jobCount taken broker
  | leased | unleased | begun | overloaded _ => exact le_max_left _ _
  | deleted _ _ _ | cleaned _ =>
      rw [deleteRecord_brokers]
      refine le_trans (jobCount_setBroker_le ?_ broker) (le_max_left _ _)
      exact le_rfl
  | uncounted _ =>
      exact le_trans (jobCount_setBroker_le (Nat.sub_le _ _) broker) (le_max_left _ _)
  | _ =>
      refine le_trans (jobCount_setBroker_le ?_ broker) (le_max_left _ _)
      exact le_rfl

theorem clusterStep_jobCount {action : ClusterAction} {broker : String}
    (enforced : EnforcesLimit broker s action) (taken : clusterStep cfg s action = some next) :
    (next.brokers broker).jobCount ≤ max (s.brokers broker).jobCount cfg.maxJobs := by
  cases clusterStep_move taken with
  | @broker identity action _ alive _ =>
      simp only [clusterStep, alive, Bool.false_eq_true, if_false] at taken
      exact brokerStep_jobCount taken broker
  | advanced => exact le_max_left _ _
  | duplicate _ _ _ =>
      exact le_trans (jobCount_setBroker_le (Nat.sub_le _ _) broker) (le_max_left _ _)
  | accepted _ _ _ =>
      refine le_trans (jobCount_setBroker_le ?_ broker) (le_max_left _ _)
      exact le_rfl
  | task _ move =>
      rw [taskMove_brokers move]
      exact le_max_left _ _
  | @poll p poll event _ polled move =>
      cases move with
      | uncounted _ | duplicate _ _ =>
          exact le_trans (jobCount_setBroker_le (Nat.sub_le _ _) broker) (le_max_left _ _)
      | removed _ _ | scheduled _ _ _ | restored _ _ =>
          refine le_trans (jobCount_setBroker_le ?_ broker) (le_max_left _ _)
          exact le_rfl
      | counted pc =>
          have elsewhere : broker ≠ poll.broker := fun same =>
            enforced p poll _ _ rfl polled same.symm pc
          simp [pollRestore, elsewhere]
      | _ => exact le_max_left _ _

end Step

/-- On every broker the counter is the map size plus the submissions in flight plus the removals
in flight, every subtraction takes exactly one, and without restored submissions the map holds
at most `maxJobs` jobs. -/
theorem job_counter_exact {cfg : Config} {now : Nat} {actions : List ClusterAction} {s : Cluster}
    (path : Path (clusterStep cfg) Always (Cluster.new now) actions s) (broker : String) :
    (s.brokers broker).jobCount =
        HashMap.size (s.brokers broker).jobs + uninserted s broker + undecremented s broker ∧
      (∀ action next, clusterStep cfg s action = some next → decrements s action = some broker →
        (next.brokers broker).jobCount + 1 = (s.brokers broker).jobCount) ∧
      (Path (clusterStep cfg) (EnforcesLimit broker) (Cluster.new now) actions s →
        HashMap.size (s.brokers broker).jobs ≤ cfg.maxJobs) := by
  have balanced := CounterExact.of_path path
  refine ⟨balanced broker, ?_, ?_⟩
  · intro action next taken subtracts
    exact decrement_exact balanced taken subtracts
  · intro enforced
    have initially : WithinLimit cfg broker (Cluster.new now) := Nat.zero_le _
    have limited : WithinLimit cfg broker s := by
      refine enforced.invariant initially ?_
      intro state action next below allowed taken
      have step := clusterStep_jobCount allowed taken
      unfold WithinLimit at below ⊢
      omega
    unfold WithinLimit at limited
    have counted := balanced broker
    omega

def Scenario.resubmit : List ClusterAction :=
  [.broker brokerA (.submit config.router job []), .submitInsert 0,
    .broker brokerA (.submit config.router job [])]

open Scenario in
theorem job_counter_exact_resubmit :
    ∃ s, run (clusterStep config) (Cluster.new 0) resubmit = some s ∧
      uninserted s brokerA.brokerId = 1 ∧
      ((s.brokers brokerA.brokerId).jobCount = HashMap.size (s.brokers brokerA.brokerId).jobs +
          uninserted s brokerA.brokerId + undecremented s brokerA.brokerId ∧
        (∀ action next, clusterStep config s action = some next →
          decrements s action = some brokerA.brokerId →
          (next.brokers brokerA.brokerId).jobCount + 1 = (s.brokers brokerA.brokerId).jobCount) ∧
        (Path (clusterStep config) (EnforcesLimit brokerA.brokerId) (Cluster.new 0) resubmit s →
          HashMap.size (s.brokers brokerA.brokerId).jobs ≤ config.maxJobs)) := by
  have ran : (run (clusterStep config) (Cluster.new 0) resubmit).any
      (fun s => decide (uninserted s brokerA.brokerId = 1)) = true := by decide +kernel
  obtain ⟨s, finished, waiting⟩ := (Option.any_eq_true _ _).mp ran
  exact ⟨s, finished, of_decide_eq_true waiting,
    job_counter_exact (Path.of_run _ _ finished) brokerA.brokerId⟩

end BitsBroker
