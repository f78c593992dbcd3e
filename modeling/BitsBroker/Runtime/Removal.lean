import BitsBroker.Runtime.Delivery

/-!
Removals from the job map. A poll works on the instance it looked up but removes by
identifier, and only the sweeper looks at the instance again before it removes. A poll that
looked an instance up before the sweeper took it out can still take its result, and then
removes whatever the map holds under the identifier by then. As long as no job enters the map
while such a poll is under way, every removal is for the instance whose result was taken, or
by the sweeper for an instance with a result and no client.
-/

namespace BitsBroker

open RequestId Cluster Table Transition

def Instance.spent (inst : Instance) : Bool :=
  inst.result.isNone && match inst.task with
    | .done => true
    | _ => false

/-- The instance whose result the poll can still take, or took without removing it yet. -/
def mayRemove (s : Cluster) (poll : Poll) : Option Nat :=
  match poll.pc with
  | .connect i | .check i | .wait i | .recheck i =>
      if s.instances[i]?.any Instance.spent then none else some i
  | .remove i _ => some i
  | _ => none

/-- The broker and the identifier under which a step adds a job to a map. -/
def inserts (s : Cluster) : ClusterAction → Option (String × String)
  | .submitInsert k => s.submits[k]?.bind fun submission =>
      if ((s.brokers submission.broker).jobs.lookup submission.job.id).isNone then
        some (submission.broker, submission.job.id)
      else none
  | .pollEvent p .step => s.polls[p]?.bind fun poll =>
      match poll.pc with
      | .insert record _ _ =>
          if ((s.brokers poll.broker).jobs.lookup record.jobId).isNone then
            some (poll.broker, record.jobId)
          else none
      | _ => none
  | _ => none

def InsertsAlone (s : Cluster) (action : ClusterAction) : Prop :=
  ∀ broker id, inserts s action = some (broker, id) → ∀ (p : Nat) poll, s.polls[p]? = some poll →
    poll.broker = broker → poll.id = id → mayRemove s poll = none

def RemovesOwn (s : Cluster) : Prop :=
  ∀ (p : Nat) poll i j, s.polls[p]? = some poll → mayRemove s poll = some i →
    (s.brokers poll.broker).jobs.lookup poll.id = some j → j = i

section Step

variable {cfg : Config} {s next : Cluster} {action : ClusterAction}

theorem spent_keep {i : Nat} (move : ClusterMove cfg s action next)
    (spent : s.instances[i]?.any Instance.spent = true) :
    next.instances[i]?.any Instance.spent = true := by
  obtain ⟨inst, present, spent⟩ := (Option.any_eq_true _ _).mp spent
  obtain ⟨later, found, _⟩ := instance_of_launch
    ((clusterMove_growth move).keeps (launches_of_instance present))
  have bound := (List.getElem?_eq_some_iff.mp present).1
  rw [found, Option.any_some]
  simp only [Instance.spent, Bool.and_eq_true, Option.isNone_iff_eq_none] at spent ⊢
  obtain ⟨empty, done⟩ := spent
  have finished : inst.task = .done := by
    cases task : inst.task <;> simp [task] at done
    rfl
  rcases clusterMove_instance move found with ⟨before, known, step⟩ | ⟨last, _⟩
  · rw [present, Option.some.injEq] at known
    subst known
    cases step with
    | same sameResult sameTask => exact ⟨by rw [sameResult, empty], by rw [sameTask, finished]⟩
    | emptied none sameTask => exact ⟨none, by rw [sameTask, finished]⟩
    | running busy _ | done busy _ => exact absurd finished busy
  · omega

theorem mayRemove_of_holding {poll : Poll} {i : Nat}
    (pc : poll.pc = .connect i ∨ poll.pc = .check i ∨ poll.pc = .wait i ∨ poll.pc = .recheck i)
    (state : Cluster) : mayRemove state poll =
      if state.instances[i]?.any Instance.spent then none else some i := by
  rcases pc with pc | pc | pc | pc <;> simp [mayRemove, pc]

theorem holding_of_mayRemove {poll : Poll} {i : Nat} (may : mayRemove s poll = some i) :
    poll.pc.holding = some i := by
  unfold mayRemove at may
  split at may
  case h_5 pc => rw [pc]; exact may
  case h_6 => simp at may
  all_goals
    split at may
    · simp at may
    next pc _ => rw [pc]; exact may

theorem claimedPc_holding (poll : Poll) (owner : String) (result : ClaimResult) :
    (claimedPc s poll owner result).holding = none := by
  unfold claimedPc
  split
  · rfl
  · split <;> rfl
  · rfl

theorem mayRemove_back {poll : Poll} {i : Nat} (move : ClusterMove cfg s action next)
    (may : mayRemove next poll = some i) : mayRemove s poll = some i := by
  have back : ∀ j, (if next.instances[j]?.any Instance.spent then none else some j) = some i →
      (if s.instances[j]?.any Instance.spent then none else some j) = some i := by
    intro j after
    split at after
    · simp at after
    next fresh =>
      have before : ¬ s.instances[j]?.any Instance.spent = true :=
        fun spent => fresh (spent_keep move spent)
      rw [if_neg before]
      exact after
  unfold mayRemove at may ⊢
  split at may
  · exact back _ may
  · exact back _ may
  · exact back _ may
  · exact back _ may
  · exact may
  · simp at may

theorem pollMove_mayRemove {p : Nat} {poll later : Poll} {event : PollEvent} {i : Nat}
    (polled : s.polls[p]? = some poll) (move : PollMove cfg s p poll event next)
    (present : next.polls[p]? = some later) (may : mayRemove next later = some i) :
    mayRemove s poll = some i ∨
      (s.brokers poll.broker).jobs.lookup poll.id = some i ∧ next.brokers = s.brokers := by
  have before := mayRemove_back (.poll polled move) may
  cases move with
  | @found _ j _ held =>
      have pc := pc_of_set present
      rw [mayRemove_of_holding (Or.inl pc)] at before
      split at before
      · simp at before
      · simp only [Option.some.injEq] at before
        exact Or.inr ⟨before ▸ held, rfl⟩
  | connected pc _ =>
      rw [mayRemove_of_holding (Or.inr (Or.inl (pc_of_set present)))] at before
      rw [mayRemove_of_holding (Or.inl pc)]
      exact Or.inl before
  | parked pc _ _ =>
      rw [mayRemove_of_holding (Or.inr (Or.inr (Or.inl (pc_of_set present))))] at before
      rw [mayRemove_of_holding (Or.inr (Or.inl pc))]
      exact Or.inl before
  | woken pc =>
      have eq := pc_of_set present
      rw [mayRemove_of_holding (Or.inr (Or.inr (Or.inl pc)))]
      split at eq
      · rw [mayRemove_of_holding (Or.inr (Or.inl eq))] at before
        exact Or.inl before
      · rw [mayRemove_of_holding (Or.inr (Or.inr (Or.inr eq)))] at before
        exact Or.inl before
  | @took j inst result pc known stored _ =>
      have fresh : ¬ s.instances[j]?.any Instance.spent = true := by
        simp [known, Instance.spent, stored]
      have same : i = j := by simpa [mayRemove, pc_of_set present] using before.symm
      subst same
      rw [mayRemove_of_holding (Or.inr (pc.imp id Or.inr)), if_neg fresh]
      exact Or.inl rfl
  | @missed resumed _ _ =>
      have holding := holding_of_mayRemove before
      rw [pc_of_set present, (pollMiss_idle poll resumed).1] at holding
      simp at holding
  | claimed _ _ =>
      have holding := holding_of_mayRemove before
      rw [pc_of_set present, claimedPc_holding] at holding
      simp at holding
  | pending _ _ => simp [mayRemove, pc_of_set present, pollPending] at before
  | _ => simp [mayRemove, pc_of_set present] at before

theorem lookup_of_next {b id : String} {j : Nat} (move : ClusterMove cfg s action next)
    (held : (next.brokers b).jobs.lookup id = some j) :
    (s.brokers b).jobs.lookup id = some j ∨ inserts s action = some (b, id) := by
  cases move with
  | advanced => exact Or.inl held
  | broker _ move => exact Or.inl (brokerMove_jobs move held)
  | duplicate _ _ _ => exact Or.inl (jobs_of_update held fun _ _ kept => kept)
  | accepted present _ absent =>
      rcases jobs_of_insertJob held with kept | ⟨_, rfl, rfl⟩
      · exact Or.inl kept
      · exact Or.inr (by simp [inserts, present, submittedInstance, absent])
  | task _ move =>
      rw [taskMove_brokers move] at held
      exact Or.inl held
  | poll polled move =>
      cases move with
      | removed _ _ => exact Or.inl (jobs_of_update held fun _ _ => lookup_of_erase)
      | uncounted _ | scheduled _ _ _ | counted _ | duplicate _ _ =>
          exact Or.inl (jobs_of_update held fun _ _ kept => kept)
      | restored pc absent =>
          rcases jobs_of_insertJob held with kept | ⟨_, rfl, rfl⟩
          · exact Or.inl kept
          · exact Or.inr (by simp [inserts, polled, pc, submittedInstance, Job.restore, absent])
      | _ => exact Or.inl held

theorem RemovesOwn.step (own : RemovesOwn s) (alone : InsertsAlone s action)
    (taken : clusterStep cfg s action = some next) : RemovesOwn next := by
  have move := clusterStep_move taken
  have kept : ∀ (p : Nat) poll i j, s.polls[p]? = some poll → mayRemove s poll = some i →
      (next.brokers poll.broker).jobs.lookup poll.id = some j → j = i := by
    intro p poll i j polled may held
    rcases lookup_of_next move held with before | inserted
    · exact own p poll i j polled may before
    · rw [alone _ _ inserted p poll polled rfl rfl] at may
      simp at may
  intro p poll i j present may held
  cases clusterMove_polls move present with
  | same polled => exact kept p poll i j polled (mayRemove_back move may) held
  | begun _ => simp [mayRemove] at may
  | @moved before event pc polled moved _ =>
      rcases pollMove_mayRemove polled moved present may with earlier | ⟨found, sameBrokers⟩
      · exact kept p before i j polled earlier held
      · rw [sameBrokers] at held
        rw [found, Option.some.injEq] at held
        exact held.symm

theorem jobs_of_same {changed b : String} {state : BrokerState}
    (same : state.jobs = (s.brokers changed).jobs) :
    (Function.update s.brokers changed state b).jobs = (s.brokers b).jobs := by
  rw [jobs_setBroker]
  split
  next here => rw [here, same]
  · rfl

theorem erased_of_gone {changed b key id : String} {state : BrokerState} {i : Nat}
    (erased : state.jobs = AList.erase key (s.brokers changed).jobs)
    (held : (s.brokers b).jobs.lookup id = some i)
    (gone : (Function.update s.brokers changed state b).jobs.lookup id ≠ some i) :
    b = changed ∧ id = key := by
  rw [jobs_setBroker] at gone
  split at gone
  next here =>
    refine ⟨here, ?_⟩
    rw [erased, HashMap.lookup_erase_eq] at gone
    split at gone
    · assumption
    · exact absurd (here ▸ held) gone
  · exact absurd held gone

theorem insertJob_keeps {inst : Instance} {b id : String} {i : Nat}
    (absent : (s.brokers inst.broker).jobs.lookup inst.job.id = none)
    (held : (s.brokers b).jobs.lookup id = some i) :
    ((s.insertJob inst).brokers b).jobs.lookup id = some i := by
  simp only [insertJob, setBroker_brokers, jobs_setBroker]
  split
  next here =>
    subst here
    have different : id ≠ inst.job.id := by
      rintro rfl
      simp [absent] at held
    rw [HashMap.lookup_insert_eq, if_neg different]
    exact held
  · exact held

def SweptFrom (s : Cluster) (action : ClusterAction) (b : String) (i : Nat) : Prop :=
  ∃ identity inst, action = .broker identity .sweepRemove ∧ identity.brokerId = b ∧
    s.instances[i]? = some inst ∧ inst.result.isSome = true ∧ inst.clientPresent s.now = false

theorem brokerMove_removal {identity : BrokerIdentity} {label : BrokerAction} {b id : String}
    {i : Nat} (move : BrokerMove cfg s identity label next)
    (held : (s.brokers b).jobs.lookup id = some i)
    (gone : (next.brokers b).jobs.lookup id ≠ some i) :
    SweptFrom s (.broker identity label) b i := by
  cases move with
  | leased | unleased | overloaded _ | begun => exact absurd held gone
  | swept _ expired =>
      obtain ⟨rfl, rfl⟩ := erased_of_gone rfl held gone
      obtain ⟨found, inst, present, ready, absent⟩ := expiredInstance_some expired
      rw [held, Option.some.injEq] at found
      subst found
      exact ⟨identity, inst, rfl, rfl, present, ready, absent⟩
  | deleted _ _ _ | cleaned _ =>
      rw [deleteRecord_brokers, setBroker_brokers, jobs_of_same] at gone
      · exact absurd held gone
      · rfl
  | _ =>
      rw [setBroker_brokers, jobs_of_same] at gone
      · exact absurd held gone
      · rfl

theorem removal_cases {b id : String} {i : Nat} (move : ClusterMove cfg s action next)
    (held : (s.brokers b).jobs.lookup id = some i)
    (gone : (next.brokers b).jobs.lookup id ≠ some i) :
    (∃ p poll k result, action = .pollEvent p .step ∧ s.polls[p]? = some poll ∧
      poll.broker = b ∧ poll.id = id ∧ poll.pc = .remove k result) ∨ SweptFrom s action b i := by
  cases move with
  | advanced => exact absurd held gone
  | broker _ move => exact Or.inr (brokerMove_removal move held gone)
  | duplicate _ _ _ =>
      rw [uncount, setBroker_brokers, jobs_of_same] at gone
      · exact absurd held gone
      · rfl
  | accepted _ _ absent => exact absurd (insertJob_keeps absent held) gone
  | task _ move =>
      rw [taskMove_brokers move] at gone
      exact absurd held gone
  | poll polled move =>
      cases move with
      | removed pc _ =>
          obtain ⟨rfl, rfl⟩ := erased_of_gone rfl held gone
          exact Or.inl ⟨_, _, _, _, rfl, polled, rfl, rfl, pc⟩
      | restored _ absent => exact absurd (insertJob_keeps absent held) gone
      | uncounted _ | scheduled _ _ _ | counted _ | duplicate _ _ =>
          first
          | rw [setPc_brokers, uncount, setBroker_brokers, jobs_of_same] at gone
          | rw [pollRestore, setPc_brokers, setBroker_brokers, jobs_of_same] at gone
          | rw [setPc_brokers, setBroker_brokers, jobs_of_same] at gone
          · exact absurd held gone
          · rfl
      | _ => exact absurd held gone

theorem pollMove_remove {p : Nat} {poll later : Poll} {event : PollEvent} {i : Nat}
    {result : JobResult} (move : PollMove cfg s p poll event next)
    (present : next.polls[p]? = some later) (removing : later.pc = .remove i result) :
    event = .step ∧ takesFrom s poll = some i ∧
      ∃ inst, s.instances[i]? = some inst ∧ inst.result = some result := by
  cases move with
  | took _ known stored takes =>
      simp only [pc_of_set present, PollPc.remove.injEq] at removing
      obtain ⟨rfl, rfl⟩ := removing
      exact ⟨rfl, takes, _, known, stored⟩
  | missed _ _ =>
      rw [pc_of_set present] at removing
      unfold pollMiss at removing
      repeat' split at removing
      all_goals simp at removing
  | claimed _ _ =>
      rw [pc_of_set present] at removing
      unfold claimedPc at removing
      repeat' split at removing
      all_goals simp at removing
  | woken _ =>
      rw [pc_of_set present] at removing
      split at removing <;> simp at removing
  | pending _ _ => simp [pc_of_set present, pollPending] at removing
  | _ => simp [pc_of_set present] at removing

end Step

/-- Some step of the run is the one with which the poll took the result out of the instance. -/
def TookResult (cfg : Config) (now : Nat) (actions : List ClusterAction) (p i : Nat)
    (result : JobResult) : Prop :=
  ∃ before after state poll inst, actions = before ++ .pollEvent p .step :: after ∧
    Path (clusterStep cfg) Always (Cluster.new now) before state ∧
    state.polls[p]? = some poll ∧ takesFrom state poll = some i ∧
    state.instances[i]? = some inst ∧ inst.result = some result

def Removing (p i : Nat) (result : JobResult) (s : Cluster) : Prop :=
  ∃ poll, s.polls[p]? = some poll ∧ poll.pc = .remove i result

theorem tookResult_of_removing {cfg : Config} {allowed : Cluster → ClusterAction → Prop}
    {now : Nat} {actions : List ClusterAction} {s : Cluster}
    (path : Path (clusterStep cfg) allowed (Cluster.new now) actions s) {p i : Nat}
    {result : JobResult} (removes : Removing p i result s) :
    TookResult cfg now actions p i result := by
  have initially : ¬ Removing p i result (Cluster.new now) := by simp [Removing, Cluster.new]
  obtain ⟨before, action, after, state, next, eq, first, fresh, _, taken, later, present, removing⟩ :=
    path.established initially removes
  cases clusterMove_polls (clusterStep_move taken) present with
  | same kept => exact absurd ⟨later, kept, removing⟩ fresh
  | begun _ => simp at removing
  | @moved known event pc there move _ =>
      obtain ⟨rfl, takes, inst, found, stored⟩ := pollMove_remove move present removing
      exact ⟨before, after, state, known, inst, eq, first.mono fun _ _ _ => trivial, there, takes,
        found, stored⟩

/-- While no job enters the map under an identifier that an earlier instance's poll still works
on, an instance leaves the map only through the poll that took its result, or through the
sweeper while it has a result and no client. -/
theorem removed_only_with_own_result {cfg : Config} {now : Nat} {actions : List ClusterAction}
    {s next : Cluster} {action : ClusterAction} {b id : String} {i : Nat}
    (path : Path (clusterStep cfg) InsertsAlone (Cluster.new now) actions s)
    (taken : clusterStep cfg s action = some next)
    (held : (s.brokers b).jobs.lookup id = some i)
    (gone : (next.brokers b).jobs.lookup id ≠ some i) :
    (∃ p poll result, action = .pollEvent p .step ∧ s.polls[p]? = some poll ∧ poll.broker = b ∧
      poll.id = id ∧ poll.pc = .remove i result ∧ TookResult cfg now actions p i result) ∨
    SweptFrom s action b i := by
  have own : RemovesOwn s := by
    refine path.invariant ?_ fun _ _ _ own alone taken => own.step alone taken
    intro p poll i j polled
    simp [Cluster.new] at polled
  rcases removal_cases (clusterStep_move taken) held gone with
    ⟨p, poll, k, result, rfl, polled, rfl, rfl, pc⟩ | swept
  · obtain rfl := own p poll k i polled (by simp [mayRemove, pc]) held
    exact Or.inl ⟨p, poll, result, rfl, polled, rfl, rfl, pc,
      tookResult_of_removing path ⟨poll, polled, pc⟩⟩
  · exact Or.inr swept

def insertsAlone (s : Cluster) (action : ClusterAction) : Bool :=
  match inserts s action with
  | none => true
  | some (broker, id) => s.polls.all fun poll =>
      !(decide (poll.broker = broker) && decide (poll.id = id)) || (mayRemove s poll).isNone

theorem insertsAlone_sound (s : Cluster) (action : ClusterAction)
    (checked : insertsAlone s action = true) : InsertsAlone s action := by
  intro broker id inserted p poll polled sameBroker sameId
  simp only [insertsAlone, inserted, List.all_eq_true] at checked
  have clear := checked poll (List.mem_of_getElem? polled)
  simpa [sameBroker, sameId] using clear

namespace Scenario

def finishOn (broker : BrokerIdentity) : List ClusterAction :=
  persistOn broker config.router ++
    [.taskEvent 0 .step, .taskEvent 0 (.resolve (.failed "no match")), .taskEvent 0 .step]

/-- The poll has looked the finished job up, the sweeper removes it, a second poll restores it
from the record, and then the first poll takes the result. -/
def sweptUnderPoll : List ClusterAction :=
  finishOn brokerA ++ [.advance 10, .broker brokerA (.poll jobId false), .pollEvent 0 .step,
    .broker brokerA (.sweepMark jobId), .broker brokerA .sweepStart,
    .broker brokerA .sweepRemove, .broker brokerA (.poll jobId false)] ++ pollSteps 1 4 ++
    pollSteps 0 2

def takeOnce : List ClusterAction :=
  finishOn brokerA ++ [.broker brokerA (.poll jobId false)] ++ pollSteps 0 3

/-- A poll of the first instance is about to remove the map entry of a second one that has no
result yet. -/
def removesOther (s : Cluster) : Bool :=
  decide ((s.brokers brokerA.brokerId).jobs.lookup jobId = some 1) &&
    s.instances[1]?.any (fun inst => inst.result.isNone) &&
    s.polls[0]?.any (fun poll => match poll.pc with
      | .remove 0 _ => true
      | _ => false) &&
    (clusterStep config s (.pollEvent 0 .step)).any fun next =>
      decide ((next.brokers brokerA.brokerId).jobs.lookup jobId = none)

end Scenario

open Scenario in
theorem removed_only_with_own_result_poll :
    ∃ s next,
      Path (clusterStep config) InsertsAlone (Cluster.new 0) takeOnce s ∧
      clusterStep config s (.pollEvent 0 .step) = some next ∧
      (s.brokers brokerA.brokerId).jobs.lookup jobId = some 0 ∧
      (next.brokers brokerA.brokerId).jobs.lookup jobId ≠ some 0 ∧
      ((∃ p poll result, ClusterAction.pollEvent 0 .step = .pollEvent p .step ∧
        s.polls[p]? = some poll ∧ poll.broker = brokerA.brokerId ∧ poll.id = jobId ∧
        poll.pc = .remove 0 result ∧ TookResult config 0 takeOnce p 0 result) ∨
      SweptFrom s (.pollEvent 0 .step) brokerA.brokerId 0) := by
  have ran : (run (fun s a => if insertsAlone s a then clusterStep config s a else none)
      (Cluster.new 0) takeOnce).any (fun s =>
        decide ((s.brokers brokerA.brokerId).jobs.lookup jobId = some 0) &&
        (clusterStep config s (.pollEvent 0 .step)).any fun next =>
          decide ((next.brokers brokerA.brokerId).jobs.lookup jobId = none)) = true := by
    decide +kernel
  obtain ⟨s, finished, facts⟩ := (Option.any_eq_true _ _).mp ran
  simp only [Bool.and_eq_true, decide_eq_true_eq] at facts
  obtain ⟨held, facts⟩ := facts
  obtain ⟨next, taken, empty⟩ := (Option.any_eq_true _ _).mp facts
  have gone : (next.brokers brokerA.brokerId).jobs.lookup jobId ≠ some 0 := by
    rw [of_decide_eq_true empty]
    simp
  have path := Path.of_run_if insertsAlone_sound _ _ finished
  exact ⟨s, next, path, taken, held, gone, removed_only_with_own_result path taken held gone⟩

open Scenario in
theorem poll_removes_other_instance :
    ∃ s next poll result inst,
      run (clusterStep config) (Cluster.new 0) sweptUnderPoll = some s ∧
      clusterStep config s (.pollEvent 0 .step) = some next ∧
      s.polls[0]? = some poll ∧ poll.pc = .remove 0 result ∧
      (s.brokers brokerA.brokerId).jobs.lookup jobId = some 1 ∧
      (next.brokers brokerA.brokerId).jobs.lookup jobId = none ∧
      s.instances[1]? = some inst ∧ inst.result = none := by
  have ran : (run (clusterStep config) (Cluster.new 0) sweptUnderPoll).any removesOther = true := by
    decide +kernel
  obtain ⟨s, finished, facts⟩ := (Option.any_eq_true _ _).mp ran
  simp only [removesOther, Bool.and_eq_true, decide_eq_true_eq] at facts
  obtain ⟨⟨⟨held, second⟩, first⟩, facts⟩ := facts
  obtain ⟨inst, present, empty⟩ := (Option.any_eq_true _ _).mp second
  obtain ⟨poll, polled, removing⟩ := (Option.any_eq_true _ _).mp first
  obtain ⟨next, taken, gone⟩ := (Option.any_eq_true _ _).mp facts
  split at removing
  next result pc =>
    exact ⟨s, next, poll, result, inst, finished, taken, polled, pc, held,
      of_decide_eq_true gone, present, by simpa using empty⟩
  · simp at removing

end BitsBroker
