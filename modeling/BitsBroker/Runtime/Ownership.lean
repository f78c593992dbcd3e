import BitsBroker.Runtime.Wellformed

/-!
Who owns a record. A poll claims with the owner its identifier names, so the owner can
only leave that broker, once, and by a poll that saw its lease dead. With every
identifier submitted once, a record has a single writer, which is past writing by the
time the record exists: a deleted record never comes back.
-/

namespace BitsBroker

open RequestId Cluster Table Transition

def Known (s : Cluster) (id : String) : Prop := ∃ submission ∈ s.submits, submission.job.id = id

def SubmitsFresh (s : Cluster) : ClusterAction → String → Prop
  | .broker identity (.submit _ job random), id =>
      acceptedId identity s.now random job = .ok id → ¬ Known s id
  | _, _ => True

def SubmittedOnce (s : Cluster) (action : ClusterAction) : Prop :=
  ∀ id, SubmitsFresh s action id

def submittedOnce (s : Cluster) : ClusterAction → Bool
  | .broker identity (.submit _ job random) =>
      match acceptedId identity s.now random job with
      | .ok id => s.submits.all fun submission => decide (submission.job.id ≠ id)
      | .error _ => true
  | _ => true

theorem submittedOnce_sound (s : Cluster) (action : ClusterAction)
    (checked : submittedOnce s action = true) : SubmittedOnce s action := by
  intro id
  unfold submittedOnce at checked
  unfold SubmitsFresh
  split at checked
  · intro accepted
    rintro ⟨submission, member, same⟩
    simp only [accepted, List.all_eq_true, decide_eq_true_eq] at checked
    exact checked submission member same
  next other =>
    split
    · exact absurd rfl (other _ _ _ _)
    · trivial

def PollPc.expected : PollPc → Option String
  | .leaseOf owner | .claim owner => some owner
  | _ => none

theorem pollMiss_expected {poll : Poll} {resumed : Bool} {owner : String}
    (expected : (pollMiss poll resumed).expected = some owner) :
    slotFromJobId poll.id = .ok owner ∧
      (pollMiss poll resumed = .claim owner → owner = poll.broker) := by
  unfold pollMiss at *
  split at expected
  · simp [PollPc.expected] at expected
  · split at expected
    · simp [PollPc.expected] at expected
    · split at expected
      · simp [PollPc.expected] at expected
      next hint named =>
        split at expected <;> simp only [PollPc.expected, Option.some.injEq] at expected <;>
          subst expected
        · exact ⟨named, by simp_all⟩
        next same => exact ⟨named, fun _ => by simpa using same⟩

theorem claimedPc_expected (s : Cluster) (poll : Poll) (owner : String) (result : ClaimResult) :
    (claimedPc s poll owner result).expected = none := by
  cases result with
  | active current =>
      simp only [claimedPc]
      split <;> rfl
  | _ => rfl

inductive Expects (cfg : Config) (s : Cluster) (poll : Poll) (event : PollEvent)
    (owner : String) : PollPc → Prop
  | kept {pc} : poll.pc = pc → Expects cfg s poll event owner pc
  | hinted {pc} : slotFromJobId poll.id = .ok owner → (pc = .claim owner → owner = poll.broker) →
      Expects cfg s poll event owner pc
  | leaseDead : poll.pc = .leaseOf owner → event = .step →
      lookupOwnerLease cfg.divF64 s.store owner s.now = .missingOrExpired →
      Expects cfg s poll event owner (.claim owner)

theorem pc_of_set {s : Cluster} {p : Nat} {poll later : Poll} {pc : PollPc}
    (present : (s.polls.set p { poll with pc := pc })[p]? = some later) : later.pc = pc := by
  rcases getElem?_of_set present with ⟨_, rfl⟩ | ⟨other, _⟩
  · rfl
  · exact absurd rfl other

theorem pollMove_expects {cfg : Config} {s next : Cluster} {p : Nat} {poll later : Poll}
    {event : PollEvent} {owner : String} (move : PollMove cfg s p poll event next)
    (present : next.polls[p]? = some later) (expected : later.pc.expected = some owner) :
    Expects cfg s poll event owner later.pc := by
  cases move with
  | missed pc _ =>
      rw [pc_of_set present] at expected ⊢
      obtain ⟨named, mine⟩ := pollMiss_expected expected
      exact .hinted named mine
  | leaseDead pc dead =>
      rw [pc_of_set present] at expected ⊢
      simp only [PollPc.expected, Option.some.injEq] at expected
      subst expected
      exact .leaseDead pc rfl dead
  | retried pc =>
      rw [pc_of_set present]
      exact .kept pc
  | claimed _ _ => simp [pc_of_set present, claimedPc_expected] at expected
  | woken _ =>
      rw [pc_of_set present] at expected
      split at expected <;> simp [PollPc.expected] at expected
  | pending _ _ => simp [pc_of_set present, pollPending, PollPc.expected] at expected
  | _ =>
      rw [pc_of_set present] at expected
      simp [PollPc.expected] at expected

inductive SubmitsChange (s : Cluster) : ClusterAction → List Submit → Prop
  | same {action} : (∀ k, action ≠ .submitInsert k) → SubmitsChange s action s.submits
  | begun {identity : BrokerIdentity} {router job random submission} :
      acceptedId identity s.now random job = .ok submission.job.id →
      submission.broker = identity.brokerId →
      SubmitsChange s (.broker identity (.submit router job random)) (s.submits ++ [submission])
  | settled {k submission pc} : s.submits[k]? = some submission →
      (∀ deadline, pc ≠ .counted deadline) →
      SubmitsChange s (.submitInsert k) (s.submits.set k { submission with pc := pc })

theorem brokerMove_submits {cfg : Config} {s next : Cluster} {identity : BrokerIdentity}
    {action : BrokerAction} (move : BrokerMove cfg s identity action next) :
    SubmitsChange s (.broker identity action) next.submits := by
  cases move with
  | overloaded accepted | counted accepted => exact .begun accepted rfl
  | deleted _ _ _ | cleaned _ =>
      rw [deleteRecord_submits]
      exact .same (by simp)
  | _ => exact .same (by simp)

theorem pollMove_submits {cfg : Config} {s next : Cluster} {p : Nat} {poll : Poll}
    {event : PollEvent} (move : PollMove cfg s p poll event next) : next.submits = s.submits := by
  cases move <;> rfl

theorem taskMove_submits {cfg : Config} {s next : Cluster} {i : Nat} {inst : Instance}
    (move : TaskMove cfg s i inst next) : next.submits = s.submits := by
  cases move <;> rfl

theorem clusterMove_submits {cfg : Config} {s next : Cluster} {action : ClusterAction}
    (move : ClusterMove cfg s action next) : SubmitsChange s action next.submits := by
  cases move with
  | advanced => exact .same (by simp)
  | broker _ move => exact brokerMove_submits move
  | duplicate present _ _ | accepted present _ _ => exact .settled present (by simp)
  | poll _ move =>
      rw [pollMove_submits move]
      exact .same (by simp)
  | task _ move =>
      rw [taskMove_submits move]
      exact .same (by simp)

def IsIdentity (broker : String) : Prop := ∃ identity : BrokerIdentity, broker = identity.brokerId

theorem not_isIdentity_probe : ¬ IsIdentity "__never_expected__" := by
  rintro ⟨identity, eq⟩
  have member : '-' ∈ identity.brokerId.toList := by
    simp [BrokerIdentity.brokerId, String.toList_append, toString]
  rw [← eq] at member
  exact absurd member (by decide)

def Waiting (s : Cluster) (k : Nat) (id : String) : Prop :=
  ∃ submission deadline, s.submits[k]? = some submission ∧ submission.job.id = id ∧
    submission.pc = SubmitPc.counted deadline

def Upserter (s : Cluster) (i : Nat) (id : String) : Prop :=
  ∃ inst : Instance, s.instances[i]? = some inst ∧ inst.job.id = id ∧ inst.mayUpsert = true

def CanWrite (s : Cluster) (id : String) : Prop :=
  (∃ k, Waiting s k id) ∨ ∃ i, Upserter s i id

structure OwnershipWf (s : Cluster) : Prop where
  hinted (p : Nat) (poll : Poll) (owner : String) : s.polls[p]? = some poll →
    poll.pc.expected = some owner → slotFromJobId poll.id = .ok owner
  submitNamed (k : Nat) (submission : Submit) : s.submits[k]? = some submission →
    IsIdentity submission.broker
  pollNamed (p : Nat) (poll : Poll) : s.polls[p]? = some poll → IsIdentity poll.broker
  launchNamed (i : Nat) (launch : Launch) : s.launches[i]? = some launch →
    IsIdentity launch.broker
  recordNamed (id : String) (record : PersistentJobRecord) :
    s.store.recordOf id = some record → IsIdentity record.brokerId

structure SingleWriter (id : String) (s : Cluster) : Prop where
  once (k l : Nat) (left right : Submit) : s.submits[k]? = some left →
    s.submits[l]? = some right → left.job.id = id → right.job.id = id → k = l
  one (i j : Nat) : Upserter s i id → Upserter s j id → i = j
  waiting (k i : Nat) : Waiting s k id → ¬ Upserter s i id
  unwritten (record : PersistentJobRecord) : s.store.recordOf id = some record → ¬ CanWrite s id
  known (i : Nat) : Upserter s i id → Known s id
  recordKnown (record : PersistentJobRecord) : s.store.recordOf id = some record → Known s id

section Step

variable {cfg : Config} {s next : Cluster} {action : ClusterAction}

theorem OwnershipWf.step (wf : OwnershipWf s) (taken : clusterStep cfg s action = some next) :
    OwnershipWf next := by
  have move := clusterStep_move taken
  have submits := clusterMove_submits move
  have grown := clusterMove_growth move
  constructor
  · intro p poll owner present expected
    cases clusterMove_polls move present with
    | same kept => exact wf.hinted p poll owner kept expected
    | begun _ => simp [PollPc.expected] at expected
    | @moved before event pc known step _ =>
        cases pollMove_expects step present expected with
        | kept same => exact wf.hinted p before owner known (same ▸ expected)
        | hinted named _ => exact named
        | leaseDead at_ _ _ => exact wf.hinted p before owner known (by rw [at_]; rfl)
  · intro k submission present
    generalize next.submits = later at submits present
    cases submits with
    | same _ => exact wf.submitNamed k submission present
    | begun _ named =>
        rcases getElem?_of_snoc present with kept | ⟨_, rfl⟩
        · exact wf.submitNamed k submission kept
        · exact ⟨_, named⟩
    | @settled l settled _ known _ =>
        rcases getElem?_of_set present with ⟨_, rfl⟩ | ⟨_, kept⟩
        · exact wf.submitNamed l settled known
        · exact wf.submitNamed k submission kept
  · intro p poll present
    cases clusterMove_polls move present with
    | same kept => exact wf.pollNamed p poll kept
    | begun _ => exact ⟨_, rfl⟩
    | @moved before _ _ known _ _ => exact wf.pollNamed p before known
  · intro i launch present
    generalize next.launches = later at grown present
    cases grown with
    | same => exact wf.launchNamed i launch present
    | submitted known _ =>
        rcases getElem?_of_snoc present with kept | ⟨_, rfl⟩
        · exact wf.launchNamed i launch kept
        · exact wf.submitNamed _ _ known
    | restored known _ =>
        rcases getElem?_of_snoc present with kept | ⟨_, rfl⟩
        · exact wf.launchNamed i launch kept
        · exact wf.pollNamed _ _ known
  · intro id record stored
    have change := clusterMove_store move id
    rw [stored] at change
    generalize same : some record = later at change
    generalize next.writer id = writer at change
    cases change with
    | same => exact wf.recordNamed id record same.symm
    | deleted => simp at same
    | transferred known _ _ _ _ =>
        simp only [Option.some.injEq] at same
        exact same ▸ wf.pollNamed _ _ known
    | probed before probe =>
        exact absurd (probe ▸ wf.recordNamed id _ before) not_isIdentity_probe
    | written known _ _ =>
        simp only [Option.some.injEq] at same
        exact same ▸ wf.launchNamed _ _ (launches_of_instance known)

theorem Known.keep {id : String} (move : ClusterMove cfg s action next) (known : Known s id) :
    Known next id := by
  obtain ⟨submission, member, same⟩ := known
  have change := clusterMove_submits move
  unfold Known
  generalize next.submits = later at change
  cases change with
  | same _ => exact ⟨submission, member, same⟩
  | begun _ _ => exact ⟨submission, List.mem_append_left _ member, same⟩
  | @settled k settled pc present _ =>
      obtain ⟨l, present'⟩ := List.getElem?_of_mem member
      by_cases here : l = k
      · subst here
        rw [present] at present'
        simp only [Option.some.injEq] at present'
        subst present'
        exact ⟨_, List.mem_set (List.getElem?_eq_some_iff.mp present).1 _, same⟩
      · have kept : (s.submits.set k { settled with pc := pc })[l]? = some submission := by
          rw [List.getElem?_set_ne (Ne.symm here), present']
        exact ⟨submission, List.mem_of_getElem? kept, same⟩

theorem waiting_step {k : Nat} {id : String} (permitted : SubmitsFresh s action id)
    (move : ClusterMove cfg s action next) (waiting : Waiting next k id) :
    (Waiting s k id ∧ action ≠ .submitInsert k) ∨
      ((∀ l, action ≠ .submitInsert l) ∧ ¬ Known s id) := by
  obtain ⟨submission, deadline, present, sameId, counted⟩ := waiting
  have change := clusterMove_submits move
  generalize next.submits = later at change present
  cases change with
  | same other => exact Or.inl ⟨⟨submission, deadline, present, sameId, counted⟩, other k⟩
  | @begun _ _ _ _ fresh accepted _ =>
      rcases getElem?_of_snoc present with kept | ⟨_, rfl⟩
      · exact Or.inl ⟨⟨submission, deadline, kept, sameId, counted⟩, by simp⟩
      · exact Or.inr ⟨by simp, permitted (sameId ▸ accepted)⟩
  | settled known done =>
      rcases getElem?_of_set present with ⟨_, rfl⟩ | ⟨other, kept⟩
      · exact absurd counted (done deadline)
      · refine Or.inl ⟨⟨submission, deadline, kept, sameId, counted⟩, ?_⟩
        simpa using Ne.symm other

theorem upserter_step {i : Nat} {id : String} (move : ClusterMove cfg s action next)
    (upserter : Upserter next i id) :
    Upserter s i id ∨
      i = s.instances.length ∧ ∃ k, action = .submitInsert k ∧ Waiting s k id := by
  obtain ⟨inst, present, sameId, may⟩ := upserter
  rcases clusterMove_continues move present with
    ⟨before, known, same, weaker⟩ | ⟨last, ⟨k, submission, deadline, is, known, counted, launched⟩ | never⟩
  · have job : before.job = inst.job := congrArg Launch.job same
    exact Or.inl ⟨before, known, job ▸ sameId, weaker may⟩
  · have job : inst.job = submission.job := congrArg Launch.job launched
    exact Or.inr ⟨last, k, is, submission, deadline, known, job ▸ sameId, counted⟩
  · simp [never] at may

theorem canWrite_step {id : String} (permitted : SubmitsFresh s action id)
    (move : ClusterMove cfg s action next) (can : CanWrite next id) :
    CanWrite s id ∨ ¬ Known s id := by
  rcases can with ⟨k, waiting⟩ | ⟨i, upserter⟩
  · rcases waiting_step permitted move waiting with ⟨before, _⟩ | ⟨_, unknown⟩
    · exact Or.inl (Or.inl ⟨k, before⟩)
    · exact Or.inr unknown
  · rcases upserter_step move upserter with before | ⟨_, k, _, waiting⟩
    · exact Or.inl (Or.inr ⟨i, before⟩)
    · exact Or.inl (Or.inl ⟨k, waiting⟩)

theorem taskMove_upserting {i : Nat} {inst later : Instance} (task : inst.task = .upserting)
    (move : TaskMove cfg s i inst next) (present : next.instances[i]? = some later) :
    later.mayUpsert = false := by
  cases move with
  | upserted _ _ | upsertFailed _ =>
      rcases getElem?_of_set present with ⟨_, rfl⟩ | ⟨other, _⟩
      · rfl
      · exact absurd rfl other
  | started at_ | elapsed at_ _ _ | skipped at_ | marked at_ | resolved at_ | persisted at_
  | stored at_ => simp [task] at at_

theorem not_upserter_of_written {i : Nat} {inst : Instance} {event : TaskEvent} {id : String}
    (known : s.instances[i]? = some inst) (task : inst.task = .upserting)
    (move : ClusterMove cfg s (.taskEvent i event) next) : ¬ Upserter next i id := by
  rintro ⟨later, present, _, may⟩
  cases move with
  | task found move =>
      rw [known] at found
      simp only [Option.some.injEq] at found
      subst found
      simp [taskMove_upserting task move present] at may

variable {id : String}

theorem SingleWriter.once_step (wf : SingleWriter id s) (permitted : SubmitsFresh s action id)
    (move : ClusterMove cfg s action next) (k l : Nat) (left right : Submit)
    (leftIn : next.submits[k]? = some left) (rightIn : next.submits[l]? = some right)
    (leftId : left.job.id = id) (rightId : right.job.id = id) : k = l := by
  have change := clusterMove_submits move
  generalize next.submits = later at change leftIn rightIn
  cases change with
  | same _ => exact wf.once k l left right leftIn rightIn leftId rightId
  | begun accepted _ =>
      rcases getElem?_of_snoc leftIn with leftOld | ⟨leftLast, rfl⟩ <;>
        rcases getElem?_of_snoc rightIn with rightOld | ⟨rightLast, rfl⟩
      · exact wf.once k l left right leftOld rightOld leftId rightId
      · exact absurd ⟨left, List.mem_of_getElem? leftOld, leftId⟩ (permitted (rightId ▸ accepted))
      · exact absurd ⟨right, List.mem_of_getElem? rightOld, rightId⟩
          (permitted (leftId ▸ accepted))
      · omega
  | settled known _ =>
      rcases getElem?_of_set leftIn with ⟨rfl, rfl⟩ | ⟨_, leftOld⟩ <;>
        rcases getElem?_of_set rightIn with ⟨rfl, rfl⟩ | ⟨_, rightOld⟩
      · rfl
      · exact wf.once _ _ _ _ known rightOld leftId rightId
      · exact wf.once _ _ _ _ leftOld known leftId rightId
      · exact wf.once k l left right leftOld rightOld leftId rightId

theorem SingleWriter.one_step (wf : SingleWriter id s) (move : ClusterMove cfg s action next)
    (i j : Nat) (left : Upserter next i id) (right : Upserter next j id) : i = j := by
  rcases upserter_step move left with leftOld | ⟨leftLast, k, _, leftWaits⟩ <;>
    rcases upserter_step move right with rightOld | ⟨rightLast, l, _, rightWaits⟩
  · exact wf.one i j leftOld rightOld
  · exact absurd leftOld (wf.waiting l i rightWaits)
  · exact absurd rightOld (wf.waiting k j leftWaits)
  · omega

theorem SingleWriter.waiting_step (wf : SingleWriter id s)
    (permitted : SubmitsFresh s action id) (move : ClusterMove cfg s action next) (k i : Nat)
    (waiting : Waiting next k id) : ¬ Upserter next i id := by
  intro upserter
  rcases BitsBroker.waiting_step permitted move waiting with ⟨before, other⟩ | ⟨other, unknown⟩ <;>
    rcases upserter_step move upserter with old | ⟨_, l, is, inserted⟩
  · exact wf.waiting k i before old
  · obtain ⟨left, _, leftIn, leftId, _⟩ := before
    obtain ⟨right, _, rightIn, rightId, _⟩ := inserted
    have same := wf.once k l left right leftIn rightIn leftId rightId
    exact other (same ▸ is)
  · exact unknown (wf.known i old)
  · exact other l is

theorem SingleWriter.unwritten_step (wf : SingleWriter id s)
    (permitted : SubmitsFresh s action id) (move : ClusterMove cfg s action next)
    (record : PersistentJobRecord) (stored : next.store.recordOf id = some record) :
    ¬ CanWrite next id := by
  intro can
  have change := clusterMove_store move id
  rw [stored] at change
  have old : ∀ before, s.store.recordOf id = some before → False := by
    intro before found
    rcases canWrite_step permitted move can with can | unknown
    · exact wf.unwritten before found can
    · exact unknown (wf.recordKnown before found)
  generalize same : some record = later at change
  generalize next.writer id = writer at change
  cases change with
  | same => exact old record same.symm
  | deleted => simp at same
  | transferred _ _ _ found _ | probed found _ => exact old _ found
  | @written i inst event known task sameId =>
      have upserter : Upserter s i id := ⟨inst, known, sameId, by simp [Instance.mayUpsert, task]⟩
      rcases can with ⟨k, waiting⟩ | ⟨j, later⟩
      · rcases BitsBroker.waiting_step permitted move waiting with ⟨before, _⟩ | ⟨_, unknown⟩
        · exact wf.waiting k i before upserter
        · exact unknown (wf.known i upserter)
      · rcases upserter_step move later with before | ⟨_, k, is, _⟩
        · have here := wf.one i j upserter before
          subst here
          exact not_upserter_of_written known task move later
        · simp at is

theorem SingleWriter.known_step (wf : SingleWriter id s) (move : ClusterMove cfg s action next)
    (i : Nat) (upserter : Upserter next i id) : Known next id := by
  refine Known.keep move ?_
  rcases upserter_step move upserter with old | ⟨_, k, _, submission, _, present, sameId, _⟩
  · exact wf.known i old
  · exact ⟨submission, List.mem_of_getElem? present, sameId⟩

theorem SingleWriter.recordKnown_step (wf : SingleWriter id s)
    (move : ClusterMove cfg s action next) (record : PersistentJobRecord)
    (stored : next.store.recordOf id = some record) : Known next id := by
  refine Known.keep move ?_
  have change := clusterMove_store move id
  rw [stored] at change
  generalize same : some record = later at change
  generalize next.writer id = writer at change
  cases change with
  | same => exact wf.recordKnown record same.symm
  | deleted => simp at same
  | transferred _ _ _ found _ | probed found _ => exact wf.recordKnown _ found
  | @written i inst _ known task sameId =>
      exact wf.known i ⟨inst, known, sameId, by simp [Instance.mayUpsert, task]⟩

theorem SingleWriter.step (wf : SingleWriter id s) (permitted : SubmitsFresh s action id)
    (taken : clusterStep cfg s action = some next) : SingleWriter id next := by
  have move := clusterStep_move taken
  constructor
  · exact wf.once_step permitted move
  · exact wf.one_step move
  · exact wf.waiting_step permitted move
  · exact wf.unwritten_step permitted move
  · exact wf.known_step move
  · exact wf.recordKnown_step move

end Step

theorem recordOf_new (id : String) : MemoryStore.new.recordOf id = none := by
  unfold MemoryStore.recordOf MemoryStore.new
  split <;> simp

theorem OwnershipWf.initial (now : Nat) : OwnershipWf (Cluster.new now) := by
  constructor
  · intro p poll owner present
    simp [Cluster.new] at present
  · intro k submission present
    simp [Cluster.new] at present
  · intro p poll present
    simp [Cluster.new] at present
  · intro i launch present
    simp [Cluster.new, launches] at present
  · intro id record stored
    simp [Cluster.new, recordOf_new] at stored

theorem SingleWriter.initial (id : String) (now : Nat) : SingleWriter id (Cluster.new now) := by
  constructor
  · intro k l left right present
    simp [Cluster.new] at present
  · rintro i j ⟨inst, present, _⟩
    simp [Cluster.new] at present
  · rintro k i ⟨submission, _, present, _⟩
    simp [Cluster.new] at present
  · intro record stored
    simp [Cluster.new, recordOf_new] at stored
  · rintro i ⟨inst, present, _⟩
    simp [Cluster.new] at present
  · intro record stored
    simp [Cluster.new, recordOf_new] at stored

theorem keyed_of_recordOf {store : MemoryStore} {id : String} {record : PersistentJobRecord}
    (found : store.recordOf id = some record) : ∃ key, memoryJobKey id = .ok key := by
  unfold MemoryStore.recordOf at found
  split at found
  · simp at found
  next key keyed => exact ⟨key, keyed⟩

section Path

variable {cfg : Config} {now : Nat} {actions : List ClusterAction} {s next : Cluster}

theorem OwnershipWf.of_path {allowed : Cluster → ClusterAction → Prop}
    (path : Path (clusterStep cfg) allowed (Cluster.new now) actions s) : OwnershipWf s :=
  path.invariant (OwnershipWf.initial now) fun _ _ _ wf _ taken => wf.step taken

theorem SingleWriter.of_path {allowed : Cluster → ClusterAction → Prop} {id : String}
    (fresh : ∀ state action, allowed state action → SubmitsFresh state action id)
    (path : Path (clusterStep cfg) allowed (Cluster.new now) actions s) : SingleWriter id s :=
  path.invariant (SingleWriter.initial id now) fun _ _ _ wf permitted taken =>
    wf.step (fresh _ _ permitted) taken

/-- Poll `p` read the lease of `owner` for this job on this broker and found it missing or
past its grace period. -/
def LookedUpDead (cfg : Config) (now : Nat) (actions : List ClusterAction) (p : Nat)
    (broker id owner : String) : Prop :=
  ∃ before after cut poll, actions = before ++ .pollEvent p .step :: after ∧
    Path (clusterStep cfg) SubmittedOnce (Cluster.new now) before cut ∧
    cut.polls[p]? = some poll ∧ poll.broker = broker ∧ poll.id = id ∧
    poll.pc = .leaseOf owner ∧
    lookupOwnerLease cfg.divF64 cut.store owner cut.now = .missingOrExpired

def AtClaim (p : Nat) (broker id owner : String) (s : Cluster) : Prop :=
  ∃ poll, s.polls[p]? = some poll ∧ poll.broker = broker ∧ poll.id = id ∧
    poll.pc = .claim owner

theorem lookedUpDead_of_atClaim {p : Nat} {broker id owner : String}
    (path : Path (clusterStep cfg) SubmittedOnce (Cluster.new now) actions s)
    (claiming : AtClaim p broker id owner s) (foreign : owner ≠ broker) :
    LookedUpDead cfg now actions p broker id owner := by
  have initially : ¬ AtClaim p broker id owner (Cluster.new now) := by
    rintro ⟨poll, present, _⟩
    simp [Cluster.new] at present
  obtain ⟨before, action, after, cut, resumed, split, reached, notYet, _, taken, arrived⟩ :=
    path.established initially claiming
  obtain ⟨poll, present, sameBroker, sameId, pc⟩ := arrived
  have expected : poll.pc.expected = some owner := by rw [pc]; rfl
  cases clusterMove_polls (clusterStep_move taken) present with
  | same kept => exact absurd ⟨poll, kept, sameBroker, sameId, pc⟩ notYet
  | begun _ => simp at pc
  | @moved earlier event _ known step _ =>
      have expects := pollMove_expects step present expected
      simp only at pc
      rw [pc] at expects
      cases expects with
      | kept same => exact absurd ⟨earlier, known, sameBroker, sameId, same⟩ notYet
      | hinted _ mine => exact absurd ((mine rfl).trans sameBroker) foreign
      | leaseDead at_ is dead =>
          subst is
          exact ⟨before, after, cut, earlier, split, reached, known, sameBroker, sameId, at_,
            dead⟩

def OnlyOwnerChanges (s next : Cluster) (id : String) : Prop :=
  (∀ other, other ≠ id → next.store.recordOf other = s.store.recordOf other) ∧
  (next.store.recordOf id = s.store.recordOf id ∨
    ∃ record owner, s.store.recordOf id = some record ∧
      next.store.recordOf id = some { record with brokerId := owner })

theorem claim_onlyOwnerChanges {p : Nat} {poll : Poll} {owner : String}
    (polled : s.polls[p]? = some poll) (claiming : poll.pc = .claim owner)
    (taken : clusterStep cfg s (.pollEvent p .step) = some next) :
    OnlyOwnerChanges s next poll.id := by
  simp only [clusterStep, polled, Option.bind_some, pollEvent, claiming] at taken
  split at taken
  · simp at taken
  · simp only [Option.some.injEq] at taken
    subst taken
    unfold pollClaim
    split
    next result store answered =>
      have effect := (MemoryStore.claimIfOwner_effect answered).recordOf
      constructor
      · intro other different
        rcases effect other with same | ⟨same, _⟩
        · exact same
        · exact absurd same different
      · rcases effect poll.id with same | ⟨_, record, stored, _, _, changed⟩
        · exact Or.inl same
        · exact Or.inr ⟨record, poll.broker, stored, changed⟩
    next => exact ⟨fun _ _ => rfl, Or.inl rfl⟩

/-- From `s` on, the record is deleted or belongs to `winner`, and any other broker that
claims it from `owner` is told so. -/
def WonBy (cfg : Config) (s : Cluster) (id owner winner : String) : Prop :=
  ∀ rest later, Path (clusterStep cfg) SubmittedOnce s rest later →
    (∀ record, later.store.recordOf id = some record → record.brokerId = winner) ∧
    ∀ claimant, claimant ≠ winner →
      later.store.claimIfOwner id owner claimant = .ok (.active winner, later.store) ∨
      later.store.claimIfOwner id owner claimant = .ok (.notFound, later.store)

structure Won (id owner winner : String) (s : Cluster) : Prop where
  wf : OwnershipWf s
  writer : SingleWriter id s
  keyed : ∃ key, memoryJobKey id = .ok key
  hint : slotFromJobId id = .ok owner
  moved : owner ≠ winner
  settled : ¬ CanWrite s id
  known : Known s id
  owned : ∀ record, s.store.recordOf id = some record → record.brokerId = winner

theorem Won.owned_step {action : ClusterAction} {id owner winner : String}
    (won : Won id owner winner s) (move : ClusterMove cfg s action next)
    (record : PersistentJobRecord) (stored : next.store.recordOf id = some record) :
    record.brokerId = winner := by
  have change := clusterMove_store move id
  rw [stored] at change
  generalize same : some record = later at change
  generalize next.writer id = writer at change
  cases change with
  | same => exact won.owned record same.symm
  | deleted => simp at same
  | @transferred p poll before known claiming sameId found _ =>
      have hint := won.wf.hinted p poll before.brokerId known (by rw [claiming]; rfl)
      rw [sameId, won.hint] at hint
      simp only [Except.ok.injEq] at hint
      exact absurd (hint.trans (won.owned before found)) won.moved
  | probed found probe =>
      exact absurd (probe ▸ won.wf.recordNamed id _ found) not_isIdentity_probe
  | @written i inst _ known task sameId =>
      exact absurd (Or.inr ⟨i, inst, known, sameId, by simp [Instance.mayUpsert, task]⟩) won.settled

theorem Won.step {action : ClusterAction} {id owner winner : String}
    (won : Won id owner winner s) (permitted : SubmittedOnce s action)
    (taken : clusterStep cfg s action = some next) : Won id owner winner next := by
  have move := clusterStep_move taken
  refine ⟨won.wf.step taken, won.writer.step (permitted id) taken, won.keyed, won.hint, won.moved, ?_,
    won.known.keep move, won.owned_step move⟩
  intro can
  rcases canWrite_step (permitted id) move can with before | unknown
  · exact won.settled before
  · exact unknown won.known

theorem Won.claims {id owner winner : String} (won : Won id owner winner s) (claimant : String)
    (loser : claimant ≠ winner) :
    s.store.claimIfOwner id owner claimant = .ok (.active winner, s.store) ∨
      s.store.claimIfOwner id owner claimant = .ok (.notFound, s.store) := by
  obtain ⟨key, keyed⟩ := won.keyed
  unfold MemoryStore.claimIfOwner
  simp only [keyed]
  cases found : s.store.jobs.lookup key with
  | none => exact Or.inr rfl
  | some record =>
      have owned := won.owned record (by rw [MemoryStore.recordOf_of_key keyed, found])
      refine Or.inl ?_
      simp [owned, Ne.symm loser, Ne.symm won.moved]

theorem Won.wonBy {id owner winner : String} (won : Won id owner winner s) :
    WonBy cfg s id owner winner := by
  intro rest later path
  have final : Won id owner winner later :=
    path.invariant won fun _ _ _ before permitted taken => before.step permitted taken
  exact ⟨final.owned, final.claims⟩

/-- A claim changes nothing but the owner of the record it names, and every change of owner
is such a claim, after a dead lease, with one winner for good. -/
theorem ownership_transfer_lease_gated {action : ClusterAction}
    (path : Path (clusterStep cfg) SubmittedOnce (Cluster.new now) actions s)
    (permitted : SubmittedOnce s action) (taken : clusterStep cfg s action = some next) :
    (∀ p poll owner, action = .pollEvent p .step → s.polls[p]? = some poll →
      poll.pc = .claim owner → OnlyOwnerChanges s next poll.id) ∧
    ∀ id before after, s.store.recordOf id = some before → next.store.recordOf id = some after →
      after.brokerId ≠ before.brokerId →
      ∃ p poll, action = .pollEvent p .step ∧ s.polls[p]? = some poll ∧ poll.id = id ∧
        poll.broker = after.brokerId ∧ poll.pc = .claim before.brokerId ∧
        LookedUpDead cfg now actions p after.brokerId id before.brokerId ∧
        OnlyOwnerChanges s next id ∧ WonBy cfg next id before.brokerId after.brokerId := by
  have move := clusterStep_move taken
  have wf := OwnershipWf.of_path path
  constructor
  · rintro p poll owner rfl polled claiming
    exact claim_onlyOwnerChanges polled claiming taken
  · intro id before after found stored changed
    have writer : SingleWriter id s := SingleWriter.of_path (fun _ _ once => once id) path
    have change := clusterMove_store move id
    rw [stored] at change
    generalize same : some after = later at change
    generalize next.writer id = written at change
    cases change with
    | same => simp_all
    | deleted => simp at same
    | @transferred p poll record polled claiming sameId found' foreign =>
        rw [found] at found'
        simp only [Option.some.injEq] at found' same
        subst found' same sameId
        refine ⟨p, poll, rfl, polled, rfl, rfl, claiming, ?_, ?_, ?_⟩
        · exact lookedUpDead_of_atClaim path ⟨poll, polled, rfl, rfl, claiming⟩ foreign
        · exact claim_onlyOwnerChanges polled claiming taken
        · refine Won.wonBy ⟨wf.step taken, writer.step (permitted _) taken, ?_, ?_, foreign, ?_, ?_, ?_⟩
          · exact keyed_of_recordOf found
          · exact wf.hinted p poll _ polled (by rw [claiming]; rfl)
          · exact writer.unwritten_step (permitted _) move _ stored
          · exact writer.recordKnown_step move _ stored
          · intro record again
            rw [stored] at again
            simp only [Option.some.injEq] at again
            subst again
            rfl
    | probed found' probe =>
        exact absurd (probe ▸ wf.recordNamed id _ found') not_isIdentity_probe
    | @written i inst _ known task sameId =>
        have upserter : Upserter s i id :=
          ⟨inst, known, sameId, by simp [Instance.mayUpsert, task]⟩
        exact absurd (Or.inr ⟨i, upserter⟩) (writer.unwritten before found)

end Path

namespace Scenario

def failover : List ClusterAction :=
  [.broker brokerA .upsertLease] ++ persistOn brokerA config.router ++
    [.advance 30, .broker brokerB (.poll jobId false)] ++ pollSteps 0 2

def ownerOf (s : Cluster) : Option String := (s.store.recordOf jobId).map (·.brokerId)

def ownerMoves (s : Cluster) : Bool :=
  (clusterStep config s (.pollEvent 0 .step)).any fun next =>
    decide (ownerOf s = some brokerA.brokerId) && decide (ownerOf next = some brokerB.brokerId)

end Scenario

open Scenario in
theorem ownership_transfer_lease_gated_failover :
    ∃ s next before after,
      Path (clusterStep config) SubmittedOnce (Cluster.new 0) failover s ∧
      clusterStep config s (.pollEvent 0 .step) = some next ∧
      s.store.recordOf jobId = some before ∧ next.store.recordOf jobId = some after ∧
      after.brokerId ≠ before.brokerId ∧
      ∃ p poll, .pollEvent 0 .step = ClusterAction.pollEvent p .step ∧
        s.polls[p]? = some poll ∧ poll.id = jobId ∧ poll.broker = after.brokerId ∧
        poll.pc = .claim before.brokerId ∧
        LookedUpDead config 0 failover p after.brokerId jobId before.brokerId ∧
        OnlyOwnerChanges s next jobId ∧
        WonBy config next jobId before.brokerId after.brokerId := by
  have ran : (run (fun s action => if submittedOnce s action then clusterStep config s action
      else none) (Cluster.new 0) failover).any ownerMoves = true := by decide +kernel
  obtain ⟨s, finished, moves⟩ := (Option.any_eq_true _ _).mp ran
  obtain ⟨next, taken, owners⟩ := (Option.any_eq_true _ _).mp moves
  simp only [ownerOf, Bool.and_eq_true, decide_eq_true_eq, Option.map_eq_some_iff] at owners
  obtain ⟨⟨before, found, fromA⟩, after, stored, toB⟩ := owners
  have path := Path.of_run_if submittedOnce_sound failover _ finished
  have changed : after.brokerId ≠ before.brokerId := by
    rw [fromA, toB]
    decide
  have permitted : SubmittedOnce s (.pollEvent 0 .step) := fun _ => trivial
  exact ⟨s, next, before, after, path, taken, found, stored, changed,
    (ownership_transfer_lease_gated path permitted taken).2 jobId before after found stored changed⟩

end BitsBroker
