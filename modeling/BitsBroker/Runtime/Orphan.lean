import BitsBroker.Runtime.Deletion

/-!
A record that is in the store is accounted for. On one broker, with every identifier submitted
once, the broker still has the job in its map with work to do or with its persisted flag set, or
a delete of the record is on its way: queued for the cleanup worker, in the hands of the sweeper,
or owed by a poll that took the result. What carries the proof is `persisted_of_record`: while
the record exists, an instance of the job that has left its first steps has its flag set.
-/

namespace BitsBroker

open RequestId Cluster Table Transition

def PollPc.cleaning : PollPc → Option Nat
  | .remove i _ | .uncount i _ | .cleanup i _ => some i
  | _ => none

/-- Somebody on the broker will delete the record, or still runs the job it is for. -/
def Tracked (s : Cluster) (b id : String) : Prop :=
  (∃ i inst, (s.brokers b).jobs.lookup id = some i ∧ s.instances[i]? = some inst ∧
    (inst.task ≠ .done ∨ inst.persisted = true)) ∨
  id ∈ (s.brokers b).cleanup ∨
  (∃ i inst, (s.brokers b).sweep.handling = some (id, i) ∧ s.instances[i]? = some inst ∧
    inst.persisted = true) ∨
  ∃ (p : Nat) (poll : Poll) (i : Nat) (inst : Instance), s.polls[p]? = some poll ∧
    poll.broker = b ∧ poll.id = id ∧ poll.pc.cleaning = some i ∧ s.instances[i]? = some inst ∧
    inst.persisted = true

/-- What a step can do to the task and to the persisted flag of an instance. -/
inductive PersistStep (inst later : Instance) : Prop
  | same : later.task = inst.task → later.persisted = inst.persisted → PersistStep inst later
  | started : inst.task = .spawned → later.task ≠ .spawned →
      later.persisted = (inst.persisted || inst.alreadyPersisted) → PersistStep inst later
  | upserted : inst.task = .upserting → later.task = .upserted →
      later.persisted = inst.persisted → PersistStep inst later
  | persisted : inst.task = .upserted → later.task ≠ .spawned → later.persisted = true →
      PersistStep inst later
  | moved : inst.task ≠ .spawned → inst.task ≠ .upserted → later.task ≠ .spawned →
      later.persisted = inst.persisted → PersistStep inst later

structure PersistWf (b id : String) (s : Cluster) : Prop where
  done : ResultsDone s
  known : LaunchesKnown id s
  waiting : WaitingAlone id s
  fresh (i j : Nat) (first second : Launch) : s.launches[i]? = some first →
    s.launches[j]? = some second → first.job.id = id → second.job.id = id →
    first.alreadyPersisted = false → second.alreadyPersisted = false → i = j
  carried (p : Nat) (poll : Poll) : s.polls[p]? = some poll → poll.id = id →
    poll.pc.carrying.isSome = true → ¬ CanWrite s id
  restored (i : Nat) (launch : Launch) : s.launches[i]? = some launch → launch.job.id = id →
    launch.alreadyPersisted = true → ¬ CanWrite s id
  taken (p : Nat) (poll : Poll) (i : Nat) : s.polls[p]? = some poll →
    poll.pc.cleaning = some i → ∃ inst, s.instances[i]? = some inst ∧ inst.task = .done
  recovered (i : Nat) (inst : Instance) : s.instances[i]? = some inst →
    inst.alreadyPersisted = true → inst.task = .spawned ∨ inst.persisted = true
  written (record : PersistentJobRecord) (w : Nat) (inst : Instance) :
    s.store.recordOf id = some record → s.writer id = some w → s.instances[w]? = some inst →
    inst.task = .upserted ∨ inst.persisted = true
  mapped (i : Nat) : Upserter s i id → (s.brokers b).jobs.lookup id = some i

section Step

variable {cfg : Config} {s next : Cluster} {action : ClusterAction} {b id : String}

/-- While the record exists, an instance of the job that is past its first steps has its
persisted flag set. -/
theorem persisted_of_record (persist : PersistWf b id s) (wf : ClusterWf cfg s) {i : Nat}
    {inst : Instance} {record : PersistentJobRecord} (present : s.instances[i]? = some inst)
    (sameId : inst.job.id = id) (stored : s.store.recordOf id = some record)
    (started : inst.task ≠ .spawned) (settled : inst.task ≠ .upserted) :
    inst.persisted = true := by
  by_cases again : inst.alreadyPersisted = true
  · rcases persist.recovered i inst present again with spawned | flagged
    · exact absurd spawned started
    · exact flagged
  · obtain ⟨w, launch, isWriter, launched, direct, writerId, _⟩ := wf.recorded id record stored
    have original : launch.alreadyPersisted = false := by
      by_contra restored
      obtain ⟨_, _, _, origin, _⟩ := wf.restored w launch launched (eq_true_of_ne_false restored)
      simp [direct] at origin
    have one : i = w := persist.fresh i w inst.launch launch (launches_of_instance present)
      launched sameId writerId (eq_false_of_ne_true again) original
    subst one
    rcases persist.written record i inst stored isWriter present with upserted | flagged
    · exact absurd upserted settled
    · exact flagged

def Persists (s : Cluster) (i : Nat) (later : Instance) : Prop :=
  ∃ inst, s.instances[i]? = some inst ∧ inst.launch = later.launch ∧ PersistStep inst later

theorem persists_of_set {i j : Nat} {inst value later : Instance}
    (known : s.instances[i]? = some inst)
    (present : (s.instances.set i value)[j]? = some later) (same : inst.launch = value.launch)
    (step : PersistStep inst value) : Persists s j later := by
  rcases getElem?_of_set present with ⟨rfl, rfl⟩ | ⟨_, kept⟩
  · exact ⟨inst, known, same, step⟩
  · exact ⟨later, kept, rfl, .same rfl rfl⟩

theorem taskMove_persist {i j : Nat} {inst later : Instance} (known : s.instances[i]? = some inst)
    (move : TaskMove cfg s i inst next) (present : next.instances[j]? = some later) :
    Persists s j later := by
  cases move with
  | started task => exact persists_of_set known present rfl (.started task (by simp) rfl)
  | upserted task _ => exact persists_of_set known present rfl (.upserted task rfl rfl)
  | persisted task => exact persists_of_set known present rfl (.persisted task (by simp) rfl)
  | marked task => exact persists_of_set known present rfl (.same rfl rfl)
  | elapsed task _ _ | skipped task | resolved task | upsertFailed task | stored task =>
      exact persists_of_set known present rfl
        (.moved (by simp [task]) (by simp [task]) (by simp) rfl)

theorem clusterMove_persist {j : Nat} {later : Instance} (move : ClusterMove cfg s action next)
    (present : next.instances[j]? = some later) :
    Persists s j later ∨ j = s.instances.length ∧ later.task = .spawned := by
  cases move with
  | accepted _ _ _ =>
      rcases getElem?_of_snoc present with kept | ⟨last, rfl⟩
      · exact Or.inl ⟨later, kept, rfl, .same rfl rfl⟩
      · exact Or.inr ⟨last, rfl⟩
  | broker _ move =>
      rw [brokerMove_instances move] at present
      exact Or.inl ⟨later, present, rfl, .same rfl rfl⟩
  | poll _ move =>
      cases move with
      | connected _ known | took _ known _ _ | left _ known =>
          exact Or.inl (persists_of_set known present rfl (.same rfl rfl))
      | restored _ _ =>
          rcases getElem?_of_snoc present with kept | ⟨last, rfl⟩
          · exact Or.inl ⟨later, kept, rfl, .same rfl rfl⟩
          · exact Or.inr ⟨last, rfl⟩
      | _ => exact Or.inl ⟨later, present, rfl, .same rfl rfl⟩
  | task known move => exact Or.inl (taskMove_persist known move present)
  | _ => exact Or.inl ⟨later, present, rfl, .same rfl rfl⟩

theorem instance_keep {i : Nat} {inst : Instance} (move : ClusterMove cfg s action next)
    (present : s.instances[i]? = some inst) :
    ∃ later, next.instances[i]? = some later ∧ later.launch = inst.launch :=
  instance_of_launch ((clusterMove_growth move).keeps (launches_of_instance present))

theorem persistStep_of_keep {i : Nat} {inst later : Instance}
    (move : ClusterMove cfg s action next) (present : s.instances[i]? = some inst)
    (found : next.instances[i]? = some later) : PersistStep inst later := by
  have bound := (List.getElem?_eq_some_iff.mp present).1
  rcases clusterMove_persist move found with ⟨before, known, _, step⟩ | ⟨last, _⟩
  · rw [present, Option.some.injEq] at known
    exact known ▸ step
  · omega

theorem persisted_keep {i : Nat} {inst : Instance} (move : ClusterMove cfg s action next)
    (present : s.instances[i]? = some inst) (flagged : inst.persisted = true) :
    ∃ later, next.instances[i]? = some later ∧ later.persisted = true := by
  obtain ⟨later, found, _⟩ := instance_keep move present
  refine ⟨later, found, ?_⟩
  cases persistStep_of_keep move present found with
  | same _ kept | upserted _ _ kept | moved _ _ _ kept => rw [kept, flagged]
  | started _ _ set => simp [set, flagged]
  | persisted _ _ set => exact set

theorem done_keep {i : Nat} {inst : Instance} (move : ClusterMove cfg s action next)
    (present : s.instances[i]? = some inst) (finished : inst.task = .done) :
    ∃ later, next.instances[i]? = some later ∧ later.task = .done := by
  obtain ⟨later, found, _⟩ := instance_keep move present
  have bound := (List.getElem?_eq_some_iff.mp present).1
  refine ⟨later, found, ?_⟩
  rcases clusterMove_instance move found with ⟨before, known, step⟩ | ⟨last, _⟩
  · rw [present, Option.some.injEq] at known
    subst known
    cases step with
    | same _ kept | emptied _ kept => rw [kept, finished]
    | running busy _ => exact absurd finished busy
    | done _ set => exact set
  · omega

theorem pollMove_cleaning {p : Nat} {poll later : Poll} {event : PollEvent} {i : Nat}
    (move : PollMove cfg s p poll event next) (present : next.polls[p]? = some later)
    (cleaning : later.pc.cleaning = some i) :
    poll.pc.cleaning = some i ∨
      ∃ inst result, s.instances[i]? = some inst ∧ inst.result = some result := by
  cases move with
  | took _ known stored _ =>
      rw [pc_of_set present] at cleaning
      simp only [PollPc.cleaning, Option.some.injEq] at cleaning
      subst cleaning
      exact Or.inr ⟨_, _, known, stored⟩
  | removed pc _ | alreadyRemoved pc _ | uncounted pc =>
      rw [pc_of_set present] at cleaning
      exact Or.inl (by rw [pc]; exact cleaning)
  | missed _ _ =>
      rw [pc_of_set present] at cleaning
      unfold pollMiss at cleaning
      repeat' split at cleaning
      all_goals simp [PollPc.cleaning] at cleaning
  | claimed _ _ =>
      rw [pc_of_set present] at cleaning
      unfold claimedPc at cleaning
      repeat' split at cleaning
      all_goals simp [PollPc.cleaning] at cleaning
  | woken _ =>
      rw [pc_of_set present] at cleaning
      split at cleaning <;> simp [PollPc.cleaning] at cleaning
  | pending _ _ => simp [pc_of_set present, pollPending, PollPc.cleaning] at cleaning
  | _ => simp [pc_of_set present, PollPc.cleaning] at cleaning

theorem PersistWf.fresh_step (persist : PersistWf b id s) (move : ClusterMove cfg s action next)
    (i j : Nat) (first second : Launch) (firstIn : next.launches[i]? = some first)
    (secondIn : next.launches[j]? = some second) (firstId : first.job.id = id)
    (secondId : second.job.id = id) (firstNew : first.alreadyPersisted = false)
    (secondNew : second.alreadyPersisted = false) : i = j := by
  have grown := clusterMove_growth move
  generalize next.launches = later at grown firstIn secondIn
  cases grown with
  | same => exact persist.fresh i j first second firstIn secondIn firstId secondId firstNew secondNew
  | @submitted k submission deadline found counted =>
      have waiting : submission.job.id = id → Waiting s k id := fun sameId =>
        ⟨submission, deadline, found, sameId, counted⟩
      rcases getElem?_of_snoc firstIn with firstKept | ⟨firstLast, rfl⟩ <;>
        rcases getElem?_of_snoc secondIn with secondKept | ⟨secondLast, rfl⟩
      · exact persist.fresh i j first second firstKept secondKept firstId secondId firstNew secondNew
      · exact absurd firstId (persist.waiting k i first (waiting secondId) firstKept)
      · exact absurd secondId (persist.waiting k j second (waiting firstId) secondKept)
      · omega
  | restored _ _ =>
      rcases getElem?_of_snoc firstIn with firstKept | ⟨_, rfl⟩ <;>
        rcases getElem?_of_snoc secondIn with secondKept | ⟨_, rfl⟩
      · exact persist.fresh i j first second firstKept secondKept firstId secondId firstNew secondNew
      · simp at secondNew
      · simp at firstNew
      · simp at firstNew

theorem cannotWrite_keep (blocked : ¬ CanWrite s id) (known : Known s id)
    (fresh : SubmitsFresh s action id) (move : ClusterMove cfg s action next) :
    ¬ CanWrite next id := by
  intro can
  rcases canWrite_step fresh move can with before | unknown
  · exact blocked before
  · exact unknown known

theorem PersistWf.known_of_carrying (persist : PersistWf b id s) (wf : ClusterWf cfg s) {p : Nat}
    {poll : Poll} (polled : s.polls[p]? = some poll) (sameId : poll.id = id)
    (carrying : poll.pc.carrying.isSome = true) : Known s id := by
  obtain ⟨⟨record, source⟩, eq⟩ := Option.isSome_iff_exists.mp carrying
  obtain ⟨⟨w, launch, _, present, _, writerId, _⟩, _⟩ := wf.carried p poll record source polled eq
  exact persist.known w launch present (writerId.trans sameId)

theorem PersistWf.carried_step (persist : PersistWf b id s) (wf : ClusterWf cfg s)
    (writer : SingleWriter id next) (fresh : SubmitsFresh s action id)
    (move : ClusterMove cfg s action next) (p : Nat) (poll : Poll)
    (present : next.polls[p]? = some poll) (sameId : poll.id = id)
    (carrying : poll.pc.carrying.isSome = true) : ¬ CanWrite next id := by
  cases clusterMove_polls move present with
  | same kept =>
      exact cannotWrite_keep (persist.carried p poll kept sameId carrying)
        (persist.known_of_carrying wf kept sameId carrying) fresh move
  | begun _ => simp [PollPc.carrying] at carrying
  | @moved before event pc polled _ change =>
      cases change with
      | idle _ empty => simp [empty] at carrying
      | kept _ same =>
          rw [same] at carrying
          exact cannotWrite_keep (persist.carried p before polled sameId carrying)
            (persist.known_of_carrying wf polled sameId carrying) fresh move
      | found _ eq => simp [eq, PollPc.carrying] at carrying
      | claimed stored _ _ => exact writer.unwritten _ (sameId ▸ stored)

theorem PersistWf.restored_step (persist : PersistWf b id s) (wf : ClusterWf cfg s)
    (fresh : SubmitsFresh s action id) (move : ClusterMove cfg s action next) (i : Nat)
    (launch : Launch) (present : next.launches[i]? = some launch) (sameId : launch.job.id = id)
    (again : launch.alreadyPersisted = true) : ¬ CanWrite next id := by
  have old : s.launches[i]? = some launch → ¬ CanWrite next id := fun kept =>
    cannotWrite_keep (persist.restored i launch kept sameId again)
      (persist.known i launch kept sameId) fresh move
  have grown := clusterMove_growth move
  generalize next.launches = later at grown present
  cases grown with
  | same => exact old present
  | submitted _ _ =>
      rcases getElem?_of_snoc present with kept | ⟨_, rfl⟩
      · exact old kept
      · simp at again
  | @restored p poll record source deadline polled pc =>
      rcases getElem?_of_snoc present with kept | ⟨_, rfl⟩
      · exact old kept
      · obtain ⟨restoredId, _⟩ := restored_launch_known wf polled pc
        have pollId : poll.id = id := restoredId.symm.trans sameId
        have carrying : poll.pc.carrying.isSome = true := by rw [pc]; rfl
        exact cannotWrite_keep (persist.carried p poll polled pollId carrying)
          (persist.known_of_carrying wf polled pollId carrying) fresh move

theorem PersistWf.taken_step (persist : PersistWf b id s) (move : ClusterMove cfg s action next)
    (p : Nat) (poll : Poll) (i : Nat) (present : next.polls[p]? = some poll)
    (cleaning : poll.pc.cleaning = some i) :
    ∃ inst, next.instances[i]? = some inst ∧ inst.task = .done := by
  cases clusterMove_polls move present with
  | same kept =>
      obtain ⟨inst, found, finished⟩ := persist.taken p poll i kept cleaning
      exact done_keep move found finished
  | begun _ => simp [PollPc.cleaning] at cleaning
  | @moved before event pc polled step _ =>
      rcases pollMove_cleaning step present cleaning with earlier | ⟨inst, result, found, stored⟩
      · obtain ⟨inst, found, finished⟩ := persist.taken p before i polled earlier
        exact done_keep move found finished
      · exact done_keep move found (persist.done i inst result found stored)

theorem PersistWf.recovered_step (persist : PersistWf b id s) (move : ClusterMove cfg s action next)
    (i : Nat) (inst : Instance) (present : next.instances[i]? = some inst)
    (again : inst.alreadyPersisted = true) : inst.task = .spawned ∨ inst.persisted = true := by
  rcases clusterMove_persist move present with ⟨before, known, launch, step⟩ | ⟨_, spawned⟩
  · have earlier : before.alreadyPersisted = true :=
      (congrArg Launch.alreadyPersisted launch).trans again
    rcases persist.recovered i before known earlier with spawned | flagged
    · cases step with
      | same task _ => exact Or.inl (task.trans spawned)
      | started _ _ set => exact Or.inr (by simp [set, earlier])
      | upserted task _ _ | persisted task _ _ => simp [spawned] at task
      | moved other _ _ _ => exact absurd spawned other
    · obtain ⟨later, found, kept⟩ := persisted_keep move known flagged
      rw [present, Option.some.injEq] at found
      exact Or.inr (found ▸ kept)
  · exact Or.inl spawned

theorem PersistWf.written_step (persist : PersistWf b id s) (wf : ClusterWf cfg s)
    (move : ClusterMove cfg s action next) (record : PersistentJobRecord) (w : Nat) (inst : Instance)
    (stored : next.store.recordOf id = some record) (isWriter : next.writer id = some w)
    (present : next.instances[w]? = some inst) :
    inst.task = .upserted ∨ inst.persisted = true := by
  have kept : ∀ before, s.store.recordOf id = some before → s.writer id = some w →
      inst.task = .upserted ∨ inst.persisted = true := by
    intro before earlier writer
    rcases clusterMove_persist move present with ⟨old, known, _, step⟩ | ⟨last, _⟩
    · rcases persist.written before w old earlier writer known with upserted | flagged
      · cases step with
        | same task _ => exact Or.inl (task.trans upserted)
        | started task _ _ | upserted task _ _ => simp [upserted] at task
        | persisted _ _ set => exact Or.inr set
        | moved _ other _ _ => exact absurd upserted other
      · obtain ⟨later, found, flag⟩ := persisted_keep move known flagged
        rw [present, Option.some.injEq] at found
        exact Or.inr (found ▸ flag)
    · obtain ⟨w', launch, isWriter, launched, _⟩ := wf.recorded id before earlier
      rw [writer, Option.some.injEq] at isWriter
      have bound := (List.getElem?_eq_some_iff.mp launched).1
      simp only [launches, List.length_map] at bound
      omega
  have change := clusterMove_store move id
  rw [stored, isWriter] at change
  generalize sameRecord : some record = changed at change
  generalize sameWriter : some w = changedWriter at change
  cases change with
  | same => exact kept record sameRecord.symm sameWriter.symm
  | deleted => simp at sameRecord
  | transferred _ _ _ earlier _ => exact kept _ earlier sameWriter.symm
  | probed earlier _ => exact kept _ earlier sameWriter.symm
  | @written i upserting event known task _ =>
      simp only [Option.some.injEq] at sameWriter
      subst sameWriter
      cases move with
      | task found moved =>
          rw [known, Option.some.injEq] at found
          subst found
          cases moved with
          | upserted _ _ =>
              rcases getElem?_of_set present with ⟨_, rfl⟩ | ⟨other, _⟩
              · exact Or.inl rfl
              · exact absurd rfl other
          | upsertFailed _ => exact kept record stored isWriter
          | started at_ | elapsed at_ _ _ | skipped at_ | marked at_ | resolved at_ | persisted at_
          | stored at_ => simp [task] at at_

theorem PersistWf.mapped_step (persist : PersistWf b id s) (wf : ClusterWf cfg s) (solo : Solo b s)
    (move : ClusterMove cfg s action next) (i : Nat) (upserter : Upserter next i id) :
    (next.brokers b).jobs.lookup id = some i := by
  rcases upserter_step move upserter with before | ⟨last, k, rfl, submission, deadline, found, sameId, counted⟩
  · have held := persist.mapped i before
    obtain ⟨inst, present, instId, may⟩ := before
    by_contra gone
    have busy : inst.task ≠ .done := by
      intro finished
      simp [Instance.mayUpsert, finished] at may
    rcases removal_cases move held gone with ⟨p, poll, k, result, _, polled, _, pollId, pc⟩ | swept
    · obtain ⟨launch, launched, launchId, _⟩ := wf.polled p poll k polled (by rw [pc]; rfl)
      obtain ⟨other, otherIn, finished⟩ := persist.taken p poll k polled (by rw [pc]; rfl)
      have blocked : launch.alreadyPersisted = false := by
        by_contra again
        exact persist.restored k launch launched (launchId.trans pollId) (eq_true_of_ne_false again)
          (Or.inr ⟨i, inst, present, instId, may⟩)
      have direct : inst.alreadyPersisted = false := by
        by_contra again
        exact persist.restored i inst.launch (launches_of_instance present) instId
          (eq_true_of_ne_false again) (Or.inr ⟨i, inst, present, instId, may⟩)
      have one : k = i := persist.fresh k i launch inst.launch launched
        (launches_of_instance present) (launchId.trans pollId) instId blocked direct
      subst one
      rw [present, Option.some.injEq] at otherIn
      subst otherIn
      exact busy finished
    · obtain ⟨_, other, _, _, otherIn, ready, _⟩ := swept
      rw [present, Option.some.injEq] at otherIn
      subst otherIn
      obtain ⟨result, stored⟩ := Option.isSome_iff_exists.mp ready
      exact busy (persist.done i inst result present stored)
  · cases move with
    | duplicate _ _ _ =>
        obtain ⟨inst, present, _⟩ := upserter
        have bound : i < s.instances.length := (List.getElem?_eq_some_iff.mp present).1
        omega
    | accepted again _ _ =>
        rw [found, Option.some.injEq] at again
        subst again
        have owner := solo.submits k submission found
        subst owner last
        simp only [insertJob, setBroker_brokers, submittedInstance, Function.update_self]
        rw [← sameId]
        exact AList.lookup_insert _

theorem PersistWf.step (persist : PersistWf b id s) (wf : ClusterWf cfg s) (solo : Solo b s)
    (writer : SingleWriter id s) (later : SingleWriter id next) (fresh : SubmitsFresh s action id)
    (taken : clusterStep cfg s action = some next) : PersistWf b id next := by
  have move := clusterStep_move taken
  constructor
  · exact persist.done.step move
  · exact persist.known.step wf move
  · exact persist.waiting.step persist.known wf writer fresh move
  · exact persist.fresh_step move
  · exact persist.carried_step wf later fresh move
  · exact persist.restored_step wf fresh move
  · exact persist.taken_step move
  · exact persist.recovered_step move
  · exact persist.written_step wf move
  · exact persist.mapped_step wf solo move

theorem PersistWf.initial (b id : String) (now : Nat) : PersistWf b id (Cluster.new now) := by
  constructor
  · intro i inst result present
    simp [Cluster.new] at present
  · intro i launch present
    simp [Cluster.new, launches] at present
  · intro k i launch _ present
    simp [Cluster.new, launches] at present
  · intro i j first second firstIn
    simp [Cluster.new, launches] at firstIn
  · intro p poll present
    simp [Cluster.new] at present
  · intro i launch present
    simp [Cluster.new, launches] at present
  · intro p poll i present
    simp [Cluster.new] at present
  · intro i inst present
    simp [Cluster.new] at present
  · intro record w inst stored
    simp [Cluster.new, recordOf_new] at stored
  · rintro i ⟨inst, present, _⟩
    simp [Cluster.new] at present

theorem recordOf_deleteRecord_self (state : Cluster) (id : String) :
    (state.deleteRecord id).store.recordOf id = none := by
  unfold deleteRecord
  split
  next store ok => simp [MemoryStore.recordOf_deleteJob ok]
  next failed =>
    unfold MemoryStore.deleteJob at failed
    unfold MemoryStore.recordOf
    split at failed
    · rfl
    · simp at failed

/-- A queued delete stays queued until it has removed the record. -/
theorem cleanup_keep (move : ClusterMove cfg s action next) (listed : id ∈ (s.brokers b).cleanup) :
    id ∈ (next.brokers b).cleanup ∨ next.store.recordOf id = none := by
  have grows : ∀ {changed : String} {state : BrokerState},
      (id ∈ (s.brokers changed).cleanup → id ∈ state.cleanup) →
      id ∈ (Function.update s.brokers changed state b).cleanup := by
    intro changed state more
    by_cases here : b = changed
    · subst here
      rw [Function.update_self]
      exact more listed
    · rwa [Function.update_of_ne here]
  cases move with
  | advanced => exact Or.inl listed
  | duplicate _ _ _ | accepted _ _ _ => exact Or.inl (grows fun kept => kept)
  | task _ move =>
      rw [taskMove_brokers move]
      exact Or.inl listed
  | poll _ move =>
      cases move with
      | removed _ _ | uncounted _ | counted _ | duplicate _ _ | restored _ _ =>
          exact Or.inl (grows fun kept => kept)
      | scheduled _ _ _ => exact Or.inl (grows fun kept => List.mem_append_left _ kept)
      | _ => exact Or.inl listed
  | broker _ move =>
      cases move with
      | leased | unleased | overloaded _ | begun => exact Or.inl listed
      | deleted _ _ _ =>
          rw [deleteRecord_brokers]
          exact Or.inl (grows fun kept => kept)
      | @cleaned deleted rest queued =>
          by_cases same : id = deleted
          · subst same
            exact Or.inr (recordOf_deleteRecord_self _ _)
          · rw [deleteRecord_brokers]
            refine Or.inl (grows fun kept => ?_)
            rw [queued, List.mem_cons] at kept
            exact kept.resolve_left same
      | _ => exact Or.inl (grows fun kept => kept)

theorem brokerMove_elsewhere {identity : BrokerIdentity} {label : BrokerAction}
    (move : BrokerMove cfg s identity label next) (elsewhere : b ≠ identity.brokerId) :
    next.brokers b = s.brokers b := by
  cases move with
  | leased | unleased | overloaded _ | begun => rfl
  | deleted _ _ _ | cleaned _ =>
      rw [deleteRecord_brokers]
      exact Function.update_of_ne elsewhere _ _
  | _ => exact Function.update_of_ne elsewhere _ _

/-- What the sweeper has taken out of the map it keeps until it has deleted the record. -/
theorem sweep_keep {i : Nat} {inst : Instance} (taken : clusterStep cfg s action = some next)
    (handling : (s.brokers b).sweep.handling = some (id, i))
    (present : s.instances[i]? = some inst) (flagged : inst.persisted = true) :
    (next.brokers b).sweep.handling = some (id, i) ∨ next.store.recordOf id = none := by
  have same : ∀ {changed : String} {state : BrokerState},
      state.sweep = (s.brokers changed).sweep →
      (Function.update s.brokers changed state b).sweep.handling = some (id, i) := by
    intro changed state kept
    rw [sweep_of_same kept]
    exact handling
  cases clusterStep_move taken with
  | advanced => exact Or.inl handling
  | duplicate _ _ _ | accepted _ _ _ => exact Or.inl (same rfl)
  | task _ move =>
      rw [taskMove_brokers move]
      exact Or.inl handling
  | poll _ move =>
      cases move with
      | removed _ _ | uncounted _ | scheduled _ _ _ | counted _ | duplicate _ _ | restored _ _ =>
          exact Or.inl (same rfl)
      | _ => exact Or.inl handling
  | @broker identity label _ alive move =>
      simp only [clusterStep, alive, Bool.false_eq_true, if_false] at taken
      by_cases here : b = identity.brokerId
      · subst here
        have busy : ¬ (label = .sweepStart ∨ label = .sweepRemove) := by
          intro sweeps
          rcases brokerStep_sweep taken sweeps with idle | idle <;>
            simp [idle, SweepPc.handling] at handling
        cases move with
        | leased | unleased | overloaded _ | begun => exact Or.inl handling
        | crashed | counted _ | marked _ => exact Or.inl (same rfl)
        | started => exact absurd (Or.inl rfl) busy
        | swept _ _ | passed _ | rested => exact absurd (Or.inr rfl) busy
        | uncounted removed =>
            rw [removed] at handling
            simp only [setBroker_brokers, Function.update_self]
            exact Or.inl handling
        | deleted deleting _ _ =>
            simp only [deleting, SweepPc.handling, Option.some.injEq, Prod.mk.injEq] at handling
            obtain ⟨rfl, rfl⟩ := handling
            exact Or.inr (recordOf_deleteRecord_self _ _)
        | undeleted deleting found volatile =>
            simp only [deleting, SweepPc.handling, Option.some.injEq, Prod.mk.injEq] at handling
            obtain ⟨rfl, rfl⟩ := handling
            rw [present, Option.some.injEq] at found
            subst found
            simp [flagged] at volatile
        | cleaned _ =>
            rw [deleteRecord_brokers]
            exact Or.inl (same rfl)
      · rw [brokerMove_elsewhere move here]
        exact Or.inl handling

theorem pollMove_cleaning_keep {p : Nat} {poll later : Poll} {event : PollEvent} {i : Nat}
    {inst : Instance} (move : PollMove cfg s p poll event next)
    (present : next.polls[p]? = some later) (cleaning : poll.pc.cleaning = some i)
    (known : s.instances[i]? = some inst) (flagged : inst.persisted = true) :
    later.pc.cleaning = some i ∨ poll.id ∈ (next.brokers poll.broker).cleanup := by
  cases move with
  | removed pc _ | alreadyRemoved pc _ | uncounted pc =>
      rw [pc] at cleaning
      rw [pc_of_set present]
      exact Or.inl cleaning
  | scheduled _ _ _ =>
      refine Or.inr ?_
      simp
  | unscheduled pc found volatile =>
      simp only [pc, PollPc.cleaning, Option.some.injEq] at cleaning
      subst cleaning
      rw [known, Option.some.injEq] at found
      subst found
      simp [flagged] at volatile
  | took pc _ _ _ | leaseActive pc _ =>
      rcases pc with pc | pc <;> simp [pc, PollPc.cleaning] at cleaning
  | pending pc _ => rcases pc with pc | pc | pc <;> simp [pc, PollPc.cleaning] at cleaning
  | gaveUp remote _ =>
      cases pc : poll.pc <;> simp [pc, PollPc.isRemote, PollPc.cleaning] at remote cleaning
  | found pc _ | missed pc _ | connected pc _ | parked pc _ _ | woken pc | disconnected pc
  | left pc _ | leaseDead pc _ | claimed pc _ | retried pc | counted pc | duplicate pc _
  | restored pc _ | probing pc | probed pc _ _ => simp [pc, PollPc.cleaning] at cleaning

theorem cleaning_keep {p : Nat} {poll : Poll} {i : Nat} {inst : Instance}
    (move : ClusterMove cfg s action next) (polled : s.polls[p]? = some poll)
    (cleaning : poll.pc.cleaning = some i) (known : s.instances[i]? = some inst)
    (flagged : inst.persisted = true) :
    (∃ later, next.polls[p]? = some later ∧ later.broker = poll.broker ∧ later.id = poll.id ∧
      later.pc.cleaning = some i) ∨ poll.id ∈ (next.brokers poll.broker).cleanup := by
  have bound := (List.getElem?_eq_some_iff.mp polled).1
  have grown := clusterMove_polls_length move
  obtain ⟨later, present⟩ : ∃ later, next.polls[p]? = some later :=
    ⟨_, List.getElem?_eq_getElem (by omega)⟩
  cases clusterMove_polls move present with
  | same kept =>
      rw [polled, Option.some.injEq] at kept
      subst kept
      exact Or.inl ⟨poll, present, rfl, rfl, cleaning⟩
  | begun last => omega
  | @moved before event pc found step _ =>
      rw [polled, Option.some.injEq] at found
      subst found
      rcases pollMove_cleaning_keep step present cleaning known flagged with kept | queued
      · exact Or.inl ⟨_, present, rfl, rfl, kept⟩
      · exact Or.inr queued

end Step

section Track

variable {cfg : Config} {s next : Cluster} {action : ClusterAction} {b id : String}

theorem sweeping_of_gone {identity : BrokerIdentity} {i : Nat}
    (move : BrokerMove cfg s identity .sweepRemove next)
    (held : (s.brokers b).jobs.lookup id = some i)
    (gone : (next.brokers b).jobs.lookup id ≠ some i) :
    (next.brokers b).sweep.handling = some (id, i) := by
  cases move with
  | swept _ expired =>
      obtain ⟨rfl, rfl⟩ := erased_of_gone rfl held gone
      rw [held.symm.trans (expiredInstance_some expired).1 |> Option.some.inj]
      simp [SweepPc.handling]
  | passed _ | rested =>
      rw [setBroker_brokers, jobs_of_same] at gone
      · exact absurd held gone
      · rfl

theorem Tracked.step {before record : PersistentJobRecord} (tracked : Tracked s b id)
    (persist : PersistWf b id s) (later : PersistWf b id next) (wf : ClusterWf cfg s)
    (taken : clusterStep cfg s action = some next) (earlier : s.store.recordOf id = some before)
    (stored : next.store.recordOf id = some record) : Tracked next b id := by
  have move := clusterStep_move taken
  have wfNext := wf.step taken
  have clean : ∀ {p : Nat} {poll : Poll} {i : Nat} {inst : Instance}, s.polls[p]? = some poll →
      poll.broker = b → poll.id = id → poll.pc.cleaning = some i → s.instances[i]? = some inst →
      inst.persisted = true → Tracked next b id := by
    rintro p poll i inst polled rfl rfl cleaning known flagged
    obtain ⟨kept, found, flag⟩ := persisted_keep move known flagged
    rcases cleaning_keep move polled cleaning known flagged with
      ⟨poll', present, sameBroker, sameId, still⟩ | queued
    · exact Or.inr (Or.inr (Or.inr ⟨p, poll', i, kept, present, sameBroker, sameId, still, found,
        flag⟩))
    · exact Or.inr (Or.inl queued)
  rcases tracked with ⟨i, inst, held, known, _⟩ | listed | ⟨i, inst, handling, known, flagged⟩ |
    ⟨p, poll, i, inst, polled, sameBroker, sameId, cleaning, known, flagged⟩
  · by_cases kept : (next.brokers b).jobs.lookup id = some i
    · obtain ⟨launch, launched, sameId, _⟩ := wfNext.held b id i kept
      obtain ⟨after, found, rfl⟩ := instance_of_launch launched
      refine Or.inl ⟨i, after, kept, found, ?_⟩
      by_cases finished : after.task = .done
      · exact Or.inr (persisted_of_record later wfNext found sameId stored (by simp [finished])
          (by simp [finished]))
      · exact Or.inl finished
    · rcases removal_cases move held kept with
        ⟨p, poll, k, result, _, polled, sameBroker, sameId, pc⟩ | ⟨identity, other, rfl, _, found, ready, _⟩
      · have cleaning : poll.pc.cleaning = some k := by rw [pc]; rfl
        obtain ⟨launch, launched, launchId, _⟩ := wf.polled p poll k polled (by rw [pc]; rfl)
        obtain ⟨taker, takerIn, rfl⟩ := instance_of_launch launched
        obtain ⟨again, againIn, finished⟩ := persist.taken p poll k polled cleaning
        rw [takerIn, Option.some.injEq] at againIn
        subst againIn
        have flagged := persisted_of_record persist wf takerIn (launchId.trans sameId) earlier
          (by simp [finished]) (by simp [finished])
        exact clean polled sameBroker sameId cleaning takerIn flagged
      · obtain ⟨launch, launched, sameId, _⟩ := wf.held b id i held
        obtain ⟨swept, sweptIn, rfl⟩ := instance_of_launch launched
        rw [sweptIn, Option.some.injEq] at found
        subst found
        obtain ⟨result, outcome⟩ := Option.isSome_iff_exists.mp ready
        have finished := persist.done i swept result sweptIn outcome
        have flagged := persisted_of_record persist wf sweptIn sameId earlier
          (by simp [finished]) (by simp [finished])
        obtain ⟨after, afterIn, flag⟩ := persisted_keep move sweptIn flagged
        cases move with
        | broker _ move =>
            exact Or.inr (Or.inr (Or.inl ⟨i, after, sweeping_of_gone move held kept, afterIn, flag⟩))
  · rcases cleanup_keep move listed with queued | gone
    · exact Or.inr (Or.inl queued)
    · simp [gone] at stored
  · rcases sweep_keep taken handling known flagged with still | gone
    · obtain ⟨after, afterIn, flag⟩ := persisted_keep move known flagged
      exact Or.inr (Or.inr (Or.inl ⟨i, after, still, afterIn, flag⟩))
    · simp [gone] at stored
  · exact clean polled sameBroker sameId cleaning known flagged

theorem tracked_of_written {record : PersistentJobRecord} (persist : PersistWf b id s)
    (later : PersistWf b id next) (wf : ClusterWf cfg s)
    (taken : clusterStep cfg s action = some next) (absent : s.store.recordOf id = none)
    (stored : next.store.recordOf id = some record) : Tracked next b id := by
  have move := clusterStep_move taken
  have change := clusterMove_store move id
  rw [stored] at change
  generalize same : some record = changed at change
  generalize next.writer id = writer at change
  cases change with
  | same => simp [absent] at same
  | deleted => simp at same
  | transferred _ _ _ earlier _ => simp [absent] at earlier
  | probed earlier _ => simp [absent] at earlier
  | @written i inst event known task sameId =>
      have held := persist.mapped i ⟨inst, known, sameId, by simp [Instance.mayUpsert, task]⟩
      have kept : (next.brokers b).jobs.lookup id = some i := by
        cases move with
        | task _ moved => rwa [taskMove_brokers moved]
      obtain ⟨after, found, launch⟩ := instance_keep move known
      have afterId : after.job.id = id := (congrArg (·.job.id) launch).trans sameId
      refine Or.inl ⟨i, after, kept, found, ?_⟩
      by_cases finished : after.task = .done
      · exact Or.inr (persisted_of_record later (wf.step taken) found afterId stored
          (by simp [finished]) (by simp [finished]))
      · exact Or.inl finished

end Track

/-- On one broker, with each identifier submitted once, every durable record is tracked. -/
theorem durable_record_tracked {cfg : Config} {now : Nat} {actions : List ClusterAction}
    {s : Cluster} {b id : String} {record : PersistentJobRecord}
    (path : Path (clusterStep cfg) (OneBrokerOnce b id) (Cluster.new now) actions s)
    (stored : s.store.recordOf id = some record) : Tracked s b id := by
  have both : PersistWf b id s ∧ ∀ record, s.store.recordOf id = some record → Tracked s b id := by
    clear stored
    induction path with
    | nil =>
        refine ⟨PersistWf.initial b id now, ?_⟩
        intro record stored
        simp [Cluster.new, recordOf_new] at stored
    | @snoc actions s action next path permitted taken ih =>
        obtain ⟨persist, tracked⟩ := ih
        have wf := ClusterWf.of_path path
        have fresh : ∀ (state : Cluster) (action : ClusterAction), OneBrokerOnce b id state action →
            SubmitsFresh state action id := fun _ _ permitted => permitted.2
        have later := persist.step wf (Solo.of_path (fun _ _ permitted => permitted.1) path)
          (SingleWriter.of_path fresh path) (SingleWriter.of_path fresh (path.snoc permitted taken))
          permitted.2 taken
        refine ⟨later, ?_⟩
        intro record stored
        cases earlier : s.store.recordOf id with
        | none => exact tracked_of_written persist later wf taken earlier stored
        | some before => exact (tracked before earlier).step persist later wf taken earlier stored
  exact both.2 record stored

open Scenario in
theorem durable_record_tracked_cleanup :
    ∃ s record, Path (clusterStep config) (OneBrokerOnce brokerA.brokerId jobId) (Cluster.new 0)
        takeAndLeave s ∧ s.store.recordOf jobId = some record ∧
      Tracked s brokerA.brokerId jobId := by
  have ran : (run (fun s a => if oneBrokerOnce brokerA.brokerId s a then clusterStep config s a
      else none) (Cluster.new 0) takeAndLeave).any (fun s => (s.store.recordOf jobId).isSome) =
      true := by decide +kernel
  obtain ⟨s, finished, present⟩ := (Option.any_eq_true _ _).mp ran
  obtain ⟨record, stored⟩ := Option.isSome_iff_exists.mp present
  have path := Path.of_run_if (oneBrokerOnce_sound brokerA.brokerId jobId) takeAndLeave _ finished
  exact ⟨s, record, path, stored, durable_record_tracked path stored⟩

end BitsBroker
