import BitsBroker.Runtime.ClusterMoves
import BitsBroker.Lib.Table

/-!
Where things come from. What a submission fixes about an instance is its `Launch`; the
table of launches only grows, by a submission or by a poll that re-submits a claimed
record. A durable record is written by the task of a submitted job and afterwards only
changes owner, so a record, the copy of it a poll carries and the instance restored from
it all agree with the job that was submitted first.
-/

namespace BitsBroker

open RequestId Cluster Table

structure Launch where
  job : Job
  broker : String
  router : Switch
  origin : Option Nat
  alreadyPersisted : Bool

def Instance.launch (inst : Instance) : Launch :=
  ⟨inst.job, inst.broker, inst.router, inst.origin, inst.alreadyPersisted⟩

def Cluster.launches (s : Cluster) : List Launch := s.instances.map Instance.launch

def PollPc.holding : PollPc → Option Nat
  | .connect i | .check i | .wait i | .recheck i | .leave i _ => some i
  | .remove i _ | .uncount i _ | .cleanup i _ => some i
  | _ => none

def PollPc.carrying : PollPc → Option (PersistentJobRecord × Option Nat)
  | .restore record source | .insert record source _ => some (record, source)
  | _ => none

theorem launches_of_instance {s : Cluster} {i : Nat} {inst : Instance}
    (present : s.instances[i]? = some inst) : s.launches[i]? = some inst.launch := by
  simp [launches, present]

theorem instance_of_launch {s : Cluster} {i : Nat} {launch : Launch}
    (present : s.launches[i]? = some launch) :
    ∃ inst, s.instances[i]? = some inst ∧ inst.launch = launch := by
  simpa [launches] using present

theorem launches_setInstance {s : Cluster} {i : Nat} {inst value : Instance}
    (present : s.instances[i]? = some inst) (same : value.launch = inst.launch) :
    (s.instances.set i value).map Instance.launch = s.launches :=
  map_set_of_eq Instance.launch present same

inductive Growth (cfg : Config) (s : Cluster) : ClusterAction → List Launch → Prop
  | same {action} : Growth cfg s action s.launches
  | submitted {k : Nat} {submission : Submit} {deadline : Nat} :
      s.submits[k]? = some submission → submission.pc = .counted deadline →
      Growth cfg s (.submitInsert k) (s.launches ++
        [⟨submission.job, submission.broker, submission.router, none, false⟩])
  | restored {p : Nat} {poll : Poll} {record : PersistentJobRecord} {source : Option Nat}
      {deadline : Nat} : s.polls[p]? = some poll → poll.pc = .insert record source deadline →
      Growth cfg s (.pollEvent p .step)
        (s.launches ++ [⟨Job.restore record, poll.broker, cfg.router, source, true⟩])

theorem Growth.of_eq {cfg : Config} {s : Cluster} {action : ClusterAction}
    {launches : List Launch} (same : launches = s.launches) : Growth cfg s action launches :=
  same ▸ .same

theorem pollMove_growth {cfg : Config} {s next : Cluster} {p : Nat} {poll : Poll}
    {event : PollEvent} (polled : s.polls[p]? = some poll)
    (move : PollMove cfg s p poll event next) :
    Growth cfg s (.pollEvent p event) next.launches := by
  cases move with
  | connected _ present | took _ present _ _ | left _ present =>
      exact .of_eq (launches_setInstance present rfl)
  | restored pc _ =>
      have grown : Growth cfg s _ _ := .restored polled pc
      simpa [launches, insertJob, submittedInstance, Instance.launch] using grown
  | _ => exact .same

theorem taskMove_launches {cfg : Config} {s next : Cluster} {i : Nat} {inst : Instance}
    (present : s.instances[i]? = some inst) (move : TaskMove cfg s i inst next) :
    next.launches = s.launches := by
  cases move <;> exact launches_setInstance present rfl

theorem brokerMove_instances {cfg : Config} {s next : Cluster} {identity : BrokerIdentity}
    {action : BrokerAction} (move : BrokerMove cfg s identity action next) :
    next.instances = s.instances := by
  cases move <;> simp

theorem clusterMove_growth {cfg : Config} {s next : Cluster} {action : ClusterAction}
    (move : ClusterMove cfg s action next) : Growth cfg s action next.launches := by
  cases move with
  | advanced => exact .same
  | broker _ move => exact .of_eq (by rw [launches, brokerMove_instances move, launches])
  | duplicate _ _ _ => exact .same
  | accepted present counted _ =>
      have grown : Growth cfg s _ _ := .submitted present counted
      simpa [launches, insertJob, submittedInstance, Instance.launch] using grown
  | poll present move => exact pollMove_growth present move
  | task present move => exact .of_eq (taskMove_launches present move)

theorem Growth.keeps {cfg : Config} {s : Cluster} {action : ClusterAction}
    {launches : List Launch} (grown : Growth cfg s action launches) {i : Nat} {launch : Launch}
    (present : s.launches[i]? = some launch) : launches[i]? = some launch := by
  have bound := (List.getElem?_eq_some_iff.mp present).1
  cases grown with
  | same => exact present
  | submitted _ _ | restored _ _ => rw [List.getElem?_append_left bound, present]

theorem jobs_setBroker (s : Cluster) (broker : String) (state : BrokerState) (b : String) :
    (Function.update s.brokers broker state b).jobs =
      if b = broker then state.jobs else (s.brokers b).jobs := by
  by_cases same : b = broker
  · subst same
    simp
  · simp [same]

theorem jobs_of_insertJob {s : Cluster} {inst : Instance} {b id : String} {i : Nat}
    (held : ((s.insertJob inst).brokers b).jobs.lookup id = some i) :
    (s.brokers b).jobs.lookup id = some i ∨
      i = s.instances.length ∧ inst.job.id = id ∧ inst.broker = b := by
  simp only [insertJob, setBroker_brokers, jobs_setBroker] at held
  split at held
  next same =>
    rw [HashMap.lookup_insert_eq] at held
    split at held
    next key =>
      simp only [Option.some.injEq] at held
      exact Or.inr ⟨held.symm, key.symm, same.symm⟩
    next => exact Or.inl (same ▸ held)
  next => exact Or.inl held

theorem jobs_of_update {s : Cluster} {broker b id : String} {state : BrokerState} {i : Nat}
    (held : (Function.update s.brokers broker state b).jobs.lookup id = some i)
    (shrunk : ∀ key j, state.jobs.lookup key = some j →
      (s.brokers broker).jobs.lookup key = some j) :
    (s.brokers b).jobs.lookup id = some i := by
  rw [jobs_setBroker] at held
  split at held
  next same => exact same ▸ shrunk id i held
  next => exact held

theorem lookup_of_erase {map : HashMap String Nat} {key query : String} {i : Nat}
    (held : (AList.erase key map).lookup query = some i) : map.lookup query = some i := by
  rw [HashMap.lookup_erase_eq] at held
  split at held
  · simp at held
  · exact held

def Enters (s next : Cluster) (b id : String) (i : Nat) : Prop :=
  i = s.launches.length ∧ ∃ launch, next.launches = s.launches ++ [launch] ∧
    launch.job.id = id ∧ launch.broker = b

theorem enters_of_insertJob {s : Cluster} {inst : Instance} {next : Cluster}
    (grown : next.instances = s.instances ++ [inst]) {b id : String} {i : Nat}
    (entered : i = s.instances.length ∧ inst.job.id = id ∧ inst.broker = b) :
    Enters s next b id i := by
  obtain ⟨last, sameId, sameBroker⟩ := entered
  refine ⟨by simpa [launches] using last, inst.launch, ?_, sameId, sameBroker⟩
  simp [launches, grown]

theorem pollMove_jobs {cfg : Config} {s next : Cluster} {p : Nat} {poll : Poll}
    {event : PollEvent} (move : PollMove cfg s p poll event next) {b id : String} {i : Nat}
    (held : (next.brokers b).jobs.lookup id = some i) :
    (s.brokers b).jobs.lookup id = some i ∨ Enters s next b id i := by
  cases move with
  | removed _ _ => exact Or.inl (jobs_of_update held fun _ _ => lookup_of_erase)
  | uncounted _ | scheduled _ _ _ | counted _ | duplicate _ _ =>
      exact Or.inl (jobs_of_update held fun _ _ kept => kept)
  | restored _ _ =>
      rcases jobs_of_insertJob held with kept | entered
      · exact Or.inl kept
      · exact Or.inr (enters_of_insertJob rfl entered)
  | _ => exact Or.inl held

theorem brokerMove_jobs {cfg : Config} {s next : Cluster} {identity : BrokerIdentity}
    {action : BrokerAction} (move : BrokerMove cfg s identity action next) {b id : String}
    {i : Nat} (held : (next.brokers b).jobs.lookup id = some i) :
    (s.brokers b).jobs.lookup id = some i := by
  cases move with
  | leased | unleased | overloaded _ | begun => exact held
  | swept _ _ => exact jobs_of_update held fun _ _ => lookup_of_erase
  | deleted _ _ _ | cleaned _ =>
      rw [deleteRecord_brokers] at held
      exact jobs_of_update held fun _ _ kept => kept
  | _ => exact jobs_of_update held fun _ _ kept => kept

theorem taskMove_brokers {cfg : Config} {s next : Cluster} {i : Nat} {inst : Instance}
    (move : TaskMove cfg s i inst next) : next.brokers = s.brokers := by
  cases move <;> rfl

theorem clusterMove_jobs {cfg : Config} {s next : Cluster} {action : ClusterAction}
    (move : ClusterMove cfg s action next) {b id : String} {i : Nat}
    (held : (next.brokers b).jobs.lookup id = some i) :
    (s.brokers b).jobs.lookup id = some i ∨ Enters s next b id i := by
  cases move with
  | advanced => exact Or.inl held
  | broker _ move => exact Or.inl (brokerMove_jobs move held)
  | duplicate _ _ _ => exact Or.inl (jobs_of_update held fun _ _ kept => kept)
  | accepted _ _ _ =>
      rcases jobs_of_insertJob held with kept | entered
      · exact Or.inl kept
      · exact Or.inr (enters_of_insertJob rfl entered)
  | poll _ move => exact pollMove_jobs move held
  | task _ move =>
      rw [taskMove_brokers move] at held
      exact Or.inl held

inductive PcChange (s next : Cluster) (poll : Poll) (pc : PollPc) : Prop
  | idle : pc.holding = none → pc.carrying = none → PcChange s next poll pc
  | kept : pc.holding = poll.pc.holding → pc.carrying = poll.pc.carrying →
      PcChange s next poll pc
  | found {i} : (s.brokers poll.broker).jobs.lookup poll.id = some i → pc = .connect i →
      PcChange s next poll pc
  | claimed {record} : next.store.recordOf poll.id = some record →
      record.brokerId = poll.broker → pc = .restore record (next.writer poll.id) →
      PcChange s next poll pc

theorem claimedPc_change {s : Cluster} {poll : Poll} {owner : String} {result : ClaimResult}
    {store : MemoryStore} {next : Cluster} (stored : next.store = store)
    (kept : next.writer = s.writer)
    (effect : MemoryStore.ClaimEffect s.store poll.id owner poll.broker result store) :
    PcChange s next poll (claimedPc s poll owner result) := by
  cases effect with
  | notFound _ => exact .idle rfl rfl
  | alreadyMine present mine => exact .claimed (by rw [stored, present]) mine (by rw [kept]; rfl)
  | active _ _ _ =>
      simp only [claimedPc]
      split
      · exact .idle rfl rfl
      · exact .idle rfl rfl
  | transferred _ _ _ keyed =>
      refine .claimed ?_ rfl (by rw [kept]; rfl)
      rw [stored, MemoryStore.recordOf_insert keyed]
      simp

theorem pollMiss_idle (poll : Poll) (resumed : Bool) :
    (pollMiss poll resumed).holding = none ∧ (pollMiss poll resumed).carrying = none := by
  unfold pollMiss
  repeat' split
  all_goals exact ⟨rfl, rfl⟩

theorem pollMove_pc {cfg : Config} {s next : Cluster} {p : Nat} {poll : Poll}
    {event : PollEvent} (move : PollMove cfg s p poll event next) :
    ∃ pc, next.polls = s.polls.set p { poll with pc := pc } ∧ PcChange s next poll pc := by
  cases move with
  | found _ held => exact ⟨_, rfl, .found held rfl⟩
  | missed _ _ => exact ⟨_, rfl, .idle (pollMiss_idle poll _).1 (pollMiss_idle poll _).2⟩
  | took pc _ _ _ =>
      refine ⟨_, rfl, .kept ?_ ?_⟩
      all_goals rcases pc with pc | pc <;> rw [pc] <;> rfl
  | pending pc _ =>
      refine ⟨_, rfl, .kept ?_ ?_⟩
      all_goals rcases pc with pc | pc | pc <;> rw [pc] <;> rfl
  | woken pc =>
      refine ⟨_, rfl, .kept ?_ ?_⟩
      all_goals rw [pc]; split <;> rfl
  | connected pc _ | parked pc _ _ | disconnected pc | removed pc _ | alreadyRemoved pc _
  | uncounted pc | scheduled pc _ _ | unscheduled pc _ _ | counted pc =>
      exact ⟨_, rfl, .kept (by rw [pc]; rfl) (by rw [pc]; rfl)⟩
  | claimed _ answered =>
      exact ⟨_, rfl, claimedPc_change rfl rfl (MemoryStore.claimIfOwner_effect answered)⟩
  | _ => exact ⟨_, rfl, .idle rfl rfl⟩

theorem taskMove_polls {cfg : Config} {s next : Cluster} {i : Nat} {inst : Instance}
    (move : TaskMove cfg s i inst next) : next.polls = s.polls := by
  cases move <;> rfl

inductive PollChange (cfg : Config) (s next : Cluster) (p : Nat) :
    ClusterAction → Poll → Prop
  | same {action poll} : s.polls[p]? = some poll → PollChange cfg s next p action poll
  | begun {identity : BrokerIdentity} {id submitting} : p = s.polls.length →
      PollChange cfg s next p (.broker identity (.poll id submitting))
        ⟨identity.brokerId, id, submitting, .lookup false⟩
  | moved {poll event pc} : s.polls[p]? = some poll → PollMove cfg s p poll event next →
      PcChange s next poll pc → PollChange cfg s next p (.pollEvent p event) { poll with pc := pc }

theorem brokerMove_polls {cfg : Config} {s next : Cluster} {identity : BrokerIdentity}
    {action : BrokerAction} {p : Nat} {poll : Poll}
    (move : BrokerMove cfg s identity action next) (present : next.polls[p]? = some poll) :
    PollChange cfg s next p (.broker identity action) poll := by
  cases move with
  | begun =>
      rcases getElem?_of_snoc present with kept | ⟨last, rfl⟩
      · exact .same kept
      · exact .begun last
  | deleted _ _ _ | cleaned _ =>
      rw [deleteRecord_polls] at present
      exact .same present
  | _ => exact .same present

theorem clusterMove_polls {cfg : Config} {s next : Cluster} {action : ClusterAction} {p : Nat}
    {poll : Poll} (move : ClusterMove cfg s action next)
    (present : next.polls[p]? = some poll) : PollChange cfg s next p action poll := by
  cases move with
  | broker _ move => exact brokerMove_polls move present
  | poll known move =>
      obtain ⟨pc, moved, change⟩ := pollMove_pc move
      rw [moved] at present
      rcases getElem?_of_set present with ⟨rfl, rfl⟩ | ⟨_, kept⟩
      · exact .moved known move change
      · exact .same kept
  | task _ move =>
      rw [taskMove_polls move] at present
      exact .same present
  | _ => exact .same present

inductive StoreChange (s : Cluster) (id : String) :
    ClusterAction → Option PersistentJobRecord → Option Nat → Prop
  | same {action} : StoreChange s id action (s.store.recordOf id) (s.writer id)
  | deleted {action} : StoreChange s id action none (s.writer id)
  | transferred {p : Nat} {poll : Poll} {record : PersistentJobRecord} :
      s.polls[p]? = some poll → poll.pc = .claim record.brokerId → poll.id = id →
      s.store.recordOf id = some record → record.brokerId ≠ poll.broker →
      StoreChange s id (.pollEvent p .step) (some { record with brokerId := poll.broker })
        (s.writer id)
  | probed {action} {record : PersistentJobRecord} : s.store.recordOf id = some record →
      record.brokerId = "__never_expected__" →
      StoreChange s id action (some { record with brokerId := "__presence_probe__" })
        (s.writer id)
  | written {i : Nat} {inst : Instance} {event : TaskEvent} : s.instances[i]? = some inst →
      inst.task = .upserting → inst.job.id = id →
      StoreChange s id (.taskEvent i event) (some (inst.job.toRecord inst.broker)) (some i)

theorem StoreChange.of_eq {s : Cluster} {id : String} {action : ClusterAction}
    {record : Option PersistentJobRecord} {writer : Option Nat}
    (sameRecord : record = s.store.recordOf id) (sameWriter : writer = s.writer id) :
    StoreChange s id action record writer := sameRecord ▸ sameWriter ▸ .same

theorem pollMove_store {cfg : Config} {s next : Cluster} {p : Nat} {poll : Poll}
    {event : PollEvent} (polled : s.polls[p]? = some poll)
    (move : PollMove cfg s p poll event next) (id : String) :
    StoreChange s id (.pollEvent p event) (next.store.recordOf id) (next.writer id) := by
  cases move with
  | claimed pc answered =>
      have effect := (MemoryStore.claimIfOwner_effect answered).recordOf id
      rcases effect with same | ⟨rfl, record, stored, notMine, rfl, changed⟩
      · exact .of_eq same rfl
      · simp only [setPc_store, changed]
        exact .transferred polled pc rfl stored notMine
  | probed _ answered _ =>
      have effect := (MemoryStore.claimIfOwner_effect answered).recordOf id
      rcases effect with same | ⟨rfl, record, stored, _, expected, changed⟩
      · exact .of_eq same rfl
      · simp only [setPc_store, changed]
        exact .probed stored expected
  | _ => exact .same

theorem taskMove_store {cfg : Config} {s next : Cluster} {i : Nat} {inst : Instance}
    (present : s.instances[i]? = some inst) (move : TaskMove cfg s i inst next)
    (event : TaskEvent) (id : String) :
    StoreChange s id (.taskEvent i event) (next.store.recordOf id) (next.writer id) := by
  cases move with
  | upserted task written =>
      simp only [MemoryStore.recordOf_upsertJob written, Function.update_apply]
      by_cases same : id = inst.job.id
      · simp only [same, Job.toRecord, if_true]
        exact .written present task rfl
      · simp only [same, Job.toRecord, if_false]
        exact .same
  | _ => exact .same

theorem StoreChange.of_deleteRecord {s cleaned : Cluster} (sameStore : cleaned.store = s.store)
    (sameWriter : cleaned.writer = s.writer) (deleted id : String) (action : ClusterAction) :
    StoreChange s id action ((cleaned.deleteRecord deleted).store.recordOf id)
      ((cleaned.deleteRecord deleted).writer id) := by
  rw [deleteRecord_writer, sameWriter]
  rcases recordOf_deleteRecord cleaned deleted id with same | ⟨absent, _⟩
  · exact .of_eq (by rw [same, sameStore]) rfl
  · rw [absent]
    exact .deleted

theorem brokerMove_store {cfg : Config} {s next : Cluster} {identity : BrokerIdentity}
    {action : BrokerAction} (move : BrokerMove cfg s identity action next)
    (label : ClusterAction) (id : String) :
    StoreChange s id label (next.store.recordOf id) (next.writer id) := by
  cases move with
  | deleted _ _ _ | cleaned _ =>
      refine .of_deleteRecord ?_ ?_ _ id label
      all_goals rfl
  | _ => exact .same

theorem clusterMove_store {cfg : Config} {s next : Cluster} {action : ClusterAction}
    (move : ClusterMove cfg s action next) (id : String) :
    StoreChange s id action (next.store.recordOf id) (next.writer id) := by
  cases move with
  | broker _ move => exact brokerMove_store move _ id
  | poll present move => exact pollMove_store present move id
  | task present move => exact taskMove_store present move _ id
  | _ => exact .same

def Instance.mayUpsert (inst : Instance) : Bool :=
  match inst.task with
  | .spawned => !(inst.persisted || inst.alreadyPersisted)
  | .dispatching (some _) => !inst.persisted
  | .upserting => true
  | _ => false

/-- The instance `later` in the table after a step was there before it, with the same
launch, and can write its record only if it already could. -/
def Continues (s : Cluster) (i : Nat) (later : Instance) : Prop :=
  ∃ inst, s.instances[i]? = some inst ∧ inst.launch = later.launch ∧
    (later.mayUpsert = true → inst.mayUpsert = true)

theorem continues_of_set {s : Cluster} {i j : Nat} {inst value later : Instance}
    (known : s.instances[i]? = some inst)
    (present : (s.instances.set i value)[j]? = some later) (same : inst.launch = value.launch)
    (weaker : value.mayUpsert = true → inst.mayUpsert = true) : Continues s j later := by
  rcases getElem?_of_set present with ⟨rfl, rfl⟩ | ⟨_, kept⟩
  · exact ⟨inst, known, same, weaker⟩
  · exact ⟨later, kept, rfl, id⟩

theorem taskMove_continues {cfg : Config} {s next : Cluster} {i j : Nat}
    {inst later : Instance} (known : s.instances[i]? = some inst)
    (move : TaskMove cfg s i inst next) (present : next.instances[j]? = some later) :
    Continues s j later := by
  cases move with
  | started task =>
      refine continues_of_set known present rfl ?_
      cases cfg.persistAfter <;> simp [Instance.mayUpsert, task]
  | elapsed task volatile _ =>
      refine continues_of_set known present rfl ?_
      simp [Instance.mayUpsert, task, volatile]
  | marked task =>
      refine continues_of_set known present rfl ?_
      simp [Instance.mayUpsert, task]
  | _ =>
      refine continues_of_set known present rfl ?_
      simp [Instance.mayUpsert]

theorem pollMove_continues {cfg : Config} {s next : Cluster} {p j : Nat} {poll : Poll}
    {event : PollEvent} {later : Instance} (move : PollMove cfg s p poll event next)
    (present : next.instances[j]? = some later) :
    Continues s j later ∨ j = s.instances.length ∧ later.mayUpsert = false ∧
      ∃ record source deadline, poll.pc = .insert record source deadline ∧
        later.launch = ⟨Job.restore record, poll.broker, cfg.router, source, true⟩ := by
  cases move with
  | connected _ known | took _ known _ _ | left _ known =>
      exact Or.inl (continues_of_set known present rfl (by simp [Instance.mayUpsert]))
  | restored pc _ =>
      rcases getElem?_of_snoc present with kept | ⟨last, rfl⟩
      · exact Or.inl ⟨later, kept, rfl, id⟩
      · exact Or.inr ⟨last, by simp [submittedInstance, Instance.mayUpsert], _, _, _, pc, rfl⟩
  | _ => exact Or.inl ⟨later, present, rfl, id⟩

theorem clusterMove_continues {cfg : Config} {s next : Cluster} {action : ClusterAction}
    {j : Nat} {later : Instance} (move : ClusterMove cfg s action next)
    (present : next.instances[j]? = some later) :
    Continues s j later ∨ j = s.instances.length ∧
      ((∃ k submission deadline, action = .submitInsert k ∧ s.submits[k]? = some submission ∧
        submission.pc = .counted deadline ∧ later.launch =
          ⟨submission.job, submission.broker, submission.router, none, false⟩) ∨
      later.mayUpsert = false) := by
  cases move with
  | advanced => exact Or.inl ⟨later, present, rfl, id⟩
  | broker _ move =>
      rw [brokerMove_instances move] at present
      exact Or.inl ⟨later, present, rfl, id⟩
  | duplicate _ _ _ => exact Or.inl ⟨later, present, rfl, id⟩
  | accepted known counted _ =>
      rcases getElem?_of_snoc present with kept | ⟨last, rfl⟩
      · exact Or.inl ⟨later, kept, rfl, id⟩
      · exact Or.inr ⟨last, Or.inl ⟨_, _, _, rfl, known, counted, rfl⟩⟩
  | poll _ move =>
      rcases pollMove_continues move present with kept | ⟨last, never, _⟩
      · exact Or.inl kept
      · exact Or.inr ⟨last, Or.inr never⟩
  | task known move => exact Or.inl (taskMove_continues known move present)

end BitsBroker
