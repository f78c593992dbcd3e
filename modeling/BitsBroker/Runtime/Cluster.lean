import BitsBroker.Runtime.Recovery
import BitsBroker.Routing.Switch
import BitsBroker.Lib.Transition
import Mathlib.Logic.Function.Basic

/-!
Brokers over one shared store, as a transition system. One action is one atomic
access to shared state: a store operation, a locked access to a job map or a result
slot, an atomic counter update. A submitted job (`Arc<Job>` in the source) is an
`Instance`, named by its index; it stays in the table after the broker forgets it.
Calls in progress (`Submit`, `Poll`) and the spawned job task (`TaskPc`) hold the
point they have reached. A crashed broker takes no further step and its memory is
lost with it.

`Poll` covers `Bits::poll` and, with `submitting`, `Bits::poll_submit`. Its local
part looks the job up, counts itself as a poller, takes the result, removes the map
entry, decrements the job count, schedules the durable cleanup and returns; its
remote part reads the lease of the broker the identifier names, claims the record and
re-submits the restored job; a stored identifier always decodes, so the re-submission
keeps it. A future can be dropped at any of its awaits. The answer of a proxied
request is left to the environment, and a store call can fail. The sweeper's `remove_if`
reads the result, the pollers and the deadline one after the other while it has the map's
shard; `sweepRemove` takes these reads and the removal as one step.

`Instance.origin` and `Cluster.writer` record, for the statements only, which
instance wrote the record a restored copy comes from.
-/

namespace BitsBroker

open RequestId

structure BrokerIdentity where
  site : String
  env : String
  slot : Nat
deriving Repr, DecidableEq

def BrokerIdentity.brokerId (identity : BrokerIdentity) : String :=
  s!"{identity.site}-{identity.env}-{identity.slot}"

structure Config where
  router : Switch
  maxJobs : Nat
  persistAfter : Option Nat
  reconnectBuffer : Nat
  brokerLeaseTtl : Nat
  internalPollBaseUrl : String → String
  divF64 : Nat → Nat

inductive TaskPc where
  | spawned
  | dispatching (persistAt : Option Nat)
  | upserting
  | upserted
  | finishing (result : JobResult)
  | done

structure Instance where
  job : Job
  broker : String
  router : Switch
  origin : Option Nat
  alreadyPersisted : Bool
  activePollers : Nat
  reconnectDeadline : Nat
  pendingStatus : PendingStatus
  persisted : Bool
  result : Option JobResult
  task : TaskPc

def Instance.clientPresent (inst : Instance) (now : Nat) : Bool :=
  decide (0 < inst.activePollers) || decide (now < inst.reconnectDeadline)

inductive SubmitPc where
  | counted (deadline : Nat)
  | accepted
  | overloaded

structure Submit where
  broker : String
  router : Switch
  job : Job
  pc : SubmitPc

inductive PollPc where
  | lookup (resumed : Bool)
  | connect (inst : Nat)
  | check (inst : Nat)
  | wait (inst : Nat)
  | recheck (inst : Nat)
  | remove (inst : Nat) (result : JobResult)
  | uncount (inst : Nat) (result : JobResult)
  | cleanup (inst : Nat) (result : JobResult)
  | leave (inst : Nat) (outcome : Option PollOutcome)
  | leaseOf (owner : String)
  | claim (owner : String)
  | restore (record : PersistentJobRecord) (source : Option Nat)
  | insert (record : PersistentJobRecord) (source : Option Nat) (deadline : Nat)
  | ownerLease (owner : String)
  | proxy (lease : BrokerLeaseRecord)
  | probe
  | finished (outcome : Option PollOutcome)

structure Poll where
  broker : String
  id : String
  submitting : Bool
  pc : PollPc

inductive SweepPc where
  | collecting
  | processing
  | removed (id : String) (inst : Nat)
  | deleting (id : String) (inst : Nat)

structure BrokerState where
  crashed : Bool
  jobs : HashMap String Nat
  jobCount : Nat
  cleanup : List String
  expired : List String
  sweep : SweepPc

def BrokerState.new : BrokerState where
  crashed := false
  jobs := ∅
  jobCount := 0
  cleanup := []
  expired := []
  sweep := .collecting

structure Cluster where
  now : Nat
  store : MemoryStore
  brokers : String → BrokerState
  instances : List Instance
  submits : List Submit
  polls : List Poll
  writer : String → Option Nat

def Cluster.new (now : Nat) : Cluster where
  now := now
  store := MemoryStore.new
  brokers := fun _ => BrokerState.new
  instances := []
  submits := []
  polls := []
  writer := fun _ => none

inductive PollEvent where
  | step
  | wake
  | timeout
  | storeError (retry : Bool)
  | answer (outcome : Option PollOutcome)
  | answerNotFound
  | drop

inductive TaskEvent where
  | step
  | elapse
  | storeError
  | markProcessing
  | resolve (result : JobResult)

inductive BrokerAction where
  | upsertLease
  | deleteLease
  | crash
  | submit (router : Switch) (job : Job) (random : List Nat)
  | poll (id : String) (submitting : Bool)
  | sweepMark (id : String)
  | sweepStart
  | sweepRemove
  | sweepCount
  | sweepDelete
  | cleanupDelete

inductive ClusterAction where
  | advance (elapsed : Nat)
  | broker (identity : BrokerIdentity) (action : BrokerAction)
  | submitInsert (submission : Nat)
  | pollEvent (poll : Nat) (event : PollEvent)
  | taskEvent (inst : Nat) (event : TaskEvent)

namespace Cluster

def setBroker (s : Cluster) (broker : String) (state : BrokerState) : Cluster :=
  { s with brokers := Function.update s.brokers broker state }

def setInstance (s : Cluster) (inst : Nat) (value : Instance) : Cluster :=
  { s with instances := s.instances.set inst value }

def setPc (s : Cluster) (poll : Nat) (value : Poll) (pc : PollPc) : Cluster :=
  { s with polls := s.polls.set poll { value with pc := pc } }

def submittedInstance (job : Job) (broker : String) (router : Switch) (origin : Option Nat)
    (alreadyPersisted : Bool) (deadline : Nat) : Instance where
  job := job
  broker := broker
  router := router
  origin := origin
  alreadyPersisted := alreadyPersisted
  activePollers := 0
  reconnectDeadline := deadline
  pendingStatus := .queued
  persisted := false
  result := none
  task := .spawned

def insertJob (s : Cluster) (inst : Instance) : Cluster :=
  let b := s.brokers inst.broker
  { s.setBroker inst.broker { b with jobs := AList.insert inst.job.id s.instances.length b.jobs } with
    instances := s.instances ++ [inst] }

def uncount (s : Cluster) (broker : String) : Cluster :=
  let b := s.brokers broker
  s.setBroker broker { b with jobCount := b.jobCount - 1 }

def deleteRecord (s : Cluster) (id : String) : Cluster :=
  match s.store.deleteJob id with
  | .ok store => { s with store := store }
  | .error _ => s

end Cluster

open Cluster

def newJobId (identity : BrokerIdentity) (now : Nat) (random : List Nat) :
    Except EncodeError String :=
  encodeWithFixedRandom identity.site identity.env identity.slot now random

def acceptedId (identity : BrokerIdentity) (now : Nat) (random : List Nat) (job : Job) :
    Except EncodeError String :=
  match decode job.id with
  | .ok _ => .ok job.id
  | .error _ => newJobId identity now random

def submitBegin (cfg : Config) (s : Cluster) (identity : BrokerIdentity) (router : Switch)
    (job : Job) (random : List Nat) : Option Cluster :=
  match acceptedId identity s.now random job with
  | .error _ => none
  | .ok id =>
      let broker := identity.brokerId
      let b := s.brokers broker
      let job := { job with id := id }
      if cfg.maxJobs ≤ b.jobCount then
        some { s with submits := s.submits ++ [⟨broker, router, job, .overloaded⟩] }
      else
        some { s.setBroker broker { b with jobCount := b.jobCount + 1 } with
          submits := s.submits ++ [⟨broker, router, job, .counted (s.now + cfg.reconnectBuffer)⟩] }

def submitInsert (s : Cluster) (k : Nat) (submission : Submit) : Option Cluster :=
  let b := s.brokers submission.broker
  if b.crashed then none
  else match submission.pc with
    | .counted deadline =>
        match b.jobs.lookup submission.job.id with
        | some _ =>
            some { s.uncount submission.broker with
              submits := s.submits.set k { submission with pc := .overloaded } }
        | none =>
            some { s.insertJob (submittedInstance submission.job submission.broker
                submission.router none false deadline) with
              submits := s.submits.set k { submission with pc := .accepted } }
    | _ => none

def pollMiss (poll : Poll) (resumed : Bool) : PollPc :=
  if poll.submitting then .finished (some .notFound)
  else if resumed then .finished (some (.queued poll.id))
  else match slotFromJobId poll.id with
    | .error _ => .finished (some .notFound)
    | .ok owner => if owner ≠ poll.broker then .leaseOf owner else .claim owner

def pollLookup (s : Cluster) (p : Nat) (poll : Poll) (resumed : Bool) : Cluster :=
  match (s.brokers poll.broker).jobs.lookup poll.id with
  | some i => s.setPc p poll (.connect i)
  | none => s.setPc p poll (pollMiss poll resumed)

def pollTake (s : Cluster) (p : Nat) (poll : Poll) (i : Nat) (inst : Instance)
    (result : JobResult) : Cluster :=
  (s.setInstance i { inst with result := none }).setPc p poll (.remove i result)

def pollPending (poll : Poll) (i : Nat) (inst : Instance) : PollPc :=
  .leave i (some (.pending poll.id inst.pendingStatus))

def pollCheck (s : Cluster) (p : Nat) (poll : Poll) (i : Nat) (inst : Instance) : Cluster :=
  match inst.result with
  | some result =>
      if poll.submitting && result.isDeliverable then s.setPc p poll (pollPending poll i inst)
      else pollTake s p poll i inst result
  | none =>
      if poll.submitting && inst.pendingStatus == .processing then
        s.setPc p poll (pollPending poll i inst)
      else s.setPc p poll (.wait i)

def pollRecheck (s : Cluster) (p : Nat) (poll : Poll) (i : Nat) (inst : Instance) : Cluster :=
  match inst.result with
  | some result => pollTake s p poll i inst result
  | none => s.setPc p poll (pollPending poll i inst)

def pollRemove (s : Cluster) (p : Nat) (poll : Poll) (i : Nat) (result : JobResult) : Cluster :=
  let b := s.brokers poll.broker
  match b.jobs.lookup poll.id with
  | some _ =>
      (s.setBroker poll.broker { b with jobs := AList.erase poll.id b.jobs }).setPc p poll
        (.uncount i result)
  | none => s.setPc p poll (.cleanup i result)

def pollCleanup (s : Cluster) (p : Nat) (poll : Poll) (i : Nat) (inst : Instance)
    (result : JobResult) : Cluster :=
  let b := s.brokers poll.broker
  if inst.persisted then
    (s.setBroker poll.broker { b with cleanup := b.cleanup ++ [poll.id] }).setPc p poll
      (.leave i (some (.ready result)))
  else s.setPc p poll (.leave i (some (.ready result)))

def pollLeave (cfg : Config) (s : Cluster) (p : Nat) (poll : Poll) (i : Nat) (inst : Instance)
    (outcome : Option PollOutcome) : Cluster :=
  (s.setInstance i { inst with
      reconnectDeadline := s.now + cfg.reconnectBuffer
      activePollers := inst.activePollers - 1 }).setPc p poll (.finished outcome)

def pollLeaseOf (cfg : Config) (s : Cluster) (p : Nat) (poll : Poll) (owner : String) : Cluster :=
  match lookupOwnerLease cfg.divF64 s.store owner s.now with
  | .active lease => s.setPc p poll (.proxy lease)
  | .missingOrExpired => s.setPc p poll (.claim owner)
  | .unknown => s.setPc p poll (.finished (some (.queued poll.id)))

def claimedPc (s : Cluster) (poll : Poll) (owner : String) : ClaimResult → PollPc
  | .claimed record => .restore record (s.writer poll.id)
  | .active current =>
      if current = poll.broker then .finished (some (.queued poll.id)) else .ownerLease current
  | .notFound => .finished (some (if owner = poll.broker then .notFound else .jobLost))

def pollClaim (s : Cluster) (p : Nat) (poll : Poll) (owner : String) : Cluster :=
  match s.store.claimIfOwner poll.id owner poll.broker with
  | .ok (result, store) => ({ s with store := store } : Cluster).setPc p poll
      (claimedPc s poll owner result)
  | .error _ => s.setPc p poll (.finished (some (.queued poll.id)))

def pollRestore (cfg : Config) (s : Cluster) (p : Nat) (poll : Poll)
    (record : PersistentJobRecord) (source : Option Nat) : Cluster :=
  let b := s.brokers poll.broker
  (s.setBroker poll.broker { b with jobCount := b.jobCount + 1 }).setPc p poll
    (.insert record source (s.now + cfg.reconnectBuffer))

def pollInsert (cfg : Config) (s : Cluster) (p : Nat) (poll : Poll)
    (record : PersistentJobRecord) (source : Option Nat) (deadline : Nat) : Cluster :=
  match (s.brokers poll.broker).jobs.lookup record.jobId with
  | some _ => (s.uncount poll.broker).setPc p poll (.lookup true)
  | none =>
      (s.insertJob (submittedInstance (Job.restore record) poll.broker cfg.router source true
        deadline)).setPc p poll (.lookup true)

def pollOwnerLease (cfg : Config) (s : Cluster) (p : Nat) (poll : Poll) (owner : String) :
    Cluster :=
  match lookupOwnerLease cfg.divF64 s.store owner s.now with
  | .active lease => s.setPc p poll (.proxy lease)
  | _ => s.setPc p poll (.finished (some (.queued poll.id)))

def pollProbe (s : Cluster) (p : Nat) (poll : Poll) : Cluster :=
  match s.store.claimIfOwner poll.id "__never_expected__" "__presence_probe__" with
  | .ok (.notFound, store) =>
      ({ s with store := store } : Cluster).setPc p poll (.finished (some .notFound))
  | .ok (_, store) =>
      ({ s with store := store } : Cluster).setPc p poll (.finished (some (.queued poll.id)))
  | .error _ => s.setPc p poll (.finished (some (.queued poll.id)))

def pollEvent (cfg : Config) (s : Cluster) (p : Nat) (poll : Poll) (event : PollEvent) :
    Option Cluster :=
  if (s.brokers poll.broker).crashed then none
  else match poll.pc, event with
    | .lookup resumed, .step => some (pollLookup s p poll resumed)
    | .connect i, .step => s.instances[i]?.map fun inst =>
        (s.setInstance i { inst with activePollers := inst.activePollers + 1 }).setPc p poll (.check i)
    | .check i, .step => s.instances[i]?.map fun inst => pollCheck s p poll i inst
    | .wait i, .wake => some (s.setPc p poll (if poll.submitting then .check i else .recheck i))
    | .wait i, .timeout => s.instances[i]?.map fun inst => s.setPc p poll (pollPending poll i inst)
    | .wait i, .drop => some (s.setPc p poll (.leave i none))
    | .recheck i, .step => s.instances[i]?.map fun inst => pollRecheck s p poll i inst
    | .remove i result, .step => some (pollRemove s p poll i result)
    | .uncount i result, .step =>
        some ((s.uncount poll.broker).setPc p poll (.cleanup i result))
    | .cleanup i result, .step =>
        s.instances[i]?.map fun inst => pollCleanup s p poll i inst result
    | .leave i outcome, .step =>
        s.instances[i]?.map fun inst => pollLeave cfg s p poll i inst outcome
    | .leaseOf owner, .step => some (pollLeaseOf cfg s p poll owner)
    | .leaseOf _, .storeError _ => some (s.setPc p poll (.finished (some (.queued poll.id))))
    | .leaseOf _, .drop => some (s.setPc p poll (.finished none))
    | .claim owner, .step => some (pollClaim s p poll owner)
    | .claim owner, .storeError true => some (s.setPc p poll (.claim owner))
    | .claim _, .storeError false => some (s.setPc p poll (.finished (some (.queued poll.id))))
    | .claim _, .drop => some (s.setPc p poll (.finished none))
    | .restore record source, .step => some (pollRestore cfg s p poll record source)
    | .restore _ _, .drop => some (s.setPc p poll (.finished none))
    | .insert record source deadline, .step =>
        some (pollInsert cfg s p poll record source deadline)
    | .ownerLease owner, .step => some (pollOwnerLease cfg s p poll owner)
    | .ownerLease _, .storeError _ => some (s.setPc p poll (.finished (some (.queued poll.id))))
    | .ownerLease _, .drop => some (s.setPc p poll (.finished none))
    | .proxy _, .answer none => some (s.setPc p poll (.finished (some (.queued poll.id))))
    | .proxy _, .answer (some outcome) => some (s.setPc p poll (.finished (some outcome)))
    | .proxy _, .answerNotFound => some (s.setPc p poll .probe)
    | .proxy _, .drop => some (s.setPc p poll (.finished none))
    | .probe, .step => some (pollProbe s p poll)
    | .probe, .storeError _ => some (s.setPc p poll (.finished (some (.queued poll.id))))
    | .probe, .drop => some (s.setPc p poll (.finished none))
    | _, _ => none

def taskUpsert (s : Cluster) (i : Nat) (inst : Instance) : Cluster :=
  match s.store.upsertJob (inst.job.toRecord inst.broker) with
  | .ok store => { s.setInstance i { inst with task := .upserted } with
      store := store
      writer := Function.update s.writer inst.job.id (some i) }
  | .error _ => s.setInstance i { inst with task := .dispatching none }

def taskEvent (cfg : Config) (s : Cluster) (i : Nat) (inst : Instance) (event : TaskEvent) :
    Option Cluster :=
  if (s.brokers inst.broker).crashed then none
  else match inst.task, event with
    | .spawned, .step => some (s.setInstance i { inst with
        persisted := inst.persisted || inst.alreadyPersisted
        task := .dispatching (cfg.persistAfter.map (s.now + ·)) })
    | .dispatching (some persistAt), .elapse =>
        if s.now < persistAt then none
        else if !inst.persisted && inst.result.isNone then
          some (s.setInstance i { inst with task := .upserting })
        else some (s.setInstance i { inst with task := .dispatching none })
    | .dispatching _, .markProcessing =>
        some (s.setInstance i { inst with pendingStatus := .processing })
    | .dispatching _, .resolve result =>
        some (s.setInstance i { inst with task := .finishing result })
    | .upserting, .step => some (taskUpsert s i inst)
    | .upserting, .storeError =>
        some (s.setInstance i { inst with task := .dispatching none })
    | .upserted, .step =>
        some (s.setInstance i { inst with persisted := true, task := .dispatching none })
    | .finishing result, .step =>
        some (s.setInstance i { inst with result := some result, task := .done })
    | _, _ => none

def expiredInstance (s : Cluster) (broker id : String) : Option Nat :=
  match (s.brokers broker).jobs.lookup id with
  | none => none
  | some i => match s.instances[i]? with
    | none => none
    | some inst => if inst.result.isSome && !inst.clientPresent s.now then some i else none

def sweepMark (s : Cluster) (broker id : String) : Option Cluster :=
  let b := s.brokers broker
  match b.sweep, expiredInstance s broker id with
  | .collecting, some _ => some (s.setBroker broker { b with expired := b.expired ++ [id] })
  | _, _ => none

def sweepStart (s : Cluster) (broker : String) : Option Cluster :=
  let b := s.brokers broker
  match b.sweep with
  | .collecting => some (s.setBroker broker { b with sweep := .processing })
  | _ => none

def sweepRemove (s : Cluster) (broker : String) : Option Cluster :=
  let b := s.brokers broker
  match b.sweep, b.expired with
  | .processing, [] => some (s.setBroker broker { b with sweep := .collecting })
  | .processing, id :: rest =>
      match expiredInstance s broker id with
      | some i => some (s.setBroker broker { b with
          jobs := AList.erase id b.jobs, expired := rest, sweep := .removed id i })
      | none => some (s.setBroker broker { b with expired := rest })
  | _, _ => none

def sweepCount (s : Cluster) (broker : String) : Option Cluster :=
  let b := s.brokers broker
  match b.sweep with
  | .removed id i =>
      some (s.setBroker broker { b with jobCount := b.jobCount - 1, sweep := .deleting id i })
  | _ => none

def sweepDelete (s : Cluster) (broker : String) : Option Cluster :=
  let b := s.brokers broker
  match b.sweep with
  | .deleting id i =>
      let swept := s.setBroker broker { b with sweep := .processing }
      s.instances[i]?.map fun inst => if inst.persisted then swept.deleteRecord id else swept
  | _ => none

def cleanupDelete (s : Cluster) (broker : String) : Option Cluster :=
  let b := s.brokers broker
  match b.cleanup with
  | id :: rest => some ((s.setBroker broker { b with cleanup := rest }).deleteRecord id)
  | [] => none

def brokerStep (cfg : Config) (s : Cluster) (identity : BrokerIdentity) :
    BrokerAction → Option Cluster
  | .upsertLease =>
      let broker := identity.brokerId
      let store := s.store.upsertBrokerLease broker (cfg.internalPollBaseUrl broker)
        cfg.brokerLeaseTtl s.now
      some { s with store := store }
  | .deleteLease => some { s with store := s.store.deleteBrokerLease identity.brokerId }
  | .crash =>
      some (s.setBroker identity.brokerId { s.brokers identity.brokerId with crashed := true })
  | .submit router job random => submitBegin cfg s identity router job random
  | .poll id submitting =>
      some { s with polls := s.polls ++ [⟨identity.brokerId, id, submitting, .lookup false⟩] }
  | .sweepMark id => sweepMark s identity.brokerId id
  | .sweepStart => sweepStart s identity.brokerId
  | .sweepRemove => sweepRemove s identity.brokerId
  | .sweepCount => sweepCount s identity.brokerId
  | .sweepDelete => sweepDelete s identity.brokerId
  | .cleanupDelete => cleanupDelete s identity.brokerId

def clusterStep (cfg : Config) (s : Cluster) : ClusterAction → Option Cluster
  | .advance elapsed => some { s with now := s.now + elapsed }
  | .broker identity action =>
      if (s.brokers identity.brokerId).crashed then none else brokerStep cfg s identity action
  | .submitInsert k => s.submits[k]?.bind fun submission => submitInsert s k submission
  | .pollEvent p event => s.polls[p]?.bind fun poll => pollEvent cfg s p poll event
  | .taskEvent i event => s.instances[i]?.bind fun inst => taskEvent cfg s i inst event

end BitsBroker
