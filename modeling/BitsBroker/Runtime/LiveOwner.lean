import BitsBroker.Runtime.Delivery
import BitsBroker.Runtime.Heartbeat

/-!
A broker that renews its lease in time keeps its jobs. No poll can find the lease dead, so no other
broker claims a record from it, and a job that was submitted there has all its instances there: a
failover never starts a second run beside the first.

A lookup reads the lease from the store and looks at the clock later. Here these are two steps, with
anything else in between; each comparison comes within `latency` of its read, and each renewal so
much before the last one is over.
-/

namespace BitsBroker

open RequestId Cluster Table Transition

/-- What a lookup has read from the store, and when. -/
structure LeaseRead where
  lease : Option BrokerLeaseRecord
  readAt : Nat

/-- A cluster with the lookups that have read the lease and not looked at the clock yet. -/
structure Lookups where
  cluster : Cluster
  held : Nat → Option LeaseRead

def Lookups.new (now : Nat) : Lookups where
  cluster := Cluster.new now
  held := fun _ => none

inductive LookupAction where
  | cluster (action : ClusterAction)
  | read (poll : Nat)
  | compare (poll : Nat)

/-- The broker whose lease a poll looks up. -/
def PollPc.lookedUp : PollPc → Option String
  | .leaseOf owner | .ownerLease owner => some owner
  | _ => none

def LeaseRead.active (cfg : Config) (now : Nat) (read : LeaseRead) : Option BrokerLeaseRecord :=
  read.lease.filter fun lease => leaseIsActiveWithGrace cfg.divF64 lease now

def comparedPc (cfg : Config) (now : Nat) (poll : Poll) (read : LeaseRead) : PollPc :=
  match read.active cfg now with
  | some lease => .proxy lease
  | none => match poll.pc with
    | .leaseOf owner => .claim owner
    | _ => .finished (some (.queued poll.id))

/-- A step of a poll that belongs to a lookup which goes through. -/
def Lookups.inLookup (s : Lookups) : ClusterAction → Bool
  | .pollEvent p .step =>
      (s.held p).isSome || (s.cluster.polls[p]?.bind (·.pc.lookedUp)).isSome
  | .pollEvent p _ => (s.held p).isSome
  | _ => false

def readLease (s : Lookups) (p : Nat) (poll : Poll) : Option Lookups :=
  if (s.cluster.brokers poll.broker).crashed || (s.held p).isSome then none
  else poll.pc.lookedUp.map fun owner => { s with
    held := Function.update s.held p
      (some ⟨s.cluster.store.getBrokerLease owner, s.cluster.now⟩) }

def compareLease (cfg : Config) (s : Lookups) (p : Nat) (poll : Poll) : Option Lookups :=
  if (s.cluster.brokers poll.broker).crashed then none
  else (s.held p).map fun read => {
    cluster := s.cluster.setPc p poll (comparedPc cfg s.cluster.now poll read)
    held := Function.update s.held p none
  }

def lookupStep (cfg : Config) (s : Lookups) : LookupAction → Option Lookups
  | .cluster action =>
      if s.inLookup action then none
      else (clusterStep cfg s.cluster action).map fun next => { s with cluster := next }
  | .read p => s.cluster.polls[p]?.bind (readLease s p)
  | .compare p => s.cluster.polls[p]?.bind (compareLease cfg s p)

section AtOnce

variable (cfg : Config) (s : Cluster) (p : Nat) {poll : Poll} {owner : String}

theorem active_at_once (owner : String) :
    (LeaseRead.mk (s.store.getBrokerLease owner) s.now).active cfg s.now =
      match lookupOwnerLease cfg.divF64 s.store owner s.now with
      | .active lease => some lease
      | _ => none := by
  unfold LeaseRead.active lookupOwnerLease
  cases s.store.getBrokerLease owner with
  | none => rfl
  | some lease => cases active : leaseIsActiveWithGrace cfg.divF64 lease s.now <;> simp [active]

/-- With nothing in between the two steps are the one of the cluster. -/
theorem leaseOf_at_once (pc : poll.pc = .leaseOf owner) :
    s.setPc p poll (comparedPc cfg s.now poll ⟨s.store.getBrokerLease owner, s.now⟩) =
      pollLeaseOf cfg s p poll owner := by
  have known : lookupOwnerLease cfg.divF64 s.store owner s.now ≠ .unknown := by
    unfold lookupOwnerLease
    split
    · split <;> simp
    · simp
  rw [comparedPc, active_at_once, pc, pollLeaseOf]
  cases found : lookupOwnerLease cfg.divF64 s.store owner s.now with
  | active lease => rfl
  | missingOrExpired => rfl
  | unknown => exact absurd found known

theorem ownerLease_at_once (pc : poll.pc = .ownerLease owner) :
    s.setPc p poll (comparedPc cfg s.now poll ⟨s.store.getBrokerLease owner, s.now⟩) =
      pollOwnerLease cfg s p poll owner := by
  rw [comparedPc, active_at_once, pc, pollOwnerLease]
  cases lookupOwnerLease cfg.divF64 s.store owner s.now <;> rfl

end AtOnce

section LiveOwner

variable {cfg : Config} {s next : Cluster} {action : ClusterAction} {home id : String}
  {latency : Nat}

/-- The lease is active, and will be for the given time. -/
def LeaseActive (cfg : Config) (home : String) (ahead : Nat) (s : Cluster) : Prop :=
  ∃ lease, s.store.getBrokerLease home = some lease ∧
    leaseIsActiveWithGrace cfg.divF64 lease (s.now + ahead) = true

/-- Each renewal comes so early that no lookup under way can find the last one over, each lookup
looks at the clock in time, and the lease is not given back. -/
def RenewsInTime (cfg : Config) (home : String) (latency : Nat) (s : Lookups) :
    LookupAction → Prop
  | .cluster (.advance elapsed) =>
      LeaseActive cfg home latency { s.cluster with now := s.cluster.now + elapsed }
  | .cluster (.broker identity .deleteLease) => identity.brokerId ≠ home
  | .compare p => ∀ read, s.held p = some read → s.cluster.now ≤ read.readAt + latency
  | _ => True

theorem LeaseActive.of_lease (active : LeaseActive cfg home latency s) (now : next.now = s.now)
    (same : next.store.getBrokerLease home = s.store.getBrokerLease home) :
    LeaseActive cfg home latency next := by
  obtain ⟨lease, found, lasts⟩ := active
  exact ⟨lease, same.trans found, by rw [now]; exact lasts⟩

theorem getBrokerLease_of_brokers {store other : MemoryStore}
    (same : store.brokers = other.brokers) :
    store.getBrokerLease home = other.getBrokerLease home := by
  unfold MemoryStore.getBrokerLease
  rw [same]

theorem LeaseActive.renewed (short : latency < MemoryStore.leaseDuration cfg.brokerLeaseTtl)
    (identity : BrokerIdentity) (url : String) (active : LeaseActive cfg home latency s) :
    LeaseActive cfg home latency { s with
      store := s.store.upsertBrokerLease identity.brokerId url cfg.brokerLeaseTtl s.now } := by
  have written := Heartbeat.getBrokerLease_upsertBrokerLease s.store identity.brokerId url
    cfg.brokerLeaseTtl s.now home
  by_cases own : home = identity.brokerId
  · rw [if_pos own] at written
    refine ⟨_, written, ?_⟩
    apply decide_eq_true
    dsimp only
    omega
  · rw [if_neg own] at written
    exact active.of_lease rfl written

theorem LeaseActive.broker_step {identity : BrokerIdentity} {label : BrokerAction}
    (active : LeaseActive cfg home latency s)
    (short : latency < MemoryStore.leaseDuration cfg.brokerLeaseTtl)
    (keeps : label = .deleteLease → identity.brokerId ≠ home)
    (move : BrokerMove cfg s identity label next) : LeaseActive cfg home latency next := by
  cases move with
  | leased => exact active.renewed short identity _
  | unleased =>
      apply LeaseActive.of_lease active
      · rfl
      · rw [Heartbeat.getBrokerLease_deleteBrokerLease, if_neg (Ne.symm (keeps rfl))]
  | deleted _ _ _ | cleaned _ =>
      apply LeaseActive.of_lease active
      · exact deleteRecord_now _ _
      · exact getBrokerLease_of_brokers (deleteRecord_leases _ _)
  | _ => exact active.of_lease rfl rfl

theorem LeaseActive.step {held : Nat → Option LeaseRead} (active : LeaseActive cfg home latency s)
    (short : latency < MemoryStore.leaseDuration cfg.brokerLeaseTtl)
    (inTime : RenewsInTime cfg home latency ⟨s, held⟩ (.cluster action))
    (move : ClusterMove cfg s action next) : LeaseActive cfg home latency next := by
  cases move with
  | advanced => exact inTime
  | broker _ move =>
      refine active.broker_step short ?_ move
      rintro rfl
      exact inTime
  | duplicate _ _ _ | accepted _ _ _ => exact active.of_lease rfl rfl
  | poll _ move =>
      have now : next.now = s.now := by cases move <;> rfl
      exact active.of_lease now (getBrokerLease_of_brokers (pollMove_leases move))
  | task _ move =>
      have now : next.now = s.now := by cases move <;> rfl
      exact active.of_lease now (getBrokerLease_of_brokers (taskMove_leases move))

theorem leaseIsActive_mono {lease : BrokerLeaseRecord} {now later : Nat} (earlier : now ≤ later)
    (active : leaseIsActiveWithGrace cfg.divF64 lease later = true) :
    leaseIsActiveWithGrace cfg.divF64 lease now = true := by
  have lasts := of_decide_eq_true active
  exact decide_eq_true (by omega)

theorem LeaseActive.not_dead (active : LeaseActive cfg home latency s) :
    lookupOwnerLease cfg.divF64 s.store home s.now ≠ .missingOrExpired := by
  obtain ⟨lease, found, lasts⟩ := active
  rw [lookupOwnerLease, found]
  dsimp only
  rw [if_pos (leaseIsActive_mono (Nat.le_add_right _ _) lasts)]
  intro dead
  cases dead

section SetPc

variable {p : Nat} {poll : Poll} {pc : PollPc}

theorem ClusterWf.setPc (wf : ClusterWf cfg s) (holding : pc.holding = none)
    (carrying : pc.carrying = none) : ClusterWf cfg (s.setPc p poll pc) := by
  refine ⟨wf.held, ?_, wf.recorded, ?_, wf.restored, wf.upserters⟩
  · intro q other i present holds
    rcases getElem?_of_set present with ⟨_, rfl⟩ | ⟨_, kept⟩
    · rw [holding] at holds
      cases holds
    · exact wf.polled q other i kept holds
  · intro q other record source present carries
    rcases getElem?_of_set present with ⟨_, rfl⟩ | ⟨_, kept⟩
    · rw [carrying] at carries
      cases carries
    · exact wf.carried q other record source kept carries

theorem OwnershipWf.setPc (owned : OwnershipWf s) (polled : s.polls[p]? = some poll)
    (expects : ∀ owner, pc.expected = some owner → poll.pc.expected = some owner) :
    OwnershipWf (s.setPc p poll pc) := by
  refine ⟨?_, owned.submitNamed, ?_, owned.launchNamed, owned.recordNamed⟩
  · intro q other owner present expected
    rcases getElem?_of_set present with ⟨_, rfl⟩ | ⟨_, kept⟩
    · exact owned.hinted p poll owner polled (expects owner expected)
    · exact owned.hinted q other owner kept expected
  · intro q other present
    rcases getElem?_of_set present with ⟨_, rfl⟩ | ⟨_, kept⟩
    · exact owned.pollNamed p poll polled
    · exact owned.pollNamed q other kept

end SetPc

section Compared

variable {now : Nat} {poll : Poll} {read : LeaseRead}

theorem comparedPc_idle : (comparedPc cfg now poll read).holding = none ∧
    (comparedPc cfg now poll read).carrying = none := by
  unfold comparedPc
  split
  · exact ⟨rfl, rfl⟩
  · split <;> exact ⟨rfl, rfl⟩

/-- A lookup goes on to a claim only if it was one for the named broker and found its lease dead. -/
theorem comparedPc_expected {owner : String}
    (expected : (comparedPc cfg now poll read).expected = some owner) :
    poll.pc = .leaseOf owner ∧ read.active cfg now = none := by
  unfold comparedPc at expected
  split at expected
  · cases expected
  next dead =>
    split at expected
    next hint pc =>
      obtain rfl : hint = owner := Option.some.inj expected
      exact ⟨pc, dead⟩
    · cases expected

end Compared

/-- The cluster behind the lookups is in a state that the invariants of clusters allow. -/
structure LookupsWf (cfg : Config) (id : String) (s : Cluster) : Prop where
  wf : ClusterWf cfg s
  owned : OwnershipWf s
  known : LaunchesKnown id s

theorem LookupsWf.step {s next : Lookups} {action : LookupAction}
    (sound : LookupsWf cfg id s.cluster) (taken : lookupStep cfg s action = some next) :
    LookupsWf cfg id next.cluster := by
  cases action with
  | cluster action =>
      simp only [lookupStep] at taken
      split at taken
      · cases taken
      · obtain ⟨later, moved, rfl⟩ := Option.map_eq_some_iff.mp taken
        exact ⟨sound.wf.step moved, sound.owned.step moved,
          LaunchesKnown.step sound.known sound.wf (clusterStep_move moved)⟩
  | read p =>
      obtain ⟨poll, polled, taken⟩ := Option.bind_eq_some_iff.mp taken
      unfold readLease at taken
      split at taken
      · cases taken
      · obtain ⟨owner, _, rfl⟩ := Option.map_eq_some_iff.mp taken
        exact sound
  | compare p =>
      obtain ⟨poll, polled, taken⟩ := Option.bind_eq_some_iff.mp taken
      unfold compareLease at taken
      split at taken
      · cases taken
      · obtain ⟨read, _, rfl⟩ := Option.map_eq_some_iff.mp taken
        refine ⟨sound.wf.setPc comparedPc_idle.1 comparedPc_idle.2,
          sound.owned.setPc polled ?_, sound.known⟩
        intro owner expected
        rw [(comparedPc_expected expected).1]
        rfl

theorem LookupsWf.of_path {now : Nat} {actions : List LookupAction} {s : Lookups}
    (path : Path (lookupStep cfg) Always (Lookups.new now) actions s) :
    LookupsWf cfg id s.cluster := by
  have known : LaunchesKnown id (Cluster.new now) := by
    intro i launch present
    simp [Cluster.new, launches] at present
  apply path.invariant ⟨ClusterWf.initial cfg now, OwnershipWf.initial now, known⟩
  intro _ _ _ sound _ taken
  exact sound.step taken

/-- Everything about the job is at one broker, and no other broker is about to claim it. -/
structure AtHome (home id : String) (s : Cluster) : Prop where
  launches : ∀ (i : Nat) (launch : Launch), s.launches[i]? = some launch →
    launch.job.id = id → launch.broker = home
  record : ∀ record, s.store.recordOf id = some record → record.brokerId = home
  polls : ∀ (p : Nat) (poll : Poll), s.polls[p]? = some poll → poll.id = id →
    poll.broker ≠ home → poll.pc ≠ .claim home ∧ poll.pc.carrying = none

def SubmittedAt (home id : String) (s : Cluster) : Prop :=
  ∀ submission ∈ s.submits, submission.job.id = id → submission.broker = home

theorem SubmittedAt.before (at_ : SubmittedAt home id next)
    (move : ClusterMove cfg s action next) : SubmittedAt home id s := by
  intro submission member sameId
  have change := clusterMove_submits move
  unfold SubmittedAt at at_
  generalize next.submits = later at change at_
  cases change with
  | same _ => exact at_ submission member sameId
  | begun _ _ => exact at_ submission (List.mem_append_left _ member) sameId
  | @settled k settled pc present _ =>
      obtain ⟨l, position⟩ := List.getElem?_of_mem member
      by_cases here : l = k
      · subst here
        obtain rfl : settled = submission := Option.some.inj (present.symm.trans position)
        have inside : { settled with pc := pc } ∈ s.submits.set l { settled with pc := pc } :=
          List.mem_set (List.getElem?_eq_some_iff.mp present).1 _
        exact at_ { settled with pc := pc } inside sameId
      · have kept : (s.submits.set k { settled with pc := pc })[l]? = some submission := by
          rw [List.getElem?_set_ne (Ne.symm here), position]
        exact at_ submission (List.mem_of_getElem? kept) sameId

theorem AtHome.launches_step (at_ : AtHome home id s) (wf : ClusterWf cfg s)
    (submitted : SubmittedAt home id s) (move : ClusterMove cfg s action next) (i : Nat)
    (launch : Launch) (present : next.launches[i]? = some launch) (sameId : launch.job.id = id) :
    launch.broker = home := by
  have grown := clusterMove_growth move
  generalize next.launches = launches at grown present
  cases grown with
  | same => exact at_.launches i launch present sameId
  | submitted inserted _ =>
      rcases getElem?_of_snoc present with kept | ⟨_, rfl⟩
      · exact at_.launches i launch kept sameId
      · exact submitted _ (List.mem_of_getElem? inserted) sameId
  | @restored p poll record source deadline polled pc =>
      rcases getElem?_of_snoc present with kept | ⟨_, rfl⟩
      · exact at_.launches i launch kept sameId
      · have carrying : poll.pc.carrying = some (record, source) := by rw [pc]; rfl
        have restoredId : (Job.restore record).id = poll.id :=
          (wf.carried p poll record source polled carrying).1.jobId
        by_contra elsewhere
        have idle := (at_.polls p poll polled (restoredId.symm.trans sameId) elsewhere).2
        rw [carrying] at idle
        cases idle

theorem AtHome.record_step (at_ : AtHome home id s) (owned : OwnershipWf s)
    (move : ClusterMove cfg s action next) (record : PersistentJobRecord)
    (stored : next.store.recordOf id = some record) : record.brokerId = home := by
  have change := clusterMove_store move id
  rw [stored] at change
  generalize same : some record = later at change
  generalize next.writer id = writer at change
  cases change with
  | same => exact at_.record record same.symm
  | deleted => cases same
  | @transferred p poll before polled claiming sameId found foreign =>
      cases same
      by_contra elsewhere
      rw [at_.record before found] at claiming
      exact (at_.polls p poll polled sameId elsewhere).1 claiming
  | probed found probe =>
      exact absurd (probe ▸ owned.recordNamed id _ found) not_isIdentity_probe
  | written present _ sameId =>
      cases same
      exact at_.launches _ _ (launches_of_instance present) sameId

theorem AtHome.polls_step (at_ : AtHome home id s) (owned : OwnershipWf s)
    (active : LeaseActive cfg home latency s) (move : ClusterMove cfg s action next) (p : Nat)
    (poll : Poll) (present : next.polls[p]? = some poll) (sameId : poll.id = id)
    (elsewhere : poll.broker ≠ home) : poll.pc ≠ .claim home ∧ poll.pc.carrying = none := by
  cases clusterMove_polls move present with
  | same kept => exact at_.polls p poll kept sameId elsewhere
  | begun _ =>
      constructor
      · intro claiming
        cases claiming
      · rfl
  | @moved before event pc known step change =>
      have earlier := at_.polls p before known sameId elsewhere
      constructor
      · intro claiming
        have claims : pc = .claim home := claiming
        have expected : pc.expected = some home := by
          rw [claims]
          rfl
        cases pollMove_expects step present expected with
        | kept same => exact earlier.1 (same.trans claiming)
        | hinted _ mine => exact elsewhere (mine claiming).symm
        | leaseDead _ _ dead => exact active.not_dead dead
      · cases change with
        | idle _ empty => exact empty
        | kept _ same => exact same.trans earlier.2
        | found _ eq =>
            rw [eq]
            rfl
        | claimed stored mine _ =>
            rw [sameId] at stored
            exact absurd (mine.symm.trans (at_.record_step owned move _ stored)) elsewhere

theorem AtHome.of_unknown (unknown : ¬ Known s id) (known : LaunchesKnown id s)
    (wf : ClusterWf cfg s)
    (undecided : ∀ (p : Nat) (poll : Poll), s.polls[p]? = some poll → poll.id = id →
      poll.broker ≠ home → poll.pc ≠ .claim home) : AtHome home id s := by
  have nowhere : ∀ (i : Nat) (launch : Launch), s.launches[i]? = some launch →
      launch.job.id ≠ id := by
    intro i launch present sameId
    exact unknown (known i launch present sameId)
  constructor
  · intro i launch present sameId
    exact absurd sameId (nowhere i launch present)
  · intro record stored
    obtain ⟨w, first, _, found, _, sameId, _⟩ := wf.recorded id record stored
    exact absurd sameId (nowhere w first found)
  · intro p poll polled sameId elsewhere
    refine ⟨undecided p poll polled sameId elsewhere, ?_⟩
    by_contra carries
    obtain ⟨⟨record, source⟩, carrying⟩ := Option.ne_none_iff_exists'.mp carries
    obtain ⟨w, first, _, found, _, carriedId, _⟩ := (wf.carried p poll record source polled carrying).1
    exact nowhere w first found (carriedId.trans sameId)

/-- What the lookups under way have read of the lease will be active when they look at the clock. -/
def ReadsAlive (cfg : Config) (home : String) (latency : Nat) (s : Lookups) : Prop :=
  ∀ (p : Nat) (read : LeaseRead) (poll : Poll), s.held p = some read →
    s.cluster.polls[p]? = some poll → poll.pc.lookedUp = some home →
    ∃ lease, read.lease = some lease ∧
      leaseIsActiveWithGrace cfg.divF64 lease (read.readAt + latency) = true

section Lookups

variable {s next : Lookups}

theorem ReadsAlive.cluster_step (alive : ReadsAlive cfg home latency s) {later : Cluster}
    (outside : s.inLookup action = false) (move : ClusterMove cfg s.cluster action later) :
    ReadsAlive cfg home latency { s with cluster := later } := by
  intro p read poll holds present looks
  cases clusterMove_polls move present with
  | same kept => exact alive p read poll holds kept looks
  | begun _ => cases looks
  | @moved before event pc known step change =>
      have holds : s.held p = some read := holds
      cases event <;> simp [Lookups.inLookup, holds] at outside

theorem ReadsAlive.read_step (alive : ReadsAlive cfg home latency s)
    (active : LeaseActive cfg home latency s.cluster) {q : Nat} {asking : Poll} {owner : String}
    (polled : s.cluster.polls[q]? = some asking) (asks : asking.pc.lookedUp = some owner) :
    ReadsAlive cfg home latency ⟨s.cluster, Function.update s.held q
      (some ⟨s.cluster.store.getBrokerLease owner, s.cluster.now⟩)⟩ := by
  intro p read poll holds present looks
  by_cases here : p = q
  · subst here
    obtain rfl : asking = poll := Option.some.inj (polled.symm.trans present)
    obtain rfl : owner = home := Option.some.inj (asks.symm.trans looks)
    obtain rfl : LeaseRead.mk (s.cluster.store.getBrokerLease owner) s.cluster.now = read := by
      simpa using holds
    exact active
  · have before : s.held p = some read := by simpa [here] using holds
    exact alive p read poll before present looks

theorem ReadsAlive.compare_step (alive : ReadsAlive cfg home latency s) {q : Nat} {asking : Poll}
    {pc : PollPc} : ReadsAlive cfg home latency
      ⟨s.cluster.setPc q asking pc, Function.update s.held q none⟩ := by
  intro p read poll holds present looks
  have other : p ≠ q := by
    rintro rfl
    simp at holds
  have before : s.held p = some read := by simpa [other] using holds
  rcases getElem?_of_set present with ⟨here, _⟩ | ⟨_, kept⟩
  · exact absurd here other
  · exact alive p read poll before kept looks

structure LiveRun (cfg : Config) (home id : String) (latency : Nat) (s : Lookups) : Prop where
  sound : LookupsWf cfg id s.cluster
  active : LeaseActive cfg home latency s.cluster
  alive : ReadsAlive cfg home latency s
  atHome : SubmittedAt home id s.cluster → AtHome home id s.cluster

/-- A lookup that compares in time does not find the lease dead. -/
theorem LiveRun.not_claiming (live : LiveRun cfg home id latency s) {p : Nat} {read : LeaseRead}
    {poll : Poll} (holds : s.held p = some read) (polled : s.cluster.polls[p]? = some poll)
    (inTime : s.cluster.now ≤ read.readAt + latency) :
    comparedPc cfg s.cluster.now poll read ≠ .claim home := by
  intro claims
  have expected : (comparedPc cfg s.cluster.now poll read).expected = some home := by
    rw [claims]
    rfl
  obtain ⟨pc, dead⟩ := comparedPc_expected expected
  obtain ⟨lease, found, lasts⟩ := live.alive p read poll holds polled (by rw [pc]; rfl)
  have active := leaseIsActive_mono inTime lasts
  simp [LeaseRead.active, found, active] at dead

theorem LiveRun.step (live : LiveRun cfg home id latency s) {action : LookupAction}
    (short : latency < MemoryStore.leaseDuration cfg.brokerLeaseTtl)
    (inTime : RenewsInTime cfg home latency s action)
    (taken : lookupStep cfg s action = some next) : LiveRun cfg home id latency next := by
  have sound := live.sound.step taken
  cases action with
  | cluster action =>
      simp only [lookupStep] at taken
      split at taken
      · cases taken
      next outside =>
        obtain ⟨later, moved, rfl⟩ := Option.map_eq_some_iff.mp taken
        have move := clusterStep_move moved
        refine ⟨sound, live.active.step short inTime move,
          live.alive.cluster_step (by simpa using outside) move, ?_⟩
        intro submitted
        have earlier := submitted.before move
        have home_ := live.atHome earlier
        constructor
        · exact home_.launches_step live.sound.wf earlier move
        · exact home_.record_step live.sound.owned move
        · exact home_.polls_step live.sound.owned live.active move
  | read p =>
      obtain ⟨poll, polled, taken⟩ := Option.bind_eq_some_iff.mp taken
      unfold readLease at taken
      split at taken
      · cases taken
      · obtain ⟨owner, asks, rfl⟩ := Option.map_eq_some_iff.mp taken
        exact ⟨sound, live.active, live.alive.read_step live.active polled asks, live.atHome⟩
  | compare p =>
      obtain ⟨poll, polled, taken⟩ := Option.bind_eq_some_iff.mp taken
      unfold compareLease at taken
      split at taken
      · cases taken
      · obtain ⟨read, holds, rfl⟩ := Option.map_eq_some_iff.mp taken
        refine ⟨sound, live.active, live.alive.compare_step, ?_⟩
        intro submitted
        have home_ := live.atHome submitted
        refine ⟨home_.launches, home_.record, ?_⟩
        intro q other present sameId elsewhere
        rcases getElem?_of_set present with ⟨_, rfl⟩ | ⟨_, kept⟩
        · exact ⟨live.not_claiming holds polled (inTime read holds), comparedPc_idle.2⟩
        · exact home_.polls q other kept sameId elsewhere

end Lookups

/-- From a state in which the broker holds its lease and no other broker has read it as dead, a job
that is submitted at the broker runs nowhere else, its record never changes hands, and no other
broker claims it, for as long as every renewal and every lookup comes in time. -/
theorem live_broker_runs_alone {now latency : Nat} {before actions : List LookupAction}
    {start last : Lookups} (short : latency < MemoryStore.leaseDuration cfg.brokerLeaseTtl)
    (reached : Path (lookupStep cfg) Always (Lookups.new now) before start)
    (holds : LeaseActive cfg home latency start.cluster) (alive : ReadsAlive cfg home latency start)
    (unknown : ¬ Known start.cluster id)
    (undecided : ∀ (p : Nat) (poll : Poll), start.cluster.polls[p]? = some poll → poll.id = id →
      poll.broker ≠ home → poll.pc ≠ .claim home)
    (path : Path (lookupStep cfg) (RenewsInTime cfg home latency) start actions last)
    (submitted : ∀ submission ∈ last.cluster.submits, submission.job.id = id →
      submission.broker = home) :
    (∀ inst ∈ last.cluster.instances, inst.job.id = id → inst.broker = home) ∧
    (∀ record, last.cluster.store.recordOf id = some record → record.brokerId = home) ∧
    ∀ poll ∈ last.cluster.polls, poll.id = id → poll.broker ≠ home →
      poll.pc ≠ .claim home ∧ poll.pc.carrying = none := by
  have sound : LookupsWf cfg id start.cluster := LookupsWf.of_path reached
  have initially : LiveRun cfg home id latency start := by
    refine ⟨sound, holds, alive, ?_⟩
    intro _
    exact AtHome.of_unknown unknown sound.known sound.wf undecided
  have finally_ : LiveRun cfg home id latency last :=
    path.invariant initially fun _ _ _ live inTime taken => live.step short inTime taken
  have home_ := finally_.atHome submitted
  refine ⟨?_, home_.record, ?_⟩
  · intro inst member sameId
    obtain ⟨i, present⟩ := List.getElem?_of_mem member
    exact home_.launches i inst.launch (launches_of_instance present) sameId
  · intro poll member sameId elsewhere
    obtain ⟨p, polled⟩ := List.getElem?_of_mem member
    exact home_.polls p poll polled sameId elsewhere

end LiveOwner

def isLeaseActive (cfg : Config) (home : String) (ahead : Nat) (s : Cluster) : Bool :=
  (s.store.getBrokerLease home).any fun lease =>
    leaseIsActiveWithGrace cfg.divF64 lease (s.now + ahead)

theorem isLeaseActive_sound {cfg : Config} {home : String} {ahead : Nat} {s : Cluster}
    (checked : isLeaseActive cfg home ahead s = true) : LeaseActive cfg home ahead s :=
  (Option.any_eq_true _ _).mp checked

def renewsInTime (cfg : Config) (home : String) (latency : Nat) (s : Lookups) :
    LookupAction → Bool
  | .cluster (.advance elapsed) =>
      isLeaseActive cfg home latency { s.cluster with now := s.cluster.now + elapsed }
  | .cluster (.broker identity .deleteLease) => decide (identity.brokerId ≠ home)
  | .compare p => (s.held p).all fun read => decide (s.cluster.now ≤ read.readAt + latency)
  | _ => true

theorem renewsInTime_sound {cfg : Config} {home : String} {latency : Nat} (s : Lookups)
    (action : LookupAction) (checked : renewsInTime cfg home latency s action = true) :
    RenewsInTime cfg home latency s action := by
  unfold renewsInTime at checked
  unfold RenewsInTime
  split at checked
  · exact isLeaseActive_sound checked
  · exact of_decide_eq_true checked
  · intro read holds
    rw [holds] at checked
    exact of_decide_eq_true checked
  · trivial

namespace Scenario

/-- The lease of the first broker would be over at the poll of the second, had it not been renewed.
The second reads it, and looks at the clock a little later. -/
def renewed : List LookupAction :=
  let moves : List ClusterAction := persistOn brokerA config.router ++ [.advance 10,
    .broker brokerA .upsertLease, .advance 15, .broker brokerB (.poll jobId false),
    .pollEvent 0 .step]
  moves.map .cluster ++ [.read 0, .cluster (.advance 1), .compare 0]

def leasedFirst (s : Cluster) : Bool :=
  isLeaseActive config brokerA.brokerId 2 s && s.submits.isEmpty && s.polls.isEmpty

def proxied (s : Cluster) : Bool :=
  s.instances.length == 1 && (s.store.recordOf jobId).isSome &&
    s.submits.all (fun submission => submission.broker == brokerA.brokerId) &&
    s.polls.all (fun poll => poll.id == jobId) &&
    s.polls.any fun poll => poll.broker == brokerB.brokerId && match poll.pc with
      | .proxy lease => lease.brokerId == brokerA.brokerId
      | _ => false

end Scenario

open Scenario in
theorem live_broker_runs_alone_renewed : ∃ start last,
    Path (lookupStep config) Always (Lookups.new 0) [.cluster (.broker brokerA .upsertLease)] start ∧
    Path (lookupStep config) (RenewsInTime config brokerA.brokerId 2) start renewed last ∧
    (∃ poll ∈ last.cluster.polls, poll.broker = brokerB.brokerId ∧
      poll.pc ≠ .claim brokerA.brokerId) ∧
    (∀ inst ∈ last.cluster.instances, inst.job.id = jobId → inst.broker = brokerA.brokerId) ∧
    ∃ record, last.cluster.store.recordOf jobId = some record ∧
      record.brokerId = brokerA.brokerId := by
  have began : (run (lookupStep config) (Lookups.new 0)
      [.cluster (.broker brokerA .upsertLease)]).any (fun start =>
        leasedFirst start.cluster && (run (fun s action =>
          if renewsInTime config brokerA.brokerId 2 s action then lookupStep config s action
          else none) start renewed).any fun last => proxied last.cluster) = true := by
    decide +kernel
  obtain ⟨start, began, checked⟩ := (Option.any_eq_true _ _).mp began
  obtain ⟨leased, ran⟩ := Bool.and_eq_true_iff.mp checked
  obtain ⟨last, finished, ends⟩ := (Option.any_eq_true _ _).mp ran
  simp only [leasedFirst, Bool.and_eq_true, List.isEmpty_iff] at leased
  obtain ⟨⟨active, unsubmitted⟩, unpolled⟩ := leased
  simp only [proxied, Bool.and_eq_true, beq_iff_eq] at ends
  obtain ⟨⟨⟨⟨_, stored⟩, submitted⟩, ofJob⟩, asked⟩ := ends
  have reached := Path.of_run _ _ began
  have path := Path.of_run_if renewsInTime_sound renewed start finished
  have unknown : ¬ Known start.cluster jobId := by
    rintro ⟨submission, member, _⟩
    rw [unsubmitted] at member
    cases member
  have alive : ReadsAlive config brokerA.brokerId 2 start := by
    intro p read poll _ polled
    rw [unpolled] at polled
    cases polled
  have undecided : ∀ (p : Nat) (poll : Poll), start.cluster.polls[p]? = some poll →
      poll.id = jobId → poll.broker ≠ brokerA.brokerId → poll.pc ≠ .claim brokerA.brokerId := by
    intro p poll polled
    rw [unpolled] at polled
    cases polled
  have atHome : ∀ submission ∈ last.cluster.submits, submission.job.id = jobId →
      submission.broker = brokerA.brokerId := by
    intro submission member _
    exact beq_iff_eq.mp (List.all_eq_true.mp submitted submission member)
  have alone := live_broker_runs_alone (by decide) reached (isLeaseActive_sound active) alive
    unknown undecided path atHome
  obtain ⟨record, found⟩ := Option.isSome_iff_exists.mp stored
  obtain ⟨poll, member, asks⟩ := List.any_eq_true.mp asked
  have fromB : poll.broker = brokerB.brokerId := beq_iff_eq.mp (Bool.and_eq_true_iff.mp asks).1
  have elsewhere : poll.broker ≠ brokerA.brokerId := by
    rw [fromB]
    decide
  have refrains := alone.2.2 poll member (beq_iff_eq.mp (List.all_eq_true.mp ofJob poll member))
    elsewhere
  exact ⟨start, last, reached, path, ⟨poll, member, fromB, refrains.1⟩, alone.1, record, found,
    alone.2.1 record found⟩

end BitsBroker
