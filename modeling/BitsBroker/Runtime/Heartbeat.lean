import BitsBroker.Lib.Transition
import BitsBroker.Runtime.Reclaim

/-!
The heartbeat thread of a broker. It renews the lease of the broker, tries once more if that fails,
waits for half the lifetime of a lease and starts again. When the broker stops, the thread lets the
running jobs finish for the lifetime of one lease and takes the lease back.

A wait for the shutdown signal looks at the flag under the lock of its condition variable, and it
may end at any time. A renewal reads the clock, and the store has the new lease when the call
returns. A call that fails may have reached the store or not.

If every step of the thread is taken within `delay` of the moment it is due, and no retry of a
renewal fails, two renewals are never further apart than a tick, a retry and nine delays. Where that
is less than the lifetime of a lease, no other broker sees the lease run out. Times are in
nanoseconds on one clock, and other brokers may be ahead of it by `skew`, which includes the time
from a broker's read of the lease to its comparison with the clock. A sweep of the slots reads the
leases in one section and removes the slots in another. `halfF64` is the division
by two in floating point, and nothing depends on how it rounds.
-/

namespace BitsBroker

open Transition

namespace Heartbeat

structure Settings where
  brokerId : String
  baseUrl : String
  brokerLeaseTtl : Nat
  halfF64 : Nat → Nat

def Settings.tick (settings : Settings) : Nat :=
  max (settings.halfF64 settings.brokerLeaseTtl) 100000000

def Settings.retryAfter (settings : Settings) : Nat := min 500000000 settings.tick

/-- What the thread can see of its broker. -/
structure View where
  stopped : Bool
  inFlight : Nat
  now : Nat

inductive Pc where
  | starting
  | looping
  | renewing (stamp : Nat)
  | failed
  | backoff (wakeAt : Nat)
  | retrying
  | renewingAgain (stamp : Nat)
  | rested
  | parked (wakeAt : Nat)
  | leaving
  | draining (deadline : Nat)
  | sleeping (wakeAt deadline : Nat)
  | deleting
  | ended
deriving DecidableEq

inductive Move where
  | start (built : Bool)
  | step
  | answer (reached ok : Bool)
  | wake

inductive StoreCall where
  | upsertBrokerLease (stamp : Nat)
  | deleteBrokerLease
deriving DecidableEq

def Pc.renewed (stamp : Nat) (reached ok : Bool) (next : Pc) : Pc × Option StoreCall :=
  (next, if ok || reached then some (.upsertBrokerLease stamp) else none)

def move (settings : Settings) (view : View) : Pc → Move → Option (Pc × Option StoreCall)
  | .starting, .start true => some (.looping, none)
  | .starting, .start false => some (.ended, none)
  | .looping, .step =>
      if view.stopped then some (.leaving, none) else some (.renewing view.now, none)
  | .renewing stamp, .answer reached ok =>
      some (Pc.renewed stamp reached ok (if ok then .rested else .failed))
  | .failed, .step =>
      if view.stopped then some (.retrying, none)
      else some (.backoff (view.now + settings.retryAfter), none)
  | .backoff _, .wake => some (.retrying, none)
  | .retrying, .step =>
      if view.stopped then some (.leaving, none) else some (.renewingAgain view.now, none)
  | .renewingAgain stamp, .answer reached ok => some (Pc.renewed stamp reached ok .rested)
  | .rested, .step =>
      if view.stopped then some (.looping, none)
      else some (.parked (view.now + settings.tick), none)
  | .parked _, .wake => some (.looping, none)
  | .leaving, .step => some (.draining (view.now + settings.brokerLeaseTtl), none)
  | .draining deadline, .step =>
      if 0 < view.inFlight && view.now < deadline then
        some (.sleeping (view.now + 50000000) deadline, none)
      else some (.deleting, none)
  | .sleeping wakeAt deadline, .wake =>
      if wakeAt ≤ view.now then some (.draining deadline, none) else none
  | .deleting, .answer reached ok =>
      some (.ended, if ok || reached then some .deleteBrokerLease else none)
  | _, _ => none

/-- `notify_all` ends a wait for the signal. -/
def notifyAll (now : Nat) : Pc × Nat → Pc × Nat
  | (.backoff _, _) => (.retrying, now)
  | (.parked _, _) => (.looping, now)
  | (pc, since) => (pc, since)

def StoreCall.apply (settings : Settings) (store : MemoryStore) : StoreCall → MemoryStore
  | .upsertBrokerLease stamp =>
      store.upsertBrokerLease settings.brokerId settings.baseUrl settings.brokerLeaseTtl stamp
  | .deleteBrokerLease => store.deleteBrokerLease settings.brokerId

/-- The other calls that the brokers make to the store they share. -/
inductive SharedCall where
  | upsertJob (record : PersistentJobRecord)
  | deleteJob (jobId : String)
  | claimIfOwner (jobId expectedOwner claimant : String)
  | upsertBrokerLease (brokerId url : String) (ttl now : Nat)
  | deleteBrokerLease (brokerId : String)
  | reserveUserSlot (scope user jobId owner : String) (now : Nat)
  | releaseUserSlot (scope user jobId : String)

def SharedCall.apply (store : MemoryStore) : SharedCall → MemoryStore
  | .upsertJob record => (store.upsertJob record).toOption.getD store
  | .deleteJob jobId => (store.deleteJob jobId).toOption.getD store
  | .claimIfOwner jobId expectedOwner claimant =>
      match store.claimIfOwner jobId expectedOwner claimant with
      | .ok (_, next) => next
      | .error _ => store
  | .upsertBrokerLease brokerId url ttl now => store.upsertBrokerLease brokerId url ttl now
  | .deleteBrokerLease brokerId => store.deleteBrokerLease brokerId
  | .reserveUserSlot scope user jobId owner now =>
      (store.reserveUserSlot scope user jobId owner now).2
  | .releaseUserSlot scope user jobId => store.releaseUserSlot scope user jobId

/-- The broker whose lease a call writes. -/
def SharedCall.leaseOf : SharedCall → Option String
  | .upsertBrokerLease brokerId _ _ _ | .deleteBrokerLease brokerId => some brokerId
  | _ => none

/-- `sweeps` are the sweeps of the slots under way: the owners that each has found alive. -/
structure State where
  stopped : Bool
  inFlight : Nat
  now : Nat
  pc : Pc
  since : Nat
  store : MemoryStore
  sweeps : List (String → Bool)

def State.new (store : MemoryStore) (now : Nat) : State where
  stopped := false
  inFlight := 0
  now := now
  pc := .starting
  since := now
  store := store
  sweeps := []

def State.view (s : State) : View := ⟨s.stopped, s.inFlight, s.now⟩

inductive Action where
  | thread (move : Move)
  | stop
  | advance (duration : Nat)
  | running (jobs : Nat)
  | shared (call : SharedCall)
  | sweepBegin (now : Nat)
  | sweepEnd (sweep : Nat)

def State.moved (settings : Settings) (s : State) (moved : Pc × Option StoreCall) : State :=
  { s with
    pc := moved.1
    since := s.now
    store := match moved.2 with
      | some call => call.apply settings s.store
      | none => s.store }

def step (settings : Settings) (s : State) : Action → Option State
  | .thread move => (Heartbeat.move settings s.view s.pc move).map (s.moved settings)
  | .stop =>
      let notified := notifyAll s.now (s.pc, s.since)
      some { s with stopped := true, pc := notified.1, since := notified.2 }
  | .advance duration => some { s with now := s.now + duration }
  | .running jobs => some { s with inFlight := jobs }
  | .shared call => some { s with store := call.apply s.store }
  | .sweepBegin now => some { s with sweeps := s.sweeps ++ [s.store.live now] }
  | .sweepEnd sweep => s.sweeps[sweep]?.map fun live => { s with
      store := (s.store.retainUserSlots live).2
      sweeps := s.sweeps.eraseIdx sweep }

def Pc.isRetry : Pc → Bool
  | .renewingAgain _ => true
  | _ => false

/-- When the next step of the thread is due. -/
def Pc.due (since : Nat) : Pc → Nat
  | .backoff wakeAt | .parked wakeAt | .sleeping wakeAt _ => wakeAt
  | _ => since

def State.due (s : State) : Nat := s.pc.due s.since

/-- The thread is not kept from a step for longer than `delay`, a retry of a renewal does not
fail, no other broker writes the lease, and no broker that sweeps the slots is ahead by more than
`skew`. -/
def Punctual (settings : Settings) (delay skew : Nat) (s : State) : Action → Prop
  | .advance duration => s.pc ≠ .ended → s.now + duration ≤ s.due + delay
  | .thread (.answer _ ok) => s.pc.isRetry = true → ok = true
  | .shared call => call.leaseOf ≠ some settings.brokerId
  | .sweepBegin now => now ≤ s.now + skew
  | _ => True

instance (settings : Settings) (delay skew : Nat) (s : State) :
    (action : Action) → Decidable (Punctual settings delay skew s action)
  | .advance _ => inferInstanceAs (Decidable (_ → _))
  | .thread (.answer _ _) => inferInstanceAs (Decidable (_ → _))
  | .thread (.start _) | .thread .step | .thread .wake => inferInstanceAs (Decidable True)
  | .stop | .running _ | .sweepEnd _ => inferInstanceAs (Decidable True)
  | .shared _ => inferInstanceAs (Decidable (_ ≠ _))
  | .sweepBegin _ => inferInstanceAs (Decidable (_ ≤ _))

/-- How far the next step may be due after the last renewal read the clock. -/
def Pc.lag (settings : Settings) (delay : Nat) : Pc → Nat
  | .starting | .leaving | .draining _ | .sleeping _ _ | .deleting | .ended => 0
  | .rested => delay
  | .parked _ => 2 * delay + settings.tick
  | .looping => 3 * delay + settings.tick
  | .renewing _ => 4 * delay + settings.tick
  | .failed => 5 * delay + settings.tick
  | .backoff _ => 6 * delay + settings.tick + settings.retryAfter
  | .retrying => 7 * delay + settings.tick + settings.retryAfter
  | .renewingAgain _ => 8 * delay + settings.tick + settings.retryAfter

/-- The longest time from the clock reading of a renewal to the next renewal in the store. -/
def gap (settings : Settings) (delay : Nat) : Nat :=
  9 * delay + settings.tick + settings.retryAfter

/-- The thread is on its way out. -/
def Pc.isOut : Pc → Bool
  | .leaving | .draining _ | .sleeping _ _ | .deleting => true
  | _ => false

def Pc.stamp? : Pc → Option Nat
  | .renewing stamp | .renewingAgain stamp => some stamp
  | _ => none

def leaseOf (settings : Settings) (stamp : Nat) : BrokerLeaseRecord where
  brokerId := settings.brokerId
  internalPollBaseUrl := settings.baseUrl
  leaseUntil := stamp + MemoryStore.leaseDuration settings.brokerLeaseTtl
  updatedAt := stamp

def State.lease (settings : Settings) (s : State) : Option BrokerLeaseRecord :=
  s.store.getBrokerLease settings.brokerId

/-- The lease in the store is the one of the last renewal, and while the broker has not stopped the
thread is not further behind than its next step allows. -/
structure Fresh (settings : Settings) (delay : Nat) (s : State) : Prop where
  punctual : s.pc ≠ .ended → s.now ≤ s.due + delay
  runs : s.stopped = false → s.pc.isOut = false
  stamped : ∀ stamp, s.pc.stamp? = some stamp → stamp = s.since
  unborn : s.pc = .starting → s.lease settings = none
  lasting : s.stopped = false → s.pc = .ended → s.lease settings = none
  written : ∀ lease, s.lease settings = some lease → lease = leaseOf settings lease.updatedAt
  recent : s.stopped = false → ∀ lease, s.lease settings = some lease →
    s.due ≤ lease.updatedAt + s.pc.lag settings delay

section Store

variable {store : MemoryStore} {broker : String}

theorem getBrokerLease_upsertBrokerLease (store : MemoryStore) (broker url : String)
    (ttl now : Nat) (other : String) :
    (store.upsertBrokerLease broker url ttl now).getBrokerLease other =
      if other = broker then
        some ⟨broker, url, now + MemoryStore.leaseDuration ttl, now⟩
      else store.getBrokerLease other :=
  HashMap.lookup_insert_eq _ _ _ _

theorem getBrokerLease_deleteBrokerLease (store : MemoryStore) (broker other : String) :
    (store.deleteBrokerLease broker).getBrokerLease other =
      if other = broker then none else store.getBrokerLease other :=
  HashMap.lookup_erase_eq _ _ _

theorem brokers_upsertJob {record : PersistentJobRecord} {next : MemoryStore}
    (ok : store.upsertJob record = .ok next) : next.brokers = store.brokers := by
  unfold MemoryStore.upsertJob at ok
  split at ok
  · cases ok
  · cases ok
    rfl

theorem brokers_deleteJob {jobId : String} {next : MemoryStore}
    (ok : store.deleteJob jobId = .ok next) : next.brokers = store.brokers := by
  unfold MemoryStore.deleteJob at ok
  split at ok
  · cases ok
  · cases ok
    rfl

theorem brokers_claimIfOwner {jobId expected claimant : String} {result : ClaimResult}
    {next : MemoryStore} (ok : store.claimIfOwner jobId expected claimant = .ok (result, next)) :
    next.brokers = store.brokers := by
  cases MemoryStore.claimIfOwner_effect ok <;> rfl

theorem brokers_reserveUserSlot (store : MemoryStore) (scope user jobId owner : String)
    (now : Nat) : (store.reserveUserSlot scope user jobId owner now).2.brokers = store.brokers := by
  unfold MemoryStore.reserveUserSlot
  dsimp only
  split <;> rfl

theorem brokers_releaseUserSlot (store : MemoryStore) (scope user jobId : String) :
    (store.releaseUserSlot scope user jobId).brokers = store.brokers := by
  unfold MemoryStore.releaseUserSlot
  split
  · rfl
  · dsimp only
    split <;> rfl

/-- Only the lease calls of a broker write its lease. -/
theorem SharedCall.getBrokerLease_apply {call : SharedCall}
    (elsewhere : call.leaseOf ≠ some broker) :
    (call.apply store).getBrokerLease broker = store.getBrokerLease broker := by
  have kept : ∀ {next : MemoryStore}, next.brokers = store.brokers →
      next.getBrokerLease broker = store.getBrokerLease broker := by
    intro next same
    rw [MemoryStore.getBrokerLease, same, MemoryStore.getBrokerLease]
  cases call with
  | upsertJob record =>
      simp only [SharedCall.apply]
      cases result : store.upsertJob record with
      | error e => rfl
      | ok next => exact kept (brokers_upsertJob result)
  | deleteJob jobId =>
      simp only [SharedCall.apply]
      cases result : store.deleteJob jobId with
      | error e => rfl
      | ok next => exact kept (brokers_deleteJob result)
  | claimIfOwner jobId expectedOwner claimant =>
      simp only [SharedCall.apply]
      cases result : store.claimIfOwner jobId expectedOwner claimant with
      | error e => rfl
      | ok answer => exact kept (brokers_claimIfOwner result)
  | upsertBrokerLease brokerId url ttl now =>
      have other : broker ≠ brokerId := fun same => elsewhere (by rw [same]; rfl)
      simp only [SharedCall.apply]
      rw [getBrokerLease_upsertBrokerLease, if_neg other]
  | deleteBrokerLease brokerId =>
      have other : broker ≠ brokerId := fun same => elsewhere (by rw [same]; rfl)
      simp only [SharedCall.apply]
      rw [getBrokerLease_deleteBrokerLease, if_neg other]
  | reserveUserSlot scope user jobId owner now =>
      exact kept (brokers_reserveUserSlot store scope user jobId owner now)
  | releaseUserSlot scope user jobId => exact kept (brokers_releaseUserSlot store scope user jobId)

end Store

section Steps

variable {settings : Settings} {delay skew : Nat} {s next : State}

theorem Fresh.new {store : MemoryStore} (absent : store.getBrokerLease settings.brokerId = none)
    (now : Nat) : Fresh settings delay (State.new store now) := by
  constructor
  · intro _
    exact Nat.le_add_right _ _
  · intro _
    rfl
  · intro stamp renewing
    cases renewing
  · intro _
    exact absent
  · intro _ ended
    cases ended
  · intro lease found
    rw [State.lease, State.new, absent] at found
    cases found
  · intro _ lease found
    rw [State.lease, State.new, absent] at found
    cases found

/-- The clock is not further ahead of the last renewal than one delay after the due step. -/
theorem Fresh.age (fresh : Fresh settings delay s) (running : s.stopped = false)
    {lease : BrokerLeaseRecord} (found : s.lease settings = some lease) :
    s.now ≤ lease.updatedAt + s.pc.lag settings delay + delay := by
  have alive : s.pc ≠ .ended := by
    intro ended
    rw [fresh.lasting running ended] at found
    cases found
  have punctual := fresh.punctual alive
  have recent := fresh.recent running lease found
  omega

theorem Pc.lag_le (pc : Pc) : pc.lag settings delay + delay ≤ gap settings delay := by
  cases pc <;> simp only [Pc.lag, gap] <;> omega

/-- A move that does not reach the store. `wait` is how long the next step is put off. -/
theorem Fresh.quiet (fresh : Fresh settings delay s) {pc : Pc} (wait : Nat)
    (dueAt : pc.due s.now = s.now + wait) (stays : pc.isOut = false) (born : pc ≠ .starting)
    (stamped : pc.stamp?.all (· = s.now) = true)
    (lasting : pc = .ended → s.lease settings = none)
    (later : s.lease settings = none ∨
      s.pc.lag settings delay + delay + wait ≤ pc.lag settings delay) :
    Fresh settings delay (s.moved settings (pc, none)) := by
  constructor
  · intro _
    show s.now ≤ pc.due s.now + delay
    omega
  · intro _
    exact stays
  · intro stamp renewing
    have same : pc.stamp? = some stamp := renewing
    rw [same] at stamped
    show stamp = s.now
    simpa using stamped
  · intro starting
    exact absurd starting born
  · intro _ ended
    exact lasting ended
  · exact fresh.written
  · intro running lease found
    show pc.due s.now ≤ lease.updatedAt + pc.lag settings delay
    have age := fresh.age running found
    rcases later with absent | enough
    · have present : s.lease settings = some lease := found
      rw [absent] at present
      cases present
    · omega

/-- A move of the thread after the broker has stopped. -/
theorem Fresh.hurry (fresh : Fresh settings delay s) (stopped : s.stopped = true) {pc : Pc}
    (dueAt : s.now ≤ pc.due s.now) (born : pc ≠ .starting) (stamped : pc.stamp? = none) :
    Fresh settings delay (s.moved settings (pc, none)) := by
  have never : ¬s.stopped = false := by simp [stopped]
  constructor
  · intro _
    show s.now ≤ pc.due s.now + delay
    omega
  · intro running
    exact absurd running never
  · intro stamp renewing
    have same : pc.stamp? = some stamp := renewing
    rw [stamped] at same
    cases same
  · intro starting
    exact absurd starting born
  · intro running
    exact absurd running never
  · exact fresh.written
  · intro running
    exact absurd running never

/-- A thread on its way out belongs to a broker that has stopped. -/
theorem Fresh.stopped_of_isOut (fresh : Fresh settings delay s) (out : s.pc.isOut = true) :
    s.stopped = true := by
  cases stopped : s.stopped with
  | true => rfl
  | false =>
      have stays := fresh.runs stopped
      rw [out] at stays
      cases stays

theorem lease_upserted (settings : Settings) (s : State) (pc : Pc) (stamp : Nat) :
    (s.moved settings (pc, some (.upsertBrokerLease stamp))).lease settings =
      some (leaseOf settings stamp) := by
  show (s.store.upsertBrokerLease _ _ _ stamp).getBrokerLease settings.brokerId = _
  rw [getBrokerLease_upsertBrokerLease, if_pos rfl, leaseOf]

theorem Fresh.renewal (fresh : Fresh settings delay s) {stamp : Nat} {pc : Pc}
    (renewing : s.pc.stamp? = some stamp) (dueAt : s.pc.due s.since = s.since)
    (next : pc = .rested ∨ pc = .failed) :
    Fresh settings delay (s.moved settings (pc, some (.upsertBrokerLease stamp))) := by
  have alive : s.pc ≠ .ended := by
    intro ended
    rw [ended] at renewing
    cases renewing
  have punctual : s.now ≤ s.pc.due s.since + delay := fresh.punctual alive
  have stamped := fresh.stamped stamp renewing
  have now : pc.due s.now = s.now := by rcases next with rfl | rfl <;> rfl
  constructor
  · intro _
    show s.now ≤ pc.due s.now + delay
    omega
  · intro _
    show pc.isOut = false
    rcases next with rfl | rfl <;> rfl
  · intro other again
    have none_ : pc.stamp? = none := by rcases next with rfl | rfl <;> rfl
    have some_ : pc.stamp? = some other := again
    rw [none_] at some_
    cases some_
  · intro starting
    have same : pc = .starting := starting
    rcases next with rfl | rfl <;> cases same
  · intro _ ended
    have same : pc = .ended := ended
    rcases next with rfl | rfl <;> cases same
  · intro lease found
    rw [lease_upserted] at found
    cases found
    rfl
  · intro _ lease found
    rw [lease_upserted] at found
    cases found
    show pc.due s.now ≤ stamp + pc.lag settings delay
    have lag : delay ≤ pc.lag settings delay := by
      rcases next with rfl | rfl <;> simp only [Pc.lag] <;> omega
    omega

/-- The lease is only taken back by a broker that has stopped. -/
theorem Fresh.deleted (fresh : Fresh settings delay s) (deleting : s.pc = .deleting) :
    Fresh settings delay (s.moved settings (.ended, some .deleteBrokerLease)) := by
  have stopped : s.stopped ≠ false := by
    intro running
    have out := fresh.runs running
    rw [deleting] at out
    cases out
  have gone : (s.moved settings (.ended, some .deleteBrokerLease)).lease settings = none := by
    show (s.store.deleteBrokerLease _).getBrokerLease settings.brokerId = _
    rw [getBrokerLease_deleteBrokerLease, if_pos rfl]
  constructor
  · intro alive
    exact absurd rfl alive
  · intro running
    exact absurd running stopped
  · intro stamp renewing
    cases renewing
  · intro starting
    cases starting
  · intro running
    exact absurd running stopped
  · intro lease found
    rw [gone] at found
    cases found
  · intro running
    exact absurd running stopped

theorem Fresh.thread (fresh : Fresh settings delay s) {m : Move} {moved : Pc × Option StoreCall}
    (punctual : Punctual settings delay skew s (.thread m))
    (taken : move settings s.view s.pc m = some moved) :
    Fresh settings delay (s.moved settings moved) := by
  unfold move at taken
  split at taken
  next starting =>
    cases taken
    exact fresh.quiet 0 rfl rfl (by simp) rfl (by simp) (Or.inl (fresh.unborn starting))
  next starting =>
    cases taken
    have absent := fresh.unborn starting
    exact fresh.quiet 0 rfl rfl (by simp) rfl (fun _ => absent) (Or.inl absent)
  next looping =>
    split at taken
    next stopped =>
      cases taken
      exact fresh.hurry stopped le_rfl (by simp) rfl
    next =>
      cases taken
      refine fresh.quiet 0 rfl rfl (by simp) (by simp [Pc.stamp?, State.view]) (by simp) ?_
      simp only [looping, Pc.lag]
      omega
  next stamp reached ok renewing =>
    cases taken
    have stamped : s.pc.stamp? = some stamp := by rw [renewing]; rfl
    have dueAt : s.pc.due s.since = s.since := by rw [renewing]; rfl
    cases ok with
    | true => exact fresh.renewal stamped dueAt (Or.inl rfl)
    | false =>
        cases reached with
        | true => exact fresh.renewal stamped dueAt (Or.inr rfl)
        | false =>
            show Fresh settings delay (s.moved settings (.failed, none))
            refine fresh.quiet 0 rfl rfl (by simp) rfl (by simp) ?_
            simp only [renewing, Pc.lag]
            omega
  next failed =>
    split at taken
    next stopped =>
      cases taken
      exact fresh.hurry stopped le_rfl (by simp) rfl
    next =>
      cases taken
      refine fresh.quiet settings.retryAfter rfl rfl (by simp) rfl (by simp) ?_
      simp only [failed, Pc.lag]
      omega
  next waiting =>
    cases taken
    refine fresh.quiet 0 rfl rfl (by simp) rfl (by simp) ?_
    simp only [waiting, Pc.lag]
    omega
  next retrying =>
    split at taken
    next stopped =>
      cases taken
      exact fresh.hurry stopped le_rfl (by simp) rfl
    next =>
      cases taken
      refine fresh.quiet 0 rfl rfl (by simp) (by simp [Pc.stamp?, State.view]) (by simp) ?_
      simp only [retrying, Pc.lag]
      omega
  next stamp reached ok renewing =>
    cases taken
    have stamped : s.pc.stamp? = some stamp := by rw [renewing]; rfl
    have dueAt : s.pc.due s.since = s.since := by rw [renewing]; rfl
    cases ok with
    | true => exact fresh.renewal stamped dueAt (Or.inl rfl)
    | false =>
        have succeeds := punctual (by rw [renewing]; rfl)
        cases succeeds
  next rested =>
    split at taken
    next stopped =>
      cases taken
      exact fresh.hurry stopped le_rfl (by simp) rfl
    next =>
      cases taken
      refine fresh.quiet settings.tick rfl rfl (by simp) rfl (by simp) ?_
      simp only [rested, Pc.lag]
      omega
  next waiting =>
    cases taken
    refine fresh.quiet 0 rfl rfl (by simp) rfl (by simp) ?_
    simp only [waiting, Pc.lag]
    omega
  next leaving =>
    cases taken
    exact fresh.hurry (fresh.stopped_of_isOut (by rw [leaving]; rfl)) le_rfl (by simp) rfl
  next deadline draining =>
    have stopped := fresh.stopped_of_isOut (by rw [draining]; rfl)
    split at taken
    next =>
      cases taken
      exact fresh.hurry stopped (Nat.le_add_right _ _) (by simp) rfl
    next =>
      cases taken
      exact fresh.hurry stopped le_rfl (by simp) rfl
  next wakeAt deadline sleeping =>
    split at taken
    next =>
      cases taken
      exact fresh.hurry (fresh.stopped_of_isOut (by rw [sleeping]; rfl)) le_rfl (by simp) rfl
    next => cases taken
  next reached ok deleting =>
    cases taken
    split
    next => exact fresh.deleted deleting
    next =>
      exact fresh.hurry (fresh.stopped_of_isOut (by rw [deleting]; rfl)) le_rfl (by simp) rfl
  next => cases taken

theorem Fresh.stop (fresh : Fresh settings delay s) {next : State}
    (taken : step settings s .stop = some next) : Fresh settings delay next := by
  cases taken
  have punctual := fresh.punctual
  have stamped := fresh.stamped
  constructor
  · intro alive
    revert alive punctual
    unfold State.due notifyAll
    split <;> simp_all [Pc.due]
  · intro running
    cases running
  · intro stamp renewing
    revert renewing stamped
    unfold notifyAll
    split <;> simp_all [Pc.stamp?]
  · intro starting
    apply fresh.unborn
    revert starting
    unfold notifyAll
    split <;> simp_all
  · intro running
    cases running
  · exact fresh.written
  · intro running
    cases running

theorem Fresh.taken {action : Action} (fresh : Fresh settings delay s)
    (punctual : Punctual settings delay skew s action) (taken : step settings s action = some next) :
    Fresh settings delay next := by
  cases action with
  | thread m =>
      obtain ⟨moved, moves, rfl⟩ := Option.map_eq_some_iff.mp taken
      exact fresh.thread punctual moves
  | stop => exact fresh.stop taken
  | advance duration =>
      cases taken
      exact ⟨punctual, fresh.runs, fresh.stamped, fresh.unborn, fresh.lasting, fresh.written,
        fresh.recent⟩
  | running jobs =>
      cases taken
      exact ⟨fresh.punctual, fresh.runs, fresh.stamped, fresh.unborn, fresh.lasting, fresh.written,
        fresh.recent⟩
  | shared call =>
      cases taken
      have same : ({ s with store := call.apply s.store } : State).lease settings =
          s.lease settings := SharedCall.getBrokerLease_apply punctual
      constructor
      · exact fresh.punctual
      · exact fresh.runs
      · exact fresh.stamped
      · exact fun starting => same.trans (fresh.unborn starting)
      · exact fun running ended => same.trans (fresh.lasting running ended)
      · exact fun lease found => fresh.written lease (same.symm.trans found)
      · exact fun running lease found => fresh.recent running lease (same.symm.trans found)
  | sweepBegin t =>
      cases taken
      exact ⟨fresh.punctual, fresh.runs, fresh.stamped, fresh.unborn, fresh.lasting, fresh.written,
        fresh.recent⟩
  | sweepEnd sweep =>
      obtain ⟨live, _, rfl⟩ := Option.map_eq_some_iff.mp taken
      exact ⟨fresh.punctual, fresh.runs, fresh.stamped, fresh.unborn, fresh.lasting, fresh.written,
        fresh.recent⟩

theorem deletes_renewed (stamp : Nat) (reached ok : Bool) (next : Pc) :
    (Pc.renewed stamp reached ok next).2 ≠ some .deleteBrokerLease := by
  unfold Pc.renewed
  cases ok || reached <;> simp

theorem deletes_of_move {view : View} {pc : Pc} {m : Move} {moved : Pc × Option StoreCall}
    (taken : move settings view pc m = some moved) (deletes : moved.2 = some .deleteBrokerLease) :
    pc.isOut = true := by
  unfold move at taken
  split at taken
  case h_4 | h_8 =>
    cases taken
    exact absurd deletes (deletes_renewed _ _ _ _)
  case h_14 => rfl
  all_goals
    try split at taken
    all_goals
      cases taken
      try cases deletes

theorem stopped_of_step {action : Action} (taken : step settings s action = some next)
    (running : next.stopped = false) : s.stopped = false := by
  cases action with
  | thread m =>
      obtain ⟨moved, _, rfl⟩ := Option.map_eq_some_iff.mp taken
      exact running
  | stop =>
      cases taken
      cases running
  | advance duration =>
      cases taken
      exact running
  | running jobs =>
      cases taken
      exact running
  | shared call | sweepBegin t =>
      cases taken
      exact running
  | sweepEnd sweep =>
      obtain ⟨live, _, rfl⟩ := Option.map_eq_some_iff.mp taken
      exact running

theorem Fresh.lease_kept {action : Action} (fresh : Fresh settings delay s)
    (punctual : Punctual settings delay skew s action) (taken : step settings s action = some next)
    (running : next.stopped = false) (held : (s.lease settings).isSome = true) :
    (next.lease settings).isSome = true := by
  have ran := stopped_of_step taken running
  cases action with
  | thread m =>
      obtain ⟨⟨pc, call⟩, moves, rfl⟩ := Option.map_eq_some_iff.mp taken
      cases call with
      | none => exact held
      | some call =>
          cases call with
          | upsertBrokerLease stamp =>
              rw [lease_upserted]
              rfl
          | deleteBrokerLease =>
              have out := deletes_of_move moves rfl
              rw [fresh.runs ran] at out
              cases out
  | stop =>
      cases taken
      cases running
  | advance duration =>
      cases taken
      exact held
  | running jobs =>
      cases taken
      exact held
  | shared call =>
      cases taken
      rw [State.lease, SharedCall.getBrokerLease_apply punctual]
      exact held
  | sweepBegin t =>
      cases taken
      exact held
  | sweepEnd sweep =>
      obtain ⟨live, _, rfl⟩ := Option.map_eq_some_iff.mp taken
      exact held

/-- The lease of a broker that has not stopped is younger than a gap. -/
theorem Fresh.until (fresh : Fresh settings delay s) (running : s.stopped = false)
    {lease : BrokerLeaseRecord} (found : s.lease settings = some lease) :
    s.now + MemoryStore.leaseDuration settings.brokerLeaseTtl ≤
      lease.leaseUntil + gap settings delay := by
  have age := fresh.age running found
  have lag : s.pc.lag settings delay + delay ≤ gap settings delay := Pc.lag_le s.pc
  have lasts : lease.leaseUntil =
      lease.updatedAt + MemoryStore.leaseDuration settings.brokerLeaseTtl :=
    congrArg BrokerLeaseRecord.leaseUntil (fresh.written lease found)
  omega

theorem grace_leaseOf (divF64 : Nat → Nat) (stamp : Nat) :
    leaseGraceDuration divF64 (leaseOf settings stamp) =
      min (divF64 (MemoryStore.leaseDuration settings.brokerLeaseTtl)) 1000000000 := by
  simp only [leaseGraceDuration, leaseOf, Nat.add_sub_cancel_left]

theorem Fresh.active (fresh : Fresh settings delay s) (running : s.stopped = false)
    {lease : BrokerLeaseRecord} (found : s.lease settings = some lease) (divF64 : Nat → Nat)
    (fits : gap settings delay + skew < MemoryStore.leaseDuration settings.brokerLeaseTtl +
      min (divF64 (MemoryStore.leaseDuration settings.brokerLeaseTtl)) 1000000000)
    {t : Nat} (ahead : t ≤ s.now + skew) :
    lookupOwnerLease divF64 s.store settings.brokerId t = .active lease := by
  have lasts := fresh.until running found
  have grace : leaseGraceDuration divF64 lease =
      min (divF64 (MemoryStore.leaseDuration settings.brokerLeaseTtl)) 1000000000 := by
    rw [fresh.written lease found, grace_leaseOf]
  have active : leaseIsActiveWithGrace divF64 lease t = true := by
    rw [leaseIsActiveWithGrace, grace, decide_eq_true_eq]
    omega
  rw [lookupOwnerLease_eq, show s.store.getBrokerLease settings.brokerId = some lease from found,
    leaseLookup, if_pos active]

theorem Fresh.live (fresh : Fresh settings delay s) (running : s.stopped = false)
    (held : (s.lease settings).isSome = true)
    (fits : gap settings delay + skew < MemoryStore.leaseDuration settings.brokerLeaseTtl)
    {t : Nat} (ahead : t ≤ s.now + skew) : s.store.live t settings.brokerId = true := by
  obtain ⟨lease, found⟩ := Option.isSome_iff_exists.mp held
  have lasts := fresh.until running found
  have named : lease.brokerId = settings.brokerId :=
    congrArg BrokerLeaseRecord.brokerId (fresh.written lease found)
  have later : t < lease.leaseUntil := by omega
  rw [MemoryStore.live, List.any_eq_true]
  exact ⟨⟨settings.brokerId, lease⟩, AList.mem_lookup_iff.mp found, by simp [later, named]⟩

/-- A slot of the broker is in the store. -/
def HoldsSlot (settings : Settings) (scope user jobId : String) (entry : UserLimitEntry)
    (s : State) : Prop :=
  s.store.slotOf scope user jobId = some entry ∧ entry.ownerBrokerId = settings.brokerId

theorem slotOf_of_userSlots {store changed : MemoryStore}
    (same : changed.userSlots = store.userSlots) : changed.slotOf = store.slotOf := by
  unfold MemoryStore.slotOf
  rw [same]

theorem slotOf_apply {store : MemoryStore} {call : SharedCall} {scope user jobId : String}
    {entry : UserLimitEntry} (held : store.slotOf scope user jobId = some entry)
    (unreleased : call ≠ .releaseUserSlot scope user jobId) :
    (call.apply store).slotOf scope user jobId = some entry := by
  cases call with
  | upsertJob record =>
      simp only [SharedCall.apply]
      cases result : store.upsertJob record with
      | error e => exact held
      | ok next =>
          unfold MemoryStore.upsertJob at result
          split at result
          · cases result
          · cases result
            exact held
  | deleteJob id =>
      simp only [SharedCall.apply]
      cases result : store.deleteJob id with
      | error e => exact held
      | ok next =>
          unfold MemoryStore.deleteJob at result
          split at result
          · cases result
          · cases result
            exact held
  | claimIfOwner id expectedOwner claimant =>
      simp only [SharedCall.apply]
      cases result : store.claimIfOwner id expectedOwner claimant with
      | error e => exact held
      | ok answer =>
          obtain ⟨_, next⟩ := answer
          have kept : next.userSlots = store.userSlots := by
            cases MemoryStore.claimIfOwner_effect result <;> rfl
          show next.slotOf scope user jobId = some entry
          rw [slotOf_of_userSlots kept]
          exact held
  | upsertBrokerLease brokerId url ttl now => exact held
  | deleteBrokerLease brokerId => exact held
  | reserveUserSlot sc us job owner now =>
      simp only [SharedCall.apply]
      by_cases same : scope = sc ∧ user = us ∧ jobId = job
      · obtain ⟨rfl, rfl, rfl⟩ := same
        rw [MemoryStore.reserveUserSlot_existing held]
        exact held
      · rw [MemoryStore.slotOf_reserveUserSlot store sc us job owner now same]
        exact held
  | releaseUserSlot sc us job =>
      have other : ¬(scope = sc ∧ user = us ∧ jobId = job) := by
        rintro ⟨rfl, rfl, rfl⟩
        exact unreleased rfl
      simp only [SharedCall.apply]
      rw [MemoryStore.slotOf_releaseUserSlot, if_neg other]
      exact held

end Steps

section Runs

variable {settings : Settings} {delay skew now : Nat} {store : MemoryStore}

theorem Fresh.of_path {allowed : State → Action → Prop}
    (punctual : ∀ s action, allowed s action → Punctual settings delay skew s action)
    {start last : State} {actions : List Action} (fresh : Fresh settings delay start)
    (path : Path (step settings) allowed start actions last) : Fresh settings delay last := by
  apply path.invariant fresh
  intro s action next fresh permitted taken
  exact fresh.taken (punctual s action permitted) taken

/-- The lease stays in the store from its first renewal until the broker stops. -/
theorem lease_stays {start last : State} {actions : List Action}
    (fresh : Fresh settings delay start) (held : (start.lease settings).isSome = true)
    (path : Path (step settings) (Punctual settings delay skew) start actions last)
    (running : last.stopped = false) : (last.lease settings).isSome = true := by
  have both : Fresh settings delay last ∧
      (last.stopped = false → (last.lease settings).isSome = true) := by
    apply path.invariant ⟨fresh, fun _ => held⟩
    rintro s action next ⟨fresh, stays⟩ punctual taken
    refine ⟨fresh.taken punctual taken, ?_⟩
    intro running
    exact fresh.lease_kept punctual taken running (stays (stopped_of_step taken running))
  exact both.2 running

end Runs

/-- A heartbeat in time keeps the broker alive: from the first renewal until the broker stops,
every broker that looks its lease up finds it active, however many renewals fail once, and whatever
else the brokers do with the store. -/
theorem heartbeat_keeps_lease_active {settings : Settings} {delay skew now : Nat}
    {store : MemoryStore} {before after : List Action} {renewed last : State}
    (divF64 : Nat → Nat)
    (fits : gap settings delay + skew < MemoryStore.leaseDuration settings.brokerLeaseTtl +
      min (divF64 (MemoryStore.leaseDuration settings.brokerLeaseTtl)) 1000000000)
    (absent : store.getBrokerLease settings.brokerId = none)
    (first : Path (step settings) (Punctual settings delay skew) (State.new store now) before renewed)
    (held : (renewed.lease settings).isSome = true)
    (second : Path (step settings) (Punctual settings delay skew) renewed after last)
    (running : last.stopped = false) {t : Nat} (ahead : t ≤ last.now + skew) :
    ∃ lease, last.store.getBrokerLease settings.brokerId = some lease ∧
      lookupOwnerLease divF64 last.store settings.brokerId t = .active lease := by
  have early : Fresh settings delay renewed :=
    (Fresh.new absent now).of_path (fun _ _ => id) first
  have late : Fresh settings delay last := early.of_path (fun _ _ => id) second
  obtain ⟨lease, found⟩ := Option.isSome_iff_exists.mp (lease_stays early held second running)
  exact ⟨lease, found, late.active running found divF64 fits ahead⟩

def thirtySeconds : Settings where
  brokerId := "bol-dev-1"
  baseUrl := "http://127.0.0.1:8080/job"
  brokerLeaseTtl := 30000000000
  halfF64 := (· / 2)

def firstRenewal : List Action :=
  [.thread (.start true), .thread .step, .advance 100000000, .thread (.answer true true)]

/-- The next renewal fails, and its retry is on the way. -/
def retriedRenewal : List Action :=
  [.thread .step, .advance 15100000000, .thread .wake, .thread .step, .thread (.answer false false),
    .thread .step, .advance 600000000, .thread .wake, .thread .step, .advance 100000000]

theorem heartbeat_keeps_lease_active_retried : ∃ renewed last,
    Path (step thirtySeconds) (Punctual thirtySeconds 100000000 1000000000)
      (State.new .new 0) firstRenewal renewed ∧
    Path (step thirtySeconds) (Punctual thirtySeconds 100000000 1000000000)
      renewed retriedRenewal last ∧
    ∃ lease, last.store.getBrokerLease "bol-dev-1" = some lease ∧
      lookupOwnerLease (· / 10) last.store "bol-dev-1" (last.now + 1000000000) = .active lease := by
  have check : ∀ s action, decide (Punctual thirtySeconds 100000000 1000000000 s action) = true →
      Punctual thirtySeconds 100000000 1000000000 s action := fun _ _ => of_decide_eq_true
  let step' := fun s action =>
    if decide (Punctual thirtySeconds 100000000 1000000000 s action) then step thirtySeconds s action
    else none
  have started : (run step' (State.new .new 0) firstRenewal).any (fun renewed =>
      (renewed.lease thirtySeconds).isSome && (run step' renewed retriedRenewal).any
        fun last => !last.stopped) = true := by decide +kernel
  obtain ⟨renewed, first, rest⟩ := (Option.any_eq_true _ _).mp started
  obtain ⟨held, retried⟩ := Bool.and_eq_true_iff.mp rest
  obtain ⟨last, second, running⟩ := (Option.any_eq_true _ _).mp retried
  have path := Path.of_run_if check _ _ first
  have next := Path.of_run_if check _ _ second
  exact ⟨renewed, last, path, next, heartbeat_keeps_lease_active (· / 10) (by decide) rfl path held
    next (by simpa using running) le_rfl⟩

/-- What a step cannot take from a broker whose heartbeat is in time: a slot of it, and that the
sweeps under way have found it alive. -/
structure SlotKept (settings : Settings) (scope user jobId : String) (entry : UserLimitEntry)
    (s : State) : Prop where
  leased : (s.lease settings).isSome = true
  held : HoldsSlot settings scope user jobId entry s
  spared : ∀ live ∈ s.sweeps, live settings.brokerId = true

theorem SlotKept.step {settings : Settings} {delay skew : Nat} {s next : State} {action : Action}
    {scope user jobId : String} {entry : UserLimitEntry}
    (fits : gap settings delay + skew < MemoryStore.leaseDuration settings.brokerLeaseTtl)
    (kept : SlotKept settings scope user jobId entry s) (fresh : Fresh settings delay s)
    (punctual : Punctual settings delay skew s action)
    (unreleased : action ≠ .shared (.releaseUserSlot scope user jobId))
    (taken : step settings s action = some next) (running : next.stopped = false) :
    SlotKept settings scope user jobId entry next := by
  have leased := fresh.lease_kept punctual taken running kept.leased
  obtain ⟨slot, owned⟩ := kept.held
  cases action with
  | thread m =>
      obtain ⟨⟨pc, call⟩, _, rfl⟩ := Option.map_eq_some_iff.mp taken
      refine ⟨leased, ⟨?_, owned⟩, kept.spared⟩
      cases call with
      | none => exact slot
      | some call => cases call <;> exact slot
  | stop | advance duration | running jobs =>
      cases taken
      exact ⟨leased, ⟨slot, owned⟩, kept.spared⟩
  | shared call =>
      cases taken
      refine ⟨leased, ⟨slotOf_apply slot ?_, owned⟩, kept.spared⟩
      rintro rfl
      exact unreleased rfl
  | sweepBegin t =>
      have ran := stopped_of_step taken running
      cases taken
      refine ⟨leased, ⟨slot, owned⟩, ?_⟩
      intro live member
      rcases List.mem_append.mp member with earlier | now
      · exact kept.spared live earlier
      · rw [List.mem_singleton.mp now]
        exact fresh.live ran kept.leased fits punctual
  | sweepEnd sweep =>
      obtain ⟨live, under, rfl⟩ := Option.map_eq_some_iff.mp taken
      refine ⟨leased, ⟨?_, owned⟩, fun live member => kept.spared live (List.mem_of_mem_eraseIdx member)⟩
      have spares := kept.spared live (List.mem_of_getElem? under)
      rw [MemoryStore.slotOf_retainUserSlots, slot]
      simp [owned, spares]

/-- No sweep of any broker takes a slot of a broker whose heartbeat is in time: unless it read the
leases before the broker had one, the slot stays until it is released or the broker stops. -/
theorem heartbeat_keeps_slots {settings : Settings} {delay skew now : Nat} {store : MemoryStore}
    {scope user jobId : String} {entry : UserLimitEntry} {before after : List Action}
    {sweeps : List (String → Bool)} {reserved last : State}
    (fits : gap settings delay + skew < MemoryStore.leaseDuration settings.brokerLeaseTtl)
    (absent : store.getBrokerLease settings.brokerId = none)
    (first : Path (step settings) (Punctual settings delay skew)
      { State.new store now with sweeps := sweeps } before reserved)
    (leased : (reserved.lease settings).isSome = true)
    (held : HoldsSlot settings scope user jobId entry reserved)
    (spared : ∀ live ∈ reserved.sweeps, live settings.brokerId = true)
    (second : Path (step settings) (fun s action => Punctual settings delay skew s action ∧
      action ≠ .shared (.releaseUserSlot scope user jobId)) reserved after last)
    (running : last.stopped = false) : HoldsSlot settings scope user jobId entry last := by
  have fresh : Fresh settings delay (State.new store now) := Fresh.new absent now
  have begun : Fresh settings delay { State.new store now with sweeps := sweeps } :=
    ⟨fresh.punctual, fresh.runs, fresh.stamped, fresh.unborn, fresh.lasting, fresh.written,
      fresh.recent⟩
  have early : Fresh settings delay reserved := begun.of_path (fun _ _ => id) first
  have all : Fresh settings delay last ∧
      (last.stopped = false → SlotKept settings scope user jobId entry last) := by
    apply second.invariant ⟨early, fun _ => ⟨leased, held, spared⟩⟩
    rintro s action next ⟨fresh, kept⟩ ⟨punctual, unreleased⟩ taken
    refine ⟨fresh.taken punctual taken, ?_⟩
    intro running
    exact (kept (stopped_of_step taken running)).step fits fresh punctual unreleased taken running
  exact (all.2 running).held

/-- Another broker sweeps the slots while a renewal is late. -/
def sweptWhileLate : List Action :=
  [.thread .step, .advance 15100000000, .thread .wake, .thread .step,
    .sweepBegin 16000000000, .shared (.releaseUserSlot "pool" "bob" "job-2"), .sweepEnd 0]

theorem heartbeat_keeps_slots_swept : ∃ reserved last,
    Path (step thirtySeconds) (Punctual thirtySeconds 100000000 1000000000) (State.new .new 0)
      (firstRenewal ++ [.shared (.reserveUserSlot "pool" "alice" "job-1" "bol-dev-1" 5)])
      reserved ∧
    Path (step thirtySeconds) (fun s action => Punctual thirtySeconds 100000000 1000000000 s action ∧
      action ≠ .shared (.releaseUserSlot "pool" "alice" "job-1")) reserved sweptWhileLate last ∧
    HoldsSlot thirtySeconds "pool" "alice" "job-1"
      ⟨"pool", "alice", "job-1", "bol-dev-1", 1, 5⟩ last := by
  let unreleased : Action → Bool := fun action => match action with
    | .shared (.releaseUserSlot _ _ job) => decide (job ≠ "job-1")
    | _ => true
  have check : ∀ s action, decide (Punctual thirtySeconds 100000000 1000000000 s action) = true →
      Punctual thirtySeconds 100000000 1000000000 s action := fun _ _ => of_decide_eq_true
  have stricter : ∀ s action, (decide (Punctual thirtySeconds 100000000 1000000000 s action) &&
      unreleased action) = true → Punctual thirtySeconds 100000000 1000000000 s action ∧
        action ≠ .shared (.releaseUserSlot "pool" "alice" "job-1") := by
    intro s action checked
    obtain ⟨punctual, other⟩ := Bool.and_eq_true_iff.mp checked
    refine ⟨of_decide_eq_true punctual, ?_⟩
    rintro rfl
    simp [unreleased] at other
  have started : (run (fun s action =>
      if decide (Punctual thirtySeconds 100000000 1000000000 s action) then
        step thirtySeconds s action else none) (State.new .new 0)
      (firstRenewal ++ [.shared (.reserveUserSlot "pool" "alice" "job-1" "bol-dev-1" 5)])).any
      (fun reserved => (reserved.lease thirtySeconds).isSome && reserved.sweeps.isEmpty &&
        decide (reserved.store.slotOf "pool" "alice" "job-1" =
          some ⟨"pool", "alice", "job-1", "bol-dev-1", 1, 5⟩) &&
        (run (fun s action =>
          if decide (Punctual thirtySeconds 100000000 1000000000 s action) && unreleased action then
            step thirtySeconds s action else none) reserved sweptWhileLate).any
          fun last => !last.stopped) = true := by decide +kernel
  obtain ⟨reserved, first, rest⟩ := (Option.any_eq_true _ _).mp started
  obtain ⟨both, swept⟩ := Bool.and_eq_true_iff.mp rest
  obtain ⟨calm, slot⟩ := Bool.and_eq_true_iff.mp both
  obtain ⟨leased, none⟩ := Bool.and_eq_true_iff.mp calm
  have spared : ∀ live ∈ reserved.sweeps, live thirtySeconds.brokerId = true := by
    rw [List.isEmpty_iff.mp none]
    simp
  obtain ⟨last, second, running⟩ := (Option.any_eq_true _ _).mp swept
  have path := Path.of_run_if check _ _ first
  have next := Path.of_run_if stricter _ _ second
  exact ⟨reserved, last, path, next, heartbeat_keeps_slots (by decide) rfl path leased
    ⟨of_decide_eq_true slot, rfl⟩ spared next (by simpa using running)⟩

end Heartbeat

end BitsBroker
