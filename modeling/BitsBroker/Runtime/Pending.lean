import BitsBroker.Runtime.Recovery
import BitsBroker.Runtime.Proxy

/-!
A whole poll, from the first look into memory to the answer. What the poll finds at each of its
awaits is given from outside (`Surroundings`): the job map, the contents of the store at every
call, the errors of the store and the responses of other brokers may all change between two of
them. A poll of a job in memory ends by its timeout or by a notification.

Besides its outcome a poll reports whether it restored the job and which calls it made to the
store. A broker without a store answers that the job is pending when the identifier names
another broker, although there is nobody who could ever know more; every other pending answer has
a reason to try again.
-/

namespace BitsBroker

open RequestId

structure Bits where
  brokerId : String
  jobStore : Bool
  divF64 : Nat → Nat

/-- The store at the time of a call, and the error that the call meets. -/
structure StoreCall where
  store : MemoryStore
  now : Nat
  fault : Option DbError

structure ClaimAttempt where
  call : StoreCall
  took : Nat
  overslept : Nat

/-- A job in memory, as a poll that attaches to it finds it. -/
structure LocalJob where
  taken : Option JobResult
  woken : Option JobResult
  status : PendingStatus

structure Exchange (http : HttpText) where
  response : Option (Response http)
  presence : StoreCall

structure Surroundings (http : HttpText) where
  found : Option LocalJob
  hintedLease : StoreCall
  hintedOwner : Exchange http
  attempts : Nat → ClaimAttempt
  inserted : Bool
  foundAgain : Option LocalJob
  currentLease : StoreCall
  currentOwner : Exchange http

structure Asked where
  store : MemoryStore
  now : Nat
  failed : Bool

structure PollReport where
  outcome : PollOutcome
  restored : Bool
  asked : List Asked

def LocalJob.poll (job : LocalJob) (id : String) : PollOutcome :=
  pollLocal id job.taken job.woken job.status

namespace StoreCall

def getBrokerLease (call : StoreCall) (ownerBrokerId : String) :
    Except DbError (Option BrokerLeaseRecord) :=
  match call.fault with
  | some error => .error error
  | none => .ok (call.store.getBrokerLease ownerBrokerId)

def claimIfOwner (call : StoreCall) (id expectedOwner claimant : String) :
    Except DbError ClaimResult :=
  match call.fault with
  | some error => .error error
  | none => (call.store.claimIfOwner id expectedOwner claimant).map (·.1)

def asked {A : Type} (call : StoreCall) (result : Except DbError A) : Asked where
  store := call.store
  now := call.now
  failed := !result.isOk

end StoreCall

def durableJobPresent (call : StoreCall) (jobId : String) : Except DbError Bool :=
  match call.claimIfOwner jobId "__never_expected__" "__presence_probe__" with
  | .error error => .error error
  | .ok .notFound => .ok false
  | .ok (.active _) | .ok (.claimed _) => .ok true

namespace Bits

def claimBudget (timeout : Option Nat) : Nat := min (timeout.getD 2000000000) 2000000000

def retryClaim (bits : Bits) (id expectedOwner : String) (attempts : Nat → ClaimAttempt)
    (deadline attempt delay now : Nat) : Except DbError ClaimResult × List Asked :=
  let current := attempts attempt
  let result := current.call.claimIfOwner id expectedOwner bits.brokerId
  match result with
  | .ok claimed => (.ok claimed, [current.call.asked result])
  | .error (.conflict message) => (.error (.conflict message), [current.call.asked result])
  | .error (.slotExhausted site env ceiling) =>
      (.error (.slotExhausted site env ceiling), [current.call.asked result])
  | .error (.backend message) =>
      let sleepFor := min delay (deadline - (now + current.took))
      if deadline ≤ now + current.took then
        (.error (.backend message), [current.call.asked result])
      else if _ : sleepFor = 0 then
        (.error (.backend message), [current.call.asked result])
      else
        let rest := retryClaim bits id expectedOwner attempts deadline (attempt + 1)
          (min (delay * 2) 1000000000) (now + current.took + sleepFor + current.overslept)
        (rest.1, current.call.asked result :: rest.2)
termination_by deadline - now
decreasing_by omega

/-- The clock of a claim starts at zero. -/
def claimWithBackoff (bits : Bits) (id expectedOwner : String) (timeout : Option Nat)
    (attempts : Nat → ClaimAttempt) : Except DbError ClaimResult × List Asked :=
  bits.retryClaim id expectedOwner attempts (claimBudget timeout) 0 100000000 0

def lookupOwnerLease (bits : Bits) (ownerBrokerId : String) (call : StoreCall) :
    LeaseLookup × List Asked :=
  if bits.jobStore then
    let result := call.getBrokerLease ownerBrokerId
    match result with
    | .ok (some lease) =>
        if leaseIsActiveWithGrace bits.divF64 lease call.now then
          (.active lease, [call.asked result])
        else (.missingOrExpired, [call.asked result])
    | .ok none => (.missingOrExpired, [call.asked result])
    | .error _ => (.unknown, [call.asked result])
  else (.unknown, [])

variable {http : HttpText}

def presenceAsked (bits : Bits) (id : String) (exchange : Exchange http) : List Asked :=
  match exchange.response with
  | some response =>
      if response.status = 404 ∧ bits.jobStore then
        [exchange.presence.asked (durableJobPresent exchange.presence id)]
      else []
  | none => []

def tryProxyWithLease (bits : Bits) (id : String) (exchange : Exchange http) :
    Option PollOutcome × List Asked :=
  let durable := if bits.jobStore then some (durableJobPresent exchange.presence id) else none
  (BitsBroker.tryProxyWithLease durable id exchange.response, bits.presenceAsked id exchange)

/-- The part of a poll that follows a claim. -/
def afterClaim (bits : Bits) (id owner : String) (around : Surroundings http)
    (claim : Except DbError ClaimResult) (asked : List Asked) : PollReport :=
  match claim with
  | .ok (.claimed _) =>
      ⟨(around.foundAgain.map (·.poll id)).getD (.queued id), around.inserted, asked⟩
  | .ok (.active ownerBrokerId) =>
      if ownerBrokerId = bits.brokerId then ⟨.queued id, false, asked⟩
      else match bits.lookupOwnerLease ownerBrokerId around.currentLease with
        | (.active _, looked) =>
            let answer := bits.tryProxyWithLease id around.currentOwner
            ⟨answer.1.getD (.queued id), false, asked ++ looked ++ answer.2⟩
        | (.missingOrExpired, looked) | (.unknown, looked) => ⟨.queued id, false, asked ++ looked⟩
  | .ok .notFound =>
      if owner = bits.brokerId then ⟨.notFound, false, asked⟩ else ⟨.jobLost, false, asked⟩
  | .error (.conflict _) => ⟨.queued id, false, asked⟩
  | .error (.backend _) => ⟨.queued id, false, asked⟩
  | .error (.slotExhausted _ _ _) => ⟨.queued id, false, asked⟩

/-- The part of a poll that follows the lease of the named owner. -/
def afterLease (bits : Bits) (id owner : String) (timeout : Option Nat)
    (around : Surroundings http) (looked : List Asked) : PollReport :=
  if bits.jobStore then
    let claim := bits.claimWithBackoff id owner timeout around.attempts
    bits.afterClaim id owner around claim.1 (looked ++ claim.2)
  else ⟨.notFound, false, looked⟩

def poll (bits : Bits) (id : String) (timeout : Option Nat) (around : Surroundings http) :
    PollReport :=
  match around.found with
  | some job => ⟨job.poll id, false, []⟩
  | none =>
      match slotFromJobId id with
      | .error _ => ⟨.notFound, false, []⟩
      | .ok owner =>
          if owner ≠ bits.brokerId then
            match bits.lookupOwnerLease owner around.hintedLease with
            | (.active _, looked) =>
                let answer := bits.tryProxyWithLease id around.hintedOwner
                ⟨answer.1.getD (.queued id), false, looked ++ answer.2⟩
            | (.unknown, looked) => ⟨.queued id, false, looked⟩
            | (.missingOrExpired, looked) => bits.afterLease id owner timeout around looked
          else bits.afterLease id owner timeout around []

/-- A call to the store after which a later poll can find more. -/
def Promising (bits : Bits) (id : String) (call : Asked) : Prop :=
  (∃ record, call.store.recordOf id = some record) ∨
    (∃ owner lease, slotFromJobId id = .ok owner ∧ call.store.getBrokerLease owner = some lease ∧
      leaseIsActiveWithGrace bits.divF64 lease call.now = true) ∨
    call.failed = true

/-- The job was in memory or has been restored, or the store gave a reason to try again. -/
def Justified (bits : Bits) (id : String) (around : Surroundings http) (report : PollReport) :
    Prop :=
  around.found.isSome = true ∨ report.restored = true ∨
    bits.jobStore = true ∧ ∃ call ∈ report.asked, bits.Promising id call

/-- A pending answer is justified, and without a justification the answer is final. -/
def NoDeadEnd (bits : Bits) (id : String) (around : Surroundings http) (report : PollReport) :
    Prop :=
  (∀ job status, report.outcome = .pending job status → bits.Justified id around report) ∧
    (¬ bits.Justified id around report →
      (∃ result, report.outcome = .ready result) ∨ report.outcome = .notFound ∨
        report.outcome = .jobLost)

section Reasons

variable {bits : Bits} {id : String}

theorem promising_of_failed {A : Type} {call : StoreCall} {result : Except DbError A}
    {error : DbError} (failed : result = .error error) : bits.Promising id (call.asked result) := by
  refine Or.inr (Or.inr ?_)
  simp [StoreCall.asked, failed, Except.isOk, Except.toBool]

theorem promising_of_claim {call : StoreCall} {expectedOwner claimant : String}
    (answered : call.claimIfOwner id expectedOwner claimant ≠ .ok .notFound) :
    bits.Promising id (call.asked (call.claimIfOwner id expectedOwner claimant)) := by
  cases result : call.claimIfOwner id expectedOwner claimant with
  | error error => exact promising_of_failed rfl
  | ok claimed =>
      refine Or.inl ?_
      unfold StoreCall.claimIfOwner at result
      split at result
      · simp at result
      · cases stored : call.store.claimIfOwner id expectedOwner claimant with
        | error error => simp [stored, Except.map] at result
        | ok answer =>
            obtain ⟨claim, next⟩ := answer
            obtain rfl : claim = claimed := by simpa [stored, Except.map] using result
            cases MemoryStore.claimIfOwner_effect stored with
            | notFound _ =>
                exact absurd (by simp [StoreCall.claimIfOwner, *, Except.map]) answered
            | alreadyMine present _ => exact ⟨_, present⟩
            | active present _ _ => exact ⟨_, present⟩
            | transferred present _ _ _ => exact ⟨_, present⟩

theorem retryClaim_promising {expectedOwner : String} {attempts : Nat → ClaimAttempt}
    {deadline attempt delay now : Nat}
    (answered : (bits.retryClaim id expectedOwner attempts deadline attempt delay now).1 ≠
      .ok .notFound) :
    ∃ call ∈ (bits.retryClaim id expectedOwner attempts deadline attempt delay now).2,
      bits.Promising id call := by
  fun_induction retryClaim bits id expectedOwner attempts deadline attempt delay now with
  | case1 attempt delay now current result claimed found =>
      have heard : result ≠ .ok .notFound := by rwa [found]
      exact ⟨_, List.mem_singleton_self _, promising_of_claim heard⟩
  | case2 attempt delay now current result message found
  | case3 attempt delay now current result site env ceiling found
  | case4 attempt delay now current result message found late
  | case5 attempt delay now current result message found sleepFor early exhausted =>
      exact ⟨_, List.mem_singleton_self _, promising_of_failed found⟩
  | case6 attempt delay now current result message found sleepFor early slept rest again =>
      obtain ⟨call, inside, promising⟩ := again answered
      exact ⟨call, List.mem_cons_of_mem _ inside, promising⟩

theorem lookupOwnerLease_active {owner : String} {call : StoreCall} {lease : BrokerLeaseRecord}
    {looked : List Asked} (named : slotFromJobId id = .ok owner)
    (found : bits.lookupOwnerLease owner call = (.active lease, looked)) :
    bits.jobStore = true ∧ ∃ asked ∈ looked, bits.Promising id asked := by
  unfold lookupOwnerLease at found
  split at found
  next configured =>
    refine ⟨configured, ?_⟩
    dsimp only at found
    split at found
    next known answered =>
      split at found
      next active =>
        obtain ⟨rfl, rfl⟩ : known = lease ∧ [call.asked (call.getBrokerLease owner)] = looked := by
          simpa using found
        refine ⟨_, List.mem_singleton_self _, Or.inr (Or.inl ⟨owner, known, named, ?_, active⟩)⟩
        unfold StoreCall.getBrokerLease at answered
        split at answered
        · simp at answered
        · exact Except.ok.inj answered
      · simp at found
    · simp at found
    · simp at found
  · simp at found

theorem lookupOwnerLease_unknown {owner : String} {call : StoreCall} {looked : List Asked}
    (configured : bits.jobStore = true)
    (found : bits.lookupOwnerLease owner call = (.unknown, looked)) :
    ∃ asked ∈ looked, bits.Promising id asked := by
  simp only [lookupOwnerLease, configured, if_true] at found
  split at found
  · split at found
    · simp at found
    · simp at found
  · simp at found
  next error failed =>
    obtain rfl : [call.asked (call.getBrokerLease owner)] = looked := by simpa using found
    exact ⟨_, List.mem_singleton_self _, promising_of_failed failed⟩

end Reasons

section Answers

variable {bits : Bits} {id : String} {http : HttpText} {around : Surroundings http}

/-- Every answer after a claim that found the record or failed comes with the calls of the claim. -/
theorem afterClaim_asked {owner : String} {claim : Except DbError ClaimResult}
    {asked : List Asked} {call : Asked} (inside : call ∈ asked) :
    call ∈ (bits.afterClaim id owner around claim asked).asked := by
  unfold afterClaim
  split
  · exact inside
  · split
    · exact inside
    · split
      · simp [inside]
      · simp [inside]
      · simp [inside]
  · split
    · exact inside
    · exact inside
  · exact inside
  · exact inside
  · exact inside

theorem afterClaim_notFound {owner job : String} {asked : List Asked} {status : PendingStatus} :
    (bits.afterClaim id owner around (.ok .notFound) asked).outcome ≠ .pending job status := by
  simp only [afterClaim]
  split
  · simp
  · simp

theorem afterLease_justified {owner job : String} {timeout : Option Nat} {looked : List Asked}
    {status : PendingStatus} (configured : bits.jobStore = true)
    (pending : (bits.afterLease id owner timeout around looked).outcome = .pending job status) :
    ∃ call ∈ (bits.afterLease id owner timeout around looked).asked, bits.Promising id call := by
  simp only [afterLease, configured, if_true] at pending ⊢
  have answered : (bits.claimWithBackoff id owner timeout around.attempts).1 ≠ .ok .notFound := by
    intro missing
    rw [missing] at pending
    exact afterClaim_notFound pending
  obtain ⟨call, inside, promising⟩ := retryClaim_promising answered
  exact ⟨call, afterClaim_asked (List.mem_append_right _ inside), promising⟩

/-- With a store every pending answer has a reason in memory or in the store. -/
theorem poll_justified {timeout : Option Nat} {job : String} {status : PendingStatus}
    (configured : bits.jobStore = true)
    (pending : (bits.poll id timeout around).outcome = .pending job status) :
    bits.Justified id around (bits.poll id timeout around) := by
  unfold poll at pending ⊢
  split at pending
  next local_ found => exact Or.inl (by simp [found])
  next absent =>
    refine Or.inr (Or.inr ⟨configured, ?_⟩)
    split at pending
    · simp at pending
    next owner named =>
      split at pending
      next foreign =>
        rw [if_pos foreign]
        split at pending
        next lease looked found =>
          obtain ⟨_, call, inside, promising⟩ := lookupOwnerLease_active named found
          exact ⟨call, by simp [inside], promising⟩
        next looked found => exact lookupOwnerLease_unknown configured found
        next looked found => exact afterLease_justified configured pending
      next own =>
        rw [if_neg own]
        exact afterLease_justified configured pending

/-- Without a store only the identifier of another broker's job is answered as pending. -/
theorem poll_unstored {timeout : Option Nat} {owner : String} (bare : bits.jobStore = false)
    (absent : around.found = none) (named : slotFromJobId id = .ok owner)
    (foreign : owner ≠ bits.brokerId) : bits.poll id timeout around = ⟨.queued id, false, []⟩ := by
  simp [poll, absent, named, foreign, lookupOwnerLease, bare]

theorem poll_unstored_own {timeout : Option Nat} (bare : bits.jobStore = false)
    (absent : around.found = none)
    (own : ∀ owner, slotFromJobId id = .ok owner → owner = bits.brokerId) :
    (bits.poll id timeout around).outcome = .notFound := by
  unfold poll
  simp only [absent]
  split
  · rfl
  next owner named => simp [own owner named, afterLease, bare]

end Answers

theorem noDeadEnd_of_justified {http : HttpText} {bits : Bits} {id : String}
    {around : Surroundings http} {report : PollReport}
    (reason : ∀ job status, report.outcome = .pending job status →
      bits.Justified id around report) : bits.NoDeadEnd id around report := by
  refine ⟨reason, ?_⟩
  intro unjustified
  cases answer : report.outcome with
  | ready result => exact Or.inl ⟨result, rfl⟩
  | pending job status => exact absurd (reason job status answer) unjustified
  | notFound => exact Or.inr (Or.inl rfl)
  | jobLost => exact Or.inr (Or.inr rfl)

/-- A pending answer is no dead end unless a broker without a store is asked for the job of
another broker. -/
theorem pending_no_dead_end_iff {http : HttpText} (bits : Bits) (id : String)
    (timeout : Option Nat) (around : Surroundings http) :
    bits.NoDeadEnd id around (bits.poll id timeout around) ↔
      bits.jobStore = true ∨ around.found.isSome = true ∨
        ∀ owner, slotFromJobId id = .ok owner → owner = bits.brokerId := by
  constructor
  · rintro ⟨reason, _⟩
    by_contra refuted
    push Not at refuted
    obtain ⟨bare, absent, owner, named, foreign⟩ := refuted
    have unstored : bits.jobStore = false := by simpa using bare
    have missing : around.found = none := by simpa using absent
    have answer : bits.poll id timeout around = ⟨.queued id, false, []⟩ :=
      poll_unstored unstored missing named foreign
    rw [answer] at reason
    rcases reason id .queued rfl with inMemory | restored | ⟨_, _, inside, _⟩
    · simp [missing] at inMemory
    · simp at restored
    · simp at inside
  · intro allowed
    apply noDeadEnd_of_justified
    intro job status pending
    by_cases configured : bits.jobStore = true
    · exact poll_justified configured pending
    · by_cases inMemory : around.found.isSome = true
      · exact Or.inl inMemory
      · have own := (allowed.resolve_left configured).resolve_left inMemory
        have lost : (bits.poll id timeout around).outcome = .notFound :=
          poll_unstored_own (by simpa using configured) (by simpa using inMemory) own
        simp [lost] at pending

namespace Scenario

def idle : StoreCall := ⟨MemoryStore.new, 0, none⟩

/-- The job is not in memory, and nobody else is there to answer. -/
def alone : Surroundings ProxyScenario.plainHttp where
  found := none
  hintedLease := idle
  hintedOwner := ⟨none, idle⟩
  attempts := fun _ => ⟨idle, 0, 0⟩
  inserted := false
  foundAgain := none
  currentLease := idle
  currentOwner := ⟨none, idle⟩

def inMemoryOnly : Bits := ⟨"fra-dev-0", false, fun length => length / 10⟩

end Scenario

open Bits.Scenario

theorem foreign_job_pending_without_store :
    (inMemoryOnly.poll ProxyScenario.jobId (some 1000) alone).outcome =
        .queued ProxyScenario.jobId ∧
      ¬ inMemoryOnly.NoDeadEnd ProxyScenario.jobId alone
        (inMemoryOnly.poll ProxyScenario.jobId (some 1000) alone) := by
  have named : slotFromJobId ProxyScenario.jobId = .ok "bol-dev-0" := by decide +kernel
  have answer : inMemoryOnly.poll ProxyScenario.jobId (some 1000) alone =
      ⟨.queued ProxyScenario.jobId, false, []⟩ :=
    poll_unstored rfl rfl named (by decide)
  rw [answer]
  refine ⟨rfl, ?_⟩
  rintro ⟨reason, _⟩
  rcases reason ProxyScenario.jobId .queued rfl with inMemory | restored | ⟨configured, _⟩
  · simp [alone] at inMemory
  · simp at restored
  · simp [inMemoryOnly] at configured

end Bits

end BitsBroker
