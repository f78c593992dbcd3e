import BitsBroker.Lib.PathPattern
import BitsBroker.Runtime.Wellformed

/-!
Where a poll goes next. A broker that does not hold the job forwards the poll along the lease of
the broker its identifier names, while that is active, or else along the lease of the owner of the
durable record: to whoever answers at the address in the lease. With the stores, the memories and
the network held fixed this makes a chain of brokers. It ends after at most two hops, except in
three cases. The address in the lease of the named broker can lead to another broker that lacks the
job, such as a later one behind the same name; with the named broker gone, the same can be so for
the owner of the record; and the named broker and the one behind the owner's lease can both have
lost the job, and forward the poll to each other.
-/

namespace BitsBroker

open RequestId Cluster Transition

section Chains

variable {A : Type}

def chain (next : A → Option A) : Nat → A → List A
  | 0, _ => []
  | fuel + 1, start => start :: match next start with
    | some target => chain next fuel target
    | none => []

theorem chain_of_none {next : A → Option A} {start : A} (stops : next start = none) (fuel : Nat) :
    chain next (fuel + 1) start = [start] := by
  simp [chain, stops]

theorem chain_of_some {next : A → Option A} {start target : A} (hop : next start = some target)
    (fuel : Nat) : chain next (fuel + 1) start = start :: chain next fuel target := by
  simp [chain, hop]

end Chains

section Forward

/-- The broker that answers at a URL, if one does. -/
abbrev Network : Type := String → Option String

def pollUrl (lease : BrokerLeaseRecord) (id : String) : String :=
  s!"{PathPattern.trimEndSlashes lease.internalPollBaseUrl}/{id}"

variable (cfg : Config) (network : Network) (s : Cluster) (id : String)

def isActive (broker : String) : Bool :=
  match lookupOwnerLease cfg.divF64 s.store broker s.now with
  | .active _ => true
  | _ => false

def holdsJob (broker : String) : Bool := ((s.brokers broker).jobs.lookup id).isSome

/-- The broker that gets a poll which is proxied along the lease of `owner`. -/
def answering (owner : String) : Option String :=
  match lookupOwnerLease cfg.divF64 s.store owner s.now with
  | .active lease => network (pollUrl lease id)
  | _ => none

/-- The hop after a claim that found another owner. -/
def claimForward (hint broker : String) : Option String :=
  match s.store.claimIfOwner id hint broker with
  | .ok (.active current, _) =>
      if current = broker then none else answering cfg network s id current
  | _ => none

/-- The broker that the poll of `id` is forwarded to by `broker`, if it is. -/
def forwardTo (broker : String) : Option String :=
  if holdsJob s id broker then none
  else match slotFromJobId id with
    | .error _ => none
    | .ok hint =>
        if hint = broker then claimForward cfg network s id hint broker
        else if isActive cfg s hint then answering cfg network s id hint
        else claimForward cfg network s id hint broker

/-- A poll proxied along the lease of `owner` reaches `broker`, which lacks the job. -/
def LeadsAstray (owner broker : String) : Prop :=
  answering cfg network s id owner = some broker ∧ holdsJob s id broker = false

/-- The state of the leases, the record and the memories in which a poll comes round again. -/
inductive ForwardLoop (hint : String) : Prop
  | hint {broker} : LeadsAstray cfg network s id hint broker → broker ≠ hint → ForwardLoop hint
  | owner {record broker} : isActive cfg s hint = false → s.store.recordOf id = some record →
      record.brokerId ≠ hint → LeadsAstray cfg network s id record.brokerId broker →
      broker ≠ record.brokerId → ForwardLoop hint
  | both {record broker} : isActive cfg s hint = true → holdsJob s id hint = false →
      s.store.recordOf id = some record → record.brokerId ≠ hint →
      LeadsAstray cfg network s id record.brokerId broker →
      (broker = hint ∨ answering cfg network s id hint = some hint) → ForwardLoop hint

end Forward

section Hops

variable {cfg : Config} {network : Network} {s : Cluster} {id : String}

theorem isActive_of_answering {owner broker : String}
    (answers : answering cfg network s id owner = some broker) : isActive cfg s owner = true := by
  unfold answering at answers
  unfold isActive
  split at answers
  · rfl
  · cases answers

theorem claimForward_some {hint broker target : String}
    (hop : claimForward cfg network s id hint broker = some target) :
    ∃ record, s.store.recordOf id = some record ∧ record.brokerId ≠ broker ∧
      record.brokerId ≠ hint ∧ answering cfg network s id record.brokerId = some target := by
  unfold claimForward at hop
  split at hop
  next current store claimed =>
    split at hop
    · cases hop
    next other =>
      cases MemoryStore.claimIfOwner_effect claimed with
      | active stored _ unexpected => exact ⟨_, stored, other, unexpected, hop⟩
  · cases hop

theorem claimForward_eq {hint broker : String} {record : PersistentJobRecord}
    (stored : s.store.recordOf id = some record) (other : record.brokerId ≠ broker)
    (unexpected : record.brokerId ≠ hint) :
    claimForward cfg network s id hint broker = answering cfg network s id record.brokerId := by
  have claimed : s.store.claimIfOwner id hint broker = .ok (.active record.brokerId, s.store) := by
    unfold MemoryStore.recordOf at stored
    split at stored
    · simp at stored
    next key keyed => simp [MemoryStore.claimIfOwner, keyed, stored, other, unexpected]
  simp [claimForward, claimed, other]

/-- The ways a poll for a job of the named broker is forwarded. -/
inductive Forwarded (cfg : Config) (network : Network) (s : Cluster) (id hint broker target : String) :
    Prop
  | toHint : hint ≠ broker → isActive cfg s hint = true →
      answering cfg network s id hint = some target → Forwarded cfg network s id hint broker target
  | toOwner {record} : hint = broker ∨ isActive cfg s hint = false →
      s.store.recordOf id = some record → record.brokerId ≠ broker → record.brokerId ≠ hint →
      answering cfg network s id record.brokerId = some target →
      Forwarded cfg network s id hint broker target

theorem forwardTo_some {hint broker target : String} (named : slotFromJobId id = .ok hint)
    (hop : forwardTo cfg network s id broker = some target) :
    holdsJob s id broker = false ∧ Forwarded cfg network s id hint broker target := by
  unfold forwardTo at hop
  rw [named] at hop
  split at hop
  · cases hop
  next absent =>
    have lacks : holdsJob s id broker = false := by simpa using absent
    dsimp only at hop
    split at hop
    next own =>
      obtain ⟨record, stored, other, unexpected, answers⟩ := claimForward_some hop
      exact ⟨lacks, .toOwner (Or.inl own) stored other unexpected answers⟩
    next different =>
      split at hop
      next alive => exact ⟨lacks, .toHint different alive hop⟩
      next dead =>
        obtain ⟨record, stored, other, unexpected, answers⟩ := claimForward_some hop
        exact ⟨lacks, .toOwner (Or.inr (by simpa using dead)) stored other unexpected answers⟩

theorem forwardTo_of_hint {hint broker : String} (named : slotFromJobId id = .ok hint)
    (lacks : holdsJob s id broker = false) (other : hint ≠ broker)
    (alive : isActive cfg s hint = true) :
    forwardTo cfg network s id broker = answering cfg network s id hint := by
  simp [forwardTo, lacks, named, other, alive]

theorem forwardTo_of_owner {hint broker : String} {record : PersistentJobRecord}
    (named : slotFromJobId id = .ok hint) (lacks : holdsJob s id broker = false)
    (passed : hint = broker ∨ isActive cfg s hint = false)
    (stored : s.store.recordOf id = some record) (other : record.brokerId ≠ broker)
    (unexpected : record.brokerId ≠ hint) :
    forwardTo cfg network s id broker = answering cfg network s id record.brokerId := by
  have claims : claimForward cfg network s id hint broker = _ :=
    claimForward_eq stored other unexpected
  rcases passed with rfl | dead
  · simp [forwardTo, lacks, named, claims]
  · by_cases own : hint = broker
    · subst own
      simp [forwardTo, lacks, named, claims]
    · simp [forwardTo, lacks, named, own, dead, claims]

theorem hop_moves {hint broker target : String} (named : slotFromJobId id = .ok hint)
    (apart : ¬ ForwardLoop cfg network s id hint)
    (hop : forwardTo cfg network s id broker = some target) : target ≠ broker := by
  rintro rfl
  obtain ⟨lacks, forwarded⟩ := forwardTo_some named hop
  cases forwarded with
  | toHint other alive answers => exact apart (.hint ⟨answers, lacks⟩ other.symm)
  | toOwner passed stored other unexpected answers =>
      cases alive : isActive cfg s hint with
      | false => exact apart (.owner alive stored unexpected ⟨answers, lacks⟩ other.symm)
      | true =>
          have own : hint = target := by simpa [alive] using passed
          subst own
          exact apart (.both alive lacks stored unexpected ⟨answers, lacks⟩ (Or.inl rfl))

theorem second_hop {hint broker middle target : String} (named : slotFromJobId id = .ok hint)
    (apart : ¬ ForwardLoop cfg network s id hint)
    (first : forwardTo cfg network s id broker = some middle)
    (second : forwardTo cfg network s id middle = some target) :
    holdsJob s id target = true := by
  have moved := hop_moves named apart first
  obtain ⟨brokerLacks, firstHop⟩ := forwardTo_some named first
  obtain ⟨middleLacks, secondHop⟩ := forwardTo_some named second
  by_contra lacks
  have targetLacks : holdsJob s id target = false := by simpa using lacks
  cases firstHop with
  | toHint other alive answers =>
      have own : middle = hint := by
        by_contra elsewhere
        exact apart (.hint ⟨answers, middleLacks⟩ elsewhere)
      subst own
      cases secondHop with
      | toHint same _ _ => exact same rfl
      | toOwner _ stored _ unexpected reached =>
          exact apart (.both alive middleLacks stored unexpected ⟨reached, targetLacks⟩
            (Or.inr answers))
  | @toOwner record passed stored other unexpected answers =>
      cases alive : isActive cfg s hint with
      | false =>
          have own : middle = record.brokerId := by
            by_contra elsewhere
            exact apart (.owner alive stored unexpected ⟨answers, middleLacks⟩ elsewhere)
          cases secondHop with
          | toHint _ active _ => simp [alive] at active
          | toOwner _ stored' foreign _ _ =>
              rw [stored, Option.some.injEq] at stored'
              subst stored'
              exact foreign own.symm
      | true =>
          have own : hint = broker := by simpa [alive] using passed
          subst own
          cases secondHop with
          | toHint _ _ reached =>
              by_cases back : target = hint
              · subst back
                exact apart (.both alive brokerLacks stored unexpected ⟨answers, middleLacks⟩
                  (Or.inr reached))
              · exact apart (.hint ⟨reached, targetLacks⟩ back)
          | toOwner passed' _ _ _ _ =>
              have back : hint = middle := by simpa [alive] using passed'
              exact moved back.symm

theorem chain_of_apart {hint : String} (named : slotFromJobId id = .ok hint)
    (apart : ¬ ForwardLoop cfg network s id hint) (start : String) (fuel : Nat) :
    (chain (forwardTo cfg network s id) fuel start).Nodup ∧
      (chain (forwardTo cfg network s id) fuel start).length ≤ 3 := by
  cases fuel with
  | zero => simp [chain]
  | succ fuel =>
      cases first : forwardTo cfg network s id start with
      | none => simp [chain_of_none first]
      | some middle =>
          have moved := hop_moves named apart first
          rw [chain_of_some first]
          cases fuel with
          | zero => simp [chain]
          | succ fuel =>
              cases second : forwardTo cfg network s id middle with
              | none => simp [chain_of_none second, moved.symm]
              | some target =>
                  have holds := second_hop named apart first second
                  have onward := hop_moves named apart second
                  have stops : forwardTo cfg network s id target = none := by
                    simp [forwardTo, holds]
                  have notStart : target ≠ start := by
                    rintro rfl
                    have lacks := (forwardTo_some named first).1
                    simp [holds] at lacks
                  rw [chain_of_some second]
                  cases fuel with
                  | zero => simp [chain, moved.symm]
                  | succ fuel =>
                      simp [chain_of_none stops, moved.symm, notStart.symm, onward.symm]

theorem chain_of_self {next : String → Option String} {start : String}
    (stays : next start = some start) : ¬ (chain next 3 start).Nodup := by
  rw [chain_of_some stays, chain_of_some stays]
  simp

theorem chain_of_forwardLoop {hint : String} (named : slotFromJobId id = .ok hint)
    (loop : ForwardLoop cfg network s id hint) :
    ∃ start, ¬ (chain (forwardTo cfg network s id) 3 start).Nodup := by
  cases loop with
  | @hint broker astray other =>
      refine ⟨broker, chain_of_self ?_⟩
      rw [forwardTo_of_hint named astray.2 other.symm (isActive_of_answering astray.1)]
      exact astray.1
  | @owner record broker dead stored unexpected astray other =>
      refine ⟨broker, chain_of_self ?_⟩
      rw [forwardTo_of_owner named astray.2 (Or.inr dead) stored other.symm unexpected]
      exact astray.1
  | @both record broker alive lacks stored unexpected astray back =>
      have there : forwardTo cfg network s id hint = some broker := by
        rw [forwardTo_of_owner named lacks (Or.inl rfl) stored unexpected unexpected]
        exact astray.1
      refine ⟨hint, ?_⟩
      by_cases own : broker = hint
      · subst own
        exact chain_of_self there
      · have answers : answering cfg network s id hint = some hint := by simpa [own] using back
        have again : forwardTo cfg network s id broker = some hint := by
          rw [forwardTo_of_hint named astray.2 (Ne.symm own) alive]
          exact answers
        rw [chain_of_some there, chain_of_some again]
        simp [chain]

/-- A poll visits no broker twice, and is answered after at most two hops, exactly when no lease
leads it astray into a loop. -/
theorem poll_forwarding_acyclic_iff (cfg : Config) (network : Network) (s : Cluster) (id : String) :
    (∀ start fuel, (chain (forwardTo cfg network s id) fuel start).Nodup ∧
      (chain (forwardTo cfg network s id) fuel start).length ≤ 3) ↔
    ∀ hint, slotFromJobId id = .ok hint → ¬ ForwardLoop cfg network s id hint := by
  constructor
  · intro acyclic hint named loop
    obtain ⟨start, repeats⟩ := chain_of_forwardLoop named loop
    exact repeats (acyclic start 3).1
  · intro apart start fuel
    cases named : slotFromJobId id with
    | ok hint => exact chain_of_apart named (apart hint named) start fuel
    | error e =>
        have stops : forwardTo cfg network s id start = none := by simp [forwardTo, named]
        cases fuel with
        | zero => simp [chain]
        | succ fuel => simp [chain_of_none stops]

/-- Where a poll that runs alone stands after its first steps: it proxies along an active lease, or
it holds the job, restores it or has its answer. -/
inductive PollGoes (cfg : Config) (network : Network) (s : Cluster) (id : String) :
    Option String → PollPc → Prop
  | proxied {owner lease} : lookupOwnerLease cfg.divF64 s.store owner s.now = .active lease →
      PollGoes cfg network s id (network (pollUrl lease id)) (.proxy lease)
  | local (i : Nat) : PollGoes cfg network s id none (.connect i)
  | claimed (record : PersistentJobRecord) (source : Option Nat) :
      PollGoes cfg network s id none (.restore record source)
  | answered (outcome : Option PollOutcome) : PollGoes cfg network s id none (.finished outcome)

end Hops

section Steps

variable {cfg : Config} {network : Network} {s : Cluster} {p : Nat} {poll : Poll}

theorem polls_setPc (polled : s.polls[p]? = some poll) (pc : PollPc) :
    (s.setPc p poll pc).polls[p]? = some { poll with pc := pc } := by
  have bound := (List.getElem?_eq_some_iff.mp polled).1
  simp [setPc, bound]

theorem step_at (polled : s.polls[p]? = some poll) (pc : PollPc) :
    clusterStep cfg (s.setPc p poll pc) (.pollEvent p .step) =
      pollEvent cfg (s.setPc p poll pc) p { poll with pc := pc } .step := by
  rw [clusterStep, polls_setPc polled pc, Option.bind_some]

theorem replicate_succ_run (count : Nat) (state : Cluster) {next : Cluster}
    (taken : clusterStep cfg state (.pollEvent p .step) = some next) :
    run (clusterStep cfg) state (List.replicate (count + 1) (.pollEvent p .step)) =
      run (clusterStep cfg) next (List.replicate count (.pollEvent p .step)) := by
  simp [List.replicate_succ, run, taken]

variable (polled : s.polls[p]? = some poll)
  (alive : (s.brokers poll.broker).crashed = false)

include polled alive

theorem ownerLease_goes (owner : String) :
    ∃ next pc, run (clusterStep cfg) (s.setPc p poll (.ownerLease owner))
        (List.replicate 1 (.pollEvent p .step)) = some next ∧
      next.polls[p]? = some { poll with pc := pc } ∧
      PollGoes cfg network s poll.id (answering cfg network s poll.id owner) pc := by
  have bound := (List.getElem?_eq_some_iff.mp polled).1
  have taken : clusterStep cfg (s.setPc p poll (.ownerLease owner)) (.pollEvent p .step) =
      some (pollOwnerLease cfg (s.setPc p poll (.ownerLease owner)) p
        { poll with pc := .ownerLease owner } owner) := by
    rw [step_at polled]
    simp [pollEvent, alive]
  cases found : lookupOwnerLease cfg.divF64 s.store owner s.now with
  | active lease =>
      refine ⟨_, .proxy lease, replicate_succ_run 0 _ taken, ?_, ?_⟩
      · simp [pollOwnerLease, found, bound]
      · simpa [answering, found] using PollGoes.proxied found
  | missingOrExpired | unknown =>
      refine ⟨_, .finished (some (.queued poll.id)), replicate_succ_run 0 _ taken, ?_, ?_⟩
      · simp [pollOwnerLease, found, bound]
      · simpa [answering, found] using PollGoes.answered _

theorem claim_goes (hint : String) :
    ∃ count next pc, run (clusterStep cfg) (s.setPc p poll (.claim hint))
        (List.replicate count (.pollEvent p .step)) = some next ∧
      next.polls[p]? = some { poll with pc := pc } ∧
      PollGoes cfg network s poll.id (claimForward cfg network s poll.id hint poll.broker) pc := by
  have bound := (List.getElem?_eq_some_iff.mp polled).1
  have first : clusterStep cfg (s.setPc p poll (.claim hint)) (.pollEvent p .step) =
      some (pollClaim (s.setPc p poll (.claim hint)) p { poll with pc := .claim hint } hint) := by
    rw [step_at polled]
    simp [pollEvent, alive]
  cases claimed : s.store.claimIfOwner poll.id hint poll.broker with
  | error e =>
      refine ⟨1, _, .finished (some (.queued poll.id)), replicate_succ_run 0 _ first, ?_, ?_⟩
      · simp [pollClaim, claimed, bound]
      · simpa [claimForward, claimed] using PollGoes.answered _
  | ok answer =>
      obtain ⟨result, store⟩ := answer
      cases result with
      | claimed record =>
          refine ⟨1, _, .restore record (s.writer poll.id), replicate_succ_run 0 _ first, ?_, ?_⟩
          · simp [pollClaim, claimed, claimedPc, bound]
          · simpa [claimForward, claimed] using PollGoes.claimed _ _
      | notFound =>
          refine ⟨1, _, .finished (some (if hint = poll.broker then .notFound else .jobLost)),
            replicate_succ_run 0 _ first, ?_, ?_⟩
          · simp [pollClaim, claimed, claimedPc, bound]
          · simpa [claimForward, claimed] using PollGoes.answered _
      | active current =>
          by_cases own : current = poll.broker
          · refine ⟨1, _, .finished (some (.queued poll.id)), replicate_succ_run 0 _ first, ?_, ?_⟩
            · simp [pollClaim, claimed, claimedPc, own, bound]
            · simpa [claimForward, claimed, own] using PollGoes.answered _
          · obtain ⟨next, pc, finished, moved, goes⟩ := ownerLease_goes polled alive current
            have unchanged : store = s.store := by
              cases MemoryStore.claimIfOwner_effect claimed
              rfl
            have second : pollClaim (s.setPc p poll (.claim hint)) p
                { poll with pc := .claim hint } hint = s.setPc p poll (.ownerLease current) := by
              simp [pollClaim, claimed, claimedPc, own, unchanged, setPc]
            rw [second] at first
            refine ⟨2, next, pc, ?_, moved, ?_⟩
            · rw [replicate_succ_run 1 _ first]
              exact finished
            · simpa [claimForward, claimed, own] using goes

/-- A poll that runs alone is forwarded to the broker `forwardTo` names, and to nobody when it names
none. -/
theorem poll_goes (pc : poll.pc = .lookup false) (plain : poll.submitting = false) :
    ∃ count next pc, run (clusterStep cfg) s (List.replicate count (.pollEvent p .step)) =
        some next ∧
      next.polls[p]? = some { poll with pc := pc } ∧
      PollGoes cfg network s poll.id (forwardTo cfg network s poll.id poll.broker) pc := by
  have bound := (List.getElem?_eq_some_iff.mp polled).1
  have first : clusterStep cfg s (.pollEvent p .step) = some (pollLookup s p poll false) := by
    simp [clusterStep, polled, pollEvent, alive, pc]
  cases held : (s.brokers poll.broker).jobs.lookup poll.id with
  | some i =>
      refine ⟨1, _, .connect i, replicate_succ_run 0 _ first, ?_, ?_⟩
      · simp [pollLookup, held, bound]
      · simpa [forwardTo, holdsJob, held] using PollGoes.local i
  | none =>
      have lacks : holdsJob s poll.id poll.broker = false := by simp [holdsJob, held]
      cases named : slotFromJobId poll.id with
      | error e =>
          refine ⟨1, _, .finished (some .notFound), replicate_succ_run 0 _ first, ?_, ?_⟩
          · simp [pollLookup, held, pollMiss, plain, named, bound]
          · simpa [forwardTo, lacks, named] using PollGoes.answered _
      | ok hint =>
          obtain ⟨count, next, later, finished, moved, goes⟩ := claim_goes polled alive hint
          by_cases own : hint = poll.broker
          · have claims : pollLookup s p poll false = s.setPc p poll (.claim hint) := by
              simp [pollLookup, held, pollMiss, plain, named, own]
            rw [claims] at first
            refine ⟨count + 1, next, later, ?_, moved, ?_⟩
            · rw [replicate_succ_run count _ first]
              exact finished
            · simpa [forwardTo, lacks, named, own] using goes
          · have asks : pollLookup s p poll false = s.setPc p poll (.leaseOf hint) := by
              simp [pollLookup, held, pollMiss, plain, named, own]
            rw [asks] at first
            have second : clusterStep cfg (s.setPc p poll (.leaseOf hint)) (.pollEvent p .step) =
                some (pollLeaseOf cfg (s.setPc p poll (.leaseOf hint)) p
                  { poll with pc := .leaseOf hint } hint) := by
              rw [step_at polled]
              simp [pollEvent, alive]
            cases found : lookupOwnerLease cfg.divF64 s.store hint s.now with
            | active lease =>
                have proxies : pollLeaseOf cfg (s.setPc p poll (.leaseOf hint)) p
                    { poll with pc := .leaseOf hint } hint = s.setPc p poll (.proxy lease) := by
                  simp [pollLeaseOf, found, setPc]
                rw [proxies] at second
                refine ⟨2, s.setPc p poll (.proxy lease), .proxy lease, ?_, ?_, ?_⟩
                · rw [replicate_succ_run 1 _ first]
                  exact replicate_succ_run 0 _ second
                · exact polls_setPc polled _
                · simpa [forwardTo, lacks, named, own, isActive, answering, found] using
                    PollGoes.proxied found
            | missingOrExpired =>
                have dead : pollLeaseOf cfg (s.setPc p poll (.leaseOf hint)) p
                    { poll with pc := .leaseOf hint } hint = s.setPc p poll (.claim hint) := by
                  simp [pollLeaseOf, found, setPc]
                rw [dead] at second
                refine ⟨count + 2, next, later, ?_, moved, ?_⟩
                · rw [replicate_succ_run (count + 1) _ first, replicate_succ_run count _ second]
                  exact finished
                · simpa [forwardTo, lacks, named, own, isActive, found] using goes
            | unknown =>
                unfold lookupOwnerLease at found
                split at found
                · split at found <;> simp at found
                · simp at found

end Steps

namespace Scenario

/-- Both brokers hand a result out and delete nothing yet. The first one stalled without a
lease, so the second claimed its record and ran the job again. -/
def bothLoseJob : List ClusterAction :=
  persistOn brokerA config.router ++
    [.taskEvent 0 .step, .taskEvent 0 (.resolve (.failed "no match")), .taskEvent 0 .step,
      .broker brokerA (.poll jobId false)] ++ pollSteps 0 7 ++
    [.broker brokerB (.poll jobId false)] ++ pollSteps 1 5 ++
    [.taskEvent 1 .step, .taskEvent 1 (.resolve (.failed "no match")), .taskEvent 1 .step] ++
    pollSteps 1 7 ++ [.broker brokerA .upsertLease, .broker brokerB .upsertLease]

/-- Every broker answers at the address it has registered. -/
def network : Network := fun url =>
  ([brokerA, brokerB].map (·.brokerId)).find? fun broker =>
    url == config.internalPollBaseUrl broker ++ "/" ++ jobId

end Scenario

open Scenario in
theorem poll_forwarding_loops :
    ∃ s, run (clusterStep config) (Cluster.new 0) bothLoseJob = some s ∧
      ¬ (chain (forwardTo config network s jobId) 3 brokerA.brokerId).Nodup := by
  have ran : (run (clusterStep config) (Cluster.new 0) bothLoseJob).any
      (fun s => chain (forwardTo config network s jobId) 3 brokerA.brokerId ==
        [brokerA.brokerId, brokerB.brokerId, brokerA.brokerId]) = true := by decide +kernel
  obtain ⟨s, finished, loops⟩ := (Option.any_eq_true _ _).mp ran
  refine ⟨s, finished, ?_⟩
  rw [eq_of_beq loops]
  simp

end BitsBroker
