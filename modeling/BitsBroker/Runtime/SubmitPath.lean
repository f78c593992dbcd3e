import BitsBroker.Runtime.Removal

/-!
Who gets a result. The poll that a submission makes on its own job stays on the broker and leaves a
deliverable result where it is; every other poll that takes a result out of its slot hands it to its
caller. So the submission never has a deliverable result: it is in its slot or with a reconnecting
poll, unless the sweeper, which waits for a reconnecting client no longer than its deadline, drops
the instance from the map, and the result with it.
-/

namespace BitsBroker

open RequestId Cluster Table Transition

def PollOutcome.readyResult : PollOutcome → Option JobResult
  | .ready result => some result
  | _ => none

/-- The result that a poll has taken. -/
def PollPc.result : PollPc → Option JobResult
  | .remove _ result | .uncount _ result | .cleanup _ result => some result
  | .leave _ outcome | .finished outcome => outcome.bind PollOutcome.readyResult
  | _ => none

/-- Where the poll of a submission may be. -/
def PollPc.onSubmit : PollPc → Prop
  | .lookup _ | .connect _ | .check _ | .wait _ => True
  | .remove _ result | .uncount _ result | .cleanup _ result => result.isDeliverable = false
  | .leave _ outcome | .finished outcome =>
      ∀ result, outcome = some (.ready result) → result.isDeliverable = false
  | _ => False

section SubmitPath

variable {cfg : Config} {s next : Cluster} {action : ClusterAction}

theorem takesFrom_check {poll : Poll} {i j : Nat} {inst : Instance} {result : JobResult}
    (pc : poll.pc = .check j) (takes : takesFrom s poll = some i)
    (present : s.instances[i]? = some inst) (stored : inst.result = some result)
    (submitting : poll.submitting = true) : result.isDeliverable = false := by
  unfold takesFrom at takes
  rw [pc] at takes
  dsimp only at takes
  split at takes
  next holds =>
    obtain rfl : j = i := Option.some.inj takes
    simpa [present, stored, submitting] using holds
  next => cases takes

theorem pollMove_onSubmit {p : Nat} {poll later : Poll} {event : PollEvent}
    (submitting : poll.submitting = true) (here : poll.pc.onSubmit)
    (move : PollMove cfg s p poll event next) (present : next.polls[p]? = some later) :
    later.pc.onSubmit := by
  cases move with
  | found _ _ | connected _ _ | parked _ _ _ =>
      rw [pc_of_set present]
      trivial
  | missed _ _ =>
      rw [pc_of_set present]
      unfold pollMiss
      rw [if_pos submitting]
      rintro result ⟨⟩
  | took pc found stored takes =>
      rw [pc_of_set present]
      rcases pc with check | recheck
      · exact takesFrom_check check takes found stored submitting
      · rw [recheck] at here
        exact here.elim
  | pending _ _ =>
      rw [pc_of_set present]
      rintro result ⟨⟩
  | woken _ =>
      rw [pc_of_set present, if_pos submitting]
      trivial
  | disconnected _ =>
      rw [pc_of_set present]
      rintro result ⟨⟩
  | removed pc _ | alreadyRemoved pc _ | uncounted pc =>
      rw [pc_of_set present]
      rw [pc] at here
      exact here
  | scheduled pc _ _ | unscheduled pc _ _ =>
      rw [pc_of_set present]
      rw [pc] at here
      rintro result ⟨⟩
      exact here
  | left pc _ =>
      rw [pc_of_set present]
      rw [pc] at here
      exact here
  | leaseActive pc _ =>
      rcases pc with pc | pc
      all_goals
        rw [pc] at here
        exact here.elim
  | gaveUp remote _ =>
      cases pc : poll.pc with
      | leaseOf _ | claim _ | restore _ _ | ownerLease _ | proxy _ | probe =>
          rw [pc] at here
          exact here.elim
      | _ =>
          rw [pc] at remote
          cases remote
  | leaseDead pc _ | claimed pc _ | retried pc | counted pc | duplicate pc _ | restored pc _
  | probing pc | probed pc _ _ =>
      rw [pc] at here
      exact here.elim

def SubmitsLocal (s : Cluster) : Prop :=
  ∀ (p : Nat) (poll : Poll), s.polls[p]? = some poll → poll.submitting = true → poll.pc.onSubmit

theorem SubmitsLocal.step (stays : SubmitsLocal s) (move : ClusterMove cfg s action next) :
    SubmitsLocal next := by
  intro p poll present submitting
  cases clusterMove_polls move present with
  | same kept => exact stays p poll kept submitting
  | begun _ => trivial
  | @moved before event pc known step _ =>
      have submits : before.submitting = true := submitting
      exact pollMove_onSubmit submits (stays p before known submits) step present

theorem pollMove_keeps_result {p : Nat} {poll later : Poll} {event : PollEvent}
    {result : JobResult} (has : poll.pc.result = some result)
    (move : PollMove cfg s p poll event next) (present : next.polls[p]? = some later) :
    later.pc.result = some result := by
  cases move with
  | left pc _ =>
      rw [pc] at has
      rw [pc_of_set present]
      exact has
  | removed pc _ | alreadyRemoved pc _ | uncounted pc | scheduled pc _ _ | unscheduled pc _ _ =>
      rw [pc] at has
      rw [pc_of_set present]
      exact has
  | gaveUp remote _ =>
      cases pc : poll.pc with
      | leaseOf _ | claim _ | restore _ _ | ownerLease _ | proxy _ | probe =>
          rw [pc] at has
          cases has
      | _ =>
          rw [pc] at remote
          cases remote
  | took pc _ _ _ | leaseActive pc _ =>
      rcases pc with pc | pc
      all_goals
        rw [pc] at has
        cases has
  | pending pc _ =>
      rcases pc with pc | pc | pc
      all_goals
        rw [pc] at has
        cases has
  | found pc _ | missed pc _ | connected pc _ | parked pc _ _ | woken pc | disconnected pc
  | leaseDead pc _ | claimed pc _ | retried pc | counted pc | duplicate pc _ | restored pc _
  | probing pc | probed pc _ _ =>
      rw [pc] at has
      cases has

/-- A result is in the slot of its instance, or a poll that is not of the submission has it. -/
inductive ResultKept (s : Cluster) (i : Nat) (result : JobResult) : Prop
  | slot {inst : Instance} : s.instances[i]? = some inst → inst.result = some result →
      ResultKept s i result
  | poll {p : Nat} {poll : Poll} : s.polls[p]? = some poll → poll.submitting = false →
      poll.pc.result = some result → ResultKept s i result

theorem ResultKept.of_set {i j : Nat} {inst value : Instance} {result : JobResult}
    (known : s.instances[j]? = some value) (present : s.instances[i]? = some inst)
    (stored : inst.result = some result) {new : Instance}
    (grown : next.instances = s.instances.set j new) (same : new.result = value.result) :
    ResultKept next i result := by
  by_cases here : j = i
  · subst here
    obtain rfl : value = inst := Option.some.inj (known.symm.trans present)
    have there : next.instances[j]? = some new := by
      rw [grown]
      exact List.getElem?_set_self (List.getElem?_eq_some_iff.mp known).1
    exact .slot there (same.trans stored)
  · have there : next.instances[i]? = some inst := by
      rw [grown, List.getElem?_set_ne here]
      exact present
    exact .slot there stored

theorem ResultKept.slot_poll {p i : Nat} {poll : Poll} {event : PollEvent} {inst : Instance}
    {result : JobResult} (stays : SubmitsLocal s) (polled : s.polls[p]? = some poll)
    (present : s.instances[i]? = some inst) (stored : inst.result = some result)
    (deliverable : result.isDeliverable = true) (move : PollMove cfg s p poll event next) :
    ResultKept next i result := by
  cases move with
  | connected _ known | left _ known => exact ResultKept.of_set known present stored rfl rfl
  | @took j other taken pc known held takes =>
      by_cases here : j = i
      · subst here
        obtain rfl : other = inst := Option.some.inj (known.symm.trans present)
        obtain rfl : taken = result := Option.some.inj (held.symm.trans stored)
        have direct : poll.submitting = false := by
          by_contra submits
          have submitting : poll.submitting = true := eq_true_of_ne_false submits
          rcases pc with check | recheck
          · have plain := takesFrom_check check takes known held submitting
            rw [deliverable] at plain
            cases plain
          · have stray := stays p poll polled submitting
            rw [recheck] at stray
            exact stray
        have moved : (pollTake s p poll j other taken).polls[p]? =
            some { poll with pc := .remove j taken } :=
          List.getElem?_set_self (List.getElem?_eq_some_iff.mp polled).1
        exact .poll moved direct rfl
      · have kept : (s.instances.set j { other with result := none })[i]? = s.instances[i]? :=
          List.getElem?_set_ne here
        exact .slot (kept.trans present) stored
  | restored _ _ =>
      have bound := (List.getElem?_eq_some_iff.mp present).1
      exact .slot ((List.getElem?_append_left bound).trans present) stored
  | _ => exact .slot present stored

theorem ResultKept.slot_step {i : Nat} {inst : Instance} {result : JobResult} (stays : SubmitsLocal s)
    (done : ResultsDone s) (present : s.instances[i]? = some inst)
    (stored : inst.result = some result) (deliverable : result.isDeliverable = true)
    (move : ClusterMove cfg s action next) : ResultKept next i result := by
  cases move with
  | advanced | duplicate _ _ _ => exact .slot present stored
  | broker _ move =>
      have there : next.instances[i]? = some inst := by
        rw [brokerMove_instances move]
        exact present
      exact .slot there stored
  | accepted _ _ _ =>
      have bound := (List.getElem?_eq_some_iff.mp present).1
      exact .slot ((List.getElem?_append_left bound).trans present) stored
  | poll polled move => exact ResultKept.slot_poll stays polled present stored deliverable move
  | @task j value event later known move =>
      cases move with
      | stored task =>
          have apart : j ≠ i := by
            rintro rfl
            have finished := done j inst result present stored
            obtain rfl := Option.some.inj (known.symm.trans present)
            rw [task] at finished
            cases finished
          exact .slot ((List.getElem?_set_ne apart).trans present) stored
      | started _ | elapsed _ _ _ | skipped _ | marked _ | resolved _ | upserted _ _
      | upsertFailed _ | persisted _ => exact ResultKept.of_set known present stored rfl rfl

theorem ResultKept.poll_step {i p : Nat} {poll : Poll} {result : JobResult}
    (polled : s.polls[p]? = some poll) (direct : poll.submitting = false)
    (has : poll.pc.result = some result) (move : ClusterMove cfg s action next) :
    ResultKept next i result := by
  have bound := (List.getElem?_eq_some_iff.mp polled).1
  have grown := clusterMove_polls_length move
  obtain ⟨later, present⟩ : ∃ later, next.polls[p]? = some later :=
    ⟨_, List.getElem?_eq_getElem (by omega)⟩
  cases clusterMove_polls move present with
  | same kept =>
      obtain rfl := Option.some.inj (polled.symm.trans kept)
      exact .poll present direct has
  | begun last => omega
  | @moved before event pc known step _ =>
      obtain rfl := Option.some.inj (polled.symm.trans known)
      exact .poll present direct (pollMove_keeps_result has step present)

theorem ResultKept.step {i : Nat} {result : JobResult} (kept : ResultKept s i result) (stays : SubmitsLocal s)
    (done : ResultsDone s) (deliverable : result.isDeliverable = true)
    (move : ClusterMove cfg s action next) : ResultKept next i result := by
  cases kept with
  | slot present stored => exact ResultKept.slot_step stays done present stored deliverable move
  | poll polled direct has => exact ResultKept.poll_step polled direct has move

end SubmitPath

structure SlotsWf (s : Cluster) : Prop where
  stays : SubmitsLocal s
  done : ResultsDone s

theorem SlotsWf.of_path {cfg : Config} {now : Nat} {actions : List ClusterAction} {s : Cluster}
    (path : Path (clusterStep cfg) Always (Cluster.new now) actions s) : SlotsWf s := by
  induction path with
  | nil =>
      constructor
      · intro p poll polled
        cases polled
      · intro i inst result present
        cases present
  | snoc _ _ taken ih =>
      have move := clusterStep_move taken
      exact ⟨ih.stays.step move, ih.done.step move⟩

/-- A deliverable result stays in the slot of its instance until a poll that is not the one of a
submission takes it, and that poll then has it. The map lets go of the instance only to the sweeper,
when no client is present, or to a poll of its identifier that has a result. The poll of a
submission never has a deliverable result, and it neither asks another broker nor claims a record.
-/
theorem deliverable_left_to_reconnect {cfg : Config} {now : Nat}
    {before actions : List ClusterAction} {s last : Cluster} {i : Nat} {inst : Instance}
    {result : JobResult} (reached : Path (clusterStep cfg) Always (Cluster.new now) before s)
    (present : s.instances[i]? = some inst) (stored : inst.result = some result)
    (deliverable : result.isDeliverable = true)
    (path : Path (clusterStep cfg) Always s actions last) :
    ((∃ later, last.instances[i]? = some later ∧ later.result = some result) ∨
      ∃ poll ∈ last.polls, poll.submitting = false ∧ poll.pc.result = some result) ∧
    (∀ (action : ClusterAction) (next : Cluster) (b id : String),
      clusterStep cfg last action = some next → (last.brokers b).jobs.lookup id = some i →
      (next.brokers b).jobs.lookup id ≠ some i → SweptFrom last action b i ∨
        ∃ poll ∈ last.polls, poll.broker = b ∧ poll.id = id ∧ poll.pc.result.isSome = true) ∧
    ∀ poll ∈ last.polls, poll.submitting = true → poll.pc.isRemote = false ∧
      poll.pc.carrying = none ∧ ∀ taken, poll.pc.result = some taken →
        taken.isDeliverable = false := by
  have wf := SlotsWf.of_path reached
  have kept : SlotsWf last ∧ ResultKept last i result := by
    induction path with
    | nil => exact ⟨wf, .slot present stored⟩
    | snoc _ _ taken ih =>
        have move := clusterStep_move taken
        exact ⟨⟨ih.1.stays.step move, ih.1.done.step move⟩,
          ih.2.step ih.1.stays ih.1.done deliverable move⟩
  refine ⟨?_, ?_, ?_⟩
  · cases kept.2 with
    | slot there same => exact Or.inl ⟨_, there, same⟩
    | poll polled direct has => exact Or.inr ⟨_, List.mem_of_getElem? polled, direct, has⟩
  · intro action next b id taken held gone
    rcases removal_cases (clusterStep_move taken) held gone with
      ⟨p, poll, k, other, _, polled, sameBroker, sameId, pc⟩ | swept
    · refine Or.inr ⟨poll, List.mem_of_getElem? polled, sameBroker, sameId, ?_⟩
      rw [pc]
      rfl
    · exact Or.inl swept
  · intro poll member submitting
    obtain ⟨p, polled⟩ := List.getElem?_of_mem member
    have here := kept.1.stays p poll polled submitting
    cases pc : poll.pc with
    | lookup _ | connect _ | check _ | wait _ => exact ⟨rfl, rfl, by rintro taken ⟨⟩⟩
    | remove _ other | uncount _ other | cleanup _ other =>
        rw [pc] at here
        refine ⟨rfl, rfl, ?_⟩
        rintro taken ⟨⟩
        exact here
    | leave _ outcome | finished outcome =>
        rw [pc] at here
        refine ⟨rfl, rfl, ?_⟩
        intro taken has
        cases outcome with
        | none => cases has
        | some answer => cases answer with
          | ready other =>
              cases has
              exact here taken rfl
          | _ => cases has
    | _ =>
        rw [pc] at here
        exact here.elim

namespace Scenario

def succeed : List ClusterAction :=
  [.broker brokerA (.submit config.router job []), .submitInsert 0, .taskEvent 0 .step,
    .taskEvent 0 (.resolve (.success "application/x-grib" 3 [])), .taskEvent 0 .step]

/-- The submission asks, and then the client comes back. -/
def askTwice : List ClusterAction :=
  [.broker brokerA (.poll jobId true)] ++ pollSteps 0 4 ++
    [.broker brokerA (.poll jobId false)] ++ pollSteps 1 3

def deliverableStored (s : Cluster) : Bool :=
  s.instances[0]?.any fun inst => inst.result.any JobResult.isDeliverable

def slotEmptied (s : Cluster) : Bool :=
  s.instances[0]?.any (fun inst => inst.result.isNone) && s.polls.length == 2

end Scenario

open Scenario in
theorem deliverable_left_to_reconnect_twice : ∃ s last inst result,
    Path (clusterStep config) Always (Cluster.new 0) succeed s ∧ s.instances[0]? = some inst ∧
    inst.result = some result ∧ Path (clusterStep config) Always s askTwice last ∧
    last.polls.length = 2 ∧
    ∃ poll ∈ last.polls, poll.submitting = false ∧ poll.pc.result = some result := by
  have ran : (run (clusterStep config) (Cluster.new 0) succeed).any (fun s =>
      deliverableStored s && (run (clusterStep config) s askTwice).any slotEmptied) = true := by
    decide +kernel
  obtain ⟨s, finished, checked⟩ := (Option.any_eq_true _ _).mp ran
  obtain ⟨holds, ran⟩ := Bool.and_eq_true_iff.mp checked
  obtain ⟨last, asked, ends⟩ := (Option.any_eq_true _ _).mp ran
  obtain ⟨emptied, both⟩ := Bool.and_eq_true_iff.mp ends
  obtain ⟨inst, present, filled⟩ := (Option.any_eq_true _ _).mp holds
  obtain ⟨result, stored, deliverable⟩ := (Option.any_eq_true _ _).mp filled
  obtain ⟨later, there, empty⟩ := (Option.any_eq_true _ _).mp emptied
  have reached := Path.of_run succeed (Cluster.new 0) finished
  have path := Path.of_run askTwice s asked
  refine ⟨s, last, inst, result, reached, present, stored, path, beq_iff_eq.mp both, ?_⟩
  rcases (deliverable_left_to_reconnect reached present stored deliverable path).1 with
    ⟨other, found, kept⟩ | taken
  · obtain rfl : later = other := Option.some.inj (there.symm.trans found)
    rw [kept] at empty
    cases empty
  · exact taken

end BitsBroker
