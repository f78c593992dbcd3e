import BitsBroker.Dispatcher.Queue.CostWeighted
import BitsBroker.Lib.Table

/-!
The order in which the cost-weighted queue hands out its jobs. A log of the worker is kept
beside the queue: which calls asked for a job, in the order in which the worker received
their commands, and what became of each of them in the order in which it turned to them. The
calls are answered in the order of arrival, each by the least job of the heap, unless the call
is gone, which leaves the heap as it was.
-/

namespace BitsBroker

open Collect Transition

namespace CostWeightedQueue

abbrev Queue : Type := WeightedQueue Entry Worker

abbrev Action : Type := WeightedQueue.Action

/-- `arrived` are the calls whose commands the worker has received. `answered` are those it has
turned to, each with the entry it was sent. -/
structure Log where
  queue : Queue
  arrived : List Nat
  answered : List (Nat × Option Entry)

def Log.new : Log where
  queue := WeightedQueue.new discipline
  arrived := []
  answered := []

def arrivals (queue : Queue) : Action → List Nat
  | .work => match queue.worker.map Worker.pc, queue.commands with
      | some .receiving, .dequeue reply :: _ => [reply]
      | _, _ => []
  | _ => []

def answers (queue : Queue) : Action → List (Nat × Option Entry)
  | .work => match queue.worker with
      | some ⟨heap, reply :: _, .matching⟩ => match popLeast Entry.before heap with
          | some (entry, _) =>
              [(reply, if (queue.reply reply entry.job).isSome then some entry else none)]
          | none => []
      | _ => []
  | _ => []

def logStep (log : Log) (action : Action) : Option Log :=
  (WeightedQueue.step discipline log.queue action).map fun next =>
    { queue := next
      arrived := log.arrived ++ arrivals log.queue action
      answered := log.answered ++ answers log.queue action }

def costOf (job : Job) : Nat := ((job.metadata.field "cost").asU64).getD 0

def reply? : WorkerCmd Entry → Option Nat
  | .enqueue _ => none
  | .dequeue reply => some reply

/-- The entries with the worker and on their way to it. -/
def entries (queue : Queue) : List Entry :=
  (queue.worker.elim [] Worker.heap) ++ queue.commands.filterMap WorkerCmd.entry?

/-- The calls the worker has not turned to, in the order in which it will. -/
def waiting (queue : Queue) : List Nat :=
  (queue.worker.elim [] Worker.waiters) ++ queue.commands.filterMap reply?

/-- The call has not been answered, and may be gone. -/
def Unanswered (queue : Queue) (call : Nat) : Prop :=
  queue.dequeues[call]? = some (.waiting none) ∨
    ∃ reply, queue.dequeues[call]? = some (.dropped reply)

structure Wf (queue : Queue) : Prop where
  numbered (job : Job) (cost seq : Nat) : .numbered job cost seq ∈ queue.enqueues →
    cost = costOf job
  priced (entry : Entry) : entry ∈ entries queue → entry.cost = costOf entry.job
  matched (worker : Worker) : queue.worker = some worker → worker.pc = .receiving →
    worker.waiters = [] ∨ worker.heap = []
  listed (call : Nat) : call ∈ waiting queue → Unanswered queue call
  distinct : (waiting queue).Nodup
  left : queue.worker = none → queue.commands = [] ∧ queue.tx = false
  sender : queue.tx = false → queue.closing = true
  dead : queue.dead = true → queue.closing = true
  empty (call : Nat) : queue.dequeues[call]? = some (.returned none) → queue.closing = true

/-- What the worker does next. -/
inductive Worked (queue : Queue) (worker : Worker) : Queue → Prop
  | received (cmd : WorkerCmd Entry) (rest : List (WorkerCmd Entry)) :
      worker.pc = .receiving → queue.commands = cmd :: rest →
      Worked queue worker { queue with commands := rest, worker := some (handleCmd worker cmd) }
  | left : worker.pc = .receiving → queue.commands = [] → queue.tx = false →
      Worked queue worker { queue with worker := none }
  | served (reply : Nat) (waiters : List Nat) (entry : Entry) (heap : List Entry) :
      worker.pc = .matching → worker.waiters = reply :: waiters →
      popLeast Entry.before worker.heap = some (entry, heap) →
      queue.dequeues[reply]? = some (.waiting none) →
      Worked queue worker { queue.moveTo reply (.waiting (some entry.job)) with
        worker := some { worker with heap, waiters } }
  | gone (reply : Nat) (waiters : List Nat) (entry : Entry) (heap : List Entry) :
      worker.pc = .matching → worker.waiters = reply :: waiters →
      popLeast Entry.before worker.heap = some (entry, heap) →
      queue.dequeues[reply]? ≠ some (.waiting none) →
      Worked queue worker { queue with worker := some { worker with
        heap := ⟨costOf entry.job, entry.seq, entry.job⟩ :: heap, waiters } }
  | finished : worker.pc = .matching → worker.waiters = [] ∨ worker.heap = [] →
      Worked queue worker { queue with worker := some { worker with pc := .receiving } }

theorem reply_eq_none {queue : Queue} {call : Nat} {job : Job} :
    queue.reply call job = none ↔ queue.dequeues[call]? ≠ some (.waiting none) := by
  unfold WeightedQueue.reply
  split
  next present => simp [present]
  next other =>
    simp only [ne_eq, true_iff]
    exact other

theorem work_worked {queue next : Queue} {worker : Worker}
    (worked : work queue worker = some next) : Worked queue worker next := by
  unfold work at worked
  split at worked
  next pc =>
    split at worked
    next cmd rest commands =>
      obtain rfl := Option.some.inj worked
      exact .received cmd rest pc commands
    next empty =>
      split at worked
      · simp at worked
      next closed =>
        obtain rfl := Option.some.inj worked
        exact .left pc empty (by simpa using closed)
  next pc =>
    obtain rfl := Option.some.inj worked
    unfold matchOne
    split
    next reply waiters entry heap isWaiter popped =>
      cases sent : queue.reply reply entry.job with
      | none => exact .gone reply waiters entry heap pc isWaiter popped (reply_eq_none.mp sent)
      | some after =>
          have present : queue.dequeues[reply]? = some (.waiting none) := by
            by_contra other
            simp [reply_eq_none.mpr other] at sent
          have moved : after = queue.moveTo reply (.waiting (some entry.job)) := by
            simpa [WeightedQueue.reply, present] using sent.symm
          subst moved
          exact .served reply waiters entry heap pc isWaiter popped present
    next other =>
      refine .finished pc ?_
      cases waiters : worker.waiters with
      | nil => exact Or.inl rfl
      | cons reply rest =>
          right
          cases popped : popLeast Entry.before worker.heap with
          | none => exact popLeast_eq_none.mp popped
          | some least => exact absurd popped (other reply rest least.1 least.2 waiters)

section Calls

variable {queue next : Queue} {call : Nat}

theorem Wf.closing_of_refused (wf : Wf queue) (refused : queue.accepts = false) :
    queue.closing = true := by
  simp only [WeightedQueue.accepts, Bool.and_eq_false_iff] at refused
  rcases refused with noSender | noWorker
  · exact wf.sender noSender
  · exact wf.sender (wf.left (by simpa using noWorker)).2

theorem Unanswered.moveTo {other : Nat} {place : DequeueCall} (open_ : Unanswered queue other)
    (allowed : other = call → place = .waiting none ∨ ∃ reply, place = .dropped reply) :
    Unanswered (queue.moveTo call place) other := by
  unfold Unanswered WeightedQueue.moveTo
  by_cases same : other = call
  · subst same
    have inside : other < queue.dequeues.length := by
      rcases open_ with found | ⟨_, found⟩
      · exact (List.getElem?_eq_some_iff.mp found).1
      · exact (List.getElem?_eq_some_iff.mp found).1
    rcases allowed rfl with rfl | ⟨reply, rfl⟩
    · exact Or.inl (List.getElem?_set_self inside)
    · exact Or.inr ⟨reply, List.getElem?_set_self inside⟩
  · simp only [List.getElem?_set_ne (Ne.symm same)]
    exact open_

theorem empty_moveTo {place : DequeueCall} (closed : place = .returned none → queue.closing = true)
    (wf : Wf queue) (other : Nat)
    (found : (queue.moveTo call place).dequeues[other]? = some (.returned none)) :
    queue.closing = true := by
  rcases Table.getElem?_of_set found with ⟨_, same⟩ | ⟨_, old⟩
  · exact closed same.symm
  · exact wf.empty other old

/-- A call that is not waiting moves on. -/
theorem Wf.moveTo {old place : DequeueCall} (wf : Wf queue)
    (present : queue.dequeues[call]? = some old)
    (answered : old ≠ .waiting none ∧ (∀ reply, old ≠ .dropped reply) ∨
      place = .waiting none ∨ ∃ reply, place = .dropped reply)
    (closed : place = .returned none → queue.closing = true) : Wf (queue.moveTo call place) where
  numbered := wf.numbered
  priced := wf.priced
  matched := wf.matched
  listed other inside := by
    refine (wf.listed other inside).moveTo ?_
    rintro rfl
    rcases answered with ⟨unread, kept⟩ | allowed
    · rcases wf.listed other inside with found | ⟨reply, found⟩
      · exact absurd (Option.some.inj (present.symm.trans found)) unread
      · exact absurd (Option.some.inj (present.symm.trans found)) (kept reply)
    · exact allowed
  distinct := wf.distinct
  left := wf.left
  sender := wf.sender
  dead := wf.dead
  empty := empty_moveTo closed wf

theorem Wf.died (wf : Wf queue) (closing : queue.closing = true) : Wf { queue with dead := true } :=
  ⟨wf.numbered, wf.priced, wf.matched, wf.listed, wf.distinct, wf.left, wf.sender,
    fun _ => closing, wf.empty⟩

theorem Wf.poll (wf : Wf queue) (taken : queue.poll call = some next) : Wf next := by
  unfold WeightedQueue.poll at taken
  split at taken
  next present =>
    split at taken
    next dead =>
      obtain rfl := Option.some.inj taken
      exact wf.moveTo present (Or.inl (by simp)) fun _ => wf.dead dead
    next =>
      obtain rfl := Option.some.inj taken
      exact wf.moveTo present (Or.inl (by simp)) (by simp)
  next present =>
    split at taken
    next accepted =>
      obtain rfl := Option.some.inj taken
      have moved : Wf (queue.moveTo call (.waiting none)) :=
        wf.moveTo present (Or.inl (by simp)) (by simp)
      have fresh : call ∉ waiting queue := by
        intro inside
        rcases wf.listed call inside with found | ⟨reply, found⟩
        · simp [present] at found
        · simp [present] at found
      have grown : waiting { queue.moveTo call (.waiting none) with
          commands := queue.commands ++ [.dequeue call] } = waiting queue ++ [call] := by
        simp [waiting, WeightedQueue.moveTo, List.filterMap_append, reply?]
      have inside := (List.getElem?_eq_some_iff.mp present).1
      refine ⟨moved.numbered, ?_, moved.matched, ?_, ?_, ?_, moved.sender, moved.dead, moved.empty⟩
      · intro entry found
        refine wf.priced entry ?_
        simpa [entries, WeightedQueue.moveTo, List.filterMap_append, WorkerCmd.entry?] using found
      · intro other found
        rw [grown, List.mem_append, List.mem_singleton] at found
        rcases found with old | rfl
        · exact moved.listed other old
        · exact Or.inl (List.getElem?_set_self inside)
      · rw [grown]
        rw [← List.concat_eq_append]
        exact wf.distinct.concat fresh
      · intro missing
        have running : queue.worker.isSome = true := by
          simp only [WeightedQueue.accepts, Bool.and_eq_true] at accepted
          exact accepted.2
        simp only [WeightedQueue.moveTo] at missing
        simp [missing] at running
    next refused =>
      obtain rfl := Option.some.inj taken
      have closing := wf.closing_of_refused (by simpa using refused)
      exact (wf.moveTo present (Or.inl (by simp)) fun _ => closing).died closing
  next job present =>
    obtain rfl := Option.some.inj taken
    exact wf.moveTo present (Or.inl (by simp)) (by simp)
  next present =>
    split at taken
    next stopped =>
      obtain rfl := Option.some.inj taken
      have gone : queue.worker = none := by simpa using stopped
      have closing := wf.sender (wf.left gone).2
      have nobody : waiting queue = [] := by simp [waiting, gone, (wf.left gone).1]
      have moved : Wf (queue.moveTo call (.returned none)) :=
        ⟨wf.numbered, wf.priced, wf.matched,
          fun other inside => absurd (show other ∈ waiting queue from inside) (by simp [nobody]),
          wf.distinct, wf.left, wf.sender, wf.dead, empty_moveTo (fun _ => closing) wf⟩
      exact moved.died closing
    next => simp at taken
  next => simp at taken

theorem Wf.dropCall (wf : Wf queue) (taken : queue.dropCall call = some next) : Wf next := by
  unfold WeightedQueue.dropCall at taken
  split at taken
  next present =>
    obtain rfl := Option.some.inj taken
    exact wf.moveTo present (Or.inr (Or.inr ⟨none, rfl⟩)) (by simp)
  next reply present =>
    obtain rfl := Option.some.inj taken
    exact wf.moveTo present (Or.inr (Or.inr ⟨reply, rfl⟩)) (by simp)
  next => simp at taken

theorem Wf.enqueue (wf : Wf queue) (job : Job) :
    Wf (WeightedQueue.enqueue discipline queue job) := by
  refine ⟨?_, wf.priced, wf.matched, wf.listed, wf.distinct, wf.left, wf.sender, wf.dead, wf.empty⟩
  intro other cost seq inside
  rcases List.mem_append.mp inside with old | new
  · exact wf.numbered other cost seq old
  · obtain ⟨rfl, rfl, rfl⟩ := EnqueueCall.numbered.inj (List.mem_singleton.mp new)
    rfl

theorem numbered_set {calls : List EnqueueCall} {place : EnqueueCall}
    (priced : ∀ job cost seq, .numbered job cost seq ∈ calls → cost = costOf job)
    (moved : ∀ job cost seq, place ≠ .numbered job cost seq) (job : Job) (cost seq : Nat)
    (inside : .numbered job cost seq ∈ calls.set call place) : cost = costOf job := by
  rcases List.mem_or_eq_of_mem_set inside with old | rfl
  · exact priced job cost seq old
  · exact absurd rfl (moved job cost seq)

theorem Wf.send (wf : Wf queue) (taken : WeightedQueue.send discipline queue call = some next) :
    Wf next := by
  unfold WeightedQueue.send at taken
  split at taken
  next job cost seq present =>
    split at taken
    next accepted =>
      obtain rfl := Option.some.inj taken
      have isCost := wf.numbered job cost seq (List.mem_of_getElem? present)
      have same : waiting { queue with
          commands := queue.commands ++ [.enqueue (discipline.entry cost seq queue.now job)]
          enqueues := queue.enqueues.set call (.sent job) } = waiting queue := by
        simp [waiting, List.filterMap_append, reply?]
      refine ⟨numbered_set wf.numbered (by simp), ?_, wf.matched, ?_, same ▸ wf.distinct, ?_,
        wf.sender, wf.dead, wf.empty⟩
      · intro entry found
        simp only [entries, List.filterMap_append, List.mem_append] at found
        rcases found with held | sent | new
        · exact wf.priced entry (List.mem_append_left _ held)
        · exact wf.priced entry (List.mem_append_right _ sent)
        · obtain rfl : entry = discipline.entry cost seq queue.now job := by
            simpa [WorkerCmd.entry?] using new
          exact isCost
      · intro other inside
        rw [same] at inside
        exact wf.listed other inside
      · intro missing
        have running : queue.worker.isSome = true := by
          simp only [WeightedQueue.accepts, Bool.and_eq_true] at accepted
          exact accepted.2
        simp only at missing
        simp [missing] at running
    next refused =>
      obtain rfl := Option.some.inj taken
      have closing := wf.closing_of_refused (by simpa using refused)
      exact ⟨numbered_set wf.numbered (by simp), wf.priced, wf.matched, wf.listed, wf.distinct,
        wf.left, wf.sender, fun _ => closing, wf.empty⟩
  next => simp at taken

theorem Wf.dequeue (wf : Wf queue) : Wf { queue with dequeues := queue.dequeues ++ [.called] } := by
  refine ⟨wf.numbered, wf.priced, wf.matched, ?_, wf.distinct, wf.left, wf.sender, wf.dead, ?_⟩
  · intro other inside
    rcases wf.listed other inside with found | ⟨reply, found⟩
    · have bound := (List.getElem?_eq_some_iff.mp found).1
      exact Or.inl ((List.getElem?_append_left bound).trans found)
    · have bound := (List.getElem?_eq_some_iff.mp found).1
      exact Or.inr ⟨reply, (List.getElem?_append_left bound).trans found⟩
  · intro other found
    rcases Table.getElem?_of_snoc found with old | ⟨_, same⟩
    · exact wf.empty other old
    · simp at same

end Calls

section Worker

variable {queue next : Queue} {worker : Worker}

theorem before_asymm {left right : Entry} (before : left.before right = true) :
    right.before left = false := by
  simp only [Entry.before, Bool.or_eq_true, Bool.and_eq_true, decide_eq_true_eq, beq_iff_eq,
    Bool.or_eq_false_iff, Bool.and_eq_false_iff, decide_eq_false_iff_not, beq_eq_false_iff_ne]
    at before ⊢
  omega

theorem before_trans {first second third : Entry} (left : first.before second = false)
    (right : second.before third = false) : first.before third = false := by
  simp only [Entry.before, Bool.or_eq_false_iff, Bool.and_eq_false_iff, decide_eq_false_iff_not,
    beq_eq_false_iff_ne] at left right ⊢
  omega

theorem waiting_of_worker (running : queue.worker = some worker) :
    waiting queue = worker.waiters ++ queue.commands.filterMap reply? := by
  rw [waiting, running]
  rfl

theorem entries_of_worker (running : queue.worker = some worker) :
    entries queue = worker.heap ++ queue.commands.filterMap WorkerCmd.entry? := by
  rw [entries, running]
  rfl

theorem Wf.received (wf : Wf queue) (running : queue.worker = some worker)
    {cmd : WorkerCmd Entry} {rest : List (WorkerCmd Entry)}
    (commands : queue.commands = cmd :: rest) :
    Wf { queue with commands := rest, worker := some (handleCmd worker cmd) } := by
  have sameWaiting : waiting { queue with
      commands := rest, worker := some (handleCmd worker cmd) } = waiting queue := by
    rw [waiting_of_worker running, waiting_of_worker rfl, commands]
    cases cmd with
    | enqueue entry => simp [handleCmd, List.filterMap_cons, reply?]
    | dequeue reply => simp [handleCmd, reply?]
  have sameEntries : ∀ entry, entry ∈ entries { queue with
      commands := rest, worker := some (handleCmd worker cmd) } → entry ∈ entries queue := by
    intro entry inside
    rw [entries_of_worker rfl] at inside
    rw [entries_of_worker running, commands]
    cases cmd with
    | enqueue new =>
        simp only [handleCmd, List.mem_append, List.mem_cons] at inside
        simp only [List.mem_append, List.filterMap_cons, WorkerCmd.entry?, List.mem_cons]
        tauto
    | dequeue reply => simpa [handleCmd, WorkerCmd.entry?] using inside
  refine ⟨wf.numbered, fun entry inside => wf.priced entry (sameEntries entry inside), ?_, ?_,
    sameWaiting ▸ wf.distinct, ?_, wf.sender, wf.dead, wf.empty⟩
  · intro after isAfter receiving
    obtain rfl := Option.some.inj isAfter
    cases cmd <;> simp [handleCmd] at receiving
  · intro call inside
    rw [sameWaiting] at inside
    exact wf.listed call inside
  · intro missing
    simp at missing

theorem Wf.served (wf : Wf queue) (running : queue.worker = some worker) {reply : Nat}
    {waiters : List Nat} {entry : Entry} {heap : List Entry} (pc : worker.pc = .matching)
    (isWaiter : worker.waiters = reply :: waiters)
    (popped : popLeast Entry.before worker.heap = some (entry, heap)) :
    Wf { queue.moveTo reply (.waiting (some entry.job)) with
      worker := some { worker with heap, waiters } } := by
  have shrunk : waiting queue = reply :: waiting {
      queue.moveTo reply (.waiting (some entry.job)) with
      worker := some { worker with heap, waiters } } := by
    rw [waiting_of_worker running, waiting_of_worker rfl, isWaiter]
    rfl
  have distinct := wf.distinct
  rw [shrunk, List.nodup_cons] at distinct
  refine ⟨wf.numbered, ?_, ?_, ?_, distinct.2, by simp, wf.sender, wf.dead,
    empty_moveTo (by simp) wf⟩
  · intro other inside
    refine wf.priced other ?_
    rw [entries_of_worker rfl] at inside
    rw [entries_of_worker running]
    rcases List.mem_append.mp inside with held | sent
    · have before := (popLeast_perm popped).mem_iff.mpr (List.mem_cons_of_mem _ held)
      exact List.mem_append_left _ before
    · exact List.mem_append_right _ sent
  · intro after isAfter receiving
    obtain rfl := Option.some.inj isAfter
    simp [pc] at receiving
  · intro call inside
    refine (wf.listed call (shrunk ▸ List.mem_cons_of_mem _ inside)).moveTo ?_
    rintro rfl
    exact absurd inside distinct.1

theorem Wf.again_eq (wf : Wf queue) (running : queue.worker = some worker) {entry : Entry}
    {heap : List Entry} (popped : popLeast Entry.before worker.heap = some (entry, heap)) :
    (⟨costOf entry.job, entry.seq, entry.job⟩ : Entry) = entry := by
  have inside : entry ∈ entries queue := by
    rw [entries_of_worker running]
    exact List.mem_append_left _ ((popLeast_perm popped).mem_iff.mpr List.mem_cons_self)
  rw [← wf.priced entry inside]

theorem Wf.gone (wf : Wf queue) (running : queue.worker = some worker) {reply : Nat}
    {waiters : List Nat} {entry : Entry} {heap : List Entry} (pc : worker.pc = .matching)
    (isWaiter : worker.waiters = reply :: waiters)
    (popped : popLeast Entry.before worker.heap = some (entry, heap)) :
    Wf { queue with worker := some { worker with
      heap := ⟨costOf entry.job, entry.seq, entry.job⟩ :: heap, waiters } } := by
  rw [wf.again_eq running popped]
  have shrunk : waiting queue = reply :: waiting { queue with
      worker := some { worker with heap := entry :: heap, waiters } } := by
    rw [waiting_of_worker running, waiting_of_worker rfl, isWaiter]
    rfl
  have distinct := wf.distinct
  rw [shrunk, List.nodup_cons] at distinct
  refine ⟨wf.numbered, ?_, ?_, ?_, distinct.2, by simp, wf.sender, wf.dead, wf.empty⟩
  · intro other inside
    refine wf.priced other ?_
    rw [entries_of_worker rfl] at inside
    rw [entries_of_worker running]
    rcases List.mem_append.mp inside with held | sent
    · exact List.mem_append_left _ ((popLeast_perm popped).mem_iff.mpr held)
    · exact List.mem_append_right _ sent
  · intro after isAfter receiving
    obtain rfl := Option.some.inj isAfter
    simp [pc] at receiving
  · intro call inside
    exact wf.listed call (shrunk ▸ List.mem_cons_of_mem _ inside)

theorem Wf.work (wf : Wf queue) (running : queue.worker = some worker)
    (worked : Worked queue worker next) : Wf next := by
  cases worked with
  | received cmd rest _ commands => exact wf.received running commands
  | left _ empty closed =>
      refine ⟨wf.numbered, ?_, by simp, ?_, ?_, fun _ => ⟨empty, closed⟩, wf.sender, wf.dead,
        wf.empty⟩
      · simp [entries, empty]
      · simp [waiting, empty]
      · simp [waiting, empty]
  | served reply waiters entry heap pc isWaiter popped _ =>
      exact wf.served running pc isWaiter popped
  | gone reply waiters entry heap pc isWaiter popped _ =>
      exact wf.gone running pc isWaiter popped
  | finished _ matched =>
      have sameWaiting : waiting { queue with worker := some { worker with pc := .receiving } } =
          waiting queue := by
        rw [waiting_of_worker running, waiting_of_worker rfl]
      have sameEntries : entries { queue with worker := some { worker with pc := .receiving } } =
          entries queue := by
        rw [entries_of_worker running, entries_of_worker rfl]
      refine ⟨wf.numbered, ?_, ?_, ?_, sameWaiting ▸ wf.distinct, by simp, wf.sender, wf.dead,
        wf.empty⟩
      · intro entry inside
        exact wf.priced entry (sameEntries ▸ inside)
      · intro after isAfter _
        obtain rfl := Option.some.inj isAfter
        exact matched
      · intro call inside
        rw [sameWaiting] at inside
        exact wf.listed call inside

end Worker

section Runs

variable {queue next : Queue} {log : Log} {action : Action}

theorem Wf.step (wf : Wf queue)
    (taken : WeightedQueue.step discipline queue action = some next) : Wf next := by
  cases action with
  | enqueue job =>
      obtain rfl := Option.some.inj taken
      exact wf.enqueue job
  | send call => exact wf.send taken
  | dequeue =>
      obtain rfl := Option.some.inj taken
      exact wf.dequeue
  | poll call => exact wf.poll taken
  | drop call => exact wf.dropCall taken
  | work =>
      obtain ⟨worker, running, worked⟩ := Option.bind_eq_some_iff.mp taken
      exact wf.work running (work_worked worked)
  | tick elapsed =>
      obtain rfl := Option.some.inj taken
      exact ⟨wf.numbered, wf.priced, wf.matched, wf.listed, wf.distinct, wf.left, wf.sender,
        wf.dead, wf.empty⟩
  | closeStore =>
      obtain rfl := Option.some.inj taken
      exact ⟨wf.numbered, wf.priced, wf.matched, wf.listed, wf.distinct, wf.left, fun _ => rfl,
        fun _ => rfl, fun _ _ => rfl⟩
  | closeTake =>
      simp only [WeightedQueue.step] at taken
      split at taken
      next closing =>
        obtain rfl := Option.some.inj taken
        exact ⟨wf.numbered, wf.priced, wf.matched, wf.listed, wf.distinct,
          fun missing => ⟨(wf.left missing).1, rfl⟩, fun _ => closing, wf.dead, wf.empty⟩
      next => simp at taken

theorem Wf.initial : Wf (WeightedQueue.new discipline) := by
  constructor
  all_goals simp [WeightedQueue.new, entries, waiting, discipline]

/-- Only the worker's own steps change what it holds. -/
theorem worker_of_call (other : action ≠ .work)
    (taken : WeightedQueue.step discipline queue action = some next) :
    next.worker = queue.worker := by
  cases action with
  | work => exact absurd rfl other
  | enqueue | dequeue | tick | closeStore =>
      obtain rfl := Option.some.inj taken
      rfl
  | send call =>
      simp only [WeightedQueue.step, WeightedQueue.send] at taken
      split at taken
      · split at taken
        all_goals
          obtain rfl := Option.some.inj taken
          rfl
      · simp at taken
  | poll call =>
      cases WeightedQueue.poll_polled taken with
      | moved place commands dead present reply result gone entries eq =>
          subst eq
          rfl
      | read present eq =>
          subst eq
          rfl
  | drop call =>
      simp only [WeightedQueue.step, WeightedQueue.dropCall] at taken
      split at taken
      · obtain rfl := Option.some.inj taken
        rfl
      · obtain rfl := Option.some.inj taken
        rfl
      · simp at taken
  | closeTake =>
      simp only [WeightedQueue.step] at taken
      split at taken
      · obtain rfl := Option.some.inj taken
        rfl
      · simp at taken

/-- The worker turns to the calls in the order in which it heard from them. -/
def InOrder (log : Log) : Prop :=
  ∀ worker, log.queue.worker = some worker →
    log.arrived = log.answered.map (·.1) ++ worker.waiters

theorem answers_matching {worker : Worker} {reply : Nat} {waiters : List Nat} {entry : Entry}
    {heap : List Entry} (running : queue.worker = some worker) (pc : worker.pc = .matching)
    (isWaiter : worker.waiters = reply :: waiters)
    (popped : popLeast Entry.before worker.heap = some (entry, heap)) :
    answers queue .work =
      [(reply, if (queue.reply reply entry.job).isSome then some entry else none)] := by
  obtain ⟨held, waiting, place⟩ := worker
  simp only at pc isWaiter popped
  subst pc isWaiter
  simp [answers, running, popped]

theorem arrivals_matching {worker : Worker} (running : queue.worker = some worker)
    (pc : worker.pc = .matching) : arrivals queue .work = [] := by
  simp [arrivals, running, pc]

theorem answers_receiving {worker : Worker} (running : queue.worker = some worker)
    (pc : worker.pc = .receiving) : answers queue .work = [] := by
  obtain ⟨held, waiting, place⟩ := worker
  simp only at pc
  subst pc
  simp [answers, running]

theorem answers_finished {worker : Worker} (running : queue.worker = some worker)
    (pc : worker.pc = .matching) (matched : worker.waiters = [] ∨ worker.heap = []) :
    answers queue .work = [] := by
  obtain ⟨heap, waiters, place⟩ := worker
  simp only at pc matched
  subst pc
  rcases matched with rfl | rfl
  · simp [answers, running]
  · cases waiters <;> simp [answers, running, popLeast]

theorem logStep_some {after : Log} (taken : logStep log action = some after) :
    ∃ next, WeightedQueue.step discipline log.queue action = some next ∧
      after = ⟨next, log.arrived ++ arrivals log.queue action,
        log.answered ++ answers log.queue action⟩ := by
  obtain ⟨next, stepped, rfl⟩ := Option.map_eq_some_iff.mp taken
  exact ⟨next, stepped, rfl⟩

theorem logStep_work {after : Log} (taken : logStep log .work = some after) :
    ∃ worker, log.queue.worker = some worker ∧ Worked log.queue worker after.queue ∧
      after.arrived = log.arrived ++ arrivals log.queue .work ∧
      after.answered = log.answered ++ answers log.queue .work := by
  obtain ⟨next, stepped, rfl⟩ := logStep_some taken
  obtain ⟨worker, running, worked⟩ := Option.bind_eq_some_iff.mp stepped
  exact ⟨worker, running, work_worked worked, rfl, rfl⟩

theorem InOrder.work {after : Log} (ordered : InOrder log)
    (taken : logStep log .work = some after) : InOrder after := by
  obtain ⟨worker, running, worked, arrived, answered⟩ := logStep_work taken
  have before := ordered worker running
  intro later isLater
  rw [arrived, answered]
  generalize after.queue = reached at worked isLater
  cases worked with
  | received cmd rest pc commands =>
      obtain rfl := Option.some.inj isLater
      rw [answers_receiving running pc, List.append_nil, before]
      cases cmd with
      | enqueue entry => simp [arrivals, running, pc, commands, handleCmd]
      | dequeue reply => simp [arrivals, running, pc, commands, handleCmd]
  | left => simp at isLater
  | served reply waiters entry heap pc isWaiter popped present =>
      obtain rfl := Option.some.inj isLater
      rw [arrivals_matching running pc, answers_matching running pc isWaiter popped, before,
        isWaiter]
      simp
  | gone reply waiters entry heap pc isWaiter popped absent =>
      obtain rfl := Option.some.inj isLater
      rw [arrivals_matching running pc, answers_matching running pc isWaiter popped, before,
        isWaiter]
      simp
  | finished pc matched =>
      obtain rfl := Option.some.inj isLater
      rw [arrivals_matching running pc, answers_finished running pc matched, List.append_nil,
        List.append_nil, before]

theorem InOrder.step {after : Log} (ordered : InOrder log)
    (taken : logStep log action = some after) : InOrder after := by
  by_cases works : action = .work
  · subst works
    exact ordered.work taken
  · obtain ⟨next, stepped, rfl⟩ := logStep_some taken
    have nobody : arrivals log.queue action = [] ∧ answers log.queue action = [] := by
      cases action with
      | work => exact absurd rfl works
      | _ => exact ⟨rfl, rfl⟩
    intro worker running
    simp only [worker_of_call works stepped] at running
    simp only [nobody.1, nobody.2, List.append_nil]
    exact ordered worker running

theorem wf_of_path {actions : List Action} (path : Path logStep Always Log.new actions log) :
    Wf log.queue ∧ InOrder log := by
  induction path with
  | nil =>
      refine ⟨Wf.initial, ?_⟩
      intro worker running
      obtain rfl := Option.some.inj running
      rfl
  | snoc _ _ taken ih =>
      refine ⟨?_, ih.2.step taken⟩
      obtain ⟨next, stepped, rfl⟩ := logStep_some taken
      exact ih.1.step stepped

/-- Left to itself, the worker comes back for the next command. -/
theorem comes_back (waiters : List Nat) : ∀ (log : Log) (heap : List Entry),
    log.queue.worker = some ⟨heap, waiters, .matching⟩ →
    ∃ n ≤ waiters.length + 1, ∃ later after, run logStep log (List.replicate n .work) = some later ∧
      later.queue.worker = some after ∧ after.pc = .receiving := by
  have stepped : ∀ (log : Log) (heap : List Entry) (waiters : List Nat),
      log.queue.worker = some ⟨heap, waiters, .matching⟩ →
      ∃ after, logStep log .work = some after := by
    intro log heap waiters running
    simp [logStep, WeightedQueue.step, running, discipline, work]
  induction waiters with
  | nil =>
      intro log heap running
      obtain ⟨after, taken⟩ := stepped log heap [] running
      obtain ⟨worker, isWorker, worked, _, _⟩ := logStep_work taken
      obtain rfl := Option.some.inj (isWorker.symm.trans running)
      refine ⟨1, by simp, after, ?_⟩
      generalize reached : after.queue = queue at worked
      cases worked with
      | received _ _ pc | left pc => simp at pc
      | served _ _ _ _ _ isWaiter | gone _ _ _ _ _ isWaiter => simp at isWaiter
      | finished => exact ⟨_, by simp [run, taken], rfl, rfl⟩
  | cons reply rest ih =>
      intro log heap running
      obtain ⟨after, taken⟩ := stepped log heap (reply :: rest) running
      obtain ⟨worker, isWorker, worked, _, _⟩ := logStep_work taken
      obtain rfl := Option.some.inj (isWorker.symm.trans running)
      generalize reached : after.queue = queue at worked
      have again : ∀ heap, after.queue.worker = some ⟨heap, rest, .matching⟩ →
          ∃ n ≤ (reply :: rest).length + 1, ∃ later found,
            run logStep log (List.replicate n .work) = some later ∧
            later.queue.worker = some found ∧ found.pc = .receiving := by
        intro heap matching
        obtain ⟨n, few, later, found, ran, isFound, pc⟩ := ih after heap matching
        refine ⟨n + 1, by simp only [List.length_cons]; omega, later, found, ?_, isFound, pc⟩
        rw [List.replicate_succ]
        simp [run, taken, ran]
      cases worked with
      | received _ _ pc | left pc => simp at pc
      | served next waiters entry less _ isWaiter popped _ =>
          obtain ⟨rfl, rfl⟩ := List.cons.inj isWaiter
          exact again less (by rw [reached])
      | gone next waiters entry less _ isWaiter popped _ =>
          obtain ⟨rfl, rfl⟩ := List.cons.inj isWaiter
          exact again _ (by rw [reached])
      | finished _ matched =>
          refine ⟨1, by simp, after, _, by simp [run, taken], by rw [reached], rfl⟩

/-- What holds of the worker between and during its steps. -/
structure Delivers (log : Log) : Prop where
  matched (worker : Worker) : log.queue.worker = some worker → worker.pc = .receiving →
    worker.waiters = [] ∨ worker.heap = []
  returns (worker : Worker) : log.queue.worker = some worker →
    ∃ n ≤ worker.waiters.length + 1, ∃ later after,
      run logStep log (List.replicate n .work) = some later ∧
      later.queue.worker = some after ∧ after.pc = .receiving
  inOrder (worker : Worker) : log.queue.worker = some worker →
    log.arrived = log.answered.map (·.1) ++ worker.waiters
  least (next : Log) (reply : Nat) (entry : Entry) : logStep log .work = some next →
    next.answered = log.answered ++ [(reply, some entry)] →
    ∃ worker after, log.queue.worker = some worker ∧ next.queue.worker = some after ∧
      worker.heap.Perm (entry :: after.heap) ∧
      (∀ other ∈ worker.heap,
        entry.cost < other.cost ∨ entry.cost = other.cost ∧ entry.seq ≤ other.seq) ∧
      log.queue.dequeues[reply]? = some (.waiting none) ∧
      next.queue.dequeues[reply]? = some (.waiting (some entry.job))
  kept (next : Log) (reply : Nat) : logStep log .work = some next →
    next.answered = log.answered ++ [(reply, none)] →
    ∃ worker after, log.queue.worker = some worker ∧ next.queue.worker = some after ∧
      after.heap.Perm worker.heap ∧ log.queue.isClosed reply = true ∧
      next.queue.dequeues = log.queue.dequeues
  unclosed (call : Nat) : log.queue.dequeues[call]? = some (.returned none) →
    log.queue.closing = true

theorem before_false_iff {entry other : Entry} : other.before entry = false ↔
    entry.cost < other.cost ∨ entry.cost = other.cost ∧ entry.seq ≤ other.seq := by
  simp only [Entry.before, Bool.or_eq_false_iff, Bool.and_eq_false_iff, decide_eq_false_iff_not,
    beq_eq_false_iff_ne]
  omega

/-- When the log grows by an answer, the worker has turned to the first of the calls. -/
theorem answered_cases {after : Log} (taken : logStep log .work = some after) {reply : Nat}
    {sent : Option Entry} (grown : after.answered = log.answered ++ [(reply, sent)]) :
    ∃ worker waiters entry heap, log.queue.worker = some worker ∧
      worker.waiters = reply :: waiters ∧
      popLeast Entry.before worker.heap = some (entry, heap) ∧
      (sent = some entry ∧ log.queue.dequeues[reply]? = some (.waiting none) ∧
          after.queue = { log.queue.moveTo reply (.waiting (some entry.job)) with
            worker := some { worker with heap, waiters } } ∨
        sent = none ∧ log.queue.dequeues[reply]? ≠ some (.waiting none) ∧
          after.queue = { log.queue with worker := some { worker with
            heap := ⟨costOf entry.job, entry.seq, entry.job⟩ :: heap, waiters } }) := by
  obtain ⟨worker, running, worked, _, answered⟩ := logStep_work taken
  have answer := List.append_cancel_left (answered.symm.trans grown)
  generalize after.queue = reached at worked
  cases worked with
  | received _ _ pc _ | left pc _ _ => simp [answers_receiving running pc] at answer
  | finished pc matched => simp [answers_finished running pc matched] at answer
  | served first waiters entry heap pc isWaiter popped present =>
      rw [answers_matching running pc isWaiter popped] at answer
      obtain ⟨rfl, rfl⟩ := Prod.mk.inj (List.cons.inj answer).1
      refine ⟨worker, waiters, entry, heap, running, isWaiter, popped, Or.inl ⟨?_, present, rfl⟩⟩
      simp [WeightedQueue.reply, present]
  | gone first waiters entry heap pc isWaiter popped absent =>
      rw [answers_matching running pc isWaiter popped] at answer
      obtain ⟨rfl, rfl⟩ := Prod.mk.inj (List.cons.inj answer).1
      refine ⟨worker, waiters, entry, heap, running, isWaiter, popped, Or.inr ⟨?_, absent, rfl⟩⟩
      simp [reply_eq_none.mpr absent]

theorem Wf.closed_of_absent {reply : Nat} {waiters : List Nat} {worker : Worker} (wf : Wf queue)
    (running : queue.worker = some worker) (isWaiter : worker.waiters = reply :: waiters)
    (absent : queue.dequeues[reply]? ≠ some (.waiting none)) : queue.isClosed reply = true := by
  have inside : reply ∈ waiting queue := by
    rw [waiting_of_worker running, isWaiter]
    simp
  rcases wf.listed reply inside with found | ⟨last, found⟩
  · exact absurd found absent
  · simp [WeightedQueue.isClosed, found]

/-- The cost-weighted queue answers the calls in the order of arrival, each with the cheapest and
among the cheapest the oldest job, and keeps the job of a call that is gone. -/
theorem cost_weighted_delivers {actions : List Action}
    (path : Path logStep Always Log.new actions log) : Delivers log := by
  obtain ⟨wf, ordered⟩ := wf_of_path path
  constructor
  · exact wf.matched
  · intro worker running
    obtain ⟨heap, waiters, pc⟩ := worker
    cases pc with
    | receiving => exact ⟨0, by simp, log, _, rfl, running, rfl⟩
    | matching => exact comes_back waiters log heap running
  · exact ordered
  · intro next reply entry taken grown
    obtain ⟨worker, waiters, least, heap, running, _, popped, answer⟩ := answered_cases taken grown
    rcases answer with ⟨same, present, reached⟩ | ⟨nothing, _⟩
    · obtain rfl := Option.some.inj same
      have bound := (List.getElem?_eq_some_iff.mp present).1
      refine ⟨worker, _, running, by rw [reached], popLeast_perm popped, ?_, present, ?_⟩
      · intro other inside
        exact before_false_iff.mp (popLeast_least Entry.before (fun _ _ => before_asymm)
          (fun _ _ _ => before_trans) popped other inside)
      · rw [reached]
        exact List.getElem?_set_self bound
    · simp at nothing
  · intro next reply taken grown
    obtain ⟨worker, waiters, entry, heap, running, isWaiter, popped, answer⟩ :=
      answered_cases taken grown
    rcases answer with ⟨nothing, _⟩ | ⟨_, absent, reached⟩
    · simp at nothing
    · refine ⟨worker, _, running, by rw [reached], ?_,
        wf.closed_of_absent running isWaiter absent, by rw [reached]⟩
      rw [wf.again_eq running popped]
      exact (popLeast_perm popped).symm
  · exact wf.empty

end Runs

namespace Scenario

def costing (id : String) (cost : UInt64) : Job :=
  { Job.newWithId id Json.emptyObject 0 with
    metadata := .object [("cost", .number (.posInt cost))] }

/-- Two jobs wait when a call that is gone and one that is not are served. -/
def cheapestFirst : List Action :=
  [.enqueue (costing "dear" 7), .send 0, .enqueue (costing "cheap" 2), .send 1, .dequeue, .poll 0,
    .poll 0, .drop 0, .dequeue, .poll 1, .poll 1] ++ List.replicate 9 .work

end Scenario

theorem cost_weighted_cheapestFirst : ∃ log,
    Path logStep Always Log.new Scenario.cheapestFirst log ∧
    log.answered.map (fun answer => (answer.1, answer.2.map Entry.cost)) =
      [(0, none), (1, some 2)] ∧ Delivers log := by
  have ran : (run logStep Log.new Scenario.cheapestFirst).any (fun log =>
      decide (log.answered.map (fun answer => (answer.1, answer.2.map Entry.cost)) =
        [(0, none), (1, some 2)])) = true := by
    decide +kernel
  obtain ⟨log, finished, checked⟩ := (Option.any_eq_true _ _).mp ran
  have path := Path.of_run _ _ finished
  exact ⟨log, path, by simpa using checked, cost_weighted_delivers path⟩

end CostWeightedQueue

end BitsBroker
