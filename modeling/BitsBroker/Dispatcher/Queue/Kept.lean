import BitsBroker.Dispatcher.Queue.AgePriority
import BitsBroker.Dispatcher.Queue.CostWeighted
import BitsBroker.Dispatcher.Queue.Fifo

/-!
No queue loses or repeats a job, with one exception. The worker of a weighted queue puts
a job back when the call it was meant for is gone, but once the send has succeeded the job
is in the call's one-shot channel, and a call that is dropped there takes it along. The
FIFO queue has no such window. Before it is closed no queue refuses a job.
-/

namespace BitsBroker

open Transition

namespace WeightedQueue

variable {Entry Worker : Type}

def KeptUntilClosed (discipline : Discipline Entry Worker) : Prop :=
  ∀ actions queue, Path (step discipline) NotClosing (new discipline) actions queue →
    queue.JobsKept discipline

/-- A run in which the queue is not closed and no call is dropped with an unread reply. -/
def ReadThroughout (discipline : Discipline Entry Worker) (actions : List Action)
    (queue : WeightedQueue Entry Worker) : Prop :=
  Path (step discipline) (fun queue action => NotClosing queue action ∧ RepliesRead queue action)
    (new discipline) actions queue

def staysOpen (_ : WeightedQueue Entry Worker) : Action → Bool
  | .closeStore => false
  | _ => true

theorem staysOpen_sound (queue : WeightedQueue Entry Worker) (action : Action)
    (checked : staysOpen queue action = true) : NotClosing queue action := by
  rintro rfl
  simp [staysOpen] at checked

theorem not_kept_of_run {discipline : Discipline Entry Worker} (actions : List Action)
    (ran : (run (fun queue action => if staysOpen queue action then step discipline queue action
      else none) (new discipline) actions).any (fun queue =>
        queue.enqueued.card != (queue.held discipline + queue.returned).card) = true) :
    ¬ KeptUntilClosed discipline := by
  obtain ⟨queue, finished, missing⟩ := (Option.any_eq_true _ _).mp ran
  intro always
  have kept := always actions queue (Path.of_run_if staysOpen_sound _ _ finished)
  unfold JobsKept at kept
  simp [kept] at missing

def permitted (queue : WeightedQueue Entry Worker) (action : Action) : Bool :=
  match action with
  | .closeStore => false
  | .drop call => ((queue.dequeues[call]?).bind DequeueCall.reply?).isNone
  | _ => true

theorem permitted_sound (queue : WeightedQueue Entry Worker) (action : Action)
    (checked : permitted queue action = true) :
    NotClosing queue action ∧ RepliesRead queue action := by
  constructor
  · rintro rfl
    simp [permitted] at checked
  · rintro call job rfl present
    simp [permitted, present, DequeueCall.reply?] at checked

end WeightedQueue

open WeightedQueue

/-- Until it is closed, a FIFO queue keeps every job until one call returns it, and a weighted
queue does so exactly as long as no call is dropped with an unread reply. None of them refuses a job
before it is closed. -/
theorem queued_jobs_kept {fifoActions : List FifoQueue.Action} {fifo : FifoQueue}
    {costActions ageActions : List WeightedQueue.Action}
    {cost : WeightedQueue CostWeightedQueue.Entry CostWeightedQueue.Worker}
    {age : WeightedQueue AgePriorityQueue.Entry AgePriorityQueue.Worker}
    (onFifo : Path FifoQueue.step Always FifoQueue.new fifoActions fifo)
    (onCost : Path (step CostWeightedQueue.discipline) NotClosing
      (new CostWeightedQueue.discipline) costActions cost)
    (onAge : Path (step AgePriorityQueue.discipline) NotClosing
      (new AgePriorityQueue.discipline) ageActions age) :
    fifo.JobsKept ∧
      (cost.JobsKept CostWeightedQueue.discipline ↔
        ReadThroughout CostWeightedQueue.discipline costActions cost) ∧
      (age.JobsKept AgePriorityQueue.discipline ↔
        ReadThroughout AgePriorityQueue.discipline ageActions age) ∧
      (fifo.tx = true → fifo.NoneRefused) ∧ cost.NoneRefused ∧ age.NoneRefused := by
  refine ⟨?_, ?_, ?_, ?_, ?_, ?_⟩
  · exact FifoQueue.jobs_kept onFifo
  · exact jobsKept_iff CostWeightedQueue.keeps onCost
  · exact jobsKept_iff AgePriorityQueue.keeps onAge
  · exact FifoQueue.noneRefused_of_path onFifo
  · exact noneRefused_of_path CostWeightedQueue.keeps onCost
  · exact noneRefused_of_path AgePriorityQueue.keeps onAge

namespace QueueScenario

def job : Job := Job.newWithId "queued" Json.emptyObject 0

/-- A call is dropped while it waits, and the job goes to the call that comes after it. -/
def served (works : Nat) : List WeightedQueue.Action :=
  [.dequeue, .poll 0, .poll 0, .drop 0, .enqueue job, .send 0, .dequeue, .poll 1, .poll 1] ++
    List.replicate works .work ++ [.poll 1]

/-- A call is dropped after the worker has sent it the job. -/
def handed (works : Nat) : List WeightedQueue.Action :=
  [.enqueue job, .send 0, .dequeue, .poll 0, .poll 0] ++ List.replicate works .work ++ [.drop 0]

def fifo : List FifoQueue.Action :=
  [.enqueue job, .dequeue, .poll 0, .dequeue, .poll 1, .drop 0, .poll 1, .poll 1]

end QueueScenario

open QueueScenario

theorem queued_jobs_kept_served :
    ∃ fifoQueue cost age, Path FifoQueue.step Always FifoQueue.new fifo fifoQueue ∧
      ReadThroughout CostWeightedQueue.discipline (served 7) cost ∧
      ReadThroughout AgePriorityQueue.discipline (served 8) age ∧
      fifoQueue.JobsKept ∧ cost.JobsKept CostWeightedQueue.discipline ∧
      age.JobsKept AgePriorityQueue.discipline ∧ fifoQueue.returned.card = 1 ∧
      cost.returned.card = 1 ∧ age.returned.card = 1 := by
  have onFifo : (run FifoQueue.step FifoQueue.new fifo).any (·.returned.card == 1) = true := by
    decide +kernel
  have onCost : (run (fun queue action => if permitted queue action then
      step CostWeightedQueue.discipline queue action else none)
      (new CostWeightedQueue.discipline) (served 7)).any (·.returned.card == 1) = true := by
    decide +kernel
  have onAge : (run (fun queue action => if permitted queue action then
      step AgePriorityQueue.discipline queue action else none)
      (new AgePriorityQueue.discipline) (served 8)).any (·.returned.card == 1) = true := by
    decide +kernel
  obtain ⟨fifoQueue, fifoRan, fifoOne⟩ := (Option.any_eq_true _ _).mp onFifo
  obtain ⟨cost, costRan, costOne⟩ := (Option.any_eq_true _ _).mp onCost
  obtain ⟨age, ageRan, ageOne⟩ := (Option.any_eq_true _ _).mp onAge
  have fifoPath := Path.of_run _ _ fifoRan
  have costCareful : ReadThroughout CostWeightedQueue.discipline (served 7) cost :=
    Path.of_run_if permitted_sound _ _ costRan
  have ageCareful : ReadThroughout AgePriorityQueue.discipline (served 8) age :=
    Path.of_run_if permitted_sound _ _ ageRan
  have kept := queued_jobs_kept fifoPath (costCareful.mono fun _ _ both => both.1)
    (ageCareful.mono fun _ _ both => both.1)
  exact ⟨fifoQueue, cost, age, fifoPath, costCareful, ageCareful, kept.1,
    kept.2.1.mpr costCareful, kept.2.2.1.mpr ageCareful, by simpa using fifoOne,
    by simpa using costOne, by simpa using ageOne⟩

theorem handed_job_dropped :
    ¬ KeptUntilClosed CostWeightedQueue.discipline ∧
      ¬ KeptUntilClosed AgePriorityQueue.discipline := by
  constructor
  · exact not_kept_of_run (handed 5) (by decide +kernel)
  · exact not_kept_of_run (handed 6) (by decide +kernel)

end BitsBroker
