import BitsBroker.Dispatcher.Queue.Weighted

/-!
The cost-weighted queue. Its worker keeps the entries in a heap, of which only the least
entry by cost and sequence number is ever taken, and the waiting calls in arrival order.
After each command it matches the two until one of them is empty. An entry whose call is
gone goes back into the heap with the cost read from the job again.
-/

namespace BitsBroker

open Collect Transition

namespace CostWeightedQueue

structure Entry where
  cost : Nat
  seq : Nat
  job : Job

def Entry.before (left right : Entry) : Bool :=
  left.cost < right.cost || (left.cost == right.cost && left.seq < right.seq)

inductive Pc where
  | receiving
  | matching

structure Worker where
  heap : List Entry
  waiters : List Nat
  pc : Pc

def handleCmd (worker : Worker) : WorkerCmd Entry → Worker
  | .enqueue entry => { worker with heap := entry :: worker.heap, pc := .matching }
  | .dequeue reply => { worker with waiters := worker.waiters ++ [reply], pc := .matching }

def matchOne (queue : WeightedQueue Entry Worker) (worker : Worker) :
    WeightedQueue Entry Worker :=
  match worker.waiters, popLeast Entry.before worker.heap with
  | reply :: waiters, some (entry, heap) =>
      match queue.reply reply entry.job with
      | some sent => { sent with worker := some { worker with heap, waiters } }
      | none =>
          let cost := ((entry.job.metadata.field "cost").asU64).getD 0
          let again : Entry := { cost, seq := entry.seq, job := entry.job }
          { queue with worker := some { worker with heap := again :: heap, waiters } }
  | _, _ => { queue with worker := some { worker with pc := .receiving } }

def work (queue : WeightedQueue Entry Worker) (worker : Worker) :
    Option (WeightedQueue Entry Worker) :=
  match worker.pc with
  | .receiving =>
      match queue.commands with
      | cmd :: rest => some { queue with commands := rest, worker := some (handleCmd worker cmd) }
      | [] => if queue.tx then none else some { queue with worker := none }
  | .matching => some (matchOne queue worker)

def discipline : Discipline Entry Worker where
  defaultCost := 0
  entry := fun cost seq _ job => { cost, seq, job }
  jobOf := Entry.job
  start := { heap := [], waiters := [], pc := .receiving }
  stored := Worker.heap
  work := work

theorem handleCmd_stored (worker : Worker) (cmd : WorkerCmd Entry) :
    ((handleCmd worker cmd).heap : Multiset Entry) =
      worker.heap + collect WorkerCmd.entry? [cmd] := by
  cases cmd with
  | enqueue entry =>
      simp only [handleCmd, collect_cons, collect_nil, WorkerCmd.entry?, Option.elim_some,
        ← Multiset.cons_coe, Multiset.add_cons, add_zero]
  | dequeue reply => simp [handleCmd, collect_cons, WorkerCmd.entry?]

theorem matchOne_moves {queue : WeightedQueue Entry Worker} {worker : Worker}
    (running : queue.worker = some worker) :
    discipline.Moves queue (matchOne queue worker) := by
  unfold matchOne
  split
  next reply waiters entry heap _ popped =>
    have shuffled : (worker.heap : Multiset Entry) = entry ::ₘ heap :=
      Multiset.coe_eq_coe.mpr (popLeast_perm popped)
    have jobs : (worker.heap : Multiset Entry).map Entry.job =
        (heap : Multiset Entry).map Entry.job + {entry.job} := by
      rw [shuffled, Multiset.map_cons, ← Multiset.singleton_add, add_comm]
    split
    next sent replied => exact WeightedQueue.moves_of_reply running replied jobs
    · refine WeightedQueue.moves_of_stored running ?_
      refine Eq.trans ?_ jobs.symm
      simp only [discipline, ← Multiset.cons_coe, Multiset.map_cons]
      rw [← Multiset.singleton_add, add_comm]
  · exact WeightedQueue.moves_of_stored running rfl

theorem keeps : discipline.Keeps where
  jobOf_entry := fun _ _ _ _ => rfl
  starts_empty := rfl
  work_moves := by
    intro queue next worker sender running worked
    change work queue worker = some next at worked
    unfold work at worked
    split at worked
    · split at worked
      next cmd rest commands =>
        simp only [Option.some.injEq] at worked
        subst worked
        exact WeightedQueue.moves_of_received running commands (handleCmd_stored worker cmd)
      · simp [sender] at worked
    · simp only [Option.some.injEq] at worked
      subst worked
      exact matchOne_moves running

end CostWeightedQueue

end BitsBroker
