import BitsBroker.Dispatcher.Queue.Weighted
import Mathlib.Data.List.Sort

/-!
The age-priority queue. Its worker keeps the entries in a list that is sorted from time to
time so that the job to hand out next is the last one: the longer a job waits in relation
to the square root of its cost, the later it stands. Instants and waits are nanoseconds,
and the products of the comparison saturate at 128 bits.

The worker receives one command or times out, drains the commands that are there, sorts
when an entry arrived or more than one waits, and then serves the waiting calls. A call may
be dropped between the check that it is still there and the send.
-/

namespace BitsBroker

open Collect Transition

namespace AgePriorityQueue

structure Entry where
  cost : Nat
  seq : Nat
  enqueuedAt : Nat
  job : Job

def newton (value x y : Nat) : Nat :=
  if y < x then newton value y ((y + value / y) / 2) else x
termination_by x

def integerSqrt (value : Nat) : Nat := max (newton value value ((value + 1) / 2)) 1

def saturatingMul (left right : Nat) : Nat := min (left * right) (2 ^ 128 - 1)

def compareEntries (left right : Entry) (now : Nat) : Ordering :=
  let leftCost := integerSqrt (max left.cost 1)
  let rightCost := integerSqrt (max right.cost 1)
  let leftWait := now - left.enqueuedAt
  let rightWait := now - right.enqueuedAt
  let leftScore := saturatingMul leftWait rightCost
  let rightScore := saturatingMul rightWait leftCost
  match compare leftScore rightScore with
  | .eq => compare right.seq left.seq
  | other => other

def rebalance (entries : List Entry) (now : Nat) : List Entry :=
  if entries.length < 2 then entries
  else entries.insertionSort fun left right => compareEntries left right now ≠ .gt

inductive Pc where
  | receiving
  | draining (rebalanceRequested : Bool)
  | rebalancing
  | serving
  | sending (reply : Nat)

structure Worker where
  entries : List Entry
  waiters : List Nat
  needsRebalance : Bool
  pc : Pc

def isEnqueue : WorkerCmd Entry → Bool
  | .enqueue _ => true
  | .dequeue _ => false

def handleCmd (worker : Worker) : WorkerCmd Entry → Worker
  | .enqueue entry => { worker with entries := worker.entries ++ [entry] }
  | .dequeue reply => { worker with waiters := worker.waiters ++ [reply] }

def receive (queue : WeightedQueue Entry Worker) (worker : Worker) :
    WeightedQueue Entry Worker :=
  match queue.commands with
  | cmd :: rest =>
      let handled := handleCmd worker cmd
      { queue with
        commands := rest
        worker := some { handled with pc := .draining (isEnqueue cmd) } }
  | [] =>
      if queue.tx then
        let needsRebalance := decide (1 < worker.entries.length)
        { queue with worker := some { worker with needsRebalance, pc := .rebalancing } }
      else { queue with worker := none }

def drain (queue : WeightedQueue Entry Worker) (worker : Worker) (requested : Bool) :
    WeightedQueue Entry Worker :=
  match queue.commands with
  | cmd :: rest =>
      let handled := handleCmd worker cmd
      let needsRebalance := worker.needsRebalance || isEnqueue cmd
      { queue with commands := rest, worker := some { handled with needsRebalance } }
  | [] =>
      let needsRebalance := worker.needsRebalance || requested
      { queue with worker := some { worker with needsRebalance, pc := .rebalancing } }

def serve (queue : WeightedQueue Entry Worker) (worker : Worker) : WeightedQueue Entry Worker :=
  match worker.waiters, worker.entries with
  | reply :: waiters, _ :: _ =>
      if queue.isClosed reply then { queue with worker := some { worker with waiters } }
      else { queue with worker := some { worker with waiters, pc := .sending reply } }
  | _, _ => { queue with worker := some { worker with pc := .receiving } }

def sendLast (queue : WeightedQueue Entry Worker) (worker : Worker) (reply : Nat) :
    WeightedQueue Entry Worker :=
  match worker.entries.getLast? with
  | some entry =>
      let entries := worker.entries.dropLast
      match queue.reply reply entry.job with
      | some sent => { sent with worker := some { worker with entries, pc := .serving } }
      | none =>
          let again := entries ++ [entry]
          { queue with worker := some { worker with entries := again, pc := .serving } }
  | none => { queue with worker := some { worker with pc := .serving } }

def work (queue : WeightedQueue Entry Worker) (worker : Worker) : WeightedQueue Entry Worker :=
  match worker.pc with
  | .receiving => receive queue worker
  | .draining requested => drain queue worker requested
  | .rebalancing =>
      let entries :=
        if worker.needsRebalance then rebalance worker.entries queue.now else worker.entries
      { queue with
        worker := some { worker with entries, needsRebalance := false, pc := .serving } }
  | .serving => serve queue worker
  | .sending reply => sendLast queue worker reply

def discipline : Discipline Entry Worker where
  defaultCost := 1
  entry := fun cost seq now job => { cost, seq, enqueuedAt := now, job }
  jobOf := Entry.job
  start := { entries := [], waiters := [], needsRebalance := false, pc := .receiving }
  stored := Worker.entries
  work := fun queue worker => some (work queue worker)

theorem rebalance_perm (entries : List Entry) (now : Nat) :
    (rebalance entries now).Perm entries := by
  unfold rebalance
  split
  · exact List.Perm.refl entries
  · exact List.perm_insertionSort _ entries

theorem handleCmd_stored (worker : Worker) (cmd : WorkerCmd Entry) :
    ((handleCmd worker cmd).entries : Multiset Entry) =
      worker.entries + collect WorkerCmd.entry? [cmd] := by
  cases cmd with
  | enqueue entry =>
      simp [handleCmd, collect_cons, WorkerCmd.entry?, ← Multiset.coe_add]
  | dequeue reply => simp [handleCmd, collect_cons, WorkerCmd.entry?]

variable {queue : WeightedQueue Entry Worker} {worker : Worker}

theorem receive_moves (sender : queue.tx = true) (running : queue.worker = some worker) :
    discipline.Moves queue (receive queue worker) := by
  unfold receive
  split
  next cmd rest commands =>
    exact WeightedQueue.moves_of_received running commands (handleCmd_stored worker cmd)
  · rw [if_pos sender]
    exact WeightedQueue.moves_of_stored running rfl

theorem drain_moves (requested : Bool) (running : queue.worker = some worker) :
    discipline.Moves queue (drain queue worker requested) := by
  unfold drain
  split
  next cmd rest commands =>
    exact WeightedQueue.moves_of_received running commands (handleCmd_stored worker cmd)
  · exact WeightedQueue.moves_of_stored running rfl

theorem serve_moves (running : queue.worker = some worker) :
    discipline.Moves queue (serve queue worker) := by
  unfold serve
  split
  · split
    · exact WeightedQueue.moves_of_stored running rfl
    · exact WeightedQueue.moves_of_stored running rfl
  · exact WeightedQueue.moves_of_stored running rfl

theorem sendLast_moves (reply : Nat) (running : queue.worker = some worker) :
    discipline.Moves queue (sendLast queue worker reply) := by
  unfold sendLast
  split
  next entry last =>
    have whole : worker.entries.dropLast ++ [entry] = worker.entries :=
      List.dropLast_append_getLast? entry last
    have jobs : (worker.entries : Multiset Entry).map Entry.job =
        (worker.entries.dropLast : Multiset Entry).map Entry.job + {entry.job} := by
      rw [← Multiset.map_singleton, ← Multiset.map_add, ← Multiset.coe_singleton entry,
        Multiset.coe_add, whole]
    split
    next sent replied => exact WeightedQueue.moves_of_reply running replied jobs
    · refine WeightedQueue.moves_of_stored running ?_
      simp only [discipline, whole]
  · exact WeightedQueue.moves_of_stored running rfl

theorem rebalancing_moves (running : queue.worker = some worker) :
    discipline.Moves queue { queue with
      worker := some { worker with
        entries := if worker.needsRebalance then rebalance worker.entries queue.now
          else worker.entries
        needsRebalance := false
        pc := .serving } } := by
  refine WeightedQueue.moves_of_stored running ?_
  have sorted := Multiset.coe_eq_coe.mpr (rebalance_perm worker.entries queue.now)
  simp only [discipline]
  split
  · rw [sorted]
  · rfl

theorem keeps : discipline.Keeps where
  jobOf_entry := fun _ _ _ _ => rfl
  starts_empty := rfl
  work_moves := by
    intro queue next worker sender running worked
    obtain rfl : work queue worker = next := by simpa [discipline] using worked
    unfold work
    split
    · exact receive_moves sender running
    next requested _ => exact drain_moves requested running
    · exact rebalancing_moves running
    · exact serve_moves running
    next reply _ => exact sendLast_moves reply running

end AgePriorityQueue

end BitsBroker
