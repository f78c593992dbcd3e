import BitsBroker.Job
import BitsBroker.Lib.Collect
import BitsBroker.Lib.Transition

/-!
The FIFO queue: an unbounded channel whose receiver sits behind a fair lock. A dequeue
call waits for the lock, then for a job, and gives the lock back when it returns or is
dropped. Taking a job from the channel and returning it is one step: receiving is
cancellation safe, so a call dropped while it waits has taken nothing.
-/

namespace BitsBroker

open Collect Transition

namespace FifoQueue

inductive Dequeue where
  | called
  | locking
  | receiving
  | returned (result : Option Job)
  | dropped

def Dequeue.job? : Dequeue → Option Job
  | .returned result => result
  | _ => none

inductive Enqueue where
  | sent (job : Job)
  | refused (job : Job)

def Enqueue.job? : Enqueue → Option Job
  | .sent job => some job
  | .refused _ => none

end FifoQueue

open FifoQueue in
/-- `rx` is the call that holds the receiver's lock, and `lockQueue` the calls waiting for it. -/
structure FifoQueue where
  tx : Bool
  channel : List Job
  rx : Option Nat
  lockQueue : List Nat
  enqueues : List Enqueue
  dequeues : List Dequeue

namespace FifoQueue

def new : FifoQueue where
  tx := true
  channel := []
  rx := none
  lockQueue := []
  enqueues := []
  dequeues := []

inductive Action where
  | enqueue (job : Job)
  | dequeue
  | poll (call : Nat)
  | drop (call : Nat)
  | close

def enqueue (queue : FifoQueue) (job : Job) : FifoQueue :=
  if queue.tx then
    { queue with channel := queue.channel ++ [job], enqueues := queue.enqueues ++ [.sent job] }
  else { queue with enqueues := queue.enqueues ++ [.refused job] }

def unlock (queue : FifoQueue) : FifoQueue :=
  { queue with rx := queue.lockQueue.head?, lockQueue := queue.lockQueue.tail }

def moveTo (queue : FifoQueue) (call : Nat) (place : Dequeue) : FifoQueue :=
  { queue with dequeues := queue.dequeues.set call place }

def lock (queue : FifoQueue) (call : Nat) : FifoQueue :=
  match queue.rx with
  | none => { queue.moveTo call .receiving with rx := some call }
  | some _ => { queue.moveTo call .locking with lockQueue := queue.lockQueue ++ [call] }

def recv (queue : FifoQueue) (call : Nat) : Option FifoQueue :=
  match queue.channel with
  | job :: rest =>
      some (unlock { queue.moveTo call (.returned (some job)) with channel := rest })
  | [] => if queue.tx then none else some (unlock (queue.moveTo call (.returned none)))

def poll (queue : FifoQueue) (call : Nat) : Option FifoQueue :=
  match queue.dequeues[call]? with
  | some .called => some (queue.lock call)
  | some .locking =>
      if queue.rx = some call then some (queue.moveTo call .receiving) else none
  | some .receiving => queue.recv call
  | _ => none

def dropCall (queue : FifoQueue) (call : Nat) : Option FifoQueue :=
  match queue.dequeues[call]? with
  | some .called => some (queue.moveTo call .dropped)
  | some .locking =>
      if queue.rx = some call then some (unlock (queue.moveTo call .dropped))
      else some { queue.moveTo call .dropped with
        lockQueue := queue.lockQueue.filter fun waiting => waiting != call }
  | some .receiving => some (unlock (queue.moveTo call .dropped))
  | _ => none

def step (queue : FifoQueue) : Action → Option FifoQueue
  | .enqueue job => some (queue.enqueue job)
  | .dequeue => some { queue with dequeues := queue.dequeues ++ [.called] }
  | .poll call => queue.poll call
  | .drop call => queue.dropCall call
  | .close => some { queue with tx := false }

def enqueued (queue : FifoQueue) : Multiset Job := collect Enqueue.job? queue.enqueues

def returned (queue : FifoQueue) : Multiset Job := collect Dequeue.job? queue.dequeues

/-- Every accepted job is still in the channel or was returned, once. -/
def JobsKept (queue : FifoQueue) : Prop :=
  queue.enqueued = queue.channel + queue.returned

def NoneRefused (queue : FifoQueue) : Prop :=
  ∀ (call : Enqueue) (job : Job), call ∈ queue.enqueues → call ≠ .refused job

@[simp] theorem jobsKept_unlock (queue : FifoQueue) :
    queue.unlock.JobsKept ↔ queue.JobsKept := Iff.rfl

theorem moveTo_kept {queue : FifoQueue} {call : Nat} {old place : Dequeue}
    (kept : queue.JobsKept) (present : queue.dequeues[call]? = some old)
    (before : old.job? = none) (after : place.job? = none) :
    (queue.moveTo call place).JobsKept := by
  have same : (queue.moveTo call place).returned = queue.returned :=
    collect_set_same present (after.trans before.symm)
  unfold JobsKept
  rw [same]
  exact kept

theorem enqueue_kept {queue : FifoQueue} (kept : queue.JobsKept) (job : Job) :
    (queue.enqueue job).JobsKept := by
  unfold JobsKept at kept
  unfold enqueue
  split
  · have accepted : collect Enqueue.job? (queue.enqueues ++ [.sent job]) =
        queue.enqueued + {job} := collect_snoc_some queue.enqueues rfl
    simp only [JobsKept, enqueued, returned]
    rw [accepted, kept, returned, ← Multiset.coe_add, Multiset.coe_singleton]
    ac_rfl
  · have ignored : collect Enqueue.job? (queue.enqueues ++ [.refused job]) =
        queue.enqueued := collect_snoc_none queue.enqueues rfl
    simp only [JobsKept, enqueued, returned]
    rw [ignored, kept, returned]

theorem recv_kept {queue next : FifoQueue} {call : Nat} (kept : queue.JobsKept)
    (waiting : queue.dequeues[call]? = some .receiving)
    (taken : queue.recv call = some next) : next.JobsKept := by
  unfold recv at taken
  split at taken
  next job rest channel =>
    simp only [Option.some.injEq] at taken
    subst taken
    have handed : (queue.moveTo call (.returned (some job))).returned =
        queue.returned + {job} := collect_set_gain waiting rfl rfl
    rw [jobsKept_unlock]
    unfold JobsKept at kept ⊢
    rw [channel, ← Multiset.cons_coe, ← Multiset.singleton_add] at kept
    have after : queue.enqueued =
        rest + (queue.moveTo call (.returned (some job))).returned := by
      rw [handed, kept]
      ac_rfl
    exact after
  next empty =>
    split at taken
    · simp at taken
    · simp only [Option.some.injEq] at taken
      subst taken
      exact moveTo_kept kept waiting rfl rfl

theorem poll_kept {queue next : FifoQueue} {call : Nat} (kept : queue.JobsKept)
    (taken : queue.poll call = some next) : next.JobsKept := by
  unfold poll at taken
  split at taken
  next present =>
    simp only [Option.some.injEq] at taken
    subst taken
    unfold lock
    split
    · have locked : (queue.moveTo call .receiving).JobsKept := moveTo_kept kept present rfl rfl
      exact locked
    · have queued : (queue.moveTo call .locking).JobsKept := moveTo_kept kept present rfl rfl
      exact queued
  next present =>
    split at taken
    · simp only [Option.some.injEq] at taken
      subst taken
      exact moveTo_kept kept present rfl rfl
    · simp at taken
  next present => exact recv_kept kept present taken
  · simp at taken

theorem dropCall_kept {queue next : FifoQueue} {call : Nat} (kept : queue.JobsKept)
    (taken : queue.dropCall call = some next) : next.JobsKept := by
  have gone : ∀ old, queue.dequeues[call]? = some old → old.job? = none →
      (queue.moveTo call .dropped).JobsKept :=
    fun old present empty => moveTo_kept kept present empty rfl
  unfold dropCall at taken
  split at taken
  next present =>
    simp only [Option.some.injEq] at taken
    subst taken
    exact gone _ present rfl
  next present =>
    split at taken
    · simp only [Option.some.injEq] at taken
      subst taken
      exact gone _ present rfl
    · simp only [Option.some.injEq] at taken
      subst taken
      exact gone _ present rfl
  next present =>
    simp only [Option.some.injEq] at taken
    subst taken
    exact gone _ present rfl
  · simp at taken

theorem step_kept {queue next : FifoQueue} {action : Action} (kept : queue.JobsKept)
    (taken : queue.step action = some next) : next.JobsKept := by
  cases action with
  | enqueue job =>
      simp only [step, Option.some.injEq] at taken
      subst taken
      exact enqueue_kept kept job
  | dequeue =>
      simp only [step, Option.some.injEq] at taken
      subst taken
      have same : collect Dequeue.job? (queue.dequeues ++ [.called]) = queue.returned :=
        collect_snoc_none queue.dequeues rfl
      unfold JobsKept returned
      rw [same]
      exact kept
  | poll call => exact poll_kept kept taken
  | drop call => exact dropCall_kept kept taken
  | close =>
      simp only [step, Option.some.injEq] at taken
      subst taken
      exact kept

theorem jobs_kept {allowed : FifoQueue → Action → Prop} {actions : List Action}
    {queue : FifoQueue} (path : Path step allowed new actions queue) : queue.JobsKept := by
  have initially : new.JobsKept := by simp [JobsKept, new, enqueued, returned]
  refine path.invariant initially ?_
  intro queue action next kept _ taken
  exact step_kept kept taken

theorem poll_calls {queue next : FifoQueue} {call : Nat} (taken : queue.poll call = some next) :
    next.tx = queue.tx ∧ next.enqueues = queue.enqueues := by
  unfold poll at taken
  split at taken
  · obtain rfl := Option.some.inj taken
    unfold lock
    split <;> exact ⟨rfl, rfl⟩
  · split at taken
    · obtain rfl := Option.some.inj taken
      exact ⟨rfl, rfl⟩
    · cases taken
  · unfold recv at taken
    split at taken
    · obtain rfl := Option.some.inj taken
      exact ⟨rfl, rfl⟩
    · split at taken
      · cases taken
      · obtain rfl := Option.some.inj taken
        exact ⟨rfl, rfl⟩
  · cases taken

theorem dropCall_calls {queue next : FifoQueue} {call : Nat}
    (taken : queue.dropCall call = some next) :
    next.tx = queue.tx ∧ next.enqueues = queue.enqueues := by
  unfold dropCall at taken
  split at taken
  · obtain rfl := Option.some.inj taken
    exact ⟨rfl, rfl⟩
  · split at taken
    · obtain rfl := Option.some.inj taken
      exact ⟨rfl, rfl⟩
    · obtain rfl := Option.some.inj taken
      exact ⟨rfl, rfl⟩
  · obtain rfl := Option.some.inj taken
    exact ⟨rfl, rfl⟩
  · cases taken

/-- No call to enqueue is refused before the queue is closed. -/
theorem step_accepting {queue next : FifoQueue} {action : Action}
    (none : queue.tx = true → queue.NoneRefused) (taken : queue.step action = some next)
    (sender : next.tx = true) : next.NoneRefused := by
  cases action with
  | enqueue job =>
      obtain rfl := Option.some.inj taken
      unfold enqueue at sender ⊢
      split at sender
      next there =>
        rw [if_pos there]
        intro call other member
        rcases List.mem_append.mp member with old | new
        · exact none there call other old
        · rw [List.mem_singleton.mp new]
          simp
      next gone => exact absurd sender gone
  | dequeue =>
      obtain rfl := Option.some.inj taken
      exact none sender
  | poll call =>
      obtain ⟨tx, enqueues⟩ := poll_calls taken
      unfold NoneRefused
      rw [enqueues]
      exact none (tx.symm.trans sender)
  | drop call =>
      obtain ⟨tx, enqueues⟩ := dropCall_calls taken
      unfold NoneRefused
      rw [enqueues]
      exact none (tx.symm.trans sender)
  | close =>
      obtain rfl := Option.some.inj taken
      cases sender

theorem noneRefused_of_path {allowed : FifoQueue → Action → Prop} {actions : List Action}
    {queue : FifoQueue} (path : Path step allowed new actions queue) :
    queue.tx = true → queue.NoneRefused := by
  induction path with
  | nil => simp [NoneRefused, new]
  | snoc _ _ taken ih => exact step_accepting ih taken

end FifoQueue

end BitsBroker
