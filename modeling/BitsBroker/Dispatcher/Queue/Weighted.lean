import BitsBroker.Job
import BitsBroker.Lib.Collect
import BitsBroker.Lib.Transition

/-!
The calls that the cost-weighted and the age-priority queue share. Both hand every
request to a worker through a command channel: an enqueue call takes a sequence number
and then sends the job, a dequeue call sends the sending half of a one-shot channel and
waits for the job to arrive on it. A one-shot channel is named by the dequeue call that
reads it. `Discipline` is what the two queues do differently: the entries they make, and
what their worker does next.

A future runs from one await to the next without a break, so it is dropped either before
it first runs or while it waits for its reply. A reply that arrived and was not read is
dropped with it.
-/

namespace BitsBroker

open Collect Transition

inductive WorkerCmd (Entry : Type) where
  | enqueue (entry : Entry)
  | dequeue (reply : Nat)

def WorkerCmd.entry? {Entry : Type} : WorkerCmd Entry → Option Entry
  | .enqueue entry => some entry
  | .dequeue _ => none

inductive EnqueueCall where
  | numbered (job : Job) (cost seq : Nat)
  | sent (job : Job)
  | refused (job : Job)

def EnqueueCall.sent? : EnqueueCall → Option Job
  | .sent job => some job
  | _ => none

inductive DequeueCall where
  | called
  | checked
  | waiting (reply : Option Job)
  | returned (result : Option Job)
  | dropped (reply : Option Job)

namespace DequeueCall

def reply? : DequeueCall → Option Job
  | .waiting reply => reply
  | _ => none

def returned? : DequeueCall → Option Job
  | .returned result => result
  | _ => none

def lost? : DequeueCall → Option Job
  | .dropped reply => reply
  | _ => none

end DequeueCall

/-- `worker` is absent once the worker has left its loop, and `closing` is set by a close call. -/
structure WeightedQueue (Entry Worker : Type) where
  tx : Bool
  seq : Nat
  dead : Bool
  closing : Bool
  commands : List (WorkerCmd Entry)
  worker : Option Worker
  enqueues : List EnqueueCall
  dequeues : List DequeueCall
  now : Nat

structure Discipline (Entry Worker : Type) where
  defaultCost : Nat
  entry : (cost seq now : Nat) → Job → Entry
  jobOf : Entry → Job
  start : Worker
  stored : Worker → List Entry
  work : WeightedQueue Entry Worker → Worker → Option (WeightedQueue Entry Worker)

namespace WeightedQueue

variable {Entry Worker : Type}

def new (discipline : Discipline Entry Worker) : WeightedQueue Entry Worker where
  tx := true
  seq := 0
  dead := false
  closing := false
  commands := []
  worker := some discipline.start
  enqueues := []
  dequeues := []
  now := 0

inductive Action where
  | enqueue (job : Job)
  | send (call : Nat)
  | dequeue
  | poll (call : Nat)
  | drop (call : Nat)
  | work
  | tick (elapsed : Nat)
  | closeStore
  | closeTake

def accepts (queue : WeightedQueue Entry Worker) : Bool := queue.tx && queue.worker.isSome

def enqueue (discipline : Discipline Entry Worker) (queue : WeightedQueue Entry Worker)
    (job : Job) : WeightedQueue Entry Worker :=
  let cost := ((job.metadata.field "cost").asU64).getD discipline.defaultCost
  { queue with
    seq := (queue.seq + 1) % 2 ^ 64
    enqueues := queue.enqueues ++ [.numbered job cost queue.seq] }

def send (discipline : Discipline Entry Worker) (queue : WeightedQueue Entry Worker)
    (call : Nat) : Option (WeightedQueue Entry Worker) :=
  match queue.enqueues[call]? with
  | some (.numbered job cost seq) =>
      if queue.accepts then
        some { queue with
          commands := queue.commands ++ [.enqueue (discipline.entry cost seq queue.now job)]
          enqueues := queue.enqueues.set call (.sent job) }
      else some { queue with dead := true, enqueues := queue.enqueues.set call (.refused job) }
  | _ => none

def moveTo (queue : WeightedQueue Entry Worker) (call : Nat) (place : DequeueCall) :
    WeightedQueue Entry Worker :=
  { queue with dequeues := queue.dequeues.set call place }

def poll (queue : WeightedQueue Entry Worker) (call : Nat) :
    Option (WeightedQueue Entry Worker) :=
  match queue.dequeues[call]? with
  | some .called =>
      if queue.dead then some (queue.moveTo call (.returned none))
      else some (queue.moveTo call .checked)
  | some .checked =>
      if queue.accepts then
        some { queue.moveTo call (.waiting none) with
          commands := queue.commands ++ [.dequeue call] }
      else some { queue.moveTo call (.returned none) with dead := true }
  | some (.waiting (some job)) => some (queue.moveTo call (.returned (some job)))
  | some (.waiting none) =>
      if queue.worker.isNone then
        some { queue.moveTo call (.returned none) with dead := true }
      else none
  | _ => none

def dropCall (queue : WeightedQueue Entry Worker) (call : Nat) :
    Option (WeightedQueue Entry Worker) :=
  match queue.dequeues[call]? with
  | some .called => some (queue.moveTo call (.dropped none))
  | some (.waiting reply) => some (queue.moveTo call (.dropped reply))
  | _ => none

def step (discipline : Discipline Entry Worker) (queue : WeightedQueue Entry Worker) :
    Action → Option (WeightedQueue Entry Worker)
  | .enqueue job => some (enqueue discipline queue job)
  | .send call => send discipline queue call
  | .dequeue => some { queue with dequeues := queue.dequeues ++ [.called] }
  | .poll call => queue.poll call
  | .drop call => queue.dropCall call
  | .work => queue.worker.bind fun worker => discipline.work queue worker
  | .tick elapsed => some { queue with now := queue.now + elapsed }
  | .closeStore => some { queue with dead := true, closing := true }
  | .closeTake => if queue.closing then some { queue with tx := false } else none

/-- The sending half of a one-shot channel: the job comes back when nobody will read it. -/
def reply (queue : WeightedQueue Entry Worker) (call : Nat) (job : Job) :
    Option (WeightedQueue Entry Worker) :=
  match queue.dequeues[call]? with
  | some (.waiting none) => some (queue.moveTo call (.waiting (some job)))
  | _ => none

def isClosed (queue : WeightedQueue Entry Worker) (call : Nat) : Bool :=
  match queue.dequeues[call]? with
  | some (.dropped _) => true
  | _ => false

def enqueued (queue : WeightedQueue Entry Worker) : Multiset Job :=
  collect EnqueueCall.sent? queue.enqueues

def replies (queue : WeightedQueue Entry Worker) : Multiset Job :=
  collect DequeueCall.reply? queue.dequeues

def returned (queue : WeightedQueue Entry Worker) : Multiset Job :=
  collect DequeueCall.returned? queue.dequeues

def lost (queue : WeightedQueue Entry Worker) : Multiset Job :=
  collect DequeueCall.lost? queue.dequeues

/-- The jobs in the command channel, with the worker, and in replies somebody still waits for. -/
def held (discipline : Discipline Entry Worker) (queue : WeightedQueue Entry Worker) :
    Multiset Job :=
  ((collect WorkerCmd.entry? queue.commands +
    (queue.worker.elim [] discipline.stored : List Entry)).map discipline.jobOf) + queue.replies

/-- Every accepted job is held by the queue or was returned, once. -/
def JobsKept (discipline : Discipline Entry Worker) (queue : WeightedQueue Entry Worker) : Prop :=
  queue.enqueued = held discipline queue + queue.returned

def Accounted (discipline : Discipline Entry Worker) (queue : WeightedQueue Entry Worker) : Prop :=
  queue.enqueued = held discipline queue + queue.returned + queue.lost

def Opened (queue : WeightedQueue Entry Worker) : Prop :=
  queue.tx = true ∧ queue.closing = false

def NoneRefused (queue : WeightedQueue Entry Worker) : Prop :=
  ∀ (call : EnqueueCall) (job : Job), call ∈ queue.enqueues → call ≠ .refused job

/-- Nobody closes the queue. -/
def NotClosing (_ : WeightedQueue Entry Worker) (action : Action) : Prop := action ≠ .closeStore

/-- No call is dropped after the worker has sent it a job. -/
def RepliesRead (queue : WeightedQueue Entry Worker) (action : Action) : Prop :=
  ∀ call job, action = .drop call → queue.dequeues[call]? ≠ some (.waiting (some job))

end WeightedQueue

/-- What a worker may do: while senders are left, it only moves jobs within the queue. -/
structure Discipline.Moves {Entry Worker : Type} (discipline : Discipline Entry Worker)
    (queue next : WeightedQueue Entry Worker) : Prop where
  tx : next.tx = queue.tx
  closing : next.closing = queue.closing
  enqueues : next.enqueues = queue.enqueues
  held : next.held discipline = queue.held discipline
  returned : next.returned = queue.returned
  lost : next.lost = queue.lost
  running : next.worker.isSome = true

structure Discipline.Keeps {Entry Worker : Type} (discipline : Discipline Entry Worker) :
    Prop where
  jobOf_entry : ∀ cost seq now job, discipline.jobOf (discipline.entry cost seq now job) = job
  starts_empty : discipline.stored discipline.start = []
  work_moves : ∀ {queue next worker}, queue.tx = true → queue.worker = some worker →
    discipline.work queue worker = some next → discipline.Moves queue next

namespace WeightedQueue

variable {Entry Worker : Type} {discipline : Discipline Entry Worker}
  {queue next : WeightedQueue Entry Worker}

theorem held_of_worker {worker : Worker} (running : queue.worker = some worker) :
    queue.held discipline = ((collect WorkerCmd.entry? queue.commands +
      discipline.stored worker).map discipline.jobOf) + queue.replies := by
  unfold held
  rw [running]
  rfl

theorem moves_of_stored {worker after : Worker} (running : queue.worker = some worker)
    (stored : (discipline.stored after : Multiset Entry).map discipline.jobOf =
      (discipline.stored worker : Multiset Entry).map discipline.jobOf) :
    discipline.Moves queue { queue with worker := some after } := by
  refine ⟨rfl, rfl, rfl, ?_, rfl, rfl, rfl⟩
  rw [held_of_worker running, held_of_worker rfl, Multiset.map_add, Multiset.map_add, stored]
  rfl

theorem moves_of_received {worker after : Worker} {cmd : WorkerCmd Entry}
    {rest : List (WorkerCmd Entry)} (running : queue.worker = some worker)
    (commands : queue.commands = cmd :: rest)
    (stored : (discipline.stored after : Multiset Entry) =
      discipline.stored worker + collect WorkerCmd.entry? [cmd]) :
    discipline.Moves queue { queue with commands := rest, worker := some after } := by
  have split : collect WorkerCmd.entry? queue.commands =
      collect WorkerCmd.entry? [cmd] + collect WorkerCmd.entry? rest := by
    rw [commands, ← collect_append]
    rfl
  refine ⟨rfl, rfl, rfl, ?_, rfl, rfl, rfl⟩
  rw [held_of_worker running, held_of_worker rfl, split, stored]
  simp only [replies]
  congr 2
  ac_rfl

theorem moves_of_reply {worker after : Worker} {call : Nat} {job : Job}
    {sent : WeightedQueue Entry Worker} (running : queue.worker = some worker)
    (replied : queue.reply call job = some sent)
    (stored : (discipline.stored worker : Multiset Entry).map discipline.jobOf =
      (discipline.stored after : Multiset Entry).map discipline.jobOf + {job}) :
    discipline.Moves queue { sent with worker := some after } := by
  unfold reply at replied
  split at replied
  next present =>
    simp only [Option.some.injEq] at replied
    subst replied
    have arrived : (queue.moveTo call (.waiting (some job))).replies = queue.replies + {job} :=
      collect_set_gain present rfl rfl
    refine ⟨rfl, rfl, rfl, ?_, collect_set_same present rfl, collect_set_same present rfl, rfl⟩
    rw [held_of_worker running, held_of_worker rfl, Multiset.map_add, Multiset.map_add, stored]
    simp only [replies] at arrived ⊢
    rw [arrived]
    simp only [moveTo]
    ac_rfl
  · simp at replied

/-- What running a dequeue future to its next await does. -/
inductive Polled (queue : WeightedQueue Entry Worker) (call : Nat)
    (next : WeightedQueue Entry Worker) : Prop
  | moved {old} (place commands dead) (present : queue.dequeues[call]? = some old)
      (reply : place.reply? = old.reply?) (result : place.returned? = old.returned?)
      (gone : place.lost? = old.lost?)
      (entries : collect WorkerCmd.entry? commands = collect WorkerCmd.entry? queue.commands)
      (eq : next = { queue.moveTo call place with commands := commands, dead := dead })
  | read {job} (present : queue.dequeues[call]? = some (.waiting (some job)))
      (eq : next = queue.moveTo call (.returned (some job)))

theorem poll_polled {call : Nat} (taken : queue.poll call = some next) :
    Polled queue call next := by
  unfold poll at taken
  split at taken
  next present =>
    split at taken
    · simp only [Option.some.injEq] at taken
      exact Polled.moved (.returned none) _ _ present rfl rfl rfl rfl taken.symm
    · simp only [Option.some.injEq] at taken
      exact Polled.moved .checked _ _ present rfl rfl rfl rfl taken.symm
  next present =>
    split at taken
    · simp only [Option.some.injEq] at taken
      exact Polled.moved (.waiting none) (queue.commands ++ [.dequeue call]) _ present rfl rfl rfl
        (collect_snoc_none queue.commands rfl) taken.symm
    · simp only [Option.some.injEq] at taken
      exact Polled.moved (.returned none) _ true present rfl rfl rfl rfl taken.symm
  next job present =>
    simp only [Option.some.injEq] at taken
    exact Polled.read present taken.symm
  next present =>
    split at taken
    · simp only [Option.some.injEq] at taken
      exact Polled.moved (.returned none) _ true present rfl rfl rfl rfl taken.symm
    · simp at taken
  · simp at taken

/-- How one step changes the books of the queue. -/
inductive Booked (discipline : Discipline Entry Worker) (queue : WeightedQueue Entry Worker)
    (action : Action) (next : WeightedQueue Entry Worker) : Prop
  | same (unsent : next.enqueued = queue.enqueued)
      (inside : next.held discipline = queue.held discipline)
      (results : next.returned = queue.returned) (losses : next.lost = queue.lost)
      (careful : RepliesRead queue action)
  | accepted (job : Job) (sent : next.enqueued = queue.enqueued + {job})
      (inside : next.held discipline = queue.held discipline + {job})
      (results : next.returned = queue.returned) (losses : next.lost = queue.lost)
      (careful : RepliesRead queue action)
  | returned (job : Job) (unsent : next.enqueued = queue.enqueued)
      (inside : queue.held discipline = next.held discipline + {job})
      (results : next.returned = queue.returned + {job}) (losses : next.lost = queue.lost)
      (careful : RepliesRead queue action)
  | lost (job : Job) (unsent : next.enqueued = queue.enqueued)
      (inside : queue.held discipline = next.held discipline + {job})
      (results : next.returned = queue.returned) (losses : next.lost = queue.lost + {job})
      (careless : ¬ RepliesRead queue action)

theorem repliesRead_of_ne {action : Action} (other : ∀ call, action ≠ .drop call) :
    RepliesRead queue action :=
  fun call _ isDrop => absurd isDrop (other call)

theorem send_booked (keeps : discipline.Keeps) {call : Nat}
    (taken : send discipline queue call = some next) :
    Booked discipline queue (.send call) next := by
  have careful : RepliesRead queue (.send call) := repliesRead_of_ne (by simp)
  unfold send at taken
  split at taken
  next job cost seq present =>
    split at taken
    · simp only [Option.some.injEq] at taken
      subst taken
      refine Booked.accepted job (collect_set_gain present rfl rfl) ?_ rfl rfl careful
      have queued : collect WorkerCmd.entry?
          (queue.commands ++ [.enqueue (discipline.entry cost seq queue.now job)]) =
            collect WorkerCmd.entry? queue.commands + {discipline.entry cost seq queue.now job} :=
        collect_snoc_some queue.commands rfl
      simp only [held]
      rw [queued]
      simp only [Multiset.map_add, Multiset.map_singleton, keeps.jobOf_entry]
      simp only [replies]
      ac_rfl
    · simp only [Option.some.injEq] at taken
      subst taken
      exact Booked.same (collect_set_same present rfl) rfl rfl rfl careful
  · simp at taken

theorem held_moveTo_same {call : Nat} {old place : DequeueCall}
    (present : queue.dequeues[call]? = some old) (reply : place.reply? = old.reply?) :
    (queue.moveTo call place).held discipline = queue.held discipline := by
  have unread : (queue.moveTo call place).replies = queue.replies :=
    collect_set_same present reply
  unfold held
  rw [unread]
  rfl

theorem held_moveTo_lose {call : Nat} {job : Job} {place : DequeueCall}
    (present : queue.dequeues[call]? = some (.waiting (some job)))
    (reply : place.reply? = none) :
    queue.held discipline = (queue.moveTo call place).held discipline + {job} := by
  have unread : queue.replies = (queue.moveTo call place).replies + {job} :=
    collect_set_lose present rfl reply
  unfold held
  rw [unread, ← add_assoc]
  rfl

theorem poll_booked {call : Nat} (taken : queue.poll call = some next) :
    Booked discipline queue (.poll call) next := by
  have careful : RepliesRead queue (.poll call) := repliesRead_of_ne (by simp)
  cases poll_polled taken with
  | @moved old place commands dead present reply result gone entries eq =>
      subst eq
      have inside : (queue.moveTo call place).held discipline = queue.held discipline :=
        held_moveTo_same present reply
      refine Booked.same rfl ?_ (collect_set_same present result) (collect_set_same present gone)
        careful
      unfold held at inside ⊢
      rw [entries]
      exact inside
  | @read job present eq =>
      subst eq
      exact Booked.returned job rfl (held_moveTo_lose present rfl)
        (collect_set_gain present rfl rfl) (collect_set_same present rfl) careful

theorem dropCall_booked {call : Nat} (taken : queue.dropCall call = some next) :
    Booked discipline queue (.drop call) next := by
  have unread : ∀ {old}, queue.dequeues[call]? = some old → old.reply? = none →
      RepliesRead queue (.drop call) := by
    intro old present empty other job isDrop waiting
    obtain rfl : call = other := by simpa using isDrop
    rw [present, Option.some.injEq] at waiting
    subst waiting
    simp [DequeueCall.reply?] at empty
  unfold dropCall at taken
  split at taken
  next present =>
    simp only [Option.some.injEq] at taken
    subst taken
    exact Booked.same rfl (held_moveTo_same present rfl) (collect_set_same present rfl)
      (collect_set_same present rfl) (unread present rfl)
  next reply present =>
    simp only [Option.some.injEq] at taken
    subst taken
    cases reply with
    | none =>
        exact Booked.same rfl (held_moveTo_same present rfl) (collect_set_same present rfl)
          (collect_set_same present rfl) (unread present rfl)
    | some job =>
        refine Booked.lost job rfl (held_moveTo_lose present rfl) (collect_set_same present rfl)
          (collect_set_gain present rfl rfl) ?_
        intro careful
        exact careful call job rfl present
  · simp at taken

theorem step_booked (keeps : discipline.Keeps) {action : Action} (opened : queue.Opened)
    (taken : step discipline queue action = some next) :
    Booked discipline queue action next := by
  cases action with
  | enqueue job =>
      simp only [step, Option.some.injEq] at taken
      subst taken
      exact Booked.same (collect_snoc_none queue.enqueues rfl) rfl rfl rfl
        (repliesRead_of_ne (by simp))
  | send call => exact send_booked keeps taken
  | dequeue =>
      simp only [step, Option.some.injEq] at taken
      subst taken
      have noReply : collect DequeueCall.reply? (queue.dequeues ++ [.called]) = queue.replies :=
        collect_snoc_none queue.dequeues rfl
      refine Booked.same rfl ?_ (collect_snoc_none queue.dequeues rfl)
        (collect_snoc_none queue.dequeues rfl) (repliesRead_of_ne (by simp))
      simp only [held, replies]
      rw [noReply]
      rfl
  | poll call => exact poll_booked taken
  | drop call => exact dropCall_booked taken
  | work =>
      simp only [step, Option.bind_eq_some_iff] at taken
      obtain ⟨worker, running, worked⟩ := taken
      have moves := keeps.work_moves opened.1 running worked
      have unsent : next.enqueued = queue.enqueued := by
        unfold enqueued
        rw [moves.enqueues]
      exact Booked.same unsent moves.held moves.returned moves.lost (repliesRead_of_ne (by simp))
  | tick elapsed =>
      simp only [step, Option.some.injEq] at taken
      subst taken
      exact Booked.same rfl rfl rfl rfl (repliesRead_of_ne (by simp))
  | closeStore =>
      simp only [step, Option.some.injEq] at taken
      subst taken
      exact Booked.same rfl rfl rfl rfl (repliesRead_of_ne (by simp))
  | closeTake => simp [step, opened.2] at taken

theorem step_opened (keeps : discipline.Keeps) {action : Action} (opened : queue.Opened)
    (permitted : NotClosing queue action) (taken : step discipline queue action = some next) :
    next.Opened := by
  cases action with
  | enqueue job =>
      simp only [step, Option.some.injEq] at taken
      subst taken
      exact opened
  | send call =>
      simp only [step, send] at taken
      split at taken
      · split at taken
        · simp only [Option.some.injEq] at taken
          subst taken
          exact opened
        · simp only [Option.some.injEq] at taken
          subst taken
          exact opened
      · simp at taken
  | dequeue =>
      simp only [step, Option.some.injEq] at taken
      subst taken
      exact opened
  | poll call =>
      cases poll_polled taken with
      | moved _ _ _ _ _ _ _ _ eq => exact eq ▸ opened
      | read _ eq => exact eq ▸ opened
  | drop call =>
      simp only [step, dropCall] at taken
      split at taken
      · simp only [Option.some.injEq] at taken
        subst taken
        exact opened
      · simp only [Option.some.injEq] at taken
        subst taken
        exact opened
      · simp at taken
  | work =>
      simp only [step, Option.bind_eq_some_iff] at taken
      obtain ⟨worker, running, worked⟩ := taken
      have moves := keeps.work_moves opened.1 running worked
      exact ⟨moves.tx.trans opened.1, moves.closing.trans opened.2⟩
  | tick elapsed =>
      simp only [step, Option.some.injEq] at taken
      subst taken
      exact opened
  | closeStore => exact absurd rfl permitted
  | closeTake => simp [step, opened.2] at taken

theorem poll_calls {call : Nat} (taken : queue.poll call = some next) :
    next.worker = queue.worker ∧ next.enqueues = queue.enqueues := by
  cases poll_polled taken with
  | moved _ _ _ _ _ _ _ _ eq =>
      subst eq
      exact ⟨rfl, rfl⟩
  | read _ eq =>
      subst eq
      exact ⟨rfl, rfl⟩

theorem dropCall_calls {call : Nat} (taken : queue.dropCall call = some next) :
    next.worker = queue.worker ∧ next.enqueues = queue.enqueues := by
  unfold dropCall at taken
  split at taken
  · obtain rfl := Option.some.inj taken
    exact ⟨rfl, rfl⟩
  · obtain rfl := Option.some.inj taken
    exact ⟨rfl, rfl⟩
  · cases taken

/-- As long as the queue is open its worker runs, and no call to enqueue is refused. -/
theorem step_accepting (keeps : discipline.Keeps) {action : Action} (opened : queue.Opened)
    (permitted : NotClosing queue action) (taken : step discipline queue action = some next)
    (running : queue.worker.isSome = true) (none : queue.NoneRefused) :
    next.worker.isSome = true ∧ next.NoneRefused := by
  cases action with
  | enqueue job =>
      obtain rfl := Option.some.inj taken
      refine ⟨running, ?_⟩
      intro call other member
      rcases List.mem_append.mp member with old | new
      · exact none call other old
      · rw [List.mem_singleton.mp new]
        simp
  | send call =>
      have accepts : queue.accepts = true := by simp [WeightedQueue.accepts, opened.1, running]
      simp only [step, send] at taken
      split at taken
      · rw [if_pos accepts] at taken
        obtain rfl := Option.some.inj taken
        refine ⟨running, ?_⟩
        intro later other member
        rcases List.mem_or_eq_of_mem_set member with old | rfl
        · exact none later other old
        · simp
      · cases taken
  | dequeue =>
      obtain rfl := Option.some.inj taken
      exact ⟨running, none⟩
  | poll call =>
      obtain ⟨worker, enqueues⟩ := poll_calls taken
      unfold NoneRefused
      rw [worker, enqueues]
      exact ⟨running, none⟩
  | drop call =>
      obtain ⟨worker, enqueues⟩ := dropCall_calls taken
      unfold NoneRefused
      rw [worker, enqueues]
      exact ⟨running, none⟩
  | work =>
      obtain ⟨worker, runs, worked⟩ := Option.bind_eq_some_iff.mp taken
      have moves := keeps.work_moves opened.1 runs worked
      unfold NoneRefused
      rw [moves.enqueues]
      exact ⟨moves.running, none⟩
  | tick elapsed =>
      obtain rfl := Option.some.inj taken
      exact ⟨running, none⟩
  | closeStore => exact absurd rfl permitted
  | closeTake => simp [step, opened.2] at taken

theorem Booked.accounted {action : Action} (booked : Booked discipline queue action next)
    (accounted : queue.Accounted discipline) : next.Accounted discipline := by
  unfold Accounted at accounted ⊢
  cases booked with
  | same unsent inside results losses _ =>
      rw [unsent, inside, results, losses]
      exact accounted
  | accepted job sent inside results losses _ =>
      rw [sent, inside, results, losses, accounted]
      ac_rfl
  | returned job unsent inside results losses _ =>
      rw [unsent, results, losses, accounted, inside]
      ac_rfl
  | lost job unsent inside results losses _ =>
      rw [unsent, results, losses, accounted, inside]
      ac_rfl

theorem Booked.losses {action : Action} (booked : Booked discipline queue action next) :
    next.lost = 0 ↔ queue.lost = 0 ∧ RepliesRead queue action := by
  cases booked with
  | same _ _ _ losses careful => simp [losses, careful]
  | accepted _ _ _ _ losses careful => simp [losses, careful]
  | returned _ _ _ _ losses careful => simp [losses, careful]
  | lost job _ _ _ losses careless => simp [losses, careless, ← Multiset.card_eq_zero]

theorem new_opened : (new discipline).Opened := ⟨rfl, rfl⟩

theorem new_accounted (keeps : discipline.Keeps) : (new discipline).Accounted discipline := by
  simp [Accounted, new, enqueued, held, replies, returned, lost, keeps.starts_empty]

theorem accounted_of_path (keeps : discipline.Keeps) {actions : List Action}
    (path : Path (step discipline) NotClosing (new discipline) actions queue) :
    queue.Opened ∧ queue.Accounted discipline := by
  induction path with
  | nil => exact ⟨new_opened, new_accounted keeps⟩
  | snoc _ permitted taken ih =>
      obtain ⟨opened, accounted⟩ := ih
      exact ⟨step_opened keeps opened permitted taken,
        (step_booked keeps opened taken).accounted accounted⟩

theorem noneRefused_of_path (keeps : discipline.Keeps) {actions : List Action}
    (path : Path (step discipline) NotClosing (new discipline) actions queue) :
    queue.NoneRefused := by
  suffices both : queue.worker.isSome = true ∧ queue.NoneRefused from both.2
  induction path with
  | nil => exact ⟨rfl, by simp [NoneRefused, new]⟩
  | snoc before permitted taken ih =>
      have opened := (accounted_of_path keeps before).1
      exact step_accepting keeps opened permitted taken ih.1 ih.2

theorem lost_eq_zero_iff (keeps : discipline.Keeps) {actions : List Action}
    (path : Path (step discipline) NotClosing (new discipline) actions queue) :
    queue.lost = 0 ↔ Path (step discipline)
      (fun queue action => NotClosing queue action ∧ RepliesRead queue action)
      (new discipline) actions queue := by
  constructor
  · intro nothing
    induction path with
    | nil => exact Path.nil
    | snoc path permitted taken ih =>
        have opened := (accounted_of_path keeps path).1
        have both := (step_booked keeps opened taken).losses.mp nothing
        exact Path.snoc (ih both.1) ⟨permitted, both.2⟩ taken
  · intro careful
    clear path
    induction careful with
    | nil => simp [lost, new]
    | snoc before permitted taken ih =>
        have path := before.mono fun _ _ both => both.1
        have opened := (accounted_of_path keeps path).1
        exact (step_booked keeps opened taken).losses.mpr ⟨ih, permitted.2⟩

/-- Until the queue is closed, jobs are kept exactly as long as no reply is dropped unread. -/
theorem jobsKept_iff (keeps : discipline.Keeps) {actions : List Action}
    (path : Path (step discipline) NotClosing (new discipline) actions queue) :
    queue.JobsKept discipline ↔ Path (step discipline)
      (fun queue action => NotClosing queue action ∧ RepliesRead queue action)
      (new discipline) actions queue := by
  have accounted := (accounted_of_path keeps path).2
  rw [← lost_eq_zero_iff keeps path]
  unfold Accounted at accounted
  unfold JobsKept
  rw [accounted]
  simp

end WeightedQueue

end BitsBroker
