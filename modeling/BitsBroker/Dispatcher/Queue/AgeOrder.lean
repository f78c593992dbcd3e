import BitsBroker.Dispatcher.Queue.SquareRoot
import Mathlib.Tactic.Ring

/-!
The order of the age-priority queue. Its comparison is a total order: the square roots are
exact up to rounding down, no product reaches 128 bits, and the scores are compared like
fractions. A job that came no later than another and costs no more stands behind it in every
sorted list, and the worker sorts between an arrival and the next time it serves, so the other
job is never handed out first.
-/

namespace BitsBroker

open Transition

namespace AgePriorityQueue

section Comparison

/-- A wait is a duration, and a duration has 64 bits of seconds. -/
def durationBound : Nat := 2 ^ 64 * 10 ^ 9

/-- The cost has 64 bits and the wait is a duration. -/
structure Entry.Valid (entry : Entry) (now : Nat) : Prop where
  cost : entry.cost < 2 ^ 64
  wait : now - entry.enqueuedAt < durationBound

def Entry.root (entry : Entry) : Nat := Nat.sqrt (max entry.cost 1)

theorem root_pos (entry : Entry) : 0 < entry.root := Nat.sqrt_pos.mpr (by omega)

theorem root_le {left right : Entry} (cheaper : left.cost ≤ right.cost) : left.root ≤ right.root :=
  Nat.sqrt_le_sqrt (by omega)

variable {first second third : Entry} {now : Nat}

theorem Entry.Valid.root_lt (valid : first.Valid now) : first.root < 2 ^ 32 := by
  refine Nat.sqrt_lt'.mpr ?_
  have bound := valid.cost
  omega

/-- The products of the comparison fit into 128 bits. -/
theorem score_lt (left : first.Valid now) (right : second.Valid now) :
    (now - first.enqueuedAt) * second.root < 2 ^ 128 := by
  have product := Nat.mul_lt_mul'' left.wait right.root_lt
  refine product.trans ?_
  decide

/-- The fractions of wait and root are compared, and the sequence numbers if they are equal. -/
def Ranked (seqs : Nat → Nat → Prop) (now : Nat) (left right : Entry) : Prop :=
  (now - left.enqueuedAt) * right.root < (now - right.enqueuedAt) * left.root ∨
    (now - left.enqueuedAt) * right.root = (now - right.enqueuedAt) * left.root ∧
      seqs right.seq left.seq

def Below : Nat → Entry → Entry → Prop := Ranked (· < ·)

def NotAbove : Nat → Entry → Entry → Prop := Ranked (· ≤ ·)

theorem notAbove_iff {left right : Entry} {now : Nat} :
    NotAbove now left right ↔ ¬Below now right left := by
  unfold NotAbove Below Ranked
  omega

theorem compareEntries_eq (left : first.Valid now) (right : second.Valid now) :
    compareEntries first second now =
      (compare ((now - first.enqueuedAt) * second.root)
        ((now - second.enqueuedAt) * first.root)).then (compare second.seq first.seq) := by
  have leftScore := score_lt left right
  have rightScore := score_lt right left
  have leftRoot : integerSqrt (max first.cost 1) = first.root := integerSqrt_eq (by omega)
  have rightRoot : integerSqrt (max second.cost 1) = second.root := integerSqrt_eq (by omega)
  simp only [compareEntries, leftRoot, rightRoot, saturatingMul]
  rw [Nat.min_eq_left (by omega), Nat.min_eq_left (by omega)]
  cases compare ((now - first.enqueuedAt) * second.root)
    ((now - second.enqueuedAt) * first.root) <;> rfl

theorem compare_lt_iff (left : first.Valid now) (right : second.Valid now) :
    compareEntries first second now = .lt ↔ Below now first second := by
  rw [compareEntries_eq left right, Below, Ranked]
  generalize (now - first.enqueuedAt) * second.root = leftScore
  generalize (now - second.enqueuedAt) * first.root = rightScore
  rcases Nat.lt_trichotomy leftScore rightScore with less | same | more
  · simp [Nat.compare_eq_lt.mpr less, less]
  · simp [same, Nat.compare_eq_lt]
  · simp only [Nat.compare_eq_gt.mpr more, Ordering.gt_then, reduceCtorEq, false_iff]
    omega

theorem compare_gt_iff (left : first.Valid now) (right : second.Valid now) :
    compareEntries first second now = .gt ↔ Below now second first := by
  rw [compareEntries_eq left right, Below, Ranked]
  generalize (now - first.enqueuedAt) * second.root = leftScore
  generalize (now - second.enqueuedAt) * first.root = rightScore
  rcases Nat.lt_trichotomy leftScore rightScore with less | same | more
  · simp only [Nat.compare_eq_lt.mpr less, Ordering.lt_then, reduceCtorEq, false_iff]
    omega
  · simp [same, Nat.compare_eq_gt]
  · simp [Nat.compare_eq_gt.mpr more, more]

theorem Ranked.trans {seqs : Nat → Nat → Prop}
    (seqs_trans : ∀ {i j k}, seqs i j → seqs j k → seqs i k)
    (left : Ranked seqs now first second) (right : Ranked seqs now second third) :
    Ranked seqs now first third := by
  have rootFirst := root_pos first
  have rootSecond := root_pos second
  have rootThird := root_pos third
  unfold Ranked at *
  generalize now - first.enqueuedAt = a at *
  generalize now - second.enqueuedAt = b at *
  generalize now - third.enqueuedAt = c at *
  generalize first.root = x at *
  generalize second.root = y at *
  generalize third.root = z at *
  have leftScore : a * y * z ≤ b * x * z := Nat.mul_le_mul_right z (by omega)
  have rightScore : b * z * x ≤ c * y * x := Nat.mul_le_mul_right x (by omega)
  have same : b * x * z = b * z * x := by ring
  have whole : a * z * y ≤ c * x * y := by
    calc a * z * y = a * y * z := by ring
      _ ≤ b * x * z := leftScore
      _ = b * z * x := same
      _ ≤ c * y * x := rightScore
      _ = c * x * y := by ring
  have scores : a * z ≤ c * x := Nat.le_of_mul_le_mul_right whole rootSecond
  rcases Nat.lt_or_eq_of_le scores with less | equal
  · exact Or.inl less
  · refine Or.inr ⟨equal, ?_⟩
    have ends : a * y * z = c * y * x := by
      calc a * y * z = a * z * y := by ring
        _ = c * x * y := by rw [equal]
        _ = c * y * x := by ring
    have leftEqual : a * y = b * x := Nat.eq_of_mul_eq_mul_right rootThird (by omega)
    have rightEqual : b * z = c * y := Nat.eq_of_mul_eq_mul_right rootFirst (by omega)
    rcases left with strict | ⟨_, leftSeq⟩
    · omega
    · rcases right with strict | ⟨_, rightSeq⟩
      · omega
      · exact seqs_trans rightSeq leftSeq

theorem below_total (now : Nat) (different : first.seq ≠ second.seq) :
    Below now first second ∨ Below now second first := by
  unfold Below Ranked
  omega

theorem below_asymm (left : Below now first second) : ¬Below now second first := by
  unfold Below Ranked at *
  omega

theorem saturatingMul_eq (left : first.Valid now) (right : second.Valid now) :
    saturatingMul (now - first.enqueuedAt) (integerSqrt (max second.cost 1)) =
      (now - first.enqueuedAt) * integerSqrt (max second.cost 1) := by
  have fits := score_lt left right
  have root : integerSqrt (max second.cost 1) = second.root := integerSqrt_eq (by omega)
  rw [saturatingMul, root]
  omega

theorem compareEntries_swap (left : first.Valid now) (right : second.Valid now) :
    compareEntries second first now = (compareEntries first second now).swap := by
  rw [compareEntries_eq left right, compareEntries_eq right left, Ordering.swap_then,
    Nat.compare_swap, Nat.compare_swap]

theorem compareEntries_ne (left : first.Valid now) (right : second.Valid now)
    (different : first.seq ≠ second.seq) : compareEntries first second now ≠ .eq := by
  intro same
  rcases below_total now different with below | above
  · rw [(compare_lt_iff left right).mpr below] at same
    simp at same
  · rw [(compare_gt_iff left right).mpr above] at same
    simp at same

theorem compareEntries_trans (left : first.Valid now) (middle : second.Valid now)
    (right : third.Valid now) (below : compareEntries first second now = .lt)
    (above : compareEntries second third now = .lt) : compareEntries first third now = .lt := by
  rw [compare_lt_iff left middle] at below
  rw [compare_lt_iff middle right] at above
  rw [compare_lt_iff left right]
  exact Ranked.trans (fun first second => first.trans second) below above

end Comparison

section Sorting

variable {now : Nat} {entries : List Entry}

/-- The entry came no later than the other one and costs no more. -/
structure Entry.Dominates (entry other : Entry) : Prop where
  arrived : entry.enqueuedAt ≤ other.enqueuedAt
  numbered : entry.seq < other.seq
  cheaper : entry.cost ≤ other.cost

/-- No entry stands before one that it dominates. -/
def Undominated (entries : List Entry) : Prop :=
  entries.Pairwise fun left right => ¬left.Dominates right

theorem Entry.Dominates.below {left right : Entry} (dominates : left.Dominates right) :
    Below now right left := by
  have waits : now - right.enqueuedAt ≤ now - left.enqueuedAt := by
    have arrived := dominates.arrived
    omega
  have scores : (now - right.enqueuedAt) * left.root ≤ (now - left.enqueuedAt) * right.root :=
    Nat.mul_le_mul waits (root_le dominates.cheaper)
  rcases Nat.lt_or_eq_of_le scores with less | equal
  · exact Or.inl less
  · exact Or.inr ⟨equal, dominates.numbered⟩

instance : Std.Total (NotAbove now) where
  total left right := by
    rw [notAbove_iff, notAbove_iff]
    by_cases below : Below now right left
    · exact Or.inr (below_asymm below)
    · exact Or.inl below

instance : IsTrans Entry (NotAbove now) where
  trans _ _ _ left right := Ranked.trans (fun first second => first.trans second) left right

theorem rebalance_undominated (valid : ∀ entry ∈ entries, entry.Valid now) :
    Undominated (rebalance entries now) := by
  unfold rebalance
  split
  next short =>
    match entries, short with
    | [], _ => exact List.Pairwise.nil
    | [_], _ => exact List.pairwise_singleton _ _
  next =>
    classical
    have same : entries.insertionSort (fun left right => compareEntries left right now ≠ .gt) =
        entries.insertionSort (NotAbove now) := by
      have mapped := List.map_insertionSort (fun left right => compareEntries left right now ≠ .gt)
        (NotAbove now) id entries (by
          intro left leftIn right rightIn
          rw [ne_eq, compare_gt_iff (valid left leftIn) (valid right rightIn), id, id,
            notAbove_iff])
      simpa using mapped
    rw [same]
    refine (List.pairwise_insertionSort (NotAbove now) entries).imp ?_
    intro left right inOrder dominates
    exact notAbove_iff.mp inOrder dominates.below

end Sorting

section Runs

abbrev Queue : Type := WeightedQueue Entry Worker

/-- Whenever the worker serves, no entry stands before one that it dominates; before that it may
only be so if the worker sorts first. -/
def Worker.Ordered (worker : Worker) : Prop :=
  match worker.pc with
  | .receiving | .serving | .sending _ => Undominated worker.entries
  | .draining requested =>
      worker.needsRebalance = true ∨ requested = true ∨ Undominated worker.entries
  | .rebalancing => worker.needsRebalance = true ∨ Undominated worker.entries

/-- The entries with the worker and on their way to it. -/
def entriesOf (queue : Queue) : List Entry :=
  queue.worker.elim [] Worker.entries ++ queue.commands.filterMap WorkerCmd.entry?

structure Wf (queue : Queue) : Prop where
  numbered (job : Job) (cost seq : Nat) : .numbered job cost seq ∈ queue.enqueues → cost < 2 ^ 64
  priced (entry : Entry) : entry ∈ entriesOf queue → entry.cost < 2 ^ 64
  ordered (worker : Worker) : queue.now < durationBound → queue.worker = some worker →
    worker.Ordered

variable {queue next : Queue} {worker : Worker}

theorem entriesOf_worker (running : queue.worker = some worker) :
    entriesOf queue = worker.entries ++ queue.commands.filterMap WorkerCmd.entry? := by
  rw [entriesOf, running]
  rfl

theorem Wf.valid (wf : Wf queue) (running : queue.worker = some worker)
    (early : queue.now < durationBound) : ∀ entry ∈ worker.entries, entry.Valid queue.now := by
  intro entry inside
  constructor
  · refine wf.priced entry ?_
    rw [entriesOf_worker running]
    exact List.mem_append_left _ inside
  · omega

theorem handleCmd_mem {cmd : WorkerCmd Entry} {rest : List (WorkerCmd Entry)}
    (running : queue.worker = some worker) (commands : queue.commands = cmd :: rest)
    {entry : Entry} (inside : entry ∈ (handleCmd worker cmd).entries ++
      rest.filterMap WorkerCmd.entry?) : entry ∈ entriesOf queue := by
  rw [entriesOf_worker running, commands]
  cases cmd with
  | enqueue new =>
      simp only [handleCmd, List.mem_append, List.mem_singleton] at inside
      simp only [List.filterMap_cons, WorkerCmd.entry?, List.mem_append, List.mem_cons]
      tauto
  | dequeue reply => simpa [handleCmd, WorkerCmd.entry?] using inside

theorem receive_wf (wf : Wf queue) (running : queue.worker = some worker)
    (pc : worker.pc = .receiving) : Wf (receive queue worker) := by
  have before := fun early => wf.ordered worker early running
  simp only [Worker.Ordered, pc] at before
  unfold receive
  split
  next cmd rest commands =>
    refine ⟨wf.numbered, ?_, ?_⟩
    · intro entry inside
      rw [entriesOf_worker rfl] at inside
      exact wf.priced entry (handleCmd_mem running commands inside)
    · intro after early isAfter
      obtain rfl := Option.some.inj isAfter
      cases cmd with
      | enqueue new => exact Or.inr (Or.inl rfl)
      | dequeue reply => exact Or.inr (Or.inr (before early))
  next =>
    split
    · refine ⟨wf.numbered, ?_, ?_⟩
      · intro entry inside
        rw [entriesOf_worker rfl] at inside
        exact wf.priced entry (entriesOf_worker running ▸ inside)
      · intro after early isAfter
        obtain rfl := Option.some.inj isAfter
        exact Or.inr (before early)
    · refine ⟨wf.numbered, ?_, by simp⟩
      intro entry inside
      refine wf.priced entry ?_
      rw [entriesOf_worker running]
      exact List.mem_append_right _ (by simpa [entriesOf] using inside)

theorem drain_wf (wf : Wf queue) (running : queue.worker = some worker) {requested : Bool}
    (pc : worker.pc = .draining requested) : Wf (drain queue worker requested) := by
  have before := fun early => wf.ordered worker early running
  simp only [Worker.Ordered, pc] at before
  unfold drain
  split
  next cmd rest commands =>
    refine ⟨wf.numbered, ?_, ?_⟩
    · intro entry inside
      rw [entriesOf_worker rfl] at inside
      exact wf.priced entry (handleCmd_mem running commands inside)
    · intro after early isAfter
      obtain rfl := Option.some.inj isAfter
      cases cmd with
      | enqueue new => simp [Worker.Ordered, handleCmd, pc, isEnqueue]
      | dequeue reply => simpa [Worker.Ordered, handleCmd, pc, isEnqueue] using before early
  next =>
    refine ⟨wf.numbered, ?_, ?_⟩
    · intro entry inside
      rw [entriesOf_worker rfl] at inside
      exact wf.priced entry (entriesOf_worker running ▸ inside)
    · intro after early isAfter
      obtain rfl := Option.some.inj isAfter
      simpa [Worker.Ordered, or_assoc] using before early

/-- A step that changes what the worker holds and nothing else. -/
theorem Wf.hold (wf : Wf queue) (running : queue.worker = some worker) {after : Worker}
    (fewer : ∀ entry ∈ after.entries, entry ∈ worker.entries)
    (ordered : queue.now < durationBound → after.Ordered) {dequeues : List DequeueCall} :
    Wf { queue with dequeues, worker := some after } := by
  refine ⟨wf.numbered, ?_, ?_⟩
  · intro entry inside
    refine wf.priced entry ?_
    rw [entriesOf_worker rfl] at inside
    rw [entriesOf_worker running]
    rcases List.mem_append.mp inside with held | sent
    · exact List.mem_append_left _ (fewer entry held)
    · exact List.mem_append_right _ sent
  · intro found early isFound
    obtain rfl := Option.some.inj isFound
    exact ordered early

theorem serve_wf (wf : Wf queue) (running : queue.worker = some worker)
    (pc : worker.pc = .serving) : Wf (serve queue worker) := by
  have before := fun early => wf.ordered worker early running
  simp only [Worker.Ordered, pc] at before
  unfold serve
  split
  · split
    · refine wf.hold running ?_ ?_
      · exact fun _ inside => inside
      · simpa [Worker.Ordered, pc] using before
    · refine wf.hold running ?_ ?_
      · exact fun _ inside => inside
      · exact before
  · refine wf.hold running ?_ ?_
    · exact fun _ inside => inside
    · exact before

theorem sendLast_wf (wf : Wf queue) (running : queue.worker = some worker) {reply : Nat}
    (pc : worker.pc = .sending reply) : Wf (sendLast queue worker reply) := by
  have before := fun early => wf.ordered worker early running
  simp only [Worker.Ordered, pc] at before
  unfold sendLast
  split
  next entry last =>
    have whole : worker.entries.dropLast ++ [entry] = worker.entries :=
      List.dropLast_append_getLast? entry last
    split
    next sent replied =>
      unfold WeightedQueue.reply at replied
      split at replied
      next present =>
        obtain rfl := Option.some.inj replied
        refine wf.hold running (fun _ inside => (List.dropLast_sublist _).subset inside) ?_
        intro early
        exact (before early).sublist (List.dropLast_sublist _)
      next => simp at replied
    next =>
      refine wf.hold running ?_ ?_
      · intro other inside
        exact whole ▸ inside
      · intro early
        exact (show Undominated (worker.entries.dropLast ++ [entry]) from whole.symm ▸ before early)
  next =>
    refine wf.hold running ?_ ?_
    · exact fun _ inside => inside
    · exact before

theorem work_wf (wf : Wf queue) (running : queue.worker = some worker) :
    Wf (work queue worker) := by
  unfold work
  split
  next pc => exact receive_wf wf running pc
  next requested pc => exact drain_wf wf running pc
  next pc =>
    have before := fun early => wf.ordered worker early running
    simp only [Worker.Ordered, pc] at before
    by_cases sorts : worker.needsRebalance = true
    · simp only [sorts, if_true]
      refine wf.hold running ?_ ?_
      · intro entry inside
        exact (rebalance_perm worker.entries queue.now).mem_iff.mp inside
      · intro early
        exact rebalance_undominated (wf.valid running early)
    · simp only [sorts, Bool.false_eq_true, if_false]
      refine wf.hold running ?_ ?_
      · exact fun _ inside => inside
      · intro early
        exact (before early).resolve_left sorts
  next pc => exact serve_wf wf running pc
  next reply pc => exact sendLast_wf wf running pc

/-- The step leaves the worker and the commands to it alone. -/
theorem Wf.of_same (wf : Wf queue) (enqueues : next.enqueues = queue.enqueues)
    (commands : next.commands.filterMap WorkerCmd.entry? =
      queue.commands.filterMap WorkerCmd.entry?)
    (worker : next.worker = queue.worker) (now : queue.now ≤ next.now) : Wf next := by
  refine ⟨?_, ?_, ?_⟩
  · rw [enqueues]
    exact wf.numbered
  · rw [entriesOf, worker, commands]
    exact wf.priced
  · intro found early isFound
    exact wf.ordered found (by omega) (worker ▸ isFound)

theorem Wf.send {call : Nat} (wf : Wf queue)
    (taken : WeightedQueue.send discipline queue call = some next) : Wf next := by
  have numbered : ∀ {place : EnqueueCall}, (∀ job cost seq, place ≠ .numbered job cost seq) →
      ∀ job cost seq, .numbered job cost seq ∈ queue.enqueues.set call place → cost < 2 ^ 64 := by
    intro place moved job cost seq inside
    rcases List.mem_or_eq_of_mem_set inside with old | rfl
    · exact wf.numbered job cost seq old
    · exact absurd rfl (moved job cost seq)
  unfold WeightedQueue.send at taken
  split at taken
  next job cost seq present =>
    split at taken
    · obtain rfl := Option.some.inj taken
      refine ⟨numbered (by simp), ?_, wf.ordered⟩
      intro entry inside
      simp only [entriesOf, List.filterMap_append, List.mem_append] at inside
      rcases inside with held | sent | new
      · exact wf.priced entry (List.mem_append_left _ held)
      · exact wf.priced entry (List.mem_append_right _ sent)
      · obtain rfl : entry = discipline.entry cost seq queue.now job := by
          simpa [WorkerCmd.entry?] using new
        exact wf.numbered job cost seq (List.mem_of_getElem? present)
    · obtain rfl := Option.some.inj taken
      exact ⟨numbered (by simp), wf.priced, wf.ordered⟩
  next => simp at taken

theorem Wf.enqueue (wf : Wf queue) (job : Job) :
    Wf (WeightedQueue.enqueue discipline queue job) := by
  refine ⟨?_, wf.priced, wf.ordered⟩
  intro other cost seq inside
  rcases List.mem_append.mp inside with old | new
  · exact wf.numbered other cost seq old
  · obtain ⟨rfl, rfl, rfl⟩ := EnqueueCall.numbered.inj (List.mem_singleton.mp new)
    cases isNumber : (other.metadata.field "cost").asU64 with
    | none => simp [discipline]
    | some given => exact asU64_lt isNumber

theorem Wf.step {action : WeightedQueue.Action} (wf : Wf queue)
    (taken : WeightedQueue.step discipline queue action = some next) : Wf next := by
  cases action with
  | enqueue job =>
      obtain rfl := Option.some.inj taken
      exact wf.enqueue job
  | send call => exact wf.send taken
  | dequeue | closeStore =>
      obtain rfl := Option.some.inj taken
      exact wf.of_same rfl rfl rfl le_rfl
  | tick elapsed =>
      obtain rfl := Option.some.inj taken
      exact wf.of_same rfl rfl rfl (Nat.le_add_right _ _)
  | poll call =>
      simp only [WeightedQueue.step, WeightedQueue.poll] at taken
      repeat' split at taken
      all_goals
        first
          | simp at taken; done
          | obtain rfl := Option.some.inj taken
            refine wf.of_same rfl ?_ rfl le_rfl
            simp [WeightedQueue.moveTo, List.filterMap_append, WorkerCmd.entry?]
  | drop call =>
      simp only [WeightedQueue.step, WeightedQueue.dropCall] at taken
      repeat' split at taken
      all_goals
        first
          | simp at taken; done
          | obtain rfl := Option.some.inj taken
            exact wf.of_same rfl rfl rfl le_rfl
  | work =>
      obtain ⟨worker, running, worked⟩ := Option.bind_eq_some_iff.mp taken
      obtain rfl : AgePriorityQueue.work queue worker = next := Option.some.inj worked
      exact work_wf wf running
  | closeTake =>
      simp only [WeightedQueue.step] at taken
      split at taken
      · obtain rfl := Option.some.inj taken
        exact wf.of_same rfl rfl rfl le_rfl
      · simp at taken

theorem Wf.of_path {actions : List WeightedQueue.Action}
    (path : Path (WeightedQueue.step discipline) Always (WeightedQueue.new discipline) actions
      queue) : Wf queue := by
  refine path.invariant ?_ fun _ _ _ wf _ taken => wf.step taken
  refine ⟨by simp [WeightedQueue.new], by simp [entriesOf, WeightedQueue.new, discipline], ?_⟩
  intro worker _ running
  obtain rfl := Option.some.inj running
  exact List.Pairwise.nil

theorem length_handleCmd (worker : Worker) (cmd : WorkerCmd Entry) :
    worker.entries.length ≤ (handleCmd worker cmd).entries.length := by
  cases cmd with
  | enqueue entry => simp [handleCmd]
  | dequeue reply => exact le_refl _

/-- An entry leaves the worker only from the end of the list, when it is sent. -/
theorem work_leaves {after : Worker} {entry : Entry}
    (reached : (work queue worker).worker = some after)
    (leaves : worker.entries.Perm (entry :: after.entries)) :
    (∃ reply, worker.pc = .sending reply) ∧ worker.entries = after.entries ++ [entry] := by
  have shorter : worker.entries.length = after.entries.length + 1 := by
    simpa using leaves.length_eq
  unfold work at reached
  split at reached
  next =>
    unfold receive at reached
    split at reached
    next cmd rest _ =>
      obtain rfl := Option.some.inj reached
      have longer := length_handleCmd worker cmd
      simp only at shorter
      omega
    next =>
      split at reached
      · obtain rfl := Option.some.inj reached
        simp only at shorter
        omega
      · simp at reached
  next =>
    unfold drain at reached
    split at reached
    next cmd rest _ =>
      obtain rfl := Option.some.inj reached
      have longer := length_handleCmd worker cmd
      simp only at shorter
      omega
    next =>
      obtain rfl := Option.some.inj reached
      simp only at shorter
      omega
  next =>
    obtain rfl := Option.some.inj reached
    have sameLength := (rebalance_perm worker.entries queue.now).length_eq
    simp only at shorter
    split at shorter
    · omega
    · omega
  next =>
    unfold serve at reached
    repeat' split at reached
    all_goals
      obtain rfl := Option.some.inj reached
      simp only at shorter
      omega
  next reply pc =>
    refine ⟨⟨reply, pc⟩, ?_⟩
    unfold sendLast at reached
    split at reached
    next last isLast =>
      have whole : worker.entries.dropLast ++ [last] = worker.entries :=
        List.dropLast_append_getLast? last isLast
      split at reached
      next sent replied =>
        obtain rfl := Option.some.inj reached
        simp only at leaves ⊢
        have same : last = entry := by
          have both := leaves
          rw [← whole] at both
          have swapped := (List.perm_append_singleton last _).symm.trans both
          have counted := (Multiset.coe_eq_coe.mpr swapped)
          simpa [← Multiset.cons_coe, Multiset.cons_inj_left] using counted
        rw [← same, whole]
      next =>
        obtain rfl := Option.some.inj reached
        simp only [whole] at shorter
        omega
    next =>
      obtain rfl := Option.some.inj reached
      simp only at shorter
      omega

/-- No job is handed out while the worker holds one that came no later and costs no more. -/
theorem undominated_of_path {actions : List WeightedQueue.Action} {after : Worker} {entry : Entry}
    (path : Path (WeightedQueue.step discipline) Always (WeightedQueue.new discipline) actions
      queue) (early : queue.now < durationBound)
    (taken : WeightedQueue.step discipline queue .work = some next)
    (running : queue.worker = some worker) (reached : next.worker = some after)
    (leaves : worker.entries.Perm (entry :: after.entries)) :
    ∀ other ∈ after.entries, ¬other.Dominates entry := by
  obtain ⟨_, isWorker, worked⟩ := Option.bind_eq_some_iff.mp taken
  obtain rfl := Option.some.inj (running.symm.trans isWorker)
  obtain rfl : work queue worker = next := Option.some.inj worked
  obtain ⟨⟨reply, pc⟩, whole⟩ := work_leaves reached leaves
  have ordered := (Wf.of_path path).ordered worker early running
  simp only [Worker.Ordered, pc, whole] at ordered
  intro other inside
  exact (List.pairwise_append.mp ordered).2.2 other inside entry (List.mem_singleton_self entry)

/-- The comparison is a strict total order on entries with different sequence numbers, its
products do not saturate, and in every run no job is handed out while the worker holds one
that came no later and costs no more. -/
theorem age_priority_never_overtakes :
    (∀ (now : Nat) (first second third : Entry), first.Valid now → second.Valid now →
      third.Valid now →
      saturatingMul (now - first.enqueuedAt) (integerSqrt (max second.cost 1)) =
        (now - first.enqueuedAt) * integerSqrt (max second.cost 1) ∧
      compareEntries second first now = (compareEntries first second now).swap ∧
      (first.seq ≠ second.seq → compareEntries first second now ≠ .eq) ∧
      (compareEntries first second now = .lt → compareEntries second third now = .lt →
        compareEntries first third now = .lt)) ∧
    ∀ (actions : List WeightedQueue.Action) (queue next : Queue) (worker after : Worker)
      (entry : Entry),
      Path (WeightedQueue.step discipline) Always (WeightedQueue.new discipline) actions queue →
      queue.now < durationBound → WeightedQueue.step discipline queue .work = some next →
      queue.worker = some worker → next.worker = some after →
      worker.entries.Perm (entry :: after.entries) →
      ∀ other ∈ after.entries, ¬other.Dominates entry := by
  constructor
  · intro now first second third left middle right
    refine ⟨saturatingMul_eq left middle, compareEntries_swap left middle, ?_, ?_⟩
    · exact compareEntries_ne left middle
    · exact compareEntries_trans left middle right
  · intro actions queue next worker after entry path early taken running reached leaves
    exact undominated_of_path path early taken running reached leaves

end Runs

namespace Scenario

def jobOfCost (id : String) (cost : UInt64) : Job :=
  { Job.newWithId id Json.emptyObject 0 with
    metadata := .object [("cost", .number (.posInt cost))] }

/-- A dear job comes later than a cheap one, both wait, and the worker is about to serve. -/
def dearLater : List WeightedQueue.Action :=
  [.enqueue (jobOfCost "cheap" 2), .send 0, .tick 10, .enqueue (jobOfCost "dear" 7), .send 1,
    .tick 5, .dequeue, .poll 0, .poll 0] ++ List.replicate 6 .work

end Scenario

/-- The worker holds two jobs and is about to send one to the first call. -/
def Scenario.sends (queue : Queue) : Bool :=
  match queue.worker, queue.dequeues with
  | some ⟨[_, _], _, _, .sending 0⟩, [.waiting none] => decide (queue.now < durationBound)
  | _, _ => false

theorem age_priority_dearLater : ∃ queue next worker after entry,
    Path (WeightedQueue.step discipline) Always (WeightedQueue.new discipline) Scenario.dearLater
      queue ∧ WeightedQueue.step discipline queue .work = some next ∧
    queue.worker = some worker ∧ next.worker = some after ∧
    worker.entries.Perm (entry :: after.entries) ∧ after.entries.length = 1 ∧
    ∀ other ∈ after.entries, ¬other.Dominates entry := by
  have ran : (run (WeightedQueue.step discipline) (WeightedQueue.new discipline)
      Scenario.dearLater).any Scenario.sends = true := by
    decide +kernel
  obtain ⟨queue, finished, checked⟩ := (Option.any_eq_true _ _).mp ran
  have path := Path.of_run _ _ finished
  unfold Scenario.sends at checked
  split at checked
  next first second waiters needsRebalance running dequeues =>
    have taken : WeightedQueue.step discipline queue .work =
        some (sendLast queue ⟨[first, second], waiters, needsRebalance, .sending 0⟩ 0) := by
      simp [WeightedQueue.step, running, discipline, work]
    have reached : (sendLast queue
        ⟨[first, second], waiters, needsRebalance, .sending 0⟩ 0).worker =
        some ⟨[first], waiters, needsRebalance, .serving⟩ := by
      simp [sendLast, WeightedQueue.reply, dequeues]
    have leaves : [first, second].Perm (second :: [first]) := List.Perm.swap second first []
    exact ⟨queue, _, _, _, second, path, taken, running, reached, leaves, rfl,
      age_priority_never_overtakes.2 _ _ _ _ _ _ path (by simpa using checked) taken running reached
        leaves⟩
  next => simp at checked

end AgePriorityQueue

end BitsBroker
