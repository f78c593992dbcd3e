import BitsBroker.Dispatcher.Queue.AgeOrder

/-!
How long a job waits in the age-priority queue. A job that is handed out before another one has come
at least the other one's wait, divided by the square root of its cost, before the entries were last
sorted: the longer a dear job waits, the fewer jobs may still overtake it. So no job starves while
the queue keeps up with its arrivals, with whatever lag.
-/

namespace BitsBroker

open Transition

namespace AgePriorityQueue

/-- The queue with its history: the entries that have arrived, those that were handed out, and the
instant at which the worker sorted last. -/
structure Watched where
  queue : Queue
  arrived : List Entry
  given : List Entry
  sortedAt : Nat

def Watched.start : Watched where
  queue := WeightedQueue.new discipline
  arrived := []
  given := []
  sortedAt := 0

/-- The entries on their way to the worker. -/
def queued (queue : Queue) : List Entry := queue.commands.filterMap WorkerCmd.entry?

def arrivals (queue next : Queue) : List Entry :=
  (next.commands.drop queue.commands.length).filterMap WorkerCmd.entry?

/-- What the next step of the worker hands out. -/
def handsOut (queue : Queue) : List Entry :=
  match queue.worker with
  | some worker => match worker.pc, worker.entries.getLast? with
    | .sending reply, some entry => if (queue.reply reply entry.job).isSome then [entry] else []
    | _, _ => []
  | none => []

def sorts (queue : Queue) : Bool :=
  match queue.worker with
  | some worker => match worker.pc with
    | .rebalancing => worker.needsRebalance
    | _ => false
  | none => false

def isWork : WeightedQueue.Action → Bool
  | .work => true
  | _ => false

def watchedStep (s : Watched) (action : WeightedQueue.Action) : Option Watched :=
  (WeightedQueue.step discipline s.queue action).map fun next => {
    queue := next
    arrived := s.arrived ++ arrivals s.queue next
    given := if isWork action then s.given ++ handsOut s.queue else s.given
    sortedAt := if isWork action && sorts s.queue then s.queue.now else s.sortedAt }

section Scores

variable {entry other : Entry} {sortedAt now : Nat}

/-- What stands behind `entry` in the sorted list came this much before the sort. -/
theorem arrived_of_notAbove (below : NotAbove sortedAt entry other)
    (past : other.enqueuedAt ≤ sortedAt) :
    other.enqueuedAt + (sortedAt - entry.enqueuedAt) / entry.root ≤ sortedAt := by
  have scores : (sortedAt - entry.enqueuedAt) * other.root ≤
      (sortedAt - other.enqueuedAt) * entry.root := by
    unfold NotAbove Ranked at below
    omega
  have whole : sortedAt - entry.enqueuedAt ≤ entry.root * (sortedAt - other.enqueuedAt) := by
    calc sortedAt - entry.enqueuedAt
        ≤ (sortedAt - entry.enqueuedAt) * other.root := Nat.le_mul_of_pos_right _ (root_pos other)
      _ ≤ (sortedAt - other.enqueuedAt) * entry.root := scores
      _ = entry.root * (sortedAt - other.enqueuedAt) := Nat.mul_comm _ _
  have quotient : (sortedAt - entry.enqueuedAt) / entry.root ≤ sortedAt - other.enqueuedAt :=
    Nat.div_le_of_le_mul whole
  omega

/-- `other` came long enough before `entry` to be handed out first. -/
def Ahead (sortedAt : Nat) (other entry : Entry) : Prop :=
  other.enqueuedAt + (sortedAt - entry.enqueuedAt) / entry.root ≤ max sortedAt entry.enqueuedAt

theorem Ahead.of_earlier (earlier : other.enqueuedAt ≤ entry.enqueuedAt) :
    Ahead sortedAt other entry := by
  have quotient := Nat.div_le_self (sortedAt - entry.enqueuedAt) entry.root
  unfold Ahead
  omega

/-- Another sort lets the wait grow by no more than the time that has passed. -/
theorem Ahead.later (ahead : Ahead sortedAt other entry) (goes : sortedAt ≤ now)
    (past : entry.enqueuedAt ≤ now) : Ahead now other entry := by
  unfold Ahead at ahead ⊢
  by_cases before : entry.enqueuedAt ≤ sortedAt
  · have positive := root_pos entry
    have grown : (now - entry.enqueuedAt) / entry.root ≤
        (sortedAt - entry.enqueuedAt) / entry.root + (now - sortedAt) := by
      have wait : now - entry.enqueuedAt ≤
          sortedAt - entry.enqueuedAt + (now - sortedAt) * entry.root := by
        have passed := Nat.le_mul_of_pos_right (now - sortedAt) positive
        omega
      calc (now - entry.enqueuedAt) / entry.root
          ≤ (sortedAt - entry.enqueuedAt + (now - sortedAt) * entry.root) / entry.root :=
            Nat.div_le_div_right wait
        _ = (sortedAt - entry.enqueuedAt) / entry.root + (now - sortedAt) :=
            Nat.add_mul_div_right _ _ positive
    omega
  · have none_ : sortedAt - entry.enqueuedAt = 0 := by omega
    rw [none_, Nat.zero_div] at ahead
    have quotient := Nat.div_le_self (now - entry.enqueuedAt) entry.root
    omega

theorem rebalance_sorted {entries : List Entry} (valid : ∀ entry ∈ entries, entry.Valid now) :
    (rebalance entries now).Pairwise (NotAbove now) := by
  unfold rebalance
  split
  next short =>
    match entries, short with
    | [], _ => exact List.Pairwise.nil
    | [_], _ => exact List.pairwise_singleton _ _
  next =>
    classical
    have same : entries.insertionSort (fun left right => compareEntries left right now ≠ .gt) =
        entries.insertionSort (NotAbove now) := by
      have mapped := List.map_insertionSort (fun left right => compareEntries left right now ≠ .gt)
        (NotAbove now) id entries (by
          intro left leftIn right rightIn
          rw [ne_eq, compare_gt_iff (valid left leftIn) (valid right rightIn), id, id,
            notAbove_iff])
      simpa using mapped
    rw [same]
    exact List.pairwise_insertionSort (NotAbove now) entries

end Scores

/-- The entries are as the last sort has left them. -/
def Worker.Settled (worker : Worker) : Prop :=
  match worker.pc with
  | .receiving | .serving | .sending _ => True
  | .draining requested => worker.needsRebalance = false ∧ requested = false
  | .rebalancing => worker.needsRebalance = false

def Sorted (sortedAt : Nat) (entries : List Entry) : Prop :=
  entries.Pairwise (NotAbove sortedAt) ∧ ∀ entry ∈ entries, entry.enqueuedAt ≤ sortedAt

/-- Entries reach the worker in the order in which they came. -/
structure InLine (queue : Queue) : Prop where
  line : (queued queue).Pairwise fun left right => left.enqueuedAt ≤ right.enqueuedAt
  first (worker : Worker) : queue.worker = some worker →
    ∀ held ∈ worker.entries, ∀ entry ∈ queued queue, held.enqueuedAt ≤ entry.enqueuedAt

structure Aged (s : Watched) : Prop where
  wf : Wf s.queue
  kept : (s.given : Multiset Entry) + (entriesOf s.queue : Multiset Entry) ≤ (s.arrived : Multiset Entry)
  clock : s.sortedAt ≤ s.queue.now
  past (entry : Entry) : entry ∈ entriesOf s.queue → entry.enqueuedAt ≤ s.queue.now
  handed (entry : Entry) : entry ∈ s.given → entry.enqueuedAt ≤ s.queue.now
  inLine : InLine s.queue
  sorted (worker : Worker) : s.queue.now < durationBound → s.queue.worker = some worker →
    worker.Settled → Sorted s.sortedAt worker.entries
  ahead : s.queue.now < durationBound → ∀ entry ∈ entriesOf s.queue, ∀ other ∈ s.given,
    Ahead s.sortedAt other entry

section Steps

variable {s : Watched} {queue next : Queue} {worker : Worker}

theorem mem_of_worker {entry : Entry} (running : queue.worker = some worker)
    (inside : entry ∈ worker.entries) : entry ∈ entriesOf queue := by
  rw [entriesOf_worker running]
  exact List.mem_append_left _ inside

theorem mem_of_queued {entry : Entry} (inside : entry ∈ queued queue) : entry ∈ entriesOf queue :=
  List.mem_append_right _ inside

/-- Nothing arrives and nothing is handed out. -/
theorem Aged.hold (aged : Aged s) (wf : Wf next) (now : next.now = s.queue.now)
    (fewer : (entriesOf next : Multiset Entry) ≤ (entriesOf s.queue : Multiset Entry))
    (inLine : InLine next)
    (sorted : ∀ worker, next.now < durationBound → next.worker = some worker → worker.Settled →
      Sorted s.sortedAt worker.entries) : Aged ⟨next, s.arrived, s.given, s.sortedAt⟩ := by
  have inside : ∀ entry ∈ entriesOf next, entry ∈ entriesOf s.queue := fun entry member =>
    Multiset.mem_coe.mp (Multiset.mem_of_le fewer (Multiset.mem_coe.mpr member))
  refine ⟨wf, ?_, ?_, ?_, ?_, inLine, sorted, ?_⟩
  · exact (Multiset.add_le_add_iff_left.mpr fewer).trans aged.kept
  · rw [now]
    exact aged.clock
  · intro entry member
    rw [now]
    exact aged.past entry (inside entry member)
  · rw [now]
    exact aged.handed
  · intro early entry member
    exact aged.ahead (now ▸ early) entry (inside entry member)

theorem handled_entries (cmd : WorkerCmd Entry) (rest : List (WorkerCmd Entry)) (worker : Worker) :
    (handleCmd worker cmd).entries ++ rest.filterMap WorkerCmd.entry? =
      worker.entries ++ (cmd :: rest).filterMap WorkerCmd.entry? := by
  cases cmd with
  | enqueue entry => simp [handleCmd, WorkerCmd.entry?]
  | dequeue reply => simp [handleCmd, WorkerCmd.entry?, List.filterMap_cons]

/-- A command leaves the line for the worker. -/
theorem InLine.handled {cmd : WorkerCmd Entry} {rest : List (WorkerCmd Entry)}
    (inLine : InLine queue) (running : queue.worker = some worker)
    (commands : queue.commands = cmd :: rest) {after : Worker}
    (entries : after.entries = (handleCmd worker cmd).entries) :
    InLine { queue with commands := rest, worker := some after } := by
  obtain ⟨line, first⟩ := inLine
  cases cmd with
  | dequeue reply =>
      have same : queued queue = rest.filterMap WorkerCmd.entry? := by
        simp [queued, commands, WorkerCmd.entry?, List.filterMap_cons]
      rw [same] at line
      refine ⟨line, ?_⟩
      rintro found isFound held inside entry member
      obtain rfl := Option.some.inj isFound
      rw [entries] at inside
      exact first worker running held inside entry (same ▸ member)
  | enqueue new =>
      have same : queued queue = new :: rest.filterMap WorkerCmd.entry? := by
        simp [queued, commands, WorkerCmd.entry?]
      rw [same, List.pairwise_cons] at line
      refine ⟨line.2, ?_⟩
      rintro found isFound held inside entry member
      obtain rfl := Option.some.inj isFound
      rw [entries] at inside
      rcases List.mem_append.mp inside with old | newest
      · exact first worker running held old entry (same ▸ List.mem_cons_of_mem new member)
      · obtain rfl := List.mem_singleton.mp newest
        exact line.1 entry member

/-- The worker handles a command or has none; it does not serve. -/
theorem Aged.handle (aged : Aged s) {cmd : WorkerCmd Entry} {rest : List (WorkerCmd Entry)}
    (running : s.queue.worker = some worker) (commands : s.queue.commands = cmd :: rest)
    {after : Worker} (wf : Wf { s.queue with commands := rest, worker := some after })
    (entries : after.entries = (handleCmd worker cmd).entries)
    (settled : after.Settled → worker.Settled ∧ isEnqueue cmd = false) :
    Aged ⟨{ s.queue with commands := rest, worker := some after }, s.arrived, s.given,
      s.sortedAt⟩ := by
  have same : entriesOf { s.queue with commands := rest, worker := some after } =
      entriesOf s.queue := by
    rw [entriesOf_worker rfl, entriesOf_worker running, entries, commands]
    exact handled_entries cmd rest worker
  apply aged.hold wf rfl (by rw [same]) (aged.inLine.handled running commands entries)
  intro found early isFound settles
  obtain rfl := Option.some.inj isFound
  obtain ⟨before, unrequested⟩ := settled settles
  have sorted := aged.sorted worker early running before
  cases cmd with
  | enqueue new => cases unrequested
  | dequeue reply => exact entries ▸ sorted

/-- The worker goes on with the entries that it has. -/
theorem Aged.rest (aged : Aged s) (running : s.queue.worker = some worker) {after : Worker}
    {dequeues : List DequeueCall} (wf : Wf { s.queue with dequeues, worker := some after })
    (entries : after.entries = worker.entries)
    (settled : after.Settled → worker.Settled) :
    Aged ⟨{ s.queue with dequeues, worker := some after }, s.arrived, s.given, s.sortedAt⟩ := by
  have same : entriesOf { s.queue with dequeues, worker := some after } = entriesOf s.queue := by
    rw [entriesOf_worker rfl, entriesOf_worker running, entries]
  have inLine : InLine { s.queue with dequeues, worker := some after } := by
    refine ⟨aged.inLine.line, ?_⟩
    rintro found isFound held inside entry member
    obtain rfl := Option.some.inj isFound
    exact aged.inLine.first worker running held (entries ▸ inside) entry member
  apply aged.hold wf rfl (by rw [same]) inLine
  intro found early isFound settles
  obtain rfl := Option.some.inj isFound
  exact entries ▸ aged.sorted worker early running (settled settles)

theorem Aged.receive (aged : Aged s) (running : s.queue.worker = some worker)
    (pc : worker.pc = .receiving) :
    Aged ⟨receive s.queue worker, s.arrived, s.given, s.sortedAt⟩ := by
  have wf := receive_wf aged.wf running pc
  have settled : worker.Settled := by simp [Worker.Settled, pc]
  revert wf
  unfold AgePriorityQueue.receive
  split
  next cmd rest commands =>
    intro wf
    apply aged.handle running commands wf rfl
    intro settles
    exact ⟨settled, settles.2⟩
  next commands =>
    split
    · intro wf
      exact aged.rest running wf rfl fun _ => settled
    · intro wf
      apply aged.hold wf rfl
      · rw [entriesOf_worker running]
        exact Multiset.coe_le.mpr (List.sublist_append_right _ _).subperm
      · exact ⟨aged.inLine.line, by simp⟩
      · simp

theorem Aged.drain (aged : Aged s) (running : s.queue.worker = some worker) {requested : Bool}
    (pc : worker.pc = .draining requested) :
    Aged ⟨drain s.queue worker requested, s.arrived, s.given, s.sortedAt⟩ := by
  have wf := drain_wf aged.wf running pc
  revert wf
  unfold AgePriorityQueue.drain
  split
  next cmd rest commands =>
    intro wf
    apply aged.handle running commands wf rfl
    have same : (handleCmd worker cmd).pc = .draining requested := by
      cases cmd <;> exact pc
    simp only [Worker.Settled, same, pc, Bool.or_eq_false_iff]
    rintro ⟨⟨unsorted, unasked⟩, quiet⟩
    exact ⟨⟨unsorted, quiet⟩, unasked⟩
  next commands =>
    intro wf
    apply aged.rest running wf rfl
    simp only [Worker.Settled, pc, Bool.or_eq_false_iff]
    exact id

theorem Aged.serve (aged : Aged s) (running : s.queue.worker = some worker)
    (pc : worker.pc = .serving) :
    Aged ⟨serve s.queue worker, s.arrived, s.given, s.sortedAt⟩ := by
  have wf := serve_wf aged.wf running pc
  have settled : worker.Settled := by simp [Worker.Settled, pc]
  revert wf
  unfold AgePriorityQueue.serve
  split
  next reply waiters entry rest waiting held =>
    split
    · intro wf
      exact aged.rest running wf rfl fun _ => settled
    · intro wf
      exact aged.rest running wf rfl fun _ => settled
  next none_ =>
    intro wf
    exact aged.rest running wf rfl fun _ => settled

/-- The worker sorts, or the entries are still as the last sort has left them. -/
theorem Aged.rebalance (aged : Aged s) (running : s.queue.worker = some worker)
    (pc : worker.pc = .rebalancing) :
    Aged ⟨work s.queue worker, s.arrived, s.given,
      if worker.needsRebalance then s.queue.now else s.sortedAt⟩ := by
  have wf := work_wf aged.wf running
  simp only [work, pc] at wf ⊢
  by_cases needed : worker.needsRebalance = true
  · simp only [needed, if_true] at wf ⊢
    have perm : (entriesOf { s.queue with worker := some { worker with
        entries := AgePriorityQueue.rebalance worker.entries s.queue.now
        needsRebalance := false
        pc := .serving } }).Perm (entriesOf s.queue) := by
      rw [entriesOf_worker rfl, entriesOf_worker running]
      exact (rebalance_perm worker.entries s.queue.now).append_right _
    refine ⟨wf, ?_, le_rfl, ?_, aged.handed, ⟨aged.inLine.line, ?_⟩, ?_, ?_⟩
    · rw [Multiset.coe_eq_coe.mpr perm]
      exact aged.kept
    · intro entry inside
      exact aged.past entry (perm.mem_iff.mp inside)
    · rintro found isFound held inside entry member
      obtain rfl := Option.some.inj isFound
      have before := (rebalance_perm worker.entries s.queue.now).mem_iff.mp inside
      exact aged.inLine.first worker running held before entry member
    · rintro found early isFound _
      obtain rfl := Option.some.inj isFound
      refine ⟨rebalance_sorted (aged.wf.valid running early), ?_⟩
      intro entry inside
      have before := (rebalance_perm worker.entries s.queue.now).mem_iff.mp inside
      exact aged.past entry (mem_of_worker running before)
    · intro early entry inside other handed
      have before := perm.mem_iff.mp inside
      exact (aged.ahead early entry before other handed).later aged.clock (aged.past entry before)
  · simp only [needed, Bool.false_eq_true, if_false] at wf ⊢
    refine aged.rest running wf rfl ?_
    intro _
    simpa [Worker.Settled, pc] using needed

/-- The entry that is handed out stands behind those that stay. -/
theorem Aged.sendLast (aged : Aged s) (running : s.queue.worker = some worker) {reply : Nat}
    (pc : worker.pc = .sending reply) :
    Aged ⟨sendLast s.queue worker reply, s.arrived, s.given ++ handsOut s.queue, s.sortedAt⟩ := by
  have wf := sendLast_wf aged.wf running pc
  have settled : worker.Settled := by simp [Worker.Settled, pc]
  simp only [handsOut, running, pc]
  unfold AgePriorityQueue.sendLast at wf ⊢
  cases last : worker.entries.getLast? with
  | none =>
      simp only [last] at wf ⊢
      rw [List.append_nil]
      exact aged.rest running wf rfl fun _ => settled
  | some entry =>
      have whole : worker.entries.dropLast ++ [entry] = worker.entries :=
        List.dropLast_append_getLast? entry last
      simp only [last] at wf ⊢
      cases replied : s.queue.reply reply entry.job with
      | none =>
          simp only [replied] at wf ⊢
          simp only [Option.isSome_none, Bool.false_eq_true, if_false, List.append_nil]
          exact aged.rest running wf whole fun _ => settled
      | some sent =>
          simp only [replied] at wf ⊢
          unfold WeightedQueue.reply at replied
          split at replied
          next waiting =>
            obtain rfl := Option.some.inj replied
            have stay : ∀ held ∈ worker.entries.dropLast, held ∈ worker.entries :=
              fun held inside => (List.dropLast_sublist _).subset inside
            have old : entriesOf s.queue =
                worker.entries.dropLast ++ ([entry] ++ queued s.queue) := by
              rw [entriesOf_worker running, ← List.append_assoc, whole]
              rfl
            refine ⟨wf, ?_, aged.clock, ?_, ?_, ⟨aged.inLine.line, ?_⟩, ?_, ?_⟩
            · have kept := aged.kept
              rw [old] at kept
              refine le_trans (le_of_eq ?_) kept
              rw [entriesOf_worker rfl]
              simp only [Option.isSome_some, if_true, ← Multiset.coe_add]
              have same : queued s.queue = List.filterMap WorkerCmd.entry?
                  (s.queue.moveTo reply (.waiting (some entry.job))).commands := rfl
              rw [same]
              ac_rfl
            · intro held inside
              rw [entriesOf_worker rfl] at inside
              apply aged.past held
              rw [old]
              rcases List.mem_append.mp inside with here | there
              · exact List.mem_append_left _ here
              · exact List.mem_append_right _ (List.mem_append_right _ there)
            · intro other handed
              rcases List.mem_append.mp handed with earlier | now
              · exact aged.handed other earlier
              · obtain rfl : other = entry := by simpa using now
                exact aged.past other (mem_of_worker running (List.mem_of_getLast? last))
            · rintro found isFound held inside other member
              obtain rfl := Option.some.inj isFound
              exact aged.inLine.first worker running held (stay held inside) other member
            · rintro found early isFound _
              obtain rfl := Option.some.inj isFound
              obtain ⟨ordered, past⟩ := aged.sorted worker early running settled
              exact ⟨ordered.sublist (List.dropLast_sublist _),
                fun held inside => past held (stay held inside)⟩
            · intro early held inside other handed
              obtain ⟨ordered, past⟩ := aged.sorted worker early running settled
              rw [entriesOf_worker rfl] at inside
              have before : held ∈ entriesOf s.queue := by
                rw [old]
                rcases List.mem_append.mp inside with here | there
                · exact List.mem_append_left _ here
                · exact List.mem_append_right _ (List.mem_append_right _ there)
              rcases List.mem_append.mp handed with earlier | now
              · exact aged.ahead early held before other earlier
              · obtain rfl : other = entry := by simpa using now
                have inEntries : other ∈ worker.entries := List.mem_of_getLast? last
                rcases List.mem_append.mp inside with here | there
                · rw [← whole] at ordered
                  have behind := (List.pairwise_append.mp ordered).2.2 held here other (by simp)
                  exact (arrived_of_notAbove behind (past other inEntries)).trans (le_max_left _ _)
                · exact .of_earlier (aged.inLine.first worker running other inEntries held there)
          next => cases replied

theorem Aged.work (aged : Aged s) (running : s.queue.worker = some worker) :
    Aged ⟨work s.queue worker, s.arrived, s.given ++ handsOut s.queue,
      if sorts s.queue then s.queue.now else s.sortedAt⟩ := by
  cases pc : worker.pc with
  | receiving =>
      have aged := aged.receive running pc
      simpa [AgePriorityQueue.work, handsOut, sorts, running, pc] using aged
  | draining requested =>
      have aged := aged.drain running pc
      simpa [AgePriorityQueue.work, handsOut, sorts, running, pc] using aged
  | serving =>
      have aged := aged.serve running pc
      simpa [AgePriorityQueue.work, handsOut, sorts, running, pc] using aged
  | rebalancing =>
      have aged := aged.rebalance running pc
      have none_ : handsOut s.queue = [] := by simp [handsOut, running, pc]
      have sorted : sorts s.queue = worker.needsRebalance := by simp [sorts, running, pc]
      rw [none_, sorted, List.append_nil]
      exact aged
  | sending reply =>
      have aged := aged.sendLast running pc
      have unsorted : sorts s.queue = false := by simp [sorts, running, pc]
      have sends : AgePriorityQueue.work s.queue worker =
          AgePriorityQueue.sendLast s.queue worker reply := by
        simp [AgePriorityQueue.work, pc]
      rw [sends, unsorted]
      exact aged

theorem work_commands (queue : Queue) (worker : Worker) :
    (work queue worker).commands.length ≤ queue.commands.length := by
  unfold work
  split
  · unfold AgePriorityQueue.receive
    split
    next commands => simp [commands]
    · split
      · exact le_rfl
      · exact le_rfl
  · unfold AgePriorityQueue.drain
    split
    next commands => simp [commands]
    · exact le_rfl
  · exact le_rfl
  · unfold AgePriorityQueue.serve
    repeat' split
    all_goals exact le_rfl
  · unfold AgePriorityQueue.sendLast WeightedQueue.reply
    split
    · split
      next sent replied =>
        split at replied
        · obtain rfl := Option.some.inj replied
          exact le_rfl
        · cases replied
      · exact le_rfl
    · exact le_rfl

theorem arrivals_append {extra : List (WorkerCmd Entry)}
    (commands : next.commands = queue.commands ++ extra) :
    arrivals queue next = extra.filterMap WorkerCmd.entry? := by
  simp [arrivals, commands]

/-- The worker and its entries are as they were. -/
theorem Aged.aside (aged : Aged s) (wf : Wf next) (worker : next.worker = s.queue.worker)
    {extra : List (WorkerCmd Entry)} (commands : next.commands = s.queue.commands ++ extra)
    (none_ : extra.filterMap WorkerCmd.entry? = []) (now : s.queue.now ≤ next.now) :
    Aged ⟨next, s.arrived ++ arrivals s.queue next, s.given, s.sortedAt⟩ := by
  have line : queued next = queued s.queue := by
    simp [queued, commands, none_]
  have entries : entriesOf next = entriesOf s.queue := by
    simp only [entriesOf, worker]
    exact congrArg _ line
  rw [arrivals_append commands, none_, List.append_nil]
  refine ⟨wf, ?_, aged.clock.trans now, ?_, ?_, ⟨line ▸ aged.inLine.line, ?_⟩, ?_, ?_⟩
  · rw [entries]
    exact aged.kept
  · intro entry inside
    exact (aged.past entry (entries ▸ inside)).trans now
  · intro entry handed
    exact (aged.handed entry handed).trans now
  · intro found isFound
    rw [line]
    exact aged.inLine.first found (worker ▸ isFound)
  · intro found early isFound
    exact aged.sorted found (now.trans_lt early) (worker ▸ isFound)
  · intro early
    rw [entries]
    exact aged.ahead (now.trans_lt early)

/-- A new entry comes after all the others. -/
theorem Aged.arrive (aged : Aged s) (wf : Wf next) (worker : next.worker = s.queue.worker)
    {new : Entry} (commands : next.commands = s.queue.commands ++ [.enqueue new])
    (now : next.now = s.queue.now) (newest : new.enqueuedAt = s.queue.now) :
    Aged ⟨next, s.arrived ++ arrivals s.queue next, s.given, s.sortedAt⟩ := by
  have line : queued next = queued s.queue ++ [new] := by
    simp [queued, commands, WorkerCmd.entry?]
  have entries : entriesOf next = entriesOf s.queue ++ [new] := by
    simp only [entriesOf, worker, List.append_assoc]
    exact congrArg _ line
  have came : arrivals s.queue next = [new] := by
    rw [arrivals_append commands]
    simp [WorkerCmd.entry?]
  have clock : next.now = new.enqueuedAt := now.trans newest.symm
  rw [came]
  refine ⟨wf, ?_, now ▸ aged.clock, ?_, now ▸ aged.handed, ⟨?_, ?_⟩, ?_, ?_⟩
  · rw [entries, ← Multiset.coe_add, ← Multiset.coe_add, ← add_assoc]
    exact Multiset.add_le_add_iff_right.mpr aged.kept
  · intro entry inside
    rw [entries] at inside
    rcases List.mem_append.mp inside with old | last
    · exact now ▸ aged.past entry old
    · obtain rfl := List.mem_singleton.mp last
      exact clock.ge
  · rw [line]
    refine List.pairwise_append.mpr ⟨aged.inLine.line, List.pairwise_singleton _ _, ?_⟩
    intro left inside right last
    obtain rfl := List.mem_singleton.mp last
    exact newest ▸ aged.past left (mem_of_queued inside)
  · intro found isFound held inside entry member
    have running := worker ▸ isFound
    rw [line] at member
    rcases List.mem_append.mp member with old | last
    · exact aged.inLine.first found running held inside entry old
    · obtain rfl := List.mem_singleton.mp last
      exact newest ▸ aged.past held (mem_of_worker running inside)
  · intro found early isFound
    exact aged.sorted found (now ▸ early) (worker ▸ isFound)
  · intro early entry inside other handed
    rw [entries] at inside
    rcases List.mem_append.mp inside with old | last
    · exact aged.ahead (now ▸ early) entry old other handed
    · obtain rfl := List.mem_singleton.mp last
      exact .of_earlier (newest ▸ aged.handed other handed)

theorem Aged.send {call : Nat} (aged : Aged s) (wf : Wf next)
    (taken : WeightedQueue.send discipline s.queue call = some next) :
    Aged ⟨next, s.arrived ++ arrivals s.queue next, s.given, s.sortedAt⟩ := by
  unfold WeightedQueue.send at taken
  split at taken
  · split at taken
    · obtain rfl := Option.some.inj taken
      exact aged.arrive wf rfl rfl rfl rfl
    · obtain rfl := Option.some.inj taken
      exact aged.aside wf rfl (List.append_nil _).symm rfl le_rfl
  · cases taken

theorem Aged.poll {call : Nat} (aged : Aged s) (wf : Wf next)
    (taken : s.queue.poll call = some next) :
    Aged ⟨next, s.arrived ++ arrivals s.queue next, s.given, s.sortedAt⟩ := by
  unfold WeightedQueue.poll at taken
  repeat' split at taken
  all_goals
    first
    | cases taken
      exact aged.aside wf rfl (List.append_nil _).symm rfl le_rfl
    | cases taken
      exact aged.aside wf rfl rfl rfl le_rfl
    | cases taken

theorem Aged.step {action : WeightedQueue.Action} {after : Watched} (aged : Aged s)
    (taken : watchedStep s action = some after) : Aged after := by
  obtain ⟨next, moved, rfl⟩ := Option.map_eq_some_iff.mp taken
  have wf := aged.wf.step moved
  cases action with
  | work =>
      obtain ⟨worker, running, worked⟩ := Option.bind_eq_some_iff.mp moved
      obtain rfl : AgePriorityQueue.work s.queue worker = next := Option.some.inj worked
      have none_ : arrivals s.queue (AgePriorityQueue.work s.queue worker) = [] := by
        simp [arrivals, List.drop_eq_nil_of_le (work_commands s.queue worker)]
      simpa [isWork, none_] using aged.work running
  | send call => simpa [isWork] using aged.send wf moved
  | poll call => simpa [isWork] using aged.poll wf moved
  | drop call =>
      have aside : Aged ⟨next, s.arrived ++ arrivals s.queue next, s.given, s.sortedAt⟩ := by
        simp only [WeightedQueue.step, WeightedQueue.dropCall] at moved
        repeat' split at moved
        all_goals
          first
          | cases moved
            exact aged.aside wf rfl (List.append_nil _).symm rfl le_rfl
          | cases moved
      simpa [isWork] using aside
  | enqueue job | dequeue | closeStore =>
      obtain rfl := Option.some.inj moved
      simpa [isWork] using aged.aside wf rfl (List.append_nil _).symm rfl le_rfl
  | tick elapsed =>
      obtain rfl := Option.some.inj moved
      simpa [isWork] using
        aged.aside wf rfl (List.append_nil _).symm rfl (Nat.le_add_right _ elapsed)
  | closeTake =>
      have aside : Aged ⟨next, s.arrived ++ arrivals s.queue next, s.given, s.sortedAt⟩ := by
        simp only [WeightedQueue.step] at moved
        split at moved
        · cases moved
          exact aged.aside wf rfl (List.append_nil _).symm rfl le_rfl
        · cases moved
      simpa [isWork] using aside

theorem Aged.initial : Aged Watched.start := by
  refine ⟨Wf.of_path Path.nil, le_rfl, le_rfl, ?_, ?_, ⟨List.Pairwise.nil, ?_⟩, ?_, ?_⟩
  · simp [Watched.start, entriesOf, WeightedQueue.new, discipline]
  · simp [Watched.start]
  · rintro worker isWorker held inside
    obtain rfl := Option.some.inj isWorker
    cases inside
  · rintro worker _ isWorker _
    obtain rfl := Option.some.inj isWorker
    exact ⟨List.Pairwise.nil, by simp [discipline]⟩
  · simp [Watched.start]

end Steps

/-- Whoever was handed out before a waiting job had come that job's wait, divided by the root of its
cost, before the last sort; so once the queue has handed out as many jobs as had come `lag` before
that sort, the job has not waited the root of its cost times `lag`. -/
theorem age_priority_wait_bounded {actions : List WeightedQueue.Action} {s : Watched}
    {worker : Worker} {entry : Entry} (path : Path watchedStep Always Watched.start actions s)
    (early : s.queue.now < durationBound) (running : s.queue.worker = some worker)
    (settled : worker.Settled) (held : entry ∈ worker.entries) :
    (∀ other ∈ s.given,
      other.enqueuedAt + (s.sortedAt - entry.enqueuedAt) / entry.root ≤ s.sortedAt) ∧
    ∀ lag, s.arrived.countP (fun other => other.enqueuedAt + lag ≤ s.sortedAt) ≤ s.given.length →
      s.sortedAt < entry.enqueuedAt + entry.root * lag := by
  have aged : Aged s := path.invariant Aged.initial fun _ _ _ aged _ taken => aged.step taken
  have past := (aged.sorted worker early running settled).2 entry held
  have waits := mem_of_worker running held
  have ahead : ∀ other ∈ s.given,
      other.enqueuedAt + (s.sortedAt - entry.enqueuedAt) / entry.root ≤ s.sortedAt := by
    intro other handed
    have bound := aged.ahead early entry waits other handed
    unfold Ahead at bound
    omega
  refine ⟨ahead, ?_⟩
  intro lag keepsUp
  by_contra! waited
  have positive := root_pos entry
  have quotient : lag ≤ (s.sortedAt - entry.enqueuedAt) / entry.root := by
    rw [Nat.le_div_iff_mul_le positive, Nat.mul_comm]
    omega
  have own : entry.enqueuedAt + lag ≤ s.sortedAt := by
    have scaled : lag ≤ entry.root * lag := Nat.le_mul_of_pos_left lag positive
    omega
  have counted := Multiset.countP_le_of_le (fun other => other.enqueuedAt + lag ≤ s.sortedAt)
    aged.kept
  rw [Multiset.countP_add, Multiset.coe_countP, Multiset.coe_countP, Multiset.coe_countP] at counted
  have all : s.given.countP (fun other => other.enqueuedAt + lag ≤ s.sortedAt) = s.given.length := by
    apply List.countP_eq_length.mpr
    intro other handed
    have bound := ahead other handed
    exact decide_eq_true (by omega)
  have one : 0 < (entriesOf s.queue).countP (fun other => other.enqueuedAt + lag ≤ s.sortedAt) :=
    List.countP_pos_iff.mpr ⟨entry, waits, decide_eq_true own⟩
  omega

/-- The cheap job of the two is handed out and the dear one waits. -/
def Scenario.dearWaits (s : Watched) : Bool :=
  match s.queue.worker with
  | some ⟨[entry], _, _, .serving⟩ => decide (s.queue.now < durationBound) &&
      decide (entry.root = 2) && decide (entry.enqueuedAt = 10) && decide (s.sortedAt = 15) &&
      decide (s.arrived.countP (fun other => other.enqueuedAt + 6 ≤ s.sortedAt) ≤ s.given.length)
  | _ => false

theorem age_priority_wait_bounded_dear : ∃ s worker entry,
    Path watchedStep Always Watched.start (Scenario.dearLater ++ [.work]) s ∧
      s.queue.worker = some worker ∧ entry ∈ worker.entries ∧ entry.enqueuedAt = 10 ∧
      s.sortedAt = 15 ∧ s.sortedAt < entry.enqueuedAt + 2 * 6 := by
  have ran : (run watchedStep Watched.start (Scenario.dearLater ++ [.work])).any
      Scenario.dearWaits = true := by decide +kernel
  obtain ⟨s, finished, checked⟩ := (Option.any_eq_true _ _).mp ran
  have path := Path.of_run _ _ finished
  unfold Scenario.dearWaits at checked
  split at checked
  next entry waiters needsRebalance running =>
    simp only [Bool.and_eq_true, decide_eq_true_eq] at checked
    obtain ⟨⟨⟨⟨early, root⟩, came⟩, sorted⟩, keepsUp⟩ := checked
    have held : entry ∈ [entry] := List.mem_singleton_self entry
    have bound := (age_priority_wait_bounded path early running trivial held).2 6 keepsUp
    rw [root] at bound
    exact ⟨s, _, entry, path, running, held, came, sorted, bound⟩
  next => cases checked

end AgePriorityQueue

end BitsBroker
