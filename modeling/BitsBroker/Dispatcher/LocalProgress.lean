import BitsBroker.Dispatcher.LocalCall

/-!
A call that waits for a local pool is answered. Its item is in the map with its job in the queue,
or a loop has one of them; as long as one loop is live, the loops and the call can go on until the
call returns the outcome of its work, whatever the other calls have done before.
-/

namespace BitsBroker

open Transition Table DispatcherState

variable {T : Type}

/-- The item is in the map and the job not yet in the queue. -/
def DispatchPc.enters : DispatchPc T → Bool
  | .displacing _ | .enqueue => true
  | _ => false

/-- Where the item of a waiting call is. -/
def Located (c : Nat) (s : DispatcherState T) (caller : Caller T) : Prop :=
  s.pending.lookup caller.jobId = some c ∧
      (caller.pc.enters = true ∨ caller.job ∈ s.queue ∨
        ∃ i : Nat, s.workers[i]? = some (.dequeued caller.job)) ∨
    ∃ (i : Nat) (pc : WorkerPc T), s.workers[i]? = some pc ∧ pc.item = some c

structure QueuedWf (c : Nat) (s : DispatcherState T) : Prop where
  unclosed : s.queueClosed = false
  queued (job : Nat) : job ∈ s.queue → job < s.jobs.length
  dequeued (i job : Nat) : s.workers[i]? = some (.dequeued job) → job < s.jobs.length
  named (i : Nat) (caller : Caller T) : s.callers[i]? = some caller →
    ∃ handle, s.jobs[caller.job]? = some handle ∧ handle.job.id = caller.jobId
  located (caller : Caller T) (item : Item T) : s.callers[c]? = some caller →
    s.items[c]? = some item → caller.pc.early = false → caller.gone = false →
    item.reply = .waiting → Located c s caller

section Invariant

variable {cfg : DispatcherConfig T} {s next : DispatcherState T} {action : DispatcherAction T}
  {i c : Nat} {caller : Caller T} {item : Item T} {outcome : Except ActionError T}

theorem Located.of_same {later : Caller T} (located : Located c s caller)
    (pending : next.pending = s.pending) (queue : next.queue = s.queue)
    (workers : next.workers = s.workers) (job : later.job = caller.job)
    (jobId : later.jobId = caller.jobId)
    (enters : caller.pc.enters = true → later.pc.enters = true) : Located c next later := by
  rcases located with ⟨mapped, place⟩ | held
  · refine Or.inl ⟨by rw [pending, jobId, mapped], ?_⟩
    rcases place with entering | queued | taken
    · exact Or.inl (enters entering)
    · exact Or.inr (Or.inl (by rw [queue, job]; exact queued))
    · exact Or.inr (Or.inr (by rw [workers, job]; exact taken))
  · exact Or.inr (by rw [workers]; exact held)

theorem gone_of_refuse {later : Caller T} (present : s.callers[c]? = some caller)
    (error : ActionError) (here : (refuse s c caller item error).callers[c]? = some later) :
    later.gone = true := by
  have bound := (List.getElem?_eq_some_iff.mp present).1
  simp only [refuse, setPc, put, List.getElem?_set_self bound, Option.some.injEq] at here
  simp [← here, Caller.gone]

theorem early_of_set {moved later : Caller T} (present : s.callers[c]? = some caller)
    (callers : next.callers = s.callers.set c moved) (early : moved.pc.early = true)
    (here : next.callers[c]? = some later) : later.pc.early = true := by
  have bound := (List.getElem?_eq_some_iff.mp present).1
  rw [callers, List.getElem?_set_self bound, Option.some.injEq] at here
  rw [← here]
  exact early

/-- A call that only looks at its job stays where it is. -/
theorem QueuedWf.located_setPc (queued : QueuedWf c s) (present : s.callers[c]? = some caller)
    (known : s.items[c]? = some item) (ongoing : caller.gone = false)
    (waits : caller.pc.waits = true) (inside : caller.pc.enters = false) {moved later : Caller T}
    {pc : DispatchPc T} {changed : Item T}
    (here : (s.setPc c moved pc).callers[c]? = some later)
    (there : (s.setPc c moved pc).items[c]? = some changed) (waiting : changed.reply = .waiting)
    (job : moved.job = caller.job) (jobId : moved.jobId = caller.jobId) :
    Located c (s.setPc c moved pc) later := by
  have bound := (List.getElem?_eq_some_iff.mp present).1
  have before : caller.pc.early = false := by
    cases isPc : caller.pc <;> first | rfl | simp [isPc, DispatchPc.waits] at waits
  simp only [setPc, List.getElem?_set_self bound, Option.some.injEq] at here
  have same : item = changed := Option.some.inj (known.symm.trans there)
  subst here same
  have located := queued.located caller item present known before ongoing waiting
  exact located.of_same rfl rfl rfl job jobId (by simp [inside])

/-- The call itself takes its item no further than the map. -/
theorem located_own (wf : ServedWf outcome c s) (queued : QueuedWf c s)
    (present : s.callers[c]? = some caller) (known : s.items[c]? = some item) {event : CallEvent}
    (served : Served outcome c s (.call c event))
    (taken : dispatchEvent cfg s c caller item event = some next) {later : Caller T}
    {changed : Item T} (laterPresent : next.callers[c]? = some later)
    (changedKnown : next.items[c]? = some changed) (late : later.pc.early = false)
    (unfinished : later.gone = false) (waiting : changed.reply = .waiting) :
    Located c next later := by
  have bound := (List.getElem?_eq_some_iff.mp present).1
  have ok := wf.ok caller item present known
  have ongoing := not_gone_of_event taken
  have refused : ∀ error, (refuse s c caller item error).callers[c]? = some later → False := by
    intro error here
    simp [gone_of_refuse present error here] at unfinished
  have early : ∀ {t : DispatcherState T} {moved : Caller T}, t.callers = s.callers.set c moved →
      moved.pc.early = true → t.callers[c]? = some later → False := by
    intro t moved callers before here
    simp [early_of_set present callers before here] at late
  unfold dispatchEvent at taken
  split at taken
  next pc =>
    unfold dispatchBegun at taken
    repeat' split at taken
    all_goals
      try simp only [Option.some.injEq, reduceCtorEq] at taken
    all_goals subst taken
    next => exact (early rfl rfl laterPresent).elim
    next => exact (refused _ laterPresent).elim
    next => exact (refused _ laterPresent).elim
    next => exact (early rfl rfl laterPresent).elim
    next => exact (early rfl rfl laterPresent).elim
    next => exact (refused _ laterPresent).elim
    next => exact absurd rfl served.undropped
  all_goals
    try simp only [Option.some.injEq, Option.map_eq_some_iff, reduceCtorEq] at taken
  next pc =>
    subst taken
    unfold dispatchAcquire at laterPresent
    repeat' split at laterPresent
    · exact (refused _ laterPresent).elim
    · exact (refused _ laterPresent).elim
    · exact (early rfl rfl laterPresent).elim
  next pc =>
    subst taken
    unfold dispatchBuild at laterPresent
    split at laterPresent
    · exact (refused _ laterPresent).elim
    · exact (early rfl rfl laterPresent).elim
  next pc =>
    subst taken
    unfold dispatchInsert at laterPresent ⊢
    split
    next closing =>
      rw [if_pos closing] at laterPresent
      exact (refused _ laterPresent).elim
    next opened =>
      rw [if_neg opened] at laterPresent
      simp only [setPc, List.getElem?_set_self bound, Option.some.injEq] at laterPresent
      subst laterPresent
      refine Or.inl ⟨?_, Or.inl ?_⟩
      · simp [setPc]
      · cases found : s.pending.lookup caller.jobId <;> rfl
  next d pc =>
    obtain ⟨previous, _, rfl⟩ := taken
    rw [pc] at ok
    have same : changed = item := by
      have there := (List.getElem?_set_ne ok.1).symm.trans changedKnown
      exact (Option.some.inj (known.symm.trans there)).symm
    subst same
    have located := queued.located caller changed present known (by rw [pc]; rfl)
      (by simp [Caller.gone, pc]) waiting
    simp only [setPc, put, List.getElem?_set_self bound, Option.some.injEq] at laterPresent
    subst laterPresent
    exact located.of_same rfl rfl rfl rfl rfl fun _ => rfl
  next pc =>
    subst taken
    simp only [setPc, List.getElem?_set_self bound, Option.some.injEq] at laterPresent
    subst laterPresent
    have same := Option.some.inj (known.symm.trans changedKnown)
    subst same
    have located := queued.located caller item present known (by rw [pc]; rfl)
      (by simp [Caller.gone, pc]) waiting
    rcases located with ⟨mapped, _⟩ | held
    · refine Or.inl ⟨mapped, Or.inr (Or.inl ?_)⟩
      simp [setPc, queued.unclosed]
    · exact Or.inr held
  next pc =>
    subst taken
    unfold dispatchLook at laterPresent changedKnown ⊢
    exact queued.located_setPc present known ongoing (by rw [pc]; rfl) (by rw [pc]; rfl)
      laterPresent changedKnown waiting rfl rfl
  next pc =>
    subst taken
    exact queued.located_setPc present known ongoing (by rw [pc]; rfl) (by rw [pc]; rfl)
      laterPresent changedKnown waiting rfl rfl
  next pc =>
    subst taken
    exact queued.located_setPc present known ongoing (by rw [pc]; rfl) (by rw [pc]; rfl)
      laterPresent changedKnown waiting rfl rfl
  next error pc =>
    rw [pc] at ok
    exact ok.elim
  next pc =>
    rw [pc] at ok
    exact ok.elim
  next error d pc =>
    rw [pc] at ok
    exact ok.elim
  next pc =>
    subst taken
    exact queued.located_setPc present known ongoing (by rw [pc]; rfl) (by rw [pc]; rfl)
      laterPresent changedKnown waiting rfl rfl
  next pc =>
    subst taken
    exact queued.located_setPc present known ongoing (by rw [pc]; rfl) (by rw [pc]; rfl)
      laterPresent changedKnown waiting rfl rfl
  next timer pc =>
    unfold dispatchReceive at taken
    split at taken
    · simp at taken
    next sender value sent =>
      simp only [Option.some.injEq] at taken
      subst taken
      have same := Option.some.inj (known.symm.trans changedKnown)
      simp [← same, sent] at waiting
    next dropped =>
      simp only [Option.some.injEq] at taken
      subst taken
      have same := Option.some.inj (known.symm.trans changedKnown)
      simp [← same, dropped] at waiting
  next timer pc =>
    split at taken
    · simp only [Option.some.injEq] at taken
      subst taken
      exact queued.located_setPc present known ongoing (by rw [pc]; rfl) (by rw [pc]; rfl)
        laterPresent changedKnown waiting rfl rfl
    · simp at taken
  next deadline pc =>
    split at taken
    · simp only [Option.some.injEq] at taken
      subst taken
      exact queued.located_setPc present known ongoing (by rw [pc]; rfl) (by rw [pc]; rfl)
        laterPresent changedKnown waiting rfl rfl
    · simp at taken
  next timer pc => exact absurd rfl served.undropped
  next pc =>
    rw [pc] at ok
    exact ok.elim
  next pc =>
    rw [pc] at ok
    exact ok.elim

/-- Steps that leave the map, the queue, the loops and the call where they are. -/
theorem QueuedWf.of_same (wf : QueuedWf c s) (closed : next.queueClosed = s.queueClosed)
    (queue : next.queue = s.queue) (workers : next.workers = s.workers)
    (callers : next.callers = s.callers) (item : next.items[c]? = s.items[c]?)
    (pending : next.pending = s.pending)
    (jobs : ∀ (job : Nat) (handle : JobHandle), s.jobs[job]? = some handle →
      ∃ later, next.jobs[job]? = some later ∧ later.job = handle.job) : QueuedWf c next where
  unclosed := closed.trans wf.unclosed
  queued := by
    intro job member
    have bound := wf.queued job (queue ▸ member)
    obtain ⟨later, known, _⟩ := jobs job _ (List.getElem?_eq_getElem bound)
    exact (List.getElem?_eq_some_iff.mp known).1
  dequeued := by
    intro i job is
    have bound := wf.dequeued i job (workers ▸ is)
    obtain ⟨later, known, _⟩ := jobs job _ (List.getElem?_eq_getElem bound)
    exact (List.getElem?_eq_some_iff.mp known).1
  named := by
    intro i caller present
    obtain ⟨handle, known, named⟩ := wf.named i caller (callers ▸ present)
    obtain ⟨later, found, same⟩ := jobs _ handle known
    exact ⟨later, found, by rw [same, named]⟩
  located := by
    intro caller changed present known late unfinished waiting
    have before := wf.located caller changed (callers ▸ present) (item ▸ known) late unfinished
      waiting
    exact before.of_same pending queue workers rfl rfl id

theorem QueuedWf.call_step (wf : QueuedWf c s) (present : s.callers[i]? = some caller)
    {later : Caller T} (step : CallStep s next i caller later) (jobs : next.jobs = s.jobs)
    (workers : next.workers = s.workers)
    (located : ∀ own changed, next.callers[c]? = some own → next.items[c]? = some changed →
      own.pc.early = false → own.gone = false → changed.reply = .waiting → Located c next own) :
    QueuedWf c next where
  unclosed := step.closed.trans wf.unclosed
  queued := by
    intro job member
    rw [jobs]
    rcases step.queue with same | grown
    · exact wf.queued job (same ▸ member)
    · rw [grown] at member
      rcases List.mem_append.mp member with old | new
      · exact wf.queued job old
      · obtain ⟨handle, known, _⟩ := wf.named i caller present
        rw [List.mem_singleton.mp new]
        exact (List.getElem?_eq_some_iff.mp known).1
  dequeued := by
    intro j job is
    rw [jobs]
    exact wf.dequeued j job (workers ▸ is)
  named := by
    intro j other found
    rw [step.callers] at found
    rw [jobs]
    rcases getElem?_of_set found with ⟨_, rfl⟩ | ⟨_, away⟩
    · rw [step.job, step.jobId]
      exact wf.named i caller present
    · exact wf.named j other away
  located := located

theorem QueuedWf.own_step (wf : ServedWf outcome c s) (queued : QueuedWf c s)
    (present : s.callers[c]? = some caller) (known : s.items[c]? = some item) {event : CallEvent}
    (served : Served outcome c s (.call c event))
    (taken : dispatchEvent cfg s c caller item event = some next) : QueuedWf c next := by
  have aside := (dispatchEvent_items taken).1
  obtain ⟨workers, _⟩ := dispatchEvent_beside taken
  obtain ⟨moved, step⟩ := dispatchEvent_step taken
  refine queued.call_step present step aside.jobs workers ?_
  intro own changed there found late unfinished waiting
  exact located_own wf queued present known served taken there found late unfinished waiting

theorem QueuedWf.other_step (wf : ServedWf outcome c s) (queued : QueuedWf c s)
    (present : s.callers[i]? = some caller) (different : i ≠ c) {event : CallEvent}
    (served : Served outcome c s (.call i event))
    (taken : dispatchEvent cfg s i caller item event = some next) : QueuedWf c next := by
  obtain ⟨aside, items⟩ := dispatchEvent_items taken
  obtain ⟨workers, _⟩ := dispatchEvent_beside taken
  obtain ⟨moved, step⟩ := dispatchEvent_step taken
  have unfinished := not_gone_of_event taken
  refine queued.call_step present step aside.jobs workers ?_
  intro own changed there found late waits waiting
  rw [step.callers, List.getElem?_set_ne different] at there
  have same : next.items[c]? = s.items[c]? := wf.item_of_other present different items
  rcases queued.located own changed there (same ▸ found) late waits waiting with
    ⟨mapped, place⟩ | held
  · have other : own.jobId ≠ caller.jobId := by
      intro sameId
      have gone := served.alone own caller i there waits present different sameId.symm
      simp [unfinished] at gone
    refine Or.inl ⟨(step.kept _ other).trans mapped, ?_⟩
    rcases place with entering | inQueue | dequeued
    · exact Or.inl entering
    · refine Or.inr (Or.inl ?_)
      rcases step.queue with queue | queue
      · rw [queue]
        exact inQueue
      · rw [queue]
        exact List.mem_append_left _ inQueue
    · exact Or.inr (Or.inr (workers ▸ dequeued))
  · exact Or.inr (workers ▸ held)

/-- A step of a loop that leaves the calls and the jobs alone. -/
theorem QueuedWf.loop_step (wf : QueuedWf c s) {later : WorkerPc T}
    (closed : next.queueClosed = s.queueClosed) (jobs : next.jobs = s.jobs)
    (callers : next.callers = s.callers) (queue : ∀ job ∈ next.queue, job ∈ s.queue)
    (workers : next.workers = s.workers.set i later)
    (dequeued : ∀ job, later = .dequeued job → job ∈ s.queue)
    (located : ∀ own changed, s.callers[c]? = some own → next.items[c]? = some changed →
      own.pc.early = false → own.gone = false → changed.reply = .waiting → Located c next own) :
    QueuedWf c next where
  unclosed := closed.trans wf.unclosed
  queued := by
    intro job member
    rw [jobs]
    exact wf.queued job (queue job member)
  dequeued := by
    intro j job is
    rw [jobs]
    rw [workers] at is
    rcases getElem?_of_set is with ⟨_, here⟩ | ⟨_, away⟩
    · exact wf.queued job (dequeued job here.symm)
    · exact wf.dequeued j job away
  named := by
    intro j other found
    rw [jobs]
    exact wf.named j other (callers ▸ found)
  located := fun own changed there => located own changed (callers ▸ there)

/-- What other loops are doing is not affected. -/
theorem worker_kept {values : List (WorkerPc T)} {j : Nat} {pc other later : WorkerPc T}
    (at_ : values[i]? = some pc) (there : values[j]? = some other) (different : other ≠ pc) :
    (values.set i later)[j]? = some other := by
  have apart : i ≠ j := by
    rintro rfl
    exact different (Option.some.inj (there.symm.trans at_))
  rw [List.getElem?_set_ne apart]
  exact there

theorem Reply.send_ne_waiting (reply : Reply T) (received : Bool) (sender : Remover)
    (value : Except ActionError T) : reply.send received sender value ≠ .waiting := by
  cases reply with
  | waiting => cases received <;> simp [Reply.send]
  | sent by_ result => simp [Reply.send]
  | dropped => simp [Reply.send]

/-- How a loop comes to give up its item. -/
theorem LoopChange.ends {d : Nat} {event : WorkerEvent T} {pc later : WorkerPc T}
    {changed : Item T} (change : LoopChange s d caller item event pc later changed) :
    later.item = some d ∨ pc = .unpermitted d ∧ caller.gone = true ∨
      pc = .running d ∧ event = .panic ∨
      ∃ result, pc = .sending d result ∧ changed =
        { item with reply := item.reply.send (!caller.gone) .executor result } := by
  cases change with
  | skips _ gone => exact Or.inr (Or.inl ⟨rfl, gone⟩)
  | panics panicked => exact Or.inr (Or.inr (Or.inl ⟨rfl, panicked⟩))
  | sends => exact Or.inr (Or.inr (Or.inr ⟨_, rfl, rfl⟩))
  | _ => exact Or.inl rfl

/-- A loop that neither holds the item nor has the job of the call takes a step. -/
theorem Located.loop {own : Caller T} {pc later : WorkerPc T} (located : Located c s own)
    (at_ : s.workers[i]? = some pc) (free : pc.item ≠ some c)
    (workers : next.workers = s.workers.set i later)
    (pending : s.pending.lookup own.jobId = some c →
      next.pending.lookup own.jobId = some c ∧ pc ≠ .dequeued own.job)
    (queue : own.job ∈ s.queue → own.job ∈ next.queue ∨ later = .dequeued own.job) :
    Located c next own := by
  have bound := (List.getElem?_eq_some_iff.mp at_).1
  rcases located with ⟨mapped, place⟩ | ⟨j, other, there, holds⟩
  · obtain ⟨still, unlike⟩ := pending mapped
    refine Or.inl ⟨still, ?_⟩
    rcases place with entering | inQueue | ⟨j, there⟩
    · exact Or.inl entering
    · rcases queue inQueue with stays | taken
      · exact Or.inr (Or.inl stays)
      · exact Or.inr (Or.inr ⟨i, by rw [workers, List.getElem?_set_self bound, taken]⟩)
    · exact Or.inr (Or.inr ⟨j, by rw [workers]; exact worker_kept at_ there unlike.symm⟩)
  · refine Or.inr ⟨j, other, ?_, holds⟩
    rw [workers]
    refine worker_kept at_ there ?_
    rintro rfl
    exact free holds

theorem QueuedWf.worker_step (wf : ServedWf outcome c s) (queued : QueuedWf c s)
    {pc : WorkerPc T} {event : WorkerEvent T} (at_ : s.workers[i]? = some pc)
    (served : Served outcome c s (.worker i event))
    (taken : workerEvent s i pc event = some next) : QueuedWf c next := by
  have bound := (List.getElem?_eq_some_iff.mp at_).1
  cases workerEvent_goes taken with
  | @dequeues index job found is =>
      subst is
      refine queued.loop_step rfl rfl rfl (fun _ => List.mem_of_mem_eraseIdx) rfl ?_ ?_
      · rintro job' ⟨⟩
        exact List.mem_of_getElem? found
      · intro own changed present known late unfinished waiting
        refine (queued.located own changed present known late unfinished waiting).loop at_
          (by simp [WorkerPc.item]) rfl (fun mapped => ⟨mapped, by simp⟩) ?_
        intro inQueue
        by_cases here : job = own.job
        · exact Or.inr (by rw [here])
        · obtain ⟨k, there⟩ := List.mem_iff_getElem?.mp inQueue
          refine Or.inl (List.mem_eraseIdx_iff_getElem?.mpr ⟨k, ?_, there⟩)
          rintro rfl
          exact here (Option.some.inj (found.symm.trans there))
  | exits is =>
      subst is
      refine queued.loop_step rfl rfl rfl (fun _ member => member) rfl (by simp) ?_
      intro own changed present known late unfinished waiting
      exact (queued.located own changed present known late unfinished waiting).loop at_
        (by simp [WorkerPc.item]) rfl (fun mapped => ⟨mapped, by simp⟩) Or.inl
  | @misses job handle submitted absent is =>
      subst is
      refine queued.loop_step rfl rfl rfl (fun _ member => member) rfl (by simp) ?_
      intro own changed present known late unfinished waiting
      refine (queued.located own changed present known late unfinished waiting).loop at_
        (by simp [WorkerPc.item]) rfl (fun mapped => ⟨mapped, ?_⟩) Or.inl
      rintro ⟨⟩
      obtain ⟨found, submitted', named⟩ := queued.named c own present
      obtain rfl := Option.some.inj (submitted.symm.trans submitted')
      rw [named] at absent
      exact absurd (absent.symm.trans mapped) (by simp)
  | @takes job d handle submitted found is =>
      subst is
      refine queued.loop_step rfl rfl rfl (fun _ member => member) rfl (by simp) ?_
      intro own changed present known late unfinished waiting
      have located := queued.located own changed present known late unfinished waiting
      by_cases here : d = c
      · subst here
        exact Or.inr ⟨i, .removed d, List.getElem?_set_self bound, rfl⟩
      · refine located.loop at_ (by simp [WorkerPc.item]) rfl ?_ Or.inl
        intro mapped
        have apart : own.jobId ≠ handle.job.id := by
          intro same
          rw [← same, mapped] at found
          exact here (Option.some.inj found).symm
        refine ⟨?_, ?_⟩
        · simp only [setWorker, take, HashMap.lookup_erase_eq, if_neg apart]
          exact mapped
        · rintro ⟨⟩
          obtain ⟨other, submitted', named⟩ := queued.named c own present
          obtain rfl := Option.some.inj (submitted.symm.trans submitted')
          exact apart named.symm
  | @works _ later d caller item changed holds present known goes change =>
      refine queued.loop_step goes.closed goes.jobs goes.callers (fun _ member => goes.queue ▸ member)
        goes.workers ?_ ?_
      · rintro job rfl
        cases change
      · intro own found there is late unfinished waiting
        by_cases here : d = c
        · subst here
          obtain rfl := Option.some.inj (present.symm.trans there)
          rcases change.ends with stays | ⟨_, ends⟩ | panics | ⟨result, rfl, rfl⟩
          · exact Or.inr ⟨i, later, by rw [goes.workers, List.getElem?_set_self bound], stays⟩
          · simp [unfinished] at ends
          · obtain ⟨running, panicked⟩ := panics
            exact absurd (running ▸ at_) (served.calm i (by rw [panicked]))
          · have same := Option.some.inj (is.symm.trans goes.changed)
            rw [same] at waiting
            exact absurd waiting (Reply.send_ne_waiting _ _ _ _)
        · refine (queued.located own found there ((goes.others c (Ne.symm here)) ▸ is) late unfinished
            waiting).loop at_ ?_ goes.workers (fun mapped => ⟨goes.pending ▸ mapped, ?_⟩)
            (fun inQueue => Or.inl (goes.queue ▸ inQueue))
          · rw [holds]
            simpa using here
          · rintro rfl
            simp [WorkerPc.item] at holds

theorem QueuedWf.step {n : Nat} (pool : cfg.executor = .pool n) (wf : ServedWf outcome c s)
    (queued : QueuedWf c s) (served : Served outcome c s action)
    (taken : dispatcherStep cfg s action = some next) : QueuedWf c next := by
  have same : ∀ (job : Nat) (handle : JobHandle), s.jobs[job]? = some handle →
      ∃ later, s.jobs[job]? = some later ∧ later.job = handle.job :=
    fun _ handle known => ⟨handle, known, rfl⟩
  cases action with
  | advance elapsed | shutdown =>
      simp only [dispatcherStep, Option.some.injEq] at taken
      subst taken
      exact queued.of_same rfl rfl rfl rfl rfl rfl same
  | close => exact absurd rfl served.unclosed
  | submit job =>
      simp only [dispatcherStep, Option.some.injEq] at taken
      subst taken
      refine queued.of_same rfl rfl rfl rfl rfl rfl ?_
      intro j handle known
      refine ⟨handle, ?_, rfl⟩
      rw [List.getElem?_append_left (List.getElem?_eq_some_iff.mp known).1]
      exact known
  | flag job flag =>
      simp only [dispatcherStep, Option.map_eq_some_iff] at taken
      obtain ⟨handle, submitted, rfl⟩ := taken
      refine queued.of_same rfl rfl rfl rfl rfl rfl ?_
      intro j found known
      by_cases here : job = j
      · subst here
        obtain rfl := Option.some.inj (submitted.symm.trans known)
        refine ⟨handle.set flag, ?_, by cases flag <;> rfl⟩
        exact List.getElem?_set_self (List.getElem?_eq_some_iff.mp known).1
      · exact ⟨found, by rw [List.getElem?_set_ne here]; exact known, rfl⟩
  | dispatch job guard =>
      simp only [dispatcherStep, dispatch, Option.map_eq_some_iff] at taken
      obtain ⟨handle, submitted, rfl⟩ := taken
      refine ⟨queued.unclosed, queued.queued, queued.dequeued, ?_, ?_⟩
      · intro i caller present
        rcases getElem?_of_snoc present with old | ⟨_, rfl⟩
        · exact queued.named i caller old
        · exact ⟨handle, submitted, rfl⟩
      · intro caller item present known late unfinished waiting
        rcases getElem?_of_snoc present with old | ⟨_, rfl⟩
        · rcases getElem?_of_snoc known with before | ⟨last, _⟩
          · exact queued.located caller item old before late unfinished waiting
          · have bound := (List.getElem?_eq_some_iff.mp old).1
            have aligned := wf.owned.aligned
            omega
        · simp [DispatchPc.early] at late
  | call i event =>
      simp only [dispatcherStep, Option.bind_eq_some_iff] at taken
      obtain ⟨caller, present, item, known, taken⟩ := taken
      by_cases own : i = c
      · subst own
        exact QueuedWf.own_step wf queued present known served taken
      · exact QueuedWf.other_step wf queued present own served taken
  | worker i event =>
      simp only [dispatcherStep, Option.bind_eq_some_iff] at taken
      obtain ⟨pc, at_, taken⟩ := taken
      exact QueuedWf.worker_step wf queued at_ served taken
  | lose index => exact absurd rfl (served.unlost index)
  | getWork => simp [dispatcherStep, pool] at taken
  | handler i event => simp [dispatcherStep, wf.handlers] at taken
  | heartbeat jobId =>
      simp only [dispatcherStep, heartbeatJob, Option.map_eq_some_iff] at taken
      obtain ⟨entry, _, rfl⟩ := taken
      exact queued.of_same rfl rfl rfl rfl rfl rfl same
  | complete jobId result => simp [dispatcherStep, completeJob, pool] at taken
  | evict jobId => simp [dispatcherStep, evictJob, pool] at taken
  | forward d =>
      simp only [dispatcherStep, Option.bind_eq_some_iff] at taken
      obtain ⟨caller, _, item, known, taken⟩ := taken
      obtain ⟨different, later, rfl⟩ := wf.forward_other known taken
      exact queued.of_same rfl rfl rfl rfl (List.getElem?_set_ne different) rfl same
  | closer i event => simp [dispatcherStep, wf.closers] at taken

theorem QueuedWf.initial (c : Nat) (cfg : DispatcherConfig T) {n : Nat}
    (pool : cfg.executor = .pool n) (now : Nat) : QueuedWf c (DispatcherState.new cfg now) where
  unclosed := rfl
  queued := by simp [DispatcherState.new]
  dequeued := by
    intro i job is
    simp only [DispatcherState.new, pool, List.getElem?_replicate] at is
    split at is <;> simp at is
  named := by simp [DispatcherState.new]
  located := by simp [DispatcherState.new]

end Invariant

/-- What is known at a moment in which the call is served. -/
structure Tended (outcome : Except ActionError T) (c : Nat) (s : DispatcherState T) : Prop where
  wf : ServedWf outcome c s
  queued : QueuedWf c s
  attended : Attended c s
  alone : Alone c s

/-- The steps of a loop that a loop has before it is idle again. -/
def WorkerPc.rank : WorkerPc T → Nat
  | .removed _ => 6
  | .unpermitted _ => 5
  | .polling _ => 4
  | .pollingPollers _ => 3
  | .pollingDeadline _ => 2
  | .running _ => 1
  | _ => 0

/-- The steps that a call has before it waits for its reply. -/
def DispatchPc.rank : DispatchPc T → Nat
  | .displacing _ => 7
  | .enqueue => 6
  | .looking => 5
  | .lookingPollers => 4
  | .lookingDeadline => 3
  | .choosing => 2
  | .arming => 1
  | _ => 0

def Reaches (cfg : DispatcherConfig T) (outcome : Except ActionError T) (c : Nat)
    (s : DispatcherState T) (goal : DispatcherState T → Prop) : Prop :=
  ∃ actions t, Path (dispatcherStep cfg) (Served outcome c) s actions t ∧ Tended outcome c t ∧
    goal t

section Progress

variable {cfg : DispatcherConfig T} {s next : DispatcherState T} {i c : Nat} {caller : Caller T}
  {item : Item T} {outcome : Except ActionError T} {goal later : DispatcherState T → Prop}

theorem Reaches.here (tended : Tended outcome c s) (holds : goal s) : Reaches cfg outcome c s goal :=
  ⟨[], s, Path.nil, tended, holds⟩

theorem Reaches.then (reaches : Reaches cfg outcome c s goal)
    (goes : ∀ t, Tended outcome c t → goal t → Reaches cfg outcome c t later) :
    Reaches cfg outcome c s later := by
  obtain ⟨actions, t, path, tended, holds⟩ := reaches
  obtain ⟨more, last, rest, arrived, done⟩ := goes t tended holds
  exact ⟨actions ++ more, last, path.append rest, arrived, done⟩

theorem Reaches.back {action : DispatcherAction T} (served : Served outcome c s action)
    (taken : dispatcherStep cfg s action = some next)
    (reaches : Reaches cfg outcome c next goal) : Reaches cfg outcome c s goal := by
  obtain ⟨actions, t, path, tended, holds⟩ := reaches
  exact ⟨action :: actions, t, Path.cons served taken path, tended, holds⟩

/-- The loops and the call itself are served in their steps, panics and drops apart. -/
theorem Tended.served_worker (tended : Tended outcome c s) {event : WorkerEvent T}
    (calm : event ≠ .panic) (finishes : ∀ result, event = .finish result → result = outcome) :
    Served outcome c s (.worker i event) where
  attended := tended.attended
  alone := tended.alone
  unclosed := by simp
  undropped := by simp
  unlost := by simp
  finishes := by
    rintro j result ⟨⟩ _
    exact finishes result rfl
  calm := by
    rintro j ⟨⟩
    exact absurd rfl calm

theorem Tended.served_call (tended : Tended outcome c s) {event : CallEvent}
    (undropped : event ≠ .drop) : Served outcome c s (.call c event) where
  attended := tended.attended
  alone := tended.alone
  unclosed := by simp
  undropped := by simpa using undropped
  unlost := by simp
  finishes := by simp
  calm := by simp

theorem LoopMove.still {event : WorkerEvent T} {pc : WorkerPc T}
    (move : LoopMove s next i event pc) :
    next.callers = s.callers ∧ next.jobs = s.jobs ∧ next.now = s.now := by
  cases move with
  | dequeues _ is | exits is | misses _ _ is | takes _ _ is =>
      subst is
      exact ⟨rfl, rfl, rfl⟩
  | works _ _ _ goes _ => exact ⟨goes.callers, goes.jobs, goes.now⟩

/-- A loop starts to look at the deadline when it has seen no poller. -/
theorem LoopMove.pollingDeadline {event : WorkerEvent T} {pc : WorkerPc T}
    (at_ : s.workers[i]? = some pc) (move : LoopMove s next i event pc) {j : Nat}
    (is : next.workers[j]? = some (.pollingDeadline c)) :
    s.workers[j]? = some (.pollingDeadline c) ∨
      ∃ caller, s.callers[c]? = some caller ∧ ¬ 0 < s.pollersOf caller.job := by
  have elsewhere : ∀ {later : WorkerPc T}, later ≠ .pollingDeadline c →
      (s.workers.set i later)[j]? = some (.pollingDeadline c) →
      s.workers[j]? = some (.pollingDeadline c) := by
    intro later other found
    rcases getElem?_of_set found with ⟨_, here⟩ | ⟨_, away⟩
    · exact absurd here.symm other
    · exact away
  cases move with
  | dequeues _ eq | exits eq | misses _ _ eq | takes _ _ eq =>
      subst eq
      exact Or.inl (elsewhere (by simp) is)
  | @works _ later d caller item changed holds present known goes change =>
      rw [goes.workers] at is
      cases change with
      | unpolled _ nobody =>
          rcases getElem?_of_set is with ⟨_, here⟩ | ⟨_, away⟩
          · simp only [WorkerPc.pollingDeadline.injEq] at here
            subst here
            exact Or.inr ⟨caller, present, nobody⟩
          · exact Or.inl away
      | _ => exact Or.inl (elsewhere (by simp) is)

theorem Attended.of_same {later : Caller T} (attended : Attended c s)
    (present : s.callers[c]? = some caller) (there : next.callers[c]? = some later)
    (job : later.job = caller.job) (jobs : next.jobs = s.jobs) (now : next.now = s.now)
    (ahead : (later.pc = .lookingDeadline ∨
      ∃ i : Nat, next.workers[i]? = some (.pollingDeadline c)) →
        s.now < s.deadlineOf caller.job) : Attended c next := by
  have only : ∀ found, next.callers[c]? = some found → found = later :=
    fun found is => Option.some.inj (is.symm.trans there)
  refine ⟨?_, ?_, ?_⟩
  · intro found is
    rw [only found is]
    simpa [cancelledOf, jobs, job] using attended.uncancelled caller present
  · intro found is
    rw [only found is]
    simpa [pollersOf, deadlineOf, jobs, job, now] using attended.present caller present
  · intro found is looks
    rw [only found is] at looks ⊢
    simpa [deadlineOf, jobs, job, now] using ahead looks

theorem Tended.worker {n : Nat} (pool : cfg.executor = .pool n) (tended : Tended outcome c s)
    (present : s.callers[c]? = some caller) {pc : WorkerPc T} (at_ : s.workers[i]? = some pc)
    {event : WorkerEvent T} (served : Served outcome c s (.worker i event))
    (taken : dispatcherStep cfg s (.worker i event) = some next) : Tended outcome c next := by
  have inner := taken
  simp only [dispatcherStep, at_, Option.bind_some] at inner
  have move := workerEvent_goes inner
  obtain ⟨callers, jobs, now⟩ := move.still
  refine ⟨tended.wf.step pool served taken, QueuedWf.step pool tended.wf tended.queued served taken,
    ?_, ?_⟩
  · refine tended.attended.of_same present (callers ▸ present) rfl jobs now ?_
    rintro (looks | ⟨j, is⟩)
    · exact tended.attended.ahead caller present (Or.inl looks)
    · rcases move.pollingDeadline at_ is with before | ⟨own, found, nobody⟩
      · exact tended.attended.ahead caller present (Or.inr ⟨j, before⟩)
      · obtain rfl := Option.some.inj (present.symm.trans found)
        exact (tended.attended.present caller present).resolve_left nobody
  · intro own other j there
    rw [callers] at there ⊢
    exact tended.alone own other j there

theorem Tended.call {n : Nat} (pool : cfg.executor = .pool n) (tended : Tended outcome c s)
    (present : s.callers[c]? = some caller) {event : CallEvent} (undropped : event ≠ .drop)
    (taken : dispatcherStep cfg s (.call c event) = some next)
    (ahead : ∀ moved : Caller T, next.callers[c]? = some moved → moved.pc = .lookingDeadline →
      s.now < s.deadlineOf caller.job) : Tended outcome c next := by
  have served := tended.served_call undropped
  obtain ⟨item, known⟩ := tended.wf.item_of_call present
  have inner := taken
  simp only [dispatcherStep, present, known, Option.bind_some] at inner
  obtain ⟨moved, step⟩ := dispatchEvent_step inner
  have aside := (dispatchEvent_items inner).1
  obtain ⟨workers, _⟩ := dispatchEvent_beside inner
  have bound := (List.getElem?_eq_some_iff.mp present).1
  have there : next.callers[c]? = some moved := by
    rw [step.callers, List.getElem?_set_self bound]
  refine ⟨tended.wf.step pool served taken, QueuedWf.step pool tended.wf tended.queued served taken,
    ?_, ?_⟩
  · refine tended.attended.of_same present there step.job aside.jobs aside.now ?_
    rintro (looks | ⟨j, is⟩)
    · exact ahead moved there looks
    · exact tended.attended.ahead caller present (Or.inr ⟨j, workers ▸ is⟩)
  · intro own other j here unfinished found different same
    obtain rfl := Option.some.inj (there.symm.trans here)
    rw [step.callers, List.getElem?_set_ne (Ne.symm different)] at found
    exact tended.alone caller other j present (not_gone_of_event inner) found different
      (same.trans step.jobId)

/-- A loop with an item has a next step, in which the work resolves if it was running. -/
theorem workerItem_enabled {d : Nat} {pc : WorkerPc T} (holds : pc.item = some d)
    (outcome : Except ActionError T) (s : DispatcherState T) (caller : Caller T) (item : Item T) :
    ∃ event next, event ≠ .panic ∧ (∀ result, event = .finish result → result = outcome) ∧
      workerItem s i d caller item pc event = some next := by
  cases pc with
  | idle | dequeued | exited => simp [WorkerPc.item] at holds
  | running e => exact ⟨.finish outcome, _, by simp, by simp, rfl⟩
  | removed e | polling e | sending e result => exact ⟨.step, _, by simp, by simp, rfl⟩
  | unpermitted e =>
      by_cases gone : caller.gone = true
      · exact ⟨.step, _, by simp, by simp, if_pos gone⟩
      · exact ⟨.step, _, by simp, by simp, if_neg gone⟩
  | pollingPollers e =>
      by_cases polled : 0 < s.pollersOf caller.job
      · exact ⟨.step, _, by simp, by simp, if_pos polled⟩
      · exact ⟨.step, _, by simp, by simp, if_neg polled⟩
  | pollingDeadline e =>
      by_cases ahead : s.now < s.deadlineOf caller.job
      · exact ⟨.step, _, by simp, by simp, if_pos ahead⟩
      · exact ⟨.step, _, by simp, by simp, if_neg ahead⟩

theorem LoopChange.descends {d : Nat} {event : WorkerEvent T} {pc later : WorkerPc T}
    {changed : Item T} (calm : event ≠ .panic)
    (change : LoopChange s d caller item event pc later changed) :
    later.item = some d ∧ later.rank < pc.rank ∨
      later = .idle ∧ (caller.gone = true ∨ changed.reply ≠ .waiting) := by
  cases change with
  | skips _ gone => exact Or.inr ⟨rfl, Or.inl gone⟩
  | sends => exact Or.inr ⟨rfl, Or.inr (Reply.send_ne_waiting _ _ _ _)⟩
  | panics panicked => exact absurd panicked calm
  | @starts pc _ holds live =>
      refine Or.inl ⟨rfl, ?_⟩
      cases pc <;> simp_all [WorkerPc.item, WorkerPc.phase, WorkerPc.rank]
  | _ => exact Or.inl ⟨rfl, by simp [WorkerPc.rank]⟩

/-- One step of a loop with an item. -/
theorem Tended.holding_step {n : Nat} (pool : cfg.executor = .pool n)
    (tended : Tended outcome c s) (present : s.callers[c]? = some caller)
    (unfinished : caller.gone = false) {d : Nat} {pc : WorkerPc T}
    (at_ : s.workers[i]? = some pc) (holds : pc.item = some d) :
    ∃ event next later, Served outcome c s (.worker i event) ∧
      dispatcherStep cfg s (.worker i event) = some next ∧ Tended outcome c next ∧
      next.callers = s.callers ∧ next.workers[i]? = some later ∧
      (later.item = some d ∧ later.rank < pc.rank ∨
        later = .idle ∧ (d = c → ∀ found, next.items[c]? = some found → found.reply ≠ .waiting)) := by
  have held : s.holding (.worker i) = some (d, pc.phase) := by
    rw [holding_worker at_, holds]
    rfl
  obtain ⟨item, known, _⟩ := tended.wf.owned.held _ _ _ held
  have bound := (List.getElem?_eq_some_iff.mp known).1
  rw [tended.wf.owned.aligned] at bound
  obtain ⟨other, there⟩ : ∃ other, s.callers[d]? = some other :=
    ⟨_, List.getElem?_eq_getElem bound⟩
  obtain ⟨event, next, calm, finishes, enabled⟩ :=
    workerItem_enabled (i := i) holds outcome s other item
  obtain ⟨later, changed, goes, change⟩ := workerItem_goes known holds enabled
  have taken : dispatcherStep cfg s (.worker i event) = some next := by
    have falls : workerEvent s i pc event = workerItem s i d other item pc event := by
      cases pc <;> simp_all [workerEvent, WorkerPc.item]
    simp only [dispatcherStep, at_, Option.bind_some, falls, enabled]
  have served := tended.served_worker (i := i) calm finishes
  refine ⟨event, next, later, served, taken, tended.worker pool present at_ served taken,
    goes.callers, ?_, ?_⟩
  · rw [goes.workers, List.getElem?_set_self (List.getElem?_eq_some_iff.mp at_).1]
  · rcases change.descends calm with lower | ⟨idle, ends⟩
    · exact Or.inl lower
    · refine Or.inr ⟨idle, ?_⟩
      rintro rfl found is
      obtain rfl := Option.some.inj (present.symm.trans there)
      obtain rfl := Option.some.inj (is.symm.trans goes.changed)
      rcases ends with gone | answered
      · simp [unfinished] at gone
      · exact answered

/-- A loop with an item comes to be idle, and the call of the item has its reply by then. -/
theorem Tended.idle_of_holding {n : Nat} (pool : cfg.executor = .pool n)
    (unfinished : caller.gone = false) {d : Nat} :
    ∀ (fuel : Nat) {s : DispatcherState T} {pc : WorkerPc T}, Tended outcome c s →
      s.callers[c]? = some caller → s.workers[i]? = some pc →
      pc.item = some d → pc.rank < fuel → Reaches cfg outcome c s fun t =>
        t.workers[i]? = some .idle ∧ t.callers = s.callers ∧
          (d = c → ∀ found, t.items[c]? = some found → found.reply ≠ .waiting) := by
  intro fuel
  induction fuel with
  | zero =>
      intro s pc _ _ _ _ below
      omega
  | succ fuel ih =>
      intro s pc tended present at_ holds below
      obtain ⟨event, next, later, served, taken, after, callers, there, step⟩ :=
        tended.holding_step pool present unfinished at_ holds
      refine .back served taken ?_
      rcases step with ⟨holds, lower⟩ | ⟨rfl, answered⟩
      · have reaches := ih after (callers ▸ present) there holds (by omega)
        refine reaches.then ?_
        rintro t arrived ⟨idle, same, answered⟩
        exact .here arrived ⟨idle, same.trans callers, answered⟩
      · exact .here after ⟨there, callers, answered⟩

/-- A live loop comes to be idle. -/
theorem Tended.idle_of_live {n : Nat} (pool : cfg.executor = .pool n) (tended : Tended outcome c s)
    (present : s.callers[c]? = some caller) (unfinished : caller.gone = false) {pc : WorkerPc T}
    (at_ : s.workers[i]? = some pc) (live : pc.live = true) :
    Reaches cfg outcome c s fun t => t.workers[i]? = some .idle ∧ t.callers = s.callers := by
  have held : ∀ {t : DispatcherState T} {pc : WorkerPc T} {d : Nat}, Tended outcome c t →
      t.callers[c]? = some caller → t.workers[i]? = some pc → pc.item = some d →
      Reaches cfg outcome c t fun u => u.workers[i]? = some .idle ∧ u.callers = t.callers := by
    intro t pc d tended present at_ holds
    have reaches := Tended.idle_of_holding pool unfinished (pc.rank + 1) tended present at_ holds
      (by omega)
    refine reaches.then ?_
    rintro u arrived ⟨idle, same, _⟩
    exact .here arrived ⟨idle, same⟩
  cases holds : pc.item with
  | some d => exact held tended present at_ holds
  | none =>
      cases pc with
      | idle => exact .here tended ⟨at_, rfl⟩
      | exited => simp [WorkerPc.live] at live
      | dequeued job =>
          have bound := tended.queued.dequeued i job at_
          obtain ⟨handle, submitted⟩ : ∃ handle, s.jobs[job]? = some handle :=
            ⟨_, List.getElem?_eq_getElem bound⟩
          have served : Served outcome c s (.worker i .step) :=
            tended.served_worker (by simp) (by simp)
          have here := (List.getElem?_eq_some_iff.mp at_).1
          cases found : s.pending.lookup handle.job.id with
          | none =>
              have taken : dispatcherStep cfg s (.worker i .step) = some (s.setWorker i .idle) := by
                simp [dispatcherStep, at_, workerEvent, workerRemove, submitted, found]
              refine .back served taken (.here ?_ ⟨List.getElem?_set_self here, rfl⟩)
              exact tended.worker pool present at_ served taken
          | some d =>
              have taken : dispatcherStep cfg s (.worker i .step) =
                  some ((s.take handle.job.id d .executor).setWorker i (.removed d)) := by
                simp [dispatcherStep, at_, workerEvent, workerRemove, submitted, found]
              exact .back served taken (held (tended.worker pool present at_ served taken) present
                (List.getElem?_set_self here) rfl)
      | _ => simp [WorkerPc.item] at holds

/-- A step of the call on its way to waiting. -/
structure Descends (c : Nat) (s next : DispatcherState T) (caller moved : Caller T) : Prop where
  there : next.callers[c]? = some moved
  item : next.items[c]? = s.items[c]?
  workers : next.workers = s.workers
  lower : moved.pc.rank < caller.pc.rank
  late : moved.pc.early = false
  unfinished : moved.gone = false
  ahead : moved.pc = .lookingDeadline → s.now < s.deadlineOf caller.job

/-- A call that does not wait yet goes on; nothing makes it give up. -/
theorem Tended.descends (tended : Tended outcome c s) (present : s.callers[c]? = some caller)
    (known : s.items[c]? = some item) (late : caller.pc.early = false)
    (unfinished : caller.gone = false) (unparked : ∀ timer, caller.pc ≠ .parked timer) :
    ∃ next moved, dispatchEvent cfg s c caller item .step = some next ∧
      Descends c s next caller moved := by
  have ok := tended.wf.ok caller item present known
  have uncancelled := tended.attended.uncancelled caller present
  have bound := (List.getElem?_eq_some_iff.mp present).1
  have goes : ∀ later : Caller T, dispatchEvent cfg s c caller item .step =
      some { s with callers := s.callers.set c later } → later.pc.rank < caller.pc.rank →
      later.pc.early = false → later.gone = false →
      (later.pc = .lookingDeadline → s.now < s.deadlineOf caller.job) →
      ∃ next moved, dispatchEvent cfg s c caller item .step = some next ∧
        Descends c s next caller moved :=
    fun later taken lower late unfinished ahead => ⟨_, later, taken,
      ⟨List.getElem?_set_self bound, rfl, rfl, lower, late, unfinished, ahead⟩⟩
  cases pc : caller.pc with
  | begun | acquire | checkClosing | insert => simp [pc, DispatchPc.early] at late
  | parked timer => exact absurd pc (unparked timer)
  | abandoning | rechecking | discarding | awaitReply =>
      rw [pc] at ok
      exact ok.elim
  | returned | dropped => simp [Caller.gone, pc] at unfinished
  | displacing d =>
      rw [pc] at ok
      have held : s.holding (.call c) = some (d, .live) := by
        simp [holding, present, pc, DispatchPc.item]
      obtain ⟨previous, found, _⟩ := tended.wf.owned.held _ _ _ held
      have taken : dispatchEvent cfg s c caller item .step =
          some ((s.put d previous previous.discard).setPc c caller .enqueue) := by
        rw [dispatchEvent_at pc]
        exact congrArg (Option.map _) found
      refine ⟨_, { caller with pc := .enqueue }, taken, List.getElem?_set_self bound,
        List.getElem?_set_ne ok.1, rfl, ?_, rfl, rfl, ?_⟩
      · simp [pc, DispatchPc.rank]
      · simp
  | enqueue =>
      refine ⟨_, { caller with pc := .looking }, dispatchEvent_at pc, List.getElem?_set_self bound,
        rfl, rfl, ?_, rfl, rfl, ?_⟩
      · simp [pc, DispatchPc.rank]
      · simp
  | looking =>
      let armed : Caller T := { caller with armed := s.notificationsOf caller.job }
      have steps : dispatchEvent cfg s c caller item .step = some (dispatchLook s c caller) :=
        dispatchEvent_at pc
      cases guard : caller.guard with
      | none | cancelled =>
          refine goes { armed with pc := .choosing } ?_ ?_ rfl rfl (by simp)
          · rw [steps]
            simp [dispatchLook, guard, uncancelled, setPc, armed]
          · simp [pc, DispatchPc.rank]
      | cancelledOrClientGone =>
          refine goes { armed with pc := .lookingPollers } ?_ ?_ rfl rfl (by simp)
          · rw [steps]
            simp [dispatchLook, guard, uncancelled, setPc, armed]
          · simp [pc, DispatchPc.rank]
  | lookingPollers =>
      have steps : dispatchEvent cfg s c caller item .step = some (s.setPc c caller
          (if 0 < s.pollersOf caller.job then .choosing else .lookingDeadline)) :=
        dispatchEvent_at pc
      by_cases polled : 0 < s.pollersOf caller.job
      · refine goes { caller with pc := .choosing } ?_ ?_ rfl rfl (by simp)
        · rw [steps, if_pos polled]
          rfl
        · simp [pc, DispatchPc.rank]
      · refine goes { caller with pc := .lookingDeadline } ?_ ?_ rfl rfl ?_
        · rw [steps, if_neg polled]
          rfl
        · simp [pc, DispatchPc.rank]
        · intro _
          exact (tended.attended.present caller present).resolve_left polled
  | lookingDeadline =>
      have steps : dispatchEvent cfg s c caller item .step = some (s.setPc c caller
          (if s.now < s.deadlineOf caller.job then .choosing else .abandoning .clientGone)) :=
        dispatchEvent_at pc
      have ahead := tended.attended.ahead caller present (Or.inl pc)
      refine goes { caller with pc := .choosing } ?_ ?_ rfl rfl (by simp)
      · rw [steps, if_pos ahead]
        rfl
      · simp [pc, DispatchPc.rank]
  | choosing =>
      have steps : dispatchEvent cfg s c caller item .step =
          some (s.setPc c caller (dispatchPark s caller)) := dispatchEvent_at pc
      by_cases arms : caller.guard = .cancelledOrClientGone ∧ s.pollersOf caller.job = 0
      · refine goes { caller with pc := .arming } ?_ ?_ rfl rfl (by simp)
        · rw [steps, dispatchPark, if_pos arms]
          rfl
        · simp [pc, DispatchPc.rank]
      · refine goes { caller with pc := .parked none } ?_ ?_ rfl rfl (by simp)
        · rw [steps, dispatchPark, if_neg arms]
          rfl
        · simp [pc, DispatchPc.rank]
  | arming =>
      refine goes { caller with pc := .parked (some (s.deadlineOf caller.job)) } ?_ ?_ rfl rfl
        (by simp)
      · exact dispatchEvent_at pc
      · simp [pc, DispatchPc.rank]

/-- The call comes to wait for its reply. -/
theorem Tended.parks {n : Nat} (pool : cfg.executor = .pool n) :
    ∀ (fuel : Nat) {s : DispatcherState T} {caller : Caller T}, Tended outcome c s →
      s.callers[c]? = some caller → caller.pc.early = false → caller.gone = false →
      caller.pc.rank < fuel → Reaches cfg outcome c s fun t =>
        ∃ moved timer, t.callers[c]? = some moved ∧ moved.pc = .parked timer ∧
          t.workers = s.workers := by
  intro fuel
  induction fuel with
  | zero =>
      intro s caller _ _ _ _ below
      omega
  | succ fuel ih =>
      intro s caller tended present late unfinished below
      by_cases parked : ∃ timer, caller.pc = .parked timer
      · obtain ⟨timer, pc⟩ := parked
        exact .here tended ⟨caller, timer, present, pc, rfl⟩
      · obtain ⟨item, known⟩ := tended.wf.item_of_call present
        obtain ⟨next, moved, steps, down⟩ : ∃ next moved,
            dispatchEvent cfg s c caller item .step = some next ∧ Descends c s next caller moved :=
          tended.descends present known late unfinished fun timer is => parked ⟨timer, is⟩
        have taken : dispatcherStep cfg s (.call c .step) = some next := by
          simp only [dispatcherStep, present, known, Option.bind_some, steps]
        have after : Tended outcome c next := by
          refine tended.call pool present (by simp) taken ?_
          intro found is
          obtain rfl := Option.some.inj (is.symm.trans down.there)
          exact down.ahead
        refine .back (tended.served_call (by simp)) taken ?_
        have lower := down.lower
        refine (ih after down.there down.late down.unfinished (by omega)).then ?_
        rintro t arrived ⟨last, timer, there, pc, workers⟩
        exact .here arrived ⟨last, timer, there, pc, workers.trans down.workers⟩

/-- The call has returned the outcome of its work. -/
def CallAnswered (outcome : Except ActionError T) (c : Nat) (t : DispatcherState T) : Prop :=
  ∃ caller, t.callers[c]? = some caller ∧ caller.pc = .returned .answered outcome

/-- A waiting call receives its reply. -/
theorem Tended.receives {n : Nat} (pool : cfg.executor = .pool n) (tended : Tended outcome c s)
    (present : s.callers[c]? = some caller) {timer : Option Nat} (pc : caller.pc = .parked timer)
    (known : s.items[c]? = some item) (used : item.reply ≠ .waiting) :
    Reaches cfg outcome c s (CallAnswered outcome c) := by
  have ok := tended.wf.ok caller item present known
  rw [pc] at ok
  rcases ok with waiting | ⟨⟨sender, sent⟩, _⟩
  · exact absurd waiting used
  · have taken : dispatcherStep cfg s (.call c .reply) =
        some (s.setPc c caller (.returned .answered outcome)) :=
      receives_of_resting present known (by rw [pc]; rfl) sent
    have bound := (List.getElem?_eq_some_iff.mp present).1
    have there : (s.setPc c caller (.returned .answered outcome)).callers[c]? =
        some { caller with pc := .returned .answered outcome } := List.getElem?_set_self bound
    refine .back (tended.served_call (by simp)) taken (.here ?_ ⟨_, there, rfl⟩)
    refine tended.call pool present (by simp) taken ?_
    intro moved is looks
    obtain rfl := Option.some.inj (is.symm.trans there)
    simp at looks

/-- A loop that has the item of a waiting call. -/
theorem Tended.answers_held {n : Nat} (pool : cfg.executor = .pool n) (tended : Tended outcome c s)
    (present : s.callers[c]? = some caller) {timer : Option Nat} (pc : caller.pc = .parked timer)
    {at_ : WorkerPc T} (there : s.workers[i]? = some at_) (holds : at_.item = some c) :
    Reaches cfg outcome c s (CallAnswered outcome c) := by
  have unfinished : caller.gone = false := by simp [Caller.gone, pc]
  have reaches := Tended.idle_of_holding pool unfinished (at_.rank + 1) tended present there holds
    (by omega)
  refine reaches.then ?_
  rintro t arrived ⟨_, callers, replied⟩
  have waits : t.callers[c]? = some caller := callers ▸ present
  obtain ⟨item, known⟩ := arrived.wf.item_of_call waits
  exact arrived.receives pool waits pc known (replied rfl item known)

/-- A loop that has taken the job of a waiting call out of the queue. -/
theorem Tended.answers_dequeued {n : Nat} (pool : cfg.executor = .pool n)
    (tended : Tended outcome c s) (present : s.callers[c]? = some caller) {timer : Option Nat}
    (pc : caller.pc = .parked timer) (mapped : s.pending.lookup caller.jobId = some c)
    (at_ : s.workers[i]? = some (.dequeued caller.job)) :
    Reaches cfg outcome c s (CallAnswered outcome c) := by
  obtain ⟨handle, submitted, named⟩ := tended.queued.named c caller present
  have bound := (List.getElem?_eq_some_iff.mp at_).1
  have served : Served outcome c s (.worker i .step) := tended.served_worker (by simp) (by simp)
  have taken : dispatcherStep cfg s (.worker i .step) =
      some ((s.take handle.job.id c .executor).setWorker i (.removed c)) := by
    have found : s.pending.lookup handle.job.id = some c := by rw [named, mapped]
    simp [dispatcherStep, at_, workerEvent, workerRemove, submitted, found]
  have after := tended.worker pool present at_ served taken
  refine .back served taken ?_
  exact after.answers_held pool present pc (List.getElem?_set_self bound) rfl

/-- An idle loop takes the job of a waiting call. -/
theorem Tended.answers_queued {n : Nat} (pool : cfg.executor = .pool n)
    (tended : Tended outcome c s) (present : s.callers[c]? = some caller) {timer : Option Nat}
    (pc : caller.pc = .parked timer) (mapped : s.pending.lookup caller.jobId = some c)
    (queued : caller.job ∈ s.queue) (idle : s.workers[i]? = some .idle) :
    Reaches cfg outcome c s (CallAnswered outcome c) := by
  obtain ⟨index, found⟩ := List.mem_iff_getElem?.mp queued
  have bound := (List.getElem?_eq_some_iff.mp idle).1
  have served : Served outcome c s (.worker i (.dequeue index)) :=
    tended.served_worker (by simp) (by simp)
  have taken : dispatcherStep cfg s (.worker i (.dequeue index)) = some
      ({ s with queue := s.queue.eraseIdx index }.setWorker i (.dequeued caller.job)) := by
    simp [dispatcherStep, idle, workerEvent, found]
  have after := tended.worker pool present idle served taken
  refine .back served taken ?_
  exact after.answers_dequeued pool present pc mapped (List.getElem?_set_self bound)

/-- A call that has put its item into the map of a pool with a live loop comes to be answered. -/
theorem Tended.answers {n : Nat} (pool : cfg.executor = .pool n) (tended : Tended outcome c s)
    (present : s.callers[c]? = some caller) (late : caller.pc.early = false)
    (unfinished : caller.gone = false) {pc : WorkerPc T} (there : s.workers[i]? = some pc)
    (live : pc.live = true) : Reaches cfg outcome c s (CallAnswered outcome c) := by
  refine (Tended.parks pool (caller.pc.rank + 1) tended present late unfinished (by omega)).then ?_
  rintro t parked ⟨moved, timer, waits, rests, workers⟩
  have still : moved.gone = false := by simp [Caller.gone, rests]
  refine (parked.idle_of_live pool waits still (workers ▸ there) live).then ?_
  rintro u resting ⟨idle, callers⟩
  have here : u.callers[c]? = some moved := callers ▸ waits
  obtain ⟨item, known⟩ := resting.wf.item_of_call here
  by_cases waiting : item.reply = .waiting
  · rcases resting.queued.located moved item here known (by rw [rests]; rfl) still waiting with
      ⟨mapped, entering | queued | ⟨j, dequeued⟩⟩ | ⟨j, at_, working, holds⟩
    · simp [rests, DispatchPc.enters] at entering
    · exact resting.answers_queued pool here rests mapped queued idle
    · exact resting.answers_dequeued pool here rests mapped dequeued
    · exact resting.answers_held pool here rests working holds
  · exact resting.receives pool here rests known waiting

end Progress

end BitsBroker
