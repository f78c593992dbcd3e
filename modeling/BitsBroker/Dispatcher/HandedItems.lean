import BitsBroker.Dispatcher.Closing
import BitsBroker.Dispatcher.Resolution

/-!
An item that a `GET /work` handler took out of the map. Until the handler has started the forwarding
task it answers for the item: it ends the reply channel, or enters the job into the table and starts
the task. The outcome of the job is open while its entry is in the table, or while the handler that
overwrote the entry has not dropped it. All of this holds whatever the identifiers of the jobs are.
-/

namespace BitsBroker

open Transition Table DispatcherState

variable {T : Type}

/-- The item for which the handler has to answer. -/
def HandlerPc.carries : HandlerPc → Option Nat
  | .displacing c _ | .spawning c => some c
  | pc => pc.checks.map (·.2)

/-- The item that the handler has entered into the table. -/
def HandlerPc.claimed : HandlerPc → Option Nat
  | .displacing c _ | .spawning c => some c
  | _ => none

/-- The item whose entry the handler has overwritten. -/
def HandlerPc.overwrites : HandlerPc → Option Nat
  | .displacing _ previous => some previous
  | _ => none

/-- The step opens, settles and forwards no outcome. -/
def KeepsClaims (s next : DispatcherState T) : Prop :=
  ∀ (c : Nat) (later : Item T), next.items[c]? = some later →
    s.items.length ≤ c ∧ later.outcome = .unclaimed ∧ later.spawned = false ∨
      ∃ item, s.items[c]? = some item ∧ later.outcome = item.outcome ∧
        later.spawned = item.spawned

/-- A step as far as the handlers, the table and the outcomes are concerned. -/
inductive HandStep (s next : DispatcherState T) : Prop
  | aside : next.handlers = s.handlers ∨ next.handlers = s.handlers ++ [.waiting] →
      next.inProgress = s.inProgress → KeepsClaims s next →
      (∀ c, next.remover c = some .executor → s.remover c = some .executor) → HandStep s next
  | passed {i : Nat} {pc later : HandlerPc} : s.handlers[i]? = some pc →
      next.handlers = s.handlers.set i later → pc.claimed = none → later.claimed = none →
      (∀ claim, later.checks = some claim → pc.checks = some claim) →
      (∀ c, pc.carries = some c → later.carries = some c ∨
        ∀ item, next.items[c]? = some item → item.reply ≠ .waiting) →
      next.inProgress = s.inProgress → KeepsClaims s next → next.remover = s.remover →
      HandStep s next
  | took {i job c : Nat} {handle : JobHandle} : s.handlers[i]? = some (.dequeued job) →
      s.jobs[job]? = some handle → s.pending.lookup handle.job.id = some c →
      next.handlers = s.handlers.set i (.removed job c) → next.jobs = s.jobs →
      next.inProgress = s.inProgress → next.items = s.items →
      next.remover = Function.update s.remover c (some .executor) → HandStep s next
  | claimed {i job c : Nat} {handle : JobHandle} {item : Item T} {later : HandlerPc} :
      s.handlers[i]? = some (.claiming job c) → s.jobs[job]? = some handle →
      s.items[c]? = some item → next.handlers = s.handlers.set i later →
      (∃ entry, s.inProgress.lookup handle.job.id = some entry ∧
          later = .displacing c entry.item) ∨
        s.inProgress.lookup handle.job.id = none ∧ later = .spawning c →
      next.inProgress = AList.insert handle.job.id ⟨c, s.now⟩ s.inProgress →
      next.items = s.items.set c { item with outcome := .waiting } →
      next.remover = s.remover → HandStep s next
  | displaced {i c previous : Nat} {item : Item T} :
      s.handlers[i]? = some (.displacing c previous) → s.items[previous]? = some item →
      next.handlers = s.handlers.set i (.spawning c) → next.inProgress = s.inProgress →
      next.items = s.items.set previous { item with outcome := .dropped } →
      next.remover = s.remover → HandStep s next
  | spawned {i c : Nat} {item : Item T} : s.handlers[i]? = some (.spawning c) →
      s.items[c]? = some item → next.handlers = s.handlers.set i (.leaving c) →
      next.inProgress = s.inProgress → next.items = s.items.set c { item with spawned := true } →
      next.remover = s.remover → HandStep s next
  | beat {jobId : String} {entry : InProgressJob} : s.inProgress.lookup jobId = some entry →
      next.handlers = s.handlers →
      next.inProgress = AList.insert jobId { entry with lastHeartbeat := s.now } s.inProgress →
      next.items = s.items → next.remover = s.remover → HandStep s next
  | settled {jobId : String} {entry : InProgressJob} {item : Item T} {outcome : Outcome T} :
      s.inProgress.lookup jobId = some entry → s.items[entry.item]? = some item →
      outcome.settled = true → next.handlers = s.handlers →
      next.inProgress = AList.erase jobId s.inProgress →
      next.items = s.items.set entry.item { item with outcome := outcome } →
      next.remover = s.remover → HandStep s next
  | forwarded {c : Nat} {item : Item T} {reply : Reply T} : s.items[c]? = some item →
      reply ≠ .waiting → next.handlers = s.handlers → next.inProgress = s.inProgress →
      next.items = s.items.set c { item with spawned := false, reply := reply } →
      next.remover = s.remover → HandStep s next

section Inversion

variable {cfg : DispatcherConfig T} {s next : DispatcherState T} {action : DispatcherAction T}
  {i c : Nat} {caller : Caller T} {item : Item T}

theorem KeepsClaims.of_same (same : next.items = s.items) : KeepsClaims s next :=
  fun _ later known => Or.inr ⟨later, same ▸ known, rfl, rfl⟩

theorem KeepsClaims.of_set {d : Nat} {old changed : Item T} (known : s.items[d]? = some old)
    (items : next.items = s.items.set d changed) (outcome : changed.outcome = old.outcome)
    (spawned : changed.spawned = old.spawned) : KeepsClaims s next := by
  intro c later found
  rw [items] at found
  rcases getElem?_of_set found with ⟨rfl, rfl⟩ | ⟨_, away⟩
  · exact Or.inr ⟨old, known, outcome, spawned⟩
  · exact Or.inr ⟨later, away, rfl, rfl⟩

theorem CallItems.keeps (step : CallItems s i caller item next.items)
    (known : s.items[i]? = some item) : KeepsClaims s next := by
  generalize listed : next.items = items at step
  cases step with
  | same => exact .of_same listed
  | own _ outcome spawned => exact .of_set known listed outcome spawned
  | dropped _ _ found => exact .of_set found listed rfl rfl

theorem CallDepth.executed {jobId : String} {event : CallEvent} {pc later : DispatchPc T}
    (depth : CallDepth s next i jobId event pc later) (c : Nat)
    (executed : next.remover c = some .executor) : s.remover c = some .executor := by
  cases depth with
  | same same _ _ _ _ | displaced same | enqueued _ same | discarded _ same =>
      exact same.remover ▸ executed
  | inserted _ _ remover _ => exact remover ▸ executed
  | @recalled _ _ d takes _ _ =>
      rw [takes.remover] at executed
      by_cases here : c = d
      · simp [here] at executed
      · simpa [Function.update_of_ne here] using executed

theorem closerEvent_hand {pc : CloserPc} {event : CloserEvent}
    (taken : closerEvent s i pc event = some next) : HandStep s next := by
  unfold closerEvent at taken
  split at taken
  all_goals
    try simp only [Option.some.injEq, Option.bind_eq_some_iff, Option.map_eq_some_iff,
      reduceCtorEq] at taken
  iterate 3
    next => exact taken ▸ .aside (Or.inl rfl) rfl (.of_same rfl) fun _ executed => executed
  next jobId =>
    obtain ⟨d, _, item, known, rfl⟩ := taken
    refine .aside (Or.inl rfl) rfl (.of_set known rfl rfl rfl) fun c executed => ?_
    by_cases here : c = d
    · simp [here, setCloser, put, take] at executed
    · simpa [setCloser, put, take, Function.update_of_ne here] using executed
  next =>
    split at taken
    · simp only [Option.some.injEq] at taken
      exact taken ▸ .aside (Or.inl rfl) rfl (.of_same rfl) fun _ executed => executed
    · simp at taken
  next =>
    obtain ⟨caller, _, item, known, rfl⟩ := taken
    exact .aside (Or.inl rfl) rfl (.of_set known rfl rfl rfl) fun _ executed => executed
  next => exact taken ▸ .aside (Or.inl rfl) rfl (.of_same rfl) fun _ executed => executed

theorem handlerRefuse_hand {pc : HandlerPc} {error : ActionError}
    (present : s.handlers[i]? = some pc) (known : s.items[c]? = some item)
    (unclaimed : pc.claimed = none) (own : ∀ d, pc.carries = some d → d = c) :
    HandStep s (handlerRefuse s i c caller item error) := by
  refine @HandStep.passed _ _ _ i pc (.leaving c) present rfl unclaimed rfl
    (by simp [HandlerPc.checks]) ?_ rfl (.of_set known rfl rfl rfl) rfl
  intro d carried
  obtain rfl := own d carried
  refine Or.inr fun later found => ?_
  have bound := (List.getElem?_eq_some_iff.mp known).1
  simp only [handlerRefuse, setHandler, put, List.getElem?_set_self bound, Option.some.injEq] at found
  rw [← found]
  exact Reply.send_ne_waiting _ _ _ _

/-- The handler looks at the job and goes on with the item. -/
theorem HandStep.of_look {pc later : HandlerPc} {claim : Nat × Nat}
    (present : s.handlers[i]? = some pc) (before : pc.checks = some claim)
    (after : later.checks = some claim) : HandStep s (s.setHandler i later) := by
  refine .passed present rfl ?_ ?_ ?_ ?_ rfl (.of_same rfl) rfl
  · cases pc <;> first | rfl | simp [HandlerPc.checks] at before
  · cases later <;> first | rfl | simp [HandlerPc.checks] at after
  · intro other is
    rw [before, ← after, is]
  · intro c carried
    refine Or.inl ?_
    have same : later.carries = pc.carries := by
      cases pc <;> cases later <;>
        simp_all [HandlerPc.checks, HandlerPc.carries]
    rw [same, carried]

theorem handlerItem_hand {pc : HandlerPc} (present : s.handlers[i]? = some pc)
    (holds : pc.item = some c) (known : s.items[c]? = some item)
    (taken : handlerItem s i c caller item pc = some next) : HandStep s next := by
  have bound := (List.getElem?_eq_some_iff.mp known).1
  unfold handlerItem at taken
  split at taken
  all_goals
    simp only [HandlerPc.item, Option.some.injEq] at holds
    try subst holds
  next job _ =>
    rw [← Option.some.inj taken]
    refine .passed present rfl rfl rfl (by simp [HandlerPc.checks]) ?_ rfl
      (.of_set known rfl rfl rfl) rfl
    exact fun _ carried => Or.inl carried
  next job _ =>
    split at taken
    · rw [← Option.some.inj taken]
      refine .passed present rfl rfl rfl (by simp [HandlerPc.checks]) ?_ rfl
        (.of_set known rfl rfl rfl) rfl
      intro d carried
      simp only [HandlerPc.carries, HandlerPc.checks, Option.map_some, Option.some.injEq] at carried
      subst carried
      refine Or.inr fun later found => ?_
      simp only [setHandler, put, List.getElem?_set_self bound, Option.some.injEq] at found
      rw [← found]
      exact Reply.drop_ne_waiting
    · rw [← Option.some.inj taken]
      exact .of_look present rfl rfl
  next job _ =>
    rw [← Option.some.inj taken]
    unfold handlerCheck
    repeat' split
    all_goals
      first
      | exact .of_look present rfl rfl
      | exact handlerRefuse_hand present known rfl (by simp [HandlerPc.carries, HandlerPc.checks])
  next job _ =>
    split at taken <;> exact Option.some.inj taken ▸ .of_look present rfl rfl
  next job _ =>
    split at taken
    · exact Option.some.inj taken ▸ .of_look present rfl rfl
    · rw [← Option.some.inj taken]
      exact handlerRefuse_hand present known rfl (by simp [HandlerPc.carries, HandlerPc.checks])
  next job _ =>
    simp only [handlerClaim, Option.map_eq_some_iff] at taken
    obtain ⟨handle, submitted, rfl⟩ := taken
    refine .claimed present submitted known rfl ?_ rfl rfl rfl
    cases found : s.inProgress.lookup handle.job.id with
    | some entry => exact Or.inl ⟨entry, rfl, rfl⟩
    | none => exact Or.inr ⟨rfl, rfl⟩
  next previous =>
    simp only [Option.map_eq_some_iff] at taken
    obtain ⟨displaced, found, rfl⟩ := taken
    exact .displaced present found rfl rfl rfl rfl
  next => exact Option.some.inj taken ▸ .spawned present known rfl rfl rfl rfl
  next =>
    rw [← Option.some.inj taken]
    exact .passed present rfl rfl rfl (by simp [HandlerPc.checks])
      (by simp [HandlerPc.carries, HandlerPc.checks]) rfl (.of_set known rfl rfl rfl) rfl
  next => simp at taken

theorem handlerEvent_hand {pc : HandlerPc} {event : HandlerEvent}
    (present : s.handlers[i]? = some pc) (taken : handlerEvent s i pc event = some next) :
    HandStep s next := by
  have idle : ∀ {before later : HandlerPc} {queue : List Nat}, s.handlers[i]? = some before →
      before.carries = none → before.claimed = none → later.claimed = none → later.checks = none →
      HandStep s ({ s with queue := queue }.setHandler i later) := by
    intro before later queue there carries unclaimed outside away
    exact .passed there rfl unclaimed outside (by simp [away]) (by simp [carries]) rfl
      (.of_same rfl) rfl
  unfold handlerEvent at taken
  split at taken
  · split at taken
    · simp only [Option.map_eq_some_iff] at taken
      obtain ⟨job, _, rfl⟩ := taken
      exact idle present rfl rfl rfl rfl
    · simp at taken
  · split at taken
    · exact Option.some.inj taken ▸ idle present rfl rfl rfl rfl
    · simp at taken
  · split at taken
    next job =>
      simp only [handlerRemove, Option.map_eq_some_iff] at taken
      obtain ⟨handle, submitted, rfl⟩ := taken
      split
      · exact idle present rfl rfl rfl rfl
      next d found => exact .took present submitted found rfl rfl rfl rfl rfl
    next pc _ =>
      simp only [Option.bind_eq_some_iff] at taken
      obtain ⟨d, holds, caller, _, item, known, taken⟩ := taken
      exact handlerItem_hand present holds known taken

theorem settle_hand {jobId : String} {outcome : Outcome T} (ends : outcome.settled = true)
    (taken : settle s jobId outcome = some next) : HandStep s next := by
  simp only [settle, Option.bind_eq_some_iff, Option.map_eq_some_iff] at taken
  obtain ⟨entry, found, item, known, rfl⟩ := taken
  exact .settled found known ends rfl rfl rfl rfl

theorem forwardOutcome_hand (known : s.items[c]? = some item)
    (taken : forwardOutcome s c caller item = some next) : HandStep s next := by
  unfold forwardOutcome at taken
  split at taken
  · split at taken
    · exact Option.some.inj taken ▸
        .forwarded known (Reply.send_ne_waiting _ _ _ _) rfl rfl rfl rfl
    · exact Option.some.inj taken ▸
        .forwarded known (Reply.send_ne_waiting _ _ _ _) rfl rfl rfl rfl
    · simp at taken
  · simp at taken

theorem dispatcherStep_hand (remote : s.workers = [])
    (taken : dispatcherStep cfg s action = some next) : HandStep s next := by
  cases action with
  | advance | submit | shutdown | close =>
      exact Option.some.inj taken ▸ .aside (Or.inl rfl) rfl (.of_same rfl) fun _ executed => executed
  | flag =>
      simp only [dispatcherStep, Option.map_eq_some_iff] at taken
      obtain ⟨handle, _, rfl⟩ := taken
      exact .aside (Or.inl rfl) rfl (.of_same rfl) fun _ executed => executed
  | dispatch job guard =>
      simp only [dispatcherStep, dispatch, Option.map_eq_some_iff] at taken
      obtain ⟨handle, _, rfl⟩ := taken
      refine .aside (Or.inl rfl) rfl ?_ fun _ executed => executed
      intro c later found
      rcases getElem?_of_snoc found with old | ⟨rfl, rfl⟩
      · exact Or.inr ⟨later, old, rfl, rfl⟩
      · exact Or.inl ⟨le_rfl, rfl, rfl⟩
  | call i event =>
      simp only [dispatcherStep, Option.bind_eq_some_iff] at taken
      obtain ⟨caller, present, item, known, taken⟩ := taken
      obtain ⟨aside, items⟩ := dispatchEvent_items taken
      obtain ⟨_, _, depth⟩ := dispatchEvent_depth taken
      exact .aside (Or.inl aside.handlers) aside.inProgress (items.keeps known) depth.executed
  | worker i event => simp [dispatcherStep, remote] at taken
  | lose index =>
      simp only [dispatcherStep] at taken
      split at taken
      · exact Option.some.inj taken ▸
          .aside (Or.inl rfl) rfl (.of_same rfl) fun _ executed => executed
      · simp at taken
  | getWork =>
      simp only [dispatcherStep] at taken
      split at taken
      · simp at taken
      · exact Option.some.inj taken ▸
          .aside (Or.inr rfl) rfl (.of_same rfl) fun _ executed => executed
  | handler i event =>
      simp only [dispatcherStep, Option.bind_eq_some_iff] at taken
      obtain ⟨pc, present, taken⟩ := taken
      exact handlerEvent_hand present taken
  | heartbeat jobId =>
      simp only [dispatcherStep, heartbeatJob, Option.map_eq_some_iff] at taken
      obtain ⟨entry, found, rfl⟩ := taken
      exact .beat found rfl rfl rfl rfl
  | complete jobId outcome =>
      simp only [dispatcherStep, completeJob] at taken
      split at taken
      · simp at taken
      · exact settle_hand rfl taken
  | evict jobId =>
      simp only [dispatcherStep, evictJob] at taken
      split at taken
      · simp at taken
      · simp only [Option.bind_eq_some_iff] at taken
        obtain ⟨entry, _, taken⟩ := taken
        split at taken
        · exact settle_hand rfl taken
        · simp at taken
  | forward c =>
      simp only [dispatcherStep, Option.bind_eq_some_iff] at taken
      obtain ⟨caller, _, item, known, taken⟩ := taken
      exact forwardOutcome_hand known taken
  | closer i event =>
      simp only [dispatcherStep, Option.bind_eq_some_iff] at taken
      obtain ⟨pc, _, taken⟩ := taken
      exact closerEvent_hand taken

end Inversion

structure HandWf (s : DispatcherState T) : Prop where
  reply : ReplyWf s
  remote : s.workers = []
  carried (c : Nat) (item : Item T) : s.items[c]? = some item → s.remover c = some .executor →
    item.reply = .waiting → item.spawned = true ∨
      ∃ (i : Nat) (pc : HandlerPc), s.handlers[i]? = some pc ∧ pc.carries = some c
  spawned (c : Nat) (item : Item T) : s.items[c]? = some item → item.spawned = true →
    item.outcome ≠ .unclaimed
  claimed (i : Nat) (pc : HandlerPc) (c : Nat) (item : Item T) : s.handlers[i]? = some pc →
    pc.claimed = some c → s.items[c]? = some item → item.outcome ≠ .unclaimed
  entered (c : Nat) (item : Item T) : s.items[c]? = some item → item.outcome = .waiting →
    (∃ jobId entry, s.inProgress.lookup jobId = some entry ∧ entry.item = c) ∨
      ∃ (i : Nat) (pc : HandlerPc), s.handlers[i]? = some pc ∧ pc.overwrites = some c
  known (jobId : String) (entry : InProgressJob) : s.inProgress.lookup jobId = some entry →
    entry.item < s.items.length
  overwritten (i : Nat) (pc : HandlerPc) (c : Nat) : s.handlers[i]? = some pc →
    pc.overwrites = some c → c < s.items.length
  submitted (i : Nat) (pc : HandlerPc) (claim : Nat × Nat) : s.handlers[i]? = some pc →
    pc.checks = some claim → ∃ handle, s.jobs[claim.1]? = some handle

section Steps

variable {cfg : DispatcherConfig T} {s next : DispatcherState T} {action : DispatcherAction T}
  {i c : Nat} {caller : Caller T} {item later : Item T}

theorem HandlerPc.overwrites_of_unclaimed {pc : HandlerPc} (unclaimed : pc.claimed = none) :
    pc.overwrites = none := by
  cases pc <;> first | rfl | simp [HandlerPc.claimed] at unclaimed

theorem KeepsClaims.same (keeps : KeepsClaims s next) (old : s.items[c]? = some item)
    (known : next.items[c]? = some later) :
    later.outcome = item.outcome ∧ later.spawned = item.spawned := by
  rcases keeps c later known with ⟨beyond, _⟩ | ⟨other, there, outcome, spawned⟩
  · have bound := (List.getElem?_eq_some_iff.mp old).1
    omega
  · obtain rfl := Option.some.inj (old.symm.trans there)
    exact ⟨outcome, spawned⟩

theorem handlers_kept {holds : HandlerPc → Prop}
    (some_ : ∃ (i : Nat) (pc : HandlerPc), s.handlers[i]? = some pc ∧ holds pc)
    (handlers : next.handlers = s.handlers ∨ next.handlers = s.handlers ++ [.waiting]) :
    ∃ (i : Nat) (pc : HandlerPc), next.handlers[i]? = some pc ∧ holds pc := by
  obtain ⟨i, pc, present, has⟩ := some_
  refine ⟨i, pc, ?_, has⟩
  rcases handlers with same | opened
  · rw [same, present]
  · rw [opened, List.getElem?_append_left (List.getElem?_eq_some_iff.mp present).1, present]

/-- A handler after the step was there before, or it is new and waits. -/
theorem handlers_before {pc : HandlerPc} (present : next.handlers[i]? = some pc)
    (handlers : next.handlers = s.handlers ∨ next.handlers = s.handlers ++ [.waiting]) :
    s.handlers[i]? = some pc ∨ pc = .waiting := by
  rcases handlers with same | opened
  · exact Or.inl (same ▸ present)
  · rw [opened] at present
    rcases getElem?_of_snoc present with old | ⟨_, is⟩
    · exact Or.inl old
    · exact Or.inr is

theorem spawned_of_set {d : Nat} {kept changed : Item T} (entered : s.items[d]? = some kept)
    (items : next.items = s.items.set d changed) (same : changed.spawned = kept.spawned)
    (old : s.items[c]? = some item) (known : next.items[c]? = some later) :
    later.spawned = item.spawned := by
  rw [items] at known
  rcases getElem?_of_set known with ⟨rfl, rfl⟩ | ⟨_, away⟩
  · rw [same, Option.some.inj (entered.symm.trans old)]
  · rw [Option.some.inj (away.symm.trans old)]

/-- An item that no handler has claimed was not claimed before. -/
theorem HandStep.unclaimed_before (step : HandStep s next)
    (known : next.items[c]? = some later) (opened : later.outcome = .unclaimed) :
    s.items.length ≤ c ∧ later.spawned = false ∨
      ∃ item, s.items[c]? = some item ∧ item.outcome = .unclaimed ∧
        (later.spawned = true → item.spawned = true ∨ ∃ (i : Nat) (pc : HandlerPc),
          s.handlers[i]? = some pc ∧ pc.claimed = some c) := by
  have changed : ∀ {d : Nat} {old after : Item T}, s.items[d]? = some old →
      next.items = s.items.set d after → (d = c → after = later → old.outcome = .unclaimed ∧
        (after.spawned = true → old.spawned = true ∨ ∃ (i : Nat) (pc : HandlerPc),
          s.handlers[i]? = some pc ∧ pc.claimed = some c)) →
      ∃ item, s.items[c]? = some item ∧ item.outcome = .unclaimed ∧
        (later.spawned = true → item.spawned = true ∨ ∃ (i : Nat) (pc : HandlerPc),
          s.handlers[i]? = some pc ∧ pc.claimed = some c) := by
    intro d old after found items keeps
    rw [items] at known
    rcases getElem?_of_set known with ⟨rfl, rfl⟩ | ⟨_, away⟩
    · exact ⟨old, found, keeps rfl rfl⟩
    · exact ⟨later, away, opened, Or.inl⟩
  cases step with
  | aside _ _ keeps _ | passed _ _ _ _ _ _ _ keeps _ =>
      rcases keeps c later known with ⟨beyond, _, unspawned⟩ | ⟨item, old, outcome, spawned⟩
      · exact Or.inl ⟨beyond, unspawned⟩
      · exact Or.inr ⟨item, old, outcome ▸ opened, fun is => Or.inl (spawned ▸ is)⟩
  | took _ _ _ _ _ _ items _ | beat _ _ _ items _ =>
      exact Or.inr ⟨later, items ▸ known, opened, Or.inl⟩
  | claimed _ _ entered _ _ _ items _ =>
      refine Or.inr (changed entered items ?_)
      rintro rfl rfl
      simp at opened
  | displaced _ entered _ _ items _ =>
      refine Or.inr (changed entered items ?_)
      rintro rfl rfl
      simp at opened
  | spawned present entered _ _ items _ =>
      refine Or.inr (changed entered items ?_)
      rintro rfl rfl
      exact ⟨opened, fun _ => Or.inr ⟨_, _, present, rfl⟩⟩
  | settled _ entered ends _ _ items _ =>
      refine Or.inr (changed entered items ?_)
      rintro rfl rfl
      dsimp only at opened
      simp [opened, Outcome.settled] at ends
  | forwarded entered _ _ _ items _ =>
      refine Or.inr (changed entered items ?_)
      rintro rfl rfl
      exact ⟨opened, by simp⟩

theorem HandWf.spawned_step (wf : HandWf s) (step : HandStep s next) (c : Nat) (later : Item T)
    (known : next.items[c]? = some later) (spawned : later.spawned = true) :
    later.outcome ≠ .unclaimed := by
  intro unclaimed
  rcases step.unclaimed_before known unclaimed with ⟨_, unspawned⟩ | ⟨item, old, was, came⟩
  · simp [spawned] at unspawned
  · rcases came spawned with before | ⟨i, pc, present, claimed⟩
    · exact wf.spawned c item old before was
    · exact wf.claimed i pc c item present claimed old was

theorem HandWf.claimed_step (wf : HandWf s) (step : HandStep s next) (i : Nat) (pc : HandlerPc)
    (c : Nat) (later : Item T) (present : next.handlers[i]? = some pc)
    (claimed : pc.claimed = some c) (known : next.items[c]? = some later) :
    later.outcome ≠ .unclaimed := by
  intro unclaimed
  have old : ∀ {j : Nat} {before : HandlerPc}, s.handlers[j]? = some before →
      before.claimed = some c → False := by
    intro j before there has
    rcases step.unclaimed_before known unclaimed with ⟨beyond, _⟩ | ⟨item, old, was, _⟩
    · obtain ⟨item, inItems, _⟩ := wf.reply.taken.owned.held (.handler j) c .live (by
        rw [holding_handler there]
        cases before <;> simp_all [HandlerPc.claimed, HandlerPc.item])
      have bound := (List.getElem?_eq_some_iff.mp inItems).1
      omega
    · exact wf.claimed j before c item there has old was
  have unset : ∀ {j : Nat} {before after : HandlerPc}, s.handlers[j]? = some before →
      next.handlers = s.handlers.set j after →
      (after.claimed = some c → before.claimed = some c) → False := by
    intro j before after there handlers back
    rw [handlers] at present
    rcases getElem?_of_set present with ⟨rfl, rfl⟩ | ⟨_, away⟩
    · exact old there (back claimed)
    · exact old away claimed
  cases step with
  | aside handlers _ _ _ =>
      rcases handlers_before present handlers with before | rfl
      · exact old before claimed
      · simp [HandlerPc.claimed] at claimed
  | passed there handlers _ outside _ _ _ _ _ => exact unset there handlers (by simp [outside])
  | took there _ _ handlers _ _ _ _ => exact unset there handlers (by simp [HandlerPc.claimed])
  | @claimed j job d handle item after there _ entered handlers goes _ items _ =>
      rw [handlers] at present
      rcases getElem?_of_set present with ⟨rfl, rfl⟩ | ⟨_, away⟩
      · have same : d = c := by
          rcases goes with ⟨entry, _, rfl⟩ | ⟨_, rfl⟩ <;> simpa [HandlerPc.claimed] using claimed
        subst same
        rw [items, List.getElem?_set_self (List.getElem?_eq_some_iff.mp entered).1,
          Option.some.injEq] at known
        rw [← known] at unclaimed
        simp at unclaimed
      · exact old away claimed
  | displaced there _ handlers _ _ _ => exact unset there handlers fun is => is
  | spawned there _ handlers _ _ _ => exact unset there handlers (by simp [HandlerPc.claimed])
  | beat _ handlers _ _ _ | settled _ _ _ handlers _ _ _ | forwarded _ _ handlers _ _ _ =>
      exact old (handlers ▸ present) claimed

theorem HandWf.carried_step (wf : HandWf s) (move : Move cfg s next action)
    (step : HandStep s next) (c : Nat) (later : Item T) (known : next.items[c]? = some later)
    (executed : next.remover c = some .executor) (waiting : later.reply = .waiting) :
    later.spawned = true ∨
      ∃ (i : Nat) (pc : HandlerPc), next.handlers[i]? = some pc ∧ pc.carries = some c := by
  have before : s.remover c = some .executor → ∃ item, s.items[c]? = some item ∧
      (item.spawned = true ∨
        ∃ (i : Nat) (pc : HandlerPc), s.handlers[i]? = some pc ∧ pc.carries = some c) := by
    intro was
    rcases move.reply known with ⟨item, old, replied⟩ | ⟨last, _⟩
    · have waited : item.reply = .waiting := by
        by_contra used
        exact used (replied.used used ▸ waiting)
      exact ⟨item, old, wf.carried c item old was waited⟩
    · simp [wf.reply.taken.unmade c (by omega)] at was
  cases step with
  | aside handlers _ keeps executor =>
      obtain ⟨item, old, spawned | carried⟩ := before (executor c executed)
      · exact Or.inl ((keeps.same old known).2.trans spawned)
      · exact Or.inr (handlers_kept carried handlers)
  | passed present handlers _ _ _ goes _ keeps remover =>
      obtain ⟨item, old, spawned | carried⟩ := before (remover ▸ executed)
      · exact Or.inl ((keeps.same old known).2.trans spawned)
      · rw [handlers]
        refine Or.inr (exists_of_set carried present fun was => ?_)
        exact (goes c was).resolve_right fun used => used later known waiting
  | @took i job d handle present _ _ handlers _ _ items remover =>
      by_cases here : c = d
      · subst here
        refine Or.inr ⟨i, .removed job c, ?_, rfl⟩
        rw [handlers, List.getElem?_set_self (List.getElem?_eq_some_iff.mp present).1]
      · rw [remover, Function.update_of_ne here] at executed
        obtain ⟨item, old, spawned | carried⟩ := before executed
        · rw [items, old, Option.some.injEq] at known
          exact Or.inl (known ▸ spawned)
        · rw [handlers]
          exact Or.inr (exists_of_set carried present
            fun was => by simp [HandlerPc.carries, HandlerPc.checks] at was)
  | @claimed i job d handle claimed _ present _ entered handlers goes _ items remover =>
      obtain ⟨item, old, spawned | carried⟩ := before (remover ▸ executed)
      · exact Or.inl ((spawned_of_set entered items rfl old known).trans spawned)
      · rw [handlers]
        refine Or.inr (exists_of_set carried present fun was => ?_)
        rcases goes with ⟨entry, _, rfl⟩ | ⟨_, rfl⟩ <;> exact was
  | @displaced i d previous displaced present entered handlers _ items remover =>
      obtain ⟨item, old, spawned | carried⟩ := before (remover ▸ executed)
      · exact Or.inl ((spawned_of_set entered items rfl old known).trans spawned)
      · rw [handlers]
        exact Or.inr (exists_of_set carried present fun was => was)
  | @spawned i d item present entered handlers _ items remover =>
      rw [items] at known
      rcases getElem?_of_set known with ⟨rfl, rfl⟩ | ⟨different, away⟩
      · exact Or.inl rfl
      · obtain ⟨item, old, spawned | carried⟩ := before (remover ▸ executed)
        · obtain rfl := Option.some.inj (away.symm.trans old)
          exact Or.inl spawned
        · rw [handlers]
          refine Or.inr (exists_of_set carried present fun was => ?_)
          simp only [HandlerPc.carries, Option.some.injEq] at was
          exact absurd was (by omega)
  | beat _ handlers _ items remover =>
      obtain ⟨item, old, spawned | carried⟩ := before (remover ▸ executed)
      · rw [items, old, Option.some.injEq] at known
        exact Or.inl (known ▸ spawned)
      · exact Or.inr (handlers ▸ carried)
  | settled _ entered _ handlers _ items remover =>
      obtain ⟨item, old, spawned | carried⟩ := before (remover ▸ executed)
      · exact Or.inl ((spawned_of_set entered items rfl old known).trans spawned)
      · exact Or.inr (handlers ▸ carried)
  | forwarded entered used handlers _ items remover =>
      rw [items] at known
      rcases getElem?_of_set known with ⟨rfl, rfl⟩ | ⟨_, away⟩
      · exact absurd waiting used
      · obtain ⟨item, old, spawned | carried⟩ := before (remover ▸ executed)
        · obtain rfl := Option.some.inj (away.symm.trans old)
          exact Or.inl spawned
        · exact Or.inr (handlers ▸ carried)

theorem HandWf.entered_step (wf : HandWf s) (step : HandStep s next) (c : Nat) (later : Item T)
    (known : next.items[c]? = some later) (waiting : later.outcome = .waiting) :
    (∃ jobId entry, next.inProgress.lookup jobId = some entry ∧ entry.item = c) ∨
      ∃ (i : Nat) (pc : HandlerPc), next.handlers[i]? = some pc ∧ pc.overwrites = some c := by
  have before : ∀ {d : Nat} {old changed : Item T}, s.items[d]? = some old →
      next.items = s.items.set d changed → (d = c → changed.outcome = .waiting →
        old.outcome = .waiting) → ∃ item, s.items[c]? = some item ∧ item.outcome = .waiting := by
    intro d old changed found items keeps
    rw [items] at known
    rcases getElem?_of_set known with ⟨rfl, rfl⟩ | ⟨_, away⟩
    · exact ⟨old, found, keeps rfl waiting⟩
    · exact ⟨later, away, waiting⟩
  cases step with
  | aside handlers table keeps _ =>
      rcases keeps c later known with ⟨_, unclaimed, _⟩ | ⟨item, old, outcome, _⟩
      · simp [waiting] at unclaimed
      · rw [table]
        rcases wf.entered c item old (outcome ▸ waiting) with entered | overwritten
        · exact Or.inl entered
        · exact Or.inr (handlers_kept overwritten handlers)
  | passed present handlers unclaimed _ _ _ table keeps _ =>
      rcases keeps c later known with ⟨_, unclaimed, _⟩ | ⟨item, old, outcome, _⟩
      · simp [waiting] at unclaimed
      · rw [table, handlers]
        rcases wf.entered c item old (outcome ▸ waiting) with entered | overwritten
        · exact Or.inl entered
        · exact Or.inr (exists_of_set overwritten present
            (by simp [HandlerPc.overwrites_of_unclaimed unclaimed]))
  | took present _ _ handlers _ table items _ =>
      rw [table, handlers]
      rcases wf.entered c later (items ▸ known) waiting with entered | overwritten
      · exact Or.inl entered
      · exact Or.inr (exists_of_set overwritten present (by simp [HandlerPc.overwrites]))
  | @claimed i job d handle item after present _ found handlers goes table items _ =>
      rw [table, handlers]
      by_cases here : d = c
      · subst here
        exact Or.inl ⟨handle.job.id, ⟨d, s.now⟩, by simp, rfl⟩
      · obtain ⟨item, old, was⟩ := before found items (fun same => absurd same here)
        rcases wf.entered c item old was with ⟨jobId, entry, entered, is⟩ | overwritten
        · by_cases same : jobId = handle.job.id
          · subst same
            rcases goes with ⟨other, there, rfl⟩ | ⟨none_, _⟩
            · obtain rfl := Option.some.inj (entered.symm.trans there)
              refine Or.inr ⟨i, .displacing d entry.item, ?_, by simp [HandlerPc.overwrites, is]⟩
              exact List.getElem?_set_self (List.getElem?_eq_some_iff.mp present).1
            · simp [entered] at none_
          · refine Or.inl ⟨jobId, entry, ?_, is⟩
            rw [HashMap.lookup_insert_eq, if_neg same, entered]
        · exact Or.inr (exists_of_set overwritten present (by simp [HandlerPc.overwrites]))
  | @displaced i d previous item present found handlers table items _ =>
      rw [table, handlers]
      obtain ⟨item, old, was⟩ := before found items (by simp)
      rcases wf.entered c item old was with entered | overwritten
      · exact Or.inl entered
      · refine Or.inr (exists_of_set overwritten present fun is => ?_)
        simp only [HandlerPc.overwrites, Option.some.injEq] at is
        subst is
        rw [items, List.getElem?_set_self (List.getElem?_eq_some_iff.mp found).1,
          Option.some.injEq] at known
        simp [← known] at waiting
  | spawned present found handlers table items _ =>
      rw [table, handlers]
      obtain ⟨item, old, was⟩ := before found items fun _ is => is
      rcases wf.entered c item old was with entered | overwritten
      · exact Or.inl entered
      · exact Or.inr (exists_of_set overwritten present (by simp [HandlerPc.overwrites]))
  | @beat jobId entry found handlers table items _ =>
      rw [table, handlers]
      rcases wf.entered c later (items ▸ known) waiting with ⟨other, held, there, is⟩ | overwritten
      · by_cases same : other = jobId
        · subst same
          obtain rfl := Option.some.inj (found.symm.trans there)
          exact Or.inl ⟨other, { entry with lastHeartbeat := s.now }, by simp, is⟩
        · refine Or.inl ⟨other, held, ?_, is⟩
          rw [HashMap.lookup_insert_eq, if_neg same, there]
      · exact Or.inr overwritten
  | @settled jobId entry item outcome found entered ends handlers table items _ =>
      rw [table, handlers]
      have away : entry.item ≠ c := by
        rintro rfl
        rw [items, List.getElem?_set_self (List.getElem?_eq_some_iff.mp entered).1,
          Option.some.injEq] at known
        rw [← known] at waiting
        dsimp only at waiting
        simp [waiting, Outcome.settled] at ends
      obtain ⟨item, old, was⟩ := before entered items fun same => absurd same away
      rcases wf.entered c item old was with ⟨other, held, there, is⟩ | overwritten
      · by_cases same : other = jobId
        · subst same
          obtain rfl := Option.some.inj (found.symm.trans there)
          exact absurd is away
        · refine Or.inl ⟨other, held, ?_, is⟩
          rw [HashMap.lookup_erase_eq, if_neg same, there]
      · exact Or.inr overwritten
  | forwarded found _ handlers table items _ =>
      rw [table, handlers]
      obtain ⟨item, old, was⟩ := before found items fun _ is => is
      exact wf.entered c item old was

theorem HandWf.known_step (wf : HandWf s) (step : HandStep s next)
    (longer : s.items.length ≤ next.items.length) (jobId : String) (entry : InProgressJob)
    (found : next.inProgress.lookup jobId = some entry) : entry.item < next.items.length := by
  have old : ∀ {id : String} {held : InProgressJob}, s.inProgress.lookup id = some held →
      held.item < next.items.length :=
    fun there => Nat.lt_of_lt_of_le (wf.known _ _ there) longer
  cases step with
  | aside _ table _ _ | passed _ _ _ _ _ _ table _ _ | took _ _ _ _ _ table _ _
  | displaced _ _ _ table _ _ | spawned _ _ _ table _ _ | forwarded _ _ _ table _ _ =>
      exact old (table ▸ found)
  | claimed _ _ entered _ _ table items _ =>
      rw [table, HashMap.lookup_insert_eq] at found
      split at found
      · rw [← Option.some.inj found, items, List.length_set]
        exact (List.getElem?_eq_some_iff.mp entered).1
      · exact old found
  | beat there _ table _ _ =>
      rw [table, HashMap.lookup_insert_eq] at found
      split at found
      · have bound := old there
        rw [← Option.some.inj found]
        exact bound
      · exact old found
  | settled _ _ _ _ table _ _ =>
      rw [table, HashMap.lookup_erase_eq] at found
      split at found
      · simp at found
      · exact old found

/-- A handler after the step is one from before, or took one step. -/
theorem HandStep.handler_cases (step : HandStep s next) {pc : HandlerPc}
    (present : next.handlers[i]? = some pc) :
    s.handlers[i]? = some pc ∨
      (pc.claimed = none ∧ ∀ claim, pc.checks = some claim →
        (∃ before : HandlerPc, s.handlers[i]? = some before ∧ before.checks = some claim) ∨
          ∃ handle, s.jobs[claim.1]? = some handle ∧ next.jobs = s.jobs ∧
            s.pending.lookup handle.job.id = some claim.2) ∨
      pc.checks = none ∧ ∀ c, pc.overwrites = some c →
        ∃ jobId entry, s.inProgress.lookup jobId = some entry ∧ entry.item = c := by
  have updated : ∀ {j : Nat} {after : HandlerPc}, next.handlers = s.handlers.set j after →
      s.handlers[i]? = some pc ∨ i = j ∧ pc = after := by
    intro j after handlers
    rw [handlers] at present
    rcases getElem?_of_set present with same | ⟨_, away⟩
    · exact Or.inr same
    · exact Or.inl away
  cases step with
  | aside handlers _ _ _ =>
      rcases handlers_before present handlers with before | rfl
      · exact Or.inl before
      · exact Or.inr (Or.inl ⟨rfl, by simp [HandlerPc.checks]⟩)
  | passed there handlers _ outside checks _ _ _ _ =>
      rcases updated handlers with before | ⟨rfl, rfl⟩
      · exact Or.inl before
      · exact Or.inr (Or.inl ⟨outside, fun claim is => Or.inl ⟨_, there, checks claim is⟩⟩)
  | took there submitted found handlers jobs _ _ _ =>
      rcases updated handlers with before | ⟨rfl, rfl⟩
      · exact Or.inl before
      · refine Or.inr (Or.inl ⟨rfl, fun claim is => Or.inr ?_⟩)
        simp only [HandlerPc.checks, Option.some.injEq] at is
        subst is
        exact ⟨_, submitted, jobs, found⟩
  | claimed there _ _ handlers goes _ _ _ =>
      rcases updated handlers with before | ⟨rfl, rfl⟩
      · exact Or.inl before
      · refine Or.inr (Or.inr ?_)
        rcases goes with ⟨entry, found, rfl⟩ | ⟨_, rfl⟩
        · refine ⟨rfl, fun c is => ⟨_, entry, found, ?_⟩⟩
          simpa [HandlerPc.overwrites] using is
        · exact ⟨rfl, by simp [HandlerPc.overwrites]⟩
  | displaced there _ handlers _ _ _ =>
      rcases updated handlers with before | ⟨rfl, rfl⟩
      · exact Or.inl before
      · exact Or.inr (Or.inr ⟨rfl, by simp [HandlerPc.overwrites]⟩)
  | spawned there _ handlers _ _ _ =>
      rcases updated handlers with before | ⟨rfl, rfl⟩
      · exact Or.inl before
      · exact Or.inr (Or.inr ⟨rfl, by simp [HandlerPc.overwrites]⟩)
  | beat _ handlers _ _ _ | settled _ _ _ handlers _ _ _ | forwarded _ _ handlers _ _ _ =>
      exact Or.inl (handlers ▸ present)

theorem HandWf.overwritten_step (wf : HandWf s) (step : HandStep s next)
    (longer : s.items.length ≤ next.items.length) (i : Nat) (pc : HandlerPc) (c : Nat)
    (present : next.handlers[i]? = some pc) (overwrites : pc.overwrites = some c) :
    c < next.items.length := by
  rcases step.handler_cases present with before | ⟨unclaimed, _⟩ | ⟨_, entered⟩
  · exact Nat.lt_of_lt_of_le (wf.overwritten i pc c before overwrites) longer
  · simp [HandlerPc.overwrites_of_unclaimed unclaimed] at overwrites
  · obtain ⟨jobId, entry, found, rfl⟩ := entered c overwrites
    exact Nat.lt_of_lt_of_le (wf.known jobId entry found) longer

theorem HandWf.submitted_step (wf : HandWf s) (frame : Frame s next) (step : HandStep s next)
    (i : Nat) (pc : HandlerPc) (claim : Nat × Nat) (present : next.handlers[i]? = some pc)
    (checks : pc.checks = some claim) : ∃ handle, next.jobs[claim.1]? = some handle := by
  have kept : ∀ {j : Nat} {before : HandlerPc}, s.handlers[j]? = some before →
      before.checks = some claim → ∃ handle, next.jobs[claim.1]? = some handle := by
    intro j before there is
    obtain ⟨handle, known⟩ := wf.submitted j before claim there is
    obtain ⟨later, found, _⟩ := frame.ids _ handle known
    exact ⟨later, found⟩
  rcases step.handler_cases present with before | ⟨_, came⟩ | ⟨unchecked, _⟩
  · exact kept before checks
  · rcases came claim checks with ⟨before, there, is⟩ | ⟨handle, known, jobs, _⟩
    · exact kept there is
    · exact ⟨handle, jobs ▸ known⟩
  · simp [unchecked] at checks

theorem HandWf.step (wf : HandWf s) (taken : dispatcherStep cfg s action = some next) :
    HandWf next := by
  have move := dispatcherStep_move taken
  have hand := dispatcherStep_hand wf.remote taken
  have frame := (dispatcherStep_claims wf.remote taken).1
  have reply := wf.reply.step taken
  have longer : s.items.length ≤ next.items.length := by
    rw [wf.reply.taken.owned.aligned, reply.taken.owned.aligned]
    by_contra shorter
    obtain ⟨caller, present⟩ : ∃ caller, s.callers[next.callers.length]? = some caller :=
      ⟨_, List.getElem?_eq_getElem (by omega)⟩
    obtain ⟨_, found, _⟩ := move.names present
    simp at found
  exact {
    reply := reply
    remote := by simpa [wf.remote] using frame.workers
    carried := wf.carried_step move hand
    spawned := wf.spawned_step hand
    claimed := wf.claimed_step hand
    entered := wf.entered_step hand
    known := wf.known_step hand longer
    overwritten := wf.overwritten_step hand longer
    submitted := wf.submitted_step frame hand }

theorem HandWf.initial {timeout now : Nat} {translate : WorkerOutcome → T}
    (remote : cfg.executor = .remotePool timeout translate) :
    HandWf (DispatcherState.new cfg now) where
  reply := ReplyWf.initial cfg now
  remote := by simp [DispatcherState.new, remote]
  carried := by simp [DispatcherState.new]
  spawned := by simp [DispatcherState.new]
  claimed := by simp [DispatcherState.new]
  entered := by simp [DispatcherState.new]
  known := by simp [DispatcherState.new]
  overwritten := by simp [DispatcherState.new]
  submitted := by simp [DispatcherState.new]

end Steps

end BitsBroker
