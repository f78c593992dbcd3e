import BitsBroker.Dispatcher.Dispatch

/-!
What a step of a dispatcher can do. `holding` says where the items are: in the pending
map, with a call, with a worker or with a handler, and in which phase the holder keeps the
work. `Move` is the inversion of `dispatcherStep`: each of its cases changes at most one
caller and one item and says how the item changes hands.
-/

namespace BitsBroker

open Transition Table

inductive Place where
  | map (jobId : String)
  | call (i : Nat)
  | worker (i : Nat)
  | handler (i : Nat)
deriving DecidableEq

variable {T : Type}

def DispatchPc.item (i : Nat) : DispatchPc T → Option Nat
  | .insert => some i
  | .displacing c | .discarding _ c => some c
  | _ => none

/-- The call has not put its item into the pending map. -/
def DispatchPc.early : DispatchPc T → Bool
  | .begun | .acquire | .checkClosing | .insert => true
  | _ => false

/-- The call has given its item away and waits for the reply. -/
def DispatchPc.waits : DispatchPc T → Bool
  | .enqueue | .looking | .lookingPollers | .lookingDeadline | .abandoning _ | .rechecking
  | .choosing | .arming | .parked _ | .awaitReply => true
  | _ => false

def WorkerPc.phase : WorkerPc T → WorkPhase
  | .running _ => .running
  | .sending _ _ => .resolved
  | _ => .live

def CloserPc.stranded : CloserPc → List Nat
  | .draining stranded | .sending stranded => stranded
  | _ => []

namespace DispatcherState

def holding (s : DispatcherState T) : Place → Option (Nat × WorkPhase)
  | .map jobId => (s.pending.lookup jobId).map fun c => (c, .live)
  | .call i => s.callers[i]?.bind fun caller => (caller.pc.item i).map fun c => (c, .live)
  | .worker i => s.workers[i]?.bind fun pc => pc.item.map fun c => (c, pc.phase)
  | .handler i => s.handlers[i]?.bind fun pc => pc.item.map fun c => (c, .live)

/-- A remote worker has the item: the in-progress table holds the sender of its outcome. -/
def Claims (s : DispatcherState T) (c : Nat) : Prop :=
  ∃ jobId entry, s.inProgress.lookup jobId = some entry ∧ entry.item = c

def Stranded (s : DispatcherState T) (c : Nat) : Prop :=
  ∃ pc ∈ s.closers, c ∈ pc.stranded

section Updates

variable {s : DispatcherState T} {i : Nat}

theorem holding_put (s : DispatcherState T) (c : Nat) (item later : Item T) (p : Place) :
    (s.put c item later).holding p = s.holding p := by
  cases p <;> rfl

theorem holding_setPc {caller : Caller T} (present : s.callers[i]? = some caller)
    (later : Caller T) (p : Place) :
    { s with callers := s.callers.set i later }.holding p =
      if p = .call i then (later.pc.item i).map (·, WorkPhase.live) else s.holding p := by
  have bound := (List.getElem?_eq_some_iff.mp present).1
  cases p with
  | call j =>
      by_cases here : j = i
      · subst here
        simp [holding, List.getElem?_set_self bound]
      · simp [holding, here, List.getElem?_set_ne (Ne.symm here)]
  | _ => simp [holding]

theorem holding_setWorker {pc : WorkerPc T} (present : s.workers[i]? = some pc)
    (later : WorkerPc T) (p : Place) :
    (s.setWorker i later).holding p =
      if p = .worker i then later.item.map (·, later.phase) else s.holding p := by
  have bound := (List.getElem?_eq_some_iff.mp present).1
  cases p with
  | worker j =>
      by_cases here : j = i
      · subst here
        simp [holding, setWorker, List.getElem?_set_self bound]
      · simp [holding, setWorker, here, List.getElem?_set_ne (Ne.symm here)]
  | _ => simp [holding, setWorker]

theorem holding_setHandler {pc : HandlerPc} (present : s.handlers[i]? = some pc)
    (later : HandlerPc) (p : Place) :
    (s.setHandler i later).holding p =
      if p = .handler i then later.item.map (·, WorkPhase.live) else s.holding p := by
  have bound := (List.getElem?_eq_some_iff.mp present).1
  cases p with
  | handler j =>
      by_cases here : j = i
      · subst here
        simp [holding, setHandler, List.getElem?_set_self bound]
      · simp [holding, setHandler, here, List.getElem?_set_ne (Ne.symm here)]
  | _ => simp [holding, setHandler]

theorem holding_take (s : DispatcherState T) (jobId : String) (c : Nat) (remover : Remover)
    (p : Place) :
    (s.take jobId c remover).holding p = if p = .map jobId then none else s.holding p := by
  cases p with
  | map other =>
      by_cases here : other = jobId
      · subst here
        simp [holding, take]
      · simp [holding, take, here]
  | _ => simp [holding, take]

theorem holding_call {caller : Caller T} (present : s.callers[i]? = some caller) :
    s.holding (.call i) = (caller.pc.item i).map (·, WorkPhase.live) := by
  simp [holding, present]

theorem holding_worker {pc : WorkerPc T} (present : s.workers[i]? = some pc) :
    s.holding (.worker i) = pc.item.map (·, pc.phase) := by
  simp [holding, present]

theorem holding_handler {pc : HandlerPc} (present : s.handlers[i]? = some pc) :
    s.holding (.handler i) = pc.item.map (·, WorkPhase.live) := by
  simp [holding, present]

end Updates

end DispatcherState

/-- How a worker or a handler changes the item it holds: the new item, and the phase in which
it goes on holding it, if it does. -/
inductive HeldStep : WorkPhase → Item T → Item T → Option WorkPhase → Prop
  | unpermitted {item : Item T} : HeldStep .live item { item with permit := false } (some .live)
  | started {item : Item T} : HeldStep .live item
      { item with work := .running, starts := item.starts + 1 } (some .running)
  | observed {item : Item T} : HeldStep .live item
      { item.endWork .resolved with observed := true } (some .resolved)
  | finished {item : Item T} : HeldStep .running item (item.endWork .resolved) (some .resolved)
  | discarded {phase : WorkPhase} {item : Item T} : HeldStep phase item item.discard none
  | sent {phase : WorkPhase} {item : Item T} {received : Bool} {value : Except ActionError T}
      {kept : Option WorkPhase} : kept = none ∨ kept = some phase → HeldStep phase item
        { item with reply := item.reply.send received .executor value } kept
  | claimed {item : Item T} : HeldStep .live item { item with outcome := .waiting } (some .live)
  | spawned {item : Item T} : HeldStep .live item { item with spawned := true } (some .live)
  | left {item : Item T} : HeldStep .live item (item.endWork .dropped) none

/-- Changes of an item that its holder, if any, does not make. -/
inductive LooseStep (s : DispatcherState T) (c : Nat) : Item T → Item T → Prop
  | settled {item : Item T} {outcome : Outcome T} :
      LooseStep s c item { item with outcome := outcome }
  | forwarded {item : Item T} {received : Bool} {value : Except ActionError T} :
      item.spawned = true → LooseStep s c item
        { item with spawned := false, reply := item.reply.send received .executor value }
  | closed {item : Item T} {received : Bool} : s.Stranded c → LooseStep s c item
      { item with reply := item.reply.send received .closer (.error .closed) }

/-- How the program counter of a call moves when no item does. -/
inductive PcMove (item : Item T) : DispatchPc T → DispatchPc T → Prop
  | unlimited : item.limit = none → PcMove item .begun .acquire
  | waiting {pc later : DispatchPc T} : pc.waits = true → later.waits = true → PcMove item pc later
  | answered {pc : DispatchPc T} {sender : Remover} {value : Except ActionError T} :
      pc.waits = true → item.reply = .sent sender value →
      PcMove item pc (.returned .answered value)
  | unanswered {pc : DispatchPc T} : pc.waits = true → item.reply = .dropped →
      PcMove item pc (.returned .answered (.error .closed))
  | dropped {pc : DispatchPc T} : pc.waits = true → PcMove item pc .dropped

structure Calm (s next : DispatcherState T) : Prop where
  claims (c : Nat) : next.Claims c → s.Claims c
  stranded (c : Nat) : next.Stranded c → s.Stranded c

structure Quiet (s next : DispatcherState T) : Prop extends Calm s next where
  counts : next.counts = s.counts
  remover : next.remover = s.remover

inductive Move (cfg : DispatcherConfig T) (s next : DispatcherState T) :
    DispatcherAction T → Prop
  | idle {action} : Quiet s next → next.items = s.items → next.callers = s.callers →
      (∀ p, next.holding p = s.holding p) → Move cfg s next action
  | dispatched {job guard handle limit} : s.jobs[job]? = some handle →
      next.callers = s.callers ++ [⟨job, handle.job.id, guard, 0, .begun⟩] →
      next.items = s.items ++ [Item.new guard limit] → Quiet s next →
      (∀ p, next.holding p = s.holding p) → Move cfg s next (.dispatch job guard)
  | moved {i caller later item action} : s.callers[i]? = some caller → s.items[i]? = some item →
      PcMove item caller.pc later.pc → later.jobId = caller.jobId →
      next.callers = s.callers.set i later → next.items = s.items → Quiet s next →
      (∀ p, next.holding p = s.holding p) → Move cfg s next action
  | admitted {i caller item key max event} : s.callers[i]? = some caller →
      s.items[i]? = some item → caller.pc = .begun → item.limit = some (key, max) →
      (event = .step ∧ cfg.shared = false ∧ tryAdmitLocal s.counts key max = some next.counts ∨
        cfg.shared = true ∧ next.counts = incrLocal s.counts key) →
      next.callers = s.callers.set i { caller with pc := .acquire } →
      next.items = s.items.set i { item with slot := true } → next.remover = s.remover →
      Calm s next →
      (∀ p, next.holding p = s.holding p) → Move cfg s next (.call i event)
  | refused {i caller item pc action} : s.callers[i]? = some caller → s.items[i]? = some item →
      caller.pc.early = true → (∃ error, pc = .returned .refused (.error error)) ∨ pc = .dropped →
      next.callers = s.callers.set i { caller with pc := pc } →
      next.items = s.items.set i item.discard → next.counts = returnSlot s.counts item item.discard →
      next.remover = s.remover → Calm s next →
      (∀ p, next.holding p = if p = .call i then none else s.holding p) → Move cfg s next action
  | acquired {i caller item action} : s.callers[i]? = some caller → s.items[i]? = some item →
      caller.pc = .acquire → next.callers = s.callers.set i { caller with pc := .checkClosing } →
      next.items = s.items.set i { item with permit := true } → Quiet s next →
      (∀ p, next.holding p = s.holding p) → Move cfg s next action
  | built {i caller item action} : s.callers[i]? = some caller → s.items[i]? = some item →
      caller.pc = .checkClosing → next.callers = s.callers.set i { caller with pc := .insert } →
      next.items = s.items.set i { item with work := .live } → Quiet s next →
      (∀ p, next.holding p = if p = .call i then some (i, .live) else s.holding p) →
      Move cfg s next action
  | inserted {i caller later action} : s.callers[i]? = some caller → caller.pc = .insert →
      (∃ c, later.pc = .displacing c ∧ s.holding (.map caller.jobId) = some (c, .live)) ∨
        later.pc = .enqueue →
      later.jobId = caller.jobId → next.callers = s.callers.set i later → next.items = s.items →
      Quiet s next →
      (∀ p, next.holding p = if p = .call i then s.holding (.map caller.jobId)
        else if p = .map caller.jobId then some (i, .live) else s.holding p) →
      Move cfg s next action
  | displaced {i c caller item action} : s.callers[i]? = some caller →
      caller.pc = .displacing c → s.items[c]? = some item →
      next.callers = s.callers.set i { caller with pc := .enqueue } →
      next.items = s.items.set c item.discard → next.counts = returnSlot s.counts item item.discard →
      next.remover = s.remover → Calm s next →
      (∀ p, next.holding p = if p = .call i then none else s.holding p) → Move cfg s next action
  | recalled {i c caller error action} : s.callers[i]? = some caller → caller.pc.waits = true →
      error = .cancelled ∨ error = .clientGone →
      s.holding (.map caller.jobId) = some (c, .live) →
      next.callers = s.callers.set i { caller with pc := .discarding error c } →
      next.items = s.items → next.counts = s.counts →
      next.remover = Function.update s.remover c (some .caller) →
      Calm s next →
      (∀ p, next.holding p = if p = .call i then some (c, .live)
        else if p = .map caller.jobId then none else s.holding p) → Move cfg s next action
  | abandoned {i c caller item error action} : s.callers[i]? = some caller →
      caller.pc = .discarding error c → s.items[c]? = some item →
      next.callers = s.callers.set i { caller with pc := .returned .abandoned (.error error) } →
      next.items = s.items.set c item.discard → next.counts = returnSlot s.counts item item.discard →
      next.remover = s.remover → Calm s next →
      (∀ p, next.holding p = if p = .call i then none else s.holding p) → Move cfg s next action
  | taken {p jobId c action} : (∃ i, p = .worker i) ∨ (∃ i, p = .handler i) → s.holding p = none →
      s.holding (.map jobId) = some (c, .live) → next.callers = s.callers →
      next.items = s.items → next.counts = s.counts →
      next.remover = Function.update s.remover c (some .executor) →
      Calm s next →
      (∀ q, next.holding q = if q = p then some (c, .live)
        else if q = .map jobId then none else s.holding q) → Move cfg s next action
  | held {p c item later phase kept action} : (∃ i, p = .worker i) ∨ (∃ i, p = .handler i) →
      s.holding p = some (c, phase) → s.items[c]? = some item → HeldStep phase item later kept →
      next.callers = s.callers → next.items = s.items.set c later →
      next.counts = returnSlot s.counts item later → next.remover = s.remover →
      (∀ x, next.Claims x → s.Claims x ∨ x = c ∧ phase = .live ∧ later.work = item.work) →
      (∀ x, next.Stranded x → s.Stranded x) →
      (∀ q, next.holding q = if q = p then kept.map (c, ·) else s.holding q) →
      Move cfg s next action
  | loose {c item later action} : s.items[c]? = some item → LooseStep s c item later →
      next.callers = s.callers → next.items = s.items.set c later → Quiet s next →
      (∀ p, next.holding p = s.holding p) → Move cfg s next action
  | drained {jobId c item action} : s.holding (.map jobId) = some (c, .live) →
      s.items[c]? = some item → next.callers = s.callers →
      next.items = s.items.set c { item.endWork .dropped with permit := false } →
      next.counts = returnSlot s.counts item { item.endWork .dropped with permit := false } →
      next.remover = Function.update s.remover c (some .closer) →
      (∀ c, next.Claims c → s.Claims c) →
      (∀ x, next.Stranded x → s.Stranded x ∨ x = c) →
      (∀ p, next.holding p = if p = .map jobId then none else s.holding p) →
      Move cfg s next action

section Inversion

open DispatcherState

variable {cfg : DispatcherConfig T} {s next : DispatcherState T} {i c : Nat}
  {caller : Caller T} {item : Item T} {action : DispatcherAction T}

theorem DispatchPc.item_of_waits {pc : DispatchPc T} (waits : pc.waits = true) (i : Nat) :
    pc.item i = none := by
  cases pc <;> first | rfl | simp [DispatchPc.waits] at waits

theorem PcMove.item_eq {pc later : DispatchPc T} (move : PcMove item pc later) (i : Nat) :
    pc.item i = none ∧ later.item i = none := by
  cases move with
  | unlimited _ => exact ⟨rfl, rfl⟩
  | waiting before after =>
      exact ⟨DispatchPc.item_of_waits before i, DispatchPc.item_of_waits after i⟩
  | answered before _ | unanswered before _ | dropped before =>
      exact ⟨DispatchPc.item_of_waits before i, rfl⟩

theorem Move.of_pc {later : Caller T} (present : s.callers[i]? = some caller)
    (known : s.items[i]? = some item) (move : PcMove item caller.pc later.pc)
    (named : later.jobId = caller.jobId) :
    Move cfg s { s with callers := s.callers.set i later } action := by
  refine .moved present known move named rfl rfl ⟨⟨fun _ h => h, fun _ h => h⟩, rfl, rfl⟩ ?_
  intro p
  obtain ⟨before, after⟩ := move.item_eq i
  rw [holding_setPc present]
  split
  next here => rw [here, holding_call present, before, after]
  next => rfl

theorem refuse_holding (present : s.callers[i]? = some caller) {pc : DispatchPc T}
    (free : pc.item i = none) (p : Place) :
    ((s.put c item item.discard).setPc i caller pc).holding p =
      if p = .call i then none else s.holding p := by
  have known : (s.put c item item.discard).callers[i]? = some caller := present
  unfold setPc
  rw [holding_setPc known, holding_put]
  simp only [free, Option.map_none]

theorem refuse_move (present : s.callers[i]? = some caller) (known : s.items[i]? = some item)
    (early : caller.pc.early = true) (error : ActionError) :
    Move cfg s (refuse s i caller item error) action :=
  .refused present known early (Or.inl ⟨error, rfl⟩) rfl rfl rfl rfl
    ⟨fun _ h => h, fun _ h => h⟩ (refuse_holding present rfl)

theorem admit_holding (present : s.callers[i]? = some caller) (pc : caller.pc.item i = none)
    {later : DispatchPc T} (free : later.item i = none) {t : DispatcherState T}
    (same : ∀ p, t.holding p = s.holding p) (callers : t.callers = s.callers) (p : Place) :
    (t.setPc i caller later).holding p = s.holding p := by
  have known : t.callers[i]? = some caller := callers ▸ present
  unfold setPc
  rw [holding_setPc known, same]
  split
  next here => simp only [here, holding_call present, pc, free]
  next => rfl

theorem dispatchBegun_move (present : s.callers[i]? = some caller)
    (known : s.items[i]? = some item) (pc : caller.pc = .begun) {event : CallEvent}
    (taken : dispatchBegun cfg s i caller item event = some next) :
    Move cfg s next (.call i event) := by
  have early : caller.pc.early = true := by rw [pc]; rfl
  unfold dispatchBegun at taken
  split at taken
  · split at taken
    next unlimited =>
      simp only [Option.some.injEq] at taken
      subst taken
      exact .of_pc present known (pc ▸ .unlimited unlimited) rfl
    next key max limit =>
      split at taken
      · simp at taken
      next unshared =>
        split at taken
        · simp only [Option.some.injEq] at taken
          exact taken ▸ refuse_move present known early _
        · split at taken
          · simp only [Option.some.injEq] at taken
            exact taken ▸ refuse_move present known early _
          next counts admits =>
            simp only [Option.some.injEq] at taken
            subst taken
            refine .admitted present known pc limit (Or.inl ⟨rfl, by simpa using unshared, admits⟩)
              rfl rfl rfl ⟨fun _ h => h, fun _ h => h⟩ ?_
            refine admit_holding present (by rw [pc]; rfl) rfl ?_ rfl
            intro p
            cases p <;> rfl
  · split at taken
    · simp at taken
    next key max limit =>
      split at taken
      next shared =>
        split at taken
        · simp only [Option.some.injEq] at taken
          subst taken
          refine .admitted present known pc limit (Or.inr ⟨shared, rfl⟩) rfl rfl rfl
            ⟨fun _ h => h, fun _ h => h⟩ ?_
          refine admit_holding present (by rw [pc]; rfl) rfl ?_ rfl
          intro p
          cases p <;> rfl
        · simp only [Option.some.injEq] at taken
          exact taken ▸ refuse_move present known early _
      · simp at taken
  · simp only [Option.some.injEq] at taken
    subst taken
    exact .refused present known early (Or.inr rfl) rfl rfl rfl rfl ⟨fun _ h => h, fun _ h => h⟩
      (refuse_holding present rfl)
  · simp at taken

theorem dispatchAcquire_move (present : s.callers[i]? = some caller)
    (known : s.items[i]? = some item) (pc : caller.pc = .acquire) :
    Move cfg s (dispatchAcquire s i caller item) action := by
  have early : caller.pc.early = true := by rw [pc]; rfl
  unfold dispatchAcquire
  split
  · exact refuse_move present known early _
  · split
    · exact refuse_move present known early _
    · have counts : returnSlot s.counts item { item with permit := true } = s.counts := by
        simp [returnSlot]
      refine .acquired present known pc rfl rfl ⟨⟨fun _ h => h, fun _ h => h⟩, counts, rfl⟩ ?_
      refine admit_holding present (by rw [pc]; rfl) rfl ?_ rfl
      intro p
      cases p <;> rfl

theorem dispatchBuild_move (present : s.callers[i]? = some caller)
    (known : s.items[i]? = some item) (pc : caller.pc = .checkClosing) :
    Move cfg s (dispatchBuild s i caller item) action := by
  unfold dispatchBuild
  split
  · exact refuse_move present known (by rw [pc]; rfl) _
  · have counts : returnSlot s.counts item { item with work := .live } = s.counts := by
      simp [returnSlot]
    refine .built present known pc rfl rfl ⟨⟨fun _ h => h, fun _ h => h⟩, counts, rfl⟩ ?_
    intro p
    have same : (s.put i item { item with work := .live }).callers[i]? = some caller := present
    unfold setPc
    rw [holding_setPc same, holding_put]
    rfl

theorem insert_move (present : s.callers[i]? = some caller) (pc : caller.pc = .insert)
    {after : DispatchPc T}
    (changed : (∃ c, after = .displacing c ∧
      s.holding (.map caller.jobId) = some (c, .live)) ∨
        after = .enqueue ∧ s.pending.lookup caller.jobId = none) :
    Move cfg s ({ s with pending := AList.insert caller.jobId i s.pending }.setPc i caller after)
      action := by
  have next : (∃ c, ({ caller with pc := after } : Caller T).pc = .displacing c ∧
      s.holding (.map caller.jobId) = some (c, .live)) ∨
        ({ caller with pc := after } : Caller T).pc = .enqueue := by
    rcases changed with displaced | ⟨queued, _⟩
    · exact Or.inl displaced
    · exact Or.inr queued
  refine .inserted present pc next rfl rfl rfl ⟨⟨fun _ h => h, fun _ h => h⟩, rfl, rfl⟩ ?_
  intro p
  have same : { s with pending := AList.insert caller.jobId i s.pending }.callers[i]? =
      some caller := present
  unfold setPc
  rw [holding_setPc same]
  split
  · rcases changed with ⟨c, rfl, held⟩ | ⟨rfl, absent⟩
    · simp [held, DispatchPc.item]
    · simp [DispatchPc.item, holding, absent]
  · cases p with
    | map jobId =>
        by_cases here : jobId = caller.jobId
        · subst here
          simp [holding]
        · simp [holding, here]
    | _ => simp [holding]

theorem dispatchInsert_move (present : s.callers[i]? = some caller)
    (known : s.items[i]? = some item) (pc : caller.pc = .insert) :
    Move cfg s (dispatchInsert s i caller item) action := by
  unfold dispatchInsert
  split
  · exact refuse_move present known (by rw [pc]; rfl) _
  · split
    next previous old =>
      have held : s.holding (.map caller.jobId) = some (previous, .live) := by simp [holding, old]
      exact insert_move present pc (Or.inl ⟨previous, rfl, held⟩)
    next none_ => exact insert_move present pc (Or.inr ⟨rfl, none_⟩)

theorem dispatchRemove_move (present : s.callers[i]? = some caller)
    (known : s.items[i]? = some item) (waits : caller.pc.waits = true) {error : ActionError}
    (reason : error = .cancelled ∨ error = .clientGone) :
    Move cfg s (dispatchRemove s i caller error) action := by
  unfold dispatchRemove
  split
  next c found =>
    have held : s.holding (.map caller.jobId) = some (c, .live) := by simp [holding, found]
    refine .recalled present waits reason held rfl rfl rfl rfl ⟨fun _ h => h, fun _ h => h⟩ ?_
    intro p
    have same : (s.take caller.jobId c .caller).callers[i]? = some caller := present
    unfold setPc
    rw [holding_setPc same, holding_take]
    rfl
  · exact .of_pc present known (.waiting waits rfl) rfl

theorem dispatchAbandon_move (present : s.callers[i]? = some caller)
    (known : s.items[i]? = some item) (waits : caller.pc.waits = true) (error : ActionError) :
    Move cfg s (dispatchAbandon s i caller error) action := by
  unfold dispatchAbandon
  split
  · split
    · exact dispatchRemove_move present known waits (Or.inl rfl)
    · exact .of_pc present known (.waiting waits rfl) rfl
  · exact .of_pc present known (.waiting waits (by dsimp only; split <;> rfl)) rfl
  · exact .of_pc present known (.waiting waits rfl) rfl

theorem dispatchReceive_move (present : s.callers[i]? = some caller)
    (known : s.items[i]? = some item) (waits : caller.pc.waits = true)
    (taken : dispatchReceive s i caller item = some next) : Move cfg s next action := by
  unfold dispatchReceive at taken
  split at taken
  · simp at taken
  next sent =>
    simp only [Option.some.injEq] at taken
    subst taken
    exact .of_pc present known (.answered waits sent) rfl
  next dropped =>
    simp only [Option.some.injEq] at taken
    subst taken
    exact .of_pc present known (.unanswered waits dropped) rfl

theorem dispatchEvent_move (present : s.callers[i]? = some caller)
    (known : s.items[i]? = some item) {event : CallEvent}
    (taken : dispatchEvent cfg s i caller item event = some next) :
    Move cfg s next (.call i event) := by
  unfold dispatchEvent at taken
  split at taken
  next pc => exact dispatchBegun_move present known pc taken
  all_goals
    try simp only [Option.some.injEq, Option.map_eq_some_iff, reduceCtorEq] at taken
  next pc => exact taken ▸ dispatchAcquire_move present known pc
  next pc => exact taken ▸ dispatchBuild_move present known pc
  next pc => exact taken ▸ dispatchInsert_move present known pc
  next c pc =>
    obtain ⟨previous, found, rfl⟩ := taken
    exact .displaced present pc found rfl rfl rfl rfl ⟨fun _ h => h, fun _ h => h⟩
      (refuse_holding present rfl)
  next pc =>
    subst taken
    have queued : PcMove item caller.pc { caller with pc := .looking }.pc := pc ▸ .waiting rfl rfl
    refine .moved present known queued rfl rfl rfl ⟨⟨fun _ h => h, fun _ h => h⟩, rfl, rfl⟩ ?_
    refine admit_holding present (by rw [pc]; rfl) rfl ?_ rfl
    intro p
    cases p <;> rfl
  next pc =>
    subst taken
    refine .of_pc present known (pc ▸ .waiting rfl ?_) rfl
    dsimp only
    split
    · rfl
    · split <;> rfl
    · split <;> rfl
  next pc =>
    exact taken ▸ .of_pc present known (pc ▸ .waiting rfl (by dsimp only; split <;> rfl)) rfl
  next pc =>
    exact taken ▸ .of_pc present known (pc ▸ .waiting rfl (by dsimp only; split <;> rfl)) rfl
  next error pc => exact taken ▸ dispatchAbandon_move present known (by rw [pc]; rfl) error
  next pc =>
    subst taken
    split
    · exact .of_pc present known (pc ▸ .waiting rfl rfl) rfl
    · exact dispatchRemove_move present known (by rw [pc]; rfl) (Or.inr rfl)
  next error c pc =>
    obtain ⟨removed, found, rfl⟩ := taken
    exact .abandoned present pc found rfl rfl rfl rfl ⟨fun _ h => h, fun _ h => h⟩
      (refuse_holding present rfl)
  next pc =>
    refine taken ▸ .of_pc present known (pc ▸ .waiting rfl ?_) rfl
    dsimp only [dispatchPark]
    split <;> rfl
  next pc => exact taken ▸ .of_pc present known (pc ▸ .waiting rfl rfl) rfl
  next timer pc => exact dispatchReceive_move present known (by rw [pc]; rfl) taken
  next timer pc =>
    split at taken
    · simp only [Option.some.injEq] at taken
      exact taken ▸ .of_pc present known (pc ▸ .waiting rfl rfl) rfl
    · simp at taken
  next deadline pc =>
    split at taken
    · simp only [Option.some.injEq] at taken
      exact taken ▸ .of_pc present known (pc ▸ .waiting rfl rfl) rfl
    · simp at taken
  next timer pc => exact taken ▸ .of_pc present known (pc ▸ .dropped rfl) rfl
  next pc => exact dispatchReceive_move present known (by rw [pc]; rfl) taken
  next pc => exact taken ▸ .of_pc present known (pc ▸ .dropped rfl) rfl

theorem idle_of_worker {pc later : WorkerPc T} (present : s.workers[i]? = some pc)
    (same : later.item = pc.item) (phase : later.item ≠ none → later.phase = pc.phase) :
    Move cfg s (s.setWorker i later) action := by
  refine .idle ⟨⟨fun _ h => h, fun _ h => h⟩, rfl, rfl⟩ rfl rfl ?_
  intro p
  rw [holding_setWorker present]
  split
  next here =>
    rw [here, holding_worker present]
    cases held : later.item with
    | none => simp [← same, held]
    | some c => simp [← same, held, phase (by simp [held])]
  next => rfl

theorem held_of_worker {pc later : WorkerPc T} {changed : Item T} {kept : Option WorkPhase}
    (present : s.workers[i]? = some pc) (holds : pc.item = some c)
    (known : s.items[c]? = some item) (step : HeldStep pc.phase item changed kept)
    (value : later.item.map (·, later.phase) = kept.map (c, ·)) :
    Move cfg s ((s.put c item changed).setWorker i later) action := by
  have held : s.holding (.worker i) = some (c, pc.phase) := by rw [holding_worker present, holds]; rfl
  refine .held (Or.inl ⟨i, rfl⟩) held known step rfl rfl rfl rfl (fun _ h => Or.inl h)
    (fun _ h => h) ?_
  intro q
  have same : (s.put c item changed).workers[i]? = some pc := present
  rw [holding_setWorker same, holding_put, value]

theorem workerRemove_move {pc : WorkerPc T} {job : Nat} (present : s.workers[i]? = some pc)
    (free : pc.item = none) (taken : workerRemove s i job = some next) :
    Move cfg s next action := by
  simp only [workerRemove, Option.map_eq_some_iff] at taken
  obtain ⟨handle, _, rfl⟩ := taken
  split
  · exact idle_of_worker present (by rw [free]; rfl) (by simp [WorkerPc.item])
  next c found =>
    have held : s.holding (.map handle.job.id) = some (c, .live) := by simp [holding, found]
    have empty : s.holding (.worker i) = none := by rw [holding_worker present, free]; rfl
    refine .taken (Or.inl ⟨i, rfl⟩) empty held rfl rfl rfl rfl ⟨fun _ h => h, fun _ h => h⟩ ?_
    intro q
    have same : (s.take handle.job.id c .executor).workers[i]? = some pc := present
    rw [holding_setWorker same, holding_take]
    rfl

theorem workerItem_move {pc : WorkerPc T} {event : WorkerEvent T}
    (present : s.workers[i]? = some pc) (holds : pc.item = some c)
    (known : s.items[c]? = some item)
    (taken : workerItem s i c caller item pc event = some next) : Move cfg s next action := by
  have run : pc.phase = .live → Move cfg s (workerRun s i c item) action := by
    intro live
    have step : HeldStep pc.phase item { item with work := .running, starts := item.starts + 1 }
        (some .running) := by
      rw [live]
      exact .started
    exact held_of_worker present holds known step rfl
  have observe : ∀ error, pc.phase = .live → Move cfg s (workerObserve s i c item error) action := by
    intro error live
    have step : HeldStep pc.phase item { item.endWork .resolved with observed := true }
        (some .resolved) := by
      rw [live]
      exact .observed
    exact held_of_worker present holds known step rfl
  have wait : ∀ {later : WorkerPc T}, pc.phase = .live → later.item = some c →
      later.phase = .live → Move cfg s (s.setWorker i later) action := by
    intro later live held phase
    exact idle_of_worker present (by rw [held, holds]) (fun _ => by rw [live, phase])
  unfold workerItem at taken
  split at taken <;>
    try simp only [Option.some.injEq, reduceCtorEq] at taken
  · exact taken ▸ held_of_worker present holds known .unpermitted rfl
  · split at taken
    · simp only [Option.some.injEq] at taken
      exact taken ▸ held_of_worker present holds known .discarded rfl
    · simp only [Option.some.injEq] at taken
      exact taken ▸ wait rfl rfl rfl
  · subst taken
    unfold workerPoll
    split
    · exact run rfl
    · split
      · exact observe _ rfl
      · exact run rfl
    · split
      · exact observe _ rfl
      · exact wait rfl rfl rfl
  · split at taken
    · simp only [Option.some.injEq] at taken
      exact taken ▸ run rfl
    · simp only [Option.some.injEq] at taken
      exact taken ▸ wait rfl rfl rfl
  · split at taken
    · simp only [Option.some.injEq] at taken
      exact taken ▸ run rfl
    · simp only [Option.some.injEq] at taken
      exact taken ▸ observe _ rfl
  · exact taken ▸ held_of_worker present holds known .finished rfl
  · exact taken ▸ held_of_worker present holds known .discarded rfl
  · exact taken ▸ held_of_worker present holds known (.sent (Or.inl rfl)) rfl

theorem workerEvent_move {pc : WorkerPc T} {event : WorkerEvent T}
    (present : s.workers[i]? = some pc) (taken : workerEvent s i pc event = some next) :
    Move cfg s next action := by
  unfold workerEvent at taken
  split at taken
  next index =>
    simp only [Option.map_eq_some_iff] at taken
    obtain ⟨job, _, rfl⟩ := taken
    refine .idle ⟨⟨fun _ h => h, fun _ h => h⟩, rfl, rfl⟩ rfl rfl ?_
    intro p
    have same : { s with queue := s.queue.eraseIdx index }.workers[i]? = some .idle := present
    rw [holding_setWorker same]
    split
    next here => rw [here, holding_worker present]; rfl
    next => cases p <;> rfl
  · split at taken
    · simp only [Option.some.injEq] at taken
      exact taken ▸ idle_of_worker present rfl (by simp [WorkerPc.item])
    · simp at taken
  · exact workerRemove_move present rfl taken
  next =>
    simp only [Option.bind_eq_some_iff] at taken
    obtain ⟨c, holds, caller, _, item, known, taken⟩ := taken
    exact workerItem_move present holds known taken

theorem idle_of_handler {pc later : HandlerPc} (present : s.handlers[i]? = some pc)
    (same : later.item = pc.item) : Move cfg s (s.setHandler i later) action := by
  refine .idle ⟨⟨fun _ h => h, fun _ h => h⟩, rfl, rfl⟩ rfl rfl ?_
  intro p
  rw [holding_setHandler present]
  split
  next here => rw [here, holding_handler present, same]
  next => rfl

theorem held_of_handler {pc later : HandlerPc} {changed : Item T} {kept : Option WorkPhase}
    (present : s.handlers[i]? = some pc) (holds : pc.item = some c)
    (known : s.items[c]? = some item) (step : HeldStep .live item changed kept)
    (value : later.item.map (·, WorkPhase.live) = kept.map (c, ·)) :
    Move cfg s ((s.put c item changed).setHandler i later) action := by
  have held : s.holding (.handler i) = some (c, .live) := by rw [holding_handler present, holds]; rfl
  refine .held (Or.inr ⟨i, rfl⟩) held known step rfl rfl rfl rfl (fun _ h => Or.inl h)
    (fun _ h => h) ?_
  intro q
  have same : (s.put c item changed).handlers[i]? = some pc := present
  rw [holding_setHandler same, holding_put, value]

theorem handlerRemove_move {pc : HandlerPc} {job : Nat} (present : s.handlers[i]? = some pc)
    (free : pc.item = none) (taken : handlerRemove s i job = some next) :
    Move cfg s next action := by
  simp only [handlerRemove, Option.map_eq_some_iff] at taken
  obtain ⟨handle, _, rfl⟩ := taken
  split
  · exact idle_of_handler present (by rw [free]; rfl)
  next c found =>
    have held : s.holding (.map handle.job.id) = some (c, .live) := by simp [holding, found]
    have empty : s.holding (.handler i) = none := by rw [holding_handler present, free]; rfl
    refine .taken (Or.inr ⟨i, rfl⟩) empty held rfl rfl rfl rfl ⟨fun _ h => h, fun _ h => h⟩ ?_
    intro q
    have same : (s.take handle.job.id c .executor).handlers[i]? = some pc := present
    rw [holding_setHandler same, holding_take]
    rfl

theorem handlerClaim_move {pc : HandlerPc} {job : Nat} (present : s.handlers[i]? = some pc)
    (holds : pc.item = some c) (known : s.items[c]? = some item)
    (taken : handlerClaim s i job c item = some next) : Move cfg s next action := by
  simp only [handlerClaim, Option.map_eq_some_iff] at taken
  obtain ⟨handle, _, rfl⟩ := taken
  have held : s.holding (.handler i) = some (c, .live) := by rw [holding_handler present, holds]; rfl
  refine .held (Or.inr ⟨i, rfl⟩) held known .claimed rfl rfl rfl rfl ?_ (fun _ h => h) ?_
  · rintro x ⟨jobId, entry, found, rfl⟩
    simp only [setHandler, HashMap.lookup_insert_eq] at found
    split at found
    · simp only [Option.some.injEq] at found
      subst found
      exact Or.inr ⟨rfl, rfl, rfl⟩
    · exact Or.inl ⟨jobId, entry, found, rfl⟩
  · intro q
    have same : { s.put c item { item with outcome := .waiting } with
        inProgress := AList.insert handle.job.id ⟨c, s.now⟩ s.inProgress }.handlers[i]? = some pc :=
      present
    rw [holding_setHandler same]
    split
    · split <;> rfl
    · cases q <;> rfl

theorem handlerItem_move {pc : HandlerPc} (present : s.handlers[i]? = some pc)
    (holds : pc.item = some c) (known : s.items[c]? = some item)
    (taken : handlerItem s i c caller item pc = some next) : Move cfg s next action := by
  have refusal : ∀ error, Move cfg s (handlerRefuse s i c caller item error) action := by
    intro error
    exact held_of_handler present holds known (.sent (Or.inr rfl)) rfl
  have wait : ∀ {later : HandlerPc}, later.item = some c →
      Move cfg s (s.setHandler i later) action := by
    intro later held
    exact idle_of_handler present (by rw [held, holds])
  unfold handlerItem at taken
  split at taken <;>
    try simp only [Option.some.injEq, Option.map_eq_some_iff, reduceCtorEq] at taken
  · exact taken ▸ held_of_handler present holds known .unpermitted rfl
  · split at taken
    · simp only [Option.some.injEq] at taken
      exact taken ▸ held_of_handler present holds known .discarded rfl
    · simp only [Option.some.injEq] at taken
      exact taken ▸ wait rfl
  · subst taken
    unfold handlerCheck
    split
    · exact wait rfl
    · split
      · exact refusal _
      · exact wait rfl
    · split
      · exact refusal _
      · exact wait rfl
  · split at taken
    · simp only [Option.some.injEq] at taken
      exact taken ▸ wait rfl
    · simp only [Option.some.injEq] at taken
      exact taken ▸ wait rfl
  · split at taken
    · simp only [Option.some.injEq] at taken
      exact taken ▸ wait rfl
    · simp only [Option.some.injEq] at taken
      exact taken ▸ refusal _
  · exact handlerClaim_move present holds known taken
  next previous =>
    obtain ⟨displaced, found, rfl⟩ := taken
    have counts : ∀ outcome, returnSlot s.counts displaced { displaced with outcome := outcome } =
        s.counts := by simp [returnSlot]
    refine .loose found .settled rfl rfl ⟨⟨fun _ h => h, fun _ h => h⟩, counts _, rfl⟩ ?_
    intro p
    have same : (s.put previous displaced { displaced with outcome := .dropped }).handlers[i]? =
        some _ := present
    rw [holding_setHandler same, holding_put]
    split
    next here => rw [here, holding_handler present, holds]; rfl
    next => rfl
  · exact taken ▸ held_of_handler present holds known .spawned rfl
  · exact taken ▸ held_of_handler present holds known .left rfl

theorem handlerEvent_move {pc : HandlerPc} {event : HandlerEvent}
    (present : s.handlers[i]? = some pc) (taken : handlerEvent s i pc event = some next) :
    Move cfg s next action := by
  unfold handlerEvent at taken
  split at taken
  next index =>
    split at taken
    · simp only [Option.map_eq_some_iff] at taken
      obtain ⟨job, _, rfl⟩ := taken
      refine .idle ⟨⟨fun _ h => h, fun _ h => h⟩, rfl, rfl⟩ rfl rfl ?_
      intro p
      have same : { s with queue := s.queue.eraseIdx index }.handlers[i]? = some .waiting := present
      rw [holding_setHandler same]
      split
      next here => rw [here, holding_handler present]; rfl
      next => cases p <;> rfl
    · simp at taken
  · split at taken
    · simp only [Option.some.injEq] at taken
      exact taken ▸ idle_of_handler present rfl
    · simp at taken
  · split at taken
    · exact handlerRemove_move present rfl taken
    next =>
      simp only [Option.bind_eq_some_iff] at taken
      obtain ⟨c, holds, caller, _, item, known, taken⟩ := taken
      exact handlerItem_move present holds known taken

theorem settle_move {jobId : String} {outcome : Outcome T}
    (taken : settle s jobId outcome = some next) : Move cfg s next action := by
  simp only [settle, Option.bind_eq_some_iff, Option.map_eq_some_iff] at taken
  obtain ⟨entry, _, item, known, rfl⟩ := taken
  have counts : returnSlot s.counts item { item with outcome := outcome } = s.counts := by
    simp [returnSlot]
  refine .loose known .settled rfl rfl ⟨⟨?_, fun _ h => h⟩, counts, rfl⟩ ?_
  · rintro c ⟨other, found, present, rfl⟩
    simp only [HashMap.lookup_erase_eq] at present
    split at present
    · simp at present
    · exact ⟨other, found, present, rfl⟩
  · intro p
    cases p <;> rfl

theorem heartbeatJob_move {jobId : String} (taken : heartbeatJob s jobId = some next) :
    Move cfg s next action := by
  simp only [heartbeatJob, Option.map_eq_some_iff] at taken
  obtain ⟨entry, found, rfl⟩ := taken
  refine .idle ⟨⟨?_, fun _ h => h⟩, rfl, rfl⟩ rfl rfl ?_
  · rintro c ⟨other, later, present, rfl⟩
    simp only [HashMap.lookup_insert_eq] at present
    split at present
    · simp only [Option.some.injEq] at present
      subst present
      exact ⟨jobId, entry, found, rfl⟩
    · exact ⟨other, later, present, rfl⟩
  · intro p
    cases p <;> rfl

theorem forwardOutcome_move (known : s.items[c]? = some item)
    (taken : forwardOutcome s c caller item = some next) : Move cfg s next action := by
  have forward : ∀ value, item.spawned = true → Move cfg s (s.put c item { item with
      spawned := false
      reply := item.reply.send (!caller.gone) .executor value }) action := by
    intro value spawned
    have counts : returnSlot s.counts item { item with
        spawned := false
        reply := item.reply.send (!caller.gone) .executor value } = s.counts := by
      simp [returnSlot]
    exact .loose known (.forwarded spawned) rfl rfl ⟨⟨fun _ h => h, fun _ h => h⟩, counts, rfl⟩
      (holding_put s c item _)
  unfold forwardOutcome at taken
  split at taken
  next spawned =>
    split at taken <;> simp only [Option.some.injEq, reduceCtorEq] at taken
    · exact taken ▸ forward _ spawned
    · exact taken ▸ forward _ spawned
  next => simp at taken

theorem stranded_setCloser {later : CloserPc}
    (stranded : (s.setCloser i later).Stranded c) : s.Stranded c ∨ c ∈ later.stranded := by
  obtain ⟨found, member, inside⟩ := stranded
  rcases List.mem_or_eq_of_mem_set member with old | rfl
  · exact Or.inl ⟨found, old, inside⟩
  · exact Or.inr inside

theorem idle_of_closer {pc later : CloserPc} (present : s.closers[i]? = some pc)
    (same : ∀ c ∈ later.stranded, c ∈ pc.stranded) {t : DispatcherState T}
    (quiet : Quiet s t) (items : t.items = s.items)
    (callers : t.callers = s.callers) (holds : ∀ p, t.holding p = s.holding p) :
    Move cfg s (t.setCloser i later) action := by
  refine .idle ⟨⟨quiet.claims, ?_⟩, quiet.counts, quiet.remover⟩ items callers ?_
  · intro c stranded
    rcases stranded_setCloser stranded with old | inside
    · exact quiet.stranded c old
    · exact ⟨pc, List.mem_of_getElem? present, same c inside⟩
  · intro p
    rw [← holds p]
    cases p <;> rfl

theorem closerDrain_move {stranded : List Nat} (present : s.closers[i]? = some (.draining stranded))
    {jobId : String} (found : s.pending.lookup jobId = some c) (known : s.items[c]? = some item) :
    Move cfg s (((s.take jobId c .closer).put c item { item.endWork .dropped with permit := false
      }).setCloser i (.draining (stranded ++ [c]))) action := by
  have held : s.holding (.map jobId) = some (c, .live) := by simp [holding, found]
  refine .drained held known rfl rfl rfl rfl (fun _ h => h) ?_ ?_
  · rintro x ⟨pc, member, inside⟩
    rcases List.mem_or_eq_of_mem_set member with old | rfl
    · exact Or.inl ⟨pc, old, inside⟩
    · simp only [CloserPc.stranded, List.mem_append, List.mem_singleton] at inside
      rcases inside with old | rfl
      · exact Or.inl ⟨_, List.mem_of_getElem? present, old⟩
      · exact Or.inr rfl
  · intro p
    rw [← holding_take s jobId c .closer p]
    cases p <;> rfl

theorem closerSend_move {stranded : List Nat}
    (present : s.closers[i]? = some (.sending (c :: stranded))) (known : s.items[c]? = some item) :
    Move cfg s ((s.put c item { item with
      reply := item.reply.send (!caller.gone) .closer (.error .closed) }).setCloser i
      (.sending stranded)) action := by
  have waiting : s.Stranded c := ⟨_, List.mem_of_getElem? present, by simp [CloserPc.stranded]⟩
  have counts : returnSlot s.counts item { item with
      reply := item.reply.send (!caller.gone) .closer (.error .closed) } = s.counts := by
    simp [returnSlot]
  refine .loose known (.closed waiting) rfl rfl ⟨⟨fun _ h => h, ?_⟩, counts, rfl⟩ ?_
  · rintro x ⟨pc, member, inside⟩
    rcases List.mem_or_eq_of_mem_set member with old | rfl
    · exact ⟨pc, old, inside⟩
    · exact ⟨_, List.mem_of_getElem? present, List.mem_cons_of_mem c inside⟩
  · intro p
    cases p <;> rfl

theorem closerEvent_move {pc : CloserPc} {event : CloserEvent}
    (present : s.closers[i]? = some pc) (taken : closerEvent s i pc event = some next) :
    Move cfg s next action := by
  unfold closerEvent at taken
  split at taken <;>
    try simp only [Option.some.injEq, Option.bind_eq_some_iff, Option.map_eq_some_iff,
      reduceCtorEq] at taken
  · exact taken ▸ idle_of_closer present (by simp [CloserPc.stranded])
      ⟨⟨fun _ h => h, fun _ h => h⟩, rfl, rfl⟩ rfl rfl fun p => by cases p <;> rfl
  · exact taken ▸ idle_of_closer present (by simp [CloserPc.stranded])
      ⟨⟨fun _ h => h, fun _ h => h⟩, rfl, rfl⟩ rfl rfl fun p => by cases p <;> rfl
  · exact taken ▸ idle_of_closer present (by simp [CloserPc.stranded])
      ⟨⟨fun _ h => h, fun _ h => h⟩, rfl, rfl⟩ rfl rfl fun p => by cases p <;> rfl
  · obtain ⟨c, found, item, known, rfl⟩ := taken
    exact closerDrain_move present found known
  · split at taken
    · simp only [Option.some.injEq] at taken
      subst taken
      refine idle_of_closer present ?_ ⟨⟨fun _ h => h, fun _ h => h⟩, rfl, rfl⟩ rfl rfl
        fun _ => rfl
      exact fun _ inside => inside
    · simp at taken
  · obtain ⟨caller, _, item, known, rfl⟩ := taken
    exact closerSend_move present known
  · exact taken ▸ idle_of_closer present (by simp [CloserPc.stranded])
      ⟨⟨fun _ h => h, fun _ h => h⟩, rfl, rfl⟩ rfl rfl fun _ => rfl

theorem dispatch_move {job : Nat} {guard : DispatchGuard}
    (taken : dispatch cfg s job guard = some next) : Move cfg s next (.dispatch job guard) := by
  simp only [dispatch, Option.map_eq_some_iff] at taken
  obtain ⟨handle, found, rfl⟩ := taken
  refine .dispatched found rfl rfl ⟨⟨fun _ h => h, fun _ h => h⟩, rfl, rfl⟩ ?_
  intro p
  cases p with
  | call j =>
      simp only [holding]
      rw [List.getElem?_append]
      split
      · rfl
      next beyond =>
        rw [List.getElem?_eq_none (Nat.not_lt.mp beyond), List.getElem?_singleton]
        split <;> rfl
  | _ => rfl

/-- Every step of a dispatcher is one of the moves. -/
theorem dispatcherStep_move (taken : dispatcherStep cfg s action = some next) :
    Move cfg s next action := by
  unfold dispatcherStep at taken
  split at taken <;>
    try simp only [Option.some.injEq, Option.bind_eq_some_iff, Option.map_eq_some_iff] at taken
  · exact taken ▸ .idle ⟨⟨fun _ h => h, fun _ h => h⟩, rfl, rfl⟩ rfl rfl fun p => by cases p <;> rfl
  · exact taken ▸ .idle ⟨⟨fun _ h => h, fun _ h => h⟩, rfl, rfl⟩ rfl rfl fun p => by cases p <;> rfl
  · obtain ⟨handle, _, rfl⟩ := taken
    exact .idle ⟨⟨fun _ h => h, fun _ h => h⟩, rfl, rfl⟩ rfl rfl fun p => by cases p <;> rfl
  · exact dispatch_move taken
  · obtain ⟨caller, present, item, known, taken⟩ := taken
    exact dispatchEvent_move present known taken
  · obtain ⟨pc, present, taken⟩ := taken
    exact workerEvent_move present taken
  · split at taken
    · simp only [Option.some.injEq] at taken
      exact taken ▸ .idle ⟨⟨fun _ h => h, fun _ h => h⟩, rfl, rfl⟩ rfl rfl
        fun p => by cases p <;> rfl
    · simp at taken
  · split at taken
    · simp at taken
    · simp only [Option.some.injEq] at taken
      subst taken
      refine .idle ⟨⟨fun _ h => h, fun _ h => h⟩, rfl, rfl⟩ rfl rfl ?_
      intro p
      cases p with
      | handler j =>
          simp only [holding]
          rw [List.getElem?_append]
          split
          · rfl
          next beyond =>
            rw [List.getElem?_eq_none (Nat.not_lt.mp beyond), List.getElem?_singleton]
            split <;> rfl
      | _ => rfl
  · obtain ⟨pc, present, taken⟩ := taken
    exact handlerEvent_move present taken
  · exact heartbeatJob_move taken
  · unfold completeJob at taken
    split at taken
    · simp at taken
    · exact settle_move taken
  · unfold evictJob at taken
    split at taken
    · simp at taken
    · simp only [Option.bind_eq_some_iff] at taken
      obtain ⟨entry, _, taken⟩ := taken
      split at taken
      · exact settle_move taken
      · simp at taken
  · obtain ⟨caller, _, item, known, taken⟩ := taken
    exact forwardOutcome_move known taken
  · exact taken ▸ .idle ⟨⟨fun _ h => h, fun _ h => h⟩, rfl, rfl⟩ rfl rfl fun p => by cases p <;> rfl
  · subst taken
    refine .idle ⟨⟨fun _ h => h, ?_⟩, rfl, rfl⟩ rfl rfl fun p => by cases p <;> rfl
    rintro c ⟨pc, member, inside⟩
    simp only [List.mem_append, List.mem_singleton] at member
    rcases member with old | rfl
    · exact ⟨pc, old, inside⟩
    · simp [CloserPc.stranded] at inside
  · obtain ⟨pc, present, taken⟩ := taken
    exact closerEvent_move present taken

end Inversion

end BitsBroker
