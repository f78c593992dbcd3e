import BitsBroker.Dispatcher.Claims

/-!
A claimed job is resolved once. The entry of an identifier stands for the claim of the one
call with that identifier, whose outcome is then open; the operation that removes the entry
settles the outcome for good, and the forwarding task turns it into the answer of the call.
-/

namespace BitsBroker

open Transition Table DispatcherState

section Invariant

variable {T : Type}

def DroppedCall (s : DispatcherState T) (c : Nat) : Prop :=
  ∃ caller, s.callers[c]? = some caller ∧ caller.pc = .dropped

/-- A handler is about to spawn the task that forwards the outcome. -/
def Spawning (s : DispatcherState T) (c : Nat) : Prop :=
  ∃ i : Nat, s.handlers[i]? = some (.spawning c)

/-- A claimed item is still to be forwarded, or its call has been answered. -/
structure ClaimOk (s : DispatcherState T) (c : Nat) (item : Item T) : Prop where
  executed : item.outcome ≠ .unclaimed → s.remover c = some .executor
  unspawned : item.outcome = .unclaimed → item.spawned = false
  forwarded : item.outcome ≠ .unclaimed →
    item.reply = .waiting ∧ (item.spawned = true ∨ Spawning s c) ∨
    item.spawned = false ∧ ∃ answer, item.outcome.answer = some answer ∧
      (item.reply = .sent .executor answer ∨ item.reply = .dropped ∧ DroppedCall s c)

structure HandlerOk (s : DispatcherState T) (pc : HandlerPc) : Prop where
  checks (job c : Nat) : pc.checks = some (job, c) → ∃ handle caller item,
    s.jobs[job]? = some handle ∧ s.callers[c]? = some caller ∧ caller.jobId = handle.job.id ∧
    s.items[c]? = some item ∧ item.outcome = .unclaimed ∧ item.reply = .waiting
  displaces (c previous : Nat) : pc ≠ .displacing c previous
  spawns (c : Nat) : pc = .spawning c → ∃ item, s.items[c]? = some item ∧
    item.outcome ≠ .unclaimed ∧ item.spawned = false ∧ item.reply = .waiting

structure ClaimWf (s : DispatcherState T) : Prop where
  remote : s.workers = []
  items (c : Nat) (item : Item T) : s.items[c]? = some item → ClaimOk s c item
  mapped (jobId : String) (c : Nat) (item : Item T) : s.pending.lookup jobId = some c →
    s.items[c]? = some item → item.reply = .waiting
  table (jobId : String) (entry : InProgressJob) : s.inProgress.lookup jobId = some entry →
    ∃ caller item, s.callers[entry.item]? = some caller ∧ caller.jobId = jobId ∧
      s.items[entry.item]? = some item ∧ item.outcome = .waiting
  entered (c : Nat) (caller : Caller T) (item : Item T) : s.callers[c]? = some caller →
    s.items[c]? = some item → item.outcome = .waiting →
    ∃ entry, s.inProgress.lookup caller.jobId = some entry ∧ entry.item = c
  handlers (i : Nat) (pc : HandlerPc) : s.handlers[i]? = some pc → HandlerOk s pc

variable {cfg : DispatcherConfig T} {s next : DispatcherState T} {action : DispatcherAction T}
  {i c : Nat} {caller : Caller T} {item : Item T}

theorem Move.names (move : Move cfg s next action) (present : s.callers[i]? = some caller) :
    ∃ later, next.callers[i]? = some later ∧ later.jobId = caller.jobId := by
  have updated : ∀ {k : Nat} {other later : Caller T}, s.callers[k]? = some other →
      next.callers = s.callers.set k later → later.jobId = other.jobId →
      ∃ later, next.callers[i]? = some later ∧ later.jobId = caller.jobId := by
    intro k other later found callers named
    by_cases here : k = i
    · subst here
      obtain rfl := Option.some.inj (found.symm.trans present)
      refine ⟨later, ?_, named⟩
      rw [callers, List.getElem?_set_self (List.getElem?_eq_some_iff.mp found).1]
    · exact ⟨caller, by rw [callers, List.getElem?_set_ne here, present], rfl⟩
  cases move with
  | idle _ _ callers _ | taken _ _ _ callers _ _ _ _ _ | held _ _ _ _ callers _ _ _ _ _ _
  | loose _ _ callers _ _ _ | drained _ _ callers _ _ _ _ _ _ =>
      exact ⟨caller, by rw [callers, present], rfl⟩
  | dispatched _ callers _ _ _ =>
      refine ⟨caller, ?_, rfl⟩
      rw [callers, List.getElem?_append_left (List.getElem?_eq_some_iff.mp present).1, present]
  | moved found _ _ named callers _ _ _ | inserted found _ _ named callers _ _ _ =>
      exact updated found callers named
  | admitted found _ _ _ _ callers _ _ _ _ | refused found _ _ _ callers _ _ _ _ _
  | acquired found _ _ callers _ _ _ | built found _ _ callers _ _ _
  | displaced found _ _ callers _ _ _ _ _ | recalled found _ _ _ callers _ _ _ _ _
  | abandoned found _ _ callers _ _ _ _ _ => exact updated found callers rfl

theorem DroppedCall.kept (move : Move cfg s next action) (dropped : DroppedCall s c) :
    DroppedCall next c := by
  obtain ⟨caller, present, pc⟩ := dropped
  exact ⟨caller, gone_kept move present (by simp [Caller.gone, pc]), pc⟩

theorem ClaimOk.carry (wf : WinnerWf s) (move : Move cfg s next action) (ok : ClaimOk s c item)
    {later : Item T} (outcome : later.outcome = item.outcome)
    (spawned : later.spawned = item.spawned)
    (reply : item.outcome ≠ .unclaimed → later.reply = item.reply)
    (spawning : Spawning s c → Spawning next c) : ClaimOk next c later where
  executed := fun claimed => wf.remover_kept move (ok.executed (outcome ▸ claimed))
  unspawned := fun unclaimed => spawned.trans (ok.unspawned (outcome ▸ unclaimed))
  forwarded := by
    intro claimed
    rw [outcome] at claimed
    rw [spawned, outcome, reply claimed]
    rcases ok.forwarded claimed with ⟨waiting, awaited⟩ | ⟨sent, answer, is, answered⟩
    · refine Or.inl ⟨waiting, ?_⟩
      exact awaited.imp id spawning
    · refine Or.inr ⟨sent, answer, is, ?_⟩
      rcases answered with replied | ⟨unheard, dropped⟩
      · exact Or.inl replied
      · exact Or.inr ⟨unheard, dropped.kept move⟩

/-- A handler that forwards nothing may move on. -/
theorem Spawning.of_set {pc later : HandlerPc} (present : s.handlers[i]? = some pc)
    (different : pc ≠ .spawning c) (moved : next.handlers = s.handlers.set i later)
    (spawning : Spawning s c) : Spawning next c := by
  obtain ⟨j, found⟩ := spawning
  refine ⟨j, ?_⟩
  have away : i ≠ j := by
    rintro rfl
    exact different (Option.some.inj (present.symm.trans found))
  rw [moved, List.getElem?_set_ne away, found]

/-- An item that is not claimed has no entry in the table. -/
theorem ClaimWf.no_entry (ok : ClaimWf s) (wf : WinnerWf s)
    (present : s.callers[c]? = some caller) (known : s.items[c]? = some item)
    (closed : item.outcome ≠ .waiting) : s.inProgress.lookup caller.jobId = none := by
  cases found : s.inProgress.lookup caller.jobId with
  | none => rfl
  | some entry =>
      obtain ⟨other, held, named, sameId, inTable, waiting⟩ := ok.table _ entry found
      have same := wf.distinct _ _ _ _ named present sameId
      rw [same, known] at inTable
      obtain rfl := Option.some.inj inTable
      exact absurd waiting closed

theorem ClaimWf.claims_absent (ok : ClaimWf s) (wf : WinnerWf s) {job : Nat} {handle : JobHandle}
    (present : s.handlers[i]? = some (.claiming job c)) (submitted : s.jobs[job]? = some handle) :
    s.inProgress.lookup handle.job.id = none := by
  obtain ⟨found, caller, item, job_, named, sameId, known, unclaimed, _⟩ :=
    (ok.handlers i _ present).checks job c rfl
  obtain rfl := Option.some.inj (submitted.symm.trans job_)
  rw [← sameId]
  exact ok.no_entry wf named known (by simp [unclaimed])

/-- Two handlers never hold one item. -/
theorem WinnerWf.one_handler (wf : WinnerWf s) {j : Nat} {pc other : HandlerPc}
    (present : s.handlers[i]? = some pc) (holds : pc.item = some c)
    (elsewhere : s.handlers[j]? = some other) (also : other.item = some c) : i = j := by
  have left : s.holding (.handler i) = some (c, .live) := by simp [holding, present, holds]
  have right : s.holding (.handler j) = some (c, .live) := by simp [holding, elsewhere, also]
  simpa using wf.owned.unique _ _ c _ _ left right

theorem HandlerPc.item_of_checks {pc : HandlerPc} {job : Nat} (checks : pc.checks = some (job, c)) :
    pc.item = some c := by
  cases pc <;> simp_all [HandlerPc.checks, HandlerPc.item]

theorem HandlerPc.not_spawning_of_checks {pc : HandlerPc} {claim : Nat × Nat}
    (checks : pc.checks = some claim) : pc ≠ .spawning c := by
  rintro rfl
  simp [HandlerPc.checks] at checks

theorem ClaimOk.of_new {later : Item T} (unclaimed : later.outcome = .unclaimed)
    (unspawned : later.spawned = false) : ClaimOk next c later where
  executed := fun claimed => absurd unclaimed claimed
  unspawned := fun _ => unspawned
  forwarded := fun claimed => absurd unclaimed claimed

theorem ClaimOk.of_kept (wf : WinnerWf s) (move : Move cfg s next action)
    (ok : ClaimWf s) {free : Nat → Prop} (kept : Kept s next.items free)
    (unfree : ∀ d item, s.items[d]? = some item → free d → item.outcome = .unclaimed)
    (spawning : ∀ d, Spawning s d → Spawning next d) {later : Item T}
    (found : next.items[c]? = some later) : ClaimOk next c later := by
  rcases kept c later found with ⟨_, unclaimed, unspawned⟩ | ⟨item, known, outcome, spawned, reply⟩
  · exact .of_new unclaimed unspawned
  · refine (ok.items c item known).carry wf move outcome spawned ?_ (spawning c)
    intro claimed
    exact reply (Or.inl ((ok.items c item known).executed claimed))
      fun isFree => claimed (unfree c item known isFree)

/-- The item of the step on its own, the others as they were. -/
theorem ClaimOk.of_set (wf : WinnerWf s) (move : Move cfg s next action) (ok : ClaimWf s)
    {d : Nat} {changed later : Item T} (items : next.items = s.items.set d changed)
    (own : ClaimOk next d changed) (spawning : ∀ e, e ≠ d → Spawning s e → Spawning next e)
    (found : next.items[c]? = some later) : ClaimOk next c later := by
  rw [items] at found
  rcases getElem?_of_set found with ⟨rfl, rfl⟩ | ⟨away, known⟩
  · exact own
  · exact (ok.items c later known).carry wf move rfl rfl (fun _ => rfl) (spawning c away)

theorem Spawning.of_same (handlers : next.handlers = s.handlers) (spawning : Spawning s c) :
    Spawning next c := by
  unfold Spawning
  rwa [handlers]

theorem Kept.of_same (items : next.items = s.items) (free : Nat → Prop) :
    Kept s next.items free := by
  rw [items]
  exact .same free

theorem ClaimWf.items_step (ok : ClaimWf s) (wf : WinnerWf s) (move : Move cfg s next action)
    (claim : ClaimMove s next action) (later : Item T) (found : next.items[c]? = some later) :
    ClaimOk next c later := by
  have nobody : ∀ (d : Nat) (item : Item T), s.items[d]? = some item → False →
      item.outcome = .unclaimed := fun _ _ _ never => never.elim
  cases claim with
  | aside handlers _ kept =>
      exact .of_kept wf move ok (kept wf) nobody (fun _ => .of_same handlers) found
  | opened handlers _ items =>
      refine .of_kept wf move ok (.of_same items _) nobody ?_ found
      rintro d ⟨i, present⟩
      refine ⟨i, ?_⟩
      rw [handlers, List.getElem?_append_left (List.getElem?_eq_some_iff.mp present).1, present]
  | rested present handlers _ busy _ kept =>
      refine .of_kept wf move ok kept ?_ (fun d => .of_set present (busy d) handlers) found
      rintro d item known ⟨job, checks⟩
      obtain ⟨_, _, held, _, _, _, inItems, unclaimed, _⟩ :=
        (ok.handlers _ _ present).checks job d checks
      obtain rfl := Option.some.inj (known.symm.trans inItems)
      exact unclaimed
  | took present _ _ handlers _ items =>
      exact .of_kept wf move ok (.of_same items _) nobody
        (fun d => .of_set present (by simp) handlers) found
  | passed present before _ handlers _ kept =>
      exact .of_kept wf move ok kept nobody
        (fun d => .of_set present (HandlerPc.not_spawning_of_checks before) handlers) found
  | @claimed i job handle d item after _ present submitted known entered handlers _ items =>
      have absent := ok.claims_absent wf present submitted
      obtain rfl : after = .spawning d := by simpa [absent] using entered
      obtain ⟨_, _, held, _, _, _, inItems, unclaimed, waiting⟩ :=
        (ok.handlers _ _ present).checks job d rfl
      obtain rfl := Option.some.inj (known.symm.trans inItems)
      have executed : s.remover d = some .executor :=
        wf.executors (.handler i) d .live (Or.inr ⟨i, rfl⟩) (by simp [holding, present, HandlerPc.item])
      refine .of_set wf move ok items ?_ (fun e _ => .of_set present (by simp) handlers) found
      refine ⟨fun _ => wf.remover_kept move executed, by simp, fun _ => Or.inl ⟨waiting, Or.inr ⟨i, ?_⟩⟩⟩
      rw [handlers, List.getElem?_set_self (List.getElem?_eq_some_iff.mp present).1]
  | displaced present _ => exact absurd rfl ((ok.handlers _ _ present).displaces _ _)
  | @spawned i d item present known handlers _ items =>
      obtain ⟨held, inItems, claimed, _, waiting⟩ := (ok.handlers _ _ present).spawns d rfl
      obtain rfl := Option.some.inj (known.symm.trans inItems)
      refine .of_set wf move ok items ?_ ?_ found
      · exact ⟨fun _ => wf.remover_kept move ((ok.items d _ known).executed claimed),
          fun unclaimed => absurd unclaimed claimed, fun _ => Or.inl ⟨waiting, Or.inl rfl⟩⟩
      · intro e away
        refine .of_set present ?_ handlers
        simpa using Ne.symm away
  | beat _ _ handlers _ items =>
      exact .of_kept wf move ok (.of_same items _) nobody (fun _ => .of_same handlers) found
  | @settled jobId entry item outcome _ entered known ends handlers _ items =>
      obtain ⟨_, held, _, _, inItems, waiting⟩ := ok.table _ _ entered
      obtain rfl := Option.some.inj (known.symm.trans inItems)
      have before := ok.items _ _ known
      have claimed : item.outcome ≠ .unclaimed := by simp [waiting]
      refine .of_set wf move ok items ?_ (fun e _ => .of_same handlers) found
      refine ⟨fun _ => wf.remover_kept move (before.executed claimed), ?_, ?_⟩
      · rintro rfl
        simp [Outcome.settled] at ends
      · intro _
        rcases before.forwarded claimed with ⟨open_, awaited⟩ | ⟨_, answer, is, _⟩
        · exact Or.inl ⟨open_, awaited.imp id (.of_same handlers)⟩
        · simp [waiting, Outcome.answer] at is
  | @forwarded d caller item answer present known spawned is handlers _ items =>
      have before := ok.items _ _ known
      have claimed : item.outcome ≠ .unclaimed := by
        intro unclaimed
        simp [before.unspawned unclaimed] at spawned
      have waiting : item.reply = .waiting := by
        rcases before.forwarded claimed with ⟨open_, _⟩ | ⟨unspawned, _⟩
        · exact open_
        · simp [unspawned] at spawned
      have executed := before.executed claimed
      refine .of_set wf move ok items ?_ (fun e _ => .of_same handlers) found
      refine ⟨fun _ => wf.remover_kept move executed, fun unclaimed => absurd unclaimed claimed, ?_⟩
      intro _
      refine Or.inr ⟨rfl, answer, is, ?_⟩
      simp only [waiting, Reply.send]
      by_cases gone : caller.gone = true
      · refine Or.inr ⟨by simp [gone], ?_⟩
        refine DroppedCall.kept move ⟨caller, present, ?_⟩
        cases pc : caller.pc with
        | returned exit result =>
            rcases wf.executed present known executed pc with sent | ⟨dropped, _⟩
            · simp [waiting] at sent
            · simp [waiting] at dropped
        | dropped => rfl
        | _ => simp [Caller.gone, pc] at gone
      · exact Or.inl (by simp [gone])

/-- An item enters the map with the insertion of its call. -/
theorem Move.mapped_back {jobId : String} {phase : WorkPhase} (move : Move cfg s next action)
    (found : next.holding (.map jobId) = some (c, phase)) :
    s.holding (.map jobId) = some (c, phase) ∨
      next.items = s.items ∧ ∃ caller, s.callers[c]? = some caller ∧ caller.pc = .insert := by
  cases move with
  | idle _ _ _ holding | dispatched _ _ _ _ holding | moved _ _ _ _ _ _ _ holding
  | admitted _ _ _ _ _ _ _ _ _ holding | acquired _ _ _ _ _ _ holding
  | loose _ _ _ _ _ holding =>
      rw [holding] at found
      exact Or.inl found
  | refused _ _ _ _ _ _ _ _ _ holding | built _ _ _ _ _ _ holding
  | displaced _ _ _ _ _ _ _ _ holding | abandoned _ _ _ _ _ _ _ _ holding =>
      simp only [holding, reduceCtorEq, if_false] at found
      exact Or.inl found
  | held place _ _ _ _ _ _ _ _ _ holding =>
      rw [holding, if_neg (by rintro rfl; simp at place)] at found
      exact Or.inl found
  | recalled _ _ _ _ _ _ _ _ _ holding =>
      simp only [holding, reduceCtorEq, if_false] at found
      split at found
      · simp at found
      · exact Or.inl found
  | taken place _ _ _ _ _ _ _ holding =>
      rw [holding, if_neg (by rintro rfl; simp at place)] at found
      split at found
      · simp at found
      · exact Or.inl found
  | drained _ _ _ _ _ _ _ _ holding =>
      rw [holding] at found
      split at found
      · simp at found
      · exact Or.inl found
  | @inserted i caller later _ present pc _ _ _ items _ holding =>
      simp only [holding, reduceCtorEq, if_false] at found
      split at found
      · simp only [Option.some.injEq, Prod.mk.injEq] at found
        obtain ⟨rfl, _⟩ := found
        exact Or.inr ⟨items, caller, present, pc⟩
      · exact Or.inl found

theorem Kept.reply {free : Nat → Prop} {later : Item T} (kept : Kept s next.items free)
    (known : s.items[c]? = some item) (found : next.items[c]? = some later) (safe : Safe s c)
    (held : ¬ free c) :
    later.outcome = item.outcome ∧ later.spawned = item.spawned ∧ later.reply = item.reply := by
  rcases kept c later found with ⟨beyond, _⟩ | ⟨old, inItems, outcome, spawned, reply⟩
  · have bound := (List.getElem?_eq_some_iff.mp known).1
    omega
  · obtain rfl := Option.some.inj (known.symm.trans inItems)
    exact ⟨outcome, spawned, reply safe held⟩

theorem ClaimWf.mapped_step (ok : ClaimWf s) (wf : WinnerWf s) (move : Move cfg s next action)
    (claim : ClaimMove s next action) {jobId : String} (mapped : next.pending.lookup jobId = some c)
    (later : Item T) (found : next.items[c]? = some later) : later.reply = .waiting := by
  have held : next.holding (.map jobId) = some (c, .live) := by simp [holding, mapped]
  rcases move.mapped_back held with before | ⟨items, caller, present, pc⟩
  · obtain ⟨item, known, _⟩ := wf.owned.held _ c _ before
    have old : s.pending.lookup jobId = some c := by
      simpa [holding] using before
    have waiting := ok.mapped jobId c item old known
    have safe : Safe s c := Or.inr ⟨jobId, old⟩
    have set : ∀ {d : Nat} {changed : Item T}, next.items = s.items.set d changed →
        (d = c → changed.reply = item.reply) → later.reply = .waiting := by
      intro d changed items same
      rw [items] at found
      rcases getElem?_of_set found with ⟨rfl, rfl⟩ | ⟨_, away⟩
      · rw [same rfl, waiting]
      · obtain rfl := Option.some.inj (known.symm.trans away)
        exact waiting
    have kept : ∀ {free : Nat → Prop}, Kept s next.items free → ¬ free c →
        later.reply = .waiting := by
      intro free kept held
      rw [(kept.reply known found safe held).2.2, waiting]
    cases claim with
    | aside _ _ stays => exact kept (stays wf) (by simp)
    | passed _ _ _ _ _ stays => exact kept stays (by simp)
    | opened _ _ items | took _ _ _ _ _ items | beat _ _ _ _ items =>
        exact kept (.of_same items (fun _ => False)) (by simp)
    | @rested i pc _ present _ _ _ _ stays =>
        refine kept stays ?_
        rintro ⟨job, checks⟩
        have atHandler : s.holding (.handler i) = some (c, .live) := by
          simp [holding, present, HandlerPc.item_of_checks checks]
        have same := wf.owned.unique _ _ c _ _ before atHandler
        simp at same
    | claimed _ _ _ inItems _ _ _ items | spawned _ inItems _ _ items =>
        refine set items ?_
        rintro rfl
        obtain rfl := Option.some.inj (known.symm.trans inItems)
        rfl
    | displaced present _ => exact absurd rfl ((ok.handlers _ _ present).displaces _ _)
    | settled _ _ inItems _ _ _ items =>
        refine set items ?_
        rintro rfl
        obtain rfl := Option.some.inj (known.symm.trans inItems)
        rfl
    | forwarded _ inItems spawned _ _ _ items =>
        refine set items ?_
        rintro rfl
        obtain rfl := Option.some.inj (known.symm.trans inItems)
        have executed := (wf.items _ _ known).spawned spawned
        simp [wf.removed_of_mapped old] at executed
  · rw [items] at found
    have ok := wf.pcs c caller later present found
    rw [pc] at ok
    exact ok.2

theorem HandlerOk.of_rests {pc : HandlerPc} (rests : pc.rests = true) : HandlerOk s pc where
  checks := by
    intro job c checks
    cases pc <;> simp_all [HandlerPc.rests, HandlerPc.checks]
  displaces := by
    rintro c previous rfl
    simp [HandlerPc.rests] at rests
  spawns := by
    rintro c rfl
    simp [HandlerPc.rests] at rests

/-- What may happen to the item of a handler while the handler does nothing. -/
def HeldItem (item later : Item T) : Prop :=
  later.reply = item.reply ∧ later.spawned = item.spawned ∧
    (later.outcome = item.outcome ∨ item.outcome = .waiting ∧ later.outcome ≠ .unclaimed)

theorem WinnerWf.later_item (wf' : WinnerWf next) (move : Move cfg s next action)
    (present : s.callers[c]? = some caller) : ∃ later, next.items[c]? = some later := by
  obtain ⟨after, found, _⟩ := move.names present
  obtain ⟨item, known, _⟩ := wf'.pcOk found
  exact ⟨item, known⟩

theorem WinnerWf.caller_of_item (wf : WinnerWf s) (known : s.items[c]? = some item) :
    ∃ caller, s.callers[c]? = some caller := by
  have bound := (List.getElem?_eq_some_iff.mp known).1
  rw [wf.owned.aligned] at bound
  exact ⟨_, List.getElem?_eq_getElem bound⟩

theorem HandlerOk.carry {pc : HandlerPc} (wf : WinnerWf s) (wf' : WinnerWf next)
    (frame : Frame s next) (move : Move cfg s next action) (ok : HandlerOk s pc)
    (held : ∀ c item later, pc.item = some c → s.items[c]? = some item →
      next.items[c]? = some later → HeldItem item later) : HandlerOk next pc where
  checks := by
    intro job c checks
    obtain ⟨handle, caller, item, submitted, present, sameId, known, unclaimed, waiting⟩ :=
      ok.checks job c checks
    obtain ⟨after, kept, job_⟩ := frame.ids job handle submitted
    obtain ⟨renamed, found, named⟩ := move.names present
    obtain ⟨later, inItems⟩ := wf'.later_item move present
    obtain ⟨reply, _, outcome⟩ :=
      held c item later (HandlerPc.item_of_checks checks) known inItems
    refine ⟨after, renamed, later, kept, found, ?_, inItems, ?_, reply.trans waiting⟩
    · rw [named, sameId, job_]
    · rcases outcome with same | ⟨is, _⟩
      · exact same.trans unclaimed
      · simp [unclaimed] at is
  displaces := ok.displaces
  spawns := by
    rintro c rfl
    obtain ⟨item, known, claimed, unspawned, waiting⟩ := ok.spawns c rfl
    obtain ⟨caller, present⟩ := wf.caller_of_item known
    obtain ⟨later, inItems⟩ := wf'.later_item move present
    obtain ⟨reply, spawned, outcome⟩ := held c item later rfl known inItems
    refine ⟨later, inItems, ?_, spawned.trans unspawned, reply.trans waiting⟩
    rcases outcome with same | ⟨_, differs⟩
    · rwa [same]
    · exact differs

theorem WinnerWf.safe_of_handler (wf : WinnerWf s) {pc : HandlerPc}
    (present : s.handlers[i]? = some pc) (holds : pc.item = some c) : Safe s c :=
  Or.inl (wf.executors (.handler i) c .live (Or.inr ⟨i, rfl⟩) (by simp [holding, present, holds]))

theorem HandlerOk.unspawned {pc : HandlerPc} (held : HandlerOk s pc) (ok : ClaimWf s)
    (busy : pc.rests = false) (holds : pc.item = some c) (known : s.items[c]? = some item) :
    item.spawned = false := by
  have checked : ∀ {job : Nat}, pc.checks = some (job, c) → item.spawned = false := by
    intro job checks
    obtain ⟨_, _, old, _, _, _, inItems, unclaimed, _⟩ := held.checks job c checks
    obtain rfl := Option.some.inj (known.symm.trans inItems)
    exact (ok.items c item known).unspawned unclaimed
  cases pc with
  | removed job d | unpermitted job d | checking job d | checkingPollers job d
  | checkingDeadline job d | claiming job d =>
      obtain rfl : d = c := by simpa [HandlerPc.item] using holds
      exact checked rfl
  | displacing d previous => exact absurd rfl (held.displaces d previous)
  | spawning d =>
      obtain rfl : d = c := by simpa [HandlerPc.item] using holds
      obtain ⟨old, inItems, _, unspawned, _⟩ := held.spawns d rfl
      obtain rfl := Option.some.inj (known.symm.trans inItems)
      exact unspawned
  | waiting | dequeued _ | leaving _ | done => simp [HandlerPc.rests] at busy

theorem ClaimWf.handlers_step (ok : ClaimWf s) (wf : WinnerWf s) (wf' : WinnerWf next)
    (frame : Frame s next) (move : Move cfg s next action) (claim : ClaimMove s next action) (j : Nat)
    (pc : HandlerPc) (found : next.handlers[j]? = some pc) : HandlerOk next pc := by
  have kept : ∀ {free : Nat → Prop}, Kept s next.items free → s.handlers[j]? = some pc →
      (∀ c, pc.item = some c → ¬ free c) → HandlerOk next pc := by
    intro free kept present held
    refine (ok.handlers j pc present).carry wf wf' frame move ?_
    intro c item later holds known inItems
    obtain ⟨outcome, spawned, reply⟩ :=
      kept.reply known inItems (wf.safe_of_handler present holds) (held c holds)
    exact ⟨reply, spawned, Or.inl outcome⟩
  have set : ∀ {d : Nat} {old changed : Item T}, s.handlers[j]? = some pc →
      s.items[d]? = some old → next.items = s.items.set d changed →
      (pc.item = some d → HeldItem old changed) → HandlerOk next pc := by
    intro d old changed present inOld items held
    refine (ok.handlers j pc present).carry wf wf' frame move ?_
    intro c item later holds known inItems
    rw [items] at inItems
    rcases getElem?_of_set inItems with ⟨rfl, rfl⟩ | ⟨_, away⟩
    · obtain rfl := Option.some.inj (known.symm.trans inOld)
      exact held holds
    · obtain rfl := Option.some.inj (known.symm.trans away)
      exact ⟨rfl, rfl, Or.inl rfl⟩
  cases claim with
  | aside handlers _ stays =>
      rw [handlers] at found
      exact kept (stays wf) found (by simp)
  | opened handlers _ items =>
      rw [handlers] at found
      rcases getElem?_of_snoc found with old | ⟨_, rfl⟩
      · exact kept (.of_same items (fun _ => False)) old (by simp)
      · exact .of_rests rfl
  | @rested i before _ present handlers rests _ _ stays =>
      rw [handlers] at found
      rcases getElem?_of_set found with ⟨_, rfl⟩ | ⟨away, old⟩
      · exact .of_rests rests
      · refine kept stays old ?_
        rintro c holds ⟨job, checks⟩
        exact away (wf.one_handler old holds present (HandlerPc.item_of_checks checks))
  | @took i job handle c present submitted mapped handlers _ items =>
      rw [handlers] at found
      rcases getElem?_of_set found with ⟨_, rfl⟩ | ⟨_, old⟩
      · have atMap : s.holding (.map handle.job.id) = some (c, .live) := by simp [holding, mapped]
        obtain ⟨caller, inCallers, named, _, unremoved⟩ := wf.named _ c _ atMap
        obtain ⟨item, known, _⟩ := wf.owned.held _ c _ atMap
        obtain ⟨after, submitted', job_⟩ := frame.ids job handle submitted
        obtain ⟨renamed, inNext, sameId⟩ := move.names inCallers
        refine ⟨?_, by simp, by simp⟩
        rintro _ _ ⟨⟩
        refine ⟨after, renamed, item, submitted', inNext, by rw [sameId, named, job_],
          items ▸ known, ?_, ok.mapped _ c item mapped known⟩
        by_contra claimed
        have executed := (ok.items c item known).executed claimed
        simp [unremoved] at executed
      · exact kept (.of_same items (fun _ => False)) old (by simp)
  | @passed i before _ claim present checked after handlers _ stays =>
      rw [handlers] at found
      rcases getElem?_of_set found with ⟨_, rfl⟩ | ⟨_, old⟩
      · have both : HandlerOk s pc := by
          refine ⟨?_, ?_, ?_⟩
          · intro job c checks
            exact (ok.handlers _ _ present).checks job c (checked.trans (after.symm.trans checks))
          · rintro c previous rfl
            simp [HandlerPc.checks] at after
          · rintro c rfl
            simp [HandlerPc.checks] at after
        refine both.carry wf wf' frame move ?_
        intro c item later holds known inItems
        have same : before.item = some c := by
          obtain ⟨job, d⟩ := claim
          rw [HandlerPc.item_of_checks after] at holds
          exact (HandlerPc.item_of_checks checked).trans holds
        obtain ⟨outcome, spawned, reply⟩ :=
          stays.reply known inItems (wf.safe_of_handler present same) (by simp)
        exact ⟨reply, spawned, Or.inl outcome⟩
      · exact kept stays old (by simp)
  | @claimed i job handle d item after _ present submitted known entered handlers _ items =>
      have absent := ok.claims_absent wf present submitted
      obtain rfl : after = .spawning d := by simpa [absent] using entered
      obtain ⟨_, _, held, _, _, _, inItems, unclaimed, waiting⟩ :=
        (ok.handlers _ _ present).checks job d rfl
      obtain rfl := Option.some.inj (known.symm.trans inItems)
      rw [handlers] at found
      rcases getElem?_of_set found with ⟨_, rfl⟩ | ⟨away, old⟩
      · refine ⟨by simp [HandlerPc.checks], by simp, ?_⟩
        rintro _ ⟨⟩
        refine ⟨{ item with outcome := .waiting }, ?_, by simp,
          (ok.items d item known).unspawned unclaimed, waiting⟩
        rw [items, List.getElem?_set_self (List.getElem?_eq_some_iff.mp known).1]
      · refine set old known items ?_
        intro holds
        exact absurd (wf.one_handler old holds present rfl) away
  | displaced present _ => exact absurd rfl ((ok.handlers _ _ present).displaces _ _)
  | @spawned i d item present known handlers _ items =>
      rw [handlers] at found
      rcases getElem?_of_set found with ⟨_, rfl⟩ | ⟨away, old⟩
      · exact .of_rests rfl
      · refine set old known items ?_
        intro holds
        exact absurd (wf.one_handler old holds present rfl) away
  | beat _ _ handlers _ items =>
      rw [handlers] at found
      exact kept (.of_same items (fun _ => False)) found (by simp)
  | @settled jobId entry item outcome _ entered known ends handlers _ items =>
      rw [handlers] at found
      obtain ⟨_, held, _, _, inItems, waiting⟩ := ok.table _ _ entered
      obtain rfl := Option.some.inj (known.symm.trans inItems)
      refine set found known items fun _ => ⟨rfl, rfl, Or.inr ⟨waiting, ?_⟩⟩
      rintro rfl
      simp [Outcome.settled] at ends
  | @forwarded d caller item answer present known spawned is handlers _ items =>
      rw [handlers] at found
      rcases busy : pc.rests with _ | _
      · refine set found known items ?_
        intro holds
        have unspawned := (ok.handlers j pc found).unspawned ok busy holds known
        simp [unspawned] at spawned
      · exact .of_rests busy

/-- What a step does to the table and to the outcomes. -/
inductive TableMove (s next : DispatcherState T) : Prop
  | still : (∀ c later, next.items[c]? = some later →
      (s.items.length ≤ c ∧ later.outcome = .unclaimed) ∨
        ∃ item, s.items[c]? = some item ∧ later.outcome = item.outcome) →
      (∀ jobId, (next.inProgress.lookup jobId).map (·.item) =
        (s.inProgress.lookup jobId).map (·.item)) → TableMove s next
  | claimed {i job c : Nat} {handle item} : s.handlers[i]? = some (.claiming job c) →
      s.jobs[job]? = some handle → s.items[c]? = some item →
      next.inProgress = AList.insert handle.job.id ⟨c, s.now⟩ s.inProgress →
      next.items = s.items.set c { item with outcome := .waiting } → TableMove s next
  | settled {jobId entry item outcome} : s.inProgress.lookup jobId = some entry →
      s.items[entry.item]? = some item → outcome.settled = true →
      next.inProgress = AList.erase jobId s.inProgress →
      next.items = s.items.set entry.item { item with outcome := outcome } → TableMove s next

theorem TableMove.of_kept {free : Nat → Prop} (kept : Kept s next.items free)
    (table : next.inProgress = s.inProgress) : TableMove s next := by
  refine .still ?_ (by simp [table])
  intro c later found
  rcases kept c later found with ⟨beyond, unclaimed, _⟩ | ⟨item, known, outcome, _⟩
  · exact Or.inl ⟨beyond, unclaimed⟩
  · exact Or.inr ⟨item, known, outcome⟩

theorem TableMove.of_set {d : Nat} {old changed : Item T} (known : s.items[d]? = some old)
    (items : next.items = s.items.set d changed) (same : changed.outcome = old.outcome)
    (table : next.inProgress = s.inProgress) : TableMove s next := by
  refine .still ?_ (by simp [table])
  intro c later found
  rw [items] at found
  rcases getElem?_of_set found with ⟨rfl, rfl⟩ | ⟨_, away⟩
  · exact Or.inr ⟨old, known, same⟩
  · exact Or.inr ⟨later, away, rfl⟩

theorem ClaimWf.table_move (ok : ClaimWf s) (wf : WinnerWf s) (claim : ClaimMove s next action) : TableMove s next := by
  cases claim with
  | aside _ table kept => exact .of_kept (kept wf) table
  | rested _ _ _ _ table kept | passed _ _ _ _ table kept => exact .of_kept kept table
  | opened _ table items | took _ _ _ _ table items =>
      exact .of_kept (.of_same items (fun _ => False)) table
  | claimed _ present submitted known _ _ table items =>
      exact .claimed present submitted known table items
  | displaced present _ => exact absurd rfl ((ok.handlers _ _ present).displaces _ _)
  | spawned _ known _ table items => exact .of_set known items rfl table
  | @beat jobId entry _ found _ table items =>
      refine .still (fun c later inItems => Or.inr ⟨later, items ▸ inItems, rfl⟩) ?_
      intro other
      rw [table, HashMap.lookup_insert_eq]
      by_cases same : other = jobId
      · subst same
        simp [found]
      · simp [same]
  | settled _ entered known ends _ table items => exact .settled entered known ends table items
  | forwarded _ known _ _ _ table items => exact .of_set known items rfl table

theorem ClaimWf.table_step (ok : ClaimWf s) (wf' : WinnerWf next)
    (move : Move cfg s next action) (table : TableMove s next) (jobId : String)
    (entry : InProgressJob) (found : next.inProgress.lookup jobId = some entry) :
    ∃ caller item, next.callers[entry.item]? = some caller ∧ caller.jobId = jobId ∧
      next.items[entry.item]? = some item ∧ item.outcome = .waiting := by
  have stays : ∀ {old : InProgressJob}, old.item = entry.item →
      s.inProgress.lookup jobId = some old →
      (∀ item later, s.items[entry.item]? = some item → next.items[entry.item]? = some later →
        later.outcome = item.outcome) →
      ∃ caller item, next.callers[entry.item]? = some caller ∧ caller.jobId = jobId ∧
        next.items[entry.item]? = some item ∧ item.outcome = .waiting := by
    intro old same held outcome
    obtain ⟨caller, item, present, sameId, known, waiting⟩ := ok.table jobId old held
    rw [same] at present known
    obtain ⟨renamed, inNext, named⟩ := move.names present
    obtain ⟨later, inItems⟩ := wf'.later_item move present
    exact ⟨renamed, later, inNext, named.trans sameId, inItems,
      (outcome item later known inItems).trans waiting⟩
  cases table with
  | still outcomes entries =>
      have same := entries jobId
      rw [found] at same
      simp only [Option.map_some] at same
      obtain ⟨old, held, is⟩ := Option.map_eq_some_iff.mp same.symm
      refine stays is held ?_
      intro item later known inItems
      rcases outcomes _ later inItems with ⟨beyond, _⟩ | ⟨other, inOld, outcome⟩
      · have bound := (List.getElem?_eq_some_iff.mp known).1
        omega
      · obtain rfl := Option.some.inj (known.symm.trans inOld)
        exact outcome
  | @claimed i job c handle item present submitted known inserted items =>
      obtain ⟨handle', caller, item', submitted', inCallers, sameId, known', unclaimed, _⟩ :=
        (ok.handlers i _ present).checks job c rfl
      obtain rfl := Option.some.inj (submitted.symm.trans submitted')
      obtain rfl := Option.some.inj (known.symm.trans known')
      rw [inserted, HashMap.lookup_insert_eq] at found
      split at found
      next here =>
        simp only [Option.some.injEq] at found
        subst found here
        obtain ⟨renamed, inNext, named⟩ := move.names inCallers
        refine ⟨renamed, { item with outcome := .waiting }, inNext, named.trans sameId, ?_, rfl⟩
        rw [items, List.getElem?_set_self (List.getElem?_eq_some_iff.mp known).1]
      next =>
        refine stays rfl found ?_
        intro old later inOld inItems
        rw [items] at inItems
        rcases getElem?_of_set inItems with ⟨here, rfl⟩ | ⟨_, away⟩
        · obtain ⟨_, waited, _, _, inTable, waiting⟩ := ok.table jobId entry found
          rw [here, known] at inTable
          obtain rfl := Option.some.inj inTable
          simp [unclaimed] at waiting
        · obtain rfl := Option.some.inj (inOld.symm.trans away)
          rfl
  | @settled removed gone item outcome held known _ erased items =>
      rw [erased, HashMap.lookup_erase_eq] at found
      split at found
      · simp at found
      next other =>
        refine stays rfl found ?_
        intro old later inOld inItems
        rw [items] at inItems
        rcases getElem?_of_set inItems with ⟨here, rfl⟩ | ⟨_, away⟩
        · obtain ⟨caller, _, present, sameId, _, _⟩ := ok.table jobId entry found
          obtain ⟨caller', _, present', sameId', _, _⟩ := ok.table removed gone held
          rw [here, present'] at present
          obtain rfl := Option.some.inj present
          exact absurd (sameId.symm.trans sameId') other
        · obtain rfl := Option.some.inj (inOld.symm.trans away)
          rfl

theorem ClaimWf.entered_step (ok : ClaimWf s) (wf : WinnerWf s) (move : Move cfg s next action)
    (table : TableMove s next) (later : Caller T) (changed : Item T)
    (inCallers : next.callers[c]? = some later) (inItems : next.items[c]? = some changed)
    (waiting : changed.outcome = .waiting) :
    ∃ entry, next.inProgress.lookup later.jobId = some entry ∧ entry.item = c := by
  have before : ∀ {item : Item T}, s.items[c]? = some item →
      ∃ caller, s.callers[c]? = some caller ∧ caller.jobId = later.jobId := by
    intro item known
    obtain ⟨caller, present⟩ := wf.caller_of_item known
    obtain ⟨renamed, inNext, named⟩ := move.names present
    obtain rfl := Option.some.inj (inCallers.symm.trans inNext)
    exact ⟨caller, present, named.symm⟩
  cases table with
  | still outcomes entries =>
      rcases outcomes c changed inItems with ⟨_, unclaimed⟩ | ⟨item, known, outcome⟩
      · simp [unclaimed] at waiting
      · obtain ⟨caller, present, named⟩ := before known
        obtain ⟨entry, found, is⟩ := ok.entered c caller item present known (outcome ▸ waiting)
        have same := entries later.jobId
        rw [← named, found, Option.map_some, is] at same
        obtain ⟨held, inTable, sameItem⟩ := Option.map_eq_some_iff.mp same
        exact ⟨held, named ▸ inTable, sameItem⟩
  | @claimed i job d handle item present submitted known inserted items =>
      obtain ⟨handle', owner, item', submitted', owns, sameId, known', unclaimed, _⟩ :=
        (ok.handlers i _ present).checks job d rfl
      obtain rfl := Option.some.inj (submitted.symm.trans submitted')
      rw [items] at inItems
      rw [inserted, HashMap.lookup_insert_eq]
      rcases getElem?_of_set inItems with ⟨rfl, rfl⟩ | ⟨away, old⟩
      · obtain ⟨caller, named, same⟩ := before known
        obtain rfl := Option.some.inj (owns.symm.trans named)
        exact ⟨_, if_pos (same.symm.trans sameId), rfl⟩
      · obtain ⟨caller, named, same⟩ := before old
        obtain ⟨entry, found, is⟩ := ok.entered c caller changed named old waiting
        have other : later.jobId ≠ handle.job.id := by
          intro equal
          exact away (wf.distinct _ _ _ _ named owns (same.trans (equal.trans sameId.symm)))
        exact ⟨entry, by rw [if_neg other, ← same, found], is⟩
  | @settled removed gone item outcome held known ends erased items =>
      rw [items] at inItems
      rw [erased, HashMap.lookup_erase_eq]
      rcases getElem?_of_set inItems with ⟨rfl, rfl⟩ | ⟨away, old⟩
      · obtain rfl : outcome = .waiting := waiting
        simp [Outcome.settled] at ends
      · obtain ⟨caller, named, same⟩ := before old
        obtain ⟨entry, found, is⟩ := ok.entered c caller changed named old waiting
        have other : later.jobId ≠ removed := by
          rintro rfl
          rw [← same, found] at held
          obtain rfl := Option.some.inj held
          exact away is.symm
        exact ⟨entry, by rw [if_neg other, ← same, found], is⟩

theorem ClaimWf.step (ok : ClaimWf s) (wf : WinnerWf s) (distinct : DistinctJobs s action)
    (taken : dispatcherStep cfg s action = some next) : ClaimWf next := by
  have wf' := wf.step distinct taken
  have move := dispatcherStep_move taken
  obtain ⟨frame, claim⟩ := dispatcherStep_claims ok.remote taken
  have table := ok.table_move wf claim
  refine ⟨?_, fun c item => ok.items_step wf move claim item,
    fun jobId c item mapped => ok.mapped_step wf move claim mapped item,
    ok.table_step wf' move table, fun c => ok.entered_step wf move table,
    ok.handlers_step wf wf' frame move claim⟩
  have length := frame.workers
  rw [ok.remote] at length
  exact List.length_eq_zero_iff.mp length

theorem ClaimWf.initial {timeout now : Nat} {translate : WorkerOutcome → T}
    (remote : cfg.executor = .remotePool timeout translate) :
    ClaimWf (DispatcherState.new cfg now) := by
  constructor
  · simp [DispatcherState.new, remote]
  all_goals simp [DispatcherState.new]

end Invariant

end BitsBroker
