import BitsBroker.Dispatcher.Removers

/-!
The removal from the pending map decides who answers a dispatch call. `remover` remembers
who took an item out of the map. With distinct job identifiers the item under an
identifier belongs to the call of that identifier, so a waiting call can only take back
its own item; whoever takes it is the only one to run it, to drop it or to answer.
-/

namespace BitsBroker

open Transition Table

variable {T : Type}

/-- The job of a new dispatch call has an identifier that no earlier call had. -/
def DistinctJobs (s : DispatcherState T) (action : DispatcherAction T) : Prop :=
  ∀ job guard handle, action = .dispatch job guard → s.jobs[job]? = some handle →
    ∀ caller ∈ s.callers, caller.jobId ≠ handle.job.id

/-- The call has put its item into the map and has not been answered. -/
def DispatchPc.given (pc : DispatchPc T) : Bool :=
  pc.waits || match pc with
    | .dropped => true
    | _ => false

/-- What the program counter of a call says about its item and about who took it. -/
def PcOk (remover : Option Remover) (i : Nat) (item : Item T) : DispatchPc T → Prop
  | .begun | .acquire | .checkClosing | .insert => remover = none ∧ item.reply = .waiting
  | .returned .refused _ => remover = none
  | .displacing _ => False
  | .discarding _ c => c = i ∧ remover = some .caller
  | .returned .abandoned _ => remover = some .caller ∧ item.work = .dropped ∧ item.starts = 0 ∧
      item.permit = false
  | .returned .answered result => (∃ sender, item.reply = .sent sender result) ∨
      item.reply = .dropped ∧ result = .error .closed
  | .dropped => True
  | .enqueue | .looking | .lookingPollers | .lookingDeadline | .abandoning _ | .rechecking
  | .choosing | .arming | .parked _ | .awaitReply => item.reply ≠ .waiting → remover ≠ none

section Local

variable {remover : Option Remover} {i c : Nat} {caller later : Caller T} {item changed : Item T}
  {phase : WorkPhase} {s : DispatcherState T}

theorem pcOk_of_waits {pc : DispatchPc T} (waits : pc.waits = true) :
    PcOk remover i item pc ↔ (item.reply ≠ .waiting → remover ≠ none) := by
  cases pc <;> first | rfl | simp [DispatchPc.waits] at waits

theorem pcOk_of_early {pc : DispatchPc T} (early : pc.early = true) :
    PcOk remover i item pc ↔ remover = none ∧ item.reply = .waiting := by
  cases pc <;> first | rfl | simp [DispatchPc.early] at early

theorem PcMove.pcOk {pc later : DispatchPc T} (step : PcMove item pc later)
    (ok : PcOk remover i item pc) : PcOk remover i item later := by
  cases step with
  | unlimited _ => exact ok
  | waiting before after => exact (pcOk_of_waits after).mpr ((pcOk_of_waits before).mp ok)
  | answered _ reply => exact Or.inl ⟨_, reply⟩
  | unanswered _ reply => exact Or.inr ⟨reply, rfl⟩
  | dropped _ => trivial

theorem PcOk.taken {pc : DispatchPc T} (given : pc.given = true) (sender : Remover)
    (item : Item T) : PcOk (some sender) i item pc := by
  cases pc <;> simp_all [DispatchPc.given, DispatchPc.waits, PcOk]

theorem PcOk.change {pc : DispatchPc T} {sender : Remover} (other : sender ≠ .caller)
    (used : item.reply ≠ .waiting → changed.reply = item.reply)
    (ok : PcOk (some sender) i item pc) : PcOk (some sender) i changed pc := by
  cases pc with
  | returned exit result =>
      cases exit with
      | answered =>
          rcases ok with ⟨by_, sent⟩ | ⟨dropped, closed⟩
          · exact Or.inl ⟨by_, by rw [used (by simp [sent]), sent]⟩
          · exact Or.inr ⟨by rw [used (by simp [dropped]), dropped], closed⟩
      | _ => simp_all [PcOk]
  | _ => simp_all [PcOk]

theorem LooseStep.pcOk {pc : DispatchPc T} (step : LooseStep s c item changed)
    (ok : PcOk remover i item pc) (known : ItemOk remover item)
    (stranded : s.Stranded c → remover = some .closer) : PcOk remover i changed pc := by
  cases step with
  | settled => cases pc <;> exact ok
  | forwarded spawned =>
      rw [known.spawned spawned] at ok ⊢
      exact ok.change (by simp) fun used => Reply.send_of_ne used _ _ _
  | closed waiting =>
      rw [stranded waiting] at ok ⊢
      exact ok.change (by simp) fun used => Reply.send_of_ne used _ _ _

end Local

structure WinnerWf (s : DispatcherState T) : Prop where
  owned : Owned s
  distinct (i j : Nat) (left right : Caller T) : s.callers[i]? = some left →
    s.callers[j]? = some right → left.jobId = right.jobId → i = j
  named (jobId : String) (c : Nat) (phase : WorkPhase) :
    s.holding (.map jobId) = some (c, phase) → ∃ caller, s.callers[c]? = some caller ∧
      caller.jobId = jobId ∧ caller.pc.given = true ∧ s.remover c = none
  pcs (i : Nat) (caller : Caller T) (item : Item T) : s.callers[i]? = some caller →
    s.items[i]? = some item → PcOk (s.remover i) i item caller.pc
  items (c : Nat) (item : Item T) : s.items[c]? = some item → ItemOk (s.remover c) item
  executors (p : Place) (c : Nat) (phase : WorkPhase) :
    (∃ i, p = .worker i) ∨ (∃ i, p = .handler i) → s.holding p = some (c, phase) →
    s.remover c = some .executor
  stranded (c : Nat) : s.Stranded c → s.remover c = some .closer
  unmade (c : Nat) : s.items.length ≤ c → s.remover c = none

section Step

variable {cfg : DispatcherConfig T} {s next : DispatcherState T} {action : DispatcherAction T}
  {i c : Nat} {caller : Caller T} {item : Item T} {phase : WorkPhase} {jobId : String}

theorem WinnerWf.taken (wf : WinnerWf s) : TakenWf s where
  owned := wf.owned
  mapped := fun jobId c phase held => by
    obtain ⟨_, _, _, _, unremoved⟩ := wf.named jobId c phase held
    exact unremoved
  early := fun i caller present early => by
    obtain ⟨item, known⟩ := wf.owned.item_of present
    exact ((pcOk_of_early early).mp (wf.pcs i caller item present known)).1
  items := wf.items
  executors := wf.executors
  stranded := wf.stranded
  unmade := wf.unmade

theorem WinnerWf.remover_kept (wf : WinnerWf s) (move : Move cfg s next action) {sender : Remover}
    (removed : s.remover c = some sender) : next.remover c = some sender :=
  wf.taken.remover_kept move removed

theorem WinnerWf.pcOk (wf : WinnerWf s) (present : s.callers[i]? = some caller) :
    ∃ item, s.items[i]? = some item ∧ PcOk (s.remover i) i item caller.pc := by
  obtain ⟨item, known⟩ := wf.owned.item_of present
  exact ⟨item, known, wf.pcs i caller item present known⟩

/-- A waiting call finds only its own item under its identifier. -/
theorem WinnerWf.own_item (wf : WinnerWf s) (present : s.callers[i]? = some caller)
    (found : s.holding (.map caller.jobId) = some (c, phase)) : c = i := by
  obtain ⟨other, known, sameId, _, _⟩ := wf.named _ c phase found
  exact wf.distinct c i other caller known present sameId

theorem WinnerWf.pcs_of_taken (wf : WinnerWf s) {sender : Remover}
    (found : s.holding (.map jobId) = some (c, phase))
    (remover : next.remover = Function.update s.remover c (some sender))
    (present : s.callers[i]? = some caller) (known : s.items[i]? = some item)
    {changed : Item T} (same : i ≠ c → changed = item) :
    PcOk (next.remover i) i changed caller.pc := by
  rw [remover]
  by_cases here : i = c
  · subst here
    obtain ⟨holder, held, _, given, _⟩ := wf.named jobId i phase found
    obtain rfl : holder = caller := by simpa [held] using present
    rw [Function.update_self]
    exact PcOk.taken given sender changed
  · rw [Function.update_of_ne here, same here]
    exact wf.pcs i caller item present known

theorem WinnerWf.pcs_step (wf : WinnerWf s) (move : Move cfg s next action) (i : Nat)
    (caller : Caller T) (item : Item T) (present : next.callers[i]? = some caller)
    (known : next.items[i]? = some item) : PcOk (next.remover i) i item caller.pc := by
  cases move with
  | idle quiet items callers _ =>
      rw [callers] at present
      rw [items] at known
      rw [quiet.remover]
      exact wf.pcs i caller item present known
  | dispatched _ callers items quiet _ =>
      rw [callers] at present
      rw [items] at known
      rw [quiet.remover]
      have aligned := wf.owned.aligned
      rcases getElem?_of_snoc present with before | ⟨last, rfl⟩
      · have bound := (List.getElem?_eq_some_iff.mp before).1
        rcases getElem?_of_snoc known with old | ⟨beyond, _⟩
        · exact wf.pcs i caller item before old
        · omega
      · rcases getElem?_of_snoc known with old | ⟨_, rfl⟩
        · have bound := (List.getElem?_eq_some_iff.mp old).1
          omega
        · exact ⟨wf.unmade i (by omega), rfl⟩
  | moved before old step _ callers items quiet _ =>
      rw [callers] at present
      rw [items] at known
      rw [quiet.remover]
      rcases getElem?_of_set present with ⟨rfl, rfl⟩ | ⟨_, away⟩
      · rw [old] at known
        simp only [Option.some.injEq] at known
        subst known
        exact step.pcOk (wf.pcs i _ _ before old)
      · exact wf.pcs i caller item away known
  | admitted before old pc _ _ callers items remover _ _ =>
      rw [callers] at present
      rw [items] at known
      rw [remover]
      rcases getElem?_of_set_both present known with ⟨rfl, rfl, rfl⟩ | ⟨_, away, kept⟩
      · have ok := wf.pcs i _ _ before old
        rw [pc] at ok
        exact ok
      · exact wf.pcs i caller item away kept
  | acquired before old pc callers items quiet _ | built before old pc callers items quiet _ =>
      rw [callers] at present
      rw [items] at known
      rw [quiet.remover]
      rcases getElem?_of_set_both present known with ⟨rfl, rfl, rfl⟩ | ⟨_, away, kept⟩
      · have ok := wf.pcs i _ _ before old
        rw [pc] at ok
        exact ok
      · exact wf.pcs i caller item away kept
  | refused before old early pc callers items _ remover _ _ =>
      rw [callers] at present
      rw [items] at known
      rw [remover]
      rcases getElem?_of_set_both present known with ⟨rfl, rfl, _⟩ | ⟨_, away, kept⟩
      · have untaken := ((pcOk_of_early early).mp (wf.pcs i _ _ before old)).1
        rcases pc with ⟨_, rfl⟩ | rfl
        · exact untaken
        · trivial
      · exact wf.pcs i caller item away kept
  | inserted before pc outcome _ callers items quiet _ =>
      rw [callers] at present
      rw [items] at known
      rw [quiet.remover]
      rcases getElem?_of_set present with ⟨rfl, rfl⟩ | ⟨_, away⟩
      · have ok := wf.pcs i _ item before known
        rw [pc] at ok
        rcases outcome with ⟨d, _, found⟩ | queued
        · obtain rfl := wf.own_item before found
          obtain ⟨holder, held, _, given, _⟩ := wf.named _ d _ found
          obtain rfl : _ = holder := by simpa [before] using held
          simp [pc, DispatchPc.given, DispatchPc.waits] at given
        · rw [queued]
          exact fun used => absurd ok.2 used
      · exact wf.pcs i caller item away known
  | displaced before pc _ _ _ _ _ _ _ =>
      obtain ⟨_, _, ok⟩ := wf.pcOk before
      rw [pc] at ok
      exact absurd ok id
  | recalled before waits _ found callers items _ remover _ _ =>
      rw [callers] at present
      rw [items] at known
      obtain rfl := wf.own_item before found
      rw [remover]
      rcases getElem?_of_set present with ⟨rfl, rfl⟩ | ⟨elsewhere, away⟩
      · exact ⟨rfl, Function.update_self _ _ _⟩
      · rw [Function.update_of_ne elsewhere]
        exact wf.pcs i caller item away known
  | @abandoned j d holder removed error _ before pc old callers items _ remover _ _ =>
      rw [callers] at present
      rw [items] at known
      rw [remover]
      obtain ⟨_, _, ok⟩ := wf.pcOk before
      rw [pc] at ok
      obtain ⟨rfl, recalled⟩ := ok
      rcases getElem?_of_set_both present known with ⟨rfl, rfl, rfl⟩ | ⟨_, away, kept⟩
      · have held : s.holding (.call i) = some (i, .live) := by
          rw [DispatcherState.holding_call before, pc]
          rfl
        have live := wf.owned.work_eq held old
        have unstarted := (wf.items i removed old).unstarted (Or.inr live)
        exact ⟨recalled, rfl, unstarted, rfl⟩
      · exact wf.pcs i caller item away kept
  | taken _ _ found callers items _ remover _ _ =>
      rw [callers] at present
      rw [items] at known
      exact wf.pcs_of_taken found remover present known fun _ => rfl
  | held place before old step callers items _ remover _ _ _ =>
      rw [callers] at present
      rw [items] at known
      rw [remover]
      rcases getElem?_of_set known with ⟨rfl, rfl⟩ | ⟨_, away⟩
      · have ok := wf.pcs i caller _ present old
        rw [wf.executors _ i _ place before] at ok ⊢
        exact ok.change (by simp) step.reply_used
      · exact wf.pcs i caller item present away
  | loose old step callers items quiet _ =>
      rw [callers] at present
      rw [items] at known
      rw [quiet.remover]
      rcases getElem?_of_set known with ⟨rfl, rfl⟩ | ⟨_, away⟩
      · exact step.pcOk (wf.pcs i caller _ present old) (wf.items i _ old) (wf.stranded i)
      · exact wf.pcs i caller item present away
  | drained found old callers items _ remover _ _ _ =>
      rw [callers] at present
      rw [items] at known
      rcases getElem?_of_set known with ⟨rfl, rfl⟩ | ⟨_, away⟩
      · exact wf.pcs_of_taken found remover present old fun different => absurd rfl different
      · exact wf.pcs_of_taken found remover present away fun _ => rfl

theorem given_not_early {pc : DispatchPc T} (given : pc.given = true) : pc.early = false := by
  cases pc <;> simp_all [DispatchPc.given, DispatchPc.waits, DispatchPc.early]

theorem PcMove.given {pc later : DispatchPc T} (step : PcMove item pc later)
    (given : pc.given = true) :
    later.given = true ∨ pc.waits = true ∧ item.reply ≠ .waiting := by
  cases step with
  | unlimited _ => simp [DispatchPc.given, DispatchPc.waits] at given
  | waiting _ after => exact Or.inl (by simp [DispatchPc.given, after])
  | answered waits reply => exact Or.inr ⟨waits, by simp [reply]⟩
  | unanswered waits reply => exact Or.inr ⟨waits, by simp [reply]⟩
  | dropped _ => exact Or.inl rfl

theorem WinnerWf.named_step (wf : WinnerWf s) (move : Move cfg s next action) (jobId : String)
    (c : Nat) (phase : WorkPhase) (found : next.holding (.map jobId) = some (c, phase)) :
    ∃ caller, next.callers[c]? = some caller ∧ caller.jobId = jobId ∧ caller.pc.given = true ∧
      next.remover c = none := by
  have same : s.holding (.map jobId) = some (c, phase) → next.callers[c]? = s.callers[c]? →
      next.remover c = s.remover c → ∃ caller, next.callers[c]? = some caller ∧
        caller.jobId = jobId ∧ caller.pc.given = true ∧ next.remover c = none := by
    intro before callers remover
    obtain ⟨caller, present, sameId, given, unremoved⟩ := wf.named jobId c phase before
    exact ⟨caller, callers.trans present, sameId, given, remover.trans unremoved⟩
  have away : ∀ {i : Nat} {caller later : Caller T}, s.holding (.map jobId) = some (c, phase) →
      s.callers[i]? = some caller → caller.pc.given = false →
      next.callers = s.callers.set i later → next.callers[c]? = s.callers[c]? := by
    intro i caller later before present busy callers
    obtain ⟨holder, held, _, given, _⟩ := wf.named jobId c phase before
    have different : i ≠ c := by
      rintro rfl
      obtain rfl : caller = holder := by simpa [present] using held
      simp [busy] at given
    rw [callers, List.getElem?_set_ne different]
  have early : ∀ {pc : DispatchPc T}, pc.early = true → pc.given = false := by
    intro pc early
    cases given : pc.given with
    | false => rfl
    | true => simp [given_not_early given] at early
  cases move with
  | idle quiet _ callers holds | loose _ _ callers _ quiet holds =>
      rw [holds] at found
      exact same found (by rw [callers]) (by rw [quiet.remover])
  | dispatched _ callers _ quiet holds =>
      rw [holds] at found
      obtain ⟨caller, present, sameId, given, unremoved⟩ := wf.named jobId c phase found
      refine ⟨caller, ?_, sameId, given, by rw [quiet.remover, unremoved]⟩
      rw [callers, List.getElem?_append_left (List.getElem?_eq_some_iff.mp present).1, present]
  | @moved i caller later item _ present known step sameId callers _ quiet holds =>
      rw [holds] at found
      by_cases here : c = i
      · subst here
        obtain ⟨holder, held, sameJob, given, unremoved⟩ := wf.named jobId c phase found
        obtain rfl : caller = holder := by simpa [present] using held
        rcases step.given given with still | ⟨waits, used⟩
        · refine ⟨later, ?_, sameId.trans sameJob, still, by rw [quiet.remover, unremoved]⟩
          rw [callers, List.getElem?_set_self (List.getElem?_eq_some_iff.mp present).1]
        · have removed := (pcOk_of_waits waits).mp (wf.pcs c caller item present known) used
          exact absurd unremoved removed
      · exact same found (by rw [callers, List.getElem?_set_ne (Ne.symm here)]) (by rw [quiet.remover])
  | admitted present _ pc _ _ callers _ remover _ holds =>
      rw [holds] at found
      exact same found (away found present (early (by rw [pc]; rfl)) callers) (by rw [remover])
  | acquired present _ pc callers _ quiet holds =>
      rw [holds] at found
      exact same found (away found present (early (by rw [pc]; rfl)) callers) (by rw [quiet.remover])
  | refused present _ isEarly _ callers _ _ remover _ holds =>
      rw [holds, if_neg (by simp)] at found
      exact same found (away found present (early isEarly) callers) (by rw [remover])
  | built present _ pc callers _ quiet holds =>
      rw [holds, if_neg (by simp)] at found
      exact same found (away found present (early (by rw [pc]; rfl)) callers) (by rw [quiet.remover])
  | @inserted i caller later _ present pc outcome sameId callers _ quiet holds =>
      rw [holds, if_neg (by simp)] at found
      split at found
      next here =>
        simp only [Place.map.injEq] at here
        simp only [Option.some.injEq, Prod.mk.injEq] at found
        obtain ⟨rfl, _⟩ := found
        obtain ⟨item, known, ok⟩ := wf.pcOk present
        rw [pc] at ok
        refine ⟨later, ?_, sameId.trans here.symm, ?_, by rw [quiet.remover, ok.1]⟩
        · rw [callers, List.getElem?_set_self (List.getElem?_eq_some_iff.mp present).1]
        · rcases outcome with ⟨d, _, occupied⟩ | queued
          · obtain rfl := wf.own_item present occupied
            obtain ⟨holder, held, _, given, _⟩ := wf.named _ d _ occupied
            obtain rfl : caller = holder := by simpa [present] using held
            simp [pc, DispatchPc.given, DispatchPc.waits] at given
          · rw [queued]
            rfl
      next =>
        have inserting := early (show caller.pc.early = true by rw [pc]; rfl)
        exact same found (away found present inserting callers) (by rw [quiet.remover])
  | displaced present pc _ _ _ _ _ _ _ =>
      obtain ⟨_, _, ok⟩ := wf.pcOk present
      rw [pc] at ok
      exact absurd ok id
  | @recalled i d caller error _ present waits _ held callers _ _ remover _ holds =>
      rw [holds, if_neg (by simp)] at found
      split at found
      · simp at found
      next different =>
        have other : c ≠ d := wf.owned.elsewhere held found different
        obtain rfl := wf.own_item present held
        exact same found (by rw [callers, List.getElem?_set_ne (Ne.symm other)])
          (by rw [remover, Function.update_of_ne other])
  | abandoned present pc _ callers _ _ remover _ holds =>
      rw [holds, if_neg (by simp)] at found
      exact same found (away found present (by rw [pc]; rfl) callers) (by rw [remover])
  | @taken p id d _ place empty held callers _ _ remover _ holds =>
      have notPlace : Place.map jobId ≠ p := by
        rcases place with ⟨_, rfl⟩ | ⟨_, rfl⟩ <;> simp
      rw [holds, if_neg notPlace] at found
      split at found
      · simp at found
      next different =>
        have other : c ≠ d := wf.owned.elsewhere held found different
        exact same found (by rw [callers]) (by rw [remover, Function.update_of_ne other])
  | @held p d _ _ _ _ _ place _ _ _ callers _ _ remover _ _ holds =>
      have notPlace : Place.map jobId ≠ p := by
        rcases place with ⟨_, rfl⟩ | ⟨_, rfl⟩ <;> simp
      rw [holds, if_neg notPlace] at found
      exact same found (by rw [callers]) (by rw [remover])
  | drained held _ callers _ _ remover _ _ holds =>
      rw [holds] at found
      split at found
      · simp at found
      next different =>
        have other := wf.owned.elsewhere held found different
        exact same found (by rw [callers]) (by rw [remover, Function.update_of_ne other])

theorem WinnerWf.distinct_step (wf : WinnerWf s) (fresh : DistinctJobs s action)
    (move : Move cfg s next action) (i j : Nat) (left right : Caller T)
    (leftIn : next.callers[i]? = some left) (rightIn : next.callers[j]? = some right)
    (sameId : left.jobId = right.jobId) : i = j := by
  have updated : ∀ {k : Nat} {caller later : Caller T}, s.callers[k]? = some caller →
      next.callers = s.callers.set k later → later.jobId = caller.jobId → i = j := by
    intro k caller later present callers kept
    have before : ∀ {l : Nat} {found : Caller T}, next.callers[l]? = some found →
        ∃ old, s.callers[l]? = some old ∧ old.jobId = found.jobId := by
      intro l found known
      rw [callers] at known
      rcases getElem?_of_set known with ⟨rfl, rfl⟩ | ⟨_, old⟩
      · exact ⟨caller, present, kept.symm⟩
      · exact ⟨found, old, rfl⟩
    obtain ⟨oldLeft, leftOld, leftId⟩ := before leftIn
    obtain ⟨oldRight, rightOld, rightId⟩ := before rightIn
    exact wf.distinct i j oldLeft oldRight leftOld rightOld
      (leftId.trans (sameId.trans rightId.symm))
  cases move with
  | idle _ _ callers _ | taken _ _ _ callers _ _ _ _ _ | held _ _ _ _ callers _ _ _ _ _ _
  | loose _ _ callers _ _ _ | drained _ _ callers _ _ _ _ _ _ =>
      rw [callers] at leftIn rightIn
      exact wf.distinct i j left right leftIn rightIn sameId
  | dispatched known callers _ _ _ =>
      rw [callers] at leftIn rightIn
      have unused := fresh _ _ _ rfl known
      rcases getElem?_of_snoc leftIn with leftOld | ⟨leftLast, rfl⟩
      · rcases getElem?_of_snoc rightIn with rightOld | ⟨_, rfl⟩
        · exact wf.distinct i j left right leftOld rightOld sameId
        · exact absurd sameId (unused left (List.mem_of_getElem? leftOld))
      · rcases getElem?_of_snoc rightIn with rightOld | ⟨rightLast, _⟩
        · exact absurd sameId.symm (unused right (List.mem_of_getElem? rightOld))
        · rw [leftLast, rightLast]
  | moved present _ _ kept callers _ _ _ | inserted present _ _ kept callers _ _ _ =>
      exact updated present callers kept
  | admitted present _ _ _ _ callers _ _ _ _ | refused present _ _ _ callers _ _ _ _ _
  | acquired present _ _ callers _ _ _ | built present _ _ callers _ _ _
  | displaced present _ _ callers _ _ _ _ _ | recalled present _ _ _ callers _ _ _ _ _
  | abandoned present _ _ callers _ _ _ _ _ => exact updated present callers rfl

theorem WinnerWf.step (wf : WinnerWf s) (fresh : DistinctJobs s action)
    (taken : dispatcherStep cfg s action = some next) : WinnerWf next := by
  have move := dispatcherStep_move taken
  constructor
  · exact wf.owned.step move
  · exact wf.distinct_step fresh move
  · exact wf.named_step move
  · exact wf.pcs_step move
  · exact wf.taken.items_step move
  · exact wf.taken.executors_step move
  · exact wf.taken.stranded_step move
  · exact wf.taken.unmade_step move

theorem PcMove.not_gone {later : DispatchPc T} (step : PcMove item caller.pc later) :
    caller.gone = false := by
  unfold Caller.gone
  cases pc : caller.pc with
  | returned exit result =>
      rw [pc] at step
      cases step with
      | waiting waits _ | answered waits _ | unanswered waits _ | dropped waits =>
          simp [DispatchPc.waits] at waits
  | dropped =>
      rw [pc] at step
      cases step with
      | waiting waits _ | answered waits _ | unanswered waits _ | dropped waits =>
          simp [DispatchPc.waits] at waits
  | _ => rfl

/-- A call that has returned or was dropped stays as it is. -/
theorem gone_kept (move : Move cfg s next action) (present : s.callers[i]? = some caller)
    (gone : caller.gone = true) : next.callers[i]? = some caller := by
  have updated : ∀ {k : Nat} {other later : Caller T}, s.callers[k]? = some other →
      other.gone = false → next.callers = s.callers.set k later →
      next.callers[i]? = some caller := by
    intro k other later found busy callers
    have different : k ≠ i := by
      rintro rfl
      obtain rfl : other = caller := by simpa [found] using present
      simp [busy] at gone
    rw [callers, List.getElem?_set_ne different, present]
  cases move with
  | idle _ _ callers _ | taken _ _ _ callers _ _ _ _ _ | held _ _ _ _ callers _ _ _ _ _ _
  | loose _ _ callers _ _ _ | drained _ _ callers _ _ _ _ _ _ => rw [callers, present]
  | dispatched _ callers _ _ _ =>
      rw [callers, List.getElem?_append_left (List.getElem?_eq_some_iff.mp present).1, present]
  | @moved k other later item _ found _ step _ callers _ _ _ =>
      exact updated found step.not_gone callers
  | admitted found _ pc _ _ callers _ _ _ _ =>
      exact updated found (by simp [Caller.gone, pc]) callers
  | refused found _ early _ callers _ _ _ _ _ =>
      refine updated found ?_ callers
      unfold Caller.gone
      split
      next is => simp [is, DispatchPc.early] at early
      next is => simp [is, DispatchPc.early] at early
      · rfl
  | acquired found _ pc callers _ _ _ | built found _ pc callers _ _ _ =>
      exact updated found (by simp [Caller.gone, pc]) callers
  | inserted found pc _ _ callers _ _ _ =>
      exact updated found (by simp [Caller.gone, pc]) callers
  | displaced found pc _ callers _ _ _ _ _ | abandoned found pc _ callers _ _ _ _ _ =>
      exact updated found (by simp [Caller.gone, pc]) callers
  | recalled found waits _ _ callers _ _ _ _ _ =>
      refine updated found ?_ callers
      unfold Caller.gone
      split
      next is => simp [is, DispatchPc.waits] at waits
      next is => simp [is, DispatchPc.waits] at waits
      · rfl

end Step

theorem WinnerWf.initial (cfg : DispatcherConfig T) (now : Nat) :
    WinnerWf (DispatcherState.new cfg now) := by
  have owned := Owned.initial cfg now
  constructor
  · exact owned
  · intro i j left right present
    simp [DispatcherState.new] at present
  · intro jobId c phase held
    obtain ⟨item, known, _⟩ := owned.held _ c phase held
    simp [DispatcherState.new] at known
  · intro i caller item present
    simp [DispatcherState.new] at present
  · intro c item known
    simp [DispatcherState.new] at known
  · intro p c phase _ held
    obtain ⟨item, known, _⟩ := owned.held _ c phase held
    simp [DispatcherState.new] at known
  · rintro c ⟨pc, member, _⟩
    simp [DispatcherState.new] at member
  · intro c _
    rfl

section Runs

variable {cfg : DispatcherConfig T} {now : Nat} {actions : List (DispatcherAction T)}
  {s : DispatcherState T} {i : Nat} {caller : Caller T} {item : Item T}

theorem WinnerWf.of_path
    (path : Path (dispatcherStep cfg) DistinctJobs (DispatcherState.new cfg now) actions s) :
    WinnerWf s :=
  path.invariant (WinnerWf.initial cfg now) fun _ _ _ wf fresh taken => wf.step fresh taken

theorem WinnerWf.abandoned (wf : WinnerWf s) (present : s.callers[i]? = some caller)
    (known : s.items[i]? = some item) {result : Except ActionError T}
    (returned : caller.pc = .returned .abandoned result) :
    item.starts = 0 ∧ item.permit = false ∧ item.slot = false := by
  have ok := wf.pcs i caller item present known
  rw [returned] at ok
  obtain ⟨_, dropped, unstarted, unpermitted⟩ := ok
  refine ⟨unstarted, unpermitted, (wf.items i item known).freed ?_⟩
  rw [dropped]
  rfl

theorem WinnerWf.executed (wf : WinnerWf s) (present : s.callers[i]? = some caller)
    (known : s.items[i]? = some item) (executor : s.remover i = some .executor) {exit : Exit}
    {result : Except ActionError T} (returned : caller.pc = .returned exit result) :
    item.reply = .sent .executor result ∨ item.reply = .dropped ∧ result = .error .closed := by
  have ok := wf.pcs i caller item present known
  rw [returned] at ok
  cases exit with
  | refused => simp [PcOk, executor] at ok
  | abandoned => simp [PcOk, executor] at ok
  | answered =>
      rcases ok with ⟨sender, sent⟩ | dropped
      · have sentBy := (wf.items i item known).sent sender result sent
        obtain rfl : sender = .executor := by simpa [executor] using sentBy.symm
        exact Or.inl sent
      · exact Or.inr dropped

theorem returned_final {later : DispatcherState T}
    (path : Path (dispatcherStep cfg) DistinctJobs s actions later)
    (present : s.callers[i]? = some caller) {exit : Exit} {result : Except ActionError T}
    (returned : caller.pc = .returned exit result) : later.callers[i]? = some caller := by
  induction path with
  | nil => exact present
  | snoc _ _ taken ih =>
      exact gone_kept (dispatcherStep_move taken) ih (by simp [Caller.gone, returned])

/-- Whoever removes an item from the pending map decides the fate of its dispatch call. -/
theorem pending_removal_one_winner
    (path : Path (dispatcherStep cfg) DistinctJobs (DispatcherState.new cfg now) actions s)
    (present : s.callers[i]? = some caller) (known : s.items[i]? = some item) :
    item.starts ≤ 1 ∧ (item.observed = true → item.starts = 0) ∧
    ∀ exit result, caller.pc = .returned exit result →
      (exit = .abandoned → item.permit = false ∧ item.slot = false) ∧
      (s.remover i = some .executor →
        item.reply = .sent .executor result ∨ item.reply = .dropped ∧ result = .error .closed) ∧
      ∀ rest later, Path (dispatcherStep cfg) DistinctJobs s rest later →
        later.callers[i]? = some caller ∧
        (exit = .abandoned → ∀ laterItem, later.items[i]? = some laterItem →
          laterItem.starts = 0) := by
  have wf := WinnerWf.of_path path
  have ok := wf.items i item known
  refine ⟨ok.starts, fun observed => (ok.observed observed).1, ?_⟩
  intro exit result returned
  refine ⟨?_, fun executor => wf.executed present known executor returned, ?_⟩
  · rintro rfl
    exact (wf.abandoned present known returned).2
  · intro rest later after
    have kept := returned_final after present returned
    refine ⟨kept, ?_⟩
    rintro rfl laterItem laterKnown
    exact ((WinnerWf.of_path (path.append after)).abandoned kept laterKnown returned).1

end Runs

def distinctJobs (s : DispatcherState T) : DispatcherAction T → Bool
  | .dispatch job _ => s.jobs[job]?.all fun handle =>
      s.callers.all fun caller => decide (caller.jobId ≠ handle.job.id)
  | _ => true

theorem distinctJobs_sound (s : DispatcherState T) (action : DispatcherAction T)
    (checked : distinctJobs s action = true) : DistinctJobs s action := by
  rintro job guard handle rfl known caller member
  simp only [distinctJobs, known, Option.all_some, List.all_eq_true, decide_eq_true_eq] at checked
  exact checked caller member

namespace Scenario

def account : Json :=
  .object [("auth", .object [("realm", .string "realm"), ("username", .string "user")])]

def userJob (id : String) : Job := { Job.newWithId id .null 0 with user := account }

def localPool : DispatcherConfig String where
  capacity := 4
  executor := .pool 1
  userLimit := some ⟨some 3, ∅⟩
  shared := false

def queueUp (i : Nat) : List (DispatcherAction String) := List.replicate 5 (.call i .step)

/-- One queued job is cancelled, the worker runs the other. -/
def cancelOneRunOne : List (DispatcherAction String) :=
  [.submit (userJob "first"), .submit (userJob "second"), .dispatch 0 .cancelled, .dispatch 1 .none]
    ++ queueUp 0 ++ queueUp 1 ++
    [.flag 0 .cancel, .call 0 .step, .call 0 .step, .call 0 .step,
      .worker 0 (.dequeue 1), .worker 0 .step, .worker 0 .step, .worker 0 .step, .worker 0 .step,
      .worker 0 (.finish (.ok "done")), .worker 0 .step,
      .call 1 .step, .call 1 .step, .call 1 .reply]

def abandonedWith (error : ActionError) (caller : Caller String) : Bool :=
  match caller.pc with
  | .returned .abandoned (.error reason) => decide (reason = error)
  | _ => false

def answeredWith (value : String) (caller : Caller String) : Bool :=
  match caller.pc with
  | .returned .answered (.ok result) => decide (result = value)
  | _ => false

def oneOfEach (s : DispatcherState String) : Bool :=
  s.callers[0]?.any (abandonedWith .cancelled) && s.callers[1]?.any (answeredWith "done") &&
    decide (s.remover 1 = some .executor)

theorem abandonedWith_pc {error : ActionError} {caller : Caller String}
    (checked : abandonedWith error caller = true) :
    caller.pc = .returned .abandoned (.error error) := by
  unfold abandonedWith at checked
  split at checked
  next pc =>
    rw [pc]
    simpa using checked
  next => simp at checked

theorem answeredWith_pc {value : String} {caller : Caller String}
    (checked : answeredWith value caller = true) :
    caller.pc = .returned .answered (.ok value) := by
  unfold answeredWith at checked
  split at checked
  next pc =>
    rw [pc]
    simpa using checked
  next => simp at checked

end Scenario

open Scenario in
theorem pending_removal_one_winner_cancelled :
    ∃ s cancelled executed first second,
      Path (dispatcherStep localPool) DistinctJobs (DispatcherState.new localPool 0)
        cancelOneRunOne s ∧
      s.callers[0]? = some cancelled ∧ s.items[0]? = some first ∧
      cancelled.pc = .returned .abandoned (.error .cancelled) ∧ first.permit = false ∧
      first.slot = false ∧
      s.callers[1]? = some executed ∧ s.items[1]? = some second ∧
      executed.pc = .returned .answered (.ok "done") ∧ second.starts ≤ 1 ∧
      (second.reply = .sent .executor (.ok "done") ∨
        second.reply = .dropped ∧ (.ok "done" : Except ActionError String) = .error .closed) := by
  have ran : (run (fun s action => if distinctJobs s action then dispatcherStep localPool s action
      else none) (DispatcherState.new localPool 0) cancelOneRunOne).any (fun s => oneOfEach s &&
        s.items[0]?.isSome && s.items[1]?.isSome) = true := by decide +kernel
  obtain ⟨s, finished, checked⟩ := (Option.any_eq_true _ _).mp ran
  simp only [oneOfEach, Bool.and_eq_true, decide_eq_true_eq, Option.isSome_iff_exists] at checked
  obtain ⟨⟨⟨⟨abandons, answers⟩, executor⟩, first, firstKnown⟩, second, secondKnown⟩ := checked
  obtain ⟨cancelled, firstIn, abandons⟩ := (Option.any_eq_true _ _).mp abandons
  obtain ⟨executed, secondIn, answers⟩ := (Option.any_eq_true _ _).mp answers
  have path := Path.of_run_if distinctJobs_sound _ _ finished
  obtain ⟨_, _, firstEnd⟩ := pending_removal_one_winner path firstIn firstKnown
  obtain ⟨started, _, secondEnd⟩ := pending_removal_one_winner path secondIn secondKnown
  have released := (firstEnd _ _ (abandonedWith_pc abandons)).1 rfl
  have replied := (secondEnd _ _ (answeredWith_pc answers)).2.1 executor
  exact ⟨s, cancelled, executed, first, second, path, firstIn, firstKnown,
    abandonedWith_pc abandons, released.1, released.2, secondIn, secondKnown,
    answeredWith_pc answers, started, replied⟩

end BitsBroker
