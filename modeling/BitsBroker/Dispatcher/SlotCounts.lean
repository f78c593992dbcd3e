import BitsBroker.Dispatcher.ItemOwnership
import BitsBroker.Lib.Counting

/-!
Local admission counts of a dispatcher. The count of a user key is the number of items
that hold a slot for it, and an item with a limit holds its slot from the admission until
its work ends.
-/

namespace BitsBroker

open Transition Table Counting

variable {T : Type}

def countOf (counts : HashMap String Nat) (key : String) : Nat := (counts.lookup key).getD 0

section Counts

variable {counts : HashMap String Nat} {key : String}

theorem countOf_insert (counts : HashMap String Nat) (key : String) (value : Nat)
    (other : String) : countOf (AList.insert key value counts) other =
      if other = key then value else countOf counts other := by
  simp only [countOf, HashMap.lookup_insert_eq]
  split <;> rfl

theorem tryAdmitLocal_spec {max : Nat} {admitted : HashMap String Nat}
    (admits : tryAdmitLocal counts key max = some admitted) :
    countOf counts key < max ∧ ∀ other, countOf admitted other =
      if other = key then countOf counts key + 1 else countOf counts other := by
  simp only [tryAdmitLocal] at admits
  split at admits
  · simp at admits
  next room =>
    simp only [Option.some.injEq] at admits
    subst admits
    exact ⟨Nat.lt_of_not_le room, countOf_insert counts key _⟩

theorem countOf_releaseLocal (counts : HashMap String Nat) (key other : String) :
    countOf (releaseLocal counts key) other =
      if other = key then countOf counts key - 1 else countOf counts other := by
  unfold releaseLocal
  cases found : counts.lookup key with
  | none =>
      simp only
      split
      next same =>
        subst same
        simp [countOf, found]
      next => rfl
  | some slot =>
      have current : countOf counts key = slot := by simp [countOf, found]
      simp only
      split
      next last =>
        simp only [countOf, HashMap.lookup_erase_eq]
        split
        next => simp [found, last]
        next => rfl
      next => rw [countOf_insert, current]

end Counts

def Item.holdsSlot (key : String) (item : Item T) : Bool :=
  item.slot && item.limit.any fun limit => decide (limit.1 = key)

def DispatchPc.passed : DispatchPc T → Bool
  | .acquire | .checkClosing => true
  | _ => false

structure SlotsCounted (s : DispatcherState T) : Prop where
  counted (key : String) : s.items.countP (Item.holdsSlot key) = countOf s.counts key
  unbuilt (i : Nat) (caller : Caller T) (item : Item T) : s.callers[i]? = some caller →
    s.items[i]? = some item → caller.pc.unbuilt = true →
    item.slot = (caller.pc.passed && item.limit.isSome)
  working (c : Nat) (item : Item T) : s.items[c]? = some item →
    item.work = .live ∨ item.work = .running → item.limit.isSome = true → item.slot = true

section Step

variable {cfg : DispatcherConfig T} {s next : DispatcherState T} {action : DispatcherAction T}
  {c : Nat} {item later : Item T} {phase : WorkPhase}

/-- Steps that keep or give back the slot of an item. -/
theorem counted_set (counted : ∀ key, s.items.countP (Item.holdsSlot key) = countOf s.counts key)
    (known : s.items[c]? = some item) (items : next.items = s.items.set c later)
    (counts : next.counts = returnSlot s.counts item later) (limit : later.limit = item.limit)
    (fewer : later.slot = true → item.slot = true) (key : String) :
    next.items.countP (Item.holdsSlot key) = countOf next.counts key := by
  rw [items, counts]
  by_cases released : item.slot = true ∧ later.slot = false
  · have update : ∀ key, (s.items.set c later).countP (Item.holdsSlot key) =
        s.items.countP (Item.holdsSlot key) -
          (if item.limit.any (fun limit => decide (limit.1 = key)) then 1 else 0) := by
      intro key
      obtain ⟨bound, value⟩ := List.getElem?_eq_some_iff.mp known
      rw [List.countP_set bound, value]
      simp [Item.holdsSlot, released.1, released.2]
    rw [update, counted]
    simp only [returnSlot, released.1, released.2, Bool.not_false, Bool.and_self, if_true]
    cases item.limit with
    | none => simp
    | some found =>
        obtain ⟨owner, max⟩ := found
        simp only [Option.any_some, decide_eq_true_eq]
        rw [countOf_releaseLocal]
        by_cases same : owner = key
        · subst same
          simp
        · simp [same, Ne.symm same]
  · have same : later.slot = item.slot := by
      cases before : item.slot <;> cases after : later.slot <;> simp_all
    have sameCounts : returnSlot s.counts item later = s.counts := by
      unfold returnSlot
      rw [same]
      simp
    rw [sameCounts, ← counted]
    exact countP_set_eq known (by simp [Item.holdsSlot, same, limit])

theorem HeldStep.slot_le {kept : Option WorkPhase} (step : HeldStep phase item later kept)
    (slot : later.slot = true) : item.slot = true := by
  cases step with
  | unpermitted | started | claimed | spawned | sent _ => exact slot
  | observed | finished | discarded | left => simp [Item.endWork, Item.discard] at slot

theorem HeldStep.limit_eq {kept : Option WorkPhase} (step : HeldStep phase item later kept) :
    later.limit = item.limit := by
  cases step <;> rfl

theorem LooseStep.slot_eq (step : LooseStep s c item later) :
    later.slot = item.slot ∧ later.limit = item.limit := by
  cases step <;> exact ⟨rfl, rfl⟩

theorem SlotsCounted.counted_step (slots : SlotsCounted s) (move : Move cfg s next action)
    (key : String) : next.items.countP (Item.holdsSlot key) = countOf next.counts key := by
  have quietly : ∀ {c : Nat} {item later : Item T}, s.items[c]? = some item →
      next.items = s.items.set c later → Quiet s next → later.slot = item.slot →
      later.limit = item.limit → next.items.countP (Item.holdsSlot key) = countOf next.counts key := by
    intro c item later known items quiet slot limit
    have counts : next.counts = returnSlot s.counts item later := by
      rw [quiet.counts, returnSlot, slot]
      simp
    exact counted_set slots.counted known items counts limit (fun held => slot ▸ held) key
  cases move with
  | idle quiet items _ _ | moved _ _ _ _ _ items quiet _ | inserted _ _ _ _ _ items quiet _ =>
      rw [items, quiet.counts]
      exact slots.counted key
  | recalled _ _ _ _ _ items counts _ _ _ | taken _ _ _ _ items counts _ _ _ =>
      rw [items, counts]
      exact slots.counted key
  | dispatched _ _ items quiet _ =>
      rw [items, quiet.counts, List.countP_append, slots.counted, List.countP_singleton]
      simp [Item.holdsSlot, Item.new]
  | @admitted i caller item owner max event present known pc limit granted _ items _ _ _ =>
      have unslotted : item.slot = false := by
        rw [slots.unbuilt i caller item present known (by rw [pc]; rfl), pc]
        rfl
      have more : ∀ other, countOf next.counts other =
          if other = owner then countOf s.counts owner + 1 else countOf s.counts other := by
        rcases granted with ⟨_, _, admits⟩ | ⟨_, counts⟩
        · exact (tryAdmitLocal_spec admits).2
        · intro other
          rw [counts, incrLocal, countOf_insert]
          rfl
      rw [items, more]
      split
      next same =>
        subst same
        rw [← slots.counted]
        exact countP_set_succ known (by simp [Item.holdsSlot, unslotted])
          (by simp [Item.holdsSlot, limit])
      next different =>
        rw [← slots.counted]
        refine countP_set_eq known ?_
        simp [Item.holdsSlot, unslotted, limit, Ne.symm different]
  | acquired _ known _ _ items quiet _ | built _ known _ _ items quiet _ =>
      exact quietly known items quiet rfl rfl
  | loose known step _ items quiet _ =>
      exact quietly known items quiet step.slot_eq.1 step.slot_eq.2
  | refused _ known _ _ _ items counts _ _ _ | displaced _ _ known _ items counts _ _ _
  | abandoned _ _ known _ items counts _ _ _ =>
      exact counted_set slots.counted known items counts rfl (by simp [Item.discard]) key
  | held _ _ known step _ items counts _ _ _ _ =>
      exact counted_set slots.counted known items counts step.limit_eq step.slot_le key
  | drained _ known _ items counts _ _ _ _ =>
      exact counted_set slots.counted known items counts rfl (by simp [Item.endWork]) key

theorem SlotsCounted.unbuilt_step (slots : SlotsCounted s) (owned : Owned s)
    (move : Move cfg s next action) (i : Nat) (caller : Caller T) (item : Item T)
    (present : next.callers[i]? = some caller) (known : next.items[i]? = some item)
    (early : caller.pc.unbuilt = true) :
    item.slot = (caller.pc.passed && item.limit.isSome) := by
  have kept : ∀ {p : Place} {c : Nat} {phase : WorkPhase} {changed : Item T},
      s.holding p = some (c, phase) → next.items = s.items.set c changed →
      s.callers[i]? = some caller → item.slot = (caller.pc.passed && item.limit.isSome) := by
    intro p c phase changed held items before
    rw [items] at known
    rcases getElem?_of_set known with ⟨rfl, rfl⟩ | ⟨_, old⟩
    · obtain ⟨holder, found, _⟩ := owned.held p i phase held
      exact absurd rfl (owned.unheld before found early held)
    · exact slots.unbuilt i caller item before old early
  have elsewhere : ∀ {j : Nat} {mover : Caller T} {changed : Item T}, mover.pc.unbuilt = false →
      next.callers = s.callers.set j mover → next.items = s.items.set j changed →
      item.slot = (caller.pc.passed && item.limit.isSome) := by
    intro j mover changed late callers items
    rw [callers] at present
    rw [items] at known
    rcases getElem?_of_set_both present known with ⟨_, rfl, _⟩ | ⟨_, away, old⟩
    · simp [late] at early
    · exact slots.unbuilt i caller item away old early
  have moving : ∀ {j : Nat} {mover : Caller T}, mover.pc.unbuilt = false →
      next.callers = s.callers.set j mover → next.items = s.items →
      item.slot = (caller.pc.passed && item.limit.isSome) := by
    intro j mover late callers items
    rw [callers] at present
    rw [items] at known
    rcases getElem?_of_set present with ⟨rfl, rfl⟩ | ⟨_, away⟩
    · simp [late] at early
    · exact slots.unbuilt i caller item away known early
  cases move with
  | idle _ items callers _ | taken _ _ _ callers items _ _ _ _ =>
      rw [callers] at present
      rw [items] at known
      exact slots.unbuilt i caller item present known early
  | dispatched _ callers items _ _ =>
      rw [callers] at present
      rw [items] at known
      have aligned := owned.aligned
      rcases getElem?_of_snoc present with before | ⟨last, rfl⟩
      · have bound := (List.getElem?_eq_some_iff.mp before).1
        rcases getElem?_of_snoc known with old | ⟨beyond, _⟩
        · exact slots.unbuilt i caller item before old early
        · omega
      · rcases getElem?_of_snoc known with old | ⟨_, rfl⟩
        · have bound := (List.getElem?_eq_some_iff.mp old).1
          omega
        · rfl
  | @moved j before later found _ held old step _ callers items _ _ =>
      rw [callers] at present
      rw [items] at known
      rcases getElem?_of_set present with ⟨rfl, rfl⟩ | ⟨_, away⟩
      · obtain rfl : found = item := by simpa [old] using known
        have unslotted := slots.unbuilt i before found held old (step.unbuilt_before early)
        generalize before.pc = pc at step unslotted
        generalize caller.pc = laterPc at step early ⊢
        cases step with
        | unlimited unlimited => simpa [unlimited] using unslotted
        | waiting _ waits =>
            cases laterPc <;> simp [DispatchPc.unbuilt, DispatchPc.waits] at early waits
        | _ => simp [DispatchPc.unbuilt] at early
      · exact slots.unbuilt i caller item away known early
  | admitted _ _ _ limit _ callers items _ _ _ =>
      rw [callers] at present
      rw [items] at known
      rcases getElem?_of_set_both present known with ⟨rfl, rfl, rfl⟩ | ⟨_, away, old⟩
      · simp [limit, DispatchPc.passed]
      · exact slots.unbuilt i caller item away old early
  | acquired before old pc callers items _ _ =>
      rw [callers] at present
      rw [items] at known
      rcases getElem?_of_set_both present known with ⟨rfl, rfl, rfl⟩ | ⟨_, away, kept⟩
      · have same := slots.unbuilt i _ _ before old (by rw [pc]; rfl)
        rw [pc] at same
        exact same
      · exact slots.unbuilt i caller item away kept early
  | refused _ _ _ pc callers items _ _ _ _ =>
      refine elsewhere ?_ callers items
      rcases pc with ⟨_, rfl⟩ | rfl <;> rfl
  | built _ _ _ callers items _ _ => exact elsewhere rfl callers items
  | inserted _ _ pc _ callers items _ _ =>
      refine moving ?_ callers items
      rcases pc with ⟨_, pc, _⟩ | pc <;> rw [pc] <;> rfl
  | recalled _ _ _ _ callers items _ _ _ _ => exact moving rfl callers items
  | @displaced j d _ _ _ before pc _ callers items _ _ _ _
  | @abandoned j d _ _ _ _ before pc _ callers items _ _ _ _ =>
      have held : s.holding (.call j) = some (d, .live) := by
        rw [DispatcherState.holding_call before, pc]
        rfl
      rw [callers] at present
      rcases getElem?_of_set present with ⟨rfl, rfl⟩ | ⟨_, away⟩
      · simp [DispatchPc.unbuilt] at early
      · exact kept held items away
  | held _ before _ _ callers items _ _ _ _ _ => exact kept before items (callers ▸ present)
  | loose old step callers items _ _ =>
      rw [callers] at present
      rw [items] at known
      rcases getElem?_of_set known with ⟨rfl, rfl⟩ | ⟨_, away⟩
      · rw [step.slot_eq.1, step.slot_eq.2]
        exact slots.unbuilt i caller _ present old early
      · exact slots.unbuilt i caller item present away early
  | drained before _ callers items _ _ _ _ _ => exact kept before items (callers ▸ present)

theorem HeldStep.slot_of_working {kept : Option WorkPhase} (step : HeldStep phase item later kept)
    (work : item.work = phase) (busy : later.work = .live ∨ later.work = .running) :
    later.slot = item.slot ∧ (item.work = .live ∨ item.work = .running) := by
  cases step with
  | unpermitted | started | claimed | spawned => exact ⟨rfl, Or.inl work⟩
  | sent _ => exact ⟨rfl, busy⟩
  | observed | finished | discarded | left => simp [Item.endWork, Item.discard] at busy

theorem SlotsCounted.working_step (slots : SlotsCounted s) (owned : Owned s)
    (move : Move cfg s next action) (c : Nat) (item : Item T) (known : next.items[c]? = some item)
    (busy : item.work = .live ∨ item.work = .running) (limited : item.limit.isSome = true) :
    item.slot = true := by
  cases move with
  | idle _ items _ _ | moved _ _ _ _ _ items _ _ | inserted _ _ _ _ _ items _ _
  | recalled _ _ _ _ _ items _ _ _ _ | taken _ _ _ _ items _ _ _ _ =>
      rw [items] at known
      exact slots.working c item known busy limited
  | dispatched _ _ items _ _ =>
      rw [items] at known
      rcases getElem?_of_snoc known with old | ⟨_, rfl⟩
      · exact slots.working c item old busy limited
      · simp [Item.new] at busy
  | admitted _ _ _ _ _ _ items _ _ _ =>
      rw [items] at known
      rcases getElem?_of_set known with ⟨rfl, rfl⟩ | ⟨_, away⟩
      · rfl
      · exact slots.working c item away busy limited
  | acquired _ old _ _ items _ _ =>
      rw [items] at known
      rcases getElem?_of_set known with ⟨rfl, rfl⟩ | ⟨_, away⟩
      · have slot := slots.working c _ old busy limited
        exact slot
      · exact slots.working c item away busy limited
  | built present old pc _ items _ _ =>
      rw [items] at known
      rcases getElem?_of_set known with ⟨rfl, rfl⟩ | ⟨_, away⟩
      · have slot := slots.unbuilt c _ _ present old (by rw [pc]; rfl)
        rw [pc] at slot
        simpa [DispatchPc.passed, limited] using slot
      · exact slots.working c item away busy limited
  | refused _ _ _ _ _ items _ _ _ _ | displaced _ _ _ _ items _ _ _ _
  | abandoned _ _ _ _ items _ _ _ _ =>
      rw [items] at known
      rcases getElem?_of_set known with ⟨rfl, rfl⟩ | ⟨_, away⟩
      · simp [Item.discard] at busy
      · exact slots.working c item away busy limited
  | held _ before old step _ items _ _ _ _ _ =>
      rw [items] at known
      rcases getElem?_of_set known with ⟨rfl, rfl⟩ | ⟨_, away⟩
      · obtain ⟨sameSlot, wasBusy⟩ := step.slot_of_working (owned.work_eq before old) busy
        rw [sameSlot]
        exact slots.working c _ old wasBusy (step.limit_eq ▸ limited)
      · exact slots.working c item away busy limited
  | loose old step _ items _ _ =>
      rw [items] at known
      rcases getElem?_of_set known with ⟨rfl, rfl⟩ | ⟨_, away⟩
      · rw [step.slot_eq.1]
        rw [step.slot_eq.2] at limited
        rw [step.work_eq] at busy
        exact slots.working c _ old busy limited
      · exact slots.working c item away busy limited
  | drained _ _ _ items _ _ _ _ _ =>
      rw [items] at known
      rcases getElem?_of_set known with ⟨rfl, rfl⟩ | ⟨_, away⟩
      · simp [Item.endWork] at busy
      · exact slots.working c item away busy limited

theorem SlotsCounted.step (slots : SlotsCounted s) (owned : Owned s)
    (move : Move cfg s next action) : SlotsCounted next := by
  constructor
  · exact slots.counted_step move
  · exact slots.unbuilt_step owned move
  · exact slots.working_step owned move

end Step

theorem SlotsCounted.initial (cfg : DispatcherConfig T) (now : Nat) :
    SlotsCounted (DispatcherState.new cfg now) := by
  constructor
  · intro key
    rfl
  · intro i caller item present
    simp [DispatcherState.new] at present
  · intro c item known
    simp [DispatcherState.new] at known

end BitsBroker
