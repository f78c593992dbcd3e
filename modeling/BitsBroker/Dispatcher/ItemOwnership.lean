import BitsBroker.Dispatcher.DispatchMoves
import Mathlib.Logic.Equiv.Basic

/-!
Every item has one holder. Items change hands only by moves between two places, so two
places never hold the same item, and the holder knows in which phase the work is. An item
that its call has not built yet is held by nobody.
-/

namespace BitsBroker

open Transition Table

variable {T : Type}

def DispatchPc.unbuilt : DispatchPc T → Bool
  | .begun | .acquire | .checkClosing => true
  | _ => false

structure Owned (s : DispatcherState T) : Prop where
  aligned : s.items.length = s.callers.length
  unique (p q : Place) (c : Nat) (left right : WorkPhase) : s.holding p = some (c, left) →
    s.holding q = some (c, right) → p = q
  held (p : Place) (c : Nat) (phase : WorkPhase) : s.holding p = some (c, phase) →
    ∃ item, s.items[c]? = some item ∧ item.work = phase
  unbuilt (i : Nat) (caller : Caller T) (item : Item T) : s.callers[i]? = some caller →
    s.items[i]? = some item → caller.pc.unbuilt = true → item.work = .unbuilt

section Step

variable {cfg : DispatcherConfig T} {s next : DispatcherState T} {action : DispatcherAction T}
  {i c : Nat} {caller : Caller T} {item : Item T} {p q : Place} {phase : WorkPhase}

theorem holding_phase (held : s.holding p = some (c, phase)) :
    phase = .live ∨ phase = .running ∨ phase = .resolved := by
  cases p with
  | worker i =>
      simp only [DispatcherState.holding, Option.bind_eq_some_iff, Option.map_eq_some_iff,
        Prod.mk.injEq] at held
      obtain ⟨pc, _, _, _, _, rfl⟩ := held
      cases pc <;> simp [WorkerPc.phase]
  | map jobId =>
      simp only [DispatcherState.holding, Option.map_eq_some_iff, Prod.mk.injEq] at held
      obtain ⟨_, _, _, rfl⟩ := held
      exact Or.inl rfl
  | call i | handler i =>
      simp only [DispatcherState.holding, Option.bind_eq_some_iff, Option.map_eq_some_iff,
        Prod.mk.injEq] at held
      obtain ⟨_, _, _, _, _, rfl⟩ := held
      exact Or.inl rfl

theorem holding_not_unbuilt (held : s.holding p = some (c, phase)) : phase ≠ .unbuilt := by
  rcases holding_phase held with rfl | rfl | rfl <;> simp

theorem Owned.work_eq (owned : Owned s) (held : s.holding p = some (c, phase))
    (known : s.items[c]? = some item) : item.work = phase := by
  obtain ⟨found, present, work⟩ := owned.held p c phase held
  rw [known] at present
  simp only [Option.some.injEq] at present
  rw [present, work]

theorem Owned.item_of (owned : Owned s) (present : s.callers[i]? = some caller) :
    ∃ item, s.items[i]? = some item := by
  refine ⟨_, List.getElem?_eq_getElem ?_⟩
  rw [owned.aligned]
  exact (List.getElem?_eq_some_iff.mp present).1

theorem Owned.elsewhere (owned : Owned s) {d : Nat} {other : WorkPhase}
    (held : s.holding p = some (c, phase)) (away : s.holding q = some (d, other))
    (different : q ≠ p) : d ≠ c := by
  rintro rfl
  exact different (owned.unique q p d other phase away held)

/-- Nobody holds the item of a call that has not built it. -/
theorem Owned.unheld (owned : Owned s) (present : s.callers[i]? = some caller)
    (known : s.items[i]? = some item) (early : caller.pc.unbuilt = true)
    (held : s.holding p = some (c, phase)) : c ≠ i := by
  rintro rfl
  have unbuilt := owned.unbuilt c caller item present known early
  exact holding_not_unbuilt held (owned.work_eq held known ▸ unbuilt)

/-- Nobody else holds the item of a call that has not inserted it. -/
theorem Owned.early (owned : Owned s) (present : s.callers[i]? = some caller)
    (known : s.items[i]? = some item) (early : caller.pc.early = true) (away : p ≠ .call i)
    (held : s.holding p = some (c, phase)) : c ≠ i := by
  by_cases inserting : caller.pc = .insert
  · have own : s.holding (.call i) = some (i, .live) := by
      rw [DispatcherState.holding_call present, inserting]
      rfl
    exact owned.elsewhere own held away
  · have unbuilt : caller.pc.unbuilt = true := by
      cases pc : caller.pc <;> simp_all [DispatchPc.early, DispatchPc.unbuilt]
    exact owned.unheld present known unbuilt held

theorem Owned.unique_of_origin (owned : Owned s) (origin : Place → Place)
    (injective : Function.Injective origin)
    (moved : ∀ p c phase, next.holding p = some (c, phase) →
      ∃ before, s.holding (origin p) = some (c, before))
    (p q : Place) (c : Nat) (left right : WorkPhase) (atLeft : next.holding p = some (c, left))
    (atRight : next.holding q = some (c, right)) : p = q := by
  obtain ⟨leftBefore, leftHeld⟩ := moved p c left atLeft
  obtain ⟨rightBefore, rightHeld⟩ := moved q c right atRight
  exact injective (owned.unique _ _ c leftBefore rightBefore leftHeld rightHeld)

/-- The three shapes in which holdings change: one place lets go or keeps its item, two places
exchange what they hold, or a call starts to hold its own new item. -/
theorem Owned.unique_of_update (owned : Owned s) {value : Option WorkPhase}
    (held : s.holding p = some (c, phase))
    (changed : ∀ q, next.holding q = if q = p then value.map (c, ·) else s.holding q) :
    ∀ (left right : Place) (d : Nat) (l r : WorkPhase), next.holding left = some (d, l) →
      next.holding right = some (d, r) → left = right := by
  refine owned.unique_of_origin id Function.injective_id ?_
  intro q d later found
  rw [changed] at found
  split at found
  next here =>
    simp only [Option.map_eq_some_iff, Prod.mk.injEq] at found
    obtain ⟨_, _, rfl, _⟩ := found
    exact ⟨phase, by rw [here]; exact held⟩
  next => exact ⟨later, found⟩

theorem Owned.unique_of_drop (owned : Owned s)
    (changed : ∀ q, next.holding q = if q = p then none else s.holding q) :
    ∀ (left right : Place) (d : Nat) (l r : WorkPhase), next.holding left = some (d, l) →
      next.holding right = some (d, r) → left = right := by
  refine owned.unique_of_origin id Function.injective_id ?_
  intro q d later found
  rw [changed] at found
  split at found
  · simp at found
  · exact ⟨later, found⟩

theorem Owned.unique_of_swap (owned : Owned s) (p q : Place)
    (changed : ∀ r, next.holding r = if r = p then s.holding q
      else if r = q then s.holding p else s.holding r) :
    ∀ (left right : Place) (d : Nat) (l r : WorkPhase), next.holding left = some (d, l) →
      next.holding right = some (d, r) → left = right := by
  refine owned.unique_of_origin (Equiv.swap p q) (Equiv.swap p q).injective ?_
  intro r d later found
  rw [changed] at found
  refine ⟨later, ?_⟩
  by_cases first : r = p
  · rw [if_pos first] at found
    rw [first, Equiv.swap_apply_left, found]
  · by_cases second : r = q
    · rw [if_neg first, if_pos second] at found
      rw [second, Equiv.swap_apply_right, found]
    · rw [if_neg first, if_neg second] at found
      rw [Equiv.swap_apply_of_ne_of_ne first second, found]

theorem Owned.unique_of_create (owned : Owned s) (present : s.callers[i]? = some caller)
    (known : s.items[i]? = some item) (early : caller.pc.unbuilt = true)
    (changed : ∀ q, next.holding q = if q = .call i then some (i, .live) else s.holding q)
    (left right : Place) (d : Nat) (l r : WorkPhase) (atLeft : next.holding left = some (d, l))
    (atRight : next.holding right = some (d, r)) : left = right := by
  have mine : ∀ {q : Place} {e : Nat} {w : WorkPhase}, next.holding q = some (e, w) →
      q = .call i ∧ e = i ∨ q ≠ .call i ∧ e ≠ i ∧ s.holding q = some (e, w) := by
    intro q e w found
    rw [changed] at found
    split at found
    next here =>
      simp only [Option.some.injEq, Prod.mk.injEq] at found
      exact Or.inl ⟨here, found.1.symm⟩
    next away => exact Or.inr ⟨away, owned.unheld present known early found, found⟩
  rcases mine atLeft with ⟨leftHere, rfl⟩ | ⟨_, leftOther, leftOld⟩
  · rcases mine atRight with ⟨rightHere, _⟩ | ⟨_, rightOther, _⟩
    · rw [leftHere, rightHere]
    · exact absurd rfl rightOther
  · rcases mine atRight with ⟨_, rfl⟩ | ⟨_, _, rightOld⟩
    · exact absurd rfl leftOther
    · exact owned.unique left right d l r leftOld rightOld

theorem Owned.unique_step (owned : Owned s) (move : Move cfg s next action) :
    ∀ (p q : Place) (c : Nat) (left right : WorkPhase), next.holding p = some (c, left) →
      next.holding q = some (c, right) → p = q := by
  have same : (∀ p, next.holding p = s.holding p) → ∀ (p q : Place) (c : Nat)
      (left right : WorkPhase), next.holding p = some (c, left) →
      next.holding q = some (c, right) → p = q := by
    intro holds p q c left right atLeft atRight
    rw [holds] at atLeft atRight
    exact owned.unique p q c left right atLeft atRight
  cases move with
  | idle _ _ _ holds | dispatched _ _ _ _ holds | moved _ _ _ _ _ _ _ holds
  | admitted _ _ _ _ _ _ _ _ _ holds | acquired _ _ _ _ _ _ holds | loose _ _ _ _ _ holds =>
      exact same holds
  | refused _ _ _ _ _ _ _ _ _ holds | displaced _ _ _ _ _ _ _ _ holds
  | abandoned _ _ _ _ _ _ _ _ holds | drained _ _ _ _ _ _ _ _ holds =>
      exact owned.unique_of_drop holds
  | built present known pc _ _ _ holds =>
      exact owned.unique_of_create present known (by rw [pc]; rfl) holds
  | @inserted i caller _ _ present pc _ _ _ _ _ holds =>
      have own : s.holding (.call i) = some (i, .live) := by
        rw [DispatcherState.holding_call present, pc]
        rfl
      exact owned.unique_of_swap (.call i) (.map caller.jobId) fun r => by rw [holds, own]
  | @recalled i c caller _ _ present waits _ found _ _ _ _ _ holds =>
      have empty : s.holding (.call i) = none := by
        rw [DispatcherState.holding_call present, DispatchPc.item_of_waits waits]
        rfl
      exact owned.unique_of_swap (.call i) (.map caller.jobId) fun r => by rw [holds, empty, found]
  | @taken p jobId c _ _ empty found _ _ _ _ _ holds =>
      exact owned.unique_of_swap p (.map jobId) fun r => by rw [holds, empty, found]
  | held _ atPlace _ _ _ _ _ _ _ _ holds => exact owned.unique_of_update atPlace holds

theorem Owned.held_of_set (owned : Owned s) {changed : Nat} {later : Item T}
    (held : s.holding p = some (c, phase)) (other : c ≠ changed)
    (items : next.items = s.items.set changed later) :
    ∃ item, next.items[c]? = some item ∧ item.work = phase := by
  rw [items, List.getElem?_set_ne (Ne.symm other)]
  exact owned.held p c phase held

theorem Owned.held_of_keep (owned : Owned s) {changed : Nat} {later : Item T}
    (held : s.holding p = some (c, phase)) (known : s.items[changed]? = some item)
    (items : next.items = s.items.set changed later) (kept : later.work = item.work) :
    ∃ item, next.items[c]? = some item ∧ item.work = phase := by
  by_cases same : c = changed
  · subst same
    refine ⟨later, ?_, kept.trans (owned.work_eq held known)⟩
    rw [items, List.getElem?_set_self (List.getElem?_eq_some_iff.mp known).1]
  · exact owned.held_of_set held same items

theorem HeldStep.work_eq {later : Item T} {kept : WorkPhase}
    (step : HeldStep phase item later (some kept)) (work : item.work = phase) :
    later.work = kept := by
  cases step with
  | unpermitted | claimed | spawned => exact work
  | started | observed | finished => rfl
  | sent same =>
      rcases same with gone | stays
      · simp at gone
      · simp only [Option.some.injEq] at stays
        rw [stays]
        exact work

theorem LooseStep.work_eq {later : Item T} (step : LooseStep s c item later) :
    later.work = item.work := by
  cases step <;> rfl

theorem Owned.held_step (owned : Owned s) (move : Move cfg s next action) (p : Place) (c : Nat)
    (phase : WorkPhase) (found : next.holding p = some (c, phase)) :
    ∃ item, next.items[c]? = some item ∧ item.work = phase := by
  cases move with
  | idle _ items _ holds | moved _ _ _ _ _ items _ holds =>
      rw [holds] at found
      rw [items]
      exact owned.held p c phase found
  | dispatched _ _ items _ holds =>
      rw [holds] at found
      obtain ⟨item, known, work⟩ := owned.held p c phase found
      rw [items, List.getElem?_append_left (List.getElem?_eq_some_iff.mp known).1]
      exact ⟨item, known, work⟩
  | admitted _ known _ _ _ _ items _ _ holds | acquired _ known _ _ items _ holds =>
      rw [holds] at found
      exact owned.held_of_keep found known items rfl
  | loose known step _ items _ holds =>
      rw [holds] at found
      exact owned.held_of_keep found known items step.work_eq
  | refused present known early _ _ items _ _ _ holds =>
      rw [holds] at found
      split at found
      · simp at found
      next away => exact owned.held_of_set found (owned.early present known early away found) items
  | @built i caller item _ present known pc _ items _ holds =>
      rw [holds] at found
      split at found
      · simp only [Option.some.injEq, Prod.mk.injEq] at found
        obtain ⟨rfl, rfl⟩ := found
        rw [items, List.getElem?_set_self (List.getElem?_eq_some_iff.mp known).1]
        exact ⟨_, rfl, rfl⟩
      · exact owned.held_of_set found (owned.unheld present known (by rw [pc]; rfl) found) items
  | @inserted i caller _ _ present pc _ _ _ items _ holds =>
      rw [holds] at found
      rw [items]
      split at found
      · exact owned.held _ c phase found
      · split at found
        · have own : s.holding (.call i) = some (i, .live) := by
            rw [DispatcherState.holding_call present, pc]
            rfl
          exact owned.held (.call i) c phase (own.trans found)
        · exact owned.held p c phase found
  | @displaced j d _ _ _ present pc _ _ items _ _ _ holds
  | @abandoned j d _ _ _ _ present pc _ _ items _ _ _ holds =>
      have own : s.holding (.call j) = some (d, .live) := by
        rw [DispatcherState.holding_call present, pc]
        rfl
      rw [holds] at found
      split at found
      · simp at found
      next away => exact owned.held_of_set found (owned.elsewhere own found away) items
  | recalled _ _ _ before _ items _ _ _ holds | taken _ _ before _ items _ _ _ holds =>
      rw [holds] at found
      rw [items]
      split at found
      · exact owned.held _ c phase (before.trans found)
      · split at found
        · simp at found
        · exact owned.held p c phase found
  | @held place d item later now kept _ _ before known step _ items _ _ _ _ holds =>
      rw [holds] at found
      split at found
      · simp only [Option.map_eq_some_iff, Prod.mk.injEq] at found
        obtain ⟨_, rfl, rfl, rfl⟩ := found
        refine ⟨later, ?_, step.work_eq (owned.work_eq before known)⟩
        rw [items, List.getElem?_set_self (List.getElem?_eq_some_iff.mp known).1]
      next away => exact owned.held_of_set found (owned.elsewhere before found away) items
  | drained before known _ items _ _ _ _ holds =>
      rw [holds] at found
      split at found
      · simp at found
      next away => exact owned.held_of_set found (owned.elsewhere before found away) items

theorem PcMove.unbuilt_before {pc later : DispatchPc T} (step : PcMove item pc later)
    (early : later.unbuilt = true) : pc.unbuilt = true := by
  cases step with
  | unlimited _ => rfl
  | waiting _ waits => cases later <;> simp [DispatchPc.unbuilt, DispatchPc.waits] at early waits
  | _ => simp [DispatchPc.unbuilt] at early

theorem Owned.unbuilt_step (owned : Owned s) (move : Move cfg s next action) (i : Nat)
    (caller : Caller T) (item : Item T) (present : next.callers[i]? = some caller)
    (known : next.items[i]? = some item) (early : caller.pc.unbuilt = true) :
    item.work = .unbuilt := by
  have kept : ∀ {p : Place} {c : Nat} {phase : WorkPhase} {changed : Item T},
      s.holding p = some (c, phase) → next.items = s.items.set c changed →
      s.callers[i]? = some caller → item.work = .unbuilt := by
    intro p c phase changed held items before
    rw [items] at known
    rcases getElem?_of_set known with ⟨rfl, rfl⟩ | ⟨_, old⟩
    · obtain ⟨holder, found, _⟩ := owned.held p i phase held
      exact absurd rfl (owned.unheld before found early held)
    · exact owned.unbuilt i caller item before old early
  cases move with
  | idle _ items callers _ | taken _ _ _ callers items _ _ _ _ =>
      rw [callers] at present
      rw [items] at known
      exact owned.unbuilt i caller item present known early
  | dispatched _ callers items _ _ =>
      rw [callers] at present
      rw [items] at known
      rcases getElem?_of_snoc present with before | ⟨last, rfl⟩
      · rcases getElem?_of_snoc known with old | ⟨last, _⟩
        · exact owned.unbuilt i caller item before old early
        · have bound := (List.getElem?_eq_some_iff.mp before).1
          have aligned := owned.aligned
          omega
      · rcases getElem?_of_snoc known with old | ⟨_, rfl⟩
        · have bound := (List.getElem?_eq_some_iff.mp old).1
          have aligned := owned.aligned
          omega
        · rfl
  | moved before old step _ callers items _ _ =>
      rw [callers] at present
      rw [items] at known
      rcases getElem?_of_set present with ⟨rfl, rfl⟩ | ⟨_, away⟩
      · exact owned.unbuilt i _ item before known (step.unbuilt_before early)
      · exact owned.unbuilt i caller item away known early
  | admitted before old pc _ _ callers items _ _ _ | acquired before old pc callers items _ _ =>
      rw [callers] at present
      rw [items] at known
      rcases getElem?_of_set_both present known with ⟨rfl, rfl, rfl⟩ | ⟨_, away, kept⟩
      · have same := owned.unbuilt i _ _ before old (by rw [pc]; rfl)
        exact same
      · exact owned.unbuilt i caller item away kept early
  | refused before old _ pc callers items _ _ _ _ =>
      rw [callers] at present
      rw [items] at known
      rcases getElem?_of_set_both present known with ⟨_, rfl, _⟩ | ⟨_, away, kept⟩
      · rcases pc with ⟨_, rfl⟩ | rfl <;> simp [DispatchPc.unbuilt] at early
      · exact owned.unbuilt i caller item away kept early
  | built before old _ callers items _ _ =>
      rw [callers] at present
      rw [items] at known
      rcases getElem?_of_set_both present known with ⟨_, rfl, _⟩ | ⟨_, away, kept⟩
      · simp [DispatchPc.unbuilt] at early
      · exact owned.unbuilt i caller item away kept early
  | inserted _ _ pc _ callers items _ _ =>
      rw [callers] at present
      rw [items] at known
      rcases getElem?_of_set present with ⟨rfl, rfl⟩ | ⟨_, away⟩
      · rcases pc with ⟨_, pc, _⟩ | pc <;> simp [pc, DispatchPc.unbuilt] at early
      · exact owned.unbuilt i caller item away known early
  | recalled _ _ _ _ callers items _ _ _ _ =>
      rw [callers] at present
      rw [items] at known
      rcases getElem?_of_set present with ⟨rfl, rfl⟩ | ⟨_, away⟩
      · simp [DispatchPc.unbuilt] at early
      · exact owned.unbuilt i caller item away known early
  | @displaced j c holder _ _ before pc _ callers items _ _ _ _
  | @abandoned j c holder _ _ _ before pc _ callers items _ _ _ _ =>
      have held : s.holding (.call j) = some (c, .live) := by
        rw [DispatcherState.holding_call before, pc]
        rfl
      rw [callers] at present
      rcases getElem?_of_set present with ⟨rfl, rfl⟩ | ⟨_, away⟩
      · simp [DispatchPc.unbuilt] at early
      · exact kept held items away
  | held _ before _ _ callers items _ _ _ _ _ => exact kept before items (callers ▸ present)
  | loose old step callers items _ _ =>
      rw [callers] at present
      rw [items] at known
      rcases getElem?_of_set known with ⟨rfl, rfl⟩ | ⟨_, away⟩
      · rw [step.work_eq]
        exact owned.unbuilt i caller _ present old early
      · exact owned.unbuilt i caller item present away early
  | drained before _ callers items _ _ _ _ _ => exact kept before items (callers ▸ present)

theorem Owned.aligned_step (owned : Owned s) (move : Move cfg s next action) :
    next.items.length = next.callers.length := by
  have before := owned.aligned
  cases move with
  | dispatched _ callers items _ _ => simp [callers, items, before]
  | idle _ items callers _ | taken _ _ _ callers items _ _ _ _ => rw [callers, items, before]
  | moved _ _ _ _ callers items _ _ | inserted _ _ _ _ callers items _ _
  | recalled _ _ _ _ callers items _ _ _ _ => simp [callers, items, before]
  | admitted _ _ _ _ _ callers items _ _ _ | refused _ _ _ _ callers items _ _ _ _
  | acquired _ _ _ callers items _ _ | built _ _ _ callers items _ _
  | displaced _ _ _ callers items _ _ _ _ | abandoned _ _ _ callers items _ _ _ _
  | held _ _ _ _ callers items _ _ _ _ _ | loose _ _ callers items _ _
  | drained _ _ callers items _ _ _ _ _ => simp [callers, items, before]

theorem Owned.step (owned : Owned s) (move : Move cfg s next action) : Owned next := by
  constructor
  · exact owned.aligned_step move
  · exact owned.unique_step move
  · exact owned.held_step move
  · exact owned.unbuilt_step move

end Step

theorem Owned.initial (cfg : DispatcherConfig T) (now : Nat) :
    Owned (DispatcherState.new cfg now) := by
  have nothing : ∀ p, (DispatcherState.new cfg now).holding p = none := by
    intro p
    cases p with
    | map jobId => rfl
    | call i => simp [DispatcherState.holding, DispatcherState.new]
    | handler i => simp [DispatcherState.holding, DispatcherState.new]
    | worker i =>
        simp only [DispatcherState.holding, DispatcherState.new]
        cases cfg.executor with
        | pool concurrency =>
            rw [List.getElem?_replicate]
            split <;> rfl
        | remotePool _ _ => simp
  constructor
  · rfl
  · intro p q c left right held
    simp [nothing] at held
  · intro p c phase held
    simp [nothing] at held
  · intro i caller item present
    simp [DispatcherState.new] at present

end BitsBroker
