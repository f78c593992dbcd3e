import BitsBroker.Dispatcher.SlotCounts
import BitsBroker.Dispatcher.Winner

/-!
The per-user cap over queued and running work. An admission compares the ceiling with the
slots that are held, and a slot is held as long as the work future lives. A remote worker
does not run that future: the handler of `GET /work` drops it, so a job in the in-progress
table no longer counts. As long as no job of a user is admitted while one of them is in
that state, for every bound the jobs admitted under a ceiling within it are at most that
many.
-/

namespace BitsBroker

open Transition Table Counting

variable {T : Type}

namespace DispatcherState

def claimed (s : DispatcherState T) (c : Nat) : Bool :=
  s.inProgress.entries.any fun entry => decide (entry.2.item = c)

/-- The dispatch holds its slot, with or without a work future yet, is in the pending map, its work
future lives, or a remote worker has it. -/
def unended (s : DispatcherState T) (key : String) (c : Nat) : Bool :=
  s.items[c]?.any fun item => item.limit.any (fun limit => decide (limit.1 = key)) &&
    (item.slot || decide (item.work = .live) || decide (item.work = .running) || s.claimed c)

def occupies (s : DispatcherState T) (key : String) (bound c : Nat) : Bool :=
  s.items[c]?.any fun item =>
    item.limit.any (fun limit => decide (limit.1 = key) && decide (limit.2 ≤ bound)) &&
      (item.slot || s.claimed c)

theorem claimed_iff (s : DispatcherState T) (c : Nat) : s.claimed c = true ↔ s.Claims c := by
  simp only [claimed, Claims, List.any_eq_true, decide_eq_true_eq]
  constructor
  · rintro ⟨⟨jobId, entry⟩, member, same⟩
    exact ⟨jobId, entry, AList.mem_lookup_iff.mpr member, same⟩
  · rintro ⟨jobId, entry, found, same⟩
    exact ⟨⟨jobId, entry⟩, AList.mem_lookup_iff.mp found, same⟩

end DispatcherState

/-- No job of a user is admitted while a remote worker has a job of that user whose slot was
given back. -/
def SlotsKept (s : DispatcherState T) (action : DispatcherAction T) : Prop :=
  ∀ (i : Nat) (caller : Caller T) (item : Item T) (key : String) (max : Nat),
    action = .call i .step → s.callers[i]? = some caller → s.items[i]? = some item →
    caller.pc = .begun → item.limit = some (key, max) →
    (tryAdmitLocal s.counts key max).isSome = true →
    ∀ (c : Nat) (other : Item T), s.items[c]? = some other →
      other.limit.any (fun limit => decide (limit.1 = key)) = true → s.Claims c →
      other.slot = true

structure CapWf (s : DispatcherState T) : Prop where
  owned : Owned s
  slots : SlotsCounted s
  known (c : Nat) : s.Claims c → ∃ item, s.items[c]? = some item
  capped (key : String) (bound : Nat) :
    (List.range s.items.length).countP (s.occupies key bound) ≤ bound

structure Shrinks (s next : DispatcherState T) : Prop where
  length : next.items.length = s.items.length
  items (c : Nat) (later : Item T) : next.items[c]? = some later →
    ∃ item, s.items[c]? = some item ∧ later.limit = item.limit ∧
      (later.slot = true → item.slot = true)

section Step

variable {cfg : DispatcherConfig T} {s next : DispatcherState T} {action : DispatcherAction T}
  {c : Nat} {item later : Item T}

theorem Shrinks.of_eq (items : next.items = s.items) : Shrinks s next := by
  constructor
  · rw [items]
  · intro c later known
    exact ⟨later, items ▸ known, rfl, id⟩

theorem Shrinks.of_set (known : s.items[c]? = some item) (items : next.items = s.items.set c later)
    (limit : later.limit = item.limit) (fewer : later.slot = true → item.slot = true) :
    Shrinks s next := by
  constructor
  · rw [items, List.length_set]
  · intro d found present
    rw [items] at present
    rcases getElem?_of_set present with ⟨rfl, rfl⟩ | ⟨_, old⟩
    · exact ⟨item, known, limit, fewer⟩
    · exact ⟨found, old, rfl, id⟩

/-- Slots are taken by admissions only. -/
theorem Move.shrinks_or (move : Move cfg s next action) :
    Shrinks s next ∨
    (∃ guard limit, next.items = s.items ++ [Item.new guard limit] ∧ Quiet s next) ∨
    ∃ i caller item key max event, action = .call i event ∧ s.callers[i]? = some caller ∧
      s.items[i]? = some item ∧ caller.pc = .begun ∧ item.limit = some (key, max) ∧
      (event = .step ∧ cfg.shared = false ∧ tryAdmitLocal s.counts key max = some next.counts ∨
        cfg.shared = true ∧ next.counts = incrLocal s.counts key) ∧
      next.items = s.items.set i { item with slot := true } ∧ Calm s next := by
  cases move with
  | idle _ items _ _ | moved _ _ _ _ _ items _ _ | inserted _ _ _ _ _ items _ _
  | recalled _ _ _ _ _ items _ _ _ _ | taken _ _ _ _ items _ _ _ _ =>
      exact Or.inl (.of_eq items)
  | dispatched _ _ items quiet _ => exact Or.inr (Or.inl ⟨_, _, items, quiet⟩)
  | admitted present known pc limit granted _ items _ calm _ =>
      exact Or.inr (Or.inr ⟨_, _, _, _, _, _, rfl, present, known, pc, limit, granted, items, calm⟩)
  | acquired _ known _ _ items _ _ | built _ known _ _ items _ _ =>
      exact Or.inl (.of_set known items rfl id)
  | loose known step _ items _ _ =>
      exact Or.inl (.of_set known items step.slot_eq.2 fun slot => step.slot_eq.1 ▸ slot)
  | refused _ known _ _ _ items _ _ _ _ | displaced _ _ known _ items _ _ _ _
  | abandoned _ _ known _ items _ _ _ _ =>
      exact Or.inl (.of_set known items rfl (by simp [Item.discard]))
  | held _ _ known step _ items _ _ _ _ _ =>
      exact Or.inl (.of_set known items step.limit_eq step.slot_le)
  | drained _ known _ items _ _ _ _ _ =>
      exact Or.inl (.of_set known items rfl (by simp [Item.endWork]))

/-- Only an item whose work future lives is handed to a remote worker. -/
theorem Owned.claims_step (owned : Owned s) (move : Move cfg s next action) {c : Nat}
    (claims : next.Claims c) : s.Claims c ∨ ∃ item, s.items[c]? = some item ∧ item.work = .live := by
  cases move with
  | idle quiet _ _ _ | dispatched _ _ _ quiet _ | moved _ _ _ _ _ _ quiet _
  | acquired _ _ _ _ _ quiet _ | built _ _ _ _ _ quiet _ | inserted _ _ _ _ _ _ quiet _
  | loose _ _ _ _ quiet _ => exact Or.inl (quiet.claims c claims)
  | admitted _ _ _ _ _ _ _ _ calm _ | refused _ _ _ _ _ _ _ _ calm _
  | displaced _ _ _ _ _ _ _ calm _ | abandoned _ _ _ _ _ _ _ calm _
  | recalled _ _ _ _ _ _ _ _ calm _ | taken _ _ _ _ _ _ _ calm _ =>
      exact Or.inl (calm.claims c claims)
  | held _ before known _ _ _ _ _ inProgress _ _ =>
      rcases inProgress c claims with old | ⟨rfl, live, _⟩
      · exact Or.inl old
      · exact Or.inr ⟨_, known, (owned.work_eq before known).trans live⟩
  | drained _ _ _ _ _ _ inProgress _ _ => exact Or.inl (inProgress c claims)

theorem CapWf.known_step (wf : CapWf s) (move : Move cfg s next action) (c : Nat)
    (claims : next.Claims c) : ∃ item, next.items[c]? = some item := by
  have before : ∃ item, s.items[c]? = some item := by
    rcases wf.owned.claims_step move claims with old | ⟨item, known, _⟩
    · exact wf.known c old
    · exact ⟨item, known⟩
  obtain ⟨item, known⟩ := before
  have bound := (List.getElem?_eq_some_iff.mp known).1
  have longer : s.items.length ≤ next.items.length := by
    rcases move.shrinks_or with shrinks | ⟨_, _, items, _⟩ | ⟨_, _, _, _, _, _, _, _, _, _, _, _, items, _⟩
    · exact shrinks.length.ge
    · simp [items]
    · simp [items]
  exact Option.isSome_iff_exists.mp (by simp; omega)

theorem occupies_iff {key : String} {bound : Nat} : s.occupies key bound c = true ↔
    ∃ item max, s.items[c]? = some item ∧ item.limit = some (key, max) ∧ max ≤ bound ∧
      (item.slot = true ∨ s.Claims c) := by
  simp only [DispatcherState.occupies, Option.any_eq_true, Bool.and_eq_true, decide_eq_true_eq,
    Bool.or_eq_true, DispatcherState.claimed_iff]
  constructor
  · rintro ⟨item, known, ⟨⟨owner, max⟩, limit, rfl, small⟩, held⟩
    exact ⟨item, max, known, limit, small, held⟩
  · rintro ⟨item, max, known, limit, small, held⟩
    exact ⟨item, known, ⟨(key, max), limit, rfl, small⟩, held⟩

theorem CapWf.occupies_step (wf : CapWf s) (move : Move cfg s next action)
    (shrinks : Shrinks s next) {key : String} {bound : Nat}
    (occupied : next.occupies key bound c = true) : s.occupies key bound c = true := by
  obtain ⟨later, max, present, limit, small, held⟩ := occupies_iff.mp occupied
  obtain ⟨item, known, sameLimit, fewer⟩ := shrinks.items c later present
  refine occupies_iff.mpr ⟨item, max, known, sameLimit ▸ limit, small, ?_⟩
  rcases held with slot | claims
  · exact Or.inl (fewer slot)
  · rcases wf.owned.claims_step move claims with old | ⟨found, same, live⟩
    · exact Or.inr old
    · obtain rfl : found = item := by simpa [same] using known
      refine Or.inl (wf.slots.working c found known (Or.inl live) ?_)
      rw [← sameLimit, limit]
      rfl

/-- After an admission the occupied slots are those that were counted, one of them new. -/
theorem CapWf.capped_admit (wf : CapWf s) (slots : SlotsCounted next) (careful : SlotsKept s action)
    {i max : Nat} {caller : Caller T} {key : String} (is : action = .call i .step)
    (present : s.callers[i]? = some caller) (known : s.items[i]? = some item)
    (pc : caller.pc = .begun) (limit : item.limit = some (key, max))
    (admits : tryAdmitLocal s.counts key max = some next.counts)
    (items : next.items = s.items.set i { item with slot := true }) (calm : Calm s next)
    (owner : String) (bound : Nat) :
    (List.range next.items.length).countP (next.occupies owner bound) ≤ bound := by
  obtain ⟨room, counts⟩ := tryAdmitLocal_spec admits
  have before : ∀ {c : Nat} {later : Item T}, next.items[c]? = some later →
      c = i ∧ later = { item with slot := true } ∨ c ≠ i ∧ s.items[c]? = some later := by
    intro c later found
    rw [items] at found
    exact getElem?_of_set found
  by_cases counted : owner = key ∧ max ≤ bound
  · obtain ⟨rfl, small⟩ := counted
    have slotted : ∀ c ∈ List.range next.items.length, next.occupies owner bound c = true →
        next.items[c]?.any (Item.holdsSlot owner) = true := by
      intro c _ occupied
      obtain ⟨later, ceiling, found, owned, _, held⟩ := occupies_iff.mp occupied
      have slot : later.slot = true := by
        rcases held with slot | claims
        · exact slot
        · rcases before found with ⟨_, rfl⟩ | ⟨_, old⟩
          · rfl
          · exact careful i caller item owner max is present known pc limit (by simp [admits]) c later
              old (by simp [owned]) (calm.claims c claims)
      simp [found, Item.holdsSlot, slot, owned]
    calc (List.range next.items.length).countP (next.occupies owner bound)
        ≤ (List.range next.items.length).countP fun c => next.items[c]?.any (Item.holdsSlot owner) :=
          List.countP_mono_left slotted
      _ = countOf next.counts owner := by rw [countP_range_getElem?, slots.counted]
      _ ≤ bound := by
          rw [counts, if_pos rfl]
          omega
  · have fewer : ∀ c ∈ List.range s.items.length, next.occupies owner bound c = true →
        s.occupies owner bound c = true := by
      intro c _ occupied
      obtain ⟨later, ceiling, found, owned, small, held⟩ := occupies_iff.mp occupied
      rcases before found with ⟨_, rfl⟩ | ⟨_, old⟩
      · rw [limit] at owned
        simp only [Option.some.injEq, Prod.mk.injEq] at owned
        exact absurd ⟨owned.1.symm, owned.2 ▸ small⟩ counted
      · exact occupies_iff.mpr ⟨later, ceiling, old, owned, small, held.imp_right (calm.claims c)⟩
    rw [items, List.length_set]
    exact (List.countP_mono_left fewer).trans (wf.capped owner bound)

theorem CapWf.capped_step (wf : CapWf s) (unshared : cfg.shared = false)
    (careful : SlotsKept s action) (move : Move cfg s next action) (key : String) (bound : Nat) :
    (List.range next.items.length).countP (next.occupies key bound) ≤ bound := by
  rcases move.shrinks_or with shrinks | ⟨guard, limit, items, quiet⟩ |
    ⟨i, caller, item, owner, max, event, is, present, known, pc, limit, granted, items, calm⟩
  · rw [shrinks.length]
    refine (List.countP_mono_left ?_).trans (wf.capped key bound)
    exact fun c _ occupied => wf.occupies_step move shrinks occupied
  · have old : ∀ c, next.occupies key bound c = true → s.occupies key bound c = true := by
      intro c occupied
      obtain ⟨later, ceiling, found, owned, small, held⟩ := occupies_iff.mp occupied
      rw [items] at found
      rcases getElem?_of_snoc found with old | ⟨last, rfl⟩
      · exact occupies_iff.mpr ⟨later, ceiling, old, owned, small, held.imp_right (quiet.claims c)⟩
      · rcases held with slot | claims
        · simp [Item.new] at slot
        · obtain ⟨item, known⟩ := wf.known c (quiet.claims c claims)
          have inside := (List.getElem?_eq_some_iff.mp known).1
          omega
    have fresh : s.occupies key bound s.items.length = false := by
      simp [DispatcherState.occupies]
    rw [items, List.length_append, List.length_singleton, List.range_succ, List.countP_append]
    refine (Nat.add_le_add (List.countP_mono_left fun c _ => old c)
      (List.countP_mono_left fun c _ => old c)).trans ?_
    rw [List.countP_singleton, fresh]
    simpa using wf.capped key bound
  · rcases granted with ⟨rfl, _, admits⟩ | ⟨shared, _⟩
    · exact wf.capped_admit (wf.slots.step wf.owned move) careful is present known pc limit admits
        items calm key bound
    · simp [unshared] at shared

theorem CapWf.step (wf : CapWf s) (unshared : cfg.shared = false) (careful : SlotsKept s action)
    (taken : dispatcherStep cfg s action = some next) : CapWf next := by
  have move := dispatcherStep_move taken
  constructor
  · exact wf.owned.step move
  · exact wf.slots.step wf.owned move
  · exact wf.known_step move
  · exact wf.capped_step unshared careful move

end Step

section Runs

variable {cfg : DispatcherConfig T} {now : Nat} {actions : List (DispatcherAction T)}
  {s : DispatcherState T} {key : String} {c : Nat}

theorem CapWf.of_path (unshared : cfg.shared = false)
    (path : Path (dispatcherStep cfg) SlotsKept (DispatcherState.new cfg now) actions s) :
    CapWf s := by
  refine path.invariant ?_ fun _ _ _ wf careful taken => wf.step unshared careful taken
  refine ⟨Owned.initial cfg now, SlotsCounted.initial cfg now, ?_, ?_⟩
  · rintro c ⟨jobId, entry, found, _⟩
    simp [DispatcherState.new] at found
  · intro key bound
    simp [DispatcherState.new]

theorem unended_iff : s.unended key c = true ↔
    ∃ item max, s.items[c]? = some item ∧ item.limit = some (key, max) ∧
      (item.slot = true ∨ item.work = .live ∨ item.work = .running ∨ s.Claims c) := by
  simp only [DispatcherState.unended, Option.any_eq_true, Bool.and_eq_true, decide_eq_true_eq,
    Bool.or_eq_true, DispatcherState.claimed_iff, or_assoc]
  constructor
  · rintro ⟨item, known, ⟨⟨owner, max⟩, limit, rfl⟩, busy⟩
    exact ⟨item, max, known, limit, busy⟩
  · rintro ⟨item, max, known, limit, busy⟩
    exact ⟨item, known, ⟨(key, max), limit, rfl⟩, busy⟩

def DispatcherState.ceilingOf (s : DispatcherState T) (c : Nat) : Nat :=
  ((s.items[c]?.bind Item.limit).map (·.2)).getD 0

theorem CapWf.occupies_of_unended (wf : CapWf s) (active : s.unended key c = true) {bound : Nat}
    (small : s.ceilingOf c ≤ bound) : s.occupies key bound c = true := by
  obtain ⟨item, max, known, limit, busy⟩ := unended_iff.mp active
  have ceiling : s.ceilingOf c = max := by simp [DispatcherState.ceilingOf, known, limit]
  refine occupies_iff.mpr ⟨item, max, known, limit, ceiling ▸ small, ?_⟩
  have limited : item.limit.isSome = true := by simp [limit]
  rcases busy with slot | live | running | claims
  · exact Or.inl slot
  · exact Or.inl (wf.slots.working c item known (Or.inl live) limited)
  · exact Or.inl (wf.slots.working c item known (Or.inr running) limited)
  · exact Or.inr claims

/-- When no admission overlooks a job that a remote worker has, the queued and running jobs of
a user are at most as many as the largest of the ceilings they were admitted under. -/
theorem user_cap_of_slots_kept (unshared : cfg.shared = false)
    (path : Path (dispatcherStep cfg) SlotsKept (DispatcherState.new cfg now) actions s)
    (active : s.unended key c = true) :
    ∃ largest item max, s.unended key largest = true ∧ s.items[largest]? = some item ∧
      item.limit = some (key, max) ∧
      (List.range s.items.length).countP (s.unended key) ≤ max := by
  have wf := CapWf.of_path unshared path
  have inside : ∀ {d : Nat}, s.unended key d = true → d < s.items.length := by
    intro d holds
    obtain ⟨_, _, known, _⟩ := unended_iff.mp holds
    exact (List.getElem?_eq_some_iff.mp known).1
  have nonempty : ((List.range s.items.length).filter (s.unended key)).toFinset.Nonempty :=
    ⟨c, by simp [active, inside active]⟩
  obtain ⟨largest, member, upper⟩ := Finset.exists_max_image _ s.ceilingOf nonempty
  simp only [List.mem_toFinset, List.mem_filter, List.mem_range] at member upper
  obtain ⟨item, max, known, limit, _⟩ := unended_iff.mp member.2
  have ceiling : s.ceilingOf largest = max := by simp [DispatcherState.ceilingOf, known, limit]
  refine ⟨largest, item, max, member.2, known, limit, ?_⟩
  refine (List.countP_mono_left ?_).trans (wf.capped key max)
  intro d _ holds
  exact wf.occupies_of_unended holds (ceiling ▸ upper d ⟨inside holds, holds⟩)

end Runs

/-- The item holds a slot that it got under a ceiling within the bound. -/
def Item.holdsWithin (key : String) (bound : Nat) (item : Item T) : Bool :=
  item.slot && item.limit.any fun limit => decide (limit.1 = key) && decide (limit.2 ≤ bound)

structure SlotsCapped (s : DispatcherState T) : Prop where
  owned : Owned s
  slots : SlotsCounted s
  capped (key : String) (bound : Nat) : s.items.countP (Item.holdsWithin key bound) ≤ bound

section Slots

variable {cfg : DispatcherConfig T} {s next : DispatcherState T} {action : DispatcherAction T}

theorem Shrinks.holdsWithin_le (shrinks : Shrinks s next) (key : String) (bound : Nat) :
    next.items.countP (Item.holdsWithin key bound) ≤
      s.items.countP (Item.holdsWithin key bound) := by
  rw [← countP_range_getElem? _ next.items, ← countP_range_getElem? _ s.items, shrinks.length]
  refine List.countP_mono_left ?_
  intro c _ holds
  simp only [Option.any_eq_true, Item.holdsWithin, Bool.and_eq_true] at holds ⊢
  obtain ⟨later, present, slot, within⟩ := holds
  obtain ⟨item, known, limit, fewer⟩ := shrinks.items c later present
  exact ⟨item, known, fewer slot, limit ▸ within⟩

/-- An admission leaves room for itself below every bound that its ceiling is within. -/
theorem SlotsCapped.capped_admit (wf : SlotsCapped s) {i max : Nat} {item : Item T} {key : String}
    (known : s.items[i]? = some item) (limit : item.limit = some (key, max))
    (admits : tryAdmitLocal s.counts key max = some next.counts)
    (items : next.items = s.items.set i { item with slot := true }) (owner : String) (bound : Nat) :
    next.items.countP (Item.holdsWithin owner bound) ≤ bound := by
  obtain ⟨room, _⟩ := tryAdmitLocal_spec admits
  have counted := countP_set_add (p := Item.holdsWithin owner bound) known { item with slot := true }
  rw [items]
  by_cases within : owner = key ∧ max ≤ bound
  · obtain ⟨rfl, small⟩ := within
    have fewer : s.items.countP (Item.holdsWithin owner bound) ≤
        s.items.countP (Item.holdsSlot owner) := by
      refine List.countP_mono_left ?_
      intro other _ holds
      simp only [Item.holdsWithin, Item.holdsSlot, Bool.and_eq_true, Option.any_eq_true] at holds ⊢
      obtain ⟨slot, limit, isLimit, named, _⟩ := holds
      exact ⟨slot, limit, isLimit, named⟩
    rw [wf.slots.counted] at fewer
    have one : (Item.holdsWithin owner bound { item with slot := true }).toNat ≤ 1 :=
      Bool.toNat_le _
    omega
  · have outside : Item.holdsWithin owner bound { item with slot := true } = false := by
      simp only [Item.holdsWithin, limit, Option.any_some, Bool.true_and, Bool.and_eq_false_iff,
        decide_eq_false_iff_not]
      by_contra inside
      push Not at inside
      exact within ⟨inside.1.symm, inside.2⟩
    have before := wf.capped owner bound
    simp only [outside, Bool.toNat_false] at counted
    omega

theorem SlotsCapped.step (wf : SlotsCapped s) (unshared : cfg.shared = false)
    (taken : dispatcherStep cfg s action = some next) : SlotsCapped next := by
  have move := dispatcherStep_move taken
  refine ⟨wf.owned.step move, wf.slots.step wf.owned move, ?_⟩
  intro key bound
  rcases move.shrinks_or with shrinks | ⟨guard, limit, items, _⟩ |
    ⟨i, caller, item, owner, max, event, _, _, known, _, limit, granted, items, _⟩
  · exact (shrinks.holdsWithin_le key bound).trans (wf.capped key bound)
  · rw [items, List.countP_append]
    simpa [Item.new, Item.holdsWithin] using wf.capped key bound
  · rcases granted with ⟨_, _, admits⟩ | ⟨shared, _⟩
    · exact wf.capped_admit known limit admits items key bound
    · simp [unshared] at shared

theorem SlotsCapped.of_path {now : Nat} {actions : List (DispatcherAction T)}
    (unshared : cfg.shared = false)
    (path : Path (dispatcherStep cfg) Always (DispatcherState.new cfg now) actions s) :
    SlotsCapped s := by
  refine path.invariant ?_ fun _ _ _ wf _ taken => wf.step unshared taken
  refine ⟨Owned.initial cfg now, SlotsCounted.initial cfg now, ?_⟩
  simp [DispatcherState.new]

end Slots

def slotsKept (s : DispatcherState T) : DispatcherAction T → Bool
  | .call i .step => s.callers[i]?.all fun caller => match caller.pc with
      | .begun => s.items[i]?.all fun item => match item.limit with
          | some (key, max) => (tryAdmitLocal s.counts key max).isNone ||
              (List.range s.items.length).all fun c => s.items[c]?.all fun other =>
                !other.limit.any (fun limit => decide (limit.1 = key)) || !s.claimed c || other.slot
          | none => true
      | _ => true
  | _ => true

theorem slotsKept_sound (s : DispatcherState T) (action : DispatcherAction T)
    (checked : slotsKept s action = true) : SlotsKept s action := by
  rintro i caller item key max rfl present known pc limit admits c other found keyed claims
  have bound := (List.getElem?_eq_some_iff.mp found).1
  obtain ⟨counts, taken⟩ := Option.isSome_iff_exists.mp admits
  simp only [slotsKept, present, Option.all_some, pc, known, limit, taken, Option.isNone_some,
    Bool.false_or, List.all_eq_true, List.mem_range] at checked
  have kept := checked c bound
  rw [found, Option.all_some, keyed, (s.claimed_iff c).mpr claims] at kept
  simpa using kept

namespace Scenario

def remotePool : DispatcherConfig String where
  capacity := 4
  executor := .remotePool 60 fun _ => "done"
  userLimit := some ⟨some 1, ∅⟩
  shared := false

def accountKey : String := "realm\x1fuser"

/-- A worker polls and takes the queued job; the handler returns. -/
def handOver (i : Nat) : List (DispatcherAction String) :=
  [.getWork, .handler i (.dequeue 0)] ++ List.replicate 7 (.handler i .step)

def claimFirst : List (DispatcherAction String) :=
  [.submit (userJob "first"), .submit (userJob "second"), .dispatch 0 .none] ++ queueUp 0 ++
    handOver 0

def admitSecond : List (DispatcherAction String) := [.dispatch 1 .none] ++ queueUp 1

def twoUnended (s : DispatcherState String) : Bool :=
  decide ((List.range s.items.length).countP (s.unended accountKey) = 2) &&
    s.items.all fun item => decide (item.limit = some (accountKey, 1))

end Scenario

open Scenario in
theorem user_cap_of_slots_kept_completed :
    ∃ s, Path (dispatcherStep remotePool) SlotsKept (DispatcherState.new remotePool 0)
        (claimFirst ++ [.complete "first" (.reject "busy")] ++ admitSecond) s ∧
      s.unended accountKey 1 = true ∧
      ∃ largest item max, s.unended accountKey largest = true ∧ s.items[largest]? = some item ∧
        item.limit = some (accountKey, max) ∧
        (List.range s.items.length).countP (s.unended accountKey) ≤ max := by
  have ran : (run (fun s action => if slotsKept s action then dispatcherStep remotePool s action
      else none) (DispatcherState.new remotePool 0)
      (claimFirst ++ [.complete "first" (.reject "busy")] ++ admitSecond)).any
      (fun s => s.unended accountKey 1) = true := by decide +kernel
  obtain ⟨s, finished, active⟩ := (Option.any_eq_true _ _).mp ran
  have path := Path.of_run_if slotsKept_sound _ _ finished
  exact ⟨s, path, active, user_cap_of_slots_kept rfl path active⟩

open Scenario in
theorem claimed_job_not_counted :
    ∃ s, run (dispatcherStep remotePool) (DispatcherState.new remotePool 0)
        (claimFirst ++ admitSecond) = some s ∧
      (List.range s.items.length).countP (s.unended accountKey) = 2 ∧
      ∀ item ∈ s.items, item.limit = some (accountKey, 1) := by
  have ran : (run (dispatcherStep remotePool) (DispatcherState.new remotePool 0)
      (claimFirst ++ admitSecond)).any twoUnended = true := by decide +kernel
  obtain ⟨s, finished, checked⟩ := (Option.any_eq_true _ _).mp ran
  simp only [twoUnended, Bool.and_eq_true, decide_eq_true_eq, List.all_eq_true] at checked
  exact ⟨s, finished, checked.1, checked.2⟩

end BitsBroker
