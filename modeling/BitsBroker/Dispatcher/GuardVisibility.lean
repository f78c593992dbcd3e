import BitsBroker.Dispatcher.UserLimit

/-!
Guards and store entries. A release names its entry by scope, user and job only, and it
runs some time after the guard that spawned it is gone; it removes whatever entry is
there by then. A guard is therefore backed by an entry as long as no other guard for the
same job under the same scope and user was alive, and no release for it outstanding,
when the guard was created.
-/

namespace BitsBroker

open Transition Table

/-- The store does not fail, and a guard is created only while no other guard and no
outstanding release name the same entry. -/
structure Exclusive (limiters : Nat → UserLimiter) (s : LimiterState) (action : LimiterAction) :
    Prop where
  errorFree (i : Nat) : action ≠ .event i .storeError
  alone (i : Nat) (call : Admit) : action = .event i .step → s.calls[i]? = some call →
    call.pc = .begun → takesGuard s call = true →
    call.slot limiters ∉ s.releases ∧
      ∀ (j : Nat) other, s.calls[j]? = some other → other.pc.guarded = true →
        other.slot limiters ≠ call.slot limiters

def MemoryStore.holds (store : MemoryStore) (slot : SlotRelease) : Prop :=
  ∃ entry, store.slotOf slot.scope slot.user slot.jobId = some entry

structure GuardWf (limiters : Nat → UserLimiter) (s : LimiterState) : Prop where
  alone (i j : Nat) (left right : Admit) : s.calls[i]? = some left → s.calls[j]? = some right →
    left.pc.guarded = true → right.pc.guarded = true →
    left.slot limiters = right.slot limiters → i = j
  unreleased (i : Nat) (call : Admit) : s.calls[i]? = some call → call.pc.guarded = true →
    call.slot limiters ∉ s.releases
  entered (i : Nat) (call : Admit) : s.calls[i]? = some call → call.pc.guarded = true →
    call.pc ≠ .reserving → s.store.holds (call.slot limiters)

section Step

variable {limiters : Nat → UserLimiter} {s next : LimiterState} {call later : Admit}
  {event : AdmitEvent} {store : MemoryStore} {releases : List SlotRelease}

theorem callMove_slot (move : CallMove limiters s call event later store releases) :
    later.slot limiters = call.slot limiters := by
  cases move <;> rfl

theorem callMove_guarded (move : CallMove limiters s call event later store releases)
    (errorFree : event ≠ .storeError) (guarded : later.pc.guarded = true) :
    call.pc.guarded = true ∨
      call.pc = .begun ∧ takesGuard s call = true ∧ event = .step := by
  cases move with
  | denied _ _ | outranked _ _ _ | oversynced _ | cancelled _ | guardDropped _ =>
      simp [AdmitPc.guarded] at guarded
  | reserved from_ =>
      rcases from_ with ⟨pc, positive, isStrict, _⟩ | ⟨pc, _⟩
      · exact Or.inr ⟨pc, by simp [takesGuard, positive, isStrict], rfl⟩
      · exact Or.inl (by rw [pc]; rfl)
  | gated pc _ takes => exact Or.inr ⟨pc, takes, rfl⟩
  | listed pc | synced pc => exact Or.inl (by rw [pc]; rfl)
  | ranked pc _ _ => exact Or.inl (by rw [pc]; rfl)
  | failedOpen => exact absurd rfl errorFree

theorem callMove_releases (move : CallMove limiters s call event later store releases) :
    releases = s.releases ∨
      releases = s.releases ++ [call.slot limiters] ∧ call.pc.guarded = true ∧
        later.pc.guarded = false := by
  cases move with
  | outranked pc _ _ | oversynced pc => exact Or.inr ⟨rfl, by rw [pc]; rfl, rfl⟩
  | guardDropped guarded => exact Or.inr ⟨rfl, guarded, rfl⟩
  | _ => exact Or.inl rfl

theorem callMove_holds (move : CallMove limiters s call event later store releases)
    {slot : SlotRelease} (held : s.store.holds slot) : store.holds slot := by
  cases move with
  | reserved _ =>
      by_cases same : slot = call.slot limiters
      · subst same
        obtain ⟨entry, present, _⟩ := MemoryStore.slotOf_reserveUserSlot_self s.store
          (limiters call.limiter).scope call.user call.jobId (limiters call.limiter).brokerId s.now
        exact ⟨entry, present⟩
      · obtain ⟨entry, present⟩ := held
        refine ⟨entry, ?_⟩
        rw [MemoryStore.slotOf_reserveUserSlot]
        · exact present
        · rintro ⟨sameScope, sameUser, sameJob⟩
          apply same
          cases slot
          simp_all [Admit.slot]
  | _ => exact held

theorem callMove_entered (move : CallMove limiters s call event later store releases)
    (errorFree : event ≠ .storeError) (guarded : later.pc.guarded = true)
    (reserved : later.pc ≠ .reserving)
    (entered : call.pc.guarded = true → call.pc ≠ .reserving →
      s.store.holds (call.slot limiters)) : store.holds (call.slot limiters) := by
  cases move with
  | denied _ _ | outranked _ _ _ | oversynced _ | cancelled _ | guardDropped _ =>
      simp [AdmitPc.guarded] at guarded
  | reserved _ =>
      obtain ⟨entry, present, _⟩ := MemoryStore.slotOf_reserveUserSlot_self s.store
        (limiters call.limiter).scope call.user call.jobId (limiters call.limiter).brokerId s.now
      exact ⟨entry, present⟩
  | gated _ _ _ => exact absurd rfl reserved
  | listed pc | synced pc => exact entered (by rw [pc]; rfl) (by simp [pc])
  | ranked pc _ _ => exact entered (by rw [pc]; rfl) (by simp [pc])
  | failedOpen => exact absurd rfl errorFree

theorem holds_release {released slot : SlotRelease} (held : s.store.holds slot)
    (other : slot ≠ released) :
    (s.store.releaseUserSlot released.scope released.user released.jobId).holds slot := by
  obtain ⟨entry, present⟩ := held
  refine ⟨entry, ?_⟩
  rw [MemoryStore.slotOf_releaseUserSlot, if_neg]
  · exact present
  · rintro ⟨sameScope, sameUser, sameJob⟩
    apply other
    cases slot
    simp_all

variable {action : LimiterAction}

theorem GuardWf.alone_step (wf : GuardWf limiters s) (exclusive : Exclusive limiters s action)
    (move : LimiterMove limiters s next action) (i j : Nat) (left right : Admit)
    (leftIn : next.calls[i]? = some left) (rightIn : next.calls[j]? = some right)
    (leftHolds : left.pc.guarded = true) (rightHolds : right.pc.guarded = true)
    (same : left.slot limiters = right.slot limiters) : i = j := by
  cases move with
  | advanced eq | released _ eq =>
      subst eq
      exact wf.alone i j left right leftIn rightIn leftHolds rightHolds same
  | begun eq =>
      subst eq
      rcases getElem?_of_snoc leftIn with leftOld | ⟨_, rfl⟩
      · rcases getElem?_of_snoc rightIn with rightOld | ⟨_, rfl⟩
        · exact wf.alone i j left right leftOld rightOld leftHolds rightHolds same
        · simp [AdmitPc.guarded] at rightHolds
      · simp [AdmitPc.guarded] at leftHolds
  | @called k event call later _ _ known move calls _ _ =>
      have quiet : event ≠ .storeError := fun is => exclusive.errorFree k (by rw [is])
      have clash : ∀ {l other}, l ≠ k → s.calls[l]? = some other → other.pc.guarded = true →
          later.pc.guarded = true → other.slot limiters ≠ later.slot limiters := by
        intro l other elsewhere found holds held sameSlot
        rw [callMove_slot move] at sameSlot
        rcases callMove_guarded move quiet held with already | ⟨begun, takes, is⟩
        · exact elsewhere (wf.alone l k other call found known holds already sameSlot)
        · exact (exclusive.alone k call (by rw [is]) known begun takes).2 l other found holds sameSlot
      rw [calls] at leftIn rightIn
      rcases getElem?_of_set leftIn with ⟨rfl, rfl⟩ | ⟨leftElse, leftOld⟩
      · rcases getElem?_of_set rightIn with ⟨rfl, _⟩ | ⟨rightElse, rightOld⟩
        · rfl
        · exact absurd same.symm (clash rightElse rightOld rightHolds leftHolds)
      · rcases getElem?_of_set rightIn with ⟨rfl, rfl⟩ | ⟨_, rightOld⟩
        · exact absurd same (clash leftElse leftOld leftHolds rightHolds)
        · exact wf.alone i j left right leftOld rightOld leftHolds rightHolds same

theorem GuardWf.unreleased_step (wf : GuardWf limiters s)
    (exclusive : Exclusive limiters s action) (move : LimiterMove limiters s next action)
    (i : Nat) (call : Admit) (present : next.calls[i]? = some call)
    (holds : call.pc.guarded = true) : call.slot limiters ∉ next.releases := by
  cases move with
  | advanced eq =>
      subst eq
      exact wf.unreleased i call present holds
  | begun eq =>
      subst eq
      rcases getElem?_of_snoc present with old | ⟨_, rfl⟩
      · exact wf.unreleased i call old holds
      · simp [AdmitPc.guarded] at holds
  | released _ eq =>
      subst eq
      exact fun pending => wf.unreleased i call present holds (List.mem_of_mem_eraseIdx pending)
  | @called k event before later _ _ known move calls _ sameReleases =>
      have quiet : event ≠ .storeError := fun is => exclusive.errorFree k (by rw [is])
      rw [calls] at present
      rw [sameReleases]
      rcases getElem?_of_set present with ⟨rfl, rfl⟩ | ⟨elsewhere, old⟩
      · rw [callMove_slot move]
        have kept := callMove_releases move
        rcases kept with kept | ⟨_, _, gone⟩
        · rw [kept]
          rcases callMove_guarded move quiet holds with already | ⟨begun, takes, is⟩
          · exact wf.unreleased i before known already
          · exact (exclusive.alone i before (by rw [is]) known begun takes).1
        · simp [gone] at holds
      · rcases callMove_releases move with kept | ⟨added, guarded, _⟩
        · rw [kept]
          exact wf.unreleased i call old holds
        · rw [added, List.mem_append, List.mem_singleton, not_or]
          refine ⟨wf.unreleased i call old holds, ?_⟩
          intro same
          exact elsewhere (wf.alone i k call before old known holds guarded same)

theorem GuardWf.entered_step (wf : GuardWf limiters s) (exclusive : Exclusive limiters s action)
    (move : LimiterMove limiters s next action) (i : Nat) (call : Admit)
    (present : next.calls[i]? = some call) (holds : call.pc.guarded = true)
    (reserved : call.pc ≠ .reserving) : next.store.holds (call.slot limiters) := by
  cases move with
  | advanced eq =>
      subst eq
      exact wf.entered i call present holds reserved
  | begun eq =>
      subst eq
      rcases getElem?_of_snoc present with old | ⟨_, rfl⟩
      · exact wf.entered i call old holds reserved
      · simp [AdmitPc.guarded] at holds
  | released pending eq =>
      subst eq
      refine holds_release (wf.entered i call present holds reserved) ?_
      intro same
      exact wf.unreleased i call present holds (same ▸ List.mem_of_getElem? pending)
  | @called k event before later _ _ known move calls sameStore _ =>
      have quiet : event ≠ .storeError := fun is => exclusive.errorFree k (by rw [is])
      rw [calls] at present
      rw [sameStore]
      rcases getElem?_of_set present with ⟨rfl, rfl⟩ | ⟨_, old⟩
      · rw [callMove_slot move]
        exact callMove_entered move quiet holds reserved (wf.entered i before known)
      · exact callMove_holds move (wf.entered i call old holds reserved)

theorem GuardWf.step (wf : GuardWf limiters s) (exclusive : Exclusive limiters s action)
    (taken : limiterStep limiters s action = some next) : GuardWf limiters next := by
  have move := limiterStep_move taken
  constructor
  · exact wf.alone_step exclusive move
  · exact wf.unreleased_step exclusive move
  · exact wf.entered_step exclusive move

end Step

theorem GuardWf.initial (limiters : Nat → UserLimiter) (now : Nat) :
    GuardWf limiters (LimiterState.new now) := by
  constructor
  · intro i j left right present
    simp [LimiterState.new] at present
  · intro i call present
    simp [LimiterState.new] at present
  · intro i call present
    simp [LimiterState.new] at present

/-- When every guard is created exclusively, each guard that was returned and is still alive
has its entry in the store. -/
theorem admitted_guard_visible {limiters : Nat → UserLimiter} {now : Nat}
    {actions : List LimiterAction} {s : LimiterState}
    (path : Path (limiterStep limiters) (Exclusive limiters) (LimiterState.new now) actions s)
    {i : Nat} {call : Admit} (present : s.calls[i]? = some call) (admitted : call.pc = .admitted) :
    ∃ entry, s.store.slotOf (limiters call.limiter).scope call.user call.jobId = some entry := by
  have wf : GuardWf limiters s := path.invariant (GuardWf.initial limiters now)
    fun _ _ _ before exclusive taken => before.step exclusive taken
  exact wf.entered i call present (by rw [admitted]; rfl) (by simp [admitted])

def exclusive (limiters : Nat → UserLimiter) (s : LimiterState) : LimiterAction → Bool
  | .event _ .storeError => false
  | .event i .step => s.calls[i]?.all fun call =>
      decide (call.pc ≠ .begun) || !takesGuard s call ||
        (decide (call.slot limiters ∉ s.releases) && s.calls.all fun other =>
          !other.pc.guarded || decide (other.slot limiters ≠ call.slot limiters))
  | _ => true

theorem exclusive_sound (limiters : Nat → UserLimiter) (s : LimiterState) (action : LimiterAction)
    (checked : exclusive limiters s action = true) : Exclusive limiters s action := by
  constructor
  · rintro i rfl
    simp [exclusive] at checked
  · rintro i call rfl present begun takes
    simp only [exclusive, present, Option.all_some, begun, ne_eq, not_true_eq_false, decide_false,
      takes, Bool.not_true, Bool.or_false, Bool.false_or, Bool.and_eq_true, decide_eq_true_eq,
      List.all_eq_true, Bool.or_eq_true, Bool.not_eq_true'] at checked
    refine ⟨checked.1, ?_⟩
    intro j other found guarded
    rcases checked.2 other (List.mem_of_getElem? found) with free | different
    · simp [free] at guarded
    · exact different

namespace Scenario

def replicas (i : Nat) : UserLimiter := ⟨"pool", s!"broker-{i}"⟩

def admitOnce (call : Nat) : List LimiterAction :=
  [.request 0 "user" "job" 1, .event call .step, .event call .step, .event call .step]

def admitTwice : List LimiterAction :=
  admitOnce 0 ++ [.event 0 .drop] ++ admitOnce 1 ++ [.release 0]

def guardWithoutEntry (s : LimiterState) : Bool :=
  s.calls[1]?.any fun call => decide (call.pc = .admitted) && decide (call.user = "user") &&
    decide (call.jobId = "job") && (s.store.slotOf "pool" "user" "job").isNone

end Scenario

open Scenario in
theorem admitted_guard_visible_after_release :
    ∃ s call, Path (limiterStep replicas) (Exclusive replicas) (LimiterState.new 0)
        (admitOnce 0 ++ [.event 0 .drop, .release 0] ++ admitOnce 1) s ∧
      s.calls[1]? = some call ∧ call.pc = .admitted ∧
      ∃ entry, s.store.slotOf (replicas call.limiter).scope call.user call.jobId = some entry := by
  have ran : (run (fun s action => if exclusive replicas s action then limiterStep replicas s action
      else none) (LimiterState.new 0)
      (admitOnce 0 ++ [.event 0 .drop, .release 0] ++ admitOnce 1)).any
      (fun s => s.calls[1]?.any fun call => decide (call.pc = .admitted)) = true := by
    decide +kernel
  obtain ⟨s, finished, checked⟩ := (Option.any_eq_true _ _).mp ran
  obtain ⟨call, present, admitted⟩ := (Option.any_eq_true _ _).mp checked
  have admitted : call.pc = .admitted := by simpa using admitted
  have path := Path.of_run_if (exclusive_sound replicas) _ _ finished
  exact ⟨s, call, path, present, admitted, admitted_guard_visible path present admitted⟩

open Scenario in
theorem readmitted_guard_loses_entry :
    ∃ s call, run (limiterStep replicas) (LimiterState.new 0) admitTwice = some s ∧
      s.calls[1]? = some call ∧ call.pc = .admitted ∧ call.user = "user" ∧ call.jobId = "job" ∧
      s.store.slotOf "pool" "user" "job" = none := by
  have ran : (run (limiterStep replicas) (LimiterState.new 0) admitTwice).any guardWithoutEntry =
      true := by decide +kernel
  obtain ⟨s, finished, checked⟩ := (Option.any_eq_true _ _).mp ran
  obtain ⟨call, present, checked⟩ := (Option.any_eq_true _ _).mp checked
  simp only [Bool.and_eq_true, decide_eq_true_eq, Option.isNone_iff_eq_none] at checked
  obtain ⟨⟨⟨admitted, user⟩, job⟩, gone⟩ := checked
  exact ⟨s, call, finished, present, admitted, user, job, gone⟩

end BitsBroker
