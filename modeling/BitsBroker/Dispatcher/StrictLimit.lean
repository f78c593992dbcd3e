import BitsBroker.Dispatcher.GuardVisibility

/-!
The strict limit across replicas. Every admission decides alone, from a listing taken
after its own reservation. Reservations are numbered in the order they are made and an
entry stays in the store as long as its guard lives, so the listing of an admission
holds every live guard with a smaller number: its rank bounds the number of guards below
it, then and from then on. If no guard is dropped, the admissions with a rank below the
ceiling are never rejected, so they all stay in the store and the rank in any listing
decides as the rank among all reservations does.
-/

namespace BitsBroker

open Transition Table Counting

/-- Job identifiers are fresh, ceilings are those of the strict mode, the store does not
fail. -/
def StrictFresh (limiters : Nat → UserLimiter) (s : LimiterState) : LimiterAction → Prop
  | .request limiter user jobId max => 1 ≤ max ∧ max ≤ strictMaxThreshold ∧
      ∀ call ∈ s.calls, call.slot limiters ≠ ⟨(limiters limiter).scope, user, jobId⟩
  | .event _ .storeError => False
  | _ => True

def SlotRelease.entryIn (slot : SlotRelease) (store : MemoryStore) : Option UserLimitEntry :=
  store.slotOf slot.scope slot.user slot.jobId

def Admit.Shaped (call : Admit) : Prop :=
  1 ≤ call.max ∧ strict call.max = true ∧ match call.pc with
    | .begun => call.seq = none
    | .list | .rank _ | .admitted => ∃ n, call.seq = some n
    | .rejected | .dropped => True
    | .reserving | .count => False

structure StrictWf (limiters : Nat → UserLimiter) (s : LimiterState) : Prop where
  guards : GuardWf limiters s
  named : s.store.SlotsWf
  distinct (i j : Nat) (left right : Admit) : s.calls[i]? = some left →
    s.calls[j]? = some right → left.slot limiters = right.slot limiters → i = j
  pending (slot : SlotRelease) : slot ∈ s.releases → ∃ (i : Nat) (call : Admit),
    s.calls[i]? = some call ∧ call.slot limiters = slot ∧ call.pc ≠ .begun
  bounded (i : Nat) (call : Admit) (n : Nat) : s.calls[i]? = some call → call.seq = some n →
    n ≤ s.store.userSeq
  apart (i j : Nat) (left right : Admit) (n : Nat) : s.calls[i]? = some left →
    s.calls[j]? = some right → left.seq = some n → right.seq = some n → i = j
  shaped (i : Nat) (call : Admit) : s.calls[i]? = some call → call.Shaped
  sourced (slot : SlotRelease) (entry : UserLimitEntry) : slot.entryIn s.store = some entry →
    ∃ (i : Nat) (call : Admit), s.calls[i]? = some call ∧ call.slot limiters = slot ∧
      call.seq = some entry.seq

inductive StrictMove (limiters : Nat → UserLimiter) (s : LimiterState) (call : Admit) :
    AdmitEvent → Admit → MemoryStore → List SlotRelease → Prop
  | reserved {store : MemoryStore} {entry : UserLimitEntry} : call.pc = .begun →
      entry.jobId = call.jobId → entry.seq = s.store.userSeq + 1 →
      store.userSeq = s.store.userSeq + 1 →
      (∀ slot : SlotRelease, slot.entryIn store =
        if slot = call.slot limiters then some entry else slot.entryIn s.store) →
      StrictMove limiters s call .step
        { call with seq := some (s.store.userSeq + 1), pc := .list } store s.releases
  | listed : call.pc = .list →
      StrictMove limiters s call .step
        { call with
          pc := .rank (s.store.listUserSlots (limiters call.limiter).scope call.user) }
        s.store s.releases
  | ranked {entries : List UserLimitEntry} {seq : Nat} : call.pc = .rank entries →
      call.seq = some seq → slotRank entries seq call.jobId < call.max →
      StrictMove limiters s call .step { call with pc := .admitted } s.store s.releases
  | outranked {entries : List UserLimitEntry} {seq : Nat} : call.pc = .rank entries →
      call.seq = some seq → call.max ≤ slotRank entries seq call.jobId →
      StrictMove limiters s call .step { call with pc := .rejected } s.store
        (s.releases ++ [call.slot limiters])
  | cancelled : call.pc = .begun →
      StrictMove limiters s call .drop { call with pc := .dropped } s.store s.releases
  | guardDropped : call.pc.guarded = true →
      StrictMove limiters s call .drop { call with pc := .dropped } s.store
        (s.releases ++ [call.slot limiters])

section Step

variable {limiters : Nat → UserLimiter} {s next : LimiterState} {action : LimiterAction}
  {i : Nat} {call later : Admit} {event : AdmitEvent} {store : MemoryStore}
  {releases : List SlotRelease}

theorem StrictWf.unreserved (wf : StrictWf limiters s) (present : s.calls[i]? = some call)
    (begun : call.pc = .begun) : (call.slot limiters).entryIn s.store = none := by
  cases held : (call.slot limiters).entryIn s.store with
  | none => rfl
  | some entry =>
      obtain ⟨j, other, found, sameSlot, seq⟩ := wf.sourced _ entry held
      have here := wf.distinct j i other call found present sameSlot
      subst here
      rw [present] at found
      simp only [Option.some.injEq] at found
      subst found
      obtain ⟨_, _, shape⟩ := wf.shaped j call present
      rw [begun] at shape
      simp [shape] at seq

theorem entryIn_reserve_fresh {slot : SlotRelease} (absent : slot.entryIn s.store = none)
    (owner : String) (now : Nat) (other : SlotRelease) :
    other.entryIn (s.store.reserveUserSlot slot.scope slot.user slot.jobId owner now).2 =
      if other = slot then some ⟨slot.scope, slot.user, slot.jobId, owner, s.store.userSeq + 1, now⟩
      else other.entryIn s.store := by
  unfold SlotRelease.entryIn at *
  rw [(MemoryStore.reserveUserSlot_fresh absent owner now).2.2]
  by_cases same : other = slot
  · subst same
    simp
  · have different : ¬ (other.scope = slot.scope ∧ other.user = slot.user ∧
        other.jobId = slot.jobId) := by
      rintro ⟨sameScope, sameUser, sameJob⟩
      apply same
      cases other
      cases slot
      simp_all
    rw [if_neg different, if_neg same]

theorem strictMove_of_callMove (wf : StrictWf limiters s) (present : s.calls[i]? = some call)
    (errorFree : event ≠ .storeError)
    (move : CallMove limiters s call event later store releases) :
    StrictMove limiters s call event later store releases := by
  obtain ⟨positive, isStrict, shape⟩ := wf.shaped i call present
  cases move with
  | denied _ excuse =>
      rcases excuse with zero | isLazy
      · omega
      · simp [isLazy] at isStrict
  | reserved from_ =>
      rcases from_ with ⟨begun, _, _, rfl⟩ | ⟨gated, _⟩
      · have absent := wf.unreserved present begun
        obtain ⟨seq, counter, _⟩ := MemoryStore.reserveUserSlot_fresh absent
          (limiters call.limiter).brokerId s.now
        have entries := entryIn_reserve_fresh absent (limiters call.limiter).brokerId s.now
        simp only [Admit.slot] at seq counter entries
        rw [seq]
        exact .reserved begun rfl rfl counter entries
      · simp [gated] at shape
  | gated _ isLazy _ => simp [isLazy] at isStrict
  | listed pc => exact .listed pc
  | ranked pc seq below => exact .ranked pc seq below
  | outranked pc seq above => exact .outranked pc seq above
  | synced pc | oversynced pc => simp [pc] at shape
  | failedOpen => exact absurd rfl errorFree
  | cancelled pc => exact .cancelled pc
  | guardDropped guarded => exact .guardDropped guarded

theorem StrictWf.exclusive (wf : StrictWf limiters s) (fresh : StrictFresh limiters s action) :
    Exclusive limiters s action := by
  constructor
  · rintro i rfl
    exact fresh
  · rintro i call rfl present begun _
    constructor
    · intro released
      obtain ⟨j, other, found, sameSlot, notBegun⟩ := wf.pending _ released
      have here := wf.distinct j i other call found present sameSlot
      subst here
      rw [present] at found
      simp only [Option.some.injEq] at found
      subst found
      exact notBegun begun
    · intro j other found guarded sameSlot
      have here := wf.distinct j i other call found present sameSlot
      subst here
      rw [present] at found
      simp only [Option.some.injEq] at found
      subst found
      simp [begun, AdmitPc.guarded] at guarded

/-- A step of the limiters under `StrictFresh`: a call appears, a call moves, a release runs,
or the clock does. -/
inductive StrictStep (limiters : Nat → UserLimiter) (s next : LimiterState) : Prop
  | idle : next.calls = s.calls → next.store = s.store → next.releases = s.releases →
      StrictStep limiters s next
  | begun {call : Admit} : next.calls = s.calls ++ [call] → call.Shaped → call.pc = .begun →
      (∀ other ∈ s.calls, other.slot limiters ≠ call.slot limiters) →
      next.store = s.store → next.releases = s.releases → StrictStep limiters s next
  | called {i : Nat} {event : AdmitEvent} {call later : Admit} : s.calls[i]? = some call →
      StrictMove limiters s call event later next.store next.releases →
      next.calls = s.calls.set i later → StrictStep limiters s next
  | released {slot : SlotRelease} : slot ∈ s.releases → next.calls = s.calls →
      next.store = s.store.releaseUserSlot slot.scope slot.user slot.jobId →
      (∀ other ∈ next.releases, other ∈ s.releases) → StrictStep limiters s next

theorem strictStep_of_step (wf : StrictWf limiters s) (fresh : StrictFresh limiters s action)
    (taken : limiterStep limiters s action = some next) : StrictStep limiters s next := by
  cases limiterStep_move taken with
  | advanced eq =>
      subst eq
      exact .idle rfl rfl rfl
  | @begun limiter user jobId max eq =>
      subst eq
      obtain ⟨positive, small, unused⟩ := fresh
      refine .begun rfl ⟨positive, ?_, rfl⟩ rfl unused rfl rfl
      simpa [strict] using small
  | @called i event call later _ _ present move calls sameStore sameReleases =>
      subst sameStore sameReleases
      have quiet : event ≠ .storeError := by
        rintro rfl
        exact fresh
      exact .called present (strictMove_of_callMove wf present quiet move) calls
  | released pending eq =>
      subst eq
      exact .released (List.mem_of_getElem? pending) rfl rfl fun _ => List.mem_of_mem_eraseIdx

theorem strictMove_slot (move : StrictMove limiters s call event later store releases) :
    later.slot limiters = call.slot limiters := by
  cases move <;> rfl

theorem strictMove_seq (move : StrictMove limiters s call event later store releases) :
    later.seq = call.seq ∧ store.userSeq = s.store.userSeq ∨
      call.pc = .begun ∧ later.seq = some (s.store.userSeq + 1) ∧
        store.userSeq = s.store.userSeq + 1 := by
  cases move with
  | reserved begun _ _ counter _ => exact Or.inr ⟨begun, rfl, counter⟩
  | _ => exact Or.inl ⟨rfl, rfl⟩

theorem strictMove_not_begun (move : StrictMove limiters s call event later store releases) :
    later.pc ≠ .begun := by
  cases move <;> simp

theorem strictMove_shaped (move : StrictMove limiters s call event later store releases)
    (shaped : call.Shaped) : later.Shaped := by
  obtain ⟨positive, isStrict, shape⟩ := shaped
  cases move with
  | reserved _ _ _ _ _ => exact ⟨positive, isStrict, _, rfl⟩
  | listed pc =>
      rw [pc] at shape
      exact ⟨positive, isStrict, shape⟩
  | ranked pc _ _ =>
      rw [pc] at shape
      exact ⟨positive, isStrict, shape⟩
  | _ => exact ⟨positive, isStrict, trivial⟩

theorem strictMove_entryIn (move : StrictMove limiters s call event later store releases)
    {slot : SlotRelease} {entry : UserLimitEntry} (held : slot.entryIn store = some entry) :
    slot.entryIn s.store = some entry ∨ slot = call.slot limiters ∧
      entry.jobId = call.jobId ∧ later.seq = some entry.seq := by
  cases move with
  | reserved _ sameJob seq _ entries =>
      rw [entries] at held
      split at held
      next same =>
        simp only [Option.some.injEq] at held
        subst held
        exact Or.inr ⟨same, sameJob, by rw [seq]⟩
      next => exact Or.inl held
  | _ => exact Or.inl held

theorem entryIn_release {released slot : SlotRelease} {entry : UserLimitEntry}
    (held : slot.entryIn
      (s.store.releaseUserSlot released.scope released.user released.jobId) = some entry) :
    slot.entryIn s.store = some entry := by
  unfold SlotRelease.entryIn at *
  rw [MemoryStore.slotOf_releaseUserSlot] at held
  split at held
  · simp at held
  · exact held

theorem StrictStep.userSeq (step : StrictStep limiters s next) :
    s.store.userSeq ≤ next.store.userSeq := by
  cases step with
  | idle _ same _ | begun _ _ _ _ same _ => rw [same]
  | called _ move _ =>
      rcases strictMove_seq move with ⟨_, same⟩ | ⟨_, _, more⟩
      · rw [same]
      · omega
  | released _ _ same _ => rw [same, MemoryStore.userSeq_releaseUserSlot]

/-- A call after a step: one that was there, with its slot and number, one that has just
reserved, or a new one. -/
theorem StrictStep.call_cases (step : StrictStep limiters s next)
    (present : next.calls[i]? = some later) :
    (∃ call, s.calls[i]? = some call ∧ later.slot limiters = call.slot limiters ∧
      (call.Shaped → later.Shaped) ∧ (call.pc ≠ .begun → later.pc ≠ .begun) ∧
      (later.seq = call.seq ∨ later.seq = some (s.store.userSeq + 1) ∧
        next.store.userSeq = s.store.userSeq + 1 ∧
        ∀ j other, j ≠ i → next.calls[j]? = some other → s.calls[j]? = some other)) ∨
    (i = s.calls.length ∧ later.Shaped ∧ later.pc = .begun ∧
      ∀ other ∈ s.calls, other.slot limiters ≠ later.slot limiters) := by
  have whole : ∀ {j : Nat} {other : Admit}, s.calls[j]? = some other →
      ∃ call, s.calls[j]? = some call ∧ other.slot limiters = call.slot limiters ∧
        (call.Shaped → other.Shaped) ∧ (call.pc ≠ .begun → other.pc ≠ .begun) ∧
        (other.seq = call.seq ∨ other.seq = some (s.store.userSeq + 1) ∧
          next.store.userSeq = s.store.userSeq + 1 ∧
          ∀ l more, l ≠ j → next.calls[l]? = some more → s.calls[l]? = some more) :=
    fun {_ other} found => ⟨other, found, rfl, id, id, Or.inl rfl⟩
  cases step with
  | idle calls _ _ | released _ calls _ _ =>
      rw [calls] at present
      exact Or.inl (whole present)
  | begun calls shaped pc unused _ _ =>
      rw [calls] at present
      rcases getElem?_of_snoc present with old | ⟨last, rfl⟩
      · exact Or.inl (whole old)
      · exact Or.inr ⟨last, shaped, pc, unused⟩
  | @called k event call moved known move calls =>
      rw [calls] at present
      rcases getElem?_of_set present with ⟨rfl, rfl⟩ | ⟨_, old⟩
      · refine Or.inl ⟨call, known, strictMove_slot move, strictMove_shaped move,
          fun _ => strictMove_not_begun move, ?_⟩
        rcases strictMove_seq move with ⟨same, _⟩ | ⟨_, seq, counter⟩
        · exact Or.inl same
        · refine Or.inr ⟨seq, counter, ?_⟩
          intro j other elsewhere found
          rw [calls] at found
          rcases getElem?_of_set found with ⟨here, _⟩ | ⟨_, old⟩
          · exact absurd here elsewhere
          · exact old
      · exact Or.inl (whole old)

theorem StrictStep.keeps (step : StrictStep limiters s next) (wf : StrictWf limiters s)
    (present : s.calls[i]? = some call) : ∃ later, next.calls[i]? = some later ∧
      later.slot limiters = call.slot limiters ∧ (call.pc ≠ .begun → later.pc ≠ .begun) ∧
      ∀ n, call.seq = some n → later.seq = some n := by
  cases step with
  | idle calls _ _ | released _ calls _ _ => exact ⟨call, by rw [calls, present], rfl, id, fun _ => id⟩
  | begun calls _ _ _ _ _ =>
      refine ⟨call, ?_, rfl, id, fun _ => id⟩
      rw [calls, List.getElem?_append_left (List.getElem?_eq_some_iff.mp present).1, present]
  | @called k event before later known move calls =>
      by_cases here : k = i
      · subst here
        obtain rfl : before = call := by simpa [known] using present
        refine ⟨later, ?_, strictMove_slot move, fun _ => strictMove_not_begun move, ?_⟩
        · rw [calls, List.getElem?_set_self (List.getElem?_eq_some_iff.mp known).1]
        · intro n reserved
          rcases strictMove_seq move with ⟨same, _⟩ | ⟨begun, _, _⟩
          · rw [same, reserved]
          · obtain ⟨_, _, shape⟩ := wf.shaped k before known
            rw [begun] at shape
            simp [shape] at reserved
      · exact ⟨call, by rw [calls, List.getElem?_set_ne here, present], rfl, id, fun _ => id⟩

theorem StrictStep.entry_cases (step : StrictStep limiters s next) {slot : SlotRelease}
    {entry : UserLimitEntry} (held : slot.entryIn next.store = some entry) :
    slot.entryIn s.store = some entry ∨ entry.jobId = slot.jobId ∧
      ∃ (i : Nat) (later : Admit), next.calls[i]? = some later ∧ later.slot limiters = slot ∧
        later.seq = some entry.seq := by
  cases step with
  | idle _ same _ | begun _ _ _ _ same _ =>
      rw [same] at held
      exact Or.inl held
  | @called k event call later known move calls =>
      rcases strictMove_entryIn move held with old | ⟨rfl, sameJob, seq⟩
      · exact Or.inl old
      · refine Or.inr ⟨sameJob, k, later, ?_, strictMove_slot move, seq⟩
        rw [calls, List.getElem?_set_self (List.getElem?_eq_some_iff.mp known).1]
  | released _ _ same _ =>
      rw [same] at held
      exact Or.inl (entryIn_release held)

theorem StrictStep.release_cases (step : StrictStep limiters s next) {slot : SlotRelease}
    (pending : slot ∈ next.releases) : slot ∈ s.releases ∨
      ∃ (i : Nat) (later : Admit), next.calls[i]? = some later ∧ later.slot limiters = slot ∧
        later.pc ≠ .begun := by
  cases step with
  | idle _ _ same | begun _ _ _ _ _ same =>
      rw [same] at pending
      exact Or.inl pending
  | @called k event call later known move calls =>
      have moved : next.calls[k]? = some later := by
        rw [calls, List.getElem?_set_self (List.getElem?_eq_some_iff.mp known).1]
      have added : slot ∈ s.releases ∨ slot = call.slot limiters := by
        generalize next.store = store, next.releases = releases at move pending
        cases move with
        | outranked _ _ _ | guardDropped _ => simpa using pending
        | _ => exact Or.inl pending
      rcases added with old | rfl
      · exact Or.inl old
      · exact Or.inr ⟨k, later, moved, strictMove_slot move, strictMove_not_begun move⟩
  | released _ _ _ fewer => exact Or.inl (fewer slot pending)

theorem StrictWf.distinct_step (wf : StrictWf limiters s) (step : StrictStep limiters s next)
    (i j : Nat) (left right : Admit) (leftIn : next.calls[i]? = some left)
    (rightIn : next.calls[j]? = some right)
    (same : left.slot limiters = right.slot limiters) : i = j := by
  rcases step.call_cases leftIn with ⟨leftOld, leftKnown, leftSlot, _⟩ | ⟨leftLast, _, _, leftUnused⟩
  · rcases step.call_cases rightIn with ⟨rightOld, rightKnown, rightSlot, _⟩ | ⟨_, _, _, unused⟩
    · refine wf.distinct i j leftOld rightOld leftKnown rightKnown ?_
      rw [← leftSlot, ← rightSlot, same]
    · exact absurd (leftSlot ▸ same) (unused leftOld (List.mem_of_getElem? leftKnown))
  · rcases step.call_cases rightIn with ⟨rightOld, rightKnown, rightSlot, _⟩ | ⟨rightLast, _⟩
    · have clash : rightOld.slot limiters = left.slot limiters := by rw [← rightSlot, same]
      exact absurd clash (leftUnused rightOld (List.mem_of_getElem? rightKnown))
    · rw [leftLast, rightLast]

theorem Admit.Shaped.unreserved (shaped : call.Shaped) (begun : call.pc = .begun) :
    call.seq = none := by
  obtain ⟨_, _, shape⟩ := shaped
  rw [begun] at shape
  exact shape

theorem StrictWf.bounded_step (wf : StrictWf limiters s) (step : StrictStep limiters s next)
    (i : Nat) (later : Admit) (n : Nat) (present : next.calls[i]? = some later)
    (reserved : later.seq = some n) : n ≤ next.store.userSeq := by
  have more := step.userSeq
  rcases step.call_cases present with ⟨call, known, _, _, _, seq⟩ | ⟨_, shaped, begun, _⟩
  · rcases seq with same | ⟨now, counter, _⟩
    · have before := wf.bounded i call n known (same ▸ reserved)
      omega
    · simp only [now, Option.some.injEq] at reserved
      omega
  · simp [shaped.unreserved begun] at reserved

theorem StrictWf.apart_step (wf : StrictWf limiters s) (step : StrictStep limiters s next)
    (i j : Nat) (left right : Admit) (n : Nat) (leftIn : next.calls[i]? = some left)
    (rightIn : next.calls[j]? = some right) (leftSeq : left.seq = some n)
    (rightSeq : right.seq = some n) : i = j := by
  by_contra different
  rcases step.call_cases leftIn with ⟨leftOld, leftKnown, _, _, _, leftCase⟩ | ⟨_, shaped, begun, _⟩
  · rcases step.call_cases rightIn with
      ⟨rightOld, rightKnown, _, _, _, rightCase⟩ | ⟨_, shaped, begun, _⟩
    · rcases leftCase with leftSame | ⟨leftNow, _, others⟩
      · rcases rightCase with rightSame | ⟨rightNow, _, others⟩
        · exact different (wf.apart i j leftOld rightOld n leftKnown rightKnown
            (leftSame ▸ leftSeq) (rightSame ▸ rightSeq))
        · have bound := wf.bounded i left n (others i left different leftIn) leftSeq
          simp only [rightNow, Option.some.injEq] at rightSeq
          omega
      · have bound := wf.bounded j right n (others j right (Ne.symm different) rightIn) rightSeq
        simp only [leftNow, Option.some.injEq] at leftSeq
        omega
    · simp [shaped.unreserved begun] at rightSeq
  · simp [shaped.unreserved begun] at leftSeq

theorem StrictWf.step (wf : StrictWf limiters s) (fresh : StrictFresh limiters s action)
    (taken : limiterStep limiters s action = some next) : StrictWf limiters next := by
  have step := strictStep_of_step wf fresh taken
  constructor
  · exact wf.guards.step (wf.exclusive fresh) taken
  · intro scope user jobId entry held
    rcases step.entry_cases (show SlotRelease.entryIn ⟨scope, user, jobId⟩ next.store = _ from held)
      with old | ⟨sameJob, _⟩
    · exact wf.named scope user jobId entry old
    · exact sameJob
  · exact wf.distinct_step step
  · intro slot pending
    rcases step.release_cases pending with old | added
    · obtain ⟨i, call, present, sameSlot, notBegun⟩ := wf.pending slot old
      obtain ⟨later, kept, laterSlot, started, _⟩ := step.keeps wf present
      exact ⟨i, later, kept, laterSlot.trans sameSlot, started notBegun⟩
    · exact added
  · exact wf.bounded_step step
  · exact wf.apart_step step
  · intro i later present
    rcases step.call_cases present with ⟨call, known, _, shape, _⟩ | ⟨_, shaped, _⟩
    · exact shape (wf.shaped i call known)
    · exact shaped
  · intro slot entry held
    rcases step.entry_cases held with old | ⟨_, added⟩
    · obtain ⟨i, call, present, sameSlot, seq⟩ := wf.sourced slot entry old
      obtain ⟨later, kept, laterSlot, _, keptSeq⟩ := step.keeps wf present
      exact ⟨i, later, kept, laterSlot.trans sameSlot, keptSeq _ seq⟩
    · exact added

end Step

end BitsBroker
