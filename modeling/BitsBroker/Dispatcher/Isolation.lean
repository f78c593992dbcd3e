import BitsBroker.Dispatcher.Admissions

/-!
Which admissions can influence which. The admissions of a history are divided into those
that are `seen` and the others, and the pairs of a scope and a user into those of the
`channel` and the others. If the seen admissions are the ones whose slots lie in the
channel, the history without the others can be run as well and decides the seen ones
alike: a local count, a cached count and a listing are about one scope and user, and the
numbers of the reservations, which all admissions share, only matter by their order.
An admission with a ceiling of zero touches nothing and can be on either side.
-/

namespace BitsBroker

open Transition Counting

variable {T : Type} [DecidableEq T]

def HistoryAction.shown (seen : T → Bool) : HistoryAction T → Bool
  | .advance _ => true
  | .submit name _ _ _ _ => seen name
  | .event name _ => seen name
  | .release name => seen name

def History.callOf (s : History T) (name : T) : Option Admit :=
  (s.names.idxOf? name).bind fun i => s.limits.calls[i]?

/-- The seen submissions are those of the channel. -/
def Divides (limiters : Nat → UserLimiter) (seen : T → Bool)
    (channel : String → String → Prop) (_ : History T) : HistoryAction T → Prop
  | .submit name limiter user _ max =>
      max = 0 ∨ (seen name = true ↔ channel (limiters limiter).scope user)
  | _ => True

def AdmitPc.ended : AdmitPc → Bool
  | .rejected | .dropped => true
  | _ => false

structure HistoryWf (limiters : Nat → UserLimiter) (seen : T → Bool)
    (channel : String → String → Prop) (s : History T) : Prop where
  lengths : s.names.length = s.limits.calls.length
  owedBy : s.limits.releases.map some =
    s.owed.map fun name => (s.callOf name).map (·.slot limiters)
  once : s.owed.Nodup
  settled (name : T) (call : Admit) : name ∈ s.owed → s.callOf name = some call →
    call.pc.ended = true ∧ call.max ≠ 0
  idle (name : T) (call : Admit) : s.callOf name = some call → call.max = 0 →
    call.pc = .begun ∨ call.pc.ended = true
  divided (name : T) (call : Admit) : s.callOf name = some call →
    call.max = 0 ∨ (seen name = true ↔ channel (limiters call.limiter).scope call.user)
  slots : s.limits.store.SlotsWf
  numbered (scope user jobId : String) (entry : UserLimitEntry) :
    s.limits.store.slotOf scope user jobId = some entry → entry.seq ≤ s.limits.store.userSeq
  reserved (name : T) (call : Admit) (seq : Nat) : s.callOf name = some call →
    call.seq = some seq → seq ≤ s.limits.store.userSeq

section Effects

variable {shared : Bool} {limiters : Nat → UserLimiter} {s : LimiterState} {call : Admit}
  {event : AdmitEvent} {effect : Effect}

theorem effectOf_running (happens : effectOf shared limiters s call event = some effect) :
    call.pc.ended = false := by
  unfold effectOf effectShared effectHere at happens
  cases pc : call.pc <;> simp_all [AdmitPc.ended]

theorem compare_cases (max synced : Nat) :
    Effect.compare max synced = .leave .rejected ∨ Effect.compare max synced = .goTo .admitted := by
  unfold Effect.compare
  split
  · exact Or.inl rfl
  · exact Or.inr rfl

/-- The kinds of effects. -/
inductive EffectCase (limiters : Nat → UserLimiter) (s : LimiterState) (call : Admit) :
    Effect → Prop
  | goes {pc : AdmitPc} : (∀ entries, pc ≠ .rank entries) → EffectCase limiters s call (.goTo pc)
  | listed : call.pc = .list → EffectCase limiters s call
      (.goTo (.rank (s.store.listUserSlots (limiters call.limiter).scope call.user)))
  | leaves {pc : AdmitPc} : pc.ended = true → call.pc ≠ .begun →
      EffectCase limiters s call (.leave pc)
  | takes {pc : AdmitPc} {reserves : Bool} : (∀ entries, pc ≠ .rank entries) →
      EffectCase limiters s call ⟨pc, .take, none, reserves, false⟩
  | reserves : EffectCase limiters s call ⟨.count, .keep, none, true, false⟩
  | gives : EffectCase limiters s call ⟨.dropped, .back, none, false, false⟩
  | syncs (count : Nat) : call.pc = .count →
      EffectCase limiters s call { Effect.compare call.max count with synced := some count }

theorem effectHere_case (happens : effectHere s call event = some effect) :
    EffectCase limiters s call effect := by
  unfold effectHere at happens
  split at happens
  · split at happens
    · exact Option.some.inj happens ▸ .goes (by simp)
    · split at happens
      · exact Option.some.inj happens ▸ .goes (by simp)
      · exact Option.some.inj happens ▸ .takes (by simp)
  · exact Option.some.inj happens ▸ .goes (by simp)
  · exact Option.some.inj happens ▸ .gives
  · simp at happens

theorem effectShared_case (happens : effectShared limiters s call event = some effect) :
    EffectCase limiters s call effect := by
  unfold effectShared at happens
  split at happens
  · split at happens
    · exact Option.some.inj happens ▸ .goes (by simp)
    · split at happens
      · exact Option.some.inj happens ▸ .takes (by simp)
      · split at happens
        · exact Option.some.inj happens ▸ .goes (by simp)
        · exact Option.some.inj happens ▸ .takes (by simp)
  · split at happens
    · exact Option.some.inj happens ▸ .takes (by simp)
    · simp at happens
  · exact Option.some.inj happens ▸ .goes (by simp)
  next pc => exact Option.some.inj happens ▸ .listed pc
  · exact Option.some.inj happens ▸ .goes (by simp)
  next pc => exact Option.some.inj happens ▸ .leaves rfl (by simp [pc])
  next entries pc =>
    obtain ⟨seq, _, rfl⟩ := Option.map_eq_some_iff.mp happens
    split
    · exact .goes (by simp)
    · exact .leaves rfl (by simp [pc])
  · exact Option.some.inj happens ▸ .reserves
  · exact Option.some.inj happens ▸ .goes (by simp)
  next pc => exact Option.some.inj happens ▸ .leaves rfl (by simp [pc])
  next pc =>
    split at happens
    next count _ =>
      rcases compare_cases call.max count with eq | eq
      · exact Option.some.inj happens ▸ eq ▸ .leaves rfl (by simp [pc])
      · exact Option.some.inj happens ▸ eq ▸ .goes (by simp)
    next => exact Option.some.inj happens ▸ .syncs _ pc
  · split at happens
    · exact Option.some.inj happens ▸ .goes (by simp)
    · simp at happens
  next pc => exact Option.some.inj happens ▸ .leaves rfl (by simp [pc])
  next pc => exact Option.some.inj happens ▸ .leaves rfl (by simp [pc])
  · simp at happens

theorem effectOf_case (happens : effectOf shared limiters s call event = some effect) :
    EffectCase limiters s call effect := by
  unfold effectOf at happens
  split at happens
  · exact effectShared_case happens
  · exact effectHere_case happens

theorem EffectCase.owes (case_ : EffectCase limiters s call effect) (owes : effect.owes = true) :
    effect.pc.ended = true ∧ call.pc ≠ .begun := by
  cases case_ with
  | goes | listed | takes | reserves | gives => simp [Effect.goTo] at owes
  | leaves ended notBegun => exact ⟨ended, notBegun⟩
  | syncs count pc =>
      refine ⟨?_, by simp [pc]⟩
      rcases compare_cases call.max count with eq | eq
      · simp [eq, Effect.leave, AdmitPc.ended]
      · simp [eq, Effect.goTo] at owes

theorem EffectCase.unranked (case_ : EffectCase limiters s call effect)
    (notListed : call.pc ≠ .list) : ∀ entries, effect.pc ≠ .rank entries := by
  intro entries
  cases case_ with
  | goes unranked => exact unranked entries
  | listed pc => exact absurd pc notListed
  | leaves ended _ =>
      intro ranked
      simp only [Effect.leave] at ranked
      simp [ranked, AdmitPc.ended] at ended
  | takes unranked => exact unranked entries
  | reserves | gives => simp
  | syncs count _ => rcases compare_cases call.max count with eq | eq <;>
      simp [eq, Effect.leave, Effect.goTo]

theorem effectOf_idle (happens : effectOf shared limiters s call event = some effect)
    (zero : call.max = 0) (begun : call.pc = .begun) :
    event = .step ∧ effect = .goTo .rejected ∨ event = .drop ∧ effect = .goTo .dropped := by
  unfold effectOf effectShared effectHere at happens
  cases event <;> simp_all

end Effects

section Views

variable {shared : Bool} {limiters : Nat → UserLimiter} {s next : History T} {name other : T}
  {i : Nat} {call : Admit} {effect : Effect}

/-- The history after the admission `name` had `effect`. -/
def History.acted (limiters : Nat → UserLimiter) (s : History T) (name : T) (i : Nat)
    (call : Admit) (effect : Effect) : History T where
  limits := s.limits.perform limiters i call effect
  names := s.names
  owed := s.owed ++ if effect.owes then [name] else []
  decided := s.decided ++
    ((decisionOf call.pc effect.pc).map fun decision => (name, decision)).toList

omit [DecidableEq T] in
theorem happened_eq (present : s.limits.calls[i]? = some call) :
    s.happened name i call.pc (s.limits.perform limiters i call effect) =
      s.acted limiters name i call effect := by
  have bound := (List.getElem?_eq_some_iff.mp present).1
  have after : (s.limits.perform limiters i call effect).calls[i]? =
      some (call.later limiters s.limits effect) := List.getElem?_set_self bound
  unfold History.happened History.acted
  simp only [after, Option.bind_some]
  have same : (call.later limiters s.limits effect).pc = effect.pc := rfl
  rw [same]
  congr 1
  · cases owes : effect.owes <;> simp [LimiterState.perform, owes]
  · cases decisionOf call.pc effect.pc <;> simp

theorem callOf_of_index (index : s.names.idxOf? name = some i) :
    s.callOf name = s.limits.calls[i]? := by
  rw [History.callOf, index, Option.bind_some]

theorem names_of_callOf (known : s.callOf name = some call) : name ∈ s.names := by
  unfold History.callOf at known
  cases index : s.names.idxOf? name with
  | none => simp [index] at known
  | some i =>
      have found : (s.names.idxOf? name).isSome = true := by rw [index]; rfl
      simpa [List.isSome_idxOf?] using found

theorem callOf_acted (limiters : Nat → UserLimiter) (effect : Effect)
    (index : s.names.idxOf? name = some i) (present : s.limits.calls[i]? = some call)
    (other : T) :
    (s.acted limiters name i call effect).callOf other =
      if other = name then some (call.later limiters s.limits effect) else s.callOf other := by
  have bound := (List.getElem?_eq_some_iff.mp present).1
  by_cases same : other = name
  · subst same
    rw [if_pos rfl, History.callOf]
    change ((s.names.idxOf? other).bind fun j =>
      (s.limits.calls.set i (call.later limiters s.limits effect))[j]?) = _
    rw [index, Option.bind_some]
    exact List.getElem?_set_self bound
  · rw [if_neg same]
    unfold History.callOf
    change ((s.names.idxOf? other).bind fun j =>
      (s.limits.calls.set i (call.later limiters s.limits effect))[j]?) = _
    cases there : s.names.idxOf? other with
    | none => rfl
    | some j =>
        have different : i ≠ j := by
          rintro rfl
          obtain ⟨inside, value, _⟩ := List.idxOf?_eq_some_iff.mp index
          obtain ⟨_, value', _⟩ := List.idxOf?_eq_some_iff.mp there
          exact same (value'.symm.trans value)
        simp only [Option.bind_some]
        exact List.getElem?_set_ne different

theorem callOf_submitted (lengths : s.names.length = s.limits.calls.length)
    (fresh : name ∉ s.names) (other : T) :
    (s.submitted name call).callOf other =
      if other = name then some call else s.callOf other := by
  unfold History.callOf History.submitted
  have index : (s.names ++ [name]).idxOf? other =
      (s.names.idxOf? other).or (if name = other then some s.names.length else none) := by
    simp only [List.idxOf?, List.findIdx?_append, List.findIdx?_singleton]
    split <;> simp_all
  rw [index]
  by_cases same : other = name
  · subst same
    rw [List.idxOf?_eq_none_iff.mpr fresh]
    simp [lengths]
  · rw [if_neg (Ne.symm same), if_neg same, Option.or_none]
    cases there : s.names.idxOf? other with
    | none => rfl
    | some j =>
        obtain ⟨inside, _⟩ := List.idxOf?_eq_some_iff.mp there
        simp only [Option.bind_some]
        exact List.getElem?_append_left (by omega)

/-- What an action of a history does. -/
inductive HistoryMove (shared : Bool) (limiters : Nat → UserLimiter) (s next : History T) :
    HistoryAction T → Prop
  | advanced {elapsed : Nat} :
      next = { s with limits := { s.limits with now := s.limits.now + elapsed } } →
      HistoryMove shared limiters s next (.advance elapsed)
  | submitted {name : T} {limiter : Nat} {user jobId : String} {max : Nat} : name ∉ s.names →
      next = s.submitted name ⟨limiter, user, jobId, max, none, .begun⟩ →
      HistoryMove shared limiters s next (.submit name limiter user jobId max)
  | acted {name : T} {event : AdmitEvent} {i : Nat} {call : Admit} {effect : Effect} :
      s.names.idxOf? name = some i → s.limits.calls[i]? = some call →
      effectOf shared limiters s.limits call event = some effect →
      next = s.acted limiters name i call effect →
      HistoryMove shared limiters s next (.event name event)
  | released {name : T} {index : Nat} {slot : SlotRelease} : s.owed.idxOf? name = some index →
      s.limits.releases[index]? = some slot →
      next = { s with
        limits := { s.limits with
          store := s.limits.store.releaseUserSlot slot.scope slot.user slot.jobId
          releases := s.limits.releases.eraseIdx index }
        owed := s.owed.eraseIdx index } →
      HistoryMove shared limiters s next (.release name)

theorem historyStep_iff {action : HistoryAction T} :
    historyStep shared limiters s action = some next ↔
      HistoryMove shared limiters s next action := by
  constructor
  · intro taken
    cases action with
    | advance elapsed =>
        simp only [historyStep, Option.some.injEq] at taken
        exact .advanced taken.symm
    | submit name limiter user jobId max =>
        simp only [historyStep] at taken
        split at taken
        · simp at taken
        next fresh =>
          simp only [Option.some.injEq] at taken
          exact .submitted fresh taken.symm
    | event name event =>
        simp only [historyStep, Option.bind_eq_some_iff, modeEvent_eq, Option.map_map,
          Option.map_eq_some_iff, Function.comp] at taken
        obtain ⟨i, index, call, present, effect, happens, rfl⟩ := taken
        exact .acted index present happens (happened_eq present)
    | release name =>
        simp only [historyStep, limiterStep, Option.bind_eq_some_iff, Option.map_map,
          Option.map_eq_some_iff, Function.comp] at taken
        obtain ⟨index, found, slot, present, rfl⟩ := taken
        exact .released found present rfl
  · intro move
    cases move with
    | advanced eq => rw [eq, historyStep]
    | submitted fresh eq => rw [eq, historyStep, if_neg fresh]
    | acted index present happens eq =>
        rw [eq, historyStep, index, Option.bind_some, present, Option.bind_some, modeEvent_eq,
          happens, Option.map_some, Option.map_some, happened_eq present]
    | released found present eq =>
        rw [eq, historyStep, found, Option.bind_some, limiterStep, present]
        rfl

end Views

section Wellformed

variable {shared : Bool} {limiters : Nat → UserLimiter} {seen : T → Bool}
  {channel : String → String → Prop} {s next : History T} {name : T} {i : Nat} {call : Admit}
  {event : AdmitEvent} {effect : Effect}

theorem HistoryWf.owed_known (wf : HistoryWf limiters seen channel s) (owed : name ∈ s.owed) :
    ∃ call, s.callOf name = some call := by
  have inside : (s.callOf name).map (·.slot limiters) ∈ s.limits.releases.map some := by
    rw [wf.owedBy]
    exact List.mem_map_of_mem owed
  obtain ⟨slot, _, eq⟩ := List.mem_map.mp inside
  cases known : s.callOf name with
  | none => simp [known] at eq
  | some call => exact ⟨call, rfl⟩

theorem HistoryWf.owed_slot (wf : HistoryWf limiters seen channel s) {index : Nat}
    {slot : SlotRelease} (found : s.owed.idxOf? name = some index)
    (present : s.limits.releases[index]? = some slot) :
    ∃ call, s.callOf name = some call ∧ slot = call.slot limiters := by
  obtain ⟨bound, value, _⟩ := List.idxOf?_eq_some_iff.mp found
  have both : (s.limits.releases.map some)[index]? =
      (s.owed.map fun name => (s.callOf name).map (·.slot limiters))[index]? := by rw [wf.owedBy]
  simp only [List.getElem?_map, present, List.getElem?_eq_getElem bound, value, Option.map_some,
    Option.some.injEq] at both
  obtain ⟨call, known, eq⟩ := Option.map_eq_some_iff.mp both.symm
  exact ⟨call, known, eq.symm⟩

theorem slot_acted (index : s.names.idxOf? name = some i)
    (present : s.limits.calls[i]? = some call) (other : T) :
    ((s.acted limiters name i call effect).callOf other).map (·.slot limiters) =
      (s.callOf other).map (·.slot limiters) := by
  rw [callOf_acted limiters effect index present]
  split
  next same =>
    rw [same, callOf_of_index index, present]
    rfl
  next => rfl

theorem HistoryWf.advance (wf : HistoryWf limiters seen channel s) (elapsed : Nat) :
    HistoryWf limiters seen channel
      { s with limits := { s.limits with now := s.limits.now + elapsed } } := by
  obtain ⟨lengths, owedBy, once, settled, idle, divided, slots, numbered, reserved⟩ := wf
  exact ⟨lengths, owedBy, once, settled, idle, divided, slots, numbered, reserved⟩

theorem HistoryWf.submit (wf : HistoryWf limiters seen channel s) (fresh : name ∉ s.names)
    (begun : call.pc = .begun) (unreserved : call.seq = none)
    (permitted : call.max = 0 ∨
      (seen name = true ↔ channel (limiters call.limiter).scope call.user)) :
    HistoryWf limiters seen channel (s.submitted name call) := by
  have view : ∀ other, (s.submitted name call).callOf other = _ :=
    callOf_submitted wf.lengths fresh
  have cases_ : ∀ other later, (s.submitted name call).callOf other = some later →
      other = name ∧ later = call ∨ other ≠ name ∧ s.callOf other = some later := by
    intro other later known
    rw [view] at known
    split at known
    next same => exact Or.inl ⟨same, (Option.some.inj known).symm⟩
    next different => exact Or.inr ⟨different, known⟩
  have unowed : ∀ other ∈ s.owed, other ≠ name := by
    rintro other owed rfl
    obtain ⟨earlier, known⟩ := wf.owed_known owed
    exact fresh (names_of_callOf known)
  constructor
  · simp [History.submitted, wf.lengths]
  · refine wf.owedBy.trans (List.map_congr_left ?_)
    intro other owed
    rw [view, if_neg (unowed other owed)]
  · exact wf.once
  · intro other later owed known
    rcases cases_ other later known with ⟨same, _⟩ | ⟨_, before⟩
    · exact absurd same (unowed other owed)
    · exact wf.settled other later owed before
  · intro other later known zero
    rcases cases_ other later known with ⟨_, rfl⟩ | ⟨_, before⟩
    · exact Or.inl begun
    · exact wf.idle other later before zero
  · intro other later known
    rcases cases_ other later known with ⟨rfl, rfl⟩ | ⟨_, before⟩
    · exact permitted
    · exact wf.divided other later before
  · exact wf.slots
  · exact wf.numbered
  · intro other later seq known numbered
    rcases cases_ other later known with ⟨_, rfl⟩ | ⟨_, before⟩
    · simp [unreserved] at numbered
    · exact wf.reserved other later seq before numbered

theorem userSeq_le_perform (limiters : Nat → UserLimiter) (s : LimiterState) (i : Nat)
    (call : Admit) (effect : Effect) :
    s.store.userSeq ≤ (s.perform limiters i call effect).store.userSeq := by
  simp only [LimiterState.perform]
  split
  · exact MemoryStore.userSeq_le_reserveUserSlot _ _ _ _ _ _
  · exact le_rfl

theorem HistoryWf.reservation_le (wf : HistoryWf limiters seen channel s) (call : Admit) :
    (call.reservation limiters s.limits).1 ≤ (call.reservation limiters s.limits).2.userSeq := by
  unfold Admit.reservation
  cases held : s.limits.store.slotOf (limiters call.limiter).scope call.user call.jobId with
  | some entry =>
      rw [MemoryStore.reserveUserSlot_existing held]
      exact wf.numbered _ _ _ _ held
  | none =>
      obtain ⟨seq, counter, _⟩ := MemoryStore.reserveUserSlot_fresh held
        (limiters call.limiter).brokerId s.limits.now
      rw [seq, counter]

theorem HistoryWf.act (wf : HistoryWf limiters seen channel s)
    (index : s.names.idxOf? name = some i) (present : s.limits.calls[i]? = some call)
    (happens : effectOf shared limiters s.limits call event = some effect) :
    HistoryWf limiters seen channel (s.acted limiters name i call effect) := by
  have known : s.callOf name = some call := (callOf_of_index index).trans present
  have view := callOf_acted limiters effect index present
  have running := effectOf_running happens
  have cases_ : ∀ other later, (s.acted limiters name i call effect).callOf other = some later →
      other = name ∧ later = call.later limiters s.limits effect ∨
        other ≠ name ∧ s.callOf other = some later := by
    intro other later found
    rw [view] at found
    split at found
    next same => exact Or.inl ⟨same, (Option.some.inj found).symm⟩
    next different => exact Or.inr ⟨different, found⟩
  have unowed : name ∉ s.owed := by
    intro owed
    have ended := (wf.settled name call owed known).1
    simp [running] at ended
  constructor
  · simp [History.acted, LimiterState.perform, wf.lengths]
  · simp only [slot_acted index present]
    simp only [History.acted, LimiterState.perform, List.map_append, wf.owedBy]
    congr 1
    cases effect.owes with
    | false => rfl
    | true => simp [known]
  · simp only [History.acted]
    cases effect.owes with
    | false => simpa using wf.once
    | true =>
        rw [if_pos rfl, List.nodup_append]
        refine ⟨wf.once, List.nodup_singleton name, ?_⟩
        intro other owed last isLast same
        exact unowed (List.mem_singleton.mp isLast ▸ same ▸ owed)
  · intro other later owed found
    have which : other ∈ s.owed ∨ effect.owes = true ∧ other = name := by
      simp only [History.acted, List.mem_append] at owed
      rcases owed with before | last
      · exact Or.inl before
      · split at last
        next owes => exact Or.inr ⟨owes, by simpa using last⟩
        · simp at last
    rcases cases_ other later found with ⟨rfl, rfl⟩ | ⟨different, before⟩
    · obtain ⟨owes, _⟩ := which.resolve_left unowed
      obtain ⟨ended, notBegun⟩ := (effectOf_case happens).owes owes
      refine ⟨ended, fun zero => ?_⟩
      rcases wf.idle _ call known zero with begun | ended'
      · exact notBegun begun
      · simp [running] at ended'
    · exact wf.settled other later (which.resolve_right fun new => different new.2) before
  · intro other later found zero
    rcases cases_ other later found with ⟨rfl, rfl⟩ | ⟨_, before⟩
    · have begun := (wf.idle _ call known zero).resolve_right (by simp [running])
      rcases effectOf_idle happens zero begun with ⟨_, rfl⟩ | ⟨_, rfl⟩
      · exact Or.inr rfl
      · exact Or.inr rfl
    · exact wf.idle other later before zero
  · intro other later found
    rcases cases_ other later found with ⟨rfl, rfl⟩ | ⟨_, before⟩
    · exact wf.divided _ call known
    · exact wf.divided other later before
  · simp only [History.acted, LimiterState.perform]
    split
    · exact wf.slots.reserveUserSlot _ _ _ _ _
    · exact wf.slots
  · intro scope user jobId entry found
    have grows := userSeq_le_perform limiters s.limits i call effect
    simp only [History.acted] at found ⊢
    simp only [LimiterState.perform] at found grows ⊢
    split at found
    next reserves =>
      rw [if_pos reserves] at grows ⊢
      rcases MemoryStore.slotOf_of_reserveUserSlot found with before | ⟨_, last⟩
      · exact le_trans (wf.numbered _ _ _ _ before) grows
      · exact last.le
    next keeps =>
      rw [if_neg keeps]
      exact wf.numbered _ _ _ _ found
  · intro other later seq found numbered
    have grows := userSeq_le_perform limiters s.limits i call effect
    rcases cases_ other later found with ⟨rfl, rfl⟩ | ⟨_, before⟩
    · simp only [History.acted]
      simp only [Admit.later] at numbered
      split at numbered
      next reserves =>
        simp only [Option.some.injEq] at numbered
        subst numbered
        simp only [LimiterState.perform, if_pos reserves]
        exact wf.reservation_le call
      next => exact le_trans (wf.reserved _ call seq known numbered) grows
    · exact le_trans (wf.reserved other later seq before numbered) grows

theorem HistoryWf.release (wf : HistoryWf limiters seen channel s) {index : Nat}
    {slot : SlotRelease} :
    HistoryWf limiters seen channel { s with
      limits := { s.limits with
        store := s.limits.store.releaseUserSlot slot.scope slot.user slot.jobId
        releases := s.limits.releases.eraseIdx index }
      owed := s.owed.eraseIdx index } := by
  constructor
  · exact wf.lengths
  · simp only [← List.eraseIdx_map]
    exact congrArg (List.eraseIdx · index) wf.owedBy
  · exact wf.once.eraseIdx index
  · intro other later owed known
    exact wf.settled other later (List.mem_of_mem_eraseIdx owed) known
  · exact wf.idle
  · exact wf.divided
  · exact wf.slots.releaseUserSlot _ _ _
  · intro scope user jobId entry found
    simp only at found ⊢
    rw [MemoryStore.slotOf_releaseUserSlot] at found
    rw [MemoryStore.userSeq_releaseUserSlot]
    split at found
    · simp at found
    · exact wf.numbered _ _ _ _ found
  · intro other later seq known numbered
    simp only [MemoryStore.userSeq_releaseUserSlot]
    exact wf.reserved other later seq known numbered

end Wellformed

/-- Two admissions at the same point, with ranks that decide alike. -/
inductive SamePc (c d : Admit) : Prop
  | equal : c.pc = d.pc → (∀ entries, c.pc ≠ .rank entries) → SamePc c d
  | ranked {entries others : List UserLimitEntry} : c.pc = .rank entries → d.pc = .rank others →
      (∀ m n, c.seq = some m → d.seq = some n →
        slotRank entries m c.jobId = slotRank others n d.jobId) → SamePc c d

structure SameCall (number : Nat → Nat) (c d : Admit) : Prop where
  limiter : c.limiter = d.limiter
  user : c.user = d.user
  jobId : c.jobId = d.jobId
  max : c.max = d.max
  seq : c.seq = d.seq.map number
  pc : SamePc c d

def renumber (number : Nat → Nat) (entry : UserLimitEntry) : UserLimitEntry :=
  { entry with seq := number entry.seq }

/-- The reservations of `small` are those of `s` in the channel, in the same order. -/
structure Renumbered (seen : T → Bool) (channel : String → String → Prop) (number : Nat → Nat)
    (s small : History T) : Prop where
  increasing : StrictMono number
  last : number small.limits.store.userSeq ≤ s.limits.store.userSeq
  slots (scope user jobId : String) : channel scope user →
    s.limits.store.slotOf scope user jobId =
      (small.limits.store.slotOf scope user jobId).map (renumber number)
  calls (name : T) : seen name = true →
    Option.Rel (SameCall number) (s.callOf name) (small.callOf name)

/-- The seen part of `s` is what `small` consists of. -/
structure Mirrors (limiters : Nat → UserLimiter) (seen : T → Bool)
    (channel : String → String → Prop) (s small : History T) : Prop where
  whole : HistoryWf limiters seen channel s
  part : HistoryWf limiters seen channel small
  now : s.limits.now = small.limits.now
  counts (limiter : Nat) (user : String) : channel (limiters limiter).scope user →
    (s.limits.counts limiter).lookup user = (small.limits.counts limiter).lookup user
  cached (limiter : Nat) (user : String) : channel (limiters limiter).scope user →
    (s.limits.cachedCount limiter).lookup user = (small.limits.cachedCount limiter).lookup user
  owed (name : T) : seen name = true → (name ∈ s.owed ↔ name ∈ small.owed)
  decided : s.decided.filter (fun entry => seen entry.1) = small.decided
  numbering : ∃ number, Renumbered seen channel number s small

section Unnoticed

variable {shared : Bool} {limiters : Nat → UserLimiter} {seen : T → Bool}
  {channel : String → String → Prop} {s next small : History T} {name : T} {i : Nat}
  {call : Admit} {event : AdmitEvent} {effect : Effect}

theorem CountChange.lookup_apply (counts : HashMap String Nat) {key other : String}
    (different : other ≠ key) (change : CountChange) :
    (change.apply counts key).lookup other = counts.lookup other := by
  cases change with
  | keep => rfl
  | take => simp [CountChange.apply, incrLocal, different]
  | back =>
      simp only [CountChange.apply, releaseLocal]
      split
      · rfl
      · split
        · simp [different]
        · simp [different]

/-- An effect reaches only the slot and the counts of its own scope and user. -/
theorem lookup_perform_counts (s : LimiterState) {limiter : Nat} {user : String}
    (off : effect.change = .keep ∨ ¬ (limiter = call.limiter ∧ user = call.user)) :
    ((s.perform limiters i call effect).counts limiter).lookup user =
      (s.counts limiter).lookup user := by
  simp only [LimiterState.perform]
  by_cases here : limiter = call.limiter
  · subst here
    rw [Function.update_self]
    rcases off with keep | other
    · rw [keep]
      rfl
    · exact CountChange.lookup_apply _ (fun same => other ⟨rfl, same⟩) _
  · rw [Function.update_of_ne here]

theorem lookup_perform_cached (s : LimiterState) {limiter : Nat} {user : String}
    (off : effect.synced = none ∨ ¬ (limiter = call.limiter ∧ user = call.user)) :
    ((s.perform limiters i call effect).cachedCount limiter).lookup user =
      (s.cachedCount limiter).lookup user := by
  simp only [LimiterState.perform]
  cases synced : effect.synced with
  | none => rfl
  | some count =>
      by_cases here : limiter = call.limiter
      · subst here
        have different : user ≠ call.user := by
          rintro rfl
          rcases off with none_ | other
          · simp [none_] at synced
          · exact other ⟨rfl, rfl⟩
        simp [different]
      · simp [Function.update_of_ne here]

theorem slotOf_perform (s : LimiterState) {scope user jobId : String}
    (off : effect.reserves = false ∨
      ¬ (scope = (limiters call.limiter).scope ∧ user = call.user)) :
    (s.perform limiters i call effect).store.slotOf scope user jobId =
      s.store.slotOf scope user jobId := by
  simp only [LimiterState.perform]
  split
  next reserves =>
    apply MemoryStore.slotOf_reserveUserSlot
    rintro ⟨sameScope, sameUser, _⟩
    rcases off with keeps | other
    · simp [keeps] at reserves
    · exact other ⟨sameScope, sameUser⟩
  next => rfl

theorem Mirrors.submit_unseen (mirror : Mirrors limiters seen channel s small)
    (fresh : name ∉ s.names) (begun : call.pc = .begun) (unreserved : call.seq = none)
    (permitted : call.max = 0 ∨
      (seen name = true ↔ channel (limiters call.limiter).scope call.user))
    (unseen : seen name = false) :
    Mirrors limiters seen channel (s.submitted name call) small := by
  obtain ⟨number, renumbered⟩ := mirror.numbering
  have whole := mirror.whole.submit fresh begun unreserved permitted
  refine ⟨whole, mirror.part, mirror.now, mirror.counts, mirror.cached, mirror.owed,
    mirror.decided, number, renumbered.increasing, renumbered.last, renumbered.slots, ?_⟩
  intro other isSeen
  have different : other ≠ name := by
    rintro rfl
    simp [unseen] at isSeen
  rw [callOf_submitted mirror.whole.lengths fresh, if_neg different]
  exact renumbered.calls other isSeen

theorem Mirrors.act_unseen (mirror : Mirrors limiters seen channel s small)
    (index : s.names.idxOf? name = some i) (present : s.limits.calls[i]? = some call)
    (happens : effectOf shared limiters s.limits call event = some effect)
    (unseen : seen name = false) :
    Mirrors limiters seen channel (s.acted limiters name i call effect) small := by
  obtain ⟨number, renumbered⟩ := mirror.numbering
  have known : s.callOf name = some call := (callOf_of_index index).trans present
  have off : effect.change = .keep ∧ effect.synced = none ∧ effect.reserves = false ∨
      ¬ channel (limiters call.limiter).scope call.user := by
    rcases mirror.whole.divided name call known with zero | iff
    · have begun := (mirror.whole.idle name call known zero).resolve_right
        (by simp [effectOf_running happens])
      rcases effectOf_idle happens zero begun with ⟨_, rfl⟩ | ⟨_, rfl⟩
      · exact Or.inl ⟨rfl, rfl, rfl⟩
      · exact Or.inl ⟨rfl, rfl, rfl⟩
    · exact Or.inr fun inside => by simp [unseen] at iff; exact iff inside
  have apart : ∀ {scope user : String}, channel scope user →
      effect.change = .keep ∧ effect.synced = none ∧ effect.reserves = false ∨
        ¬ (scope = (limiters call.limiter).scope ∧ user = call.user) := by
    intro scope user inside
    rcases off with quiet | outside
    · exact Or.inl quiet
    · refine Or.inr ?_
      rintro ⟨rfl, rfl⟩
      exact outside inside
  have elsewhere : ∀ {limiter : Nat} {user : String},
      ¬ ((limiters limiter).scope = (limiters call.limiter).scope ∧ user = call.user) →
        ¬ (limiter = call.limiter ∧ user = call.user) := by
    rintro limiter user other ⟨rfl, rfl⟩
    exact other ⟨rfl, rfl⟩
  have notSeen : ∀ other, seen other = true → other ≠ name := by
    rintro other isSeen rfl
    simp [unseen] at isSeen
  constructor
  · exact mirror.whole.act index present happens
  · exact mirror.part
  · exact mirror.now
  · intro limiter user inside
    refine (lookup_perform_counts s.limits ?_).trans (mirror.counts limiter user inside)
    exact (apart inside).imp (·.1) elsewhere
  · intro limiter user inside
    refine (lookup_perform_cached s.limits ?_).trans (mirror.cached limiter user inside)
    exact (apart inside).imp (·.2.1) elsewhere
  · intro other isSeen
    rw [← mirror.owed other isSeen]
    simp only [History.acted, List.mem_append]
    constructor
    · intro owed
      refine owed.resolve_right fun last => ?_
      split at last
      · exact notSeen other isSeen (List.mem_singleton.mp last)
      · simp at last
    · exact Or.inl
  · simp only [History.acted, List.filter_append, mirror.decided]
    cases decisionOf call.pc effect.pc <;> simp [unseen]
  · refine ⟨number, renumbered.increasing, ?_, ?_, ?_⟩
    · exact le_trans renumbered.last (userSeq_le_perform limiters s.limits i call effect)
    · intro scope user jobId inside
      rw [← renumbered.slots scope user jobId inside]
      exact slotOf_perform s.limits ((apart inside).imp (·.2.2) id)
    · intro other isSeen
      rw [callOf_acted limiters effect index present, if_neg (notSeen other isSeen)]
      exact renumbered.calls other isSeen

theorem mem_eraseIdx_of_ne {l : List T} {index : Nat} {name other : T}
    (found : l.idxOf? name = some index) (different : other ≠ name) :
    other ∈ l.eraseIdx index ↔ other ∈ l := by
  obtain ⟨bound, value, _⟩ := List.idxOf?_eq_some_iff.mp found
  constructor
  · exact List.mem_of_mem_eraseIdx
  · intro inside
    obtain ⟨j, at_⟩ := List.mem_iff_getElem?.mp inside
    rw [List.mem_eraseIdx_iff_getElem?]
    refine ⟨j, ?_, at_⟩
    rintro rfl
    rw [List.getElem?_eq_getElem bound, value] at at_
    exact different (Option.some.inj at_).symm

theorem Mirrors.release_unseen (mirror : Mirrors limiters seen channel s small) {index : Nat}
    {slot : SlotRelease} (found : s.owed.idxOf? name = some index)
    (present : s.limits.releases[index]? = some slot) (unseen : seen name = false) :
    Mirrors limiters seen channel { s with
      limits := { s.limits with
        store := s.limits.store.releaseUserSlot slot.scope slot.user slot.jobId
        releases := s.limits.releases.eraseIdx index }
      owed := s.owed.eraseIdx index } small := by
  obtain ⟨number, renumbered⟩ := mirror.numbering
  obtain ⟨call, known, eq⟩ := mirror.whole.owed_slot found present
  have owed : name ∈ s.owed := by
    have isSome : (s.owed.idxOf? name).isSome = true := by rw [found]; rfl
    simpa [List.isSome_idxOf?] using isSome
  have positive := (mirror.whole.settled name call owed known).2
  have outside : ¬ channel slot.scope slot.user := by
    subst eq
    have iff := (mirror.whole.divided name call known).resolve_left positive
    intro inside
    have isSeen := iff.mpr inside
    simp [unseen] at isSeen
  refine ⟨mirror.whole.release, mirror.part, mirror.now, mirror.counts, mirror.cached, ?_,
    mirror.decided, number, renumbered.increasing, ?_, ?_, renumbered.calls⟩
  · intro other isSeen
    rw [← mirror.owed other isSeen]
    refine mem_eraseIdx_of_ne found ?_
    rintro rfl
    simp [unseen] at isSeen
  · simpa only [MemoryStore.userSeq_releaseUserSlot] using renumbered.last
  · intro scope user jobId inside
    rw [← renumbered.slots scope user jobId inside]
    simp only [MemoryStore.slotOf_releaseUserSlot]
    rw [if_neg]
    rintro ⟨rfl, rfl, _⟩
    exact outside inside

end Unnoticed

section Matched

variable {shared : Bool} {limiters : Nat → UserLimiter} {seen : T → Bool}
  {channel : String → String → Prop} {s small : History T} {name : T} {i j : Nat}
  {c d : Admit} {event : AdmitEvent} {effect : Effect} {number : Nat → Nat}

theorem slotRank_renumber (increasing : StrictMono number) {entries others : List UserLimitEntry}
    (same : entries.Perm (others.map (renumber number))) (seq : Nat) (jobId : String) :
    slotRank entries (number seq) jobId = slotRank others seq jobId := by
  let shift : Lex (Nat × String) → Lex (Nat × String) := fun key =>
    toLex (number (ofLex key).1, (ofLex key).2)
  have ordered : StrictMono shift := by
    intro left right less
    rw [Prod.Lex.lt_iff] at less ⊢
    rcases less with smaller | ⟨equal, less⟩
    · exact Or.inl (increasing smaller)
    · exact Or.inr ⟨congrArg number equal, less⟩
  have keys : (entries.map fun entry => toLex (entry.seq, entry.jobId)).Perm
      ((others.map fun entry => toLex (entry.seq, entry.jobId)).map shift) := by
    have mapped := same.map fun entry => toLex (entry.seq, entry.jobId)
    rw [List.map_map] at mapped ⊢
    exact mapped
  unfold slotRank
  exact congrArg (·.getD 0) (rankIn_map ordered (toLex (seq, jobId)) keys)

theorem Renumbered.listing (renumbered : Renumbered seen channel number s small)
    (whole : s.limits.store.SlotsWf) (part : small.limits.store.SlotsWf) {scope user : String}
    (inside : channel scope user) :
    (s.limits.store.listUserSlots scope user).Perm
      ((small.limits.store.listUserSlots scope user).map (renumber number)) := by
  have left := (MemoryStore.nodup_listUserSlots whole scope user).of_map
  have jobs : ((small.limits.store.listUserSlots scope user).map (renumber number)).map (·.jobId) =
      (small.limits.store.listUserSlots scope user).map (·.jobId) := by
    rw [List.map_map]
    rfl
  have right : ((small.limits.store.listUserSlots scope user).map (renumber number)).Nodup := by
    apply List.Nodup.of_map (·.jobId)
    rw [jobs]
    exact MemoryStore.nodup_listUserSlots part scope user
  rw [List.perm_ext_iff_of_nodup left right]
  intro entry
  rw [MemoryStore.mem_listUserSlots, List.mem_map]
  constructor
  · rintro ⟨jobId, held⟩
    rw [renumbered.slots scope user jobId inside] at held
    obtain ⟨original, found, eq⟩ := Option.map_eq_some_iff.mp held
    exact ⟨original, (MemoryStore.mem_listUserSlots _ _ _ _).mpr ⟨jobId, found⟩, eq⟩
  · rintro ⟨original, listed, rfl⟩
    obtain ⟨jobId, found⟩ := (MemoryStore.mem_listUserSlots _ _ _ _).mp listed
    refine ⟨jobId, ?_⟩
    rw [renumbered.slots scope user jobId inside, found]
    rfl

theorem SamePc.eq (same : SamePc c d) {pc : AdmitPc} (at_ : c.pc = pc)
    (unranked : ∀ entries, pc ≠ .rank entries) : d.pc = pc := by
  cases same with
  | equal eq _ => exact eq.symm.trans at_
  | ranked at_' _ _ => exact absurd (at_.symm.trans at_') (unranked _)

/-- The same effect up to the listing that was read. -/
structure SameEffect (left right : Effect) : Prop where
  change : left.change = right.change
  synced : left.synced = right.synced
  reserves : left.reserves = right.reserves
  owes : left.owes = right.owes

theorem SameEffect.refl (effect : Effect) : SameEffect effect effect :=
  ⟨rfl, rfl, rfl, rfl⟩

/-- What the two runs know about the scope and user of an admission. -/
structure SameView (limiters : Nat → UserLimiter) (number : Nat → Nat) (s small : LimiterState)
    (d : Admit) : Prop where
  now : s.now = small.now
  counts : (s.counts d.limiter).lookup d.user = (small.counts d.limiter).lookup d.user
  cached : (s.cachedCount d.limiter).lookup d.user = (small.cachedCount d.limiter).lookup d.user
  listing : (s.store.listUserSlots (limiters d.limiter).scope d.user).Perm
    ((small.store.listUserSlots (limiters d.limiter).scope d.user).map (renumber number))

/-- The same effect, with listings that hold the same entries where one was read. -/
def MatchedEffect (number : Nat → Nat) (effect other : Effect) : Prop :=
  SameEffect effect other ∧
    (effect.pc = other.pc ∧ (∀ entries, effect.pc ≠ .rank entries) ∨
      effect.reserves = false ∧ ∃ entries others, effect.pc = .rank entries ∧
        other.pc = .rank others ∧ entries.Perm (others.map (renumber number)))

theorem MatchedEffect.refl (unranked : ∀ entries, effect.pc ≠ .rank entries) :
    MatchedEffect number effect effect :=
  ⟨.refl effect, Or.inl ⟨rfl, unranked⟩⟩

section Views

variable {s small : LimiterState}

theorem SameView.freshCount (same : SameCall number c d)
    (view : SameView limiters number s small d) : freshCount s c = freshCount small d := by
  unfold BitsBroker.freshCount
  rw [same.limiter, same.user, view.cached, view.now]

theorem SameView.countOf (same : SameCall number c d)
    (view : SameView limiters number s small d) :
    countOf (s.counts c.limiter) c.user = countOf (small.counts d.limiter) d.user := by
  unfold BitsBroker.countOf
  rw [same.limiter, same.user, view.counts]

theorem SameView.length (same : SameCall number c d)
    (view : SameView limiters number s small d) :
    (s.store.listUserSlots (limiters c.limiter).scope c.user).length =
      (small.store.listUserSlots (limiters d.limiter).scope d.user).length := by
  rw [same.limiter, same.user, view.listing.length_eq, List.length_map]

theorem effectHere_matched (same : SameCall number c d)
    (view : SameView limiters number s small d) :
    effectHere s c event = effectHere small d event := by
  unfold effectHere
  rw [same.max, view.countOf same]
  cases same.pc with
  | equal eq _ => rw [eq]
  | ranked left right _ => rw [left, right]

/-- Away from the listing and the rank the effects are equal. -/
theorem effectShared_equal (same : SameCall number c d)
    (view : SameView limiters number s small d) (equal : c.pc = d.pc) (notListed : c.pc ≠ .list)
    (unranked : ∀ entries, c.pc ≠ .rank entries) :
    effectShared limiters s c event = effectShared limiters small d event := by
  unfold effectShared
  rw [view.freshCount same, view.countOf same, view.length same, same.max, ← equal]
  cases pc : c.pc with
  | list => exact absurd pc notListed
  | rank entries => exact absurd pc (unranked entries)
  | begun | reserving | count | admitted | rejected | dropped => cases event <;> rfl

theorem effectShared_matched (same : SameCall number c d)
    (view : SameView limiters number s small d)
    (happens : effectShared limiters s c event = some effect) :
    ∃ other, effectShared limiters small d event = some other ∧
      MatchedEffect number effect other := by
  by_cases listed : c.pc = .list
  · have listed' := same.pc.eq listed (by simp)
    cases event with
    | step =>
        simp only [effectShared, listed, Option.some.injEq] at happens
        subst happens
        let others := small.store.listUserSlots (limiters d.limiter).scope d.user
        refine ⟨.goTo (.rank others), by simp only [effectShared, listed', others],
          ⟨rfl, rfl, rfl, rfl⟩, Or.inr ⟨rfl, _, others, rfl, rfl, ?_⟩⟩
        rw [same.limiter, same.user]
        exact view.listing
    | storeError =>
        simp only [effectShared, listed, Option.some.injEq] at happens
        subst happens
        exact ⟨_, by simp only [effectShared, listed'], .refl (by simp [Effect.goTo])⟩
    | drop =>
        simp only [effectShared, listed, Option.some.injEq] at happens
        subst happens
        exact ⟨_, by simp only [effectShared, listed'], .refl (by simp [Effect.leave])⟩
  · have unranked := (effectShared_case happens).unranked listed
    refine ⟨effect, ?_, .refl unranked⟩
    cases samePc : same.pc with
    | equal equal elsewhere => rw [← effectShared_equal same view equal listed elsewhere, happens]
    | ranked left right decide_ =>
        unfold effectShared at happens ⊢
        rw [left] at happens
        rw [right]
        cases event with
        | step =>
            simp only [same.seq, Option.map_map, Option.map_eq_some_iff, Function.comp] at happens
            obtain ⟨seq, reserved, eq⟩ := happens
            simp only [reserved, Option.map_some]
            rw [decide_ (number seq) seq (by rw [same.seq, reserved]; rfl) reserved, same.max] at eq
            rw [eq]
        | storeError | drop => simp at happens

end Views

theorem effectOf_matched {s small : LimiterState} (same : SameCall number c d)
    (view : SameView limiters number s small d)
    (happens : effectOf shared limiters s c event = some effect) :
    ∃ other, effectOf shared limiters small d event = some other ∧
      MatchedEffect number effect other := by
  unfold effectOf at happens ⊢
  split at happens
  next isShared =>
    simp only [isShared, if_true]
    exact effectShared_matched same view happens
  next alone =>
    simp only [alone, Bool.false_eq_true, if_false]
    have unlisted : ∀ entries, effect.pc ≠ .rank entries := by
      intro entries
      by_cases listed : c.pc = .list
      · unfold effectHere at happens
        simp [listed] at happens
      · have kind : EffectCase limiters s c effect := effectHere_case happens
        exact kind.unranked listed entries
    exact ⟨effect, effectHere_matched same view ▸ happens, .refl unlisted⟩

theorem effectOf_zero {s small : LimiterState} (zero : c.max = 0) (begun : c.pc = .begun)
    (alsoZero : d.max = 0) (alsoBegun : d.pc = .begun) :
    effectOf shared limiters s c event = effectOf shared limiters small d event := by
  unfold effectOf effectShared effectHere
  rw [begun, alsoBegun, zero, alsoZero]
  cases event <;> simp

theorem decisionOf_matched (samePc : SamePc c d) {other : Effect}
    (matched : MatchedEffect number effect other) :
    decisionOf c.pc effect.pc = decisionOf d.pc other.pc := by
  have unlogged : ∀ (before : AdmitPc) (entries : List UserLimitEntry),
      decisionOf before (.rank entries) = none := by
    intro before entries
    cases before <;> rfl
  rcases matched.2 with ⟨equal, _⟩ | ⟨_, entries, others, left, right, _⟩
  · rw [← equal]
    cases samePc with
    | equal eq _ => rw [eq]
    | ranked left right _ =>
        rw [left, right]
        cases effect.pc <;> rfl
  · rw [left, right, unlogged, unlogged]

theorem SameCall.renumber (same : SameCall number c d) {number' : Nat → Nat}
    (agrees : ∀ n, d.seq = some n → number' n = number n) : SameCall number' c d := by
  obtain ⟨limiter, user, jobId, max, seq, pc⟩ := same
  refine ⟨limiter, user, jobId, max, ?_, pc⟩
  rw [seq]
  cases reserved : d.seq with
  | none => rfl
  | some n => simp [agrees n reserved]

theorem CountChange.lookup_congr {left right : HashMap String Nat} {key : String}
    (same : left.lookup key = right.lookup key) (change : CountChange) :
    (change.apply left key).lookup key = (change.apply right key).lookup key := by
  cases change with
  | keep => exact same
  | take => simp [CountChange.apply, incrLocal, same]
  | back =>
      simp only [CountChange.apply, releaseLocal, same]
      cases found : right.lookup key with
      | none => simp [same, found]
      | some slot =>
          simp only
          split
          · simp
          · simp

theorem rel_imp {A B : Type} {r r' : A → B → Prop} {left : Option A} {right : Option B}
    (rel : Option.Rel r left right)
    (imp : ∀ a b, left = some a → right = some b → r a b → r' a b) :
    Option.Rel r' left right := by
  cases rel with
  | some holds => exact .some (imp _ _ rfl rfl holds)
  | none => exact .none

/-- The numbering after a reservation that both histories make. -/
def numberNext (number : Nat → Nat) (bound last : Nat) (n : Nat) : Nat :=
  if n ≤ bound then number n else last + (n - bound)

theorem strictMono_numberNext (increasing : StrictMono number) {bound last : Nat}
    (below : number bound ≤ last) : StrictMono (numberNext number bound last) := by
  intro left right less
  unfold numberNext
  by_cases low : left ≤ bound
  · have inside := increasing.monotone low
    by_cases high : right ≤ bound
    · rw [if_pos low, if_pos high]
      exact increasing less
    · rw [if_pos low, if_neg high]
      omega
  · rw [if_neg low, if_neg (by omega)]
    omega

/-- A reservation in the channel keeps the two stores in step. -/
structure SameStores (channel : String → String → Prop) (number : Nat → Nat)
    (store part : MemoryStore) : Prop where
  increasing : StrictMono number
  last : number part.userSeq ≤ store.userSeq
  slots (scope user jobId : String) : channel scope user →
    store.slotOf scope user jobId = (part.slotOf scope user jobId).map (renumber number)

theorem Renumbered.stores (renumbered : Renumbered seen channel number s small) :
    SameStores channel number s.limits.store small.limits.store :=
  ⟨renumbered.increasing, renumbered.last, renumbered.slots⟩

theorem SameStores.reserve {store part : MemoryStore}
    (same : SameStores channel number store part)
    (numbered : ∀ scope user jobId entry, part.slotOf scope user jobId = some entry →
      entry.seq ≤ part.userSeq)
    {scope user : String} (inside : channel scope user) (jobId owner : String) (now : Nat) :
    ∃ number', (∀ n, n ≤ part.userSeq → number' n = number n) ∧
      (store.reserveUserSlot scope user jobId owner now).1 =
        number' (part.reserveUserSlot scope user jobId owner now).1 ∧
      SameStores channel number' (store.reserveUserSlot scope user jobId owner now).2
        (part.reserveUserSlot scope user jobId owner now).2 := by
  have linked := same.slots scope user jobId inside
  cases held : part.slotOf scope user jobId with
  | some entry =>
      rw [held] at linked
      refine ⟨number, fun n _ => rfl, ?_⟩
      rw [MemoryStore.reserveUserSlot_existing linked, MemoryStore.reserveUserSlot_existing held]
      exact ⟨rfl, same⟩
  | none =>
      rw [held] at linked
      obtain ⟨seq, counter, slots⟩ := MemoryStore.reserveUserSlot_fresh linked owner now
      obtain ⟨seq', counter', slots'⟩ := MemoryStore.reserveUserSlot_fresh held owner now
      have next : numberNext number part.userSeq store.userSeq (part.userSeq + 1) =
          store.userSeq + 1 := by
        unfold numberNext
        rw [if_neg (by omega)]
        omega
      have earlier : ∀ n, n ≤ part.userSeq →
          numberNext number part.userSeq store.userSeq n = number n := by
        intro n low
        exact if_pos low
      refine ⟨numberNext number part.userSeq store.userSeq, earlier, ?_, ?_, ?_, ?_⟩
      · rw [seq, seq', next]
      · exact strictMono_numberNext same.increasing same.last
      · rw [counter, counter', next]
      · intro sc us job within
        rw [slots, slots', same.slots sc us job within]
        split
        · simp [renumber, next]
        · cases found : part.slotOf sc us job with
          | none => rfl
          | some entry => simp [renumber, earlier _ (numbered _ _ _ _ found)]

theorem Renumbered.act (renumbered : Renumbered seen channel number s small)
    (part : HistoryWf limiters seen channel small) (now : s.limits.now = small.limits.now)
    (index : s.names.idxOf? name = some i) (present : s.limits.calls[i]? = some c)
    (index' : small.names.idxOf? name = some j) (present' : small.limits.calls[j]? = some d)
    (same : SameCall number c d) {other : Effect} (matched : MatchedEffect number effect other)
    (inside : effect.reserves = true → channel (limiters d.limiter).scope d.user) :
    ∃ number', Renumbered seen channel number' (s.acted limiters name i c effect)
      (small.acted limiters name j d other) := by
  have view := callOf_acted limiters effect index present
  have view' := callOf_acted limiters other index' present'
  obtain ⟨sameEffect, pcs⟩ := matched
  cases reserves : effect.reserves with
  | false =>
      have reserves' : other.reserves = false := sameEffect.reserves ▸ reserves
      refine ⟨number, renumbered.increasing, ?_, ?_, ?_⟩
      · simpa [History.acted, LimiterState.perform, reserves, reserves'] using renumbered.last
      · intro scope user jobId within
        simpa [History.acted, LimiterState.perform, reserves, reserves'] using
          renumbered.slots scope user jobId within
      · intro query isSeen
        rw [view, view']
        split
        next =>
          refine .some ⟨same.limiter, same.user, same.jobId, same.max, ?_, ?_⟩
          · simpa [Admit.later, reserves, reserves'] using same.seq
          · rcases pcs with ⟨equal, unranked⟩ | ⟨_, entries, others, left, right, perm⟩
            · exact .equal equal unranked
            · refine .ranked left right ?_
              simp only [Admit.later, reserves, reserves', Bool.false_eq_true, if_false]
              intro m n numbered numbered'
              rw [same.seq, numbered', Option.map_some, Option.some.injEq] at numbered
              rw [← numbered, same.jobId]
              exact slotRank_renumber renumbered.increasing perm n d.jobId
        next => exact renumbered.calls query isSeen
  | true =>
      have reserves' : other.reserves = true := sameEffect.reserves ▸ reserves
      obtain ⟨number', earlier, seq, stores⟩ := renumbered.stores.reserve part.numbered
        (inside reserves) d.jobId (limiters d.limiter).brokerId s.limits.now
      refine ⟨number', stores.increasing, ?_, ?_, ?_⟩
      · simpa [History.acted, LimiterState.perform, reserves, reserves', Admit.reservation,
          same.limiter, same.user, same.jobId, now] using stores.last
      · intro scope user jobId within
        simpa [History.acted, LimiterState.perform, reserves, reserves', Admit.reservation,
          same.limiter, same.user, same.jobId, now] using stores.slots scope user jobId within
      · intro query isSeen
        rw [view, view']
        split
        next =>
          refine .some ⟨same.limiter, same.user, same.jobId, same.max, ?_, ?_⟩
          · simpa [Admit.later, reserves, reserves', Admit.reservation, same.limiter, same.user,
              same.jobId, now] using seq
          · rcases pcs with ⟨equal, unranked⟩ | ⟨quiet, _⟩
            · exact .equal equal unranked
            · simp [reserves] at quiet
        next =>
          refine rel_imp (renumbered.calls query isSeen) ?_
          intro call call' _ found linked
          refine linked.renumber ?_
          intro n numbered
          exact earlier n (part.reserved query call' n found numbered)

theorem index_of_callOf (known : s.callOf name = some c) :
    ∃ i, s.names.idxOf? name = some i ∧ s.limits.calls[i]? = some c :=
  Option.bind_eq_some_iff.mp known

theorem Renumbered.call_of (renumbered : Renumbered seen channel number s small)
    (isSeen : seen name = true) (known : s.callOf name = some c) :
    ∃ d, small.callOf name = some d ∧ SameCall number c d := by
  have linked := renumbered.calls name isSeen
  rw [known] at linked
  generalize small.callOf name = found at linked
  cases linked with
  | some same => exact ⟨_, rfl, same⟩

theorem Renumbered.no_call (renumbered : Renumbered seen channel number s small)
    (isSeen : seen name = true) (unknown : s.callOf name = none) : small.callOf name = none := by
  have linked := renumbered.calls name isSeen
  rw [unknown] at linked
  generalize small.callOf name = found at linked
  cases linked
  rfl

theorem Mirrors.view (mirror : Mirrors limiters seen channel s small)
    (renumbered : Renumbered seen channel number s small)
    (inside : channel (limiters d.limiter).scope d.user) :
    SameView limiters number s.limits small.limits d where
  now := mirror.now
  counts := mirror.counts _ _ inside
  cached := mirror.cached _ _ inside
  listing := renumbered.listing mirror.whole.slots mirror.part.slots inside

theorem Mirrors.act_seen (mirror : Mirrors limiters seen channel s small)
    (index : s.names.idxOf? name = some i) (present : s.limits.calls[i]? = some c)
    (happens : effectOf shared limiters s.limits c event = some effect)
    (isSeen : seen name = true) :
    ∃ later, HistoryMove shared limiters small later (.event name event) ∧
      Mirrors limiters seen channel (s.acted limiters name i c effect) later := by
  obtain ⟨number, renumbered⟩ := mirror.numbering
  have known : s.callOf name = some c := (callOf_of_index index).trans present
  obtain ⟨d, known', same⟩ := renumbered.call_of isSeen known
  obtain ⟨j, index', present'⟩ := index_of_callOf known'
  have answer : ∃ other, effectOf shared limiters small.limits d event = some other ∧
      MatchedEffect number effect other ∧
      (effect.change = .keep ∧ effect.synced = none ∧ effect.reserves = false ∨
        channel (limiters d.limiter).scope d.user) := by
    rcases mirror.whole.divided name c known with zero | iff
    · have begun := (mirror.whole.idle name c known zero).resolve_right
        (by simp [effectOf_running happens])
      have also := same.pc.eq begun (by simp)
      have equal : effectOf shared limiters s.limits c event =
          effectOf shared limiters small.limits d event :=
        effectOf_zero zero begun (same.max ▸ zero) also
      rw [equal] at happens
      rcases effectOf_idle happens (same.max ▸ zero) also with ⟨_, rfl⟩ | ⟨_, rfl⟩
      · exact ⟨_, happens, .refl (by simp [Effect.goTo]), Or.inl ⟨rfl, rfl, rfl⟩⟩
      · exact ⟨_, happens, .refl (by simp [Effect.goTo]), Or.inl ⟨rfl, rfl, rfl⟩⟩
    · have inside : channel (limiters d.limiter).scope d.user := by
        rw [← same.limiter, ← same.user]
        exact iff.mp isSeen
      obtain ⟨other, happens', matched⟩ :=
        effectOf_matched same (mirror.view renumbered inside) happens
      exact ⟨other, happens', matched, Or.inr inside⟩
  obtain ⟨other, happens', matched, reach⟩ := answer
  have effects := matched.1
  refine ⟨_, .acted index' present' happens' rfl, ?_⟩
  constructor
  · exact mirror.whole.act index present happens
  · exact mirror.part.act index' present' happens'
  · exact mirror.now
  · intro limiter user within
    by_cases here : limiter = d.limiter ∧ user = d.user
    · obtain ⟨rfl, rfl⟩ := here
      simp only [History.acted, LimiterState.perform, same.limiter, same.user, Function.update_self,
        effects.change]
      exact CountChange.lookup_congr (mirror.counts _ _ within) _
    · have here' : ¬ (limiter = c.limiter ∧ user = c.user) := by
        rw [same.limiter, same.user]
        exact here
      exact (lookup_perform_counts s.limits (Or.inr here')).trans
        ((mirror.counts limiter user within).trans
          (lookup_perform_counts small.limits (Or.inr here)).symm)
  · intro limiter user within
    by_cases here : limiter = d.limiter ∧ user = d.user
    · obtain ⟨rfl, rfl⟩ := here
      simp only [History.acted, LimiterState.perform, same.limiter, same.user, effects.synced]
      cases other.synced with
      | none => exact mirror.cached _ _ within
      | some count => simp [mirror.now]
    · have here' : ¬ (limiter = c.limiter ∧ user = c.user) := by
        rw [same.limiter, same.user]
        exact here
      exact (lookup_perform_cached s.limits (Or.inr here')).trans
        ((mirror.cached limiter user within).trans
          (lookup_perform_cached small.limits (Or.inr here)).symm)
  · intro query querySeen
    simp only [History.acted, List.mem_append, effects.owes, mirror.owed query querySeen]
  · simp only [History.acted, List.filter_append, mirror.decided,
      decisionOf_matched same.pc matched]
    cases decisionOf d.pc other.pc <;> simp [isSeen]
  · refine renumbered.act mirror.part mirror.now index present index' present' same matched ?_
    intro reserves
    rcases reach with ⟨_, _, quiet⟩ | inside
    · simp [reserves] at quiet
    · exact inside

theorem Mirrors.submit_seen (mirror : Mirrors limiters seen channel s small)
    (fresh : name ∉ s.names) (begun : c.pc = .begun) (unreserved : c.seq = none)
    (permitted : c.max = 0 ∨ (seen name = true ↔ channel (limiters c.limiter).scope c.user))
    (isSeen : seen name = true) :
    name ∉ small.names ∧
      Mirrors limiters seen channel (s.submitted name c) (small.submitted name c) := by
  obtain ⟨number, renumbered⟩ := mirror.numbering
  have unknown : s.callOf name = none := by
    rw [History.callOf, List.idxOf?_eq_none_iff.mpr fresh]
    rfl
  have fresh' : name ∉ small.names := by
    intro inside
    have missing := renumbered.no_call isSeen unknown
    cases index : small.names.idxOf? name with
    | none => exact List.idxOf?_eq_none_iff.mp index inside
    | some j =>
        obtain ⟨bound, _⟩ := List.idxOf?_eq_some_iff.mp index
        rw [callOf_of_index index, List.getElem?_eq_none_iff] at missing
        have := mirror.part.lengths
        omega
  refine ⟨fresh', mirror.whole.submit fresh begun unreserved permitted,
    mirror.part.submit fresh' begun unreserved permitted, mirror.now, mirror.counts,
    mirror.cached, mirror.owed, mirror.decided, number, renumbered.increasing, renumbered.last,
    renumbered.slots, ?_⟩
  intro query querySeen
  rw [callOf_submitted mirror.whole.lengths fresh, callOf_submitted mirror.part.lengths fresh']
  split
  · refine .some ⟨rfl, rfl, rfl, rfl, ?_, .equal rfl (by simp [begun])⟩
    simp [unreserved]
  · exact renumbered.calls query querySeen

theorem HistoryWf.release_of (wf : HistoryWf limiters seen channel s) (owed : name ∈ s.owed)
    (known : s.callOf name = some c) :
    ∃ index, s.owed.idxOf? name = some index ∧
      s.limits.releases[index]? = some (c.slot limiters) := by
  cases found : s.owed.idxOf? name with
  | none => exact absurd owed (List.idxOf?_eq_none_iff.mp found)
  | some index =>
      refine ⟨index, rfl, ?_⟩
      obtain ⟨bound, value, _⟩ := List.idxOf?_eq_some_iff.mp found
      have both : (s.limits.releases.map some)[index]? =
          (s.owed.map fun name => (s.callOf name).map (·.slot limiters))[index]? := by
        rw [wf.owedBy]
      simp only [List.getElem?_map, List.getElem?_eq_getElem bound, value, known,
        Option.map_some] at both
      cases release : s.limits.releases[index]? with
      | none => simp [release] at both
      | some slot => simpa [release] using both

theorem not_mem_eraseIdx {l : List T} {index : Nat} (found : l.idxOf? name = some index)
    (once : l.Nodup) : name ∉ l.eraseIdx index := by
  obtain ⟨bound, value, _⟩ := List.idxOf?_eq_some_iff.mp found
  rw [List.mem_eraseIdx_iff_getElem?]
  rintro ⟨k, different, at_⟩
  obtain ⟨inside, value'⟩ := List.getElem?_eq_some_iff.mp at_
  exact different ((once.getElem_inj_iff).mp (value'.trans value.symm))

theorem Mirrors.release_seen (mirror : Mirrors limiters seen channel s small) {index : Nat}
    {slot : SlotRelease} (found : s.owed.idxOf? name = some index)
    (present : s.limits.releases[index]? = some slot) (isSeen : seen name = true) :
    ∃ later, HistoryMove shared limiters small later (.release name) ∧
      Mirrors limiters seen channel { s with
        limits := { s.limits with
          store := s.limits.store.releaseUserSlot slot.scope slot.user slot.jobId
          releases := s.limits.releases.eraseIdx index }
        owed := s.owed.eraseIdx index } later := by
  obtain ⟨number, renumbered⟩ := mirror.numbering
  obtain ⟨c, known, eq⟩ := mirror.whole.owed_slot found present
  obtain ⟨d, known', same⟩ := renumbered.call_of isSeen known
  have owed : name ∈ s.owed := by
    have isSome : (s.owed.idxOf? name).isSome = true := by rw [found]; rfl
    simpa [List.isSome_idxOf?] using isSome
  have owed' := (mirror.owed name isSeen).mp owed
  obtain ⟨index', found', present'⟩ := mirror.part.release_of owed' known'
  have slots : d.slot limiters = slot := by
    rw [eq, Admit.slot, Admit.slot, same.limiter, same.user, same.jobId]
  rw [slots] at present'
  refine ⟨_, .released found' present' rfl, mirror.whole.release, mirror.part.release, mirror.now,
    mirror.counts, mirror.cached, ?_, mirror.decided, number, renumbered.increasing, ?_, ?_,
    renumbered.calls⟩
  · intro query querySeen
    by_cases here : query = name
    · subst here
      exact iff_of_false (not_mem_eraseIdx found mirror.whole.once)
        (not_mem_eraseIdx found' mirror.part.once)
    · rw [mem_eraseIdx_of_ne found here, mem_eraseIdx_of_ne found' here]
      exact mirror.owed query querySeen
  · simpa only [MemoryStore.userSeq_releaseUserSlot] using renumbered.last
  · intro scope user jobId within
    simp only [MemoryStore.slotOf_releaseUserSlot]
    split
    · rfl
    · exact renumbered.slots scope user jobId within

end Matched

section Runs

variable {shared : Bool} {limiters : Nat → UserLimiter} {seen : T → Bool}
  {channel : String → String → Prop}

theorem HistoryWf.initial (limiters : Nat → UserLimiter) (seen : T → Bool)
    (channel : String → String → Prop) (now : Nat) :
    HistoryWf limiters seen channel (History.new T now) := by
  have empty : ∀ name, (History.new T now).callOf name = none := fun _ => rfl
  constructor
  · rfl
  · rfl
  · exact List.nodup_nil
  · intro name call owed
    simp [History.new] at owed
  · intro name call known
    simp [empty] at known
  · intro name call known
    simp [empty] at known
  · intro scope user jobId entry found
    simp [History.new, LimiterState.new, MemoryStore.new, MemoryStore.slotOf] at found
  · intro scope user jobId entry found
    simp [History.new, LimiterState.new, MemoryStore.new, MemoryStore.slotOf] at found
  · intro name call seq known
    simp [empty] at known

theorem Mirrors.initial (limiters : Nat → UserLimiter) (seen : T → Bool)
    (channel : String → String → Prop) (now : Nat) :
    Mirrors limiters seen channel (History.new T now) (History.new T now) := by
  have wf := HistoryWf.initial limiters seen channel (T := T) now
  refine ⟨wf, wf, rfl, fun _ _ _ => rfl, fun _ _ _ => rfl, fun _ _ => Iff.rfl, rfl, id,
    strictMono_id, le_rfl, ?_, fun _ _ => .none⟩
  intro scope user jobId _
  simp [History.new, LimiterState.new, MemoryStore.new, MemoryStore.slotOf]

theorem Mirrors.unnoticed {s next small : History T} {action : HistoryAction T}
    (mirror : Mirrors limiters seen channel s small)
    (permitted : Divides limiters seen channel s action) (hidden : action.shown seen = false)
    (taken : historyStep shared limiters s action = some next) :
    Mirrors limiters seen channel next small := by
  cases historyStep_iff.mp taken with
  | advanced => simp [HistoryAction.shown] at hidden
  | submitted fresh eq =>
      rw [eq]
      exact mirror.submit_unseen fresh rfl rfl permitted hidden
  | acted index present happens eq =>
      rw [eq]
      exact mirror.act_unseen index present happens hidden
  | released found present eq =>
      rw [eq]
      exact mirror.release_unseen found present hidden

theorem Mirrors.matched {s next small : History T} {action : HistoryAction T}
    (mirror : Mirrors limiters seen channel s small)
    (permitted : Divides limiters seen channel s action) (shown : action.shown seen = true)
    (taken : historyStep shared limiters s action = some next) :
    ∃ later, historyStep shared limiters small action = some later ∧
      Mirrors limiters seen channel next later := by
  simp only [historyStep_iff]
  cases historyStep_iff.mp taken with
  | advanced eq =>
      rw [eq]
      obtain ⟨number, renumbered⟩ := mirror.numbering
      refine ⟨_, .advanced rfl, mirror.whole.advance _, mirror.part.advance _, ?_, mirror.counts,
        mirror.cached, mirror.owed, mirror.decided, number, renumbered.increasing,
        renumbered.last, renumbered.slots, renumbered.calls⟩
      rw [mirror.now]
  | @submitted name limiter user jobId max fresh eq =>
      rw [eq]
      obtain ⟨fresh', mirror'⟩ := mirror.submit_seen
        (c := ⟨limiter, user, jobId, max, none, .begun⟩) fresh rfl rfl permitted shown
      exact ⟨_, .submitted fresh' rfl, mirror'⟩
  | acted index present happens eq =>
      rw [eq]
      exact mirror.act_seen index present happens shown
  | released found present eq =>
      rw [eq]
      exact mirror.release_seen found present shown

/-- The decisions on the seen admissions are those of the history without the others. -/
theorem decided_of_path {now : Nat} {actions : List (HistoryAction T)} {s : History T}
    (path : Path (historyStep shared limiters) (Divides limiters seen channel)
      (History.new T now) actions s) :
    ∃ small, run (historyStep shared limiters) (History.new T now)
        (actions.filter (·.shown seen)) = some small ∧
      s.decided.filter (fun entry => seen entry.1) = small.decided := by
  have purged : ∃ small, run (historyStep shared limiters) (History.new T now)
      (actions.filter (·.shown seen)) = some small ∧ Mirrors limiters seen channel s small :=
    Path.purge (.initial limiters seen channel now)
      (fun _ _ _ _ mirror permitted hidden taken => mirror.unnoticed permitted hidden taken)
      (fun _ _ _ _ mirror permitted shown taken => mirror.matched permitted shown taken) path
  obtain ⟨small, ran, mirror⟩ := purged
  exact ⟨small, ran, mirror.decided⟩

theorem decided_eq {now : Nat} {firsts seconds : List (HistoryAction T)} {s t : History T}
    (first : Path (historyStep shared limiters) (Divides limiters seen channel)
      (History.new T now) firsts s)
    (second : Path (historyStep shared limiters) (Divides limiters seen channel)
      (History.new T now) seconds t)
    (same : firsts.filter (·.shown seen) = seconds.filter (·.shown seen)) :
    s.decided.filter (fun entry => seen entry.1) =
      t.decided.filter (fun entry => seen entry.1) := by
  obtain ⟨small, ran, left⟩ := decided_of_path first
  obtain ⟨small', ran', right⟩ := decided_of_path second
  rw [same, ran'] at ran
  obtain rfl := Option.some.inj ran
  exact left.trans right.symm

omit [DecidableEq T] in
theorem filter_shown_of_imp {seen wide : T → Bool}
    (wider : ∀ name, seen name = true → wide name = true) (actions : List (HistoryAction T)) :
    actions.filter (·.shown seen) = (actions.filter (·.shown wide)).filter (·.shown seen) := by
  rw [List.filter_filter]
  apply List.filter_congr
  intro action _
  cases action with
  | advance => rfl
  | submit name | event name | release name =>
      simp only [HistoryAction.shown]
      cases isSeen : seen name with
      | false => rfl
      | true => simp [wider name isSeen]

/-- Two histories that differ only in admissions outside `wide` decide alike on `mine`. -/
theorem decided_unaffected (wide mine : T → Bool)
    {allowed : History T → HistoryAction T → Prop} {now : Nat} {lefts rights : List (HistoryAction T)} {s t : History T}
    (divides : ∀ s action, allowed s action → Divides limiters seen channel s action)
    (outside : ∀ name, seen name = true → wide name = true)
    (inside : ∀ name, mine name = true → seen name = true)
    (left : Path (historyStep shared limiters) allowed (History.new T now) lefts s)
    (right : Path (historyStep shared limiters) allowed (History.new T now) rights t)
    (same : lefts.filter (·.shown wide) = rights.filter (·.shown wide)) :
    s.decided.filter (fun entry => mine entry.1) =
      t.decided.filter (fun entry => mine entry.1) := by
  have narrowed : lefts.filter (·.shown seen) = rights.filter (·.shown seen) := by
    rw [filter_shown_of_imp outside lefts, filter_shown_of_imp outside rights]
    exact congrArg _ same
  have decided := decided_eq (left.mono divides) (right.mono divides) narrowed
  have cut : ∀ u : History T, u.decided.filter (fun entry => mine entry.1) =
      (u.decided.filter fun entry => seen entry.1).filter fun entry => mine entry.1 := by
    intro u
    rw [List.filter_filter]
    apply List.filter_congr
    intro entry _
    cases own : mine entry.1 with
    | false => rfl
    | true => simp [inside entry.1 own]
  rw [cut s, cut t, decided]

end Runs

end BitsBroker
