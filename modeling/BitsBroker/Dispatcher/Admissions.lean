import BitsBroker.Dispatcher.SlotCounts

/-!
Histories of admissions. The admissions of the limiters are addressed by names that the
history chooses instead of by their position, so that a history can be compared with
another one that has fewer or more admissions in it. Without a store the admission is the
local gate alone. Each decision is logged when it is made. What one event of an admission
does is summed up by an `Effect`: where the admission goes, what becomes of its local
count, whether it refreshes the cached count, makes a reservation or leaves a release to
run.
-/

namespace BitsBroker

open Transition

section Modes

variable (shared : Bool) (limiters : Nat → UserLimiter)

def LimiterState.giveBack (s : LimiterState) (i : Nat) (call : Admit) (pc : AdmitPc) :
    LimiterState :=
  (s.setCounts call.limiter (releaseLocal (s.counts call.limiter) call.user)).setPc i call pc

def admitHere (s : LimiterState) (i : Nat) (call : Admit) : LimiterState :=
  if call.max = 0 then s.setPc i call .rejected
  else match tryAdmitLocal (s.counts call.limiter) call.user call.max with
    | none => s.setPc i call .rejected
    | some counts => (s.setCounts call.limiter counts).setPc i call .admitted

/-- The events of an admission of a limiter that has no store. -/
def admitHereEvent (s : LimiterState) (i : Nat) (call : Admit) (event : AdmitEvent) :
    Option LimiterState :=
  match call.pc, event with
  | .begun, .step => some (admitHere s i call)
  | .begun, .drop => some (s.setPc i call .dropped)
  | .admitted, .drop => some (s.giveBack i call .dropped)
  | _, _ => none

def modeEvent (s : LimiterState) (i : Nat) (call : Admit) (event : AdmitEvent) :
    Option LimiterState :=
  if shared then admitEvent limiters s i call event else admitHereEvent s i call event

end Modes

def decisionOf (before after : AdmitPc) : Option Bool :=
  match before, after with
  | .admitted, _ => none
  | _, .admitted => some true
  | _, .rejected => some false
  | _, _ => none

structure History (T : Type) where
  limits : LimiterState
  names : List T
  owed : List T
  decided : List (T × Bool)

def History.new (T : Type) (now : Nat) : History T where
  limits := LimiterState.new now
  names := []
  owed := []
  decided := []

inductive HistoryAction (T : Type) where
  | advance (elapsed : Nat)
  | submit (name : T) (limiter : Nat) (user jobId : String) (max : Nat)
  | event (name : T) (event : AdmitEvent)
  | release (name : T)
deriving DecidableEq

section Histories

variable {T : Type} [DecidableEq T] (shared : Bool) (limiters : Nat → UserLimiter)

def History.submitted (s : History T) (name : T) (call : Admit) : History T :=
  { s with
    limits := { s.limits with calls := s.limits.calls ++ [call] }
    names := s.names ++ [name] }

/-- The history after an event of the admission `name`, which was at `before` and left the
limiters in `limits`. -/
def History.happened (s : History T) (name : T) (i : Nat) (before : AdmitPc)
    (limits : LimiterState) : History T where
  limits := limits
  names := s.names
  owed := if s.limits.releases.length < limits.releases.length then s.owed ++ [name] else s.owed
  decided := match limits.calls[i]?.bind fun later => decisionOf before later.pc with
    | some decision => s.decided ++ [(name, decision)]
    | none => s.decided

def historyStep (s : History T) : HistoryAction T → Option (History T)
  | .advance elapsed =>
      some { s with limits := { s.limits with now := s.limits.now + elapsed } }
  | .submit name limiter user jobId max =>
      if name ∈ s.names then none
      else some (s.submitted name ⟨limiter, user, jobId, max, none, .begun⟩)
  | .event name event => (s.names.idxOf? name).bind fun i => s.limits.calls[i]?.bind fun call =>
      (modeEvent shared limiters s.limits i call event).map (s.happened name i call.pc)
  | .release name => (s.owed.idxOf? name).bind fun index =>
      (limiterStep limiters s.limits (.release index)).map fun limits =>
        { s with limits := limits, owed := s.owed.eraseIdx index }

end Histories

inductive CountChange where
  | keep
  | take
  | back
deriving DecidableEq

structure Effect where
  pc : AdmitPc
  change : CountChange
  synced : Option Nat
  reserves : Bool
  owes : Bool

def CountChange.apply (counts : HashMap String Nat) (key : String) :
    CountChange → HashMap String Nat
  | .keep => counts
  | .take => incrLocal counts key
  | .back => releaseLocal counts key

def Effect.goTo (pc : AdmitPc) : Effect := ⟨pc, .keep, none, false, false⟩

def Effect.leave (pc : AdmitPc) : Effect := ⟨pc, .back, none, false, true⟩

def Effect.compare (max synced : Nat) : Effect :=
  if max < synced then .leave .rejected else .goTo .admitted

section Effects

variable (shared : Bool) (limiters : Nat → UserLimiter)

def effectHere (s : LimiterState) (call : Admit) (event : AdmitEvent) : Option Effect :=
  match call.pc, event with
  | .begun, .step =>
      if call.max = 0 then some (.goTo .rejected)
      else if call.max ≤ countOf (s.counts call.limiter) call.user then some (.goTo .rejected)
      else some ⟨.admitted, .take, none, false, false⟩
  | .begun, .drop => some (.goTo .dropped)
  | .admitted, .drop => some ⟨.dropped, .back, none, false, false⟩
  | _, _ => none

def effectShared (s : LimiterState) (call : Admit) (event : AdmitEvent) : Option Effect :=
  match call.pc, event with
  | .begun, .step =>
      if call.max = 0 then some (.goTo .rejected)
      else if strict call.max then some ⟨.list, .take, none, true, false⟩
      else if call.max ≤ countOf (s.counts call.limiter) call.user then some (.goTo .rejected)
      else some ⟨.reserving, .take, none, false, false⟩
  | .begun, .storeError =>
      if call.max ≠ 0 ∧ strict call.max then some ⟨.admitted, .take, none, false, false⟩ else none
  | .begun, .drop => some (.goTo .dropped)
  | .list, .step =>
      some (.goTo (.rank (s.store.listUserSlots (limiters call.limiter).scope call.user)))
  | .list, .storeError => some (.goTo .admitted)
  | .list, .drop => some (.leave .dropped)
  | .rank entries, .step => call.seq.map fun seq =>
      if slotRank entries seq call.jobId < call.max then .goTo .admitted else .leave .rejected
  | .reserving, .step => some ⟨.count, .keep, none, true, false⟩
  | .reserving, .storeError => some (.goTo .admitted)
  | .reserving, .drop => some (.leave .dropped)
  | .count, .step => match freshCount s call with
      | some count => some (.compare call.max count)
      | none =>
          let synced := (s.store.listUserSlots (limiters call.limiter).scope call.user).length
          some { Effect.compare call.max synced with synced := some synced }
  | .count, .storeError =>
      if (freshCount s call).isNone then some (.goTo .admitted) else none
  | .count, .drop => some (.leave .dropped)
  | .admitted, .drop => some (.leave .dropped)
  | _, _ => none

def effectOf (s : LimiterState) (call : Admit) (event : AdmitEvent) : Option Effect :=
  if shared then effectShared limiters s call event else effectHere s call event

def Admit.reservation (s : LimiterState) (call : Admit) : Nat × MemoryStore :=
  s.store.reserveUserSlot (limiters call.limiter).scope call.user call.jobId
    (limiters call.limiter).brokerId s.now

def Admit.later (s : LimiterState) (call : Admit) (effect : Effect) : Admit :=
  { call with
    seq := if effect.reserves then some (call.reservation limiters s).1 else call.seq
    pc := effect.pc }

def LimiterState.perform (s : LimiterState) (i : Nat) (call : Admit) (effect : Effect) :
    LimiterState where
  now := s.now
  store := if effect.reserves then (call.reservation limiters s).2 else s.store
  counts := Function.update s.counts call.limiter
    (effect.change.apply (s.counts call.limiter) call.user)
  cachedCount := match effect.synced with
    | none => s.cachedCount
    | some count => Function.update s.cachedCount call.limiter
        (AList.insert call.user (count, s.now) (s.cachedCount call.limiter))
  calls := s.calls.set i (call.later limiters s effect)
  releases := s.releases ++ if effect.owes then [call.slot limiters] else []

end Effects

section Equations

variable {shared : Bool} {limiters : Nat → UserLimiter} {s : LimiterState} {i : Nat}
  {call : Admit} {event : AdmitEvent}

theorem perform_goTo (pc : AdmitPc) :
    s.perform limiters i call (.goTo pc) = s.setPc i call pc := by
  simp [LimiterState.perform, Effect.goTo, CountChange.apply, Admit.later, LimiterState.setPc,
    LimiterState.setCall]

theorem perform_leave (pc : AdmitPc) :
    s.perform limiters i call (.leave pc) = s.dropGuard limiters i call pc := by
  simp [LimiterState.perform, Effect.leave, CountChange.apply, Admit.later, LimiterState.setPc,
    LimiterState.setCall, LimiterState.dropGuard, LimiterState.setCounts]

theorem perform_compare (synced : Nat) :
    s.perform limiters i call (.compare call.max synced) =
      admitSynced limiters s i call synced := by
  unfold Effect.compare admitSynced
  split
  · exact perform_leave .rejected
  · exact perform_goTo .admitted

theorem perform_sync (synced : Nat) {cached : Nat → HashMap String (Nat × Nat)}
    (refreshed : cached = Function.update s.cachedCount call.limiter
      (AList.insert call.user (synced, s.now) (s.cachedCount call.limiter))) :
    s.perform limiters i call { Effect.compare call.max synced with synced := some synced } =
      admitSynced limiters { s with cachedCount := cached } i call synced := by
  subst refreshed
  unfold Effect.compare admitSynced
  split
  · simp [LimiterState.perform, Effect.leave, CountChange.apply, Admit.later, LimiterState.setPc,
      LimiterState.setCall, LimiterState.dropGuard, LimiterState.setCounts]
  · simp [LimiterState.perform, Effect.goTo, CountChange.apply, Admit.later, LimiterState.setPc,
      LimiterState.setCall]

theorem tryAdmitLocal_eq (counts : HashMap String Nat) (key : String) (max : Nat) :
    tryAdmitLocal counts key max =
      if max ≤ countOf counts key then none else some (incrLocal counts key) := by
  unfold tryAdmitLocal countOf incrLocal
  rfl

theorem admitHereEvent_eq :
    admitHereEvent s i call event = (effectHere s call event).map (s.perform limiters i call) := by
  unfold admitHereEvent effectHere
  cases pc : call.pc with
  | begun =>
      cases event with
      | step =>
          unfold admitHere
          rw [tryAdmitLocal_eq]
          by_cases zero : call.max = 0
          · simp [zero, perform_goTo]
          · by_cases full : call.max ≤ countOf (s.counts call.limiter) call.user
            · simp [zero, full, perform_goTo]
            · simp [zero, full, LimiterState.perform, CountChange.apply, Admit.later,
                LimiterState.setPc, LimiterState.setCall, LimiterState.setCounts]
      | storeError => rfl
      | drop => simp [perform_goTo]
  | admitted =>
      cases event with
      | step | storeError => rfl
      | drop =>
          simp [LimiterState.perform, CountChange.apply, Admit.later, LimiterState.giveBack,
            LimiterState.setPc, LimiterState.setCall, LimiterState.setCounts]
  | list | rank | reserving | count | rejected | dropped => cases event <;> rfl

theorem admitBegin_eq :
    some (admitBegin limiters s i call) =
      (if call.max = 0 then some (Effect.goTo .rejected)
      else if strict call.max then some ⟨.list, .take, none, true, false⟩
      else if call.max ≤ countOf (s.counts call.limiter) call.user then some (.goTo .rejected)
      else some ⟨.reserving, .take, none, false, false⟩).map (s.perform limiters i call) := by
  unfold admitBegin
  rw [tryAdmitLocal_eq]
  split
  · simp [perform_goTo]
  · split
    · simp [LimiterState.perform, CountChange.apply, Admit.later, LimiterState.setCall,
        LimiterState.setCounts, admitReserve, Admit.reservation]
    · by_cases full : call.max ≤ countOf (s.counts call.limiter) call.user
      · simp [full, perform_goTo]
      · simp [full, LimiterState.perform, CountChange.apply, Admit.later, LimiterState.setPc,
          LimiterState.setCall, LimiterState.setCounts]

theorem admitEvent_eq :
    admitEvent limiters s i call event =
      (effectShared limiters s call event).map (s.perform limiters i call) := by
  unfold admitEvent effectShared
  cases pc : call.pc with
  | begun =>
      cases event with
      | step => exact admitBegin_eq
      | storeError =>
          by_cases fails : call.max ≠ 0 ∧ strict call.max
          · simp [fails, LimiterState.perform, CountChange.apply, Admit.later,
              LimiterState.setPc, LimiterState.setCall, LimiterState.setCounts]
          · simp [fails]
      | drop => simp [perform_goTo]
  | list =>
      cases event with
      | step => simp [perform_goTo, admitList]
      | storeError => simp [perform_goTo]
      | drop => simp [perform_leave]
  | rank entries =>
      cases event with
      | step =>
          simp only [Option.map_map]
          congr 1
          funext seq
          unfold admitRank
          simp only [Function.comp]
          split
          · exact (perform_goTo .admitted).symm
          · exact (perform_leave .rejected).symm
      | storeError | drop => rfl
  | reserving =>
      cases event with
      | step =>
          simp [LimiterState.perform, CountChange.apply, Admit.later, LimiterState.setCall,
            admitReserve, Admit.reservation]
      | storeError => simp [perform_goTo]
      | drop => simp [perform_leave]
  | count =>
      cases event with
      | step =>
          unfold admitCount
          cases fresh : freshCount s call with
          | some count => simp [perform_compare]
          | none =>
              dsimp only
              rw [Option.map_some]
              exact congrArg some (perform_sync _ rfl).symm
      | storeError =>
          by_cases stale : (freshCount s call).isNone = true
          · simp [stale, perform_goTo]
          · simp [stale]
      | drop => simp [perform_leave]
  | admitted =>
      cases event with
      | step | storeError => rfl
      | drop => simp [perform_leave]
  | rejected | dropped => cases event <;> rfl

theorem modeEvent_eq :
    modeEvent shared limiters s i call event =
      (effectOf shared limiters s call event).map (s.perform limiters i call) := by
  unfold modeEvent effectOf
  split
  · exact admitEvent_eq
  · exact admitHereEvent_eq

end Equations

end BitsBroker
