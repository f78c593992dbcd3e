import BitsBroker.Db.UserSlots
import BitsBroker.Lib.Counting
import BitsBroker.Lib.Table
import BitsBroker.Lib.Transition
import Mathlib.Logic.Function.Basic

/-!
The per-user admission limit of a dispatcher. `resolve` reads the user's identity and
ceiling from the job. Below it, any number of limiters over one store form a transition
system: an admission reserves a slot, lists the slots of its scope and user and compares
its rank with the ceiling (or, above the strict threshold, passes a local gate and then
compares a cached count). The guard of an admission is dropped with the local count at
once and with a release of the store entry that runs later, as a task of its own. An
admission can be dropped at its awaits, and a store call can fail, which admits.
-/

namespace BitsBroker

open Transition

structure RealmLimit where
  default : Option Nat
  roles : HashMap String Nat

structure UserLimitConfig where
  default : Option Nat
  realms : HashMap String RealmLimit

def raiseCeiling (effective : Option Nat) (candidate : Nat) : Option Nat :=
  some (match effective with
    | some current => max current candidate
    | none => candidate)

def UserLimitConfig.resolve (cfg : UserLimitConfig) (user : Json) : Option (String × Nat) :=
  match (user.pointer ["auth", "realm"]).bind Json.asStr,
      (user.pointer ["auth", "username"]).bind Json.asStr with
  | some realm, some username =>
      let effective := match cfg.realms.lookup realm with
        | none => cfg.default
        | some block =>
            let realmed := match block.default with
              | some realmDefault => raiseCeiling cfg.default realmDefault
              | none => cfg.default
            match (user.pointer ["auth", "roles"]).bind Json.asArray with
            | none => realmed
            | some roles => (roles.filterMap Json.asStr).foldl (fun effective role =>
                match block.roles.lookup role with
                | some roleMax => raiseCeiling effective roleMax
                | none => effective) realmed
      effective.map fun ceiling => (realm ++ "\x1f" ++ username, ceiling)
  | _, _ => none

def strictMaxThreshold : Nat := 3

def lazyReconcileInterval : Nat := 2000000000

def strict (max : Nat) : Bool := decide (max ≤ strictMaxThreshold)

structure UserLimiter where
  scope : String
  brokerId : String

def tryAdmitLocal (counts : HashMap String Nat) (key : String) (max : Nat) :
    Option (HashMap String Nat) :=
  let slot := (counts.lookup key).getD 0
  if max ≤ slot then none else some (AList.insert key (slot + 1) counts)

def incrLocal (counts : HashMap String Nat) (key : String) : HashMap String Nat :=
  AList.insert key ((counts.lookup key).getD 0 + 1) counts

def releaseLocal (counts : HashMap String Nat) (key : String) : HashMap String Nat :=
  match counts.lookup key with
  | none => counts
  | some slot =>
      if slot - 1 = 0 then AList.erase key counts else AList.insert key (slot - 1) counts

/-- The position of a reservation among the listed entries, ordered by sequence number and
then job. -/
def slotRank (entries : List UserLimitEntry) (seq : Nat) (jobId : String) : Nat :=
  (Counting.rankIn (toLex (seq, jobId))
    (entries.map fun entry => toLex (entry.seq, entry.jobId))).getD 0

inductive AdmitPc where
  | begun
  | reserving
  | list
  | rank (entries : List UserLimitEntry)
  | count
  | admitted
  | rejected
  | dropped
deriving DecidableEq

def AdmitPc.guarded : AdmitPc → Bool
  | .reserving | .list | .rank _ | .count | .admitted => true
  | _ => false

structure Admit where
  limiter : Nat
  user : String
  jobId : String
  max : Nat
  seq : Option Nat
  pc : AdmitPc
deriving DecidableEq

structure SlotRelease where
  scope : String
  user : String
  jobId : String
deriving DecidableEq

structure LimiterState where
  now : Nat
  store : MemoryStore
  counts : Nat → HashMap String Nat
  cachedCount : Nat → HashMap String (Nat × Nat)
  calls : List Admit
  releases : List SlotRelease

def LimiterState.new (now : Nat) : LimiterState where
  now := now
  store := MemoryStore.new
  counts := fun _ => ∅
  cachedCount := fun _ => ∅
  calls := []
  releases := []

inductive AdmitEvent where
  | step
  | storeError
  | drop
deriving DecidableEq

inductive LimiterAction where
  | advance (elapsed : Nat)
  | request (limiter : Nat) (user jobId : String) (max : Nat)
  | event (call : Nat) (event : AdmitEvent)
  | release (index : Nat)
deriving DecidableEq

section Model

variable (limiters : Nat → UserLimiter)

def Admit.slot (call : Admit) : SlotRelease :=
  ⟨(limiters call.limiter).scope, call.user, call.jobId⟩

namespace LimiterState

def setCall (s : LimiterState) (i : Nat) (call : Admit) : LimiterState :=
  { s with calls := s.calls.set i call }

def setPc (s : LimiterState) (i : Nat) (call : Admit) (pc : AdmitPc) : LimiterState :=
  s.setCall i { call with pc := pc }

def setCounts (s : LimiterState) (limiter : Nat) (counts : HashMap String Nat) : LimiterState :=
  { s with counts := Function.update s.counts limiter counts }

def dropGuard (s : LimiterState) (i : Nat) (call : Admit) (pc : AdmitPc) : LimiterState :=
  { (s.setCounts call.limiter (releaseLocal (s.counts call.limiter) call.user)).setPc i call pc with
    releases := s.releases ++ [call.slot limiters] }

end LimiterState

def admitReserve (s : LimiterState) (i : Nat) (call : Admit) (pc : AdmitPc) : LimiterState :=
  let limiter := limiters call.limiter
  let reserved := s.store.reserveUserSlot limiter.scope call.user call.jobId limiter.brokerId s.now
  { s.setCall i { call with seq := some reserved.1, pc := pc } with store := reserved.2 }

def admitBegin (s : LimiterState) (i : Nat) (call : Admit) : LimiterState :=
  if call.max = 0 then s.setPc i call .rejected
  else if strict call.max then
    (admitReserve limiters s i call .list).setCounts call.limiter
      (incrLocal (s.counts call.limiter) call.user)
  else match tryAdmitLocal (s.counts call.limiter) call.user call.max with
    | none => s.setPc i call .rejected
    | some counts => (s.setCounts call.limiter counts).setPc i call .reserving

def takesGuard (s : LimiterState) (call : Admit) : Bool :=
  decide (call.max ≠ 0) &&
    (strict call.max || (tryAdmitLocal (s.counts call.limiter) call.user call.max).isSome)

def admitList (s : LimiterState) (i : Nat) (call : Admit) : LimiterState :=
  s.setPc i call (.rank (s.store.listUserSlots (limiters call.limiter).scope call.user))

def admitRank (s : LimiterState) (i : Nat) (call : Admit) (entries : List UserLimitEntry)
    (seq : Nat) : LimiterState :=
  if slotRank entries seq call.jobId < call.max then s.setPc i call .admitted
  else s.dropGuard limiters i call .rejected

def freshCount (s : LimiterState) (call : Admit) : Option Nat :=
  match (s.cachedCount call.limiter).lookup call.user with
  | some (count, refreshed) =>
      if s.now - refreshed < lazyReconcileInterval then some count else none
  | none => none

def admitSynced (s : LimiterState) (i : Nat) (call : Admit) (synced : Nat) : LimiterState :=
  if call.max < synced then s.dropGuard limiters i call .rejected
  else s.setPc i call .admitted

def admitCount (s : LimiterState) (i : Nat) (call : Admit) : LimiterState :=
  match freshCount s call with
  | some count => admitSynced limiters s i call count
  | none =>
      let synced := (s.store.listUserSlots (limiters call.limiter).scope call.user).length
      let cached := AList.insert call.user (synced, s.now) (s.cachedCount call.limiter)
      admitSynced limiters
        { s with cachedCount := Function.update s.cachedCount call.limiter cached } i call synced

def admitEvent (s : LimiterState) (i : Nat) (call : Admit) (event : AdmitEvent) :
    Option LimiterState :=
  match call.pc, event with
  | .begun, .step => some (admitBegin limiters s i call)
  | .begun, .storeError =>
      if call.max ≠ 0 ∧ strict call.max then
        some ((s.setCounts call.limiter (incrLocal (s.counts call.limiter) call.user)).setPc i call
          .admitted)
      else none
  | .begun, .drop => some (s.setPc i call .dropped)
  | .list, .step => some (admitList limiters s i call)
  | .list, .storeError => some (s.setPc i call .admitted)
  | .list, .drop => some (s.dropGuard limiters i call .dropped)
  | .rank entries, .step => call.seq.map fun seq => admitRank limiters s i call entries seq
  | .reserving, .step => some (admitReserve limiters s i call .count)
  | .reserving, .storeError => some (s.setPc i call .admitted)
  | .reserving, .drop => some (s.dropGuard limiters i call .dropped)
  | .count, .step => some (admitCount limiters s i call)
  | .count, .storeError =>
      if (freshCount s call).isNone then some (s.setPc i call .admitted) else none
  | .count, .drop => some (s.dropGuard limiters i call .dropped)
  | .admitted, .drop => some (s.dropGuard limiters i call .dropped)
  | _, _ => none

def limiterStep (s : LimiterState) : LimiterAction → Option LimiterState
  | .advance elapsed => some { s with now := s.now + elapsed }
  | .request limiter user jobId max =>
      some { s with calls := s.calls ++ [⟨limiter, user, jobId, max, none, .begun⟩] }
  | .event i event => s.calls[i]?.bind fun call => admitEvent limiters s i call event
  | .release index => s.releases[index]?.map fun released => { s with
      store := s.store.releaseUserSlot released.scope released.user released.jobId
      releases := s.releases.eraseIdx index }

end Model

/-- What one step of an admission does to its call, to the store and to the releases that
are still to run. -/
inductive CallMove (limiters : Nat → UserLimiter) (s : LimiterState) (call : Admit) :
    AdmitEvent → Admit → MemoryStore → List SlotRelease → Prop
  | denied : call.pc = .begun → call.max = 0 ∨ strict call.max = false →
      CallMove limiters s call .step { call with pc := .rejected } s.store s.releases
  | reserved {pc : AdmitPc} : call.pc = .begun ∧ call.max ≠ 0 ∧ strict call.max = true ∧ pc = .list ∨
      call.pc = .reserving ∧ pc = .count →
      CallMove limiters s call .step
        { call with
          seq := some (s.store.reserveUserSlot (limiters call.limiter).scope call.user call.jobId
            (limiters call.limiter).brokerId s.now).1
          pc := pc }
        (s.store.reserveUserSlot (limiters call.limiter).scope call.user call.jobId
          (limiters call.limiter).brokerId s.now).2 s.releases
  | gated : call.pc = .begun → strict call.max = false → takesGuard s call = true →
      CallMove limiters s call .step { call with pc := .reserving } s.store s.releases
  | listed : call.pc = .list →
      CallMove limiters s call .step
        { call with
          pc := .rank (s.store.listUserSlots (limiters call.limiter).scope call.user) }
        s.store s.releases
  | ranked {entries : List UserLimitEntry} {seq : Nat} : call.pc = .rank entries →
      call.seq = some seq → slotRank entries seq call.jobId < call.max →
      CallMove limiters s call .step { call with pc := .admitted } s.store s.releases
  | outranked {entries : List UserLimitEntry} {seq : Nat} : call.pc = .rank entries →
      call.seq = some seq → call.max ≤ slotRank entries seq call.jobId →
      CallMove limiters s call .step { call with pc := .rejected } s.store
        (s.releases ++ [call.slot limiters])
  | synced : call.pc = .count →
      CallMove limiters s call .step { call with pc := .admitted } s.store s.releases
  | oversynced : call.pc = .count →
      CallMove limiters s call .step { call with pc := .rejected } s.store
        (s.releases ++ [call.slot limiters])
  | failedOpen : CallMove limiters s call .storeError { call with pc := .admitted } s.store s.releases
  | cancelled : call.pc = .begun →
      CallMove limiters s call .drop { call with pc := .dropped } s.store s.releases
  | guardDropped : call.pc.guarded = true →
      CallMove limiters s call .drop { call with pc := .dropped } s.store
        (s.releases ++ [call.slot limiters])

inductive LimiterMove (limiters : Nat → UserLimiter) (s next : LimiterState) :
    LimiterAction → Prop
  | advanced {elapsed} : next = { s with now := s.now + elapsed } →
      LimiterMove limiters s next (.advance elapsed)
  | begun {limiter user jobId max} :
      next = { s with calls := s.calls ++ [⟨limiter, user, jobId, max, none, .begun⟩] } →
      LimiterMove limiters s next (.request limiter user jobId max)
  | called {i event call later store releases} : s.calls[i]? = some call →
      CallMove limiters s call event later store releases → next.calls = s.calls.set i later →
      next.store = store → next.releases = releases → LimiterMove limiters s next (.event i event)
  | released {index released} : s.releases[index]? = some released →
      next = { s with
        store := s.store.releaseUserSlot released.scope released.user released.jobId
        releases := s.releases.eraseIdx index } →
      LimiterMove limiters s next (.release index)

section Inversion

variable {limiters : Nat → UserLimiter} {s next : LimiterState} {i : Nat} {call : Admit}
  {event : AdmitEvent}

theorem admitSynced_move (present : s.calls[i]? = some call) (pc : call.pc = .count)
    {t : LimiterState} (sameCalls : t.calls = s.calls) (sameStore : t.store = s.store)
    (sameReleases : t.releases = s.releases) (synced : Nat) :
    LimiterMove limiters s (admitSynced limiters t i call synced) (.event i .step) := by
  unfold admitSynced
  split
  · exact .called present (.oversynced pc) (by rw [← sameCalls]; rfl) sameStore
      (by rw [← sameReleases]; rfl)
  · exact .called present (.synced pc) (by rw [← sameCalls]; rfl) sameStore sameReleases

theorem admitEvent_move (present : s.calls[i]? = some call)
    (taken : admitEvent limiters s i call event = some next) :
    LimiterMove limiters s next (.event i event) := by
  unfold admitEvent at taken
  split at taken <;>
    try simp only [Option.some.injEq, Option.map_eq_some_iff, reduceCtorEq] at taken
  next pc =>
    subst taken
    unfold admitBegin
    split
    next zero => exact .called present (.denied pc (Or.inl zero)) rfl rfl rfl
    next positive =>
      split
      next isStrict =>
        exact .called present (.reserved (Or.inl ⟨pc, positive, isStrict, rfl⟩)) rfl rfl rfl
      next isLazy =>
        split
        · exact .called present (.denied pc (Or.inr (by simpa using isLazy))) rfl rfl rfl
        next admits =>
          have takes : takesGuard s call = true := by simp [takesGuard, positive, admits]
          exact .called present (.gated pc (by simpa using isLazy) takes) rfl rfl rfl
  next =>
    split at taken
    · simp only [Option.some.injEq] at taken
      subst taken
      exact .called present .failedOpen rfl rfl rfl
    · simp at taken
  next pc => exact taken ▸ .called present (.cancelled pc) rfl rfl rfl
  next pc => exact taken ▸ .called present (.listed pc) rfl rfl rfl
  next => exact taken ▸ .called present .failedOpen rfl rfl rfl
  next pc => exact taken ▸ .called present (.guardDropped (by rw [pc]; rfl)) rfl rfl rfl
  next entries pc =>
    obtain ⟨seq, reserved, rfl⟩ := taken
    unfold admitRank
    split
    next below => exact .called present (.ranked pc reserved below) rfl rfl rfl
    next above => exact .called present (.outranked pc reserved (by omega)) rfl rfl rfl
  next pc => exact taken ▸ .called present (.reserved (Or.inr ⟨pc, rfl⟩)) rfl rfl rfl
  next => exact taken ▸ .called present .failedOpen rfl rfl rfl
  next pc => exact taken ▸ .called present (.guardDropped (by rw [pc]; rfl)) rfl rfl rfl
  next pc =>
    subst taken
    unfold admitCount
    split
    · exact admitSynced_move present pc rfl rfl rfl _
    · dsimp only
      refine admitSynced_move present pc ?_ ?_ ?_ _
      all_goals rfl
  next =>
    split at taken
    · simp only [Option.some.injEq] at taken
      subst taken
      exact .called present .failedOpen rfl rfl rfl
    · simp at taken
  next pc => exact taken ▸ .called present (.guardDropped (by rw [pc]; rfl)) rfl rfl rfl
  next pc => exact taken ▸ .called present (.guardDropped (by rw [pc]; rfl)) rfl rfl rfl

theorem limiterStep_move {action : LimiterAction}
    (taken : limiterStep limiters s action = some next) : LimiterMove limiters s next action := by
  cases action with
  | advance elapsed =>
      simp only [limiterStep, Option.some.injEq] at taken
      exact .advanced taken.symm
  | request limiter user jobId max =>
      simp only [limiterStep, Option.some.injEq] at taken
      exact .begun taken.symm
  | event i event =>
      simp only [limiterStep, Option.bind_eq_some_iff] at taken
      obtain ⟨call, present, taken⟩ := taken
      exact admitEvent_move present taken
  | release index =>
      simp only [limiterStep, Option.map_eq_some_iff] at taken
      obtain ⟨released, present, eq⟩ := taken
      exact .released present eq.symm

end Inversion

end BitsBroker
