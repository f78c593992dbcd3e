import BitsBroker.Dispatcher.SlotCounts

/-!
The local counts of one limiter, one map operation at a time. An admission takes an entry
of the map, builds its guard and asks the store, whose answers are arbitrary here; the
guard then belongs to the dispatch, which can still find the queue full or the dispatcher
closed. Dropping a guard is two operations on the map, a decrement and a removal of the
entry at zero, and any other admission can run between them. Every count is the number of
admissions that have taken an entry and not yet given it back.
-/

namespace BitsBroker

open Transition Table Counting

/-- The entry of `key`, put in at zero if there is none: its count, or one more below `max`. -/
def admitEntry (counts : HashMap String Nat) (key : String) (max : Nat) :
    Except Nat Nat × HashMap String Nat :=
  let slot := (counts.lookup key).getD 0
  if max ≤ slot then (.error slot, AList.insert key slot counts)
  else (.ok (slot + 1), AList.insert key (slot + 1) counts)

def decrementLocal (counts : HashMap String Nat) (key : String) : HashMap String Nat :=
  match counts.lookup key with
  | none => counts
  | some slot => AList.insert key (slot - 1) counts

def removeIfZero (counts : HashMap String Nat) (key : String) : HashMap String Nat :=
  if counts.lookup key = some 0 then AList.erase key counts else counts

section Counts

variable {counts : HashMap String Nat} {key other : String} {max : Nat}

/-- With a positive ceiling the entry is there whenever the count is at the cap. -/
theorem lookup_admitEntry_error {current : Nat} {after : HashMap String Nat} (positive : 0 < max)
    (full : admitEntry counts key max = (.error current, after)) :
    after.lookup other = counts.lookup other := by
  simp only [admitEntry] at full
  split at full
  next atCap =>
    simp only [Prod.mk.injEq, Except.error.injEq] at full
    obtain ⟨rfl, rfl⟩ := full
    rw [HashMap.lookup_insert_eq]
    split
    next same =>
      subst same
      cases found : counts.lookup other with
      | none =>
          rw [found] at atCap
          simp at atCap
          omega
      | some slot => rfl
    next => rfl
  · simp at full

theorem admitEntry_ok {count : Nat} {after : HashMap String Nat}
    (admits : admitEntry counts key max = (.ok count, after)) :
    countOf counts key < max ∧ after = incrLocal counts key := by
  simp only [admitEntry] at admits
  split at admits
  · simp at admits
  next room =>
    simp only [Prod.mk.injEq] at admits
    exact ⟨Nat.lt_of_not_le room, admits.2.symm⟩

theorem countOf_incrLocal (counts : HashMap String Nat) (key other : String) :
    countOf (incrLocal counts key) other =
      if other = key then countOf counts key + 1 else countOf counts other := by
  rw [incrLocal, countOf_insert]
  rfl

theorem countOf_decrementLocal (counts : HashMap String Nat) (key other : String) :
    countOf (decrementLocal counts key) other =
      if other = key then countOf counts key - 1 else countOf counts other := by
  unfold decrementLocal
  cases found : counts.lookup key with
  | none =>
      simp only
      split
      next same =>
        subst same
        simp [countOf, found]
      next => rfl
  | some slot =>
      simp only
      rw [countOf_insert]
      simp [countOf, found]

theorem countOf_removeIfZero (counts : HashMap String Nat) (key other : String) :
    countOf (removeIfZero counts key) other = countOf counts other := by
  unfold removeIfZero
  split
  next zero =>
    simp only [countOf, HashMap.lookup_erase_eq]
    split
    next same =>
      subst same
      simp [zero]
    next => rfl
  next => rfl

end Counts

/-- How the dispatch of an admission ended. -/
inductive AdmissionExit where
  | userLimitExceeded
  | queueFull
  | dispatcherClosed
  | cancelled
  | finished
deriving DecidableEq

def AdmissionExit.rejects : AdmissionExit → Bool
  | .userLimitExceeded | .queueFull | .dispatcherClosed => true
  | .cancelled | .finished => false

inductive AdmissionPc where
  | begun
  | reserving
  | incrementing
  | building
  | listing
  | lazyReserving
  | freshness
  | cached
  | refreshing
  | acquiring
  | checkClosing
  | inserting
  | queued
  | decrementing (exit : AdmissionExit)
  | removing (exit : AdmissionExit)
  | ended (exit : AdmissionExit)
deriving DecidableEq

/-- The guard exists and its drop has not begun. -/
def AdmissionPc.live : AdmissionPc → Bool
  | .listing | .lazyReserving | .freshness | .cached | .refreshing | .acquiring | .checkClosing
  | .inserting | .queued => true
  | _ => false

def AdmissionPc.decrements : AdmissionPc → Bool
  | .decrementing _ => true
  | _ => false

/-- The admission has taken its entry and not given it back. -/
def AdmissionPc.counts (pc : AdmissionPc) : Bool :=
  decide (pc = .building) || pc.live || pc.decrements

structure Admission where
  key : String
  jobId : String
  max : Nat
  seq : Option Nat
  failedOpen : Bool
  pc : AdmissionPc
deriving DecidableEq

structure CountState where
  now : Nat
  counts : HashMap String Nat
  cachedCount : HashMap String (Nat × Nat)
  admissions : List Admission

def CountState.new (now : Nat) : CountState where
  now := now
  counts := ∅
  cachedCount := ∅
  admissions := []

inductive PermitAnswer where
  | permit
  | noPermits
  | closed
deriving DecidableEq

/-- `none` is an error of the store, or a list that timed out. -/
inductive AdmissionEvent where
  | step
  | reserved (answer : Option Nat)
  | listed (answer : Option (List UserLimitEntry))
  | acquired (answer : PermitAnswer)
  | closing (set : Bool)
  | drop
deriving DecidableEq

inductive CountAction where
  | advance (elapsed : Nat)
  | admission (key jobId : String) (max : Nat)
  | event (i : Nat) (event : AdmissionEvent)
deriving DecidableEq

namespace CountState

def setAdmission (s : CountState) (i : Nat) (a : Admission) : CountState :=
  { s with admissions := s.admissions.set i a }

def setPc (s : CountState) (i : Nat) (a : Admission) (pc : AdmissionPc) : CountState :=
  s.setAdmission i { a with pc := pc }

def setCounts (s : CountState) (counts : HashMap String Nat) : CountState :=
  { s with counts := counts }

end CountState

section Model

variable (shared : Bool)

def tryAdmit (s : CountState) (i : Nat) (a : Admission) : CountState :=
  match admitEntry s.counts a.key a.max with
  | (.error _, counts) => (s.setCounts counts).setPc i a (.ended .userLimitExceeded)
  | (.ok _, counts) => (s.setCounts counts).setPc i a .building

def beginAdmit (s : CountState) (i : Nat) (a : Admission) : CountState :=
  if a.max = 0 then s.setPc i a (.ended .userLimitExceeded)
  else if shared && strict a.max then s.setPc i a .reserving
  else tryAdmit s i a

def builtPc (a : Admission) : AdmissionPc :=
  if shared = false then .acquiring
  else if strict a.max then match a.seq with
    | some _ => .listing
    | none => .acquiring
  else .lazyReserving

def failOpen (s : CountState) (i : Nat) (a : Admission) : CountState :=
  s.setAdmission i { a with failedOpen := true, pc := .acquiring }

def rankAdmission (s : CountState) (i : Nat) (a : Admission) (seq : Nat)
    (entries : List UserLimitEntry) : CountState :=
  if slotRank entries seq a.jobId < a.max then s.setPc i a .acquiring
  else s.setPc i a (.decrementing .userLimitExceeded)

def readFreshness (s : CountState) (i : Nat) (a : Admission) : CountState :=
  match s.cachedCount.lookup a.key with
  | some (_, refreshed) =>
      if s.now - refreshed < lazyReconcileInterval then s.setPc i a .cached
      else s.setPc i a .refreshing
  | none => s.setPc i a .refreshing

def compareSynced (s : CountState) (i : Nat) (a : Admission) (synced : Nat) : CountState :=
  if a.max < synced then s.setPc i a (.decrementing .userLimitExceeded) else s.setPc i a .acquiring

def refreshCount (s : CountState) (i : Nat) (a : Admission) (entries : List UserLimitEntry) :
    CountState :=
  compareSynced
    { s with cachedCount := AList.insert a.key (entries.length, s.now) s.cachedCount } i a
    entries.length

def acquirePc : PermitAnswer → AdmissionPc
  | .permit => .checkClosing
  | .noPermits => .decrementing .queueFull
  | .closed => .decrementing .dispatcherClosed

def admissionEvent (s : CountState) (i : Nat) (a : Admission) (event : AdmissionEvent) :
    Option CountState :=
  match a.pc, event with
  | .begun, .step => some (beginAdmit shared s i a)
  | .begun, .drop => some (s.setPc i a (.ended .cancelled))
  | .reserving, .reserved answer =>
      some (s.setAdmission i
        { a with seq := answer, failedOpen := answer.isNone, pc := .incrementing })
  | .reserving, .drop => some (s.setPc i a (.ended .cancelled))
  | .incrementing, .step => some ((s.setCounts (incrLocal s.counts a.key)).setPc i a .building)
  | .building, .step => some (s.setPc i a (builtPc shared a))
  | .listing, .listed none => some (failOpen s i a)
  | .listing, .listed (some entries) => a.seq.map fun seq => rankAdmission s i a seq entries
  | .lazyReserving, .reserved none => some (failOpen s i a)
  | .lazyReserving, .reserved (some _) => some (s.setPc i a .freshness)
  | .freshness, .step => some (readFreshness s i a)
  | .cached, .step =>
      some (compareSynced s i a (((s.cachedCount.lookup a.key).map fun found => found.1).getD 0))
  | .refreshing, .listed none => some (failOpen s i a)
  | .refreshing, .listed (some entries) => some (refreshCount s i a entries)
  | .listing, .drop | .lazyReserving, .drop | .refreshing, .drop =>
      some (s.setPc i a (.decrementing .cancelled))
  | .acquiring, .acquired answer => some (s.setPc i a (acquirePc answer))
  | .checkClosing, .closing set =>
      some (s.setPc i a (if set then .decrementing .dispatcherClosed else .inserting))
  | .inserting, .closing set =>
      some (s.setPc i a (if set then .decrementing .dispatcherClosed else .queued))
  | .queued, .drop => some (s.setPc i a (.decrementing .finished))
  | .decrementing exit, .step =>
      some ((s.setCounts (decrementLocal s.counts a.key)).setPc i a (.removing exit))
  | .removing exit, .step =>
      some ((s.setCounts (removeIfZero s.counts a.key)).setPc i a (.ended exit))
  | _, _ => none

def countStep (s : CountState) : CountAction → Option CountState
  | .advance elapsed => some { s with now := s.now + elapsed }
  | .admission key jobId max =>
      some { s with admissions := s.admissions ++ [⟨key, jobId, max, none, false, .begun⟩] }
  | .event i event => s.admissions[i]?.bind fun a => admissionEvent shared s i a event

end Model

/-- The admission asks the store about the whole dispatcher, after the local gate. -/
def AdmissionPc.reconciles : AdmissionPc → Bool
  | .lazyReserving | .freshness | .cached | .refreshing => true
  | _ => false

/-- `admit` has returned the guard. -/
def AdmissionPc.granted : AdmissionPc → Bool
  | .acquiring | .checkClosing | .inserting | .queued => true
  | _ => false

/-- A step of an admission that leaves the counts alone. -/
inductive AdmissionStep (shared : Bool) (a : Admission) : AdmissionEvent → Admission → Prop
  | denied : a.pc = .begun → AdmissionStep shared a .step { a with pc := .ended .userLimitExceeded }
  | consulted : a.pc = .begun → shared = true → strict a.max = true →
      AdmissionStep shared a .step { a with pc := .reserving }
  | cancelled : a.pc = .begun ∨ a.pc = .reserving →
      AdmissionStep shared a .drop { a with pc := .ended .cancelled }
  | reserved (answer : Option Nat) : a.pc = .reserving →
      AdmissionStep shared a (.reserved answer)
        { a with seq := answer, failedOpen := answer.isNone, pc := .incrementing }
  | built : a.pc = .building → AdmissionStep shared a .step { a with pc := builtPc shared a }
  | ranked {entries : List UserLimitEntry} {seq : Nat} : a.pc = .listing → a.seq = some seq →
      slotRank entries seq a.jobId < a.max →
      AdmissionStep shared a (.listed (some entries)) { a with pc := .acquiring }
  | failed {event : AdmissionEvent} : a.pc.live = true →
      AdmissionStep shared a event { a with failedOpen := true, pc := .acquiring }
  | reconciled {event : AdmissionEvent} {pc : AdmissionPc} : a.pc.reconciles = true →
      pc.reconciles = true ∨ pc = .acquiring → AdmissionStep shared a event { a with pc := pc }
  | accepted {event : AdmissionEvent} {pc : AdmissionPc} : a.pc.granted = true →
      pc.granted = true → AdmissionStep shared a event { a with pc := pc }
  | dropped {event : AdmissionEvent} {exit : AdmissionExit} : a.pc.live = true →
      AdmissionStep shared a event { a with pc := .decrementing exit }

/-- What one step of an admission does to it and to the counts. -/
inductive AdmissionMove (shared : Bool) (s : CountState) (a : Admission) :
    AdmissionEvent → Admission → HashMap String Nat → Prop
  | quiet {event later counts} : AdmissionStep shared a event later →
      (∀ key, counts.lookup key = s.counts.lookup key) → AdmissionMove shared s a event later counts
  | gated : a.pc = .begun → shared = false ∨ strict a.max = false →
      countOf s.counts a.key < a.max →
      AdmissionMove shared s a .step { a with pc := .building } (incrLocal s.counts a.key)
  | counted : a.pc = .incrementing →
      AdmissionMove shared s a .step { a with pc := .building } (incrLocal s.counts a.key)
  | decremented {exit : AdmissionExit} : a.pc = .decrementing exit →
      AdmissionMove shared s a .step { a with pc := .removing exit }
        (decrementLocal s.counts a.key)
  | removed {exit : AdmissionExit} : a.pc = .removing exit →
      AdmissionMove shared s a .step { a with pc := .ended exit } (removeIfZero s.counts a.key)

inductive CountMove (shared : Bool) (s next : CountState) : CountAction → Prop
  | idle {elapsed} : next = { s with now := s.now + elapsed } →
      CountMove shared s next (.advance elapsed)
  | begun {key jobId max} :
      next = { s with admissions := s.admissions ++ [⟨key, jobId, max, none, false, .begun⟩] } →
      CountMove shared s next (.admission key jobId max)
  | moved {i event a later} : s.admissions[i]? = some a →
      AdmissionMove shared s a event later next.counts →
      next.admissions = s.admissions.set i later → CountMove shared s next (.event i event)

section Inversion

variable {shared : Bool} {s next : CountState} {i : Nat} {a : Admission} {event : AdmissionEvent}

theorem CountMove.of_step {later : Admission} (present : s.admissions[i]? = some a)
    (step : AdmissionStep shared a event later) (counts : next.counts = s.counts)
    (admissions : next.admissions = s.admissions.set i later) :
    CountMove shared s next (.event i event) :=
  .moved present (.quiet step fun key => by rw [counts]) admissions

theorem tryAdmit_move (present : s.admissions[i]? = some a) (pc : a.pc = .begun)
    (positive : a.max ≠ 0) (gate : shared = false ∨ strict a.max = false) :
    CountMove shared s (tryAdmit s i a) (.event i .step) := by
  unfold tryAdmit
  split
  next full =>
    exact .moved present
      (.quiet (.denied pc) fun key => lookup_admitEntry_error (by omega) full) rfl
  next admits =>
    obtain ⟨room, rfl⟩ := admitEntry_ok admits
    exact .moved present (.gated pc gate room) rfl

theorem beginAdmit_move (present : s.admissions[i]? = some a) (pc : a.pc = .begun) :
    CountMove shared s (beginAdmit shared s i a) (.event i .step) := by
  unfold beginAdmit
  split
  · exact .of_step present (.denied pc) rfl rfl
  next positive =>
    split
    next consults =>
      rw [Bool.and_eq_true] at consults
      exact .of_step present (.consulted pc consults.1 consults.2) rfl rfl
    next local_ =>
      refine tryAdmit_move present pc positive ?_
      cases shared with
      | false => exact Or.inl rfl
      | true => exact Or.inr (by simpa using local_)

theorem compareSynced_move {t : CountState} (present : s.admissions[i]? = some a)
    (reconciles : a.pc.reconciles = true) (live : a.pc.live = true)
    (admissions : t.admissions = s.admissions) (counts : t.counts = s.counts) (synced : Nat) :
    CountMove shared s (compareSynced t i a synced) (.event i event) := by
  unfold compareSynced
  split
  · exact .of_step present (.dropped live) counts (by rw [← admissions]; rfl)
  · exact .of_step present (.reconciled reconciles (Or.inr rfl)) counts (by rw [← admissions]; rfl)

theorem readFreshness_move (present : s.admissions[i]? = some a) (pc : a.pc = .freshness) :
    CountMove shared s (readFreshness s i a) (.event i event) := by
  have reconciles : a.pc.reconciles = true := by rw [pc]; rfl
  unfold readFreshness
  split
  · split
    · exact .of_step present (.reconciled reconciles (Or.inl rfl)) rfl rfl
    · exact .of_step present (.reconciled reconciles (Or.inl rfl)) rfl rfl
  · exact .of_step present (.reconciled reconciles (Or.inl rfl)) rfl rfl

theorem rankAdmission_move {entries : List UserLimitEntry} {seq : Nat}
    (present : s.admissions[i]? = some a) (pc : a.pc = .listing) (reserved : a.seq = some seq) :
    CountMove shared s (rankAdmission s i a seq entries) (.event i (.listed (some entries))) := by
  unfold rankAdmission
  split
  next below => exact .of_step present (.ranked pc reserved below) rfl rfl
  next => exact .of_step present (.dropped (by rw [pc]; rfl)) rfl rfl

theorem acquire_move (present : s.admissions[i]? = some a) (pc : a.pc = .acquiring)
    (answer : PermitAnswer) :
    CountMove shared s (s.setPc i a (acquirePc answer)) (.event i (.acquired answer)) := by
  cases answer with
  | permit => exact .of_step present (.accepted (by rw [pc]; rfl) rfl) rfl rfl
  | noPermits | closed => exact .of_step present (.dropped (by rw [pc]; rfl)) rfl rfl

theorem closing_move (present : s.admissions[i]? = some a) {pc : AdmissionPc}
    (granted : a.pc.granted = true) (live : a.pc.live = true) (passed : pc.granted = true)
    (set : Bool) :
    CountMove shared s (s.setPc i a (if set then .decrementing .dispatcherClosed else pc))
      (.event i (.closing set)) := by
  cases set with
  | true => exact .of_step present (.dropped live) rfl rfl
  | false => exact .of_step present (.accepted granted passed) rfl rfl

theorem admissionEvent_move (present : s.admissions[i]? = some a)
    (taken : admissionEvent shared s i a event = some next) :
    CountMove shared s next (.event i event) := by
  unfold admissionEvent at taken
  split at taken <;>
    try simp only [Option.some.injEq, Option.map_eq_some_iff, reduceCtorEq] at taken
  next pc => exact taken ▸ beginAdmit_move present pc
  next pc => exact taken ▸ .of_step present (.cancelled (Or.inl pc)) rfl rfl
  next pc => exact taken ▸ .of_step present (.reserved _ pc) rfl rfl
  next pc => exact taken ▸ .of_step present (.cancelled (Or.inr pc)) rfl rfl
  next pc => exact taken ▸ .moved present (.counted pc) rfl
  next pc => exact taken ▸ .of_step present (.built pc) rfl rfl
  next pc => exact taken ▸ .of_step present (.failed (by rw [pc]; rfl)) rfl rfl
  next pc =>
    obtain ⟨seq, reserved, rfl⟩ := taken
    exact rankAdmission_move present pc reserved
  next pc => exact taken ▸ .of_step present (.failed (by rw [pc]; rfl)) rfl rfl
  next pc => exact taken ▸ .of_step present (.reconciled (by rw [pc]; rfl) (Or.inl rfl)) rfl rfl
  next pc => exact taken ▸ readFreshness_move present pc
  next pc =>
    exact taken ▸ compareSynced_move present (by rw [pc]; rfl) (by rw [pc]; rfl) rfl rfl _
  next pc => exact taken ▸ .of_step present (.failed (by rw [pc]; rfl)) rfl rfl
  next pc =>
    subst taken
    unfold refreshCount
    apply compareSynced_move present
    · rw [pc]
      rfl
    · rw [pc]
      rfl
    · rfl
    · rfl
  next pc => exact taken ▸ .of_step present (.dropped (by rw [pc]; rfl)) rfl rfl
  next pc => exact taken ▸ .of_step present (.dropped (by rw [pc]; rfl)) rfl rfl
  next pc => exact taken ▸ .of_step present (.dropped (by rw [pc]; rfl)) rfl rfl
  next pc => exact taken ▸ acquire_move present pc _
  next pc => exact taken ▸ closing_move present (by rw [pc]; rfl) (by rw [pc]; rfl) rfl _
  next pc => exact taken ▸ closing_move present (by rw [pc]; rfl) (by rw [pc]; rfl) rfl _
  next pc => exact taken ▸ .of_step present (.dropped (by rw [pc]; rfl)) rfl rfl
  next pc => exact taken ▸ .moved present (.decremented pc) rfl
  next pc => exact taken ▸ .moved present (.removed pc) rfl

theorem countStep_move {action : CountAction} (taken : countStep shared s action = some next) :
    CountMove shared s next action := by
  cases action with
  | advance elapsed =>
      simp only [countStep, Option.some.injEq] at taken
      exact .idle taken.symm
  | admission key jobId max =>
      simp only [countStep, Option.some.injEq] at taken
      exact .begun taken.symm
  | event i event =>
      simp only [countStep, Option.bind_eq_some_iff] at taken
      obtain ⟨a, present, taken⟩ := taken
      exact admissionEvent_move present taken

end Inversion

theorem AdmissionPc.live_of_reconciles {pc : AdmissionPc} (reconciles : pc.reconciles = true) :
    pc.live = true := by
  cases pc <;> first | rfl | simp [AdmissionPc.reconciles] at reconciles

theorem AdmissionPc.live_of_granted {pc : AdmissionPc} (granted : pc.granted = true) :
    pc.live = true := by
  cases pc <;> first | rfl | simp [AdmissionPc.granted] at granted

theorem AdmissionPc.counts_of_live {pc : AdmissionPc} (live : pc.live = true) :
    pc.counts = true := by
  simp [AdmissionPc.counts, live]

def AdmissionPc.removes : AdmissionPc → Bool
  | .removing _ => true
  | _ => false

theorem AdmissionPc.removes_of_counts {pc : AdmissionPc} (counts : pc.counts = true) :
    pc.removes = false := by
  cases pc with
  | removing exit => simp [AdmissionPc.counts, AdmissionPc.live, AdmissionPc.decrements] at counts
  | _ => rfl

def Admission.takes (key : String) (a : Admission) : Bool :=
  decide (a.key = key) && a.pc.counts

def Admission.guards (key : String) (a : Admission) : Bool :=
  decide (a.key = key) && a.pc.live

def Admission.builds (key : String) (a : Admission) : Bool :=
  decide (a.key = key) && decide (a.pc = .building)

def Admission.drops (key : String) (a : Admission) : Bool :=
  decide (a.key = key) && a.pc.decrements

namespace CountState

def liveGuards (s : CountState) (key : String) : Nat := s.admissions.countP (Admission.guards key)

/-- Admissions that have incremented the count and not yet built their guard. -/
def unbuiltGuards (s : CountState) (key : String) : Nat :=
  s.admissions.countP (Admission.builds key)

/-- Drops that have not yet decremented the count. -/
def pendingDrops (s : CountState) (key : String) : Nat :=
  s.admissions.countP (Admission.drops key)

/-- A release of `key` stands between its decrement and its removal. -/
def Releasing (s : CountState) (key : String) : Prop :=
  ∃ (i : Nat) (a : Admission), s.admissions[i]? = some a ∧ a.key = key ∧ a.pc.removes = true

/-- Every admission of `key` passes the local gate, under a ceiling of at most `ceiling`. -/
def Gated (s : CountState) (shared : Bool) (key : String) (ceiling : Nat) : Prop :=
  ∀ a ∈ s.admissions, a.key = key →
    (shared = false ∨ strict a.max = false) ∧ a.max ≤ ceiling

theorem takes_eq_add (s : CountState) (key : String) :
    s.admissions.countP (Admission.takes key) =
      s.liveGuards key + s.unbuiltGuards key + s.pendingDrops key := by
  refine countP_eq_add ?_
  intro a _
  simp only [Admission.takes, Admission.guards, Admission.builds, Admission.drops]
  by_cases same : a.key = key
  · simp only [same, decide_true, Bool.true_and]
    cases a.pc <;> rfl
  · simp [same]

end CountState

structure CountWf (shared : Bool) (s : CountState) : Prop where
  counted (key : String) : countOf s.counts key = s.admissions.countP (Admission.takes key)
  zero (key : String) : s.counts.lookup key = some 0 → s.Releasing key
  consults (i : Nat) (a : Admission) : s.admissions[i]? = some a →
    a.pc = .reserving ∨ a.pc = .incrementing → shared = true ∧ strict a.max = true
  capped (key : String) (ceiling : Nat) : s.Gated shared key ceiling →
    countOf s.counts key ≤ ceiling

section Step

variable {shared : Bool} {s next : CountState} {i : Nat} {a later : Admission}
  {event : AdmissionEvent} {action : CountAction} {counts : HashMap String Nat} {key : String}

theorem builtPc_live (shared : Bool) (a : Admission) : (builtPc shared a).live = true := by
  unfold builtPc
  split
  · rfl
  · split
    · split <;> rfl
    · rfl

theorem AdmissionStep.counts_eq (step : AdmissionStep shared a event later) :
    later.pc.counts = a.pc.counts ∧ a.pc.removes = false := by
  have held : ∀ {pc : AdmissionPc}, a.pc.live = true → pc.counts = true →
      pc.counts = a.pc.counts ∧ a.pc.removes = false := by
    intro pc live counts
    have counted := AdmissionPc.counts_of_live live
    exact ⟨counts.trans counted.symm, AdmissionPc.removes_of_counts counted⟩
  cases step with
  | denied pc | consulted pc | reserved _ pc =>
      rw [pc]
      exact ⟨rfl, rfl⟩
  | cancelled pc =>
      rcases pc with pc | pc
      · rw [pc]
        exact ⟨rfl, rfl⟩
      · rw [pc]
        exact ⟨rfl, rfl⟩
  | built pc =>
      rw [pc]
      exact ⟨AdmissionPc.counts_of_live (builtPc_live shared a), rfl⟩
  | ranked pc _ _ => exact held (by rw [pc]; rfl) rfl
  | failed live | dropped live => exact held live rfl
  | reconciled reconciles onward =>
      refine held (AdmissionPc.live_of_reconciles reconciles) ?_
      rcases onward with reconciling | rfl
      · exact AdmissionPc.counts_of_live (AdmissionPc.live_of_reconciles reconciling)
      · rfl
  | accepted granted onward =>
      exact held (AdmissionPc.live_of_granted granted)
        (AdmissionPc.counts_of_live (AdmissionPc.live_of_granted onward))

theorem AdmissionStep.same (step : AdmissionStep shared a event later) :
    later.key = a.key ∧ later.jobId = a.jobId ∧ later.max = a.max := by
  cases step <;> exact ⟨rfl, rfl, rfl⟩

/-- Only an admission that consults the store comes to reserve and increment. -/
theorem AdmissionStep.consults (step : AdmissionStep shared a event later)
    (pc : later.pc = .reserving ∨ later.pc = .incrementing) :
    (shared = true ∧ strict a.max = true) ∨ a.pc = .reserving := by
  have never : later.pc.live = true →
      (shared = true ∧ strict a.max = true) ∨ a.pc = .reserving := by
    intro live
    rcases pc with pc | pc
    · rw [pc] at live
      simp [AdmissionPc.live] at live
    · rw [pc] at live
      simp [AdmissionPc.live] at live
  cases step with
  | consulted _ isShared isStrict => exact Or.inl ⟨isShared, isStrict⟩
  | reserved _ before => exact Or.inr before
  | built _ => exact never (builtPc_live shared a)
  | reconciled _ onward =>
      rcases onward with reconciling | rfl
      · exact never (AdmissionPc.live_of_reconciles reconciling)
      · exact never rfl
  | accepted _ onward => exact never (AdmissionPc.live_of_granted onward)
  | _ => simp at pc

theorem AdmissionMove.same (move : AdmissionMove shared s a event later counts) :
    later.key = a.key ∧ later.jobId = a.jobId ∧ later.max = a.max := by
  cases move with
  | quiet step _ => exact step.same
  | gated _ _ _ | counted _ | decremented _ | removed _ => exact ⟨rfl, rfl, rfl⟩

theorem CountMove.keeps (move : CountMove shared s next action) (inside : a ∈ s.admissions) :
    ∃ b ∈ next.admissions, b.key = a.key ∧ b.max = a.max := by
  cases move with
  | idle eq =>
      subst eq
      exact ⟨a, inside, rfl, rfl⟩
  | begun eq =>
      subst eq
      exact ⟨a, List.mem_append_left _ inside, rfl, rfl⟩
  | @moved i event before later present move admissions =>
      obtain ⟨j, found⟩ := List.mem_iff_getElem?.mp inside
      rw [admissions]
      by_cases here : i = j
      · subst here
        obtain rfl := Option.some.inj (present.symm.trans found)
        refine ⟨later, ?_, move.same.1, move.same.2.2⟩
        exact List.mem_of_getElem? (List.getElem?_set_self (List.getElem?_eq_some_iff.mp present).1)
      · refine ⟨a, ?_, rfl, rfl⟩
        exact List.mem_of_getElem? (by rw [List.getElem?_set_ne here]; exact found)

theorem CountMove.gated_before (move : CountMove shared s next action) {ceiling : Nat}
    (gated : next.Gated shared key ceiling) : s.Gated shared key ceiling := by
  intro a inside same
  obtain ⟨b, after, sameKey, sameMax⟩ := move.keeps inside
  have here := gated b after (sameKey.trans same)
  rwa [sameMax] at here

theorem CountWf.taken (wf : CountWf shared s) (present : s.admissions[i]? = some a)
    (takes : a.pc.counts = true) : 0 < countOf s.counts a.key := by
  rw [wf.counted, List.countP_pos_iff]
  exact ⟨a, List.mem_of_getElem? present, by simp [Admission.takes, takes]⟩

/-- A step moves the count of a key by what its admission takes or gives back. -/
theorem CountWf.count_move (wf : CountWf shared s) (present : s.admissions[i]? = some a)
    (move : AdmissionMove shared s a event later counts) (key : String) :
    countOf counts key + (a.takes key).toNat =
      countOf s.counts key + (later.takes key).toNat := by
  cases move with
  | quiet step same =>
      have unmoved : later.takes key = a.takes key := by
        rw [Admission.takes, Admission.takes, step.same.1, step.counts_eq.1]
      rw [unmoved, countOf, countOf, same]
  | gated pc _ _ | counted pc =>
      rw [countOf_incrLocal]
      by_cases here : key = a.key
      · subst here
        simp [Admission.takes, pc, AdmissionPc.counts, AdmissionPc.live, AdmissionPc.decrements]
      · simp [Admission.takes, here, Ne.symm here]
  | decremented pc =>
      have positive := wf.taken present (by rw [pc]; rfl)
      rw [countOf_decrementLocal]
      by_cases here : key = a.key
      · subst here
        simp [Admission.takes, pc, AdmissionPc.counts, AdmissionPc.live, AdmissionPc.decrements]
        omega
      · simp [Admission.takes, here, Ne.symm here]
  | removed pc =>
      rw [countOf_removeIfZero]
      simp [Admission.takes, pc, AdmissionPc.counts, AdmissionPc.live, AdmissionPc.decrements]

theorem CountWf.counted_step (wf : CountWf shared s) (move : CountMove shared s next action)
    (key : String) : countOf next.counts key = next.admissions.countP (Admission.takes key) := by
  cases move with
  | idle eq =>
      subst eq
      exact wf.counted key
  | begun eq =>
      subst eq
      rw [List.countP_append, ← wf.counted, List.countP_singleton]
      simp [Admission.takes, AdmissionPc.counts, AdmissionPc.live, AdmissionPc.decrements]
  | @moved i event a later present move admissions =>
      have table := countP_set_add (p := Admission.takes key) present later
      have map := wf.count_move present move key
      have before := wf.counted key
      rw [admissions]
      omega

theorem CountWf.zero_step (wf : CountWf shared s) (move : CountMove shared s next action)
    (key : String) (zero : next.counts.lookup key = some 0) : next.Releasing key := by
  cases move with
  | idle eq =>
      subst eq
      exact wf.zero key zero
  | begun eq =>
      subst eq
      obtain ⟨i, a, present, rest⟩ := wf.zero key zero
      refine ⟨i, a, ?_, rest⟩
      rw [List.getElem?_append_left (List.getElem?_eq_some_iff.mp present).1]
      exact present
  | @moved i event a later present move admissions =>
      have kept : s.counts.lookup key = some 0 → (a.key = key → a.pc.removes = false) →
          next.Releasing key := by
        intro before idle
        rw [CountState.Releasing, admissions]
        refine exists_of_set (wf.zero key before) present ?_
        rintro ⟨here, removes⟩
        simp [idle here] at removes
      generalize next.counts = counts at move zero
      cases move with
      | quiet step same =>
          rw [same] at zero
          exact kept zero fun _ => step.counts_eq.2
      | gated pc _ _ | counted pc =>
          rw [incrLocal, HashMap.lookup_insert_eq] at zero
          split at zero
          · simp at zero
          · exact kept zero fun _ => by rw [pc]; rfl
      | @decremented exit pc =>
          by_cases here : key = a.key
          · refine ⟨i, { a with pc := .removing exit }, ?_, here.symm, rfl⟩
            rw [admissions]
            exact List.getElem?_set_self (List.getElem?_eq_some_iff.mp present).1
          · have before : s.counts.lookup key = some 0 := by
              unfold decrementLocal at zero
              split at zero
              · exact zero
              · rw [HashMap.lookup_insert_eq] at zero
                simpa [here] using zero
            exact kept before fun same => absurd same.symm here
      | removed pc =>
          unfold removeIfZero at zero
          split at zero
          next empty =>
            rw [HashMap.lookup_erase_eq] at zero
            split at zero
            · simp at zero
            next elsewhere => exact kept zero fun same => absurd same.symm elsewhere
          next filled =>
            refine kept zero fun same => ?_
            exact absurd (same ▸ zero) filled

theorem CountWf.consults_step (wf : CountWf shared s) (move : CountMove shared s next action)
    (j : Nat) (b : Admission) (present : next.admissions[j]? = some b)
    (pc : b.pc = .reserving ∨ b.pc = .incrementing) : shared = true ∧ strict b.max = true := by
  cases move with
  | idle eq =>
      subst eq
      exact wf.consults j b present pc
  | begun eq =>
      subst eq
      rcases getElem?_of_snoc present with old | ⟨_, rfl⟩
      · exact wf.consults j b old pc
      · simp at pc
  | @moved i event a later known move admissions =>
      rw [admissions] at present
      rcases getElem?_of_set present with ⟨rfl, rfl⟩ | ⟨_, old⟩
      · generalize next.counts = counts at move
        cases move with
        | quiet step _ =>
            rcases step.consults pc with now | before
            · exact step.same.2.2 ▸ now
            · exact step.same.2.2 ▸ wf.consults j a known (Or.inl before)
        | _ => simp at pc
      · exact wf.consults j b old pc

theorem CountWf.capped_step (wf : CountWf shared s) (move : CountMove shared s next action)
    (key : String) (ceiling : Nat) (gated : next.Gated shared key ceiling) :
    countOf next.counts key ≤ ceiling := by
  have before := wf.capped key ceiling (move.gated_before gated)
  have earlier := move.gated_before gated
  cases move with
  | idle eq | begun eq =>
      subst eq
      exact before
  | @moved i event a later present move admissions =>
      have inside := List.mem_of_getElem? present
      generalize next.counts = counts at move
      cases move with
      | quiet _ same =>
          rw [countOf, same]
          exact before
      | gated _ _ room =>
          rw [countOf_incrLocal]
          split
          next here =>
            have bound := (earlier a inside here.symm).2
            omega
          next => exact before
      | counted pc =>
          rw [countOf_incrLocal]
          split
          next here =>
            have strictly := wf.consults i a present (Or.inr pc)
            have gate := (earlier a inside here.symm).1
            simp [strictly.1, strictly.2] at gate
          next => exact before
      | decremented _ =>
          rw [countOf_decrementLocal]
          split
          next here =>
            subst here
            omega
          next => exact before
      | removed _ =>
          rw [countOf_removeIfZero]
          exact before

theorem CountWf.step (wf : CountWf shared s) (move : CountMove shared s next action) :
    CountWf shared next := by
  constructor
  · exact wf.counted_step move
  · exact wf.zero_step move
  · exact wf.consults_step move
  · exact wf.capped_step move

end Step

theorem CountWf.initial (shared : Bool) (now : Nat) : CountWf shared (CountState.new now) := by
  constructor
  · intro key
    rfl
  · intro key zero
    simp [CountState.new] at zero
  · intro i a present
    simp [CountState.new] at present
  · intro key ceiling _
    exact Nat.zero_le _

theorem CountWf.reachable {shared : Bool} {now : Nat} {s : CountState}
    (reachable : Reachable (countStep shared) Always (CountState.new now) s) :
    CountWf shared s := by
  obtain ⟨actions, path⟩ := reachable
  refine path.invariant (CountWf.initial shared now) ?_
  intro state action next wf _ taken
  exact wf.step (countStep_move taken)

namespace CountWf

variable {shared : Bool} {s t : CountState} {i : Nat} {a : Admission} {key : String}

/-- Away from a release the entry of a key is its count, and there is none at zero. -/
theorem lookup_eq (wf : CountWf shared s) (settled : ¬ s.Releasing key) :
    s.counts.lookup key =
      if s.admissions.countP (Admission.takes key) = 0 then none
      else some (s.admissions.countP (Admission.takes key)) := by
  have counted := wf.counted key
  cases found : s.counts.lookup key with
  | none =>
      simp only [countOf, found, Option.getD_none] at counted
      simp [← counted]
  | some slot =>
      simp only [countOf, found, Option.getD_some] at counted
      rw [← counted]
      by_cases zero : slot = 0
      · subst zero
        exact absurd (wf.zero key found) settled
      · simp [zero]

theorem decrement_exact (wf : CountWf shared s) (present : s.admissions[i]? = some a)
    (drops : a.pc.decrements = true) : ∃ n, s.counts.lookup a.key = some (n + 1) := by
  have positive := wf.taken present (by simp [AdmissionPc.counts, drops])
  cases found : s.counts.lookup a.key with
  | none => simp [countOf, found] at positive
  | some slot =>
      simp only [countOf, found, Option.getD_some] at positive
      exact ⟨slot - 1, by rw [Nat.sub_add_cancel positive]⟩

theorem liveGuards_le (wf : CountWf shared s) {ceiling : Nat}
    (gated : s.Gated shared key ceiling) : s.liveGuards key ≤ ceiling := by
  have capped := wf.capped key ceiling gated
  have parts := s.takes_eq_add key
  have counted := wf.counted key
  omega

theorem takes_eraseIdx (present : s.admissions[i]? = some a) {exit : AdmissionExit}
    (ended : a.pc = .ended exit) (key : String) :
    (s.admissions.eraseIdx i).countP (Admission.takes key) =
      s.admissions.countP (Admission.takes key) := by
  refine countP_eraseIdx_eq present ?_
  simp [Admission.takes, ended, AdmissionPc.counts, AdmissionPc.live, AdmissionPc.decrements]

theorem releasing_of_eraseIdx (kept : t.admissions = s.admissions.eraseIdx i)
    (releasing : t.Releasing key) : s.Releasing key := by
  obtain ⟨j, b, there, rest⟩ := releasing
  rw [kept] at there
  have inside := List.mem_of_mem_eraseIdx (List.mem_of_getElem? there)
  obtain ⟨k, found⟩ := List.mem_iff_getElem?.mp inside
  exact ⟨k, b, found, rest⟩

end CountWf

/-- The local counts of a limiter, for every order of the operations of its admissions and
whatever the store answers. -/
theorem local_counts_exact {shared : Bool} {now : Nat} {s : CountState}
    (reachable : Reachable (countStep shared) Always (CountState.new now) s) :
    (∀ key, countOf s.counts key =
      s.liveGuards key + s.unbuiltGuards key + s.pendingDrops key) ∧
    (∀ key, s.counts.lookup key = some 0 → s.Releasing key) ∧
    (∀ (i : Nat) (a : Admission) (exit : AdmissionExit), s.admissions[i]? = some a →
      a.pc = .decrementing exit → ∃ n, s.counts.lookup a.key = some (n + 1)) ∧
    (∀ key ceiling, s.Gated shared key ceiling → s.liveGuards key ≤ ceiling) ∧
    (∀ (i : Nat) (a : Admission) (exit : AdmissionExit), s.admissions[i]? = some a →
      a.pc = .ended exit → exit.rejects = true →
      (∀ key, countOf s.counts key = (s.admissions.eraseIdx i).countP (Admission.takes key)) ∧
      ∀ (start : Nat) (without : CountState),
        Reachable (countStep shared) Always (CountState.new start) without →
        without.admissions = s.admissions.eraseIdx i → ∀ key,
        countOf s.counts key = countOf without.counts key ∧
          (¬ s.Releasing key → s.counts.lookup key = without.counts.lookup key)) := by
  have wf := CountWf.reachable reachable
  refine ⟨?_, wf.zero, ?_, ?_, ?_⟩
  · intro key
    rw [wf.counted, s.takes_eq_add]
  · intro i a exit present drops
    exact wf.decrement_exact present (by rw [drops]; rfl)
  · intro key ceiling gated
    exact wf.liveGuards_le gated
  · intro i a exit present ended _
    refine ⟨fun key => by rw [CountWf.takes_eraseIdx present ended, wf.counted], ?_⟩
    intro start without other kept key
    have wf' := CountWf.reachable other
    have others : without.admissions.countP (Admission.takes key) =
        s.admissions.countP (Admission.takes key) := by
      rw [kept, CountWf.takes_eraseIdx present ended]
    constructor
    · rw [wf.counted, wf'.counted, others]
    · intro settled
      have settled' : ¬ without.Releasing key := fun releasing =>
        settled (CountWf.releasing_of_eraseIdx kept releasing)
      rw [wf.lookup_eq settled, wf'.lookup_eq settled', others]

namespace Scenario

/-- The events of an admission without a store up to the pending map. -/
def admitThrough (i : Nat) : List CountAction :=
  [.event i .step, .event i .step, .event i (.acquired .permit), .event i (.closing false),
    .event i (.closing false)]

/-- Two jobs under the ceiling 2, a third over it, a fourth between its increment and its guard
after the first has decremented and not yet removed its entry, and a job of another user that
finds the queue full. -/
def overlappingReleases : List CountAction :=
  [.admission "ann" "a" 2, .admission "ann" "b" 2, .admission "ann" "c" 2] ++ admitThrough 0 ++
    admitThrough 1 ++ [.event 2 .step, .event 0 .drop, .event 0 .step, .event 1 .drop,
      .admission "ann" "d" 2, .event 3 .step, .admission "bob" "e" 1, .event 4 .step,
      .event 4 .step, .event 4 (.acquired .noPermits), .event 4 .step, .event 4 .step]

end Scenario

open Scenario in
theorem local_counts_overlappingReleases :
    ∃ s, Reachable (countStep false) Always (CountState.new 0) s ∧
      s.unbuiltGuards "ann" = 1 ∧ s.pendingDrops "ann" = 1 ∧ countOf s.counts "ann" = 2 ∧
      s.counts.lookup "bob" = none ∧ s.liveGuards "ann" ≤ 2 := by
  have ran : (run (countStep false) (CountState.new 0) overlappingReleases).any (fun s =>
      decide (s.unbuiltGuards "ann" = 1 ∧ s.pendingDrops "ann" = 1 ∧ s.liveGuards "ann" = 0 ∧
        s.counts.lookup "bob" = none ∧ ∀ a ∈ s.admissions, a.max ≤ 2)) = true := by
    decide +kernel
  obtain ⟨s, finished, checked⟩ := (Option.any_eq_true _ _).mp ran
  obtain ⟨unbuilt, pending, live, absent, small⟩ := of_decide_eq_true checked
  have reachable : Reachable (countStep false) Always (CountState.new 0) s :=
    ⟨_, Path.of_run _ _ finished⟩
  obtain ⟨exact, _, _, capped, _⟩ := local_counts_exact reachable
  refine ⟨s, reachable, unbuilt, pending, ?_, absent, ?_⟩
  · rw [exact "ann", unbuilt, pending, live]
  · exact capped "ann" 2 fun a inside _ => ⟨Or.inl rfl, small a inside⟩

end BitsBroker
