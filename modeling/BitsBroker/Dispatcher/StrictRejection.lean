import BitsBroker.Dispatcher.StrictDecision

/-!
Rejections of the strict mode. The rank of a call counts the entries in the store, and an entry
is there from the reservation of its call until a release that a dropped or rejected call leaves
behind has run. A call is therefore rejected only while as many earlier reservations as its
ceiling hold an entry; but these need not be admitted guards. A call that will itself be rejected,
or dropped before it is admitted, counts as long as a guard does, and so does a guard that is gone
and whose release is still to run.
-/

namespace BitsBroker

open Transition Table Counting

/-- The call has not returned yet. -/
def AdmitPc.deciding : AdmitPc → Bool
  | .begun | .reserving | .list | .rank _ | .count => true
  | .admitted | .rejected | .dropped => false

/-- An earlier reservation that still has its entry in the store: its guard is alive, or the release
of the entry has not run. -/
def Admit.occupies (limiters : Nat → UserLimiter) (s : LimiterState) (scope user : String) (n : Nat)
    (call : Admit) : Bool :=
  call.reservedBelow limiters scope user n && ((call.slot limiters).entryIn s.store).isSome &&
    (call.pc.guarded || decide (call.slot limiters ∈ s.releases))

/-- Every entry in the store belongs to a live guard or is about to be released. -/
def Backed (limiters : Nat → UserLimiter) (s : LimiterState) : Prop :=
  ∀ (i : Nat) (call : Admit) (entry : UserLimitEntry), s.calls[i]? = some call →
    (call.slot limiters).entryIn s.store = some entry →
    call.pc.guarded = true ∨ call.slot limiters ∈ s.releases

section Entries

variable {limiters : Nat → UserLimiter} {s next : LimiterState} {call later : Admit}
  {event : AdmitEvent} {store : MemoryStore} {releases : List SlotRelease}
  {action : LimiterAction}

theorem strictMove_backed {entry : UserLimitEntry} {i : Nat} (wf : StrictWf limiters s)
    (present : s.calls[i]? = some call)
    (move : StrictMove limiters s call event later store releases)
    (held : (later.slot limiters).entryIn store = some entry) :
    later.pc.guarded = true ∨ later.slot limiters ∈ releases := by
  cases move with
  | reserved _ _ _ _ _ | listed _ | ranked _ _ _ => exact Or.inl rfl
  | outranked _ _ _ | guardDropped _ => exact Or.inr (by simp [Admit.slot])
  | cancelled begun =>
      have absent := wf.unreserved present begun
      exact absurd (absent.symm.trans held) (by simp)

theorem Backed.step (backed : Backed limiters s) (wf : StrictWf limiters s)
    (fresh : StrictFresh limiters s action) (taken : limiterStep limiters s action = some next) :
    Backed limiters next := by
  intro i found entry present held
  cases limiterStep_move taken with
  | advanced eq =>
      subst eq
      exact backed i found entry present held
  | begun eq =>
      subst eq
      rcases getElem?_of_snoc present with old | ⟨_, rfl⟩
      · exact backed i found entry old held
      · obtain ⟨j, other, there, sameSlot, _⟩ := wf.sourced _ entry held
        exact absurd sameSlot (fresh.2.2 other (List.mem_of_getElem? there))
  | @called k event call later _ _ known move calls sameStore sameReleases =>
      subst sameStore sameReleases
      have quiet : event ≠ .storeError := by
        rintro rfl
        exact fresh
      have strictly := strictMove_of_callMove wf known quiet move
      rw [calls] at present
      rcases getElem?_of_set present with ⟨rfl, rfl⟩ | ⟨elsewhere, old⟩
      · exact strictMove_backed wf known strictly held
      · rcases strictMove_entryIn strictly held with before | ⟨sameSlot, _⟩
        · rcases backed i found entry old before with guarded | released
          · exact Or.inl guarded
          · rcases callMove_releases move with same | ⟨more, _⟩
            · exact Or.inr (by rwa [same])
            · exact Or.inr (by rw [more]; exact List.mem_append_left _ released)
        · exact absurd (wf.distinct i k found call old known sameSlot) elsewhere
  | @released index gone pending eq =>
      subst eq
      have different : found.slot limiters ≠ gone := by
        rintro rfl
        rw [SlotRelease.entryIn, MemoryStore.slotOf_releaseUserSlot, if_pos ⟨rfl, rfl, rfl⟩] at held
        simp at held
      rcases backed i found entry present (entryIn_release held) with guarded | released
      · exact Or.inl guarded
      · refine Or.inr (List.mem_eraseIdx_iff_getElem?.mpr ?_)
        obtain ⟨j, there⟩ := List.mem_iff_getElem?.mp released
        refine ⟨j, ?_, there⟩
        rintro rfl
        exact different (Option.some.inj (there.symm.trans pending))

/-- The rank in a listing counts earlier reservations that still have their entries. -/
theorem Listing.le_occupied {scope user jobId : String} {n : Nat}
    (wf : StrictWf limiters s) (backed : Backed limiters s)
    (listing : Listing limiters s.calls scope user jobId n (s.store.listUserSlots scope user)) :
    (s.store.listUserSlots scope user).countP (fun entry => entry.seq < n) ≤
      s.calls.countP (Admit.occupies limiters s scope user n) := by
  apply listing.le_countP wf
  intro entry listed below i call present under named seq
  have slot : call.slot limiters = ⟨scope, user, entry.jobId⟩ := by
    simp only [Admit.under, Bool.and_eq_true, decide_eq_true_eq] at under
    simp [Admit.slot, under.1, under.2, named]
  have held : (call.slot limiters).entryIn s.store = some entry := by
    obtain ⟨jobId, stored⟩ := (MemoryStore.mem_listUserSlots _ _ _ _).mp listed
    obtain rfl := wf.named _ _ _ entry stored
    rw [slot]
    exact stored
  rcases backed i call entry present held with guarded | released
  · simp [Admit.occupies, Admit.reservedBelow, under, seq, below, held, guarded]
  · simp [Admit.occupies, Admit.reservedBelow, under, seq, below, held, released]

end Entries

section Runs

variable {limiters : Nat → UserLimiter} {now : Nat} {actions : List LimiterAction}
  {s : LimiterState}

theorem Backed.of_path
    (path : Path (limiterStep limiters) (StrictFresh limiters) (LimiterState.new now) actions s) :
    Backed limiters s := by
  induction path with
  | nil =>
      intro i call entry present
      simp [LimiterState.new] at present
  | snoc path fresh taken ih => exact ih.step (StrictRanked.of_path path).1 fresh taken

/-- The instant of a call at which it lists the entries. -/
def Admit.listing (i : Nat) (call : Admit) (s : LimiterState) : Prop :=
  s.calls[i]? = some { call with pc := .list }

/-- At the instant of its listing a call found its ceiling taken. -/
def Admit.Crowded (limiters : Nat → UserLimiter) (i : Nat) (call : Admit) (s : LimiterState) :
    Prop :=
  call.listing i s ∧ ∃ n, call.seq = some n ∧
    call.max ≤ s.calls.countP (Admit.occupies limiters s
      (limiters call.limiter).scope call.user n)

/-- What a call knows from its listing. -/
def Admit.Knows (limiters : Nat → UserLimiter) (now : Nat) (actions : List LimiterAction)
    (s : LimiterState) (i : Nat) (call : Admit) : Prop :=
  match call.pc with
  | .rank entries =>
      Passes (limiterStep limiters) (StrictFresh limiters) (LimiterState.new now) actions s
        fun middle => call.listing i middle ∧
          entries = middle.store.listUserSlots (limiters call.limiter).scope call.user
  | .rejected =>
      Passes (limiterStep limiters) (StrictFresh limiters) (LimiterState.new now) actions s
        (call.Crowded limiters i)
  | _ => True

theorem knows_of_path
    (path : Path (limiterStep limiters) (StrictFresh limiters) (LimiterState.new now) actions s) :
    ∀ (i : Nat) (call : Admit), s.calls[i]? = some call →
      call.Knows limiters now actions s i := by
  induction path with
  | nil =>
      intro i call present
      simp [LimiterState.new] at present
  | @snoc actions s action next path fresh taken ih =>
      have wf := (StrictRanked.of_path path).1
      intro i later present
      rcases (strictStep_of_step wf fresh taken).moved_cases present with
        old | ⟨begun, _⟩ | ⟨call, event, known, move⟩
      · have before := ih i later old
        unfold Admit.Knows at before ⊢
        split
        next entries pc =>
          rw [pc] at before
          exact Passes.snoc before fresh taken
        next pc =>
          rw [pc] at before
          exact Passes.snoc before fresh taken
        · trivial
      · simp [Admit.Knows, begun]
      · generalize next.store = store, next.releases = releases at move
        cases move with
        | listed pc =>
            have here : call.listing i s := by
              rw [Admit.listing, known, ← pc]
            exact (Passes.here path ⟨here, rfl⟩).snoc fresh taken
        | @outranked entries n pc seq above =>
            have listed := ih i call known
            simp only [Admit.Knows, pc] at listed
            refine Passes.snoc (listed.imp ?_) fresh taken
            rintro before middle first ⟨here, rfl⟩
            obtain ⟨wf, _⟩ := StrictRanked.of_path first
            have listing := wf.listing here rfl seq
            have rank := listing.slotRank_eq wf here seq rfl
            have few := listing.le_occupied wf (Backed.of_path first)
            refine ⟨here, n, seq, ?_⟩
            simp only at above rank few ⊢
            omega
        | _ => trivial

end Runs

/-- A strict admission is rejected only if, while it ran, at least as many earlier reservations
of the same scope and user as its ceiling had entries in the store. -/
theorem rejected_only_if_occupied (limiters : Nat → UserLimiter) (now : Nat)
    {actions : List LimiterAction} {s : LimiterState}
    (path : Path (limiterStep limiters) (StrictFresh limiters) (LimiterState.new now) actions s)
    (i : Nat) (call : Admit) (present : s.calls[i]? = some call) (rejected : call.pc = .rejected) :
    Passes (limiterStep limiters) (StrictFresh limiters) (LimiterState.new now) actions s
      fun middle => ∃ earlier n, middle.calls[i]? = some earlier ∧
        earlier.pc.deciding = true ∧ earlier.seq = some n ∧
        call.max ≤ middle.calls.countP (Admit.occupies limiters middle
          (limiters call.limiter).scope call.user n) := by
  have known := knows_of_path path i call present
  simp only [Admit.Knows, rejected] at known
  apply known.imp
  rintro before middle _ ⟨here, n, seq, full⟩
  exact ⟨{ call with pc := .list }, n, here, rfl, seq, full⟩

def strictFresh (limiters : Nat → UserLimiter) (s : LimiterState) : LimiterAction → Bool
  | .request limiter user jobId max => decide (1 ≤ max) && decide (max ≤ strictMaxThreshold) &&
      s.calls.all fun call => decide (call.slot limiters ≠ ⟨(limiters limiter).scope, user, jobId⟩)
  | .event _ .storeError => false
  | _ => true

theorem strictFresh_sound (limiters : Nat → UserLimiter) (s : LimiterState)
    (action : LimiterAction) (checked : strictFresh limiters s action = true) :
    StrictFresh limiters s action := by
  unfold strictFresh at checked
  split at checked
  · simp only [Bool.and_eq_true, decide_eq_true_eq, List.all_eq_true] at checked
    exact ⟨checked.1.1, checked.1.2, checked.2⟩
  · simp at checked
  next admits fails =>
    cases action with
    | request limiter user jobId max => exact absurd rfl (admits limiter user jobId max)
    | event i event =>
        cases event with
        | storeError => exact absurd rfl (fails i)
        | _ => trivial
    | _ => trivial

/-- Every rejection met its ceiling in live admitted guards. -/
def RejectedAtCap (limiters : Nat → UserLimiter) (now : Nat) (actions : List LimiterAction)
    (s : LimiterState) : Prop :=
  ∀ (i : Nat) (call : Admit), s.calls[i]? = some call → call.pc = .rejected →
    Passes (limiterStep limiters) (StrictFresh limiters) (LimiterState.new now) actions s
      fun middle => ∃ earlier, middle.calls[i]? = some earlier ∧ earlier.pc.deciding = true ∧
        call.max ≤ middle.calls.countP
          (Admit.admittedFor limiters (limiters call.limiter).scope call.user)

namespace Scenario

def decideOn (call : Nat) : List LimiterAction :=
  [.event call .step, .event call .step, .event call .step]

/-- The guard of the first job is gone and the release of its entry has not run. -/
def releaseLags : List LimiterAction :=
  [.request 0 "user" "job-0" 1] ++ decideOn 0 ++
    [.event 0 .drop, .request 1 "user" "job-1" 1] ++ decideOn 1

/-- The first job has reserved and is not admitted yet. -/
def stillDeciding : List LimiterAction :=
  [.request 0 "user" "job-0" 1, .event 0 .step, .request 1 "user" "job-1" 1] ++ decideOn 1

/-- The second call, while it has not returned, beside an admitted guard. -/
def besideAdmitted (s : LimiterState) : Bool :=
  s.calls[1]?.any (fun call => call.pc.deciding) &&
    decide (1 ≤ s.calls.countP (Admit.admittedFor replicas "pool" "user"))

def secondRejected : Admit := ⟨1, "user", "job-1", 1, some 2, .rejected⟩

end Scenario

open Scenario

theorem rejected_only_if_occupied_lagging :
    ∃ s, Path (limiterStep replicas) (StrictFresh replicas) (LimiterState.new 0) releaseLags s ∧
      s.calls[1]? = some secondRejected ∧ secondRejected.pc = .rejected ∧
      Passes (limiterStep replicas) (StrictFresh replicas) (LimiterState.new 0) releaseLags s
        fun middle => ∃ earlier n, middle.calls[1]? = some earlier ∧
          earlier.pc.deciding = true ∧ earlier.seq = some n ∧
          1 ≤ middle.calls.countP (Admit.occupies replicas middle "pool" "user" n) := by
  have ran : (run (fun s action => if strictFresh replicas s action then
      limiterStep replicas s action else none) (LimiterState.new 0) releaseLags).any
      (fun s => decide (s.calls[1]? = some secondRejected)) = true := by decide +kernel
  obtain ⟨s, finished, checked⟩ := (Option.any_eq_true _ _).mp ran
  have path := Path.of_run_if (strictFresh_sound replicas) _ _ finished
  have present : s.calls[1]? = some secondRejected := by simpa using checked
  exact ⟨s, path, present, rfl,
    rejected_only_if_occupied replicas 0 path 1 secondRejected present rfl⟩

theorem not_rejectedAtCap {actions : List LimiterAction} {s : LimiterState}
    (present : s.calls[1]? = some secondRejected)
    (never : ∀ count ∈ List.range (actions.length + 1),
      (run (limiterStep replicas) (LimiterState.new 0) (actions.take count)).all
        (fun s => !besideAdmitted s) = true) : ¬ RejectedAtCap replicas 0 actions s := by
  intro claimed
  refine not_passes besideAdmitted ?_ never (claimed 1 secondRejected present rfl)
  rintro middle ⟨earlier, there, deciding, full⟩
  have enough : 1 ≤ middle.calls.countP (Admit.admittedFor replicas "pool" "user") := full
  simp [besideAdmitted, there, deciding, enough]

/-- A user is rejected with no admitted guard: behind a release that lags, and behind an
admission that is not decided. -/
theorem rejected_below_cap :
    (∃ s, Path (limiterStep replicas) (StrictFresh replicas) (LimiterState.new 0) releaseLags s ∧
      ¬ RejectedAtCap replicas 0 releaseLags s) ∧
    ∃ s, Path (limiterStep replicas) (StrictFresh replicas) (LimiterState.new 0) stillDeciding s ∧
      ¬ RejectedAtCap replicas 0 stillDeciding s := by
  constructor
  · have ran : (run (fun s action => if strictFresh replicas s action then
        limiterStep replicas s action else none) (LimiterState.new 0) releaseLags).any
        (fun s => decide (s.calls[1]? = some secondRejected)) = true := by decide +kernel
    obtain ⟨s, finished, checked⟩ := (Option.any_eq_true _ _).mp ran
    refine ⟨s, Path.of_run_if (strictFresh_sound replicas) _ _ finished, ?_⟩
    exact not_rejectedAtCap (by simpa using checked) (by decide +kernel)
  · have ran : (run (fun s action => if strictFresh replicas s action then
        limiterStep replicas s action else none) (LimiterState.new 0) stillDeciding).any
        (fun s => decide (s.calls[1]? = some secondRejected)) = true := by decide +kernel
    obtain ⟨s, finished, checked⟩ := (Option.any_eq_true _ _).mp ran
    refine ⟨s, Path.of_run_if (strictFresh_sound replicas) _ _ finished, ?_⟩
    exact not_rejectedAtCap (by simpa using checked) (by decide +kernel)

end BitsBroker
