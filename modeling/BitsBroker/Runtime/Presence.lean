import BitsBroker.Lib.Counting
import BitsBroker.Lib.Table
import BitsBroker.Lib.Transition

/-!
Whether the client of a job is still there. A poll holds a `ConnectedGuard`, which counts itself
among the pollers of the job. When it is dropped it reads the clock, stores the deadline by which
the client has to be back and takes itself off the count. `is_client_present` loads the count,
reads the clock and loads the deadline. Each of these is a step of its own, and the steps of any
number of guards and checks of one job interleave. Time is in nanoseconds since `EPOCH`, and a
deadline is cut to 64 bits.

The deadline is stored, not raised: of two drops, the one that read the clock first may store last.
And the count is loaded before the clock is read: a client that comes back in between is not seen,
while the deadline that it met goes by. Apart from these two orders, and from deadlines that do not
fit 64 bits, no client is judged gone too early.
-/

namespace BitsBroker.Presence

open Transition Table

def instantToNanos (instant : Nat) : Nat := instant % 2 ^ 64

def nanosToInstant (nanos : Nat) : Nat := nanos

/-- A guard, with the reading of the clock from where its drop has made one. -/
inductive ConnectedGuard where
  | live
  | timed (reading : Nat)
  | stored (reading : Nat)
  | dropped (reading : Nat)
deriving DecidableEq

/-- A call of `is_client_present`. -/
inductive PresenceCheck where
  | begun
  | unpolled
  | timed (reading : Nat)
  | returned (present : Bool)
deriving DecidableEq

structure ClientState where
  now : Nat
  pollers : Nat
  deadline : Nat
  guards : List ConnectedGuard
  checks : List PresenceCheck
deriving DecidableEq

inductive ClientAction where
  | advance (elapsed : Nat)
  | connect
  | drop (guard : Nat)
  | ask
  | check (call : Nat)

/-- A job that has just been submitted. -/
def submitted (buffer now : Nat) : ClientState where
  now := now
  pollers := 0
  deadline := instantToNanos (now + buffer)
  guards := []
  checks := []

def connect (s : ClientState) : ClientState :=
  { s with pollers := s.pollers + 1, guards := s.guards ++ [.live] }

def dropGuard (buffer : Nat) (s : ClientState) (guard : Nat) : Option ClientState :=
  match s.guards[guard]? with
  | some .live => some { s with guards := s.guards.set guard (.timed s.now) }
  | some (.timed reading) =>
      some { s with
        deadline := instantToNanos (reading + buffer)
        guards := s.guards.set guard (.stored reading) }
  | some (.stored reading) =>
      some { s with
        pollers := s.pollers - 1
        guards := s.guards.set guard (.dropped reading) }
  | _ => none

def isClientPresent (s : ClientState) (call : Nat) : Option ClientState :=
  match s.checks[call]? with
  | some .begun =>
      let next := if 0 < s.pollers then .returned true else .unpolled
      some { s with checks := s.checks.set call next }
  | some .unpolled => some { s with checks := s.checks.set call (.timed s.now) }
  | some (.timed reading) =>
      let present := decide (reading < nanosToInstant s.deadline)
      some { s with checks := s.checks.set call (.returned present) }
  | _ => none

def step (buffer : Nat) (s : ClientState) : ClientAction → Option ClientState
  | .advance elapsed => some { s with now := s.now + elapsed }
  | .connect => some (connect s)
  | .drop guard => dropGuard buffer s guard
  | .ask => some { s with checks := s.checks ++ [.begun] }
  | .check call => isClientPresent s call

namespace ConnectedGuard

def isLive : ConnectedGuard → Bool
  | .dropped _ => false
  | _ => true

def storedAt : ConnectedGuard → Option Nat
  | .stored reading | .dropped reading => some reading
  | _ => none

/-- A disconnect happens when its drop reads the clock. -/
def droppedAt : ConnectedGuard → Option Nat
  | .dropped reading => some reading
  | _ => none

end ConnectedGuard

def NoneLive (s : ClientState) : Prop := ∀ guard ∈ s.guards, guard.isLive = false

/-- Every disconnect is at least the buffer ago. -/
def Elapsed (buffer : Nat) (s : ClientState) : Prop :=
  ∀ guard ∈ s.guards, ∀ reading ∈ guard.droppedAt, reading + buffer ≤ s.now

def Asking (call : Nat) (s : ClientState) : Prop :=
  ∃ check, s.checks[call]? = some check ∧ ∀ present, check ≠ .returned present

/-- Drops store in the order of their readings, deadlines that fit, and no client comes back within
the buffer while a check that saw no poller has not read the clock. -/
def Calm (buffer : Nat) (s : ClientState) : ClientAction → Prop
  | .drop guard => ∀ reading, s.guards[guard]? = some (.timed reading) →
      reading + buffer < 2 ^ 64 ∧
        ∀ other ∈ s.guards, ∀ earlier ∈ other.storedAt, earlier ≤ reading
  | .connect => NoneLive s → .unpolled ∈ s.checks → Elapsed buffer s
  | _ => True

structure NeverJudgedGone (buffer : Nat) (allowed : ClientState → ClientAction → Prop)
    (start : ClientState) (actions : List ClientAction) (last : ClientState) : Prop where
  forward : ∀ before after middle, actions = before ++ after →
    Path (step buffer) allowed start before middle →
    Path (step buffer) allowed middle after last → middle.deadline ≤ last.deadline
  extended : NoneLive last → ∀ guard ∈ last.guards, ∀ reading ∈ guard.droppedAt,
    reading + buffer ≤ last.deadline
  gone : ∀ call : Nat, last.checks[call]? = some (.returned false) →
    Passes (step buffer) allowed start actions last fun middle =>
      Asking call middle ∧ NoneLive middle ∧ Elapsed buffer middle

/-- What a step can do. -/
inductive Moves (buffer : Nat) (s : ClientState) : ClientAction → ClientState → Prop
  | advance (elapsed : Nat) : Moves buffer s (.advance elapsed) { s with now := s.now + elapsed }
  | connect : Moves buffer s .connect (connect s)
  | time {guard : Nat} (present : s.guards[guard]? = some .live) :
      Moves buffer s (.drop guard) { s with guards := s.guards.set guard (.timed s.now) }
  | store {guard reading : Nat} (present : s.guards[guard]? = some (.timed reading)) :
      Moves buffer s (.drop guard) { s with
        deadline := instantToNanos (reading + buffer)
        guards := s.guards.set guard (.stored reading) }
  | leave {guard reading : Nat} (present : s.guards[guard]? = some (.stored reading)) :
      Moves buffer s (.drop guard) { s with
        pollers := s.pollers - 1
        guards := s.guards.set guard (.dropped reading) }
  | ask : Moves buffer s .ask { s with checks := s.checks ++ [.begun] }
  | polled {call : Nat} (present : s.checks[call]? = some .begun) (some_ : 0 < s.pollers) :
      Moves buffer s (.check call) { s with checks := s.checks.set call (.returned true) }
  | unpolled {call : Nat} (present : s.checks[call]? = some .begun) (none_ : s.pollers = 0) :
      Moves buffer s (.check call) { s with checks := s.checks.set call .unpolled }
  | clock {call : Nat} (present : s.checks[call]? = some .unpolled) :
      Moves buffer s (.check call) { s with checks := s.checks.set call (.timed s.now) }
  | answer {call reading : Nat} (present : s.checks[call]? = some (.timed reading)) :
      Moves buffer s (.check call) { s with
        checks := s.checks.set call (.returned (decide (reading < nanosToInstant s.deadline))) }

section Steps

variable {buffer : Nat} {s next : ClientState} {action : ClientAction}

theorem step_moves (taken : step buffer s action = some next) : Moves buffer s action next := by
  cases action with
  | advance elapsed =>
      obtain rfl := Option.some.inj taken
      exact .advance elapsed
  | connect =>
      obtain rfl := Option.some.inj taken
      exact .connect
  | drop guard =>
      simp only [step, dropGuard] at taken
      split at taken
      next present =>
        obtain rfl := Option.some.inj taken
        exact .time present
      next reading present =>
        obtain rfl := Option.some.inj taken
        exact .store present
      next reading present =>
        obtain rfl := Option.some.inj taken
        exact .leave present
      · simp at taken
  | ask =>
      obtain rfl := Option.some.inj taken
      exact .ask
  | check call =>
      simp only [step, isClientPresent] at taken
      split at taken
      next present =>
        by_cases polled : 0 < s.pollers
        · rw [if_pos polled] at taken
          obtain rfl := Option.some.inj taken
          exact .polled present polled
        · rw [if_neg polled] at taken
          obtain rfl := Option.some.inj taken
          exact .unpolled present (by omega)
      next present =>
        obtain rfl := Option.some.inj taken
        exact .clock present
      next reading present =>
        obtain rfl := Option.some.inj taken
        exact .answer present
      · simp at taken

/-- The count is the number of live guards, and the deadline is the latest one stored. -/
structure Wf (buffer since : Nat) (s : ClientState) : Prop where
  counted : s.pollers = s.guards.countP ConnectedGuard.isLive
  clock : since ≤ s.now
  readings : ∀ reading, .timed reading ∈ s.guards → since ≤ reading
  covered : ∀ guard ∈ s.guards, ∀ reading ∈ guard.storedAt, reading + buffer ≤ s.deadline
  source : s.deadline ≤ since + buffer ∨
    ∃ (i : Nat) (guard : ConnectedGuard), s.guards[i]? = some guard ∧
      ∃ reading ∈ guard.storedAt, s.deadline ≤ reading + buffer

theorem wf_submitted (buffer now : Nat) : Wf buffer now (submitted buffer now) where
  counted := rfl
  clock := Nat.le_refl now
  readings := by simp [submitted]
  covered := by simp [submitted]
  source := Or.inl (Nat.mod_le _ _)

theorem NoneLive.of_pollers {since : Nat} (wf : Wf buffer since s) (unpolled : s.pollers = 0) :
    NoneLive s := by
  have none_ : s.guards.countP ConnectedGuard.isLive = 0 := wf.counted.symm.trans unpolled
  intro guard inside
  simpa using List.countP_eq_zero.mp none_ guard inside

theorem mem_storedAt_of_droppedAt {guard : ConnectedGuard} {reading : Nat}
    (dropped : reading ∈ guard.droppedAt) : reading ∈ guard.storedAt := by
  cases guard with
  | dropped _ => exact dropped
  | live | timed _ | stored _ => simp [ConnectedGuard.droppedAt] at dropped

/-- A drop that stores in its turn raises the deadline. -/
theorem Wf.raises {since guard reading : Nat} (wf : Wf buffer since s)
    (calm : Calm buffer s (.drop guard)) (present : s.guards[guard]? = some (.timed reading)) :
    instantToNanos (reading + buffer) = reading + buffer ∧ s.deadline ≤ reading + buffer := by
  obtain ⟨fits, inTurn⟩ := calm reading present
  refine ⟨Nat.mod_eq_of_lt fits, ?_⟩
  have later := wf.readings reading (List.mem_of_getElem? present)
  rcases wf.source with initial | ⟨_, other, there, earlier, stored, bound⟩
  · omega
  · have order := inTurn other (List.mem_of_getElem? there) earlier stored
    omega

theorem Moves.deadline_le {since : Nat} (wf : Wf buffer since s) (calm : Calm buffer s action)
    (moved : Moves buffer s action next) : s.deadline ≤ next.deadline := by
  cases moved with
  | store present =>
      obtain ⟨exact_, raised⟩ := wf.raises calm present
      simpa only [exact_] using raised
  | _ => exact Nat.le_refl _

/-- A guard that has stored nothing changes into another one. -/
theorem Wf.source_set {since guard : Nat} {old new : ConnectedGuard} (wf : Wf buffer since s)
    (present : s.guards[guard]? = some old) (kept : old.storedAt ≠ none → new.storedAt = old.storedAt) :
    s.deadline ≤ since + buffer ∨
      ∃ (i : Nat) (guard_ : ConnectedGuard), (s.guards.set guard new)[i]? = some guard_ ∧
        ∃ reading ∈ guard_.storedAt, s.deadline ≤ reading + buffer := by
  rcases wf.source with initial | some_
  · exact Or.inl initial
  · refine Or.inr (exists_of_set some_ present ?_)
    rintro ⟨reading, stored, bound⟩
    refine ⟨reading, ?_, bound⟩
    rwa [kept (by rw [Option.mem_def.mp stored]; simp)]

theorem Wf.move {since : Nat} (wf : Wf buffer since s) (calm : Calm buffer s action)
    (moved : Moves buffer s action next) : Wf buffer since next := by
  cases moved with
  | advance elapsed =>
      exact ⟨wf.counted, Nat.le_trans wf.clock (Nat.le_add_right _ _), wf.readings, wf.covered,
        wf.source⟩
  | connect =>
      refine ⟨?_, wf.clock, ?_, ?_, ?_⟩
      · simp [connect, wf.counted, List.countP_append, ConnectedGuard.isLive]
      · intro reading inside
        exact wf.readings reading (by simpa [connect] using inside)
      · intro guard inside reading stored
        rcases List.mem_append.mp inside with old | new
        · exact wf.covered guard old reading stored
        · obtain rfl : guard = .live := by simpa using new
          simp [ConnectedGuard.storedAt] at stored
      · rcases wf.source with initial | ⟨i, guard, there, stored⟩
        · exact Or.inl initial
        · have bound := (List.getElem?_eq_some_iff.mp there).1
          exact Or.inr ⟨i, guard, by simpa [connect, List.getElem?_append_left bound], stored⟩
  | @time guard present =>
      refine ⟨?_, wf.clock, ?_, ?_, ?_⟩
      · have kept : (s.guards.set guard (.timed s.now)).countP ConnectedGuard.isLive =
            s.guards.countP ConnectedGuard.isLive := Counting.countP_set_eq present rfl
        exact wf.counted.trans kept.symm
      · intro reading inside
        rcases List.mem_or_eq_of_mem_set inside with old | new
        · exact wf.readings reading old
        · obtain rfl : reading = s.now := by simpa using new
          exact wf.clock
      · intro other inside reading stored
        rcases List.mem_or_eq_of_mem_set inside with old | rfl
        · exact wf.covered other old reading stored
        · simp [ConnectedGuard.storedAt] at stored
      · exact wf.source_set present (by simp [ConnectedGuard.storedAt])
  | @store guard reading present =>
      obtain ⟨exact_, raised⟩ := wf.raises calm present
      refine ⟨?_, wf.clock, ?_, ?_, ?_⟩
      · have kept : (s.guards.set guard (.stored reading)).countP ConnectedGuard.isLive =
            s.guards.countP ConnectedGuard.isLive := Counting.countP_set_eq present rfl
        exact wf.counted.trans kept.symm
      · intro other inside
        rcases List.mem_or_eq_of_mem_set inside with old | new
        · exact wf.readings other old
        · simp at new
      · intro other inside earlier stored
        simp only [exact_]
        rcases List.mem_or_eq_of_mem_set inside with old | rfl
        · have order := (calm reading present).2 other old earlier stored
          omega
        · obtain rfl : reading = earlier := by simpa [ConnectedGuard.storedAt] using stored
          exact Nat.le_refl _
      · have bound := (List.getElem?_eq_some_iff.mp present).1
        exact Or.inr ⟨guard, .stored reading, List.getElem?_set_self bound, reading, rfl,
          Nat.le_of_eq exact_⟩
  | @leave guard reading present =>
      refine ⟨?_, wf.clock, ?_, ?_, ?_⟩
      · have gone := Counting.countP_set_add (p := ConnectedGuard.isLive) present (.dropped reading)
        simp only [ConnectedGuard.isLive, Bool.toNat_true, Bool.toNat_false] at gone
        have counted := wf.counted
        simp only
        omega
      · intro other inside
        rcases List.mem_or_eq_of_mem_set inside with old | new
        · exact wf.readings other old
        · simp at new
      · intro other inside earlier stored
        rcases List.mem_or_eq_of_mem_set inside with old | rfl
        · exact wf.covered other old earlier stored
        · exact wf.covered _ (List.mem_of_getElem? present) earlier stored
      · exact wf.source_set present (by simp [ConnectedGuard.storedAt])
  | ask => exact ⟨wf.counted, wf.clock, wf.readings, wf.covered, wf.source⟩
  | polled _ _ => exact ⟨wf.counted, wf.clock, wf.readings, wf.covered, wf.source⟩
  | unpolled _ _ => exact ⟨wf.counted, wf.clock, wf.readings, wf.covered, wf.source⟩
  | clock _ => exact ⟨wf.counted, wf.clock, wf.readings, wf.covered, wf.source⟩
  | answer _ => exact ⟨wf.counted, wf.clock, wf.readings, wf.covered, wf.source⟩

/-- A step leaves no guard live that was not, unless a client connects. -/
theorem Moves.keeps_noneLive (alone : NoneLive s) (moved : Moves buffer s action next) :
    action = .connect ∨ NoneLive next := by
  cases moved with
  | connect => exact Or.inl rfl
  | time present | store present | leave present =>
      have gone := alone _ (List.mem_of_getElem? present)
      simp [ConnectedGuard.isLive] at gone
  | _ => exact Or.inr alone

end Steps

section Runs

variable {buffer since : Nat} {actions : List ClientAction} {s next : ClientState}
  {action : ClientAction}

theorem wf_of_path (path : Path (step buffer) (Calm buffer) (submitted buffer since) actions s) :
    Wf buffer since s := by
  apply Path.invariant (wf_submitted buffer since) _ path
  intro state action next wf calm taken
  exact wf.move calm (step_moves taken)

theorem deadline_le_of_path {start : ClientState} (wf : Wf buffer since start)
    (path : Path (step buffer) (Calm buffer) start actions s) : start.deadline ≤ s.deadline := by
  have kept : Wf buffer since s ∧ start.deadline ≤ s.deadline := by
    apply Path.invariant ⟨wf, Nat.le_refl _⟩ _ path
    rintro state action next ⟨wf, bound⟩ calm taken
    have moved := step_moves taken
    exact ⟨wf.move calm moved, Nat.le_trans bound (moved.deadline_le wf calm)⟩
  exact kept.2

/-- At some instant of the call nobody was connected and the buffer was over. -/
def Excused (buffer since : Nat) (actions : List ClientAction) (s : ClientState) (call : Nat) :
    Prop :=
  Passes (step buffer) (Calm buffer) (submitted buffer since) actions s fun middle =>
    Asking call middle ∧ NoneLive middle ∧ Elapsed buffer middle

/-- At the instant `reading` of the call nobody was connected. -/
def ReadAlone (buffer since : Nat) (actions : List ClientAction) (s : ClientState)
    (call reading : Nat) : Prop :=
  Passes (step buffer) (Calm buffer) (submitted buffer since) actions s fun middle =>
    Asking call middle ∧ NoneLive middle ∧ middle.now = reading

/-- What a call of `is_client_present` has seen. -/
def Story (buffer since : Nat) (actions : List ClientAction) (s : ClientState) (call : Nat) :
    PresenceCheck → Prop
  | .begun | .returned true => True
  | .unpolled => Excused buffer since actions s call ∨ NoneLive s
  | .timed reading =>
      Excused buffer since actions s call ∨ ReadAlone buffer since actions s call reading
  | .returned false => Excused buffer since actions s call

/-- The deadline covers every disconnect before the reading, so one that is over excuses. -/
theorem ReadAlone.excused {call reading : Nat} (alone : ReadAlone buffer since actions s call reading)
    (over_ : s.deadline ≤ reading) : Excused buffer since actions s call := by
  obtain ⟨before, after, middle, split_, first, second, asking, none_, read⟩ := alone
  have wf := wf_of_path first
  have bound := deadline_le_of_path wf second
  refine ⟨before, after, middle, split_, first, second, asking, none_, ?_⟩
  intro guard inside dropped ended
  have covered := wf.covered guard inside dropped (mem_storedAt_of_droppedAt ended)
  omega

/-- A call that does not move keeps its story. -/
theorem Story.frame {call : Nat} {check : PresenceCheck}
    (path : Path (step buffer) (Calm buffer) (submitted buffer since) actions s)
    (story : Story buffer since actions s call check) (present : s.checks[call]? = some check)
    (calm : Calm buffer s action) (taken : step buffer s action = some next) :
    Story buffer since (actions ++ [action]) next call check := by
  cases check with
  | begun => trivial
  | unpolled =>
      rcases story with excused | alone
      · exact Or.inl (excused.snoc calm taken)
      · rcases (step_moves taken).keeps_noneLive alone with rfl | still
        · have elapsed := calm alone (List.mem_of_getElem? present)
          have asking : Asking call s := ⟨.unpolled, present, by simp⟩
          exact Or.inl ((Passes.here path ⟨asking, alone, elapsed⟩).snoc calm taken)
        · exact Or.inr still
  | timed reading =>
      rcases story with excused | alone
      · exact Or.inl (excused.snoc calm taken)
      · exact Or.inr (alone.snoc calm taken)
  | returned answer =>
      cases answer with
      | true => trivial
      | false => exact Passes.snoc story calm taken

theorem story_of_path
    (path : Path (step buffer) (Calm buffer) (submitted buffer since) actions s) :
    ∀ (call : Nat) (check : PresenceCheck), s.checks[call]? = some check →
      Story buffer since actions s call check := by
  induction path with
  | nil => simp [submitted]
  | @snoc actions s action next path calm taken ih =>
      have wf := wf_of_path path
      intro call check found
      have frame : s.checks[call]? = some check →
          Story buffer since (actions ++ [action]) next call check :=
        fun present => (ih call check present).frame path present calm taken
      cases step_moves taken with
      | advance _ | connect | time _ | store _ | leave _ => exact frame found
      | ask =>
          rcases getElem?_of_snoc found with old | ⟨_, rfl⟩
          · exact frame old
          · trivial
      | polled _ _ =>
          rcases getElem?_of_set found with ⟨_, rfl⟩ | ⟨_, old⟩
          · trivial
          · exact frame old
      | unpolled _ none_ =>
          rcases getElem?_of_set found with ⟨_, rfl⟩ | ⟨_, old⟩
          · have alone : NoneLive s := NoneLive.of_pollers wf none_
            exact Or.inr alone
          · exact frame old
      | clock present =>
          rcases getElem?_of_set found with ⟨rfl, rfl⟩ | ⟨_, old⟩
          · rcases ih call .unpolled present with excused | alone
            · exact Or.inl (excused.snoc calm taken)
            · have asking : Asking call s := ⟨.unpolled, present, by simp⟩
              exact Or.inr ((Passes.here path ⟨asking, alone, rfl⟩).snoc calm taken)
          · exact frame old
      | @answer asked reading present =>
          rcases getElem?_of_set found with ⟨rfl, rfl⟩ | ⟨_, old⟩
          · by_cases early : reading < nanosToInstant s.deadline
            · simp [early, Story]
            · have excused : Excused buffer since actions s call := by
                rcases ih call (.timed reading) present with excused | alone
                · exact excused
                · exact alone.excused (Nat.le_of_not_lt early)
              rw [decide_eq_false early]
              rw [decide_eq_false early] at taken
              exact Passes.snoc excused calm taken
          · exact frame old

/-- In a calm run the deadline never moves backwards and covers the last disconnect, and a client
is judged gone only after its buffer. -/
theorem connected_never_judged_gone (buffer since : Nat) {actions : List ClientAction}
    {last : ClientState}
    (path : Path (step buffer) (Calm buffer) (submitted buffer since) actions last) :
    NeverJudgedGone buffer (Calm buffer) (submitted buffer since) actions last where
  forward _ _ _ _ first second := deadline_le_of_path (wf_of_path first) second
  extended _ guard inside reading dropped :=
    (wf_of_path path).covered guard inside reading (mem_storedAt_of_droppedAt dropped)
  gone call answered := story_of_path path call _ answered

end Runs

instance (s : ClientState) : Decidable (NoneLive s) :=
  inferInstanceAs (Decidable (∀ guard ∈ s.guards, guard.isLive = false))

instance (buffer : Nat) (s : ClientState) : Decidable (Elapsed buffer s) :=
  inferInstanceAs (Decidable (∀ guard ∈ s.guards, ∀ reading ∈ guard.droppedAt,
    reading + buffer ≤ s.now))

def isCalm (buffer : Nat) (s : ClientState) : ClientAction → Bool
  | .drop guard =>
      match s.guards[guard]? with
      | some (.timed reading) => decide (reading + buffer < 2 ^ 64) &&
          s.guards.all fun other => other.storedAt.all fun earlier => decide (earlier ≤ reading)
      | _ => true
  | .connect => !decide (NoneLive s) || !decide (.unpolled ∈ s.checks) || decide (Elapsed buffer s)
  | _ => true

theorem isCalm_sound (buffer : Nat) (s : ClientState) (action : ClientAction)
    (checked : isCalm buffer s action = true) : Calm buffer s action := by
  cases action with
  | drop guard =>
      intro reading present
      simp only [isCalm, present, Bool.and_eq_true, decide_eq_true_eq, List.all_eq_true] at checked
      refine ⟨checked.1, ?_⟩
      intro other inside earlier stored
      simpa [Option.mem_def.mp stored] using checked.2 other inside
  | connect =>
      intro alone waiting
      simpa [isCalm, alone, waiting] using checked
  | _ => trivial

namespace Scenario

def disconnected : List ClientAction := [.connect, .drop 0, .drop 0, .drop 0]

def patient : List ClientAction :=
  disconnected ++ [.advance 20, .ask, .check 0, .check 0, .check 0]

/-- The first guard reads the clock before the second one and stores after it. -/
def outOfOrder : List ClientAction :=
  [.connect, .connect, .drop 0, .advance 5, .drop 1, .drop 1, .drop 1, .drop 0, .drop 0]

/-- A client comes back between the load of the count and the reading of the clock. -/
def overtaken : List ClientAction :=
  disconnected ++ [.ask, .check 0, .advance 5, .connect, .advance 6, .check 0, .check 0]

end Scenario

open Presence.Scenario

theorem connected_never_judged_gone_patient :
    ∃ last, Path (step 10) (Calm 10) (submitted 10 0) patient last ∧
      last.checks[0]? = some (.returned false) ∧
      NeverJudgedGone 10 (Calm 10) (submitted 10 0) patient last := by
  have ran : (run (fun s action => if isCalm 10 s action then step 10 s action else none)
      (submitted 10 0) patient).any
      (fun s => decide (s.checks[0]? = some (.returned false))) = true := by decide +kernel
  obtain ⟨last, finished, answered⟩ := (Option.any_eq_true _ _).mp ran
  have path := Path.of_run_if (isCalm_sound 10) _ _ finished
  exact ⟨last, path, by simpa using answered, connected_never_judged_gone 10 0 path⟩

theorem judged_gone_too_early :
    (∃ last, Path (step 10) Always (submitted 10 0) outOfOrder last ∧
      ¬ NeverJudgedGone 10 Always (submitted 10 0) outOfOrder last) ∧
    ∃ last, Path (step 10) Always (submitted 10 0) overtaken last ∧
      ¬ NeverJudgedGone 10 Always (submitted 10 0) overtaken last := by
  constructor
  · have ran : run (step 10) (submitted 10 0) outOfOrder =
        some ⟨5, 0, 10, [.dropped 0, .dropped 5], []⟩ := by decide +kernel
    refine ⟨_, Path.of_run _ _ ran, ?_⟩
    intro claimed
    have covered := claimed.extended (by decide) (.dropped 5) (by simp) 5 rfl
    simp at covered
  · have ran : run (step 10) (submitted 10 0) overtaken =
        some ⟨11, 1, 10, [.dropped 0, .live], [.returned false]⟩ := by decide +kernel
    refine ⟨_, Path.of_run _ _ ran, ?_⟩
    intro claimed
    refine not_passes (fun s => decide (s.checks ≠ [] ∧ NoneLive s ∧ Elapsed 10 s)) ?_
      (by decide +kernel) (claimed.gone 0 rfl)
    rintro middle ⟨⟨check, asking, _⟩, alone, elapsed⟩
    have begun : middle.checks ≠ [] := by
      intro empty
      simp [empty] at asking
    simp [begun, alone, elapsed]

end BitsBroker.Presence
