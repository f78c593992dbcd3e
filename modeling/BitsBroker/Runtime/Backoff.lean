import BitsBroker.Runtime.Pending

/-!
The retry loop of a claim, with its number of calls and its sleeps. A backend is any sequence of
answers, and the clock is any clock on which a call takes some time and a sleep at least as long
as requested. The loop is allowed a number of calls and gives no report if that is not enough.

A sleep that is cut short by the deadline is the last one. The sleeps that are not cut short
double up to one second, so five of them are longer than the whole budget.
-/

namespace BitsBroker

structure ClaimAnswer where
  result : Except DbError ClaimResult
  took : Nat
  overslept : Nat

/-- What a claim returned, how often it asked and how long it asked to sleep. -/
structure ClaimReport where
  result : Except DbError ClaimResult
  calls : Nat
  slept : Nat

def ClaimReport.after (report : ClaimReport) (sleepFor : Nat) : ClaimReport :=
  { report with calls := report.calls + 1, slept := report.slept + sleepFor }

def claimLoop (answers : Nat → ClaimAnswer) (deadline : Nat) :
    Nat → Nat → Nat → Nat → Option ClaimReport
  | 0, _, _, _ => none
  | allowed + 1, attempt, delay, now =>
      match (answers attempt).result with
      | .ok claimed => some ⟨.ok claimed, 1, 0⟩
      | .error (.conflict message) => some ⟨.error (.conflict message), 1, 0⟩
      | .error (.slotExhausted site env ceiling) =>
          some ⟨.error (.slotExhausted site env ceiling), 1, 0⟩
      | .error (.backend message) =>
          let asked := now + (answers attempt).took
          if deadline ≤ asked then some ⟨.error (.backend message), 1, 0⟩
          else
            let sleepFor := min delay (deadline - asked)
            if sleepFor = 0 then some ⟨.error (.backend message), 1, 0⟩
            else
              (claimLoop answers deadline allowed (attempt + 1) (min (delay * 2) 1000000000)
                (asked + sleepFor + (answers attempt).overslept)).map (·.after sleepFor)

/-- The whole claim with as many calls as it is allowed. -/
def claimWithin (answers : Nat → ClaimAnswer) (timeout : Option Nat) (allowed : Nat) :
    Option ClaimReport :=
  claimLoop answers (Bits.claimBudget timeout) allowed 0 100000000 0

def IsBackend (result : Except DbError ClaimResult) : Prop :=
  ∃ message, result = .error (.backend message)

/-- The time of a number of sleeps that the deadline does not cut short. -/
def fullSleeps : Nat → Nat → Nat
  | 0, _ => 0
  | count + 1, delay => delay + fullSleeps count (min (delay * 2) 1000000000)

section Loop

variable {answers : Nat → ClaimAnswer} {deadline : Nat}

/-- The answers before the last one were backend errors, the last one was returned, and the sleeps
fit before the deadline. -/
structure ClaimReport.From (report : ClaimReport) (answers : Nat → ClaimAnswer)
    (attempt left : Nat) : Prop where
  asks : 0 < report.calls
  retried : ∀ i < report.calls - 1, IsBackend (answers (attempt + i)).result
  returned : report.result = (answers (attempt + (report.calls - 1))).result
  sleeps : report.slept ≤ left

theorem ClaimReport.From.single {attempt : Nat} {result : Except DbError ClaimResult}
    (answered : (answers attempt).result = result) (left : Nat) :
    ClaimReport.From ⟨result, 1, 0⟩ answers attempt left := by
  constructor
  · exact Nat.one_pos
  · intro i inside
    exact absurd inside (Nat.not_lt_zero i)
  · exact answered.symm
  · exact Nat.zero_le _

theorem ClaimReport.From.after {report : ClaimReport} {attempt left rest sleepFor : Nat}
    (after : report.From answers (attempt + 1) rest)
    (failed : IsBackend (answers attempt).result) (fits : rest + sleepFor ≤ left) :
    (report.after sleepFor).From answers attempt left := by
  have asks := after.asks
  have calls : (report.after sleepFor).calls = report.calls + 1 := rfl
  constructor
  · omega
  · intro i inside
    rcases Nat.eq_zero_or_pos i with zero | positive
    · rw [zero]
      exact failed
    · have earlier := after.retried (i - 1) (by omega)
      have same : attempt + 1 + (i - 1) = attempt + i := by omega
      rwa [same] at earlier
  · have same : attempt + 1 + (report.calls - 1) = attempt + (report.calls + 1 - 1) := by omega
    have returned := after.returned
    rw [same] at returned
    exact returned
  · have sleeps := after.sleeps
    have total : (report.after sleepFor).slept = report.slept + sleepFor := rfl
    omega

/-- One call: it is the last one, or it failed and the loop sleeps before the next one. -/
theorem claimLoop_call (allowed attempt delay now : Nat) :
    claimLoop answers deadline (allowed + 1) attempt delay now =
        some ⟨(answers attempt).result, 1, 0⟩ ∨
      ∃ asked sleepFor, now ≤ asked ∧ asked < deadline ∧ sleepFor = min delay (deadline - asked) ∧
        IsBackend (answers attempt).result ∧
        claimLoop answers deadline (allowed + 1) attempt delay now =
          (claimLoop answers deadline allowed (attempt + 1) (min (delay * 2) 1000000000)
            (asked + sleepFor + (answers attempt).overslept)).map (·.after sleepFor) := by
  rw [claimLoop]
  split
  next answered => exact Or.inl (by rw [answered])
  next answered => exact Or.inl (by rw [answered])
  next answered => exact Or.inl (by rw [answered])
  next message answered =>
    by_cases late : deadline ≤ now + (answers attempt).took
    · left
      rw [if_pos late, answered]
    · by_cases zero : min delay (deadline - (now + (answers attempt).took)) = 0
      · left
        rw [if_neg late, if_pos zero, answered]
      · right
        refine ⟨_, _, Nat.le_add_right _ _, Nat.lt_of_not_le late, rfl, ⟨message, answered⟩, ?_⟩
        rw [if_neg late, if_neg zero]

/-- A loop whose time left is covered by its full sleeps ends within one call more. -/
theorem claimLoop_ends (answers : Nat → ClaimAnswer) (count : Nat) :
    ∀ allowed attempt {delay now : Nat}, count ≤ allowed →
    deadline - now ≤ fullSleeps count delay →
    ∃ report : ClaimReport,
      claimLoop answers deadline (allowed + 1) attempt delay now = some report ∧
      report.calls ≤ count + 1 ∧ report.From answers attempt (deadline - now) := by
  induction count with
  | zero =>
      intro allowed attempt delay now enough covered
      simp only [fullSleeps] at covered
      rcases claimLoop_call allowed attempt delay now with last | ⟨asked, _, later, before, _⟩
      · exact ⟨_, last, le_refl _, .single rfl _⟩
      · omega
  | succ count ih =>
      intro allowed attempt delay now enough covered
      rcases claimLoop_call allowed attempt delay now with
        last | ⟨asked, sleepFor, later, before, clipped, failed, continues⟩
      · exact ⟨_, last, by simp, .single rfl _⟩
      · simp only [fullSleeps] at covered
        have shorter : deadline - (asked + sleepFor + (answers attempt).overslept) ≤
            fullSleeps count (min (delay * 2) 1000000000) := by omega
        obtain ⟨fewer, rfl⟩ := Nat.exists_eq_add_of_le enough
        have room : count ≤ count + fewer := Nat.le_add_right _ _
        have length : count + 1 + fewer = count + fewer + 1 := by omega
        obtain ⟨report, finished, calls, origin⟩ := ih _ (attempt + 1) room shorter
        rw [length] at continues ⊢
        refine ⟨report.after sleepFor, ?_, ?_, ?_⟩
        · rw [continues, finished, Option.map_some]
        · exact Nat.succ_le_succ calls
        · apply origin.after failed
          omega

/-- More calls than needed make no difference. -/
theorem claimLoop_more (more : Nat) : ∀ {allowed attempt delay now : Nat} {report : ClaimReport},
    claimLoop answers deadline allowed attempt delay now = some report →
    claimLoop answers deadline (allowed + more) attempt delay now = some report := by
  intro allowed
  induction allowed with
  | zero =>
      intro attempt delay now report finished
      cases finished
  | succ allowed ih =>
      intro attempt delay now report finished
      rw [claimLoop] at finished
      rw [Nat.succ_add, claimLoop]
      split at finished
      next answered => simpa only [answered] using finished
      next answered => simpa only [answered] using finished
      next answered => simpa only [answered] using finished
      next answered =>
        dsimp only at finished ⊢
        split at finished
        next late => rwa [if_pos late]
        next early =>
          split at finished
          next zero => rwa [if_neg early, if_pos zero]
          next positive =>
            obtain ⟨rest, ran, rfl⟩ := Option.map_eq_some_iff.mp finished
            rw [if_neg early, if_neg positive, ih ran, Option.map_some]

end Loop

/-- Five full sleeps from 100 ms are longer than the budget. -/
theorem claimBudget_le (timeout : Option Nat) :
    Bits.claimBudget timeout ≤ fullSleeps 5 100000000 := by
  have total : fullSleeps 5 100000000 = 2500000000 := by decide
  rw [total, Bits.claimBudget]
  omega

/-- A claim ends with at most six calls and its sleeps fit into the budget. It returns the first
answer that is not a backend error, or the last backend error. -/
theorem claimWithin_bounded (answers : Nat → ClaimAnswer) (timeout : Option Nat) :
    ∃ report : ClaimReport, (∀ more, claimWithin answers timeout (6 + more) = some report) ∧
      0 < report.calls ∧ report.calls ≤ 6 ∧
      report.slept ≤ min (timeout.getD 2000000000) 2000000000 ∧
      (∀ i < report.calls - 1, IsBackend (answers i).result) ∧
      report.result = (answers (report.calls - 1)).result := by
  have covered : Bits.claimBudget timeout - 0 ≤ fullSleeps 5 100000000 := claimBudget_le timeout
  obtain ⟨report, finished, calls, origin⟩ := claimLoop_ends answers 5 5 0 (le_refl 5) covered
  refine ⟨report, ?_, origin.asks, calls, origin.sleeps, ?_, ?_⟩
  · intro more
    exact claimLoop_more more finished
  · intro i inside
    have failed := origin.retried i inside
    rwa [Nat.zero_add] at failed
  · have returned := origin.returned
    rwa [Nat.zero_add] at returned

namespace Bits

/-- The answers that a store gives to a broker. -/
def claimAnswers (bits : Bits) (id expectedOwner : String) (attempts : Nat → ClaimAttempt)
    (attempt : Nat) : ClaimAnswer where
  result := (attempts attempt).call.claimIfOwner id expectedOwner bits.brokerId
  took := (attempts attempt).took
  overslept := (attempts attempt).overslept

/-- The loop of a poll returns what the bounded loop returns, after as many calls. -/
theorem retryClaim_report (bits : Bits) (id expectedOwner : String)
    (attempts : Nat → ClaimAttempt) (deadline : Nat) :
    ∀ {allowed attempt delay now : Nat} {report : ClaimReport},
      claimLoop (bits.claimAnswers id expectedOwner attempts) deadline allowed attempt delay now =
        some report →
      (bits.retryClaim id expectedOwner attempts deadline attempt delay now).1 = report.result ∧
        (bits.retryClaim id expectedOwner attempts deadline attempt delay now).2.length =
          report.calls := by
  intro allowed
  induction allowed with
  | zero =>
      intro attempt delay now report finished
      cases finished
  | succ allowed ih =>
      intro attempt delay now report finished
      rw [claimLoop] at finished
      rw [retryClaim]
      have same : (attempts attempt).call.claimIfOwner id expectedOwner bits.brokerId =
          (bits.claimAnswers id expectedOwner attempts attempt).result := rfl
      split at finished
      next answered =>
        cases finished
        simp [same, answered]
      next answered =>
        cases finished
        simp [same, answered]
      next answered =>
        cases finished
        simp [same, answered]
      next answered =>
        simp only [same, answered]
        dsimp only at finished
        split at finished
        next late =>
          cases finished
          have passed : deadline ≤ now + (attempts attempt).took := late
          rw [if_pos passed]
          exact ⟨rfl, rfl⟩
        next before =>
          have early : ¬deadline ≤ now + (attempts attempt).took := before
          split at finished
          next none =>
            cases finished
            have zero : min delay (deadline - (now + (attempts attempt).took)) = 0 := none
            rw [if_neg early, dif_pos zero]
            exact ⟨rfl, rfl⟩
          next some =>
            have positive : ¬min delay (deadline - (now + (attempts attempt).took)) = 0 := some
            obtain ⟨rest, ran, rfl⟩ := Option.map_eq_some_iff.mp finished
            obtain ⟨result, length⟩ := ih ran
            rw [if_neg early, dif_neg positive]
            exact ⟨result, congrArg (· + 1) length⟩

theorem claimWithBackoff_report (bits : Bits) (id expectedOwner : String) (timeout : Option Nat)
    (attempts : Nat → ClaimAttempt) :
    ∃ report : ClaimReport,
      claimWithin (bits.claimAnswers id expectedOwner attempts) timeout 6 = some report ∧
      (bits.claimWithBackoff id expectedOwner timeout attempts).1 = report.result ∧
      (bits.claimWithBackoff id expectedOwner timeout attempts).2.length ≤ 6 := by
  have covered : claimBudget timeout - 0 ≤ fullSleeps 5 100000000 := claimBudget_le timeout
  obtain ⟨report, finished, calls, _⟩ := claimLoop_ends
    (bits.claimAnswers id expectedOwner attempts) 5 5 0 (le_refl 5) covered
  obtain ⟨result, length⟩ := bits.retryClaim_report id expectedOwner attempts _ finished
  exact ⟨report, finished, result, length.le.trans calls⟩

end Bits

end BitsBroker
