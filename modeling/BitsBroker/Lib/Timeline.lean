import Mathlib.Data.List.Basic

/-!
The states a system has been in. A log keeps the states before the present one, so that a
statement can speak of an instant of the past. What was seen at an instant stays seen, and what
every step keeps is carried from any instant to the present.
-/

namespace Timeline

variable {S : Type}

structure Log (S : Type) where
  past : List S
  current : S

namespace Log

def start (first : S) : Log S where
  past := []
  current := first

def all (log : Log S) : List S := log.past ++ [log.current]

def now (log : Log S) : Nat := log.past.length

def push (log : Log S) (next : S) : Log S where
  past := log.all
  current := next

/-- The state at an instant. -/
def seen (log : Log S) (instant : Nat) : Option S := log.all[instant]?

/-- Each state is followed by one that `T` allows. -/
def Chained (T : S → S → Prop) (log : Log S) : Prop :=
  ∀ (instant : Nat) (before after : S), log.seen instant = some before →
    log.seen (instant + 1) = some after → T before after

variable {T : S → S → Prop} {P Q : S → Prop} {log : Log S} {instant : Nat} {state : S}

theorem length_all (log : Log S) : log.all.length = log.now + 1 := by
  simp [all, now]

theorem now_push (log : Log S) (next : S) : (log.push next).now = log.now + 1 := length_all log

theorem seen_now (log : Log S) : log.seen log.now = some log.current := by
  simp [seen, all, now]

theorem le_now (there : log.seen instant = some state) : instant ≤ log.now := by
  have inside := (List.getElem?_eq_some_iff.mp there).1
  have length := length_all log
  omega

theorem seen_of_le (before : instant ≤ log.now) : ∃ state, log.seen instant = some state := by
  have length := length_all log
  have inside : instant < log.all.length := by omega
  exact ⟨_, List.getElem?_eq_getElem inside⟩

theorem seen_push (log : Log S) (next : S) (instant : Nat) :
    (log.push next).seen instant =
      if instant = log.now + 1 then some next else log.seen instant := by
  have length := length_all log
  have extended : (log.push next).all = log.all ++ [next] := rfl
  rw [seen, extended]
  by_cases newest : instant = log.now + 1
  · rw [if_pos newest, List.getElem?_append_right (by omega)]
    simp [newest, length]
  · rw [if_neg newest]
    by_cases inside : instant < log.all.length
    · rw [List.getElem?_append_left inside, seen]
    · rw [seen, List.getElem?_eq_none (by simp; omega), List.getElem?_eq_none (by omega)]

/-- What has been seen at an instant is not changed by what follows. -/
theorem seen_later (there : log.seen instant = some state) (next : S) :
    (log.push next).seen instant = some state := by
  have before := le_now there
  rw [seen_push, if_neg (by omega)]
  exact there

theorem seen_next (log : Log S) (next : S) : (log.push next).seen (log.now + 1) = some next := by
  rw [seen_push, if_pos rfl]

theorem Chained.start (first : S) : Chained T (start first) := by
  intro instant before after _ follows
  have late := le_now follows
  simp only [now, Log.start, List.length_nil] at late
  omega

theorem Chained.push (chained : Chained T log) {next : S} (taken : T log.current next) :
    Chained T (log.push next) := by
  intro instant before after first follows
  rw [seen_push] at first follows
  by_cases newest : instant = log.now
  · rw [if_pos (by omega)] at follows
    rw [if_neg (by omega), newest, seen_now] at first
    cases follows
    cases first
    exact taken
  · rw [if_neg (by omega)] at follows
    have within := le_now follows
    rw [if_neg (by omega)] at first
    exact chained instant before after first follows

/-- What a step keeps as long as `P` holds is carried from one instant to a later one. -/
theorem Chained.carry (chained : Chained T log)
    (keeps : ∀ before after, T before after → P after → Q before → Q after)
    (there : log.seen instant = some state) (holds : Q state) {later : Nat} (after : instant ≤ later)
    {last : S} (lasting : ∀ middle between, instant < middle → middle ≤ later →
      log.seen middle = some between → P between) (seen : log.seen later = some last) : Q last := by
  induction after generalizing last with
  | refl =>
      rw [there] at seen
      cases seen
      exact holds
  | @step later after ih =>
      have reached : instant ≤ later := after
      have within := le_now seen
      have past : later ≤ log.now := by omega
      obtain ⟨before, first⟩ := seen_of_le past
      have earlier : Q before := by
        refine ih ?_ first
        intro middle between beyond upTo
        exact lasting middle between beyond (by omega)
      exact keeps before last (chained later before last first seen)
        (lasting (later + 1) last (by omega) (Nat.le_refl _) seen) earlier

theorem Chained.always (chained : Chained T log)
    (keeps : ∀ before after, T before after → Q before → Q after)
    (there : log.seen instant = some state) (holds : Q state) {later : Nat} (after : instant ≤ later)
    {last : S} (seen : log.seen later = some last) : Q last :=
  chained.carry (P := fun _ => True) (fun before after taken _ => keeps before after taken) there
    holds after (fun _ _ _ _ _ => trivial) seen

end Log

end Timeline
