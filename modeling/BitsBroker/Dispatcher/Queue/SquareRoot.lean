import BitsBroker.Dispatcher.Queue.AgePriority
import Mathlib.Data.Nat.Sqrt
import Mathlib.Tactic.Linarith

/-!
The integer square root of the age-priority queue. Newton's loop starts above the root and
each pass comes closer to it from above, so its result is the root rounded down. The same
loop is given a second time with the 128-bit operations the source uses, where a sum that is
too large or a division by zero stops the program, and it computes the same number.
-/

namespace BitsBroker

namespace AgePriorityQueue

section SquareRoot

theorem guess_pos {value x : Nat} (positive : 0 < value) (guess : 0 < x) :
    0 < (x + value / x) / 2 := by
  by_cases one : x = 1
  · rw [one, Nat.div_one]
    omega
  · generalize value / x = other
    omega

theorem newton_sq_le {value : Nat} (positive : 0 < value) : ∀ x, 0 < x →
    newton value x ((x + value / x) / 2) * newton value x ((x + value / x) / 2) ≤ value := by
  intro x
  induction x using Nat.strong_induction_on with
  | h x ih =>
      intro guess
      rw [newton]
      split
      next smaller => exact ih _ smaller (guess_pos positive guess)
      next larger =>
        have enough : x ≤ value / x := by
          generalize value / x = other at larger ⊢
          omega
        exact (Nat.le_div_iff_mul_le guess).mp enough

/-- The next guess is too small by less than one. -/
theorem lt_guess_succ (value : Nat) {x : Nat} (positive : 0 < x) :
    value < ((x + value / x) / 2 + 1) * ((x + value / x) / 2 + 1) := by
  have above : value < x * (value / x + 1) := Nat.lt_mul_div_succ value positive
  have twice : x + (value / x + 1) ≤ 2 * ((x + value / x) / 2 + 1) := by omega
  generalize (x + value / x) / 2 + 1 = guess at twice ⊢
  generalize value / x + 1 = other at above twice
  have square : (x + other) * (x + other) ≤ (2 * guess) * (2 * guess) :=
    Nat.mul_self_le_mul_self twice
  have mean : 4 * (x * other) ≤ (x + other) * (x + other) := by
    rcases Nat.le_total x other with le | le
    · obtain ⟨more, rfl⟩ := Nat.exists_eq_add_of_le le
      nlinarith [Nat.zero_le (more * more)]
    · obtain ⟨more, rfl⟩ := Nat.exists_eq_add_of_le le
      nlinarith [Nat.zero_le (more * more)]
  nlinarith

theorem lt_newton_succ {value : Nat} (positive : 0 < value) : ∀ x, 0 < x →
    value < (x + 1) * (x + 1) →
    value < (newton value x ((x + value / x) / 2) + 1) *
      (newton value x ((x + value / x) / 2) + 1) := by
  intro x
  induction x using Nat.strong_induction_on with
  | h x ih =>
      intro guess below
      rw [newton]
      split
      next smaller => exact ih _ smaller (guess_pos positive guess) (lt_guess_succ value guess)
      next => exact below

theorem integerSqrt_eq {value : Nat} (positive : 0 < value) :
    integerSqrt value = Nat.sqrt value := by
  have start : (value + 1) / 2 = (value + value / value) / 2 := by
    rw [Nat.div_self positive]
  have root : newton value value ((value + 1) / 2) = Nat.sqrt value := by
    rw [start]
    refine Nat.eq_sqrt.mpr ⟨newton_sq_le positive value positive, ?_⟩
    exact lt_newton_succ positive value positive (by nlinarith)
  rw [integerSqrt, root]
  have least : 0 < Nat.sqrt value := Nat.sqrt_pos.mpr positive
  omega

end SquareRoot

section Machine

inductive Panic where
  | overflow
  | divideByZero

def checkedAdd (left right : BitVec 128) : Except Panic (BitVec 128) :=
  if left.uaddOverflow right then .error .overflow else .ok (left + right)

def checkedDiv (left right : BitVec 128) : Except Panic (BitVec 128) :=
  if right = 0 then .error .divideByZero else .ok (left / right)

def divCeil (left right : BitVec 128) : Except Panic (BitVec 128) := do
  let quotient ← checkedDiv left right
  if 0 < left % right then checkedAdd quotient 1 else pure quotient

/-- The body of the loop: what `y` becomes after `x` took its value. -/
def nextGuess (value x : BitVec 128) : Except Panic (BitVec 128) := do
  let other ← checkedDiv value x
  let sum ← checkedAdd x other
  checkedDiv sum 2

/-- The loop gives no answer if it needs more passes than it is allowed. -/
def sqrtLoop (value : BitVec 128) :
    Nat → BitVec 128 → BitVec 128 → Option (Except Panic (BitVec 128))
  | 0, _, _ => none
  | passes + 1, x, y =>
      if y < x then
        match nextGuess value y with
        | .error panic => some (.error panic)
        | .ok next => sqrtLoop value passes y next
      else some (.ok x)

def integerSqrtU128 (passes : Nat) (value : BitVec 128) : Option (Except Panic (BitVec 128)) :=
  match divCeil value 2 with
  | .error panic => some (.error panic)
  | .ok y => (sqrtLoop value passes value y).map (Except.map fun x => if x < 1 then 1 else x)

theorem checkedAdd_ok {left right : BitVec 128} (fits : left.toNat + right.toNat < 2 ^ 128) :
    ∃ sum, checkedAdd left right = .ok sum ∧ sum.toNat = left.toNat + right.toNat := by
  refine ⟨left + right, ?_, BitVec.toNat_add_of_lt fits⟩
  have small : left.uaddOverflow right = false := by
    simp only [BitVec.uaddOverflow, decide_eq_false_iff_not]
    omega
  simp [checkedAdd, small]

theorem checkedDiv_ok (left : BitVec 128) {right : BitVec 128} (positive : 0 < right.toNat) :
    ∃ quotient, checkedDiv left right = .ok quotient ∧
      quotient.toNat = left.toNat / right.toNat := by
  refine ⟨left / right, ?_, BitVec.toNat_udiv⟩
  have nonzero : right ≠ 0 := by
    intro zero
    simp [zero] at positive
  rw [checkedDiv, if_neg nonzero]

theorem two_positive : 0 < (2 : BitVec 128).toNat := by decide

theorem divCeil_two (value : BitVec 128) :
    ∃ half, divCeil value 2 = .ok half ∧ half.toNat = (value.toNat + 1) / 2 := by
  obtain ⟨quotient, divides, eq⟩ := checkedDiv_ok value two_positive
  have two : (2 : BitVec 128).toNat = 2 := rfl
  have rest : (value % 2).toNat = value.toNat % 2 := by rw [BitVec.toNat_umod, two]
  rw [two] at eq
  have bound := value.isLt
  by_cases odd : 0 < value % 2
  · have fits : quotient.toNat + (1 : BitVec 128).toNat < 2 ^ 128 := by
      have one : (1 : BitVec 128).toNat = 1 := rfl
      omega
    obtain ⟨half, adds, sum⟩ := checkedAdd_ok fits
    refine ⟨half, ?_, ?_⟩
    · simp only [divCeil, divides, bind, Except.bind, odd, if_true, adds]
    · have one : (1 : BitVec 128).toNat = 1 := rfl
      have more : 0 < value.toNat % 2 := by
        rw [← rest]
        exact odd
      omega
  · refine ⟨quotient, ?_, ?_⟩
    · simp only [divCeil, divides, bind, Except.bind, odd, if_false, pure, Except.pure]
    · have none : ¬0 < value.toNat % 2 := by
        rw [← rest]
        exact odd
      omega

/-- A guess inside the loop is below the first one and not below the root. -/
structure Guess (value x : Nat) : Prop where
  positive : 0 < x
  half : x ≤ (value + 1) / 2
  root : value < (x + 1) * (x + 1)

theorem Guess.sum_le {value x : Nat} (guess : Guess value x) : x + value / x ≤ max value 4 := by
  have positive := guess.positive
  have half := guess.half
  have root := guess.root
  by_cases one : x = 1
  · rw [one] at root ⊢
    rw [Nat.div_one]
    omega
  · have quotient : value / x ≤ value / 2 := Nat.div_le_div_left (by omega) (by omega)
    generalize value / x = other at quotient ⊢
    omega

theorem Guess.next {value x : Nat} (guess : Guess value x) (smaller : (x + value / x) / 2 < x) :
    Guess value ((x + value / x) / 2) := by
  have half := guess.half
  constructor
  · apply guess_pos _ guess.positive
    have positive := guess.positive
    omega
  · exact smaller.le.trans half
  · exact lt_guess_succ value guess.positive

theorem nextGuess_ok {value x : BitVec 128} (guess : Guess value.toNat x.toNat) :
    ∃ next, nextGuess value x = .ok next ∧
      next.toNat = (x.toNat + value.toNat / x.toNat) / 2 := by
  obtain ⟨other, divides, quotient⟩ := checkedDiv_ok value guess.positive
  have fits : x.toNat + other.toNat < 2 ^ 128 := by
    have bound := guess.sum_le
    have small := value.isLt
    rw [quotient]
    omega
  obtain ⟨sum, adds, total⟩ := checkedAdd_ok fits
  obtain ⟨next, halves, eq⟩ := checkedDiv_ok sum two_positive
  refine ⟨next, ?_, ?_⟩
  · simp only [nextGuess, divides, bind, Except.bind, adds, halves]
  · rw [eq, total, quotient]
    rfl

theorem sqrtLoop_eq (value : BitVec 128) : ∀ passes (x y : BitVec 128), x.toNat < passes →
    (y < x → Guess value.toNat y.toNat) →
    ∃ root, sqrtLoop value passes x y = some (.ok root) ∧
      root.toNat = newton value.toNat x.toNat y.toNat := by
  intro passes
  induction passes with
  | zero =>
      intro x y enough
      omega
  | succ passes ih =>
      intro x y enough guesses
      rw [sqrtLoop, newton]
      by_cases smaller : y < x
      · have below : y.toNat < x.toNat := smaller
        have guess := guesses smaller
        obtain ⟨next, steps, eq⟩ := nextGuess_ok guess
        rw [if_pos smaller, if_pos below, steps, ← eq]
        apply ih
        · omega
        · intro again
          rw [eq]
          apply guess.next
          rw [← eq]
          exact again
      · have above : ¬y.toNat < x.toNat := smaller
        rw [if_neg smaller, if_neg above]
        exact ⟨x, rfl, rfl⟩

theorem sqrtLoop_none_or (value : BitVec 128) : ∀ passes more (x y : BitVec 128),
    sqrtLoop value passes x y = none ∨
      sqrtLoop value passes x y = sqrtLoop value (passes + more) x y := by
  intro passes more
  induction passes with
  | zero =>
      intro x y
      exact Or.inl rfl
  | succ passes ih =>
      intro x y
      rw [Nat.succ_add, sqrtLoop, sqrtLoop]
      by_cases smaller : y < x
      · rw [if_pos smaller, if_pos smaller]
        cases nextGuess value y with
        | error panic => exact Or.inr rfl
        | ok next => exact ih y next
      · rw [if_neg smaller, if_neg smaller]
        exact Or.inr rfl

theorem first_guess (value : Nat) (smaller : (value + 1) / 2 < value) :
    Guess value ((value + 1) / 2) := by
  constructor
  · omega
  · exact le_refl _
  · have positive : 0 < value := by omega
    have start : (value + 1) / 2 = (value + value / value) / 2 := by
      rw [Nat.div_self positive]
    rw [start]
    exact lt_guess_succ value positive

theorem sqrtLoop_ok (value : BitVec 128) {half : BitVec 128}
    (halved : half.toNat = (value.toNat + 1) / 2) {passes : Nat} (enough : value.toNat < passes) :
    ∃ root, sqrtLoop value passes value half = some (.ok root) ∧
      root.toNat = newton value.toNat value.toNat ((value.toNat + 1) / 2) := by
  rw [← halved]
  apply sqrtLoop_eq value passes value half enough
  intro smaller
  have below : half.toNat < value.toNat := smaller
  rw [halved] at below ⊢
  exact first_guess _ below

/-- However many passes are allowed, the loop does not stop the program. -/
theorem sqrtLoop_no_panic (value : BitVec 128) {half : BitVec 128}
    (halved : half.toNat = (value.toNat + 1) / 2) (passes : Nat) (panic : Panic) :
    sqrtLoop value passes value half ≠ some (.error panic) := by
  intro stopped
  have enough : value.toNat < passes + (value.toNat + 1) := by omega
  obtain ⟨root, finished, _⟩ := sqrtLoop_ok value halved enough
  rcases sqrtLoop_none_or value passes (value.toNat + 1) value half with none | same
  · rw [none] at stopped
    cases stopped
  · rw [stopped, finished] at same
    cases same

theorem integerSqrt_eq_max (value : Nat) : integerSqrt value = max 1 (Nat.sqrt value) := by
  rcases Nat.eq_zero_or_pos value with zero | positive
  · rw [zero, integerSqrt, newton]
    rfl
  · have least : 0 < Nat.sqrt value := Nat.sqrt_pos.mpr positive
    rw [integerSqrt_eq positive]
    omega

theorem toNat_max_one (x : BitVec 128) : (if x < 1 then 1 else x).toNat = max x.toNat 1 := by
  have one : (1 : BitVec 128).toNat = 1 := rfl
  by_cases small : x < 1
  · have below : x.toNat < 1 := small
    rw [if_pos small]
    omega
  · have above : ¬x.toNat < 1 := small
    rw [if_neg small]
    omega

/-- The 128-bit program ends with the root rounded down, and with one for zero, and no sum and
no division of it goes wrong. -/
theorem integerSqrtU128_exact (value : BitVec 128) :
    (∃ root : BitVec 128, root.toNat = max 1 (Nat.sqrt value.toNat) ∧
      ∃ enough, ∀ more, integerSqrtU128 (enough + more) value = some (.ok root)) ∧
    ∀ passes panic, integerSqrtU128 passes value ≠ some (.error panic) := by
  obtain ⟨half, halves, halved⟩ := divCeil_two value
  constructor
  · obtain ⟨last, _, eq⟩ := sqrtLoop_ok value halved (Nat.lt_succ_self _)
    refine ⟨if last < 1 then 1 else last, ?_, value.toNat + 1, ?_⟩
    · rw [toNat_max_one, eq, ← integerSqrt_eq_max, integerSqrt]
    · intro more
      have enough : value.toNat < value.toNat + 1 + more := by omega
      obtain ⟨root, finished, same⟩ := sqrtLoop_ok value halved enough
      have equal : root = last := by
        apply BitVec.eq_of_toNat_eq
        rw [same, eq]
      rw [integerSqrtU128, halves]
      simp only [finished, equal, Option.map_some, Except.map]
  · intro passes panic stopped
    rw [integerSqrtU128, halves] at stopped
    obtain ⟨result, ran, fails⟩ := Option.map_eq_some_iff.mp stopped
    cases result with
    | error reason => exact sqrtLoop_no_panic value halved passes reason ran
    | ok last => cases fails

end Machine

end AgePriorityQueue

end BitsBroker
