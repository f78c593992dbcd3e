import Mathlib.Data.List.Basic

/-!
Executions of a partial step function. `run` computes one execution and fails as
soon as an action is not enabled; `Path` describes all executions whose every step
is `allowed` in the state it is taken in. The rules below turn facts about one step
into facts about whole executions: an invariant is checked step by step, an
execution can be cut before any of its actions, and a property that holds only at
the end was established by some step.
-/

namespace Transition

variable {State Action : Type}

def run (step : State → Action → Option State) : State → List Action → Option State
  | state, [] => some state
  | state, action :: rest => (step state action).bind fun next => run step next rest

inductive Path (step : State → Action → Option State) (allowed : State → Action → Prop)
    (start : State) : List Action → State → Prop
  | nil : Path step allowed start [] start
  | snoc {actions state action next} : Path step allowed start actions state →
      allowed state action → step state action = some next →
      Path step allowed start (actions ++ [action]) next

def Always (_ : State) (_ : Action) : Prop := True

def Reachable (step : State → Action → Option State) (allowed : State → Action → Prop)
    (start state : State) : Prop :=
  ∃ actions, Path step allowed start actions state

variable {step : State → Action → Option State} {allowed : State → Action → Prop}
  {start : State}

theorem Path.cons {actions : List Action} {action : Action} {next last : State}
    (permitted : allowed start action) (taken : step start action = some next)
    (rest : Path step allowed next actions last) :
    Path step allowed start (action :: actions) last := by
  induction rest with
  | nil => simpa using Path.snoc Path.nil permitted taken
  | snoc _ later move ih => simpa using Path.snoc ih later move

theorem Path.of_run_if {check : State → Action → Bool}
    (sound : ∀ state action, check state action = true → allowed state action) :
    ∀ (actions : List Action) (start : State) {last : State},
      run (fun state action => if check state action then step state action else none)
        start actions = some last → Path step allowed start actions last := by
  intro actions
  induction actions with
  | nil =>
      intro start last finished
      simp only [run, Option.some.injEq] at finished
      subst finished
      exact Path.nil
  | cons action rest ih =>
      intro start last finished
      simp only [run, Option.bind_eq_some_iff] at finished
      obtain ⟨next, taken, finished⟩ := finished
      split at taken
      next checked => exact Path.cons (sound _ _ checked) taken (ih next finished)
      · simp at taken

theorem Path.of_run (actions : List Action) (start : State) {last : State}
    (finished : run step start actions = some last) :
    Path step Always start actions last := by
  have sound : ∀ (state : State) (action : Action), (fun _ _ => true) state action = true →
      Always state action := fun _ _ _ => trivial
  exact Path.of_run_if sound actions start (by simpa using finished)

theorem Path.mono {weaker : State → Action → Prop} {actions : List Action} {last : State}
    (path : Path step allowed start actions last)
    (weaken : ∀ state action, allowed state action → weaker state action) :
    Path step weaker start actions last := by
  induction path with
  | nil => exact Path.nil
  | snoc _ permitted taken ih => exact Path.snoc ih (weaken _ _ permitted) taken

theorem Path.invariant {holds : State → Prop} (initially : holds start)
    (kept : ∀ state action next, holds state → allowed state action →
      step state action = some next → holds next)
    {actions : List Action} {last : State} (path : Path step allowed start actions last) :
    holds last := by
  induction path with
  | nil => exact initially
  | snoc _ permitted taken ih => exact kept _ _ _ ih permitted taken

theorem Path.append {firsts seconds : List Action} {middle last : State}
    (first : Path step allowed start firsts middle)
    (second : Path step allowed middle seconds last) :
    Path step allowed start (firsts ++ seconds) last := by
  induction second with
  | nil => simpa using first
  | snoc _ permitted taken ih =>
      rw [← List.append_assoc]
      exact Path.snoc ih permitted taken

theorem Path.split {before after : List Action} {action : Action} {last : State}
    (path : Path step allowed start (before ++ action :: after) last) :
    ∃ state next, Path step allowed start before state ∧ allowed state action ∧
      step state action = some next ∧ Path step allowed next after last := by
  generalize whole : before ++ action :: after = actions at path
  induction path generalizing after with
  | nil => simp at whole
  | @snoc actions state final next path permitted taken ih =>
      rcases List.eq_nil_or_concat after with empty | ⟨front, final', eq⟩
      · subst empty
        obtain ⟨prefixEq, finalEq⟩ := List.append_inj' whole rfl
        obtain rfl : action = final := by simpa using finalEq
        subst prefixEq
        exact ⟨state, next, path, permitted, taken, Path.nil⟩
      · subst eq
        have whole' : (before ++ action :: front) ++ [final'] = actions ++ [final] := by
          simpa using whole
        obtain ⟨prefixEq, finalEq⟩ := List.append_inj' whole' rfl
        obtain rfl : final' = final := by simpa using finalEq
        obtain ⟨cut, after, first, allowedCut, takenCut, second⟩ := ih prefixEq
        exact ⟨cut, after, first, allowedCut, takenCut, by
          simpa using Path.snoc second permitted taken⟩

theorem Path.established {holds : State → Prop} (initially : ¬ holds start)
    {actions : List Action} {last : State} (path : Path step allowed start actions last)
    (finally_ : holds last) :
    ∃ before action after state next, actions = before ++ action :: after ∧
      Path step allowed start before state ∧ ¬ holds state ∧ allowed state action ∧
      step state action = some next ∧ holds next := by
  induction path with
  | nil => exact absurd finally_ initially
  | @snoc actions state action next path permitted taken ih =>
      by_cases already : holds state
      · obtain ⟨before, early, after, cut, resumed, eq, rest⟩ := ih already
        exact ⟨before, early, after ++ [action], cut, resumed, by simp [eq], rest⟩
      · exact ⟨actions, action, [], state, next, rfl, path, already, permitted, taken, finally_⟩

theorem run_snoc {step : State → Action → Option State} (action : Action) :
    ∀ (actions : List Action) (start : State),
      run step start (actions ++ [action]) = (run step start actions).bind (step · action) := by
  intro actions
  induction actions with
  | nil =>
      intro start
      simp only [List.nil_append, run, Option.bind_some]
      cases step start action <;> rfl
  | cons first rest ih =>
      intro start
      simp only [List.cons_append, run, Option.bind_assoc]
      congr 1
      funext next
      exact ih next

/-- Some state on the way satisfies `holds`. -/
def Passes (step : State → Action → Option State) (allowed : State → Action → Prop)
    (start : State) (actions : List Action) (last : State) (holds : State → Prop) : Prop :=
  ∃ before after middle, actions = before ++ after ∧ Path step allowed start before middle ∧
    Path step allowed middle after last ∧ holds middle

theorem Passes.here {actions : List Action} {last : State} {holds : State → Prop}
    (path : Path step allowed start actions last) (now : holds last) :
    Passes step allowed start actions last holds :=
  ⟨actions, [], last, by simp, path, Path.nil, now⟩

theorem Passes.snoc {actions : List Action} {action : Action} {state next : State}
    {holds : State → Prop} (passes : Passes step allowed start actions state holds)
    (permitted : allowed state action) (taken : step state action = some next) :
    Passes step allowed start (actions ++ [action]) next holds := by
  obtain ⟨before, after, middle, rfl, first, second, met⟩ := passes
  exact ⟨before, after ++ [action], middle, by simp, first, Path.snoc second permitted taken, met⟩

theorem Passes.imp {actions : List Action} {last : State} {holds weaker : State → Prop}
    (passes : Passes step allowed start actions last holds)
    (weaken : ∀ actions state, Path step allowed start actions state → holds state →
      weaker state) : Passes step allowed start actions last weaker := by
  obtain ⟨before, after, middle, split_, first, second, met⟩ := passes
  exact ⟨before, after, middle, split_, first, second, weaken before middle first met⟩

theorem Path.run_eq {actions : List Action} {last : State}
    (path : Path step allowed start actions last) : run step start actions = some last := by
  induction path with
  | nil => rfl
  | snoc _ _ taken ih =>
      rw [run_snoc, ih]
      exact taken

/-- Nothing is passed that no prefix of the run reaches. -/
theorem not_passes {actions : List Action} {last : State} {holds : State → Prop}
    (check : State → Bool) (complete : ∀ state, holds state → check state = true)
    (never : ∀ count ∈ List.range (actions.length + 1),
      (run step start (actions.take count)).all (fun state => !check state) = true) :
    ¬ Passes step allowed start actions last holds := by
  rintro ⟨before, after, middle, rfl, first, _, met⟩
  have short : before.length ∈ List.range ((before ++ after).length + 1) := by
    rw [List.mem_range, List.length_append]
    omega
  have refuted := never before.length short
  rw [List.take_left, first.run_eq] at refuted
  simp [complete middle met] at refuted

/-- The shown actions of a path can be run alone if no other action is noticed by what they
depend on. -/
theorem Path.purge {mirrors : State → State → Prop} {shown : Action → Bool}
    (initially : mirrors start start)
    (unnoticed : ∀ state small action next, mirrors state small → allowed state action →
      shown action = false → step state action = some next → mirrors next small)
    (matched : ∀ state small action next, mirrors state small → allowed state action →
      shown action = true → step state action = some next →
      ∃ later, step small action = some later ∧ mirrors next later)
    {actions : List Action} {last : State} (path : Path step allowed start actions last) :
    ∃ small, run step start (actions.filter shown) = some small ∧ mirrors last small := by
  induction path with
  | nil => exact ⟨start, rfl, initially⟩
  | @snoc actions state action next _ permitted taken ih =>
      obtain ⟨small, ran, mirror⟩ := ih
      rw [List.filter_append]
      cases visible : shown action with
      | false =>
          refine ⟨small, ?_, unnoticed _ _ _ _ mirror permitted visible taken⟩
          simpa [visible] using ran
      | true =>
          obtain ⟨later, also, kept⟩ := matched _ _ _ _ mirror permitted visible taken
          refine ⟨later, ?_, kept⟩
          rw [List.filter_cons_of_pos visible, List.filter_nil, run_snoc, ran]
          exact also

end Transition
