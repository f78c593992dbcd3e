import BitsBroker.Routing.FirstMatch
import BitsBroker.Routing.Validate

/-!
How the attempts of a switch at its routes end. An attempt is the inner loop of the dispatch: it
completes the job, fails, or rejects it, or else it runs past the last action of the route, and the
outer loop goes on with the next route as if nothing had happened. In a valid tree the last action
of a route never lets a job pass, so the last case does not occur.
-/

namespace BitsBroker

inductive AttemptEnd where
  | complete (result : JobResult)
  | rejected (reason : String) (silent : Bool)
  | exhausted

section Attempt

variable (out : Outside)

/-- One pass of the inner loop, up to what the action does with the route. -/
def passOver {A : Type} (job : CowJob) (action : Action) (follow : Passage → Dispatching A) :
    Dispatching A := do
  if ← look out.isCancelled then throw .cancelled
  let passage ← dispatchAction out job action
  follow passage

/-- The inner loop of the dispatch, with its end written out. -/
def attemptRoute (job : CowJob) (actions : List Action) : Dispatching AttemptEnd :=
  match actions with
  | [] => pure .exhausted
  | action :: rest => passOver out job action fun passage =>
      match passage with
      | .pass job => attemptRoute job rest
      | .complete result => pure (.complete result)
      | .reject reason silent => pure (.rejected reason silent)

def AttemptEnd.next (rejections : List String) : AttemptEnd → RouteEnd
  | .complete result => .complete result
  | .rejected reason silent => .next (if silent then rejections else rejections ++ [reason])
  | .exhausted => .next rejections

theorem passOver_eq {A : Type} (job : CowJob) (action : Action) (follow : Passage → Dispatching A)
    (tick : Nat) : passOver out job action follow tick =
      if out.isCancelled tick then .error .cancelled
      else match dispatchAction out job action (tick + 1) with
        | .error error => .error error
        | .ok (passage, later) => follow passage later := by
  unfold passOver
  simp only [bind, StateT.bind, look, Except.bind]
  cases out.isCancelled tick with
  | true => rfl
  | false =>
      simp only [Bool.false_eq_true, if_false, StateT.bind, bind, Except.bind]
      cases dispatchAction out job action (tick + 1) with
      | error error => rfl
      | ok passed => rfl

theorem dispatchActions_eq_passOver (job : CowJob) (rejections : List String) (action : Action)
    (rest : List Action) : dispatchActions out job rejections (action :: rest) =
      passOver out job action fun passage =>
        match passage with
        | .pass job => dispatchActions out job rejections rest
        | .complete result => pure (.complete result)
        | .reject reason silent =>
            pure (.next (if silent then rejections else rejections ++ [reason])) := by
  rw [dispatchActions]
  rfl

/-- The dispatch goes on from the end of the attempt alone. -/
theorem dispatchActions_eq (rejections : List String) (actions : List Action) :
    ∀ (job : CowJob) (tick : Nat), dispatchActions out job rejections actions tick =
      (attemptRoute out job actions tick).map fun ended => (ended.1.next rejections, ended.2) := by
  induction actions with
  | nil =>
      intro job tick
      rw [dispatchActions, attemptRoute]
      rfl
  | cons action rest ih =>
      intro job tick
      rw [dispatchActions_eq_passOver, attemptRoute, passOver_eq, passOver_eq]
      cases out.isCancelled tick with
      | true => rfl
      | false =>
          simp only [Bool.false_eq_true, if_false]
          cases dispatchAction out job action (tick + 1) with
          | error error => rfl
          | ok passed =>
              obtain ⟨passage, later⟩ := passed
              cases passage with
              | pass job => exact ih job later
              | complete result => rfl
              | reject reason silent => rfl

/-- The attempt ended, but not because the route was over. -/
def Settles (ended : Except ActionError (AttemptEnd × Nat)) : Prop :=
  (∃ error, ended = .error error) ∨ (∃ result tick, ended = .ok (.complete result, tick)) ∨
    ∃ reason silent tick, ended = .ok (.rejected reason silent, tick)

/-- A target or a switch does not let the job pass. -/
theorem ends_never_pass {action : Action} (ends : Action.Ends action) (job kept : CowJob)
    (tick later : Nat) : dispatchAction out job action tick ≠ .ok (.pass kept, later) := by
  intro passed
  cases ends with
  | target target dispatcher silentOverride =>
      rw [dispatchAction] at passed
      simp only [bind, StateT.bind, Except.bind] at passed
      cases acted : out.runTarget target job dispatcher tick with
      | error error => simp [acted] at passed
      | ok outcome =>
          obtain ⟨result, after⟩ := outcome
          rw [acted] at passed
          cases result <;> cases passed
  | switch inner =>
      rename_i switch
      rw [dispatchAction] at passed
      simp only [bind, StateT.bind, Except.bind] at passed
      cases acted : switch.dispatch out job.get tick with
      | error error => simp [acted] at passed
      | ok outcome =>
          obtain ⟨result, after⟩ := outcome
          rw [acted] at passed
          cases result <;> cases passed

/-- An attempt settles if it does after every action that lets the job pass. -/
theorem settles_cons {job : CowJob} {action : Action} {rest : List Action} {tick : Nat}
    (follows : ∀ kept later, dispatchAction out job action (tick + 1) = .ok (.pass kept, later) →
      Settles (attemptRoute out kept rest later)) :
    Settles (attemptRoute out job (action :: rest) tick) := by
  rw [attemptRoute, passOver_eq]
  cases out.isCancelled tick with
  | true => exact Or.inl ⟨_, rfl⟩
  | false =>
      simp only [Bool.false_eq_true, if_false]
      cases acted : dispatchAction out job action (tick + 1) with
      | error error => exact Or.inl ⟨_, rfl⟩
      | ok passed =>
          obtain ⟨passage, later⟩ := passed
          cases passage with
          | pass kept => exact follows kept later acted
          | complete result => exact Or.inr (Or.inl ⟨result, later, rfl⟩)
          | reject reason silent => exact Or.inr (Or.inr ⟨reason, silent, later, rfl⟩)

theorem attemptRoute_settles {last : Action} (ends : Action.Ends last) (front : List Action) :
    ∀ (job : CowJob) (tick : Nat), Settles (attemptRoute out job (front ++ [last]) tick) := by
  induction front with
  | nil =>
      intro job tick
      apply settles_cons
      intro kept later passed
      exact absurd passed (ends_never_pass out ends job kept _ later)
  | cons action rest ih =>
      intro job tick
      apply settles_cons
      intro kept later _
      exact ih kept later

end Attempt

/-- The actions of a route of the tree, at any depth. -/
inductive RouteIn (actions : List Action) : Switch → Prop
  | here {name : String} {routes : List Route} (member : .mk name actions ∈ routes) :
      RouteIn actions (.mk routes)
  | nested {name : String} {routes : List Route} {outer : List Action} {inner : Switch}
      (member : .mk name outer ∈ routes) (step : .switch inner ∈ outer)
      (inside : RouteIn actions inner) : RouteIn actions (.mk routes)

theorem RouteIn.endsOnce {actions : List Action} {switch : Switch}
    (inside : RouteIn actions switch) : switch.WellFormed → EndsOnce actions := by
  induction inside with
  | here member =>
      intro formed
      exact (Route.wellFormed_iff _ actions).mp ((Switch.wellFormed_iff _).mp formed _ member)
  | nested member step _ ih =>
      intro formed
      obtain ⟨front, last, same, steps, ends⟩ :=
        (Route.wellFormed_iff _ _).mp ((Switch.wellFormed_iff _).mp formed _ member)
      rw [same] at step
      rcases List.mem_append.mp step with early | final
      · have terminal := steps _ early
        cases terminal
      · rw [← List.mem_singleton.mp final] at ends
        cases ends with
        | switch innerFormed => exact ih innerFormed

/-- The validation accepts the well-formed trees, the dispatch of a switch is made of attempts at
its routes, and in a valid tree every attempt completes the job, fails or rejects it. -/
theorem validate_accepts_wellFormed (switch : Switch) :
    (switch.validate = .ok () ↔ switch.WellFormed) ∧
    (∀ out rejections actions job tick, dispatchActions out job rejections actions tick =
      (attemptRoute out job actions tick).map
        fun ended => (ended.1.next rejections, ended.2)) ∧
    (switch.validate = .ok () → ∀ actions, RouteIn actions switch →
      ∀ out job tick, Settles (attemptRoute out job actions tick)) := by
  refine ⟨switch.validate_iff, dispatchActions_eq, ?_⟩
  intro valid actions inside out job tick
  obtain ⟨front, last, rfl, _, ends⟩ := inside.endsOnce (switch.validate_iff.mp valid)
  exact attemptRoute_settles out ends front job tick

end BitsBroker
