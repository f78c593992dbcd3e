import BitsBroker.Routing.Switch

/-!
The validation of routing trees. It accepts a tree if and only if every route in it, at any depth,
is a sequence of checks and transforms that ends in one target or one valid switch.
-/

namespace BitsBroker

inductive RoutingError where
  | invalidRoute (route reason : String)
  | invalidAction (route action reason : String)
  | missingTarget (route : String)
deriving DecidableEq

def Action.isTerminal : Action → Bool
  | .target _ _ _ | .switch _ => true
  | .check _ _ _ | .transform _ _ _ => false

mutual

def Switch.validate : Switch → Except RoutingError Unit
  | .mk routes => Switch.validateRoutes routes

def Switch.validateRoutes : List Route → Except RoutingError Unit
  | [] => .ok ()
  | route :: rest =>
      match route.validate with
      | .error e => .error e
      | .ok () => Switch.validateRoutes rest

def Route.validate : Route → Except RoutingError Unit
  | .mk name [] => .error (.invalidRoute name "must not be empty")
  | .mk name (first :: rest) => Route.validateActions name 0 (rest.length + 1) (first :: rest)

def Route.validateActions (name : String) (index count : Nat) :
    List Action → Except RoutingError Unit
  | [] => .error (.missingTarget name)
  | action :: rest =>
      match action.validateNested with
      | .error e => .error e
      | .ok () =>
          if action.isTerminal && index + 1 != count then .error (.invalidRoute name
            s!"unreachable action(s) after terminal step at index {index}")
          else if action.isTerminal then .ok ()
          else Route.validateActions name (index + 1) count rest

def Action.validateNested : Action → Except RoutingError Unit
  | .switch switch => switch.validate
  | .check _ _ _ | .transform _ _ _ | .target _ _ _ => .ok ()

end

mutual

/-- Every route is well formed. -/
inductive Switch.WellFormed : Switch → Prop
  | mk {routes : List Route} (each : ∀ route ∈ routes, Route.WellFormed route) :
      Switch.WellFormed (.mk routes)

/-- Checks and transforms, and then one last target or well-formed switch. -/
inductive Route.WellFormed : Route → Prop
  | mk {name : String} {front : List Action} {last : Action}
      (steps : ∀ action ∈ front, action.isTerminal = false) (ends : Action.Ends last) :
      Route.WellFormed (.mk name (front ++ [last]))

inductive Action.Ends : Action → Prop
  | target (target : TargetAction) (dispatcher : Option Nat) (silentOverride : Option Bool) :
      Action.Ends (.target target dispatcher silentOverride)
  | switch {switch : Switch} (inner : Switch.WellFormed switch) : Action.Ends (.switch switch)

end

/-- The actions of a well-formed route. -/
def EndsOnce (actions : List Action) : Prop :=
  ∃ front last, actions = front ++ [last] ∧ (∀ action ∈ front, action.isTerminal = false) ∧
    Action.Ends last

theorem Route.wellFormed_iff (name : String) (actions : List Action) :
    Route.WellFormed (.mk name actions) ↔ EndsOnce actions := by
  constructor
  · intro formed
    cases formed with
    | mk steps ends => exact ⟨_, _, rfl, steps, ends⟩
  · rintro ⟨front, last, rfl, steps, ends⟩
    exact .mk steps ends

theorem Switch.wellFormed_iff (routes : List Route) :
    Switch.WellFormed (.mk routes) ↔ ∀ route ∈ routes, Route.WellFormed route := by
  constructor
  · intro formed
    cases formed with
    | mk each => exact each
  · exact .mk

theorem not_endsOnce_nil : ¬EndsOnce [] := by
  rintro ⟨front, last, empty, _⟩
  simp at empty

theorem endsOnce_cons_step {action : Action} {rest : List Action}
    (step : action.isTerminal = false) : EndsOnce (action :: rest) ↔ EndsOnce rest := by
  constructor
  · rintro ⟨front, last, same, steps, ends⟩
    cases front with
    | nil =>
        obtain ⟨rfl, _⟩ := List.cons.inj same
        cases ends with
        | target => cases step
        | switch => cases step
    | cons first more =>
        obtain ⟨rfl, rest⟩ := List.cons.inj same
        exact ⟨more, last, rest, fun other member => steps other (List.mem_cons_of_mem _ member),
          ends⟩
  · rintro ⟨front, last, rfl, steps, ends⟩
    refine ⟨action :: front, last, rfl, ?_, ends⟩
    intro other member
    rcases List.mem_cons.mp member with rfl | inside
    · exact step
    · exact steps other inside

theorem endsOnce_cons_terminal {action : Action} {rest : List Action}
    (terminal : action.isTerminal = true) :
    EndsOnce (action :: rest) ↔ rest = [] ∧ Action.Ends action := by
  constructor
  · rintro ⟨front, last, same, steps, ends⟩
    cases front with
    | nil =>
        obtain ⟨rfl, rest⟩ := List.cons.inj same
        exact ⟨rest, ends⟩
    | cons first more =>
        obtain ⟨rfl, _⟩ := List.cons.inj same
        rw [steps action List.mem_cons_self] at terminal
        cases terminal
  · rintro ⟨rfl, ends⟩
    exact ⟨[], action, rfl, by simp, ends⟩

mutual

theorem Switch.validate_iff (switch : Switch) :
    switch.validate = .ok () ↔ switch.WellFormed := by
  cases switch with
  | mk routes =>
      rw [Switch.validate, Switch.wellFormed_iff]
      exact Switch.validateRoutes_iff routes

theorem Switch.validateRoutes_iff (routes : List Route) :
    Switch.validateRoutes routes = .ok () ↔ ∀ route ∈ routes, Route.WellFormed route := by
  cases routes with
  | nil => simp [Switch.validateRoutes]
  | cons route rest =>
      have first := Route.validate_iff route
      have others := Switch.validateRoutes_iff rest
      rw [Switch.validateRoutes, List.forall_mem_cons, ← first, ← others]
      cases route.validate with
      | error e => simp
      | ok valid => simp

theorem Route.validate_iff (route : Route) : route.validate = .ok () ↔ route.WellFormed := by
  cases route with
  | mk name actions =>
      rw [Route.wellFormed_iff]
      cases actions with
      | nil => simp [Route.validate, not_endsOnce_nil]
      | cons first rest =>
          rw [Route.validate]
          exact Route.validateActions_iff name 0 (rest.length + 1) (first :: rest) (by simp)

theorem Route.validateActions_iff (name : String) (index count : Nat) (actions : List Action)
    (counted : index + actions.length = count) :
    Route.validateActions name index count actions = .ok () ↔ EndsOnce actions := by
  cases actions with
  | nil => simp [Route.validateActions, not_endsOnce_nil]
  | cons action rest =>
      rw [List.length_cons] at counted
      have nested := Action.validateNested_iff action
      rw [Route.validateActions]
      cases terminal : action.isTerminal with
      | false =>
          have step := (nested.2 terminal)
          rw [step, endsOnce_cons_step terminal,
            ← Route.validateActions_iff name (index + 1) count rest (by omega)]
          simp
      | true =>
          rw [endsOnce_cons_terminal terminal, ← nested.1 terminal]
          cases action.validateNested with
          | error e => simp
          | ok valid =>
              have last : index + 1 = count ↔ rest = [] := by
                rw [← List.length_eq_zero_iff]
                omega
              by_cases final : rest = []
              · simp [last.mpr final, final]
              · have more : index + 1 ≠ count := fun same => final (last.mp same)
                simp [more, final]

theorem Action.validateNested_iff (action : Action) :
    (action.isTerminal = true → (action.validateNested = .ok () ↔ Action.Ends action)) ∧
      (action.isTerminal = false → action.validateNested = .ok ()) := by
  cases action with
  | check _ _ _ => simp [Action.isTerminal, Action.validateNested]
  | transform _ _ _ => simp [Action.isTerminal, Action.validateNested]
  | target target dispatcher silentOverride =>
      simp [Action.isTerminal, Action.validateNested, Action.Ends.target]
  | switch switch =>
      have inner := Switch.validate_iff switch
      constructor
      · intro _
        rw [Action.validateNested, inner]
        constructor
        · exact .switch
        · intro ends
          cases ends with
          | switch formed => exact formed
      · intro step
        cases step

end

end BitsBroker
