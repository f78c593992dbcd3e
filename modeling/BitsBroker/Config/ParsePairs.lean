import BitsBroker.Config.Registration

/-!
Two parses of the same routes from different states. The numbers of the targets and dispatchers
that they build are forgotten; all the rest of what they return is the same if the states stay
related, and in particular both succeed or both fail with the same error. It is enough to show
this for the targets that are looked up in the cache, since nothing else depends on the state.
-/

namespace BitsBroker

def StepAction.forget : StepAction → StepAction
  | .check action _ silent => .check action none silent
  | .transform action _ silent => .transform action none silent
  | .target _ => .target ⟨0, none, none⟩
  | .embedded action => .embedded action

mutual

def ParsedRoute.forget : ParsedRoute → ParsedRoute
  | .mk name steps => .mk name (forgetSteps steps)

def forgetSteps : List ParsedStep → List ParsedStep
  | [] => []
  | step :: rest => step.forget :: forgetSteps rest

def ParsedStep.forget : ParsedStep → ParsedStep
  | .action written action => .action written action.forget
  | .switch routes => .switch (forgetRoutes routes)

/-- The routes without the numbers of their targets and dispatchers. -/
def forgetRoutes : List ParsedRoute → List ParsedRoute
  | [] => []
  | route :: rest => route.forget :: forgetRoutes rest

end

theorem forget_terminal (step : ParsedStep) : step.forget.terminal = step.terminal := by
  cases step with
  | switch routes => rw [ParsedStep.forget, ParsedStep.terminal, ParsedStep.terminal]
  | action written action => cases action <;> rw [ParsedStep.forget] <;> rfl

theorem length_forgetSteps (steps : List ParsedStep) :
    (forgetSteps steps).length = steps.length := by
  induction steps with
  | nil => rw [forgetSteps]
  | cons step rest ih => rw [forgetSteps, List.length_cons, List.length_cons, ih]

mutual

/-- The numbers do not matter for the validity of routes. -/
theorem validateRoutes_forget : ∀ routes : List ParsedRoute,
    validateRoutes (forgetRoutes routes) = validateRoutes routes
  | [] => by rw [forgetRoutes]
  | route :: rest => by
      rw [forgetRoutes, validateRoutes, validateRoutes, validateRoute_forget route,
        validateRoutes_forget rest]

theorem validateRoute_forget : ∀ route : ParsedRoute,
    validateRoute route.forget = validateRoute route
  | .mk name [] => by rw [ParsedRoute.forget, forgetSteps]
  | .mk name (step :: rest) => by
      have same := validateSteps_forget name 0 (rest.length + 1) (step :: rest)
      rw [forgetSteps] at same
      rw [ParsedRoute.forget, forgetSteps, validateRoute, validateRoute, length_forgetSteps, same]

theorem validateSteps_forget (name : String) (index count : Nat) : ∀ steps : List ParsedStep,
    validateSteps name index count (forgetSteps steps) = validateSteps name index count steps
  | [] => by rw [forgetSteps]
  | step :: rest => by
      rw [forgetSteps, validateSteps, validateSteps, validateStep_forget step, forget_terminal,
        validateSteps_forget name (index + 1) count rest]

theorem validateStep_forget : ∀ step : ParsedStep, validateStep step.forget = validateStep step
  | .switch routes => by
      rw [ParsedStep.forget, validateStep, validateStep, validateRoutes_forget routes]
  | .action written (.check _ _ _) => by rw [ParsedStep.forget]; rfl
  | .action written (.transform _ _ _) => by rw [ParsedStep.forget]; rfl
  | .action written (.target _) => by rw [ParsedStep.forget]; rfl
  | .action written (.embedded _) => by rw [ParsedStep.forget]; rfl

end

section Rules

variable {A B C D : Type} {Rel : ParseState → ParseState → Prop}

/-- From related states the two parses return the same, as far as `view` shows it, and leave
related states. -/
def InStep (Rel : ParseState → ParseState → Prop) (view : A → C) (left right : ParseM A) : Prop :=
  ∀ s t, Rel s t → Rel (left s).2 (right t).2 ∧ (left s).1.map view = (right t).1.map view

theorem inStep_pure {view : A → C} {a b : A} (same : view a = view b) :
    InStep Rel view (ParseM.pure a) (ParseM.pure b) := by
  intro s t related
  exact ⟨related, congrArg Except.ok same⟩

theorem inStep_fail {view : A → C} (error : ParseError) :
    InStep Rel view (ParseM.fail error) (ParseM.fail error) := by
  intro s t related
  exact ⟨related, rfl⟩

theorem inStep_bind {view : A → C} {shown : B → D} {left right : ParseM A}
    {thenLeft thenRight : A → ParseM B} (first : InStep Rel view left right)
    (second : ∀ a b, view a = view b → InStep Rel shown (thenLeft a) (thenRight b)) :
    InStep Rel shown (left >>= thenLeft) (right >>= thenRight) := by
  intro s t related
  obtain ⟨still, same⟩ := first s t related
  change Rel (ParseM.bind left thenLeft s).2 (ParseM.bind right thenRight t).2 ∧
    (ParseM.bind left thenLeft s).1.map shown = (ParseM.bind right thenRight t).1.map shown
  rw [ParseM.bind_eq, ParseM.bind_eq]
  cases one : (left s).1 with
  | error error =>
      cases other : (right t).1 with
      | error error' =>
          rw [one, other] at same
          cases same
          exact ⟨still, rfl⟩
      | ok value =>
          rw [one, other] at same
          cases same
  | ok value =>
      cases other : (right t).1 with
      | error error =>
          rw [one, other] at same
          cases same
      | ok value' =>
          rw [one, other] at same
          exact second value value' (Except.ok.inj same) _ _ still

end Rules

section Steps

variable {ctx : RouteContext} {Rel : ParseState → ParseState → Prop}

theorem finishStep_forget (action : Action) (silent : Option Bool) (attached : Attached)
    (s t : ParseState) : (finishStep action silent attached s).1.map StepAction.forget =
      (finishStep action silent attached t).1.map StepAction.forget := by
  unfold finishStep
  split <;> rfl

/-- Whether an action can be attached does not depend on the state. -/
theorem attachStep_forget (ctx : RouteContext) (entryName actionName : String) (action : Action)
    (settings : DispatcherSettings) (silent : Option Bool) (s t : ParseState) :
    (attachStep ctx entryName actionName action settings silent s).1.map StepAction.forget =
      (attachStep ctx entryName actionName action settings silent t).1.map StepAction.forget := by
  unfold attachStep
  dsimp only
  cases attachDispatcher ctx.toParseContext entryName actionName (actionKind action) settings with
  | error abort => cases abort <;> rfl
  | ok attached => exact finishStep_forget action silent attached _ _

/-- What has to be shown of two states. -/
structure PairRules (ctx : RouteContext) (Rel : ParseState → ParseState → Prop) : Prop where
  attach (entryName actionName : String) (action : Action) (settings : DispatcherSettings)
    (silent : Option Bool) (s t : ParseState) : Rel s t →
    Rel (attachStep ctx entryName actionName action settings silent s).2
      (attachStep ctx entryName actionName action settings silent t).2
  target (name routeName : String) : InStep Rel StepAction.forget
    (resolveTarget ctx name routeName) (resolveTarget ctx name routeName)

theorem Builds.inStep (rules : PairRules ctx Rel) {entryName : String} {parse : ParseM StepAction}
    {parts : Option StepParts} (builds : Builds ctx entryName parse parts) :
    InStep Rel StepAction.forget parse parse := by
  cases parts with
  | none =>
      obtain ⟨error, rfl⟩ := builds
      exact inStep_fail error
  | some found =>
      obtain rfl := builds
      intro s t related
      exact ⟨rules.attach _ _ _ _ _ s t related, attachStep_forget _ _ _ _ _ _ s t⟩

theorem resolveNamed_inStep (rules : PairRules ctx Rel) (ns name routeName : String) :
    InStep Rel StepAction.forget (resolveNamed ctx ns name routeName)
      (resolveNamed ctx ns name routeName) := by
  unfold resolveNamed
  split
  · exact (entry_builds ctx.registries.checks ns name routeName).inStep rules
  · split
    · exact (entry_builds ctx.registries.transforms ns name routeName).inStep rules
    · split
      · exact rules.target name routeName
      · exact inStep_fail _

theorem parseReference_inStep (rules : PairRules ctx Rel) (name routeName : String) :
    InStep Rel ParsedStep.forget (parseReference ctx name routeName)
      (parseReference ctx name routeName) := by
  unfold parseReference
  split
  · exact inStep_fail _
  · split
    · exact inStep_fail _
    next ns entryName _ =>
      refine inStep_bind (resolveNamed_inStep rules ns entryName routeName) ?_
      intro left right same
      apply inStep_pure
      rw [ParsedStep.forget, ParsedStep.forget, same]

theorem parseObject_inStep (rules : PairRules ctx Rel) (routeName : String)
    (fields : List (String × Json)) :
    InStep Rel ParsedStep.forget (parseObject ctx routeName fields)
      (parseObject ctx routeName fields) := by
  unfold parseObject
  split
  · exact inStep_fail _
  next key ns actionName config _ =>
    obtain ⟨parts, builds, _⟩ := parseInline_builds routeName key ns actionName config fields
    refine inStep_bind (builds.inStep rules) ?_
    intro left right same
    apply inStep_pure
    rw [ParsedStep.forget, ParsedStep.forget, same]

end Steps

section Trees

variable {ctx : RouteContext} {Rel : ParseState → ParseState → Prop}

mutual

theorem parseRoutes_inStep (rules : PairRules ctx Rel) (section_ : String) : ∀ value : Json,
    InStep Rel forgetRoutes (parseRoutes ctx section_ value) (parseRoutes ctx section_ value)
  | .array entries => by
      rw [parseRoutes]
      exact parseEntries_inStep rules section_ 0 entries
  | .null => inStep_fail _
  | .bool _ => inStep_fail _
  | .number _ => inStep_fail _
  | .string _ => inStep_fail _
  | .object _ => inStep_fail _

theorem parseEntries_inStep (rules : PairRules ctx Rel) (section_ : String) (index : Nat) :
    ∀ entries : List Json, InStep Rel forgetRoutes (parseEntries ctx section_ index entries)
      (parseEntries ctx section_ index entries)
  | [] => by
      rw [parseEntries]
      exact inStep_pure rfl
  | entry :: rest => by
      rw [parseEntries]
      refine inStep_bind (parseEntry_inStep rules section_ index entry) ?_
      intro left right first
      refine inStep_bind (parseEntries_inStep rules section_ (index + 1) rest) ?_
      intro lefts rights others
      apply inStep_pure
      rw [forgetRoutes, forgetRoutes, first, others]

theorem parseEntry_inStep (rules : PairRules ctx Rel) (section_ : String) (index : Nat) :
    ∀ entry : Json, InStep Rel ParsedRoute.forget (parseEntry ctx section_ index entry)
      (parseEntry ctx section_ index entry)
  | .object fields => by
      rw [parseEntry]
      exact parseNamedRoute_inStep rules section_ index fields
  | .null => inStep_fail _
  | .bool _ => inStep_fail _
  | .number _ => inStep_fail _
  | .string _ => inStep_fail _
  | .array _ => inStep_fail _

theorem parseNamedRoute_inStep (rules : PairRules ctx Rel) (section_ : String) (index : Nat) :
    ∀ fields : List (String × Json), InStep Rel ParsedRoute.forget
      (parseNamedRoute ctx section_ index fields) (parseNamedRoute ctx section_ index fields)
  | [] => inStep_fail _
  | (name, value) :: rest => by
      rw [parseNamedRoute]
      split
      · exact parseRouteValue_inStep rules section_ name value
      · exact inStep_fail _

theorem parseRouteValue_inStep (rules : PairRules ctx Rel) (section_ name : String) :
    ∀ value : Json, InStep Rel ParsedRoute.forget (parseRouteValue ctx section_ name value)
      (parseRouteValue ctx section_ name value)
  | .array actions => by
      rw [parseRouteValue]
      refine inStep_bind (parseActions_inStep rules name actions) ?_
      intro left right same
      apply inStep_pure
      rw [ParsedRoute.forget, ParsedRoute.forget, same]
  | .null => inStep_fail _
  | .bool _ => inStep_fail _
  | .number _ => inStep_fail _
  | .string _ => inStep_fail _
  | .object _ => inStep_fail _

theorem parseActions_inStep (rules : PairRules ctx Rel) (routeName : String) :
    ∀ actions : List Json, InStep Rel forgetSteps (parseActions ctx routeName actions)
      (parseActions ctx routeName actions)
  | [] => by
      rw [parseActions]
      exact inStep_pure rfl
  | value :: rest => by
      rw [parseActions]
      refine inStep_bind (parseAction_inStep rules routeName value) ?_
      intro left right first
      refine inStep_bind (parseActions_inStep rules routeName rest) ?_
      intro lefts rights others
      apply inStep_pure
      rw [forgetSteps, forgetSteps, first, others]

theorem parseAction_inStep (rules : PairRules ctx Rel) (routeName : String) :
    ∀ value : Json, InStep Rel ParsedStep.forget (parseAction ctx routeName value)
      (parseAction ctx routeName value)
  | .string name => parseReference_inStep rules name routeName
  | .object fields => by
      rw [parseAction]
      cases found : parseSwitch ctx fields with
      | none => exact parseObject_inStep rules routeName fields
      | some switch =>
          refine inStep_bind (parseSwitch_inStep rules fields switch found) ?_
          intro left right same
          have valid : validateRoutes left = validateRoutes right := by
            rw [← validateRoutes_forget left, same, validateRoutes_forget right]
          rw [valid]
          cases validateRoutes right with
          | error e => exact inStep_fail _
          | ok valid =>
              apply inStep_pure
              rw [ParsedStep.forget, ParsedStep.forget, same]
  | .null => inStep_fail _
  | .bool _ => inStep_fail _
  | .number _ => inStep_fail _
  | .array _ => inStep_fail _

theorem parseSwitch_inStep (rules : PairRules ctx Rel) :
    ∀ (fields : List (String × Json)) (switch : ParseM (List ParsedRoute)),
      parseSwitch ctx fields = some switch → InStep Rel forgetRoutes switch switch
  | [], switch, found => by
      rw [parseSwitch] at found
      cases found
  | (key, value) :: rest, switch, found => by
      rw [parseSwitch] at found
      split at found
      · cases found
        exact parseRoutes_inStep rules "switch" value
      · exact parseSwitch_inStep rules rest switch found

end

end Trees

end BitsBroker
