import BitsBroker.Config.ParseRules

/-!
Which of the written steps the parser keeps. A `Shape` is the tree of names that routes are written
with. The written tree has one step for each string and for each key of a step object that is
`switch` or has a namespace; the parsed tree has one for each action that the parser returned.

The parser takes the key `switch` if there is one, and else the first key with a namespace, and
does not look at the others. The two trees are the same if and only if no step object has two
such keys.
-/

namespace BitsBroker

mutual

inductive Shape where
  | step (written : StepName)
  | switch (routes : List RouteShape)

inductive RouteShape where
  | mk (name : String) (steps : List Shape)

end

def isActionKey (key : String) : Bool := decide (key = "switch") || (splitNs key).isSome

mutual

/-- The routes as they are written. -/
def routesShape : Json → List RouteShape
  | .array entries => entriesShape entries
  | _ => []

def entriesShape : List Json → List RouteShape
  | [] => []
  | entry :: rest => entryShape entry ++ entriesShape rest

def entryShape : Json → List RouteShape
  | .object fields => namedRouteShape fields
  | _ => []

def namedRouteShape : List (String × Json) → List RouteShape
  | [] => []
  | (name, value) :: rest => if rest.isEmpty then [.mk name (routeValueShape value)] else []

def routeValueShape : Json → List Shape
  | .array actions => actionsShape actions
  | _ => []

def actionsShape : List Json → List Shape
  | [] => []
  | value :: rest => actionShape value ++ actionsShape rest

def actionShape : Json → List Shape
  | .string name => ((splitNs name).map fun parts => Shape.step ⟨false, parts.1, parts.2⟩).toList
  | .object fields => keysShape fields
  | _ => []

def keysShape : List (String × Json) → List Shape
  | [] => []
  | (key, value) :: rest =>
      (if key = "switch" then [Shape.switch (routesShape value)]
        else ((splitNs key).map fun parts => Shape.step ⟨true, parts.1, parts.2⟩).toList) ++
      keysShape rest

end

mutual

/-- No step object has two keys for an action. -/
def routesSingle : Json → Bool
  | .array entries => entriesSingle entries
  | _ => true

def entriesSingle : List Json → Bool
  | [] => true
  | entry :: rest => entrySingle entry && entriesSingle rest

def entrySingle : Json → Bool
  | .object fields => namedRouteSingle fields
  | _ => true

def namedRouteSingle : List (String × Json) → Bool
  | [] => true
  | (_, value) :: rest => if rest.isEmpty then routeValueSingle value else true

def routeValueSingle : Json → Bool
  | .array actions => actionsSingle actions
  | _ => true

def actionsSingle : List Json → Bool
  | [] => true
  | value :: rest => actionSingle value && actionsSingle rest

def actionSingle : Json → Bool
  | .object fields =>
      decide (fields.countP (fun field => isActionKey field.1) ≤ 1) && switchSingle fields
  | _ => true

def switchSingle : List (String × Json) → Bool
  | [] => true
  | (key, value) :: rest => if key = "switch" then routesSingle value else switchSingle rest

end

mutual

def ParsedRoute.shape : ParsedRoute → RouteShape
  | .mk name steps => .mk name (stepsShape steps)

def stepsShape : List ParsedStep → List Shape
  | [] => []
  | step :: rest => step.shape :: stepsShape rest

def ParsedStep.shape : ParsedStep → Shape
  | .action written _ => .step written
  | .switch routes => .switch (parsedShape routes)

/-- The routes as they are parsed. -/
def parsedShape : List ParsedRoute → List RouteShape
  | [] => []
  | route :: rest => route.shape :: parsedShape rest

end

section Yields

variable {A B : Type}

/-- Whatever `parse` returns has the property. -/
def Yields (parse : ParseM A) (post : A → Prop) : Prop :=
  ∀ s value, (parse s).1 = .ok value → post value

theorem yields_pure {post : A → Prop} {value : A} (holds : post value) :
    Yields (ParseM.pure value) post := by
  intro s found eq
  cases eq
  exact holds

theorem yields_fail {post : A → Prop} (error : ParseError) :
    Yields (ParseM.fail error : ParseM A) post := by
  intro s found eq
  cases eq

theorem yields_true (parse : ParseM A) : Yields parse fun _ => True := fun _ _ _ => trivial

theorem yields_bind {first : ParseM A} {second : A → ParseM B} {mid : A → Prop} {post : B → Prop}
    (yields : Yields first mid) (then_ : ∀ value, mid value → Yields (second value) post) :
    Yields (first >>= second) post := by
  intro s result eq
  change (ParseM.bind first second s).1 = .ok result at eq
  rw [ParseM.bind_eq] at eq
  cases answer : (first s).1 with
  | error error =>
      rw [answer] at eq
      cases eq
  | ok value =>
      rw [answer] at eq
      exact then_ value (yields s value answer) _ result eq

end Yields

theorem length_keysShape (fields : List (String × Json)) :
    (keysShape fields).length = fields.countP fun field => isActionKey field.1 := by
  induction fields with
  | nil => rfl
  | cons field rest ih =>
      obtain ⟨key, value⟩ := field
      rw [keysShape, List.length_append, ih, List.countP_cons, Nat.add_comm]
      by_cases isSwitch : key = "switch"
      · simp [isSwitch, isActionKey]
      · cases parts : splitNs key with
        | none => simp [isSwitch, isActionKey, parts]
        | some both => simp [isSwitch, isActionKey, parts]

/-- A list that has an element is that element alone if and only if it has length one. -/
theorem eq_singleton_iff {found : Shape} {written : List Shape} (member : found ∈ written)
    (kept : Shape) : written = [kept] ↔ written.length ≤ 1 ∧ found = kept := by
  constructor
  · rintro rfl
    exact ⟨le_refl 1, List.mem_singleton.mp member⟩
  · rintro ⟨short, rfl⟩
    have positive := List.length_pos_of_mem member
    have one : written.length = 1 := by omega
    obtain ⟨only, rfl⟩ := List.length_eq_one_iff.mp one
    rw [List.mem_singleton.mp member]

/-- The reference that a parsed step was written as. -/
def referenceOf (leaf : StepName × StepAction) : Option (String × String) :=
  if leaf.1.inline then none else some (leaf.1.ns, leaf.1.name)

/-- What the parser keeps of one step. -/
structure StepKept (value : Json) (step : ParsedStep) : Prop where
  count : 1 ≤ (actionShape value).length
  single : actionShape value = [step.shape] ↔ actionSingle value = true
  named : step.leaves.filterMap referenceOf = (actionReferences value).filterMap splitNs

structure StepsKept (actions : List Json) (steps : List ParsedStep) : Prop where
  count : (stepsShape steps).length ≤ (actionsShape actions).length
  single : actionsShape actions = stepsShape steps ↔ actionsSingle actions = true
  named : (stepsLeaves steps).filterMap referenceOf =
    (actionsReferences actions).filterMap splitNs

/-- What the parser keeps of routes that are written with the shape `written`. -/
structure RoutesKept (written : List RouteShape) (single : Bool) (references : List String)
    (routes : List ParsedRoute) : Prop where
  count : written.length = (parsedShape routes).length
  single : written = parsedShape routes ↔ single = true
  named : (routesLeaves routes).filterMap referenceOf = references.filterMap splitNs

theorem StepsKept.cons {value : Json} {rest : List Json} {step : ParsedStep}
    {steps : List ParsedStep} (first : StepKept value step) (others : StepsKept rest steps) :
    StepsKept (value :: rest) (step :: steps) := by
  have more := first.count
  have count := others.count
  constructor
  · rw [actionsShape, stepsShape, List.length_append, List.length_cons]
    omega
  · rw [actionsShape, stepsShape, actionsSingle, Bool.and_eq_true, ← first.single,
      ← others.single]
    constructor
    · intro same
      have lengths := congrArg List.length same
      rw [List.length_append, List.length_cons] at lengths
      have one : (actionShape value).length = [step.shape].length := by
        rw [List.length_singleton]
        omega
      exact List.append_inj (same.trans List.singleton_append.symm) one
    · rintro ⟨head, tail⟩
      rw [head, tail, List.singleton_append]
  · rw [stepsLeaves, actionsReferences, List.filterMap_append, List.filterMap_append,
      first.named, others.named]

theorem RoutesKept.cons {firsts rest : List RouteShape} {single others : Bool}
    {references more : List String} {route : ParsedRoute} {routes : List ParsedRoute}
    (first : RoutesKept firsts single references [route])
    (second : RoutesKept rest others more routes) :
    RoutesKept (firsts ++ rest) (single && others) (references ++ more) (route :: routes) := by
  have one : parsedShape [route] = [route.shape] := by rw [parsedShape, parsedShape]
  have split_ : parsedShape (route :: routes) = parsedShape [route] ++ parsedShape routes := by
    rw [one, parsedShape, List.singleton_append]
  have leaves : routesLeaves (route :: routes) = routesLeaves [route] ++ routesLeaves routes := by
    rw [routesLeaves, routesLeaves, routesLeaves, List.append_nil]
  constructor
  · rw [split_, List.length_append, List.length_append, first.count, second.count]
  · rw [split_, Bool.and_eq_true, ← first.single, ← second.single]
    constructor
    · intro same
      exact List.append_inj same first.count
    · rintro ⟨head, tail⟩
      rw [head, tail]
  · rw [leaves, List.filterMap_append, List.filterMap_append, first.named, second.named]

/-- A step object whose key `found` the parser takes. -/
theorem StepKept.object {fields : List (String × Json)} {found : Shape} {step : ParsedStep}
    (member : found ∈ keysShape fields) (same : found = step.shape ↔ switchSingle fields = true)
    (named : step.leaves.filterMap referenceOf = (switchReferences fields).filterMap splitNs) :
    StepKept (.object fields) step := by
  constructor
  · rw [actionShape]
    exact List.length_pos_of_mem member
  · rw [actionShape, actionSingle, eq_singleton_iff member, length_keysShape, same,
      Bool.and_eq_true, decide_eq_true_eq]
  · rw [actionReferences, named]

theorem no_switch_key {ctx : RouteContext} : ∀ {fields : List (String × Json)},
    parseSwitch ctx fields = none → switchSingle fields = true ∧ switchReferences fields = [] := by
  intro fields
  induction fields with
  | nil =>
      intro _
      exact ⟨by rw [switchSingle], by rw [switchReferences]⟩
  | cons field rest ih =>
      obtain ⟨key, value⟩ := field
      intro absent
      rw [parseSwitch] at absent
      split at absent
      · cases absent
      next other =>
        rw [switchSingle, switchReferences, if_neg other, if_neg other]
        exact ih absent

theorem inlineField_mem : ∀ {fields : List (String × Json)} {key ns name : String}
    {config : Json}, inlineField fields = some (key, (ns, name), config) →
      Shape.step ⟨true, ns, name⟩ ∈ keysShape fields := by
  intro fields
  induction fields with
  | nil =>
      intro key ns name config found
      cases found
  | cons field rest ih =>
      obtain ⟨written, value⟩ := field
      intro key ns name config found
      rw [inlineField] at found
      rw [keysShape, List.mem_append]
      cases parts : splitNs written with
      | none =>
          rw [parts] at found
          exact Or.inr (ih found)
      | some both =>
          rw [parts] at found
          cases found
          left
          have other : written ≠ "switch" := by
            rintro rfl
            have plain : splitNs "switch" = none := by decide
            rw [plain] at parts
            cases parts
          simp [other]

theorem parseReference_kept (ctx : RouteContext) (name routeName : String) :
    Yields (parseReference ctx name routeName) (StepKept (.string name)) := by
  unfold parseReference
  split
  · exact yields_fail _
  · split
    · exact yields_fail _
    next ns entryName parts =>
      refine yields_bind (yields_true _) ?_
      intro action _
      apply yields_pure
      constructor
      · simp [actionShape, parts]
      · simp [actionShape, parts, ParsedStep.shape, actionSingle]
      · simp [ParsedStep.leaves, referenceOf, actionReferences, parts]

theorem parseObject_kept {ctx : RouteContext} (routeName : String)
    {fields : List (String × Json)} (absent : parseSwitch ctx fields = none) :
    Yields (parseObject ctx routeName fields) (StepKept (.object fields)) := by
  obtain ⟨single, references⟩ := no_switch_key absent
  unfold parseObject
  split
  · exact yields_fail _
  next key ns actionName config found =>
    refine yields_bind (yields_true _) ?_
    intro action _
    apply yields_pure
    apply StepKept.object (inlineField_mem found)
    · simp [ParsedStep.shape, single]
    · simp [ParsedStep.leaves, referenceOf, references]

mutual

theorem parseRoutes_kept (ctx : RouteContext) (section_ : String) : ∀ value : Json,
    Yields (parseRoutes ctx section_ value)
      (RoutesKept (routesShape value) (routesSingle value) (routesReferences value))
  | .array entries => by
      rw [parseRoutes, routesShape, routesSingle, routesReferences]
      exact parseEntries_kept ctx section_ 0 entries
  | .null => yields_fail _
  | .bool _ => yields_fail _
  | .number _ => yields_fail _
  | .string _ => yields_fail _
  | .object _ => yields_fail _

theorem parseEntries_kept (ctx : RouteContext) (section_ : String) (index : Nat) :
    ∀ entries : List Json, Yields (parseEntries ctx section_ index entries)
      (RoutesKept (entriesShape entries) (entriesSingle entries) (entriesReferences entries))
  | [] => by
      rw [parseEntries, entriesShape, entriesSingle, entriesReferences]
      exact yields_pure ⟨by simp [parsedShape], by simp [parsedShape], by simp [routesLeaves]⟩
  | entry :: rest => by
      rw [parseEntries, entriesShape, entriesSingle, entriesReferences]
      refine yields_bind (parseEntry_kept ctx section_ index entry) ?_
      intro route first
      refine yields_bind (parseEntries_kept ctx section_ (index + 1) rest) ?_
      intro routes others
      exact yields_pure (first.cons others)

theorem parseEntry_kept (ctx : RouteContext) (section_ : String) (index : Nat) :
    ∀ entry : Json, Yields (parseEntry ctx section_ index entry) fun route =>
      RoutesKept (entryShape entry) (entrySingle entry) (entryReferences entry) [route]
  | .object fields => by
      rw [parseEntry, entryShape, entrySingle, entryReferences]
      exact parseNamedRoute_kept ctx section_ index fields
  | .null => yields_fail _
  | .bool _ => yields_fail _
  | .number _ => yields_fail _
  | .string _ => yields_fail _
  | .array _ => yields_fail _

theorem parseNamedRoute_kept (ctx : RouteContext) (section_ : String) (index : Nat) :
    ∀ fields : List (String × Json), Yields (parseNamedRoute ctx section_ index fields) fun route =>
      RoutesKept (namedRouteShape fields) (namedRouteSingle fields) (namedRouteReferences fields)
        [route]
  | [] => yields_fail _
  | (name, value) :: rest => by
      rw [parseNamedRoute, namedRouteShape, namedRouteSingle, namedRouteReferences]
      split
      · exact parseRouteValue_kept ctx section_ name value
      · exact yields_fail _

theorem parseRouteValue_kept (ctx : RouteContext) (section_ name : String) :
    ∀ value : Json, Yields (parseRouteValue ctx section_ name value) fun route =>
      RoutesKept [.mk name (routeValueShape value)] (routeValueSingle value)
        (routeValueReferences value) [route]
  | .array actions => by
      rw [parseRouteValue, routeValueShape, routeValueSingle, routeValueReferences]
      refine yields_bind (parseActions_kept ctx name actions) ?_
      intro steps kept
      apply yields_pure
      constructor
      · simp [parsedShape]
      · simp [parsedShape, ParsedRoute.shape, kept.single]
      · simp [routesLeaves, ParsedRoute.leaves, kept.named]
  | .null => yields_fail _
  | .bool _ => yields_fail _
  | .number _ => yields_fail _
  | .string _ => yields_fail _
  | .object _ => yields_fail _

theorem parseActions_kept (ctx : RouteContext) (routeName : String) : ∀ actions : List Json,
    Yields (parseActions ctx routeName actions) (StepsKept actions)
  | [] => by
      rw [parseActions]
      exact yields_pure ⟨by simp [stepsShape], by simp [actionsShape, stepsShape, actionsSingle],
        by simp [stepsLeaves, actionsReferences]⟩
  | value :: rest => by
      rw [parseActions]
      refine yields_bind (parseAction_kept ctx routeName value) ?_
      intro step first
      refine yields_bind (parseActions_kept ctx routeName rest) ?_
      intro steps others
      exact yields_pure (.cons first others)

theorem parseAction_kept (ctx : RouteContext) (routeName : String) : ∀ value : Json,
    Yields (parseAction ctx routeName value) (StepKept value)
  | .string name => parseReference_kept ctx name routeName
  | .object fields => by
      rw [parseAction]
      cases found : parseSwitch ctx fields with
      | none => exact parseObject_kept routeName found
      | some switch =>
          refine yields_bind (parseSwitch_kept ctx fields switch found) ?_
          rintro routes ⟨written, member, same, named⟩
          cases validateRoutes routes with
          | error e => exact yields_fail _
          | ok valid =>
              apply yields_pure
              apply StepKept.object member
              · simp only [ParsedStep.shape, Shape.switch.injEq]
                exact same
              · rw [ParsedStep.leaves]
                exact named
  | .null => yields_fail _
  | .bool _ => yields_fail _
  | .number _ => yields_fail _
  | .array _ => yields_fail _

theorem parseSwitch_kept (ctx : RouteContext) :
    ∀ (fields : List (String × Json)) (switch : ParseM (List ParsedRoute)),
      parseSwitch ctx fields = some switch → Yields switch fun routes =>
        ∃ written, Shape.switch written ∈ keysShape fields ∧
          (written = parsedShape routes ↔ switchSingle fields = true) ∧
          (routesLeaves routes).filterMap referenceOf =
            (switchReferences fields).filterMap splitNs
  | [], switch, found => by
      rw [parseSwitch] at found
      cases found
  | (key, value) :: rest, switch, found => by
      rw [parseSwitch] at found
      rw [switchSingle, switchReferences, keysShape]
      split at found
      next isSwitch =>
        cases found
        rw [if_pos isSwitch, if_pos isSwitch, if_pos isSwitch]
        intro s routes parsed
        have kept := parseRoutes_kept ctx "switch" value s routes parsed
        exact ⟨routesShape value, by simp, kept.single, kept.named⟩
      next other =>
        rw [if_neg other, if_neg other, if_neg other]
        intro s routes parsed
        obtain ⟨written, member, rest⟩ := parseSwitch_kept ctx rest switch found s routes parsed
        exact ⟨written, List.mem_append_right _ member, rest⟩

end

/-- Accepted routes have the steps they are written with if and only if no step object has two
keys for an action. -/
theorem parseRoutes_keeps_steps_iff {ctx : RouteContext} {section_ : String} {value : Json}
    {s t : ParseState} {routes : List ParsedRoute}
    (accepted : parseRoutes ctx section_ value s = (.ok routes, t)) :
    routesShape value = parsedShape routes ↔ routesSingle value = true := by
  have parsed : (parseRoutes ctx section_ value s).1 = .ok routes := by rw [accepted]
  exact (parseRoutes_kept ctx section_ value s routes parsed).single

namespace Scenario

def url : String × Json := ("url", .string "http://localhost:8080/")

/-- The built-in target over HTTP, which has to have a `url`. -/
def createHttp (config : Json) : Except String Action :=
  match (config.field "url").asStr with
  | some _ => .ok (.target ⟨fun _ => .error (.networkError "unreachable")⟩ none none)
  | none => .error "missing field url"

/-- The built-in target and two checks that the host has registered, which take any configuration. -/
def withChecks : RouteContext where
  workerServer := none
  jobStore := false
  brokerId := "site-env-0"
  tryFromSecsF64 := fun _ => .error "unused"
  registries := ⟨∅, ∅, ∅⟩
  createAction := fun name config =>
    if name = "has_role" ∨ name = "match" then .ok (.check ⟨fun _ => .ok .pass⟩ none none)
    else if name = "http" then createHttp config
    else .error s!"Unknown action: '{name}'"
  render := fun _ => ""

def guarded (steps : List Json) : Json := .array [.object [("guarded", .array steps)]]

def target : Json := .object [("target::http", .object [url])]

/-- Each check in an object of its own. -/
def apart : Json := guarded [.object [("check::has_role", .null)], .object [("check::match", .null)],
  target]

/-- Both checks in one object. -/
def together : Json := guarded [.object [("check::has_role", .null), ("check::match", .null)], target]

def keptSteps (value : Json) : Option (List StepName) :=
  match (parseRoutes withChecks "routes" value (ParseState.new ∅)).1 with
  | .error _ => none
  | .ok routes => some ((routesLeaves routes).map (·.1))

theorem keptSteps_some {value : Json} {written : List StepName}
    (kept : keptSteps value = some written) :
    ∃ routes t, parseRoutes withChecks "routes" value (ParseState.new ∅) = (.ok routes, t) ∧
      (routesLeaves routes).map (·.1) = written := by
  unfold keptSteps at kept
  split at kept
  · cases kept
  next routes parsed =>
    cases kept
    exact ⟨routes, _, Prod.ext parsed rfl, rfl⟩

end Scenario

open Scenario

theorem parseRoutes_keeps_steps_apart :
    ∃ routes t, parseRoutes withChecks "routes" apart (ParseState.new ∅) = (.ok routes, t) ∧
      routesSingle apart = true ∧ routesShape apart = parsedShape routes := by
  have kept : keptSteps apart = some [⟨true, "check", "has_role"⟩, ⟨true, "check", "match"⟩,
      ⟨true, "target", "http"⟩] := by decide +kernel
  obtain ⟨routes, t, accepted, _⟩ := keptSteps_some kept
  have single : routesSingle apart = true := by decide +kernel
  exact ⟨routes, t, accepted, single, (parseRoutes_keeps_steps_iff accepted).mpr single⟩

/-- The second check is dropped. -/
theorem second_check_dropped :
    ∃ routes t, parseRoutes withChecks "routes" together (ParseState.new ∅) = (.ok routes, t) ∧
      (routesLeaves routes).map (·.1) = [⟨true, "check", "has_role"⟩, ⟨true, "target", "http"⟩] ∧
      routesShape together ≠ parsedShape routes := by
  have kept : keptSteps together = some [⟨true, "check", "has_role"⟩, ⟨true, "target", "http"⟩] := by
    decide +kernel
  obtain ⟨routes, t, accepted, leaves⟩ := keptSteps_some kept
  refine ⟨routes, t, accepted, leaves, ?_⟩
  intro same
  have parsed : (parseRoutes withChecks "routes" together (ParseState.new ∅)).1 = .ok routes := by
    rw [accepted]
  have single := (parseRoutes_kept withChecks "routes" together _ routes parsed).single.mp same
  revert single
  decide +kernel

end BitsBroker
