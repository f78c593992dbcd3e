import BitsBroker.Config.Dispatcher
import BitsBroker.Routing.Validate

/-!
The parser of routes. A step of a route is a reference to an entry of one of the three
registries, an action written inline, or a nested switch. Each step other than a switch
becomes an action with a dispatcher of its own, except that a named target is built once
and then taken from the cache of resolved targets. Targets and dispatchers are named by the
order in which they are built. What the parser has built and which pools it has asked the
worker server to register stays in the state when a later step is refused. The factories of
the actions and the text of a JSON value are parameters.
-/

namespace BitsBroker

inductive ParseError where
  | routing (error : RoutingError)
  | config (error : ConfigError)
  | panic
deriving DecidableEq

structure Registries where
  checks : HashMap String Json
  transforms : HashMap String Json
  targets : HashMap String Json

structure RouteContext extends ParseContext where
  registries : Registries
  createAction : String → Json → Except String Action
  render : Json → String

inductive AnyDispatcher where
  | check (dispatcher : Dispatcher CheckResult)
  | transform (dispatcher : Dispatcher TransformResult)
  | target (dispatcher : Dispatcher TargetResult)

def AnyDispatcher.userLimiter : AnyDispatcher → Option UserLimit
  | .check dispatcher => dispatcher.userLimiter
  | .transform dispatcher => dispatcher.userLimiter
  | .target dispatcher => dispatcher.userLimiter

structure ResolvedTarget where
  target : Nat
  dispatcher : Option Nat
  silent : Option Bool
deriving DecidableEq

/-- A configured action. `embedded` is a switch that a factory returned. -/
inductive StepAction where
  | check (check : CheckAction) (dispatcher : Option Nat) (silent : Option Bool)
  | transform (transform : TransformAction) (dispatcher : Option Nat) (silent : Option Bool)
  | target (resolved : ResolvedTarget)
  | embedded (switch : Switch)

def StepAction.dispatcher : StepAction → Option Nat
  | .check _ dispatcher _ => dispatcher
  | .transform _ dispatcher _ => dispatcher
  | .target resolved => resolved.dispatcher
  | .embedded _ => none

/-- How a step is written: a reference or an inline action, of the form `ns::name`. -/
structure StepName where
  inline : Bool
  ns : String
  name : String
deriving DecidableEq

mutual

inductive ParsedStep where
  | action (written : StepName) (action : StepAction)
  | switch (routes : List ParsedRoute)

inductive ParsedRoute where
  | mk (name : String) (steps : List ParsedStep)

end

structure ParseState where
  dispatchers : List AnyDispatcher
  targets : List TargetAction
  resolvedTargets : HashMap String ResolvedTarget
  registered : List (String × Nat)

def ParseState.new (resolvedTargets : HashMap String ResolvedTarget) : ParseState where
  dispatchers := []
  targets := []
  resolvedTargets := resolvedTargets
  registered := []

def ParseM (A : Type) : Type := ParseState → Except ParseError A × ParseState

namespace ParseM

variable {A B : Type}

def pure (value : A) : ParseM A := fun s => (.ok value, s)

def bind (first : ParseM A) (second : A → ParseM B) : ParseM B := fun s =>
  match first s with
  | (.ok value, next) => second value next
  | (.error error, next) => (.error error, next)

def fail (error : ParseError) : ParseM A := fun s => (.error error, s)

def lift (value : Except ConfigError A) : ParseM A := fun s => (value.mapError .config, s)

end ParseM

instance : Monad ParseM where
  pure := ParseM.pure
  bind := ParseM.bind

/-- The text before the first `::` and the text after it. -/
def splitColons : List Char → Option (List Char × List Char)
  | [] => none
  | [_] => none
  | first :: second :: rest =>
      if first = ':' ∧ second = ':' then some ([], rest)
      else (splitColons (second :: rest)).map fun parts => (first :: parts.1, parts.2)

def splitNs (text : String) : Option (String × String) :=
  (splitColons text.toList).map fun parts => (String.ofList parts.1, String.ofList parts.2)

section Steps

variable (ctx : RouteContext)

def invalidAction {A : Type} (route action reason : String) : ParseM A :=
  .fail (.routing (.invalidAction route action reason))

def actionKind : Action → ActionKind
  | .check _ _ _ => .check
  | .transform _ _ _ => .transform
  | .target _ _ _ => .target
  | .switch _ => .switch

/-- Whether building the dispatcher gets as far as asking the worker server. -/
def asksForPool (entryName actionName : String) (kind : ActionKind)
    (settings : DispatcherSettings) : Bool :=
  let willing : Option WorkerServer := ctx.workerServer.map fun _ => ⟨fun _ => .ok ()⟩
  match attachDispatcher { ctx.toParseContext with workerServer := willing } entryName actionName
      kind settings with
  | .ok (.target (some dispatcher)) => match dispatcher.executor with
      | .remotePool _ _ => true
      | .pool _ => false
  | _ => false

/-- A dispatcher is named when it is built. -/
def ParseState.build (s : ParseState) (dispatcher : Option AnyDispatcher) :
    Option Nat × ParseState :=
  match dispatcher with
  | none => (none, s)
  | some dispatcher =>
      (some s.dispatchers.length, { s with dispatchers := s.dispatchers ++ [dispatcher] })

def ParseState.ask (s : ParseState) (asks : Bool) (poolName : String) : ParseState :=
  if asks then { s with registered := s.registered ++ [(poolName, s.dispatchers.length)] } else s

def finishStep (action : Action) (silent : Option Bool) (attached : Attached) :
    ParseM StepAction := fun s =>
  match attached, action with
  | .check dispatcher, .check check _ _ =>
      let built := s.build (dispatcher.map .check)
      (.ok (.check check built.1 silent), built.2)
  | .transform dispatcher, .transform transform _ _ =>
      let built := s.build (dispatcher.map .transform)
      (.ok (.transform transform built.1 silent), built.2)
  | .target dispatcher, .target target _ _ =>
      let built := s.build (dispatcher.map .target)
      (.ok (.target ⟨s.targets.length, built.1, silent⟩),
        { built.2 with targets := s.targets ++ [target] })
  | _, .switch switch => (.ok (.embedded switch), s)
  | _, _ => (.error .panic, s)

def attachStep (entryName actionName : String) (action : Action) (settings : DispatcherSettings)
    (silent : Option Bool) : ParseM StepAction := fun s =>
  let asks := asksForPool ctx entryName actionName (actionKind action) settings
  let asked := s.ask asks entryName
  match attachDispatcher ctx.toParseContext entryName actionName (actionKind action) settings with
  | .error (.error error) => (.error (.config error), asked)
  | .error .panic => (.error .panic, asked)
  | .ok attached => finishStep action silent attached asked

def parseSilent (fields : List (String × Json)) (refuse : ParseError) : ParseM (Option Bool) :=
  match Json.get fields "silent" with
  | none => .pure none
  | some (.bool value) => .pure (some value)
  | some _ => .fail refuse

def actionFromEntry (ns entryName : String) (entry : Json) : ParseM StepAction :=
  match entry.asObject with
  | none => .fail (.config (.validation s!"{ns}.{entryName}"
      s!"must be an object, got: {ctx.render entry}"))
  | some fields =>
      if (Json.get fields "persistent").isSome || (Json.get fields "lock_ttl_secs").isSome then
        .fail (.config (.validation s!"{ns}.{entryName}"
          "persistent/lock_ttl_secs removed; use bits.persist_after_secs"))
      else match (Json.get fields "type").bind Json.asStr with
        | none => .fail (.config (.missingField s!"{ns}.{entryName}.type"))
        | some typeName => do
            let settings ← ParseM.lift (parseDispatcherFields (Json.get fields "dispatcher"))
            let silent ← parseSilent fields
              (.config (.validation s!"{ns}.{entryName}.silent" "must be a boolean"))
            let config := Json.object (fields.filter fun field =>
              decide (field.1 ∉ ["type", "dispatcher", "silent"]))
            match ctx.createAction typeName config with
            | .error e => .fail (.config (.validation s!"{ns}.{entryName}.type" e))
            | .ok action => attachStep ctx entryName typeName action settings silent

def lookupEntry (entries : HashMap String Json) (ns name routeName : String) : ParseM Json :=
  match entries.lookup name with
  | some entry => .pure entry
  | none => invalidAction routeName s!"{ns}::{name}" s!"unknown {ns} '{name}'"

def cacheTarget (name : String) (resolved : ResolvedTarget) : ParseM Unit := fun s =>
  (.ok (), { s with resolvedTargets := AList.insert name resolved s.resolvedTargets })

def cachedTarget (name : String) : ParseM (Option ResolvedTarget) := fun s =>
  (.ok (s.resolvedTargets.lookup name), s)

def resolveTarget (name routeName : String) : ParseM StepAction := do
  match ← cachedTarget name with
  | some resolved => pure (.target resolved)
  | none =>
      let entry ← lookupEntry ctx.registries.targets "target" name routeName
      let action ← actionFromEntry ctx "target" name entry
      match action with
      | .target resolved => do
          cacheTarget name resolved
          pure action
      | _ => pure action

def resolveNamed (ns name routeName : String) : ParseM StepAction :=
  if ns = "check" then do
    let entry ← lookupEntry ctx.registries.checks ns name routeName
    actionFromEntry ctx ns name entry
  else if ns = "transform" then do
    let entry ← lookupEntry ctx.registries.transforms ns name routeName
    actionFromEntry ctx ns name entry
  else if ns = "target" then resolveTarget ctx name routeName
  else invalidAction routeName s!"{ns}::{name}" s!"unknown namespace '{ns}'"

def inlineKind (ns : String) : ActionKind → Bool
  | .check => decide (ns = "check")
  | .transform => decide (ns = "transform")
  | .target => decide (ns = "target")
  | .switch => false

def parseInline (routeName key ns actionName : String) (config : Json)
    (fields : List (String × Json)) : ParseM StepAction :=
  if actionName = "remote" then invalidAction routeName key
    "target::remote must be defined as a named registry entry (not inline); the pool name is derived from the registry entry name"
  else match ctx.createAction actionName config with
    | .error e => invalidAction routeName key e
    | .ok action =>
        if inlineKind ns (actionKind action) then do
          let settings ← ParseM.lift (parseDispatcherFields (Json.get fields "dispatcher"))
          let silent ← parseSilent fields
            (.routing (.invalidAction routeName key "silent must be a boolean"))
          attachStep ctx actionName actionName action settings silent
        else invalidAction routeName key
          s!"inline action namespace '{ns}' does not match action type"

def parseReference (name routeName : String) : ParseM ParsedStep :=
  if name = "persist" then invalidAction routeName name
    "'persist' step has been removed; use bits.persist_after_secs instead"
  else match splitNs name with
    | none => invalidAction routeName name "must be namespace::name"
    | some (ns, entryName) => do
        let action ← resolveNamed ctx ns entryName routeName
        pure (.action ⟨false, ns, entryName⟩ action)

/-- The first field whose name has a namespace. -/
def inlineField : List (String × Json) → Option (String × (String × String) × Json)
  | [] => none
  | (key, config) :: rest => match splitNs key with
      | some parts => some (key, parts, config)
      | none => inlineField rest

def parseObject (routeName : String) (fields : List (String × Json)) : ParseM ParsedStep :=
  match inlineField fields with
  | none => invalidAction routeName (ctx.render (.object fields)) "unrecognised action"
  | some (key, (ns, actionName), config) => do
      let action ← parseInline ctx routeName key ns actionName config fields
      pure (.action ⟨true, ns, actionName⟩ action)

end Steps

def ParsedStep.terminal : ParsedStep → Bool
  | .action _ (.target _) => true
  | .action _ (.embedded _) => true
  | .action _ _ => false
  | .switch _ => true

def invalidRoute {A : Type} (route reason : String) : ParseM A :=
  .fail (.routing (.invalidRoute route reason))

mutual

def validateRoutes : List ParsedRoute → Except RoutingError Unit
  | [] => .ok ()
  | route :: rest => do
      validateRoute route
      validateRoutes rest

def validateRoute : ParsedRoute → Except RoutingError Unit
  | .mk name [] => .error (.invalidRoute name "must not be empty")
  | .mk name (first :: rest) => validateSteps name 0 (rest.length + 1) (first :: rest)

def validateSteps (name : String) (index count : Nat) :
    List ParsedStep → Except RoutingError Unit
  | [] => .error (.missingTarget name)
  | step :: rest => do
      validateStep step
      if step.terminal then
        if index + 1 ≠ count then .error (.invalidRoute name
          s!"unreachable action(s) after terminal step at index {index}")
        else .ok ()
      else validateSteps name (index + 1) count rest

def validateStep : ParsedStep → Except RoutingError Unit
  | .switch routes => validateRoutes routes
  | .action _ (.embedded switch) => switch.validate
  | .action _ _ => .ok ()

end

section Trees

variable (ctx : RouteContext)

mutual

def parseRoutes (section_ : String) : Json → ParseM (List ParsedRoute)
  | .array entries => parseEntries section_ 0 entries
  | _ => invalidRoute section_ "must be an array"

def parseEntries (section_ : String) (index : Nat) : List Json → ParseM (List ParsedRoute)
  | [] => .pure []
  | entry :: rest => do
      let route ← parseEntry section_ index entry
      let routes ← parseEntries section_ (index + 1) rest
      pure (route :: routes)

def parseEntry (section_ : String) (index : Nat) : Json → ParseM ParsedRoute
  | .object fields => parseNamedRoute section_ index fields
  | _ => invalidRoute s!"{section_}[{index}]" "entry must be an object"

def parseNamedRoute (section_ : String) (index : Nat) :
    List (String × Json) → ParseM ParsedRoute
  | [] => invalidRoute s!"{section_}[{index}]"
      s!"entry must have exactly one key (the route name), got {0}"
  | (name, value) :: rest =>
      if rest.isEmpty then parseRouteValue section_ name value
      else invalidRoute s!"{section_}[{index}]"
        s!"entry must have exactly one key (the route name), got {rest.length + 1}"

def parseRouteValue (section_ name : String) : Json → ParseM ParsedRoute
  | .array actions => do
      let steps ← parseActions name actions
      pure (.mk name steps)
  | _ => invalidRoute name s!"{section_} route must be an array of actions"

def parseActions (routeName : String) : List Json → ParseM (List ParsedStep)
  | [] => .pure []
  | value :: rest => do
      let step ← parseAction routeName value
      let steps ← parseActions routeName rest
      pure (step :: steps)

def parseAction (routeName : String) : Json → ParseM ParsedStep
  | .string name => parseReference ctx name routeName
  | .object fields => match parseSwitch fields with
      | some switch => do
          let routes ← switch
          match validateRoutes routes with
          | .ok () => pure (.switch routes)
          | .error e => ParseM.fail (.routing e)
      | none => parseObject ctx routeName fields
  | value => invalidAction routeName (ctx.render value) "action must be string or object"

def parseSwitch : List (String × Json) → Option (ParseM (List ParsedRoute))
  | [] => none
  | (key, value) :: rest =>
      if key = "switch" then some (parseRoutes "switch" value) else parseSwitch rest

end

end Trees

end BitsBroker
