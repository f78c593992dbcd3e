import BitsBroker.Config.Reached
import BitsBroker.Config.SharedTargets

/-!
What a call of `add_route` leaves behind when it fails. The call parses the routes, validates them,
puts them into the list of added routes and starts the worker server. A pool is registered as soon
as its target is built, and the targets are put into the shared cache as soon as the parse has
succeeded; neither is taken back when a later step fails, and the route stays in the list when the
server does not start. `attempt` is how binding the listener would end, and it comes to that at
most once in a call. Every router has a number of its own.

A failed call leaves everything as it was if and only if it fails before it has reached a reference
that registers a pool, and does not fail in the validation after it has added a target, and does
not fail at the start of the server.
-/

namespace BitsBroker

/-- The routers of the pools. `routers` counts those that have been made. -/
structure Pools where
  routers : Nat
  served : HashMap String Nat
  older (name : String) (router : Nat) : served.lookup name = some router → router < routers

def Pools.new : Pools where
  routers := 0
  served := ∅
  older _ _ found := by cases found

def Pools.insert (pools : Pools) (name : String) : Pools where
  routers := pools.routers + 1
  served := AList.insert name pools.routers pools.served
  older other router found := by
    rw [HashMap.lookup_insert_eq] at found
    split at found
    · cases found
      omega
    · have before := pools.older other router found
      omega

def Pools.registerAll (pools : Pools) (names : List String) : Pools :=
  names.foldl Pools.insert pools

structure BitsRoutes where
  dispatchers : List AnyDispatcher
  targets : List TargetAction
  resolvedTargets : HashMap String ResolvedTarget
  pools : Pools
  started : Bool
  addedRoutes : List (String × List ParsedRoute)

def BitsRoutes.new : BitsRoutes where
  dispatchers := []
  targets := []
  resolvedTargets := ∅
  pools := Pools.new
  started := false
  addedRoutes := []

inductive BitsError where
  | routing (error : RoutingError)
  | config (error : ConfigError)
  | bind (address reason : String)

inductive AddRouteOutcome where
  | added (name : String) (routes : List ParsedRoute)
  | failed (error : BitsError)
  | panicked

def ParseError.outcome : ParseError → AddRouteOutcome
  | .routing error => .failed (.routing error)
  | .config error => .failed (.config error)
  | .panic => .panicked

section Calls

variable (ctx : RouteContext) (address : String)

def ensureStarted (s : BitsRoutes) (attempt : WorkerListener.Attempt) : Except String Unit :=
  if s.started then .ok () else attempt.result address

/-- The context in which a call parses. -/
def callContext (s : BitsRoutes) (attempt : WorkerListener.Attempt) : RouteContext :=
  ctx.during (ensureStarted address s attempt)

def parsedRoutes (s : BitsRoutes) (name : String) (value : Json)
    (attempt : WorkerListener.Attempt) : Except ParseError (List ParsedRoute) × ParseState :=
  parseRoutes (callContext ctx address s attempt) name value
    ⟨s.dispatchers, s.targets, s.resolvedTargets, []⟩

/-- What a parse has done when it returns, whatever its result. -/
def BitsRoutes.after (s : BitsRoutes) (parsed : ParseState) : BitsRoutes :=
  { s with
    dispatchers := parsed.dispatchers
    targets := parsed.targets
    pools := s.pools.registerAll (poolNames parsed)
    started := s.started || !(poolNames parsed).isEmpty }

def BitsRoutes.merge (s : BitsRoutes) (resolvedTargets : HashMap String ResolvedTarget) :
    BitsRoutes :=
  { s with resolvedTargets := s.resolvedTargets ∪ resolvedTargets }

def parseRoute (s : BitsRoutes) (name : String) (value : Json)
    (attempt : WorkerListener.Attempt) : Except ParseError (List ParsedRoute) × BitsRoutes :=
  match parsedRoutes ctx address s name value attempt with
  | (.error error, parsed) => (.error error, s.after parsed)
  | (.ok routes, parsed) => (.ok routes, (s.after parsed).merge parsed.resolvedTargets)

def startWorkerServer (s : BitsRoutes) (attempt : WorkerListener.Attempt) :
    Except String Unit × BitsRoutes :=
  if ctx.workerServer.isNone || s.pools.served.entries.isEmpty then (.ok (), s)
  else (ensureStarted address s attempt, { s with started := true })

def BitsRoutes.push (s : BitsRoutes) (name : String) (routes : List ParsedRoute) : BitsRoutes :=
  { s with addedRoutes := s.addedRoutes ++ [(name, routes)] }

def addedOr (name : String) (routes : List ParsedRoute) :
    Except String Unit × BitsRoutes → AddRouteOutcome × BitsRoutes
  | (.error reason, s) => (.failed (.bind address reason), s)
  | (.ok (), s) => (.added name routes, s)

def addRoute (s : BitsRoutes) (name : String) (value : Json) (attempt : WorkerListener.Attempt) :
    AddRouteOutcome × BitsRoutes :=
  match parseRoute ctx address s name value attempt with
  | (.error error, s) => (error.outcome, s)
  | (.ok routes, s) => match validateRoutes routes with
      | .error error => (.failed (.routing error), s)
      | .ok () =>
          addedOr address name routes (startWorkerServer ctx address (s.push name routes) attempt)

structure RouteRequest where
  name : String
  value : Json
  attempt : WorkerListener.Attempt

def AddRouteOutcome.forget : AddRouteOutcome → AddRouteOutcome
  | .added name routes => .added name (forgetRoutes routes)
  | .failed error => .failed error
  | .panicked => .panicked

def AddRouteOutcome.isFailed : AddRouteOutcome → Bool
  | .failed _ => true
  | _ => false

theorem AddRouteOutcome.failed_of_isFailed {outcome : AddRouteOutcome}
    (checked : outcome.isFailed = true) : ∃ error, outcome = .failed error := by
  cases outcome with
  | failed error => exact ⟨error, rfl⟩
  | added name routes => cases checked
  | panicked => cases checked

/-- The outcomes of calls that follow one another, without the numbers of targets and
dispatchers. -/
def outcomes (s : BitsRoutes) : List RouteRequest → List AddRouteOutcome
  | [] => []
  | request :: rest =>
      let added := addRoute ctx address s request.name request.value request.attempt
      added.1.forget :: outcomes added.2 rest

/-- The shared state is as before, and later calls go as they would have. -/
structure ChangesNothing (before after : BitsRoutes) : Prop where
  resolvedTargets (name : String) :
    after.resolvedTargets.lookup name = before.resolvedTargets.lookup name
  pools (name : String) : after.pools.served.lookup name = before.pools.served.lookup name
  addedRoutes : after.addedRoutes = before.addedRoutes
  later (requests : List RouteRequest) :
    outcomes ctx address after requests = outcomes ctx address before requests

end Calls

section Statement

variable (ctx : RouteContext) (s : BitsRoutes) (name : String) (value : Json)

/-- The routes are read without registering a pool. -/
def RegistersNone : Prop :=
  ∀ reference ∈ reachedRoutes ctx s.resolvedTargets name value,
    registersPool ctx s.resolvedTargets reference = false

/-- The routes are read without adding a target. -/
def AddsNone : Prop :=
  ∀ reference ∈ reachedRoutes ctx s.resolvedTargets name value,
    addsTarget ctx s.resolvedTargets reference = false

def parsedAlone : Except ParseError (List ParsedRoute) :=
  (parseRoutes ctx name value (ParseState.new s.resolvedTargets)).1

/-- Routes that cannot be parsed are refused before a pool is registered, and routes that are not
valid also add no target. Valid routes do not need the listener, or it can be bound, or it is bound
for a pool that they register themselves. -/
structure FailsCleanly (attempt : WorkerListener.Attempt) : Prop where
  refused (refusal : ParseError) (error : BitsError) :
    parsedAlone ctx s name value = .error refusal → refusal.outcome = .failed error →
    RegistersNone ctx s name value
  invalid (routes : List ParsedRoute) (error : RoutingError) :
    parsedAlone ctx s name value = .ok routes → validateRoutes routes = .error error →
    RegistersNone ctx s name value ∧ AddsNone ctx s name value
  valid (routes : List ParsedRoute) : parsedAlone ctx s name value = .ok routes →
    validateRoutes routes = .ok () →
    ctx.workerServer = none ∨ s.pools.served.entries.isEmpty = true ∨ s.started = true ∨
      attempt = .served ∨ ¬RegistersNone ctx s name value

end Statement

section Registering

theorem Pools.routers_registerAll (pools : Pools) (names : List String) :
    pools.routers ≤ (pools.registerAll names).routers := by
  induction names generalizing pools with
  | nil => exact le_refl _
  | cons name rest ih =>
      have more := ih (pools.insert name)
      change pools.routers + 1 ≤ _ at more
      change pools.routers ≤ ((pools.insert name).registerAll rest).routers
      omega

/-- A pool keeps its router if and only if nothing is registered under its name. -/
theorem Pools.lookup_registerAll (pools : Pools) (names : List String) (name : String) :
    (name ∉ names ∧ (pools.registerAll names).served.lookup name = pools.served.lookup name) ∨
      (name ∈ names ∧ ∃ router, pools.routers ≤ router ∧
        (pools.registerAll names).served.lookup name = some router) := by
  induction names using List.reverseRecOn with
  | nil => exact Or.inl ⟨by simp, rfl⟩
  | append_singleton front last ih =>
      have one : (pools.registerAll (front ++ [last])).served.lookup name =
          if name = last then some (pools.registerAll front).routers
          else (pools.registerAll front).served.lookup name := by
        rw [Pools.registerAll, List.foldl_append]
        exact HashMap.lookup_insert_eq _ _ _ _
      rw [one]
      by_cases same : name = last
      · exact Or.inr ⟨by simp [same], _, pools.routers_registerAll front, if_pos same⟩
      · rw [if_neg same]
        simpa [same] using ih

theorem Pools.registerAll_same_iff (pools : Pools) (names : List String) :
    (∀ name, (pools.registerAll names).served.lookup name = pools.served.lookup name) ↔
      names = [] := by
  constructor
  · intro same
    by_contra nonempty
    obtain ⟨name, member⟩ := List.exists_mem_of_ne_nil names nonempty
    rcases pools.lookup_registerAll names name with ⟨absent, _⟩ | ⟨_, router, fresh, found⟩
    · exact absent member
    · rw [same name] at found
      have old := pools.older name router found
      omega
  · rintro rfl name
    rfl

theorem Pools.registerAll_isEmpty (pools : Pools) (names : List String) :
    (pools.registerAll names).served.entries.isEmpty =
      (pools.served.entries.isEmpty && names.isEmpty) := by
  induction names using List.reverseRecOn with
  | nil => simp [Pools.registerAll]
  | append_singleton front last ih =>
      have one : (pools.registerAll (front ++ [last])).served =
          AList.insert last (pools.registerAll front).routers (pools.registerAll front).served := by
        rw [Pools.registerAll, List.foldl_append]
        rfl
      rw [one]
      simp [AList.entries_insert]

end Registering

/-- The two states agree on which targets are cached, whether there is a pool, and whether the
server has been started. -/
structure BitsRoutes.Agree (s t : BitsRoutes) : Prop where
  cached (name : String) :
    s.resolvedTargets.lookup name ≠ none ↔ t.resolvedTargets.lookup name ≠ none
  idle : s.pools.served.entries.isEmpty = t.pools.served.entries.isEmpty
  started : s.started = t.started

/-- The same for two parses, with the pools that they have asked for. -/
structure ParseAgree (s t : ParseState) : Prop where
  cached (name : String) :
    s.resolvedTargets.lookup name ≠ none ↔ t.resolvedTargets.lookup name ≠ none
  asked : s.registered.map (·.1) = t.registered.map (·.1)

section Later

variable {ctx : RouteContext} {address : String}

theorem ParseAgree.attach {s t : ParseState} (agree : ParseAgree s t) (name : String)
    (parts : StepParts) :
    ParseAgree (attachParts ctx name parts s).2 (attachParts ctx name parts t).2 where
  cached other := by
    rw [attachParts_cache, attachParts_cache]
    exact agree.cached other
  asked := by rw [attachParts_registered, attachParts_registered, agree.asked]

theorem ParseAgree.store {s t : ParseState} (agree : ParseAgree s t) (name : String)
    (parts : StepParts) :
    ParseAgree (storeTarget name (attachParts ctx name parts s)).2
      (storeTarget name (attachParts ctx name parts t)).2 where
  cached other := by
    rw [storeTarget_cached, storeTarget_cached, attachParts_isTarget, attachParts_isTarget]
    exact or_congr ((agree.attach name parts).cached other) Iff.rfl
  asked := by
    rw [storeTarget_registered, storeTarget_registered]
    exact (agree.attach name parts).asked

theorem agreeRules (ctx : RouteContext) : PairRules ctx ParseAgree where
  attach entryName actionName action settings silent s t agree :=
    agree.attach entryName ⟨actionName, action, settings, silent⟩
  target name routeName s t agree := by
    cases cached : s.resolvedTargets.lookup name with
    | some resolved =>
        obtain ⟨other, found⟩ := Option.ne_none_iff_exists'.mp
          ((agree.cached name).mp (by simp [cached]))
        rw [resolveTarget_of_cached routeName cached, resolveTarget_of_cached routeName found]
        exact ⟨agree, rfl⟩
    | none =>
        have absent : t.resolvedTargets.lookup name = none := by
          by_contra found
          exact (agree.cached name).mpr found cached
        cases found : targetParts ctx name with
        | none =>
            obtain ⟨error, fails⟩ := resolveTarget_of_no_parts found routeName
            rw [fails s cached, fails t absent]
            exact ⟨agree, rfl⟩
        | some parts =>
            rw [resolveTarget_of_parts found routeName cached,
              resolveTarget_of_parts found routeName absent]
            refine ⟨agree.store name parts, ?_⟩
            rw [storeTarget_fst, storeTarget_fst]
            exact attachParts_forget ctx name parts s t

variable {s t : BitsRoutes}

theorem BitsRoutes.Agree.after {parsed other : ParseState} (agree : s.Agree t)
    (same : ParseAgree parsed other) : (s.after parsed).Agree (t.after other) := by
  have names : poolNames parsed = poolNames other := by
    unfold poolNames
    rw [same.asked]
  constructor
  · exact agree.cached
  · simp only [BitsRoutes.after, Pools.registerAll_isEmpty, agree.idle, names]
  · simp only [BitsRoutes.after, agree.started, names]

theorem lookup_union_ne_none (cache more : HashMap String ResolvedTarget) (name : String) :
    (cache ∪ more).lookup name ≠ none ↔ cache.lookup name ≠ none ∨ more.lookup name ≠ none := by
  cases cached : cache.lookup name with
  | some found => simp [lookup_union_of_cached cache more cached]
  | none => simp [lookup_union_of_uncached cache more cached]

theorem BitsRoutes.Agree.merge {parsed other : HashMap String ResolvedTarget} (agree : s.Agree t)
    (same : ∀ name, parsed.lookup name ≠ none ↔ other.lookup name ≠ none) :
    (s.merge parsed).Agree (t.merge other) where
  cached name := by
    rw [BitsRoutes.merge, BitsRoutes.merge, lookup_union_ne_none, lookup_union_ne_none]
    exact or_congr (agree.cached name) (same name)
  idle := agree.idle
  started := agree.started

theorem ensureStarted_agree (agree : s.Agree t) (attempt : WorkerListener.Attempt) :
    ensureStarted address s attempt = ensureStarted address t attempt := by
  unfold ensureStarted
  rw [agree.started]

theorem parsedRoutes_agree (ctx : RouteContext) (address : String) (agree : s.Agree t)
    (name : String) (value : Json) (attempt : WorkerListener.Attempt) :
    ParseAgree (parsedRoutes ctx address s name value attempt).2
        (parsedRoutes ctx address t name value attempt).2 ∧
      (parsedRoutes ctx address s name value attempt).1.map forgetRoutes =
        (parsedRoutes ctx address t name value attempt).1.map forgetRoutes := by
  unfold parsedRoutes callContext
  rw [ensureStarted_agree agree attempt]
  exact parseRoutes_inStep (agreeRules _) name value _ _ ⟨agree.cached, rfl⟩

theorem startWorkerServer_agree (agree : s.Agree t) (attempt : WorkerListener.Attempt) :
    (startWorkerServer ctx address s attempt).1 = (startWorkerServer ctx address t attempt).1 ∧
      (startWorkerServer ctx address s attempt).2.Agree
        (startWorkerServer ctx address t attempt).2 := by
  unfold startWorkerServer
  rw [agree.idle, ensureStarted_agree agree attempt]
  split
  · exact ⟨rfl, agree⟩
  · exact ⟨rfl, agree.cached, agree.idle, rfl⟩

theorem addRoute_of_error {name : String} {value : Json} {attempt : WorkerListener.Attempt}
    {error : ParseError} {parsed : ParseState}
    (refused : parsedRoutes ctx address s name value attempt = (.error error, parsed)) :
    addRoute ctx address s name value attempt = (error.outcome, s.after parsed) := by
  unfold addRoute parseRoute
  rw [refused]

theorem addRoute_of_invalid {name : String} {value : Json} {attempt : WorkerListener.Attempt}
    {routes : List ParsedRoute} {parsed : ParseState} {error : RoutingError}
    (accepted : parsedRoutes ctx address s name value attempt = (.ok routes, parsed))
    (invalid : validateRoutes routes = .error error) :
    addRoute ctx address s name value attempt =
      (.failed (.routing error), (s.after parsed).merge parsed.resolvedTargets) := by
  unfold addRoute parseRoute
  rw [accepted]
  dsimp only
  rw [invalid]

theorem addRoute_of_valid {name : String} {value : Json} {attempt : WorkerListener.Attempt}
    {routes : List ParsedRoute} {parsed : ParseState}
    (accepted : parsedRoutes ctx address s name value attempt = (.ok routes, parsed))
    (valid : validateRoutes routes = .ok ()) :
    addRoute ctx address s name value attempt = addedOr address name routes
      (startWorkerServer ctx address
        (((s.after parsed).merge parsed.resolvedTargets).push name routes) attempt) := by
  unfold addRoute parseRoute
  rw [accepted]
  dsimp only
  rw [valid]

theorem addedOr_agree {started other : Except String Unit × BitsRoutes} (name : String)
    {routes more : List ParsedRoute} (same : started.1 = other.1) (agree : started.2.Agree other.2)
    (shape : forgetRoutes routes = forgetRoutes more) :
    (addedOr address name routes started).1.forget = (addedOr address name more other).1.forget ∧
      (addedOr address name routes started).2.Agree (addedOr address name more other).2 := by
  obtain ⟨result, after⟩ := started
  obtain ⟨_, next⟩ := other
  cases same
  cases result with
  | error reason => exact ⟨rfl, agree⟩
  | ok _ => exact ⟨by simp [addedOr, AddRouteOutcome.forget, shape], agree⟩

/-- Calls go the same way from states that agree. -/
theorem addRoute_agree (agree : s.Agree t) (name : String) (value : Json)
    (attempt : WorkerListener.Attempt) :
    (addRoute ctx address s name value attempt).1.forget =
        (addRoute ctx address t name value attempt).1.forget ∧
      (addRoute ctx address s name value attempt).2.Agree
        (addRoute ctx address t name value attempt).2 := by
  obtain ⟨known, same⟩ := parsedRoutes_agree ctx address agree name value attempt
  rcases left : parsedRoutes ctx address s name value attempt with ⟨result, parsed⟩
  rcases right : parsedRoutes ctx address t name value attempt with ⟨other, next⟩
  rw [left, right] at known same
  have after := agree.after known
  cases result with
  | error error =>
      cases other with
      | ok routes => cases same
      | error error' =>
          cases same
          rw [addRoute_of_error left, addRoute_of_error right]
          exact ⟨rfl, after⟩
  | ok routes =>
      cases other with
      | error error => cases same
      | ok more =>
          have shape : forgetRoutes routes = forgetRoutes more := Except.ok.inj same
          have merged := after.merge known.cached
          have sameValid : validateRoutes more = validateRoutes routes := by
            rw [← validateRoutes_forget more, ← shape, validateRoutes_forget routes]
          cases valid : validateRoutes routes with
          | error error =>
              rw [addRoute_of_invalid left valid,
                addRoute_of_invalid right (sameValid.trans valid)]
              exact ⟨rfl, merged⟩
          | ok _ =>
              rw [addRoute_of_valid left valid, addRoute_of_valid right (sameValid.trans valid)]
              have pushed : (((s.after parsed).merge parsed.resolvedTargets).push name routes).Agree
                  (((t.after next).merge next.resolvedTargets).push name more) :=
                ⟨merged.cached, merged.idle, merged.started⟩
              obtain ⟨answer, ends⟩ := startWorkerServer_agree pushed attempt
              exact addedOr_agree name answer ends shape

theorem outcomes_agree (agree : s.Agree t) (requests : List RouteRequest) :
    outcomes ctx address s requests = outcomes ctx address t requests := by
  induction requests generalizing s t with
  | nil => rfl
  | cons request rest ih =>
      obtain ⟨same, next⟩ := addRoute_agree agree request.name request.value request.attempt
      simp only [outcomes]
      rw [same, ih next]

end Later

section Traces

variable {ctx : RouteContext} {address : String} {s : BitsRoutes} {name : String} {value : Json}
  {attempt : WorkerListener.Attempt} {parsed : ParseState}
  {result : Except ParseError (List ParsedRoute)}

theorem poolNames_eq_nil_iff
    (parses : parsedRoutes ctx address s name value attempt = (result, parsed)) :
    poolNames parsed = [] ↔ RegistersNone (callContext ctx address s attempt) s name value := by
  have pooled := parseRoutes_pooled (callContext ctx address s attempt) s.resolvedTargets
    s.dispatchers s.targets name value
  have isParsed : (parseRoutes (callContext ctx address s attempt) name value
      ⟨s.dispatchers, s.targets, s.resolvedTargets, []⟩).2 = parsed := congrArg Prod.snd parses
  rw [isParsed, Pooled] at pooled
  rw [← not_iff_not, ← Ne, pooled]
  simp [RegistersNone]

theorem same_targets_iff
    (parses : parsedRoutes ctx address s name value attempt = (result, parsed)) :
    (∀ target, (s.resolvedTargets ∪ parsed.resolvedTargets).lookup target =
        s.resolvedTargets.lookup target) ↔
      AddsNone (callContext ctx address s attempt) s name value := by
  have grown := parseRoutes_grown (callContext ctx address s attempt) s.resolvedTargets
    s.dispatchers s.targets name value
  have isParsed : (parseRoutes (callContext ctx address s attempt) name value
      ⟨s.dispatchers, s.targets, s.resolvedTargets, []⟩).2 = parsed := congrArg Prod.snd parses
  rw [isParsed] at grown
  have still : (∀ target, (s.resolvedTargets ∪ parsed.resolvedTargets).lookup target =
      s.resolvedTargets.lookup target) ↔ ¬Grown s.resolvedTargets parsed := by
    constructor
    · rintro same ⟨target, absent, present⟩
      rw [← lookup_union_of_uncached _ _ absent, same target] at present
      exact present absent
    · intro ungrown target
      cases cached : s.resolvedTargets.lookup target with
      | some found => exact lookup_union_of_cached _ _ cached
      | none =>
          rw [lookup_union_of_uncached _ _ cached]
          by_contra present
          exact ungrown ⟨target, cached, present⟩
  rw [still, grown]
  simp [AddsNone]

theorem parsedAlone_forget
    (parses : parsedRoutes ctx address s name value attempt = (result, parsed)) :
    (parsedAlone (callContext ctx address s attempt) s name value).map forgetRoutes =
      result.map forgetRoutes := by
  have alone := parseRoutes_alone (callContext ctx address s attempt) s.resolvedTargets
    s.dispatchers s.targets name value
  have isResult : (parseRoutes (callContext ctx address s attempt) name value
      ⟨s.dispatchers, s.targets, s.resolvedTargets, []⟩).1 = result := congrArg Prod.fst parses
  rw [parsedAlone, ← alone, isResult]

theorem parsedAlone_of_error {refusal : ParseError}
    (parses : parsedRoutes ctx address s name value attempt = (.error refusal, parsed)) :
    parsedAlone (callContext ctx address s attempt) s name value = .error refusal := by
  have same := parsedAlone_forget parses
  cases alone : parsedAlone (callContext ctx address s attempt) s name value with
  | error other =>
      rw [alone] at same
      cases same
      rfl
  | ok routes =>
      rw [alone] at same
      cases same

theorem parsedAlone_of_ok {routes : List ParsedRoute}
    (parses : parsedRoutes ctx address s name value attempt = (.ok routes, parsed)) :
    ∃ other, parsedAlone (callContext ctx address s attempt) s name value = .ok other ∧
      validateRoutes other = validateRoutes routes := by
  have same := parsedAlone_forget parses
  cases alone : parsedAlone (callContext ctx address s attempt) s name value with
  | error refusal =>
      rw [alone] at same
      cases same
  | ok other =>
      rw [alone] at same
      refine ⟨other, rfl, ?_⟩
      rw [← validateRoutes_forget other, Except.ok.inj same, validateRoutes_forget]

/-- A parse that registers nothing leaves a state from which calls go as before. -/
theorem agree_after (unpooled : poolNames parsed = []) : (s.after parsed).Agree s := by
  constructor
  · exact fun _ => Iff.rfl
  · simp [BitsRoutes.after, unpooled, Pools.registerAll]
  · simp [BitsRoutes.after, unpooled]

theorem after_changes_nothing_iff :
    ChangesNothing ctx address s (s.after parsed) ↔ poolNames parsed = [] := by
  constructor
  · intro nothing
    exact (s.pools.registerAll_same_iff _).mp nothing.pools
  · intro unpooled
    exact ⟨fun _ => rfl, (s.pools.registerAll_same_iff _).mpr unpooled, rfl,
      outcomes_agree (agree_after unpooled)⟩

theorem merge_changes_nothing_iff {resolvedTargets : HashMap String ResolvedTarget} :
    ChangesNothing ctx address s ((s.after parsed).merge resolvedTargets) ↔
      poolNames parsed = [] ∧ ∀ target, (s.resolvedTargets ∪ resolvedTargets).lookup target =
        s.resolvedTargets.lookup target := by
  constructor
  · intro nothing
    exact ⟨(s.pools.registerAll_same_iff _).mp nothing.pools, nothing.resolvedTargets⟩
  · rintro ⟨unpooled, cached⟩
    refine ⟨cached, (s.pools.registerAll_same_iff _).mpr unpooled, rfl, outcomes_agree ?_⟩
    have agree := agree_after (s := s) unpooled
    refine ⟨fun target => ?_, agree.idle, agree.started⟩
    exact iff_of_eq (congrArg (· ≠ none) (cached target))

/-- A valid route is in the list before the server is started, and stays there. -/
theorem startWorkerServer_addedRoutes (ctx : RouteContext) (address : String) (s : BitsRoutes)
    (attempt : WorkerListener.Attempt) :
    (startWorkerServer ctx address s attempt).2.addedRoutes = s.addedRoutes := by
  unfold startWorkerServer
  split <;> rfl

theorem push_changes {next : BitsRoutes} {routes : List ParsedRoute}
    (pushed : next.addedRoutes = s.addedRoutes ++ [(name, routes)]) :
    ¬ChangesNothing ctx address s next := by
  intro nothing
  have same := nothing.addedRoutes
  rw [pushed] at same
  simp at same

theorem attempt_result_error_iff (address : String) (attempt : WorkerListener.Attempt) :
    (∃ reason, attempt.result address = .error reason) ↔ attempt ≠ .served := by
  cases attempt <;> simp [WorkerListener.Attempt.result]

theorem addedOr_state (name : String) (routes : List ParsedRoute)
    (started : Except String Unit × BitsRoutes) :
    (addedOr address name routes started).2 = started.2 := by
  obtain ⟨result, after⟩ := started
  cases result <;> rfl

theorem addedOr_failed_iff {name : String} {routes : List ParsedRoute}
    {started : Except String Unit × BitsRoutes} :
    (∃ error, (addedOr address name routes started).1 = .failed error) ↔
      ∃ reason, started.1 = .error reason := by
  obtain ⟨result, after⟩ := started
  cases result <;> simp [addedOr]

theorem startWorkerServer_error_iff (ctx : RouteContext) (address : String) (s : BitsRoutes)
    (attempt : WorkerListener.Attempt) :
    (∃ reason, (startWorkerServer ctx address s attempt).1 = .error reason) ↔
      ctx.workerServer ≠ none ∧ s.pools.served.entries.isEmpty = false ∧ s.started = false ∧
        attempt ≠ .served := by
  rw [← attempt_result_error_iff address attempt]
  unfold startWorkerServer ensureStarted
  cases hosted : ctx.workerServer with
  | none => simp
  | some server =>
      cases idle : s.pools.served.entries.isEmpty with
      | true => simp
      | false =>
          cases started : s.started with
          | true => simp
          | false => simp

/-- The server of a call fails to start only if a pool is there and its listener was not asked
for, and the call itself registers none. -/
theorem added_error_iff (ctx : RouteContext) (address : String) (s : BitsRoutes)
    (attempt : WorkerListener.Attempt) (name : String) (routes : List ParsedRoute)
    (parsed : ParseState) :
    (∃ error, (addedOr address name routes (startWorkerServer ctx address
        (((s.after parsed).merge parsed.resolvedTargets).push name routes) attempt)).1 =
          .failed error) ↔
      ctx.workerServer ≠ none ∧ s.pools.served.entries.isEmpty = false ∧ s.started = false ∧
        attempt ≠ .served ∧ poolNames parsed = [] := by
  have idle := s.pools.registerAll_isEmpty (poolNames parsed)
  rw [addedOr_failed_iff, startWorkerServer_error_iff]
  simp only [BitsRoutes.push, BitsRoutes.merge, BitsRoutes.after, idle]
  cases poolNames parsed with
  | nil => simp
  | cons first rest => simp

end Traces

section Condition

variable {ctx : RouteContext} {s : BitsRoutes} {name : String} {value : Json}
  {attempt : WorkerListener.Attempt}

theorem failsCleanly_of_refused {refusal : ParseError}
    (alone : parsedAlone ctx s name value = .error refusal) :
    FailsCleanly ctx s name value attempt ↔
      ∀ error, refusal.outcome = .failed error → RegistersNone ctx s name value := by
  constructor
  · intro clean error fails
    exact clean.refused refusal error alone fails
  · intro registersNone
    constructor
    · intro other error isOther fails
      rw [alone] at isOther
      cases isOther
      exact registersNone error fails
    · intro routes error accepted
      rw [alone] at accepted
      cases accepted
    · intro routes accepted
      rw [alone] at accepted
      cases accepted

theorem failsCleanly_of_invalid {routes : List ParsedRoute} {error : RoutingError}
    (alone : parsedAlone ctx s name value = .ok routes)
    (invalid : validateRoutes routes = .error error) :
    FailsCleanly ctx s name value attempt ↔
      RegistersNone ctx s name value ∧ AddsNone ctx s name value := by
  constructor
  · intro clean
    exact clean.invalid routes error alone invalid
  · intro none_
    constructor
    · intro refusal _ refused
      rw [alone] at refused
      cases refused
    · intro _ _ _ _
      exact none_
    · intro other accepted valid
      rw [alone] at accepted
      cases accepted
      rw [invalid] at valid
      cases valid

theorem failsCleanly_of_valid {routes : List ParsedRoute}
    (alone : parsedAlone ctx s name value = .ok routes) (valid : validateRoutes routes = .ok ()) :
    FailsCleanly ctx s name value attempt ↔
      ctx.workerServer = none ∨ s.pools.served.entries.isEmpty = true ∨ s.started = true ∨
        attempt = .served ∨ ¬RegistersNone ctx s name value := by
  constructor
  · intro clean
    exact clean.valid routes alone valid
  · intro starts
    constructor
    · intro refusal _ refused
      rw [alone] at refused
      cases refused
    · intro other error accepted invalid
      rw [alone] at accepted
      cases accepted
      rw [valid] at invalid
      cases invalid
    · intro _ _ _
      exact starts

end Condition

/-- A failed call changes nothing if and only if what it has read and the state before it are as
`FailsCleanly` says. -/
theorem failed_addRoute_changes_nothing_iff (ctx : RouteContext) (address : String)
    (s : BitsRoutes) (name : String) (value : Json) (attempt : WorkerListener.Attempt) :
    (∀ error, (addRoute ctx address s name value attempt).1 = .failed error →
        ChangesNothing ctx address s (addRoute ctx address s name value attempt).2) ↔
      FailsCleanly (callContext ctx address s attempt) s name value attempt := by
  rcases parses : parsedRoutes ctx address s name value attempt with ⟨result, parsed⟩
  have pools := poolNames_eq_nil_iff parses
  cases result with
  | error refusal =>
      rw [addRoute_of_error parses, failsCleanly_of_refused (parsedAlone_of_error parses)]
      simp only [after_changes_nothing_iff, pools]
  | ok routes =>
      obtain ⟨other, alone, same⟩ := parsedAlone_of_ok parses
      cases valid : validateRoutes routes with
      | error refusal =>
          rw [addRoute_of_invalid parses valid,
            failsCleanly_of_invalid alone (same.trans valid), ← pools, ← same_targets_iff parses,
            ← merge_changes_nothing_iff]
          constructor
          · intro nothing
            exact nothing _ rfl
          · intro nothing error _
            exact nothing
      | ok _ =>
          have fails := added_error_iff ctx address s attempt name routes parsed
          rw [pools] at fails
          have changes : ¬ChangesNothing ctx address s (addedOr address name routes
              (startWorkerServer ctx address
                (((s.after parsed).merge parsed.resolvedTargets).push name routes) attempt)).2 := by
            apply push_changes
            rw [addedOr_state, startWorkerServer_addedRoutes]
            rfl
          have hosted : (callContext ctx address s attempt).workerServer = none ↔
              ctx.workerServer = none := Option.map_eq_none_iff
          rw [addRoute_of_valid parses valid, failsCleanly_of_valid alone (same.trans valid), hosted]
          constructor
          · intro nothing
            by_contra blocked
            push Not at blocked
            obtain ⟨error, failed⟩ := fails.mpr (by simpa using blocked)
            exact changes (nothing error failed)
          · intro starts error failed
            obtain ⟨present, busy, unstarted, unserved, registersNone⟩ := fails.mp ⟨error, failed⟩
            simp [present, busy, unstarted, unserved, registersNone] at starts

namespace Scenario

/-- The second target does not exist. -/
def brokenRoute : Json :=
  .array [.object [("route", .array [.string "target::backend", .string "target::missing"])]]

def brokenCall : AddRouteOutcome × BitsRoutes :=
  addRoute hosting "127.0.0.1:9000" BitsRoutes.new "route" brokenRoute .served

end Scenario

open Scenario

/-- The pool of the first target is registered although the call fails. -/
theorem failed_call_registers_pool :
    (∃ error, brokenCall.1 = .failed error) ∧
      ¬ChangesNothing hosting "127.0.0.1:9000" BitsRoutes.new brokenCall.2 := by
  have refused : brokenCall.1.isFailed = true := by decide +kernel
  have registered : brokenCall.2.pools.served.lookup "backend" = some 0 := by decide +kernel
  refine ⟨AddRouteOutcome.failed_of_isFailed refused, ?_⟩
  intro nothing
  have same := nothing.pools "backend"
  rw [registered] at same
  cases same

end BitsBroker
