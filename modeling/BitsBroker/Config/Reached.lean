import BitsBroker.Config.ParsePairs
import BitsBroker.WorkerServer

/-!
How far a parse gets. The parser stops at the first part of the routes that it refuses, and it has
read the references before that. Whether a part is refused does not depend on the parts before it,
because a target that one of them has put into the cache is one that can be built. So each part is
judged alone, against the cache with which the parse started.

From the references that are reached follows what a parse leaves behind, also when it fails: a pool
is registered if and only if one of them registers it, and the cache grows if and only if one of
them adds a target.
-/

namespace BitsBroker

section Reached

variable (ctx : RouteContext) (cache : HashMap String ResolvedTarget)

/-- The part is accepted if it is parsed alone. -/
def acceptsAlone {A : Type} (parse : ParseM A) : Bool := (parse (ParseState.new cache)).1.isOk

mutual

/-- The references up to the first part that is refused. -/
def reachedRoutes (section_ : String) : Json → List String
  | .array entries => reachedEntries section_ 0 entries
  | _ => []

def reachedEntries (section_ : String) (index : Nat) : List Json → List String
  | [] => []
  | entry :: rest => reachedEntry entry ++
      if acceptsAlone cache (parseEntry ctx section_ index entry) then
        reachedEntries section_ (index + 1) rest
      else []

def reachedEntry : Json → List String
  | .object fields => reachedNamedRoute fields
  | _ => []

def reachedNamedRoute : List (String × Json) → List String
  | [] => []
  | (name, value) :: rest => if rest.isEmpty then reachedRouteValue name value else []

def reachedRouteValue (name : String) : Json → List String
  | .array actions => reachedActions name actions
  | _ => []

def reachedActions (routeName : String) : List Json → List String
  | [] => []
  | value :: rest => reachedAction value ++
      if acceptsAlone cache (parseAction ctx routeName value) then reachedActions routeName rest
      else []

def reachedAction : Json → List String
  | .string name => [name]
  | .object fields => reachedSwitch fields
  | _ => []

def reachedSwitch : List (String × Json) → List String
  | [] => []
  | (key, value) :: rest =>
      if key = "switch" then reachedRoutes "switch" value else reachedSwitch rest

end

/-- The step asks the worker server for a pool, under a name that is valid. -/
def partsPool (name : String) (parts : Option StepParts) : Bool :=
  (validatePoolName name).isOk && parts.any fun found =>
    asksForPool ctx name found.typeName (actionKind found.action) found.settings

def attachParts (name : String) (parts : StepParts) : ParseM StepAction :=
  attachStep ctx name parts.typeName parts.action parts.settings parts.silent

def isTarget : Except ParseError StepAction → Bool
  | .ok (.target _) => true
  | _ => false

/-- The step becomes a target. -/
def partsTarget (name : String) (parts : Option StepParts) : Bool :=
  parts.any fun found => isTarget (attachParts ctx name found (ParseState.new ∅)).1

def targetParts (name : String) : Option StepParts :=
  (ctx.registries.targets.lookup name).bind (entryParts ctx)

/-- The reference stands for an entry that asks for a pool. A target that is in the cache is not
built again. -/
def registersPool (reference : String) : Bool :=
  match splitNs reference with
  | none => false
  | some (ns, name) =>
      !(decide (ns = "target") && (cache.lookup name).isSome) &&
        partsPool ctx name ((ctx.registries.entry ns name).bind (entryParts ctx))

/-- The reference stands for a target that is not in the cache and can be built. -/
def addsTarget (reference : String) : Bool :=
  match splitNs reference with
  | none => false
  | some (ns, name) => decide (ns = "target") && (cache.lookup name).isNone &&
      partsTarget ctx name (targetParts ctx name)

end Reached

/-- The pools that a parse has registered. -/
def poolNames (s : ParseState) : List String :=
  (s.registered.map (·.1)).filter fun name => (validatePoolName name).isOk

def Pooled (s : ParseState) : Prop := poolNames s ≠ []

def Grown (cache : HashMap String ResolvedTarget) (s : ParseState) : Prop :=
  ∃ name, cache.lookup name = none ∧ s.resolvedTargets.lookup name ≠ none

section Attaching

variable {ctx : RouteContext} {s t : ParseState} {name : String}

theorem attachParts_cache (ctx : RouteContext) (name : String) (parts : StepParts)
    (s : ParseState) : (attachParts ctx name parts s).2.resolvedTargets = s.resolvedTargets :=
  (attachStep_grows ctx name parts.typeName parts.action parts.settings parts.silent s).cache

theorem attachParts_registered (ctx : RouteContext) (name : String) (parts : StepParts)
    (s : ParseState) : (attachParts ctx name parts s).2.registered.map (·.1) =
      s.registered.map (·.1) ++ if asksForPool ctx name parts.typeName (actionKind parts.action)
        parts.settings then [name] else [] := by
  unfold attachParts
  rw [attachStep_registered_eq, ParseState.ask]
  split
  · simp
  · simp

theorem attachParts_pooled (ctx : RouteContext) (name : String) (parts : StepParts)
    (s : ParseState) : Pooled (attachParts ctx name parts s).2 ↔
      Pooled s ∨ partsPool ctx name (some parts) = true := by
  unfold Pooled poolNames partsPool
  rw [attachParts_registered, List.filter_append, Ne, List.append_eq_nil_iff, not_and_or]
  apply or_congr Iff.rfl
  by_cases asks : asksForPool ctx name parts.typeName (actionKind parts.action) parts.settings
  · simp [asks]
  · simp [asks]

theorem isTarget_forget (result : Except ParseError StepAction) :
    isTarget (result.map StepAction.forget) = isTarget result := by
  cases result with
  | error error => rfl
  | ok action => cases action <;> rfl

theorem attachParts_forget (ctx : RouteContext) (name : String) (parts : StepParts)
    (s t : ParseState) : (attachParts ctx name parts s).1.map StepAction.forget =
      (attachParts ctx name parts t).1.map StepAction.forget :=
  attachStep_forget ctx name parts.typeName parts.action parts.settings parts.silent s t

theorem attachParts_isTarget (ctx : RouteContext) (name : String) (parts : StepParts)
    (s : ParseState) : isTarget (attachParts ctx name parts s).1 =
      partsTarget ctx name (some parts) := by
  rw [← isTarget_forget, attachParts_forget ctx name parts s (ParseState.new ∅), isTarget_forget]
  rfl

end Attaching

/-- What is done with a target that has been built. -/
def storeTarget (name : String) (built : Except ParseError StepAction × ParseState) :
    Except ParseError StepAction × ParseState :=
  match built with
  | (.ok (.target resolved), s) => (.ok (.target resolved),
      { s with resolvedTargets := AList.insert name resolved s.resolvedTargets })
  | other => other

section Storing

variable {ctx : RouteContext} {s : ParseState} {name : String}

theorem storeTarget_fst (name : String) (built : Except ParseError StepAction × ParseState) :
    (storeTarget name built).1 = built.1 := by
  unfold storeTarget
  split <;> rfl

theorem storeTarget_registered (name : String)
    (built : Except ParseError StepAction × ParseState) :
    (storeTarget name built).2.registered = built.2.registered := by
  unfold storeTarget
  split <;> rfl

theorem storeTarget_cached (name other : String)
    (built : Except ParseError StepAction × ParseState) :
    (storeTarget name built).2.resolvedTargets.lookup other ≠ none ↔
      built.2.resolvedTargets.lookup other ≠ none ∨ other = name ∧ isTarget built.1 = true := by
  rcases built with ⟨result, after⟩
  cases result with
  | error error => simp [storeTarget, isTarget]
  | ok action =>
      cases action with
      | target resolved =>
          simp only [storeTarget, HashMap.lookup_insert_eq]
          by_cases same : other = name
          · simp [same, isTarget]
          · simp [same]
      | check | transform | embedded => simp [storeTarget, isTarget]

theorem resolveTarget_of_cached {resolved : ResolvedTarget} (routeName : String)
    (found : s.resolvedTargets.lookup name = some resolved) :
    resolveTarget ctx name routeName s = (.ok (.target resolved), s) := by
  unfold resolveTarget
  change ParseM.bind (cachedTarget name) _ s = _
  rw [ParseM.bind_eq]
  simp only [cachedTarget, found]
  rfl

theorem resolveTarget_of_uncached (routeName : String)
    (absent : s.resolvedTargets.lookup name = none) :
    resolveTarget ctx name routeName s = storeTarget name
      ((lookupEntry ctx.registries.targets "target" name routeName >>=
        actionFromEntry ctx "target" name) s) := by
  unfold resolveTarget
  change ParseM.bind (cachedTarget name) _ s = storeTarget name (ParseM.bind _ _ s)
  rw [ParseM.bind_eq, ParseM.bind_eq]
  simp only [cachedTarget, absent]
  change ParseM.bind (lookupEntry ctx.registries.targets "target" name routeName) _ s = _
  rw [ParseM.bind_eq]
  cases (lookupEntry ctx.registries.targets "target" name routeName s).1 with
  | error error => rfl
  | ok entry =>
      change ParseM.bind (actionFromEntry ctx "target" name entry) _ _ = storeTarget name
        (actionFromEntry ctx "target" name entry _)
      unfold ParseM.bind
      rcases actionFromEntry ctx "target" name entry _ with ⟨result, after⟩
      cases result with
      | error error => rfl
      | ok action => cases action <;> rfl

theorem resolveTarget_of_no_parts (missing : targetParts ctx name = none) (routeName : String) :
    ∃ error, ∀ s : ParseState, s.resolvedTargets.lookup name = none →
      resolveTarget ctx name routeName s = (.error error, s) := by
  have builds : Builds ctx name _ (targetParts ctx name) :=
    entry_builds ctx.registries.targets "target" name routeName
  rw [missing] at builds
  obtain ⟨error, fails⟩ := builds
  refine ⟨error, ?_⟩
  intro s absent
  rw [resolveTarget_of_uncached routeName absent, fails]
  rfl

theorem resolveTarget_of_parts {parts : StepParts} (found : targetParts ctx name = some parts)
    (routeName : String) (absent : s.resolvedTargets.lookup name = none) :
    resolveTarget ctx name routeName s = storeTarget name (attachParts ctx name parts s) := by
  have builds : Builds ctx name _ (targetParts ctx name) :=
    entry_builds ctx.registries.targets "target" name routeName
  rw [found] at builds
  rw [resolveTarget_of_uncached routeName absent, builds]
  rfl

end Storing

/-- The state of a parse that started with `cache`: a target that it has added can be built, and
if that takes a pool then a pool has been registered. -/
structure ParsedFrom (ctx : RouteContext) (cache : HashMap String ResolvedTarget) (s : ParseState) :
    Prop where
  kept (name : String) : cache.lookup name ≠ none → s.resolvedTargets.lookup name ≠ none
  fresh (name : String) : cache.lookup name = none → s.resolvedTargets.lookup name ≠ none →
    partsTarget ctx name (targetParts ctx name) = true ∧
      (partsPool ctx name (targetParts ctx name) = true → Pooled s)

section Verdicts

variable {ctx : RouteContext} {cache : HashMap String ResolvedTarget} {s t : ParseState}
  {name : String}

theorem parsedFrom_start (ctx : RouteContext) (cache : HashMap String ResolvedTarget)
    (dispatchers : List AnyDispatcher) (targets : List TargetAction) :
    ParsedFrom ctx cache ⟨dispatchers, targets, cache, []⟩ where
  kept _ cached := cached
  fresh _ absent cached := absurd absent cached

theorem ParsedFrom.attach (began : ParsedFrom ctx cache s) (other : String) (parts : StepParts) :
    ParsedFrom ctx cache (attachParts ctx other parts s).2 where
  kept name cached := by
    rw [attachParts_cache]
    exact began.kept name cached
  fresh name absent found := by
    rw [attachParts_cache] at found
    obtain ⟨target, pooled⟩ := began.fresh name absent found
    refine ⟨target, ?_⟩
    intro asks
    exact (attachParts_pooled ctx other parts s).mpr (Or.inl (pooled asks))

theorem storeTarget_pooled (name : String) (built : Except ParseError StepAction × ParseState) :
    Pooled (storeTarget name built).2 ↔ Pooled built.2 := by
  unfold Pooled poolNames
  rw [storeTarget_registered]

theorem ParsedFrom.store {parts : StepParts} (began : ParsedFrom ctx cache s)
    (found : targetParts ctx name = some parts) :
    ParsedFrom ctx cache (storeTarget name (attachParts ctx name parts s)).2 where
  kept other cached :=
    (storeTarget_cached _ _ _).mpr (Or.inl ((began.attach name parts).kept other cached))
  fresh other absent cached := by
    rw [storeTarget_pooled]
    rcases (storeTarget_cached _ _ _).mp cached with before | ⟨rfl, built⟩
    · exact (began.attach name parts).fresh other absent before
    · rw [attachParts_isTarget] at built
      rw [found]
      refine ⟨built, ?_⟩
      intro asks
      exact (attachParts_pooled ctx other parts s).mpr (Or.inr asks)

theorem ParsedFrom.target (began : ParsedFrom ctx cache s) (name routeName : String) :
    ParsedFrom ctx cache (resolveTarget ctx name routeName s).2 := by
  cases cached : s.resolvedTargets.lookup name with
  | some resolved =>
      rw [resolveTarget_of_cached routeName cached]
      exact began
  | none =>
      cases found : targetParts ctx name with
      | none =>
          obtain ⟨error, fails⟩ := resolveTarget_of_no_parts found routeName
          rw [fails s cached]
          exact began
      | some parts =>
          rw [resolveTarget_of_parts found routeName cached]
          exact began.store found

theorem forget_of_isTarget {result : Except ParseError StepAction}
    (target : isTarget result = true) :
    result.map StepAction.forget = .ok (.target ⟨0, none, none⟩) := by
  cases result with
  | error error => cases target
  | ok action =>
      cases action with
      | target resolved => rfl
      | check | transform | embedded => cases target

theorem ParsedFrom.uncached (began : ParsedFrom ctx cache s)
    (absent : s.resolvedTargets.lookup name = none) : cache.lookup name = none := by
  by_contra cached
  exact began.kept name cached absent

/-- A target resolves as it would have at the start of the parse. -/
theorem ParsedFrom.target_result (began : ParsedFrom ctx cache s) (name routeName : String) :
    (resolveTarget ctx name routeName s).1.map StepAction.forget =
      (resolveTarget ctx name routeName (ParseState.new cache)).1.map StepAction.forget := by
  cases cached : s.resolvedTargets.lookup name with
  | some resolved =>
      rw [resolveTarget_of_cached routeName cached]
      cases before : cache.lookup name with
      | some first => rw [resolveTarget_of_cached (s := ParseState.new cache) routeName before]; rfl
      | none =>
          have target := (began.fresh name before (by simp [cached])).1
          cases found : targetParts ctx name with
          | none =>
              rw [found] at target
              cases target
          | some parts =>
              rw [resolveTarget_of_parts (s := ParseState.new cache) found routeName before,
                storeTarget_fst]
              rw [found, ← attachParts_isTarget ctx name parts (ParseState.new cache)] at target
              rw [forget_of_isTarget target]
              rfl
  | none =>
      have before := began.uncached cached
      cases found : targetParts ctx name with
      | none =>
          obtain ⟨error, fails⟩ := resolveTarget_of_no_parts found routeName
          rw [fails s cached, fails (ParseState.new cache) before]
      | some parts =>
          rw [resolveTarget_of_parts found routeName cached,
            resolveTarget_of_parts (s := ParseState.new cache) found routeName before,
            storeTarget_fst, storeTarget_fst]
          exact attachParts_forget ctx name parts s (ParseState.new cache)

def BothParsedFrom (ctx : RouteContext) (cache : HashMap String ResolvedTarget)
    (s t : ParseState) : Prop :=
  ParsedFrom ctx cache s ∧ ParsedFrom ctx cache t

theorem parsedFromRules (ctx : RouteContext) (cache : HashMap String ResolvedTarget) :
    PairRules ctx (BothParsedFrom ctx cache) where
  attach entryName actionName action settings silent s t both :=
    ⟨both.1.attach entryName ⟨actionName, action, settings, silent⟩,
      both.2.attach entryName ⟨actionName, action, settings, silent⟩⟩
  target name routeName s t both := by
    refine ⟨⟨both.1.target name routeName, both.2.target name routeName⟩, ?_⟩
    rw [both.1.target_result, both.2.target_result]

theorem isOk_map {E A B : Type} (view : A → B) (result : Except E A) :
    (result.map view).isOk = result.isOk := by
  cases result <;> rfl

/-- A part is accepted in the course of a parse if and only if it is accepted alone. -/
theorem ParsedFrom.verdict {A C : Type} {view : A → C} {parse : ParseM A}
    (inStep : InStep (BothParsedFrom ctx cache) view parse parse) (began : ParsedFrom ctx cache s) :
    ParsedFrom ctx cache (parse s).2 ∧ (parse s).1.isOk = acceptsAlone cache parse := by
  obtain ⟨both, same⟩ :=
    inStep s (ParseState.new cache) ⟨began, parsedFrom_start ctx cache [] []⟩
  refine ⟨both.1, ?_⟩
  rw [acceptsAlone, ← isOk_map view, same, isOk_map]

end Verdicts

section Marks

variable {ctx : RouteContext} {cache : HashMap String ResolvedTarget}
  {mark : ParseState → Prop} {event : String → Bool} {A B C : Type}

/-- The parse leaves the mark if and only if it is there before or comes with a reference that is
reached. -/
def Marks (ctx : RouteContext) (cache : HashMap String ResolvedTarget)
    (mark : ParseState → Prop) (event : String → Bool) (parse : ParseM A)
    (reached : List String) : Prop :=
  ∀ s, ParsedFrom ctx cache s →
    (mark (parse s).2 ↔ mark s ∨ ∃ reference ∈ reached, event reference = true)

theorem marks_fail (error : ParseError) :
    Marks ctx cache mark event (ParseM.fail error : ParseM A) [] := by
  intro s _
  simp [ParseM.fail]

theorem marks_pure (value : A) : Marks ctx cache mark event (ParseM.pure value) [] := by
  intro s _
  simp [ParseM.pure]

theorem marks_bind_still {first : ParseM A} {second : A → ParseM B} {reached : List String}
    (marks : Marks ctx cache mark event first reached)
    (still : ∀ value s, (second value s).2 = s) :
    Marks ctx cache mark event (first >>= second) reached := by
  intro s began
  have same : ((first >>= second) s).2 = (first s).2 := by
    change (ParseM.bind first second s).2 = _
    rw [ParseM.bind_eq]
    cases (first s).1 with
    | error error => rfl
    | ok value => exact still value _
  rw [same]
  exact marks s began

theorem marks_bind {view : A → C} {first : ParseM A} {second : A → ParseM B}
    {before after : List String} (inStep : InStep (BothParsedFrom ctx cache) view first first)
    (marks : Marks ctx cache mark event first before)
    (then_ : ∀ value, Marks ctx cache mark event (second value) after) :
    Marks ctx cache mark event (first >>= second)
      (before ++ if acceptsAlone cache first then after else []) := by
  intro s began
  obtain ⟨still, verdict⟩ := began.verdict inStep
  change mark (ParseM.bind first second s).2 ↔ _
  rw [ParseM.bind_eq]
  cases answer : (first s).1 with
  | error error =>
      have refused : acceptsAlone cache first = false := by
        rw [← verdict, answer]
        rfl
      rw [refused]
      simpa using marks s began
  | ok value =>
      have accepted : acceptsAlone cache first = true := by
        rw [← verdict, answer]
        rfl
      rw [accepted, if_pos rfl]
      simp only [List.mem_append, or_and_right, exists_or]
      rw [then_ value (first s).2 still, marks s began, or_assoc]

/-- Which references leave the mark. -/
structure MarkRules (ctx : RouteContext) (cache : HashMap String ResolvedTarget)
    (mark : ParseState → Prop) (event : String → Bool) : Prop where
  named (name routeName : String) :
    Marks ctx cache mark event (parseReference ctx name routeName) [name]
  inline (routeName : String) (fields : List (String × Json)) :
    Marks ctx cache mark event (parseObject ctx routeName fields) []

theorem reachedSwitch_of_none : ∀ {fields : List (String × Json)},
    parseSwitch ctx fields = none → reachedSwitch ctx cache fields = [] := by
  intro fields
  induction fields with
  | nil =>
      intro _
      rw [reachedSwitch]
  | cons field rest ih =>
      obtain ⟨key, value⟩ := field
      intro absent
      rw [parseSwitch] at absent
      split at absent
      · cases absent
      next other =>
        rw [reachedSwitch, if_neg other]
        exact ih absent

mutual

theorem parseRoutes_marks (rules : MarkRules ctx cache mark event) (section_ : String) :
    ∀ value : Json, Marks ctx cache mark event (parseRoutes ctx section_ value)
      (reachedRoutes ctx cache section_ value)
  | .array entries => by
      rw [parseRoutes, reachedRoutes]
      exact parseEntries_marks rules section_ 0 entries
  | .null => marks_fail _
  | .bool _ => marks_fail _
  | .number _ => marks_fail _
  | .string _ => marks_fail _
  | .object _ => marks_fail _

theorem parseEntries_marks (rules : MarkRules ctx cache mark event) (section_ : String)
    (index : Nat) : ∀ entries : List Json,
    Marks ctx cache mark event (parseEntries ctx section_ index entries)
      (reachedEntries ctx cache section_ index entries)
  | [] => by
      rw [parseEntries, reachedEntries]
      exact marks_pure _
  | entry :: rest => by
      rw [parseEntries, reachedEntries]
      refine marks_bind (parseEntry_inStep (parsedFromRules ctx cache) section_ index entry)
        (parseEntry_marks rules section_ index entry) ?_
      intro route
      exact marks_bind_still (parseEntries_marks rules section_ (index + 1) rest) fun _ _ => rfl

theorem parseEntry_marks (rules : MarkRules ctx cache mark event) (section_ : String)
    (index : Nat) : ∀ entry : Json,
    Marks ctx cache mark event (parseEntry ctx section_ index entry)
      (reachedEntry ctx cache entry)
  | .object fields => by
      rw [parseEntry, reachedEntry]
      exact parseNamedRoute_marks rules section_ index fields
  | .null => marks_fail _
  | .bool _ => marks_fail _
  | .number _ => marks_fail _
  | .string _ => marks_fail _
  | .array _ => marks_fail _

theorem parseNamedRoute_marks (rules : MarkRules ctx cache mark event) (section_ : String)
    (index : Nat) : ∀ fields : List (String × Json),
    Marks ctx cache mark event (parseNamedRoute ctx section_ index fields)
      (reachedNamedRoute ctx cache fields)
  | [] => marks_fail _
  | (name, value) :: rest => by
      rw [parseNamedRoute, reachedNamedRoute]
      split
      · exact parseRouteValue_marks rules section_ name value
      · exact marks_fail _

theorem parseRouteValue_marks (rules : MarkRules ctx cache mark event) (section_ name : String) :
    ∀ value : Json, Marks ctx cache mark event (parseRouteValue ctx section_ name value)
      (reachedRouteValue ctx cache name value)
  | .array actions => by
      rw [parseRouteValue, reachedRouteValue]
      exact marks_bind_still (parseActions_marks rules name actions) fun _ _ => rfl
  | .null => marks_fail _
  | .bool _ => marks_fail _
  | .number _ => marks_fail _
  | .string _ => marks_fail _
  | .object _ => marks_fail _

theorem parseActions_marks (rules : MarkRules ctx cache mark event) (routeName : String) :
    ∀ actions : List Json, Marks ctx cache mark event (parseActions ctx routeName actions)
      (reachedActions ctx cache routeName actions)
  | [] => by
      rw [parseActions, reachedActions]
      exact marks_pure _
  | value :: rest => by
      rw [parseActions, reachedActions]
      refine marks_bind (parseAction_inStep (parsedFromRules ctx cache) routeName value)
        (parseAction_marks rules routeName value) ?_
      intro step
      exact marks_bind_still (parseActions_marks rules routeName rest) fun _ _ => rfl

theorem parseAction_marks (rules : MarkRules ctx cache mark event) (routeName : String) :
    ∀ value : Json, Marks ctx cache mark event (parseAction ctx routeName value)
      (reachedAction ctx cache value)
  | .string name => by
      rw [parseAction, reachedAction]
      exact rules.named name routeName
  | .object fields => by
      rw [parseAction, reachedAction]
      cases found : parseSwitch ctx fields with
      | none =>
          rw [reachedSwitch_of_none found]
          exact rules.inline routeName fields
      | some switch =>
          refine marks_bind_still (parseSwitch_marks rules fields switch found) ?_
          intro routes s
          cases validateRoutes routes <;> rfl
  | .null => marks_fail _
  | .bool _ => marks_fail _
  | .number _ => marks_fail _
  | .array _ => marks_fail _

theorem parseSwitch_marks (rules : MarkRules ctx cache mark event) :
    ∀ (fields : List (String × Json)) (switch : ParseM (List ParsedRoute)),
      parseSwitch ctx fields = some switch →
        Marks ctx cache mark event switch (reachedSwitch ctx cache fields)
  | [], switch, found => by
      rw [parseSwitch] at found
      cases found
  | (key, value) :: rest, switch, found => by
      rw [parseSwitch] at found
      rw [reachedSwitch]
      split at found
      next isSwitch =>
        cases found
        rw [if_pos isSwitch]
        exact parseRoutes_marks rules "switch" value
      next other =>
        rw [if_neg other]
        exact parseSwitch_marks rules rest switch found

end

end Marks

section Events

variable {ctx : RouteContext} {cache : HashMap String ResolvedTarget} {s : ParseState}
  {name : String} {parse : ParseM StepAction} {parts : Option StepParts}

theorem Builds.pooled (builds : Builds ctx name parse parts) (s : ParseState) :
    Pooled (parse s).2 ↔ Pooled s ∨ partsPool ctx name parts = true := by
  cases parts with
  | none =>
      obtain ⟨error, rfl⟩ := builds
      simp [ParseM.fail, partsPool]
  | some found =>
      obtain rfl := builds
      exact attachParts_pooled ctx name found s

theorem Builds.resolvedTargets (builds : Builds ctx name parse parts) (s : ParseState) :
    (parse s).2.resolvedTargets = s.resolvedTargets := by
  cases parts with
  | none =>
      obtain ⟨error, rfl⟩ := builds
      rfl
  | some found =>
      obtain rfl := builds
      exact attachParts_cache ctx name found s

theorem resolveTarget_pooled (began : ParsedFrom ctx cache s) (name routeName : String) :
    Pooled (resolveTarget ctx name routeName s).2 ↔ Pooled s ∨
      (cache.lookup name = none ∧ partsPool ctx name (targetParts ctx name) = true) := by
  cases cached : s.resolvedTargets.lookup name with
  | some resolved =>
      rw [resolveTarget_of_cached routeName cached]
      constructor
      · exact Or.inl
      · rintro (before | ⟨absent, asks⟩)
        · exact before
        · exact (began.fresh name absent (by simp [cached])).2 asks
  | none =>
      have absent := began.uncached cached
      cases found : targetParts ctx name with
      | none =>
          obtain ⟨error, fails⟩ := resolveTarget_of_no_parts found routeName
          rw [fails s cached]
          simp [partsPool]
      | some parts =>
          rw [resolveTarget_of_parts found routeName cached, storeTarget_pooled,
            attachParts_pooled]
          simp [absent]

theorem resolveTarget_grown (began : ParsedFrom ctx cache s) (name routeName : String) :
    Grown cache (resolveTarget ctx name routeName s).2 ↔ Grown cache s ∨
      (cache.lookup name = none ∧ partsTarget ctx name (targetParts ctx name) = true) := by
  cases cached : s.resolvedTargets.lookup name with
  | some resolved =>
      rw [resolveTarget_of_cached routeName cached]
      constructor
      · exact Or.inl
      · rintro (before | ⟨absent, _⟩)
        · exact before
        · exact ⟨name, absent, by simp [cached]⟩
  | none =>
      have absent := began.uncached cached
      cases found : targetParts ctx name with
      | none =>
          obtain ⟨error, fails⟩ := resolveTarget_of_no_parts found routeName
          rw [fails s cached]
          simp [partsTarget]
      | some parts =>
          rw [resolveTarget_of_parts found routeName cached]
          unfold Grown
          simp only [storeTarget_cached, attachParts_cache, attachParts_isTarget]
          constructor
          · rintro ⟨other, uncached, before | ⟨_, target⟩⟩
            · exact Or.inl ⟨other, uncached, before⟩
            · exact Or.inr ⟨absent, target⟩
          · rintro (⟨other, uncached, before⟩ | ⟨_, target⟩)
            · exact ⟨other, uncached, Or.inl before⟩
            · exact ⟨name, absent, Or.inr ⟨rfl, target⟩⟩

/-- The mark is left by the named actions that have it as an event. -/
theorem named_marks {mark : ParseState → Prop} {event : String → Bool}
    (plain : ∀ reference, splitNs reference = none → event reference = false)
    (resolved : ∀ reference ns name, splitNs reference = some (ns, name) → ∀ routeName s,
      ParsedFrom ctx cache s → (mark (resolveNamed ctx ns name routeName s).2 ↔
        mark s ∨ event reference = true)) (reference routeName : String) :
    Marks ctx cache mark event (parseReference ctx reference routeName) [reference] := by
  unfold parseReference
  split
  next persists =>
    have unsplit : splitNs reference = none := by
      rw [persists]
      decide
    intro s _
    simp [invalidAction, ParseM.fail, plain reference unsplit]
  · cases parts : splitNs reference with
    | none =>
        intro s _
        simp [invalidAction, ParseM.fail, plain reference parts]
    | some both =>
        obtain ⟨ns, name⟩ := both
        apply marks_bind_still
        · intro s began
          simpa using resolved reference ns name parts routeName s began
        · intro _ _
          rfl

theorem pooledRules (ctx : RouteContext) (cache : HashMap String ResolvedTarget) :
    MarkRules ctx cache Pooled (registersPool ctx cache) where
  named := by
    apply named_marks
    · intro reference unsplit
      simp [registersPool, unsplit]
    · intro reference ns name parts routeName s began
      simp only [registersPool, parts]
      unfold resolveNamed
      split
      next isCheck =>
        rw [(entry_builds ctx.registries.checks ns name routeName).pooled s]
        simp [isCheck, Registries.entry]
      next notCheck =>
        split
        next isTransform =>
          rw [(entry_builds ctx.registries.transforms ns name routeName).pooled s]
          simp [isTransform, Registries.entry]
        next notTransform =>
          split
          next isTarget =>
            rw [resolveTarget_pooled began]
            subst isTarget
            cases cache.lookup name <;> simp [Registries.entry, targetParts]
          next notTarget =>
            simp [invalidAction, ParseM.fail, Registries.entry, notCheck, notTransform, notTarget,
              partsPool]
  inline routeName fields := by
    unfold parseObject
    split
    · exact marks_fail _
    next key ns actionName config _ =>
      obtain ⟨parts, builds, notRemote⟩ :=
        parseInline_builds routeName key ns actionName config fields
      refine marks_bind_still ?_ fun _ _ => rfl
      intro s _
      rw [builds.pooled s]
      have silent : partsPool ctx actionName parts = false := by
        cases parts with
        | none => simp [partsPool]
        | some found =>
            have quiet : asksForPool ctx actionName found.typeName (actionKind found.action)
                found.settings = false := by
              by_contra asks
              exact notRemote found rfl (remote_of_asksForPool (Bool.not_eq_false _ ▸ asks))
            simp [partsPool, quiet]
      simp [silent]

theorem grownRules (ctx : RouteContext) (cache : HashMap String ResolvedTarget) :
    MarkRules ctx cache (Grown cache) (addsTarget ctx cache) where
  named := by
    apply named_marks
    · intro reference unsplit
      simp [addsTarget, unsplit]
    · intro reference ns name parts routeName s began
      simp only [addsTarget, parts]
      unfold resolveNamed
      split
      next isCheck =>
        unfold Grown
        rw [(entry_builds ctx.registries.checks ns name routeName).resolvedTargets s]
        simp [isCheck]
      next notCheck =>
        split
        next isTransform =>
          unfold Grown
          rw [(entry_builds ctx.registries.transforms ns name routeName).resolvedTargets s]
          simp [isTransform]
        next notTransform =>
          split
          next isTarget =>
            rw [resolveTarget_grown began]
            simp [isTarget]
          next notTarget => simp [invalidAction, ParseM.fail, notTarget]
  inline routeName fields := by
    unfold parseObject
    split
    · exact marks_fail _
    next key ns actionName config _ =>
      obtain ⟨parts, builds, _⟩ :=
        parseInline_builds routeName key ns actionName config fields
      refine marks_bind_still ?_ fun _ _ => rfl
      intro s _
      unfold Grown
      rw [builds.resolvedTargets s]
      simp

end Events

section Results

variable (ctx : RouteContext) (cache : HashMap String ResolvedTarget)
  (dispatchers : List AnyDispatcher) (targets : List TargetAction) (section_ : String)
  (value : Json)

/-- The result of a parse depends on the cache alone. -/
theorem parseRoutes_alone :
    (parseRoutes ctx section_ value ⟨dispatchers, targets, cache, []⟩).1.map forgetRoutes =
      (parseRoutes ctx section_ value (ParseState.new cache)).1.map forgetRoutes :=
  (parseRoutes_inStep (parsedFromRules ctx cache) section_ value _ _
    ⟨parsedFrom_start ctx cache dispatchers targets, parsedFrom_start ctx cache [] []⟩).2

/-- A parse registers a pool if and only if it reaches a reference that does. -/
theorem parseRoutes_pooled :
    Pooled (parseRoutes ctx section_ value ⟨dispatchers, targets, cache, []⟩).2 ↔
      ∃ reference ∈ reachedRoutes ctx cache section_ value,
        registersPool ctx cache reference = true := by
  have start : ¬Pooled ⟨dispatchers, targets, cache, []⟩ := by simp [Pooled, poolNames]
  rw [parseRoutes_marks (pooledRules ctx cache) section_ value _
    (parsedFrom_start ctx cache dispatchers targets), or_iff_right start]

/-- A parse has more targets in its cache afterwards if and only if it reaches a reference that
adds one. -/
theorem parseRoutes_grown :
    Grown cache (parseRoutes ctx section_ value ⟨dispatchers, targets, cache, []⟩).2 ↔
      ∃ reference ∈ reachedRoutes ctx cache section_ value,
        addsTarget ctx cache reference = true := by
  have start : ¬Grown cache ⟨dispatchers, targets, cache, []⟩ := by
    rintro ⟨name, absent, present⟩
    exact present absent
  rw [parseRoutes_marks (grownRules ctx cache) section_ value _
    (parsedFrom_start ctx cache dispatchers targets), or_iff_right start]

end Results

end BitsBroker
