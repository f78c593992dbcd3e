import BitsBroker.Config.Attaching
import BitsBroker.Config.StepKeys

/-!
The kind of action that a step becomes. An inline action is refused if its kind is not its
namespace. An entry of a registry becomes whatever its type makes, in whichever registry it stands,
so a step is of the kind of its namespace if and only if the type of the entry is; a cached target
is always a target.
-/

namespace BitsBroker

def StepAction.kind : StepAction → ActionKind
  | .check _ _ _ => .check
  | .transform _ _ _ => .transform
  | .target _ => .target
  | .embedded _ => .switch

def ActionKind.namespace_ : ActionKind → Option String
  | .check => some "check"
  | .transform => some "transform"
  | .target => some "target"
  | .switch => none

theorem inlineKind_iff (ns : String) (kind : ActionKind) :
    inlineKind ns kind = true ↔ kind.namespace_ = some ns := by
  cases kind <;> simp [inlineKind, ActionKind.namespace_, eq_comm]

/-- The kind of action that the type of an entry makes. -/
def kindFromEntry (ctx : RouteContext) (entry : Json) : Option ActionKind :=
  entry.asObject.bind fun fields => ((Json.get fields "type").bind Json.asStr).bind fun typeName =>
    match ctx.createAction typeName (Json.object (fields.filter fun field =>
        decide (field.1 ∉ ["type", "dispatcher", "silent"]))) with
    | .ok action => some (actionKind action)
    | .error _ => none

def entryKind (ctx : RouteContext) (ns name : String) : Option ActionKind :=
  (ctx.registries.entry ns name).bind (kindFromEntry ctx)

/-- The reference is to a cached target, or to an entry whose type is of the kind of its
registry. -/
def Suits (ctx : RouteContext) (cache : HashMap String ResolvedTarget) (reference : String) :
    Prop :=
  ∀ ns name, splitNs reference = some (ns, name) →
    ns = "target" ∧ (cache.lookup name).isSome = true ∨
      ∃ kind, entryKind ctx ns name = some kind ∧ kind.namespace_ = some ns

section Kinds

variable {ctx : RouteContext} {cache : HashMap String ResolvedTarget}

theorem finishStep_kind {action : Action} {silent : Option Bool} {attached : Attached} :
    Yields (finishStep action silent attached) fun built => built.kind = actionKind action := by
  intro s built finished
  unfold finishStep at finished
  split at finished
  · cases finished
    rfl
  · cases finished
    rfl
  · cases finished
    rfl
  · cases finished
    rfl
  · cases finished

theorem attachStep_kind (entryName actionName : String) (action : Action)
    (settings : DispatcherSettings) (silent : Option Bool) :
    Yields (attachStep ctx entryName actionName action settings silent) fun built =>
      built.kind = actionKind action := by
  intro s built finished
  unfold attachStep at finished
  dsimp only at finished
  split at finished
  · cases finished
  · cases finished
  · exact finishStep_kind _ built finished

theorem actionFromEntry_kind (ns name : String) (entry : Json) :
    Yields (actionFromEntry ctx ns name entry) fun built =>
      kindFromEntry ctx entry = some built.kind := by
  unfold actionFromEntry
  split
  · exact yields_fail _
  next fields isObject =>
    split
    · exact yields_fail _
    · split
      · exact yields_fail _
      next typeName isType =>
        refine yields_bind (yields_true _) ?_
        intro settings _
        refine yields_bind (yields_true _) ?_
        intro silent _
        dsimp only
        split
        · exact yields_fail _
        next action made =>
          intro s built finished
          rw [attachStep_kind name typeName action settings silent s built finished]
          rw [kindFromEntry, isObject, Option.bind_some, isType, Option.bind_some, made]

theorem parseInline_kind (routeName key ns actionName : String) (config : Json)
    (fields : List (String × Json)) :
    Yields (parseInline ctx routeName key ns actionName config fields) fun built =>
      built.kind.namespace_ = some ns := by
  unfold parseInline
  split
  · exact yields_fail _
  · split
    · exact yields_fail _
    next action _ =>
      split
      next fits =>
        refine yields_bind (yields_true _) ?_
        intro settings _
        refine yields_bind (yields_true _) ?_
        intro silent _ s built finished
        rw [attachStep_kind actionName actionName action settings silent s built finished]
        exact (inlineKind_iff ns _).mp fits
      · exact yields_fail _

theorem referenceOf_eq {leaf : StepName × StepAction} {parts : String × String}
    (same : referenceOf leaf = some parts) :
    (leaf.1.ns, leaf.1.name) = parts ∧ leaf.1.inline = false := by
  unfold referenceOf at same
  split at same
  · cases same
  next named =>
    cases same
    exact ⟨rfl, Bool.eq_false_of_not_eq_true named⟩

/-- A step comes from the cache the parse began with or is what its entry makes. -/
def Produced (ctx : RouteContext) (cache : HashMap String ResolvedTarget)
    (leaf : StepName × StepAction) : Prop :=
  if leaf.1.inline then leaf.2.kind.namespace_ = some leaf.1.ns
  else if leaf.1.ns = "target" ∧ (cache.lookup leaf.1.name).isSome = true then
    leaf.2.kind = .target
  else entryKind ctx leaf.1.ns leaf.1.name = some leaf.2.kind

/-- The cache grows by targets only. -/
structure CacheKinds (ctx : RouteContext) (cache : HashMap String ResolvedTarget)
    (s : ParseState) : Prop where
  kept (name : String) : (cache.lookup name).isSome = true →
    (s.resolvedTargets.lookup name).isSome = true
  added (name : String) : (s.resolvedTargets.lookup name).isSome = true →
    (cache.lookup name).isSome = true ∨ entryKind ctx "target" name = some .target

def kindContract (ctx : RouteContext) (cache : HashMap String ResolvedTarget) : Contract where
  inv := CacheKinds ctx cache
  grows _ _ := True
  ok _ leaf := Produced ctx cache leaf
  refl _ := trivial
  trans _ _ := trivial
  stable _ produced := produced

theorem Meets.yields {c : Contract} {A : Type} {s : ParseState} {parse : ParseM A}
    {post : ParseState → A → Prop} {more : A → Prop} (meets : Meets c s parse post)
    (yields : Yields parse more) : Meets c s parse fun t value => post t value ∧ more value where
  inv := meets.inv
  grows := meets.grows
  result value eq := ⟨meets.result value eq, yields s value eq⟩

theorem attachStep_cache : AttachRule (kindContract ctx cache) ctx fun _ _ _ => True := by
  intro entryName actionName action settings silent s inv
  have same := (attachStep_grows ctx entryName actionName action settings silent s).cache
  refine ⟨⟨?_, ?_⟩, trivial, fun _ _ => trivial⟩
  · rw [same]
    exact inv.kept
  · rw [same]
    exact inv.added

theorem actionFromEntry_produces (ns name : String) (entry : Json) {s : ParseState}
    (inv : CacheKinds ctx cache s) :
    Meets (kindContract ctx cache) s (actionFromEntry ctx ns name entry) fun _ built =>
      kindFromEntry ctx entry = some built.kind := by
  have meets : Meets (kindContract ctx cache) s (actionFromEntry ctx ns name entry)
      fun _ _ => True := actionFromEntry_meets attachStep_cache ns name entry inv
  exact (meets.yields (actionFromEntry_kind ns name entry)).weaken fun _ _ both => both.2

/-- A target that a parse has built is stored, and its kind is the one of its entry. -/
theorem CacheKinds.store {s : ParseState} (inv : CacheKinds ctx cache s) {name : String}
    (isTarget : entryKind ctx "target" name = some .target) (resolved : ResolvedTarget) :
    CacheKinds ctx cache (cacheTarget name resolved s).2 := by
  constructor
  · intro other cached
    simp only [cacheTarget, HashMap.lookup_insert_eq]
    split
    · rfl
    · exact inv.kept other cached
  · intro other cached
    simp only [cacheTarget, HashMap.lookup_insert_eq] at cached
    split at cached
    next same =>
      rw [same]
      exact Or.inr isTarget
    next => exact inv.added other cached

theorem resolveTarget_produces (name routeName : String) {s : ParseState}
    (inv : CacheKinds ctx cache s) :
    Meets (kindContract ctx cache) s (resolveTarget ctx name routeName) fun _ built =>
      Produced ctx cache (⟨false, "target", name⟩, built) := by
  unfold resolveTarget
  have cached : Meets (kindContract ctx cache) s (cachedTarget name) fun t found =>
      t = s ∧ found = s.resolvedTargets.lookup name := by
    refine ⟨inv, trivial, ?_⟩
    intro found eq
    exact ⟨rfl, (Except.ok.inj eq).symm⟩
  refine meets_bind cached ?_
  rintro t found inv' _ ⟨rfl, rfl⟩
  split
  next resolved known =>
    apply meets_pure inv'
    by_cases before : (cache.lookup name).isSome = true
    · simp [Produced, before, StepAction.kind]
    · rcases inv'.added name (by rw [known]; rfl) with old | made
      · exact absurd old before
      · simp [Produced, before, made, StepAction.kind]
  next absent =>
    have fresh : ¬(cache.lookup name).isSome = true := by
      intro before
      have stored := inv'.kept name before
      rw [absent] at stored
      cases stored
    refine meets_bind (lookupEntry_meets inv' _ _ _ _) ?_
    rintro u entry inv'' _ ⟨rfl, found⟩
    refine meets_bind (actionFromEntry_produces "target" name entry inv'') ?_
    intro v built inv3 _ kind
    have made : entryKind ctx "target" name = some built.kind := by
      simp [entryKind, Registries.entry, found, kind]
    have produced : Produced ctx cache (⟨false, "target", name⟩, built) := by
      simp [Produced, fresh, made]
    split
    next resolved =>
      have stored : Meets (kindContract ctx cache) v (cacheTarget name resolved) fun _ _ => True :=
        ⟨inv3.store made resolved, trivial, fun _ _ => trivial⟩
      refine meets_bind stored ?_
      intro w _ inv4 _ _
      exact meets_pure inv4 produced
    next => exact meets_pure inv3 produced

theorem resolveNamed_produces (ns name routeName : String) {s : ParseState}
    (inv : CacheKinds ctx cache s) :
    Meets (kindContract ctx cache) s (resolveNamed ctx ns name routeName) fun _ built =>
      Produced ctx cache (⟨false, ns, name⟩, built) := by
  unfold resolveNamed
  split
  next isCheck =>
    refine meets_bind (lookupEntry_meets inv _ _ _ _) ?_
    rintro t entry inv' _ ⟨rfl, found⟩
    refine (actionFromEntry_produces ns name entry inv').weaken ?_
    intro u built kind
    simp [Produced, entryKind, Registries.entry, isCheck, found, kind]
  · split
    next isTransform =>
      refine meets_bind (lookupEntry_meets inv _ _ _ _) ?_
      rintro t entry inv' _ ⟨rfl, found⟩
      refine (actionFromEntry_produces ns name entry inv').weaken ?_
      intro u built kind
      simp [Produced, entryKind, Registries.entry, isTransform, found, kind]
    · split
      next isTarget =>
        rw [isTarget]
        exact resolveTarget_produces name routeName inv
      · exact meets_fail inv _

theorem kindRules (ctx : RouteContext) (cache : HashMap String ResolvedTarget) :
    LeafRules (kindContract ctx cache) ctx where
  named name := by
    intro routeName s inv
    unfold parseReference
    split
    · exact meets_fail inv _
    · split
      · exact meets_fail inv _
      next ns entryName _ =>
        refine meets_bind (resolveNamed_produces ns entryName routeName inv) ?_
        intro t built inv' _ produced
        refine meets_pure inv' ?_
        intro leaf inside
        rw [ParsedStep.leaves, List.mem_singleton] at inside
        rw [inside]
        exact produced
  inline := by
    intro routeName fields s inv
    unfold parseObject
    split
    · exact meets_fail inv _
    next key ns actionName config _ =>
      have meets : Meets (kindContract ctx cache) s
          (parseInline ctx routeName key ns actionName config fields) fun _ _ => True :=
        parseInline_meets attachStep_cache routeName key ns actionName config fields inv
      refine meets_bind (meets.yields (parseInline_kind _ _ _ _ _ _)) ?_
      rintro t built inv' _ ⟨_, fits⟩
      refine meets_pure inv' ?_
      intro leaf inside
      rw [ParsedStep.leaves, List.mem_singleton] at inside
      rw [inside]
      exact fits

/-- A produced step is of the kind of its namespace if and only if its reference suits. -/
theorem Produced.kind_iff {leaf : StepName × StepAction} (produced : Produced ctx cache leaf)
    {reference : String} (split_ : splitNs reference = some (leaf.1.ns, leaf.1.name))
    (named : leaf.1.inline = false) :
    leaf.2.kind.namespace_ = some leaf.1.ns ↔ Suits ctx cache reference := by
  rw [Produced, named, if_neg Bool.false_ne_true] at produced
  constructor
  · intro fits ns name same
    rw [split_] at same
    cases same
    split at produced
    next cached => exact Or.inl cached
    next => exact Or.inr ⟨leaf.2.kind, produced, fits⟩
  · intro suits
    split at produced
    next cached =>
      rw [produced, cached.1]
      rfl
    next uncached =>
      rcases suits leaf.1.ns leaf.1.name split_ with cached | ⟨kind, made, fits⟩
      · exact absurd cached uncached
      · rw [produced] at made
        cases made
        exact fits

end Kinds

/-- Accepted steps are of the kind of their namespace if and only if every reference is to a cached
target or to an entry whose type is of the kind of its registry. -/
theorem namespace_is_kind_iff {ctx : RouteContext} {section_ : String} {value : Json}
    {s t : ParseState} {routes : List ParsedRoute}
    (accepted : parseRoutes ctx section_ value s = (.ok routes, t)) :
    (∀ leaf ∈ routesLeaves routes, leaf.2.kind.namespace_ = some leaf.1.ns) ↔
      ∀ reference ∈ routesReferences value, Suits ctx s.resolvedTargets reference := by
  have parsed : (parseRoutes ctx section_ value s).1 = .ok routes := by rw [accepted]
  have inv : CacheKinds ctx s.resolvedTargets s := ⟨fun _ cached => cached, fun _ => Or.inl⟩
  have produced := (parseRoutes_meets (kindRules ctx s.resolvedTargets) section_ s inv value).result
    routes parsed
  have named := (parseRoutes_kept ctx section_ value s routes parsed).named
  constructor
  · intro fits reference inside ns name split_
    have kept : (ns, name) ∈ (routesLeaves routes).filterMap referenceOf := by
      rw [named]
      exact List.mem_filterMap.mpr ⟨reference, inside, split_⟩
    obtain ⟨leaf, member, same⟩ := List.mem_filterMap.mp kept
    obtain ⟨reads, isNamed⟩ := referenceOf_eq same
    rw [← reads] at split_
    have suits := ((produced leaf member).kind_iff split_ isNamed).mp (fits leaf member)
    exact suits ns name (by rw [split_, reads])
  · intro suits leaf member
    cases isNamed : leaf.1.inline with
    | true =>
        have fits : Produced ctx s.resolvedTargets leaf := produced leaf member
        rw [Produced, isNamed, if_pos rfl] at fits
        exact fits
    | false =>
        have kept : (leaf.1.ns, leaf.1.name) ∈ (routesReferences value).filterMap splitNs := by
          rw [← named]
          exact List.mem_filterMap.mpr ⟨leaf, member, by simp [referenceOf, isNamed]⟩
        obtain ⟨reference, inside, split_⟩ := List.mem_filterMap.mp kept
        exact ((produced leaf member).kind_iff split_ isNamed).mpr (suits reference inside)

namespace Scenario

def matchEntry : Json := .object [("type", .string "match")]

def httpEntry : Json := .object [("type", .string "http"), url]

/-- A check named `gate` with the given entry, and a target. -/
def gated (entry : Json) : RouteContext :=
  { withChecks with
    registries := ⟨AList.insert "gate" entry ∅, ∅, AList.insert "web" httpEntry ∅⟩ }

def gatedRoute (steps : List String) : Json := guarded (steps.map .string)

def keptKinds (ctx : RouteContext) (value : Json) : Option (List (String × ActionKind)) :=
  match (parseRoutes ctx "routes" value (ParseState.new ∅)).1 with
  | .error _ => none
  | .ok routes => match validateRoutes routes with
      | .error _ => none
      | .ok () => some ((routesLeaves routes).map fun leaf => (leaf.1.ns, leaf.2.kind))

theorem keptKinds_some {ctx : RouteContext} {value : Json} {kinds : List (String × ActionKind)}
    (kept : keptKinds ctx value = some kinds) :
    ∃ routes t, parseRoutes ctx "routes" value (ParseState.new ∅) = (.ok routes, t) ∧
      validateRoutes routes = .ok () ∧
      (routesLeaves routes).map (fun leaf => (leaf.1.ns, leaf.2.kind)) = kinds := by
  unfold keptKinds at kept
  split at kept
  · cases kept
  next routes parsed =>
    split at kept
    · cases kept
    next valid =>
      cases kept
      exact ⟨routes, _, Prod.ext parsed rfl, valid, rfl⟩

end Scenario

open Scenario

theorem namespace_is_kind_gated :
    ∃ routes t, parseRoutes (gated matchEntry) "routes" (gatedRoute ["check::gate", "target::web"])
        (ParseState.new ∅) = (.ok routes, t) ∧
      ∀ leaf ∈ routesLeaves routes, leaf.2.kind.namespace_ = some leaf.1.ns := by
  have kept : keptKinds (gated matchEntry) (gatedRoute ["check::gate", "target::web"]) =
      some [("check", .check), ("target", .target)] := by decide +kernel
  obtain ⟨routes, t, accepted, _, _⟩ := keptKinds_some kept
  refine ⟨routes, t, accepted, (namespace_is_kind_iff accepted).mpr ?_⟩
  intro reference inside
  have written : routesReferences (gatedRoute ["check::gate", "target::web"]) =
      ["check::gate", "target::web"] := by decide +kernel
  rw [written] at inside
  intro ns name split_
  right
  simp only [List.mem_cons, List.not_mem_nil, or_false] at inside
  rcases inside with rfl | rfl
  · have parts : splitNs "check::gate" = some ("check", "gate") := by decide +kernel
    rw [parts] at split_
    cases split_
    exact ⟨.check, by decide +kernel, rfl⟩
  · have parts : splitNs "target::web" = some ("target", "web") := by decide +kernel
    rw [parts] at split_
    cases split_
    exact ⟨.target, by decide +kernel, rfl⟩

/-- A check whose entry is of the type of a target becomes a target and ends the route. -/
theorem check_entry_becomes_target :
    ∃ routes t, parseRoutes (gated httpEntry) "routes" (gatedRoute ["check::gate"])
        (ParseState.new ∅) = (.ok routes, t) ∧ validateRoutes routes = .ok () ∧
      ¬∀ leaf ∈ routesLeaves routes, leaf.2.kind.namespace_ = some leaf.1.ns := by
  have kept : keptKinds (gated httpEntry) (gatedRoute ["check::gate"]) =
      some [("check", .target)] := by decide +kernel
  obtain ⟨routes, t, accepted, valid, kinds⟩ := keptKinds_some kept
  refine ⟨routes, t, accepted, valid, ?_⟩
  intro fits
  have member : ("check", ActionKind.target) ∈
      (routesLeaves routes).map fun leaf => (leaf.1.ns, leaf.2.kind) := by simp [kinds]
  obtain ⟨leaf, inside, same⟩ := List.mem_map.mp member
  obtain ⟨ns, kind⟩ := Prod.mk.inj same
  have wrong := fits leaf inside
  rw [ns, kind] at wrong
  revert wrong
  decide

end BitsBroker
