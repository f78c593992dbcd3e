import BitsBroker.Config.Attaching
import BitsBroker.Config.StepKeys
import BitsBroker.Dispatcher.Interference

/-!
The scopes of the limiters. A limiter counts its admissions in the shared store under the
name of its registry entry, or, for an inline step, under the name of the action. Two
dispatchers are isolated from each other if these names differ, and if they do not, the users
that both limit share their slots; the namespace of the step and the route it is in are no part
of the scope. Without a store each limiter has its own counts.
-/

namespace BitsBroker

open Transition

section Scopes

variable {ctx : RouteContext}

/-- The limiter of the dispatcher, if it has one, counts under `name`. -/
def ScopedAs (ctx : RouteContext) (s : ParseState) (dispatcher : Option Nat) (name : String) :
    Prop :=
  ∀ i, dispatcher = some i → ∃ built, s.dispatchers[i]? = some built ∧
    ∀ limit, built.userLimiter = some limit →
      limit.limiter = ⟨name, ctx.brokerId⟩ ∧ limit.shared = ctx.jobStore

theorem ScopedAs.grow {s t : ParseState} {dispatcher : Option Nat} {name : String}
    (within : ScopedAs ctx s dispatcher name) (grows : s.dispatchers <+: t.dispatchers) :
    ScopedAs ctx t dispatcher name := by
  intro i named
  obtain ⟨built, found, limits⟩ := within i named
  refine ⟨built, ?_, limits⟩
  obtain ⟨more, eq⟩ := grows
  rw [← eq, List.getElem?_append_left (List.getElem?_eq_some_iff.mp found).1]
  exact found

def scopeContract (ctx : RouteContext) : Contract where
  inv s := ∀ name resolved, s.resolvedTargets.lookup name = some resolved →
    ScopedAs ctx s resolved.dispatcher name
  grows s t := s.dispatchers <+: t.dispatchers
  ok s leaf := ScopedAs ctx s leaf.2.dispatcher leaf.1.name
  refl _ := List.prefix_rfl
  trans first second := first.trans second
  stable grows within := within.grow grows

theorem attachStep_scoped : AttachRule (scopeContract ctx) ctx fun t name built =>
    ScopedAs ctx t built.dispatcher name := by
  intro entryName actionName action settings silent s inv
  have grows := attachStep_grows ctx entryName actionName action settings silent s
  refine ⟨?_, grows.dispatchers, ?_⟩
  · intro name resolved cached
    rw [grows.cache] at cached
    exact (inv name resolved cached).grow grows.dispatchers
  · intro built finished i named
    obtain ⟨attached, made, isNext, dispatchers⟩ := attachStep_ok finished
    rw [isNext] at named
    obtain ⟨dispatcher, carried, rfl⟩ := Option.map_eq_some_iff.mp named
    refine ⟨dispatcher, ?_, ?_⟩
    · rw [dispatchers, carried]
      simp
    · intro limit isLimit
      rw [attachDispatcher_userLimiter made carried] at isLimit
      obtain ⟨cfg, _, rfl⟩ := Option.map_eq_some_iff.mp isLimit
      exact ⟨rfl, rfl⟩

theorem resolveTarget_scoped (name routeName : String) {s : ParseState}
    (inv : (scopeContract ctx).inv s) :
    Meets (scopeContract ctx) s (resolveTarget ctx name routeName) fun t built =>
      ScopedAs ctx t built.dispatcher name := by
  unfold resolveTarget
  have cached : Meets (scopeContract ctx) s (cachedTarget name) fun t found =>
      t = s ∧ found = s.resolvedTargets.lookup name := by
    refine ⟨inv, List.prefix_rfl, ?_⟩
    intro found eq
    exact ⟨rfl, (Except.ok.inj eq).symm⟩
  refine meets_bind cached ?_
  rintro t found inv' _ ⟨rfl, rfl⟩
  split
  next resolved known => exact meets_pure inv' (inv' name resolved known)
  next =>
    refine meets_bind (lookupEntry_meets inv' _ _ _ _) ?_
    rintro u entry inv'' _ ⟨rfl, _⟩
    refine meets_bind (actionFromEntry_meets attachStep_scoped "target" name entry inv'') ?_
    intro v built inv3 _ within
    split
    next resolved =>
      have stored : Meets (scopeContract ctx) v (cacheTarget name resolved) fun w _ =>
          ScopedAs ctx w resolved.dispatcher name := by
        refine ⟨?_, List.prefix_rfl, fun _ _ => within⟩
        intro other entry known
        simp only [cacheTarget, HashMap.lookup_insert_eq] at known
        split at known
        next same =>
          obtain rfl := Option.some.inj known
          subst same
          exact within
        next => exact inv3 other entry known
      refine meets_bind stored ?_
      intro w _ inv4 _ within'
      exact meets_pure inv4 within'
    next => exact meets_pure inv3 within

theorem resolveNamed_scoped (ns name routeName : String) {s : ParseState}
    (inv : (scopeContract ctx).inv s) :
    Meets (scopeContract ctx) s (resolveNamed ctx ns name routeName) fun t built =>
      ScopedAs ctx t built.dispatcher name := by
  unfold resolveNamed
  split
  · refine meets_bind (lookupEntry_meets inv _ _ _ _) ?_
    rintro t entry inv' _ ⟨rfl, _⟩
    exact actionFromEntry_meets attachStep_scoped ns name entry inv'
  · split
    · refine meets_bind (lookupEntry_meets inv _ _ _ _) ?_
      rintro t entry inv' _ ⟨rfl, _⟩
      exact actionFromEntry_meets attachStep_scoped ns name entry inv'
    · split
      · exact resolveTarget_scoped name routeName inv
      · exact meets_fail inv _

theorem scopeRules (ctx : RouteContext) : LeafRules (scopeContract ctx) ctx where
  named name routeName s inv := by
    unfold parseReference
    split
    · exact meets_fail inv _
    · split
      · exact meets_fail inv _
      next ns entryName _ =>
        refine meets_bind (resolveNamed_scoped ns entryName routeName inv) ?_
        intro t built inv' _ within
        refine meets_pure inv' ?_
        intro leaf inside
        simp only [ParsedStep.leaves, List.mem_singleton] at inside
        subst inside
        exact within
  inline routeName fields s inv := by
    unfold parseObject
    split
    · exact meets_fail inv _
    next key ns actionName config _ =>
      refine meets_bind (parseInline_meets attachStep_scoped routeName key ns actionName config
        fields inv) ?_
      intro t built inv' _ within
      refine meets_pure inv' ?_
      intro leaf inside
      simp only [ParsedStep.leaves, List.mem_singleton] at inside
      subst inside
      exact within

end Scopes

/-- An admission is named after the dispatcher and the user it is for. -/
abbrev DispatcherName : Type := Nat × String × Nat

def ParseState.limit (s : ParseState) (dispatcher : Nat) : Option UserLimit :=
  s.dispatchers[dispatcher]?.bind AnyDispatcher.userLimiter

def ParseState.scope (s : ParseState) (dispatcher : Nat) : String :=
  ((s.limit dispatcher).map (·.limiter.scope)).getD ""

/-- The limiters of any number of brokers that run the configuration; `copies` says which
dispatcher a limiter belongs to and on which broker it is. -/
def ParseState.replicas (s : ParseState) (copies : Nat → Nat × String) (i : Nat) : UserLimiter :=
  ⟨s.scope (copies i).1, (copies i).2⟩

/-- Each submission is to a limiter of the dispatcher it is named after, with a key and a ceiling
that the limit of this dispatcher resolves. -/
def SubmittedOn (s : ParseState) (copies : Nat → Nat × String) (_ : History DispatcherName) :
    HistoryAction DispatcherName → Prop
  | .submit name limiter key _ max => (copies limiter).1 = name.1 ∧ key = name.2.1 ∧
      ∃ limit user, s.limit name.1 = some limit ∧ limit.config.resolve user = some (key, max)
  | _ => True

def History.decidedOn (h : History DispatcherName) (dispatcher : Nat) :
    List (DispatcherName × Bool) :=
  h.decided.filter fun entry => entry.1.1 = dispatcher

/-- Whatever is submitted to the dispatcher `first`, the decisions of `second` are the same. -/
def Isolated (shared : Bool) (s : ParseState) (first second : Nat) : Prop :=
  ∀ (copies : Nat → Nat × String) (now : Nat) (lefts rights : List (HistoryAction DispatcherName))
    (left right : History DispatcherName),
    Path (historyStep shared (s.replicas copies)) (SubmittedOn s copies)
      (History.new DispatcherName now) lefts left →
    Path (historyStep shared (s.replicas copies)) (SubmittedOn s copies)
      (History.new DispatcherName now) rights right →
    lefts.filter (·.shown fun name => name.1 ≠ first) =
      rights.filter (·.shown fun name => name.1 ≠ first) →
    left.decidedOn second = right.decidedOn second

/-- The limit gives some user with this key a ceiling above zero. -/
def UserLimitConfig.Gives (cfg : UserLimitConfig) (key : String) : Prop :=
  ∃ (user : Json) (max : Nat), cfg.resolve user = some (key, max) ∧ 0 < max

section Isolation

variable {shared : Bool} {s : ParseState} {first second : Nat} {limit other : UserLimit}

open Classical in
theorem isolated_of_scopes (isLimit : s.limit first = some limit)
    (isOther : s.limit second = some other) (distinct : first ≠ second)
    (apart : s.scope first ≠ s.scope second ∨
      ∀ key, ¬ (limit.config.Gives key ∧ other.config.Gives key)) :
    Isolated shared s first second := by
  intro copies now lefts rights left right path path' same
  let channel : String → String → Prop := fun scope key =>
    scope = s.scope second ∧ other.config.Gives key
  let seen : DispatcherName → Bool := fun name => decide (name.1 ≠ first ∧
    (name.1 = second ∨ s.scope name.1 = s.scope second ∧ other.config.Gives name.2.1))
  have gives : ∀ {cfg : UserLimitConfig} {user : Json} {key : String} {max : Nat},
      cfg.resolve user = some (key, max) → max = 0 ∨ cfg.Gives key := by
    intro cfg user key max resolved
    by_cases zero : max = 0
    · exact Or.inl zero
    · exact Or.inr ⟨user, max, resolved, by omega⟩
  have divides : ∀ h action, SubmittedOn s copies h action →
      Divides (s.replicas copies) seen channel h action := by
    intro h action permitted
    cases action with
    | advance | event | release => trivial
    | submit name limiter key jobId max =>
        obtain ⟨here, rfl, found, user, isFound, resolved⟩ := permitted
        have scope : (s.replicas copies limiter).scope = s.scope name.1 := by
          rw [ParseState.replicas, here]
        rcases gives resolved with zero | given
        · exact Or.inl zero
        · refine Or.inr ?_
          simp only [scope, seen, channel, decide_eq_true_eq]
          by_cases isFirst : name.1 = first
          · rw [isFirst, isLimit, Option.some.injEq] at isFound
            subst isFound
            rw [isFirst]
            constructor
            · rintro ⟨notFirst, _⟩
              exact absurd rfl notFirst
            · rintro ⟨sameScope, alsoGiven⟩
              rcases apart with scopes | keys
              · exact absurd sameScope scopes
              · exact absurd ⟨given, alsoGiven⟩ (keys _)
          · by_cases isSecond : name.1 = second
            · rw [isSecond, isOther, Option.some.injEq] at isFound
              subst isFound
              simp [isSecond, given, Ne.symm distinct]
            · simp [isFirst, isSecond]
  refine decided_unaffected (fun name => name.1 ≠ first) (fun name => name.1 = second) divides
    ?_ ?_ path path' same
  · intro name isSeen
    exact decide_eq_true (of_decide_eq_true isSeen).1
  · intro name isSecond
    have eq := of_decide_eq_true isSecond
    exact decide_eq_true ⟨eq ▸ Ne.symm distinct, Or.inl eq⟩

theorem ScopedAs.scope {ctx : RouteContext} {name : String}
    (within : ScopedAs ctx s (some first) name) (isLimit : s.limit first = some limit) :
    s.scope first = name := by
  obtain ⟨built, found, limits⟩ := within first rfl
  have limiter : built.userLimiter = some limit := by
    rwa [ParseState.limit, found, Option.bind_some] at isLimit
  rw [ParseState.scope, isLimit]
  simp [(limits limit limiter).1]

theorem historyStep_unshared (limiters others : Nat → UserLimiter) :
    historyStep (T := DispatcherName) false limiters = historyStep false others := by
  funext h action
  cases action <;> rfl

/-- Without a store the limiters of different dispatchers have nothing in common. -/
theorem isolated_unshared (distinct : first ≠ second) : Isolated false s first second := by
  intro copies now lefts rights left right path path' same
  rw [historyStep_unshared _ fun i => ⟨jobOf (copies i).1, ""⟩] at path path'
  let seen : DispatcherName → Bool := fun name => decide (name.1 = second)
  let channel : String → String → Prop := fun scope _ => scope = jobOf second
  have divides : ∀ h action, SubmittedOn s copies h action →
      Divides (fun i => ⟨jobOf (copies i).1, ""⟩) seen channel h action := by
    intro h action permitted
    cases action with
    | advance | event | release => trivial
    | submit name limiter key jobId max =>
        obtain ⟨here, _⟩ := permitted
        refine Or.inr ?_
        simp only [seen, channel, here, decide_eq_true_eq]
        exact ⟨fun same => congrArg jobOf same, jobOf_inj⟩
  refine decided_unaffected (fun name => name.1 ≠ first) (fun name => name.1 = second) divides
    ?_ ?_ path path' same
  · intro name isSeen
    have isSecond : name.1 = second := of_decide_eq_true isSeen
    exact decide_eq_true (isSecond ▸ Ne.symm distinct)
  · exact fun _ isSecond => isSecond

/-- Dispatchers that count in the store under one scope share the slots of every user that both
of them limit. -/
theorem not_isolated (isLimit : s.limit first = some limit) (isOther : s.limit second = some other)
    (distinct : first ≠ second) (sameScope : s.scope first = s.scope second) {key : String}
    (given : limit.config.Gives key) (alsoGiven : other.config.Gives key) :
    ¬ Isolated true s first second := by
  intro isolated
  obtain ⟨user, taken, resolved, takes⟩ := given
  obtain ⟨another, max, otherResolved, positive⟩ := alsoGiven
  let copies : Nat → Nat × String := fun i => if i = 0 then (first, "") else (second, "")
  have numbered : Function.Injective fun i : Nat => ((second, key, i) : DispatcherName) := by
    intro i j same
    exact (Prod.mk.inj (Prod.mk.inj same).2).2
  have apart : ∀ i : Nat, ((second, key, i) : DispatcherName) ≠ (first, key, 0) := by
    intro i same
    exact distinct (Prod.mk.inj same).1.symm
  obtain ⟨before, after, left, right, path, alone, unseen, ⟨i, rejected⟩, admitted⟩ :=
    admission_shows true (s.replicas copies) 0 0 1 (first, key, 0) (fun i => (second, key, i))
      (SubmittedOn s copies) sameScope (fun shared => absurd shared (by decide)) numbered apart takes
      positive (fun _ _ => ⟨rfl, rfl, limit, user, isLimit, resolved⟩)
      (fun _ _ _ => ⟨rfl, rfl, other, another, isOther, otherResolved⟩) (fun _ _ _ => trivial)
  have same := isolated copies 0 _ _ left right path alone
    (by rw [List.filter_append, unseen _ (by simp), List.nil_append])
  have listed : ((second, key, i), false) ∈ left.decidedOn second := by
    simp [History.decidedOn, rejected]
  rw [same] at listed
  have contrary := admitted _ (List.mem_filter.mp listed).1
  cases contrary

end Isolation

/-- The limited dispatchers of two steps are isolated from each other exactly if there is no store,
the steps are configured under different names, or their limits have no user in common. -/
theorem dispatchers_isolated {ctx : RouteContext} {section_ : String} {value : Json}
    {routes : List ParsedRoute} {s : ParseState}
    (accepted : parseRoutes ctx section_ value (ParseState.new ∅) = (.ok routes, s))
    {first second : StepName × StepAction} (firstIn : first ∈ routesLeaves routes)
    (secondIn : second ∈ routesLeaves routes) {i j : Nat}
    (firstHas : first.2.dispatcher = some i) (secondHas : second.2.dispatcher = some j)
    (distinct : i ≠ j) {limit other : UserLimit} (isLimit : s.limit i = some limit)
    (isOther : s.limit j = some other) :
    Isolated ctx.jobStore s i j ↔ ctx.jobStore = false ∨ first.1.name ≠ second.1.name ∨
      ∀ key, ¬ (limit.config.Gives key ∧ other.config.Gives key) := by
  have empty : (scopeContract ctx).inv (ParseState.new ∅) := by
    intro name resolved cached
    simp [ParseState.new] at cached
  have meets := parseRoutes_meets (scopeRules ctx) section_ (ParseState.new ∅) empty value
  have leaves := meets.result routes (by rw [accepted])
  rw [accepted] at leaves
  have firstScope := leaves first firstIn
  have secondScope := leaves second secondIn
  simp only [scopeContract, firstHas, secondHas] at firstScope secondScope
  have firstName := firstScope.scope isLimit
  have secondName := secondScope.scope isOther
  constructor
  · intro isolated
    by_contra together
    push Not at together
    obtain ⟨store, sameName, key, given, alsoGiven⟩ := together
    rw [eq_true_of_ne_false store] at isolated
    have sameScope : s.scope i = s.scope j := firstName.trans (sameName.trans secondName.symm)
    exact not_isolated isLimit isOther distinct sameScope given alsoGiven isolated
  · rintro (unshared | apart)
    · rw [unshared]
      exact isolated_unshared distinct
    · refine isolated_of_scopes isLimit isOther distinct ?_
      rw [firstName, secondName]
      exact apart

def submittedBy (user : Json) (s : ParseState) (copies : Nat → Nat × String)
    (_ : History DispatcherName) : HistoryAction DispatcherName → Bool
  | .submit name limiter key _ max => decide ((copies limiter).1 = name.1) &&
      decide (key = name.2.1) &&
      (s.limit name.1).any fun limit => decide (limit.config.resolve user = some (key, max))
  | _ => true

theorem submittedBy_sound {user : Json} {s : ParseState} {copies : Nat → Nat × String}
    (h : History DispatcherName) (action : HistoryAction DispatcherName)
    (checked : submittedBy user s copies h action = true) : SubmittedOn s copies h action := by
  cases action with
  | advance | event | release => trivial
  | submit name limiter key jobId max =>
      simp only [submittedBy, Bool.and_eq_true, decide_eq_true_eq] at checked
      obtain ⟨⟨here, rfl⟩, resolves⟩ := checked
      obtain ⟨limit, isLimit, resolved⟩ := (Option.any_eq_true _ _).mp resolves
      exact ⟨here, rfl, limit, user, isLimit, of_decide_eq_true resolved⟩

namespace Scenario

def caller : Json :=
  .object [("auth", .object [("realm", .string "realm"), ("username", .string "alice")])]

def callerKey : String := "realm\x1falice"

def oneAtATime : String × Json :=
  ("dispatcher", .object [("user_limit", .object [("max", .number (.posInt 1))])])

/-- A context with a store and the built-in target over HTTP. -/
def withTargets (targets : HashMap String Json) : RouteContext where
  workerServer := none
  jobStore := true
  brokerId := "site-env-0"
  tryFromSecsF64 := fun _ => .error "unused"
  registries := ⟨∅, ∅, targets⟩
  createAction := fun name config =>
    if name = "http" then createHttp config
    else .error s!"Unknown action: '{name}'. Available actions: [http, remote]"
  render := fun _ => ""

def twoNamed : RouteContext :=
  let entry : Json := .object [oneAtATime, ("type", .string "http"), url]
  withTargets (AList.insert "near" entry (AList.insert "far" entry ∅))

def namedRoutes : Json :=
  .array [.object [("first", .array [.string "target::near"])],
    .object [("second", .array [.string "target::far"])]]

def inlineRoutes : Json :=
  .array [.object [("first", .array [.object [oneAtATime, ("target::http", .object [url])]])],
    .object [("second", .array [.object [oneAtATime, ("target::http", .object [url])]])]]

/-- The leaves of accepted routes that also pass the validation of the top level. -/
def acceptedLeaves (ctx : RouteContext) (value : Json) : Option (List (StepName × Option Nat)) :=
  match (parseRoutes ctx "routes" value (ParseState.new ∅)).1 with
  | .error _ => none
  | .ok routes => match validateRoutes routes with
      | .error _ => none
      | .ok () => some ((routesLeaves routes).map fun leaf => (leaf.1, leaf.2.dispatcher))

def configured (ctx : RouteContext) (value : Json) : ParseState :=
  (parseRoutes ctx "routes" value (ParseState.new ∅)).2

theorem acceptedLeaves_some {ctx : RouteContext} {value : Json}
    {leaves : List (StepName × Option Nat)} (accepted : acceptedLeaves ctx value = some leaves) :
    ∃ routes, parseRoutes ctx "routes" value (ParseState.new ∅) =
        (.ok routes, configured ctx value) ∧ validateRoutes routes = .ok () ∧
      ∀ written dispatcher, (written, dispatcher) ∈ leaves →
        ∃ leaf ∈ routesLeaves routes, leaf.1 = written ∧ leaf.2.dispatcher = dispatcher := by
  unfold acceptedLeaves at accepted
  split at accepted
  · simp at accepted
  next routes parsed =>
    split at accepted
    · simp at accepted
    next valid =>
      obtain rfl := Option.some.inj accepted
      refine ⟨routes, ?_, valid, ?_⟩
      · rw [configured, ← parsed]
      · intro written dispatcher inside
        obtain ⟨leaf, member, eq⟩ := List.mem_map.mp inside
        exact ⟨leaf, member, (Prod.mk.inj eq).1, (Prod.mk.inj eq).2⟩

def oneCopy (i : Nat) : Nat × String := (i, "site-env-0")

def submitsTo (dispatcher : Nat) : List (HistoryAction DispatcherName) :=
  .submit (dispatcher, callerKey, 0) dispatcher callerKey s!"job-{dispatcher}" 1 ::
    List.replicate 3 (.event (dispatcher, callerKey, 0) .step)

def decidesOn (s : ParseState) (actions : List (HistoryAction DispatcherName)) :
    Option (History DispatcherName) :=
  run (fun h action => if submittedBy caller s oneCopy h action then
    historyStep true (s.replicas oneCopy) h action else none) (History.new DispatcherName 0) actions

end Scenario

open Scenario in
theorem dispatchers_isolated_named :
    ∃ routes, parseRoutes twoNamed "routes" namedRoutes (ParseState.new ∅) =
        (.ok routes, configured twoNamed namedRoutes) ∧
      Isolated true (configured twoNamed namedRoutes) 0 1 ∧
      (decidesOn (configured twoNamed namedRoutes) (submitsTo 0 ++ submitsTo 1)).any (fun h =>
        decide (h.decidedOn 1 = [((1, callerKey, 0), true)])) = true := by
  have accepted : acceptedLeaves twoNamed namedRoutes =
      some [(⟨false, "target", "near"⟩, some 0), (⟨false, "target", "far"⟩, some 1)] := by
    decide +kernel
  obtain ⟨routes, parsed, _, leaves⟩ := acceptedLeaves_some accepted
  obtain ⟨first, firstIn, firstNamed, firstHas⟩ :=
    leaves ⟨false, "target", "near"⟩ (some 0) (by simp)
  obtain ⟨second, secondIn, secondNamed, secondHas⟩ :=
    leaves ⟨false, "target", "far"⟩ (some 1) (by simp)
  have limited : ((configured twoNamed namedRoutes).limit 0).isSome = true ∧
      ((configured twoNamed namedRoutes).limit 1).isSome = true := by decide +kernel
  obtain ⟨limit, isLimit⟩ := Option.isSome_iff_exists.mp limited.1
  obtain ⟨other, isOther⟩ := Option.isSome_iff_exists.mp limited.2
  refine ⟨routes, parsed, ?_, by decide +kernel⟩
  refine (dispatchers_isolated parsed firstIn secondIn firstHas secondHas (by decide) isLimit
    isOther).mpr (Or.inr (Or.inl ?_))
  rw [firstNamed, secondNamed]
  decide

open Scenario in
/-- The two inline steps count under the name of the action, which is the same. -/
theorem inline_steps_share_scope :
    ¬ ∀ (ctx : RouteContext) (value : Json) (routes : List ParsedRoute) (s : ParseState),
        ctx.jobStore = true →
        parseRoutes ctx "routes" value (ParseState.new ∅) = (.ok routes, s) →
        validateRoutes routes = .ok () →
        ∀ first ∈ routesLeaves routes, ∀ second ∈ routesLeaves routes, ∀ i j,
          first.2.dispatcher = some i → second.2.dispatcher = some j → i ≠ j →
          (s.limit i).isSome = true → (s.limit j).isSome = true →
          Isolated ctx.jobStore s i j := by
  intro claimed
  have accepted : acceptedLeaves (withTargets ∅) inlineRoutes =
      some [(⟨true, "target", "http"⟩, some 0), (⟨true, "target", "http"⟩, some 1)] := by
    decide +kernel
  obtain ⟨routes, parsed, valid, leaves⟩ := acceptedLeaves_some accepted
  obtain ⟨first, firstIn, _, firstHas⟩ := leaves ⟨true, "target", "http"⟩ (some 0) (by simp)
  obtain ⟨second, secondIn, _, secondHas⟩ := leaves ⟨true, "target", "http"⟩ (some 1) (by simp)
  have limited : ((configured (withTargets ∅) inlineRoutes).limit 0).isSome = true ∧
      ((configured (withTargets ∅) inlineRoutes).limit 1).isSome = true := by decide +kernel
  have isolated := claimed (withTargets ∅) inlineRoutes routes _ rfl parsed valid first firstIn
    second secondIn 0 1 firstHas secondHas (by decide) limited.1 limited.2
  have ran : (decidesOn (configured (withTargets ∅) inlineRoutes)
        (submitsTo 0 ++ submitsTo 1)).any (fun h =>
          decide (h.decidedOn 1 = [((1, callerKey, 0), false)])) = true ∧
      (decidesOn (configured (withTargets ∅) inlineRoutes) (submitsTo 1)).any (fun h =>
        decide (h.decidedOn 1 = [((1, callerKey, 0), true)])) = true := by decide +kernel
  obtain ⟨left, leftRan, rejected⟩ := (Option.any_eq_true _ _).mp ran.1
  obtain ⟨right, rightRan, admitted⟩ := (Option.any_eq_true _ _).mp ran.2
  have same := isolated oneCopy 0 _ _ left right
    (Path.of_run_if submittedBy_sound _ _ leftRan) (Path.of_run_if submittedBy_sound _ _ rightRan)
    (by decide)
  rw [of_decide_eq_true rejected, of_decide_eq_true admitted] at same
  simp at same

end BitsBroker
