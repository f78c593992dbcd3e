import BitsBroker.Config.Routes

/-!
Rules for what the parser of routes keeps. A `Contract` has an invariant of the parser's
state, an order of states in which the state only grows, and a property of single steps
that is not lost when the state grows. If the parsers of single steps meet the contract,
then so does the parser of a whole tree of routes, for every step in it.
-/

namespace BitsBroker

mutual

def ParsedRoute.leaves : ParsedRoute → List (StepName × StepAction)
  | .mk _ steps => stepsLeaves steps

def stepsLeaves : List ParsedStep → List (StepName × StepAction)
  | [] => []
  | step :: rest => step.leaves ++ stepsLeaves rest

def ParsedStep.leaves : ParsedStep → List (StepName × StepAction)
  | .action written action => [(written, action)]
  | .switch routes => routesLeaves routes

/-- The steps of routes, those of nested switches included. -/
def routesLeaves : List ParsedRoute → List (StepName × StepAction)
  | [] => []
  | route :: rest => route.leaves ++ routesLeaves rest

end

mutual

/-- The references among the actions of routes, those of nested switches included. -/
def routesReferences : Json → List String
  | .array entries => entriesReferences entries
  | _ => []

def entriesReferences : List Json → List String
  | [] => []
  | entry :: rest => entryReferences entry ++ entriesReferences rest

def entryReferences : Json → List String
  | .object fields => namedRouteReferences fields
  | _ => []

def namedRouteReferences : List (String × Json) → List String
  | [] => []
  | (_, value) :: rest => if rest.isEmpty then routeValueReferences value else []

def routeValueReferences : Json → List String
  | .array actions => actionsReferences actions
  | _ => []

def actionsReferences : List Json → List String
  | [] => []
  | value :: rest => actionReferences value ++ actionsReferences rest

def actionReferences : Json → List String
  | .string name => [name]
  | .object fields => switchReferences fields
  | _ => []

def switchReferences : List (String × Json) → List String
  | [] => []
  | (key, value) :: rest =>
      if key = "switch" then routesReferences value else switchReferences rest

end

/-- The entry that a reference stands for. -/
def Registries.entry (registries : Registries) (ns name : String) : Option Json :=
  if ns = "check" then registries.checks.lookup name
  else if ns = "transform" then registries.transforms.lookup name
  else if ns = "target" then registries.targets.lookup name
  else none

structure Contract where
  inv : ParseState → Prop
  grows : ParseState → ParseState → Prop
  ok : ParseState → StepName × StepAction → Prop
  refl (s : ParseState) : grows s s
  trans {s t u : ParseState} : grows s t → grows t u → grows s u
  stable {s t : ParseState} {leaf : StepName × StepAction} : grows s t → ok s leaf → ok t leaf

/-- What `parse` does from the state `s`. -/
structure Meets (c : Contract) {A : Type} (s : ParseState) (parse : ParseM A)
    (post : ParseState → A → Prop) : Prop where
  inv : c.inv (parse s).2
  grows : c.grows s (parse s).2
  result (value : A) : (parse s).1 = .ok value → post (parse s).2 value

section Rules

variable {c : Contract} {A B : Type} {s : ParseState}

theorem meets_pure (inv : c.inv s) {post : ParseState → A → Prop} {value : A}
    (holds : post s value) : Meets c s (ParseM.pure value) post where
  inv := inv
  grows := c.refl s
  result found eq := by
    simp only [ParseM.pure, Except.ok.injEq] at eq
    exact eq ▸ holds

theorem meets_fail (inv : c.inv s) {post : ParseState → A → Prop} (error : ParseError) :
    Meets c s (ParseM.fail error) post where
  inv := inv
  grows := c.refl s
  result found eq := by simp [ParseM.fail] at eq

theorem ParseM.bind_eq (first : ParseM A) (second : A → ParseM B) (s : ParseState) :
    ParseM.bind first second s = match (first s).1 with
      | .ok value => second value (first s).2
      | .error error => (.error error, (first s).2) := by
  unfold ParseM.bind
  rcases first s with ⟨answer, next⟩
  cases answer <;> rfl

theorem meets_bind {first : ParseM A} {second : A → ParseM B} {mid : ParseState → A → Prop}
    {post : ParseState → B → Prop} (meets : Meets c s first mid)
    (then_ : ∀ t value, c.inv t → c.grows s t → mid t value → Meets c t (second value) post) :
    Meets c s (first >>= second) post := by
  obtain ⟨inv, grows, result⟩ := meets
  change Meets c s (ParseM.bind first second) post
  cases answer : (first s).1 with
  | error error =>
      have bound : ParseM.bind first second s = (.error error, (first s).2) := by
        rw [ParseM.bind_eq, answer]
      exact ⟨bound ▸ inv, bound ▸ grows, by simp [bound]⟩
  | ok value =>
      have bound : ParseM.bind first second s = second value (first s).2 := by
        rw [ParseM.bind_eq, answer]
      obtain ⟨invThen, growsThen, resultThen⟩ :=
        then_ (first s).2 value inv grows (result value answer)
      exact ⟨bound ▸ invThen, bound ▸ c.trans grows growsThen, bound ▸ resultThen⟩

theorem meets_lift (inv : c.inv s) (value : Except ConfigError A) :
    Meets c s (ParseM.lift value) fun t found => t = s ∧ value = .ok found where
  inv := inv
  grows := c.refl s
  result found eq := by
    refine ⟨rfl, ?_⟩
    cases value with
    | error error => simp [ParseM.lift, Except.mapError] at eq
    | ok value => simpa [ParseM.lift, Except.mapError] using eq

theorem Meets.weaken {parse : ParseM A} {post weaker : ParseState → A → Prop}
    (meets : Meets c s parse post) (imp : ∀ t value, post t value → weaker t value) :
    Meets c s parse weaker where
  inv := meets.inv
  grows := meets.grows
  result value eq := imp _ _ (meets.result value eq)

end Rules

section Entries

variable {c : Contract} {ctx : RouteContext} {post : ParseState → String → StepAction → Prop}

theorem parseSilent_meets {s : ParseState} (inv : c.inv s) (fields : List (String × Json))
    (refuse : ParseError) : Meets c s (parseSilent fields refuse) fun t _ => t = s := by
  unfold parseSilent
  split
  · exact meets_pure inv rfl
  · exact meets_pure inv rfl
  · exact meets_fail inv _

/-- What is attached under a name meets the contract. -/
def AttachRule (c : Contract) (ctx : RouteContext)
    (post : ParseState → String → StepAction → Prop) : Prop :=
  ∀ (entryName actionName : String) (action : Action) (settings : DispatcherSettings)
    (silent : Option Bool) (s : ParseState), c.inv s →
    Meets c s (attachStep ctx entryName actionName action settings silent) fun t built =>
      post t entryName built

theorem actionFromEntry_meets (attach : AttachRule c ctx post) (ns entryName : String)
    (entry : Json) {s : ParseState} (inv : c.inv s) :
    Meets c s (actionFromEntry ctx ns entryName entry) fun t built => post t entryName built := by
  unfold actionFromEntry
  split
  · exact meets_fail inv _
  next fields _ =>
    split
    · exact meets_fail inv _
    · split
      · exact meets_fail inv _
      · refine meets_bind (meets_lift inv _) ?_
        rintro t settings inv' _ ⟨rfl, _⟩
        refine meets_bind (parseSilent_meets inv' fields _) ?_
        rintro u silent inv'' _ rfl
        dsimp only
        split
        · exact meets_fail inv'' _
        · exact attach _ _ _ _ _ _ inv''

theorem parseInline_meets (attach : AttachRule c ctx post) (routeName key ns actionName : String)
    (config : Json) (fields : List (String × Json)) {s : ParseState} (inv : c.inv s) :
    Meets c s (parseInline ctx routeName key ns actionName config fields) fun t built =>
      post t actionName built := by
  unfold parseInline
  split
  · exact meets_fail inv _
  · split
    · exact meets_fail inv _
    · split
      · refine meets_bind (meets_lift inv _) ?_
        rintro t settings inv' _ ⟨rfl, _⟩
        refine meets_bind (parseSilent_meets inv' fields _) ?_
        rintro u silent inv'' _ rfl
        exact attach _ _ _ _ _ _ inv''
      · exact meets_fail inv _

theorem lookupEntry_meets {s : ParseState} (inv : c.inv s) (entries : HashMap String Json)
    (ns name routeName : String) :
    Meets c s (lookupEntry entries ns name routeName) fun t entry =>
      t = s ∧ entries.lookup name = some entry := by
  unfold lookupEntry
  split
  next entry found => exact meets_pure inv ⟨rfl, found⟩
  · exact meets_fail inv _

end Entries

section Trees

variable {c : Contract} {ctx : RouteContext}

def LeavesOk (c : Contract) (s : ParseState) (leaves : List (StepName × StepAction)) : Prop :=
  ∀ leaf ∈ leaves, c.ok s leaf

theorem LeavesOk.grow {s t : ParseState} {leaves : List (StepName × StepAction)}
    (ok : LeavesOk c s leaves) (grows : c.grows s t) : LeavesOk c t leaves :=
  fun leaf inside => c.stable grows (ok leaf inside)

theorem LeavesOk.append {s : ParseState} {firsts rest : List (StepName × StepAction)}
    (first : LeavesOk c s firsts) (second : LeavesOk c s rest) : LeavesOk c s (firsts ++ rest) := by
  intro leaf inside
  rcases List.mem_append.mp inside with before | after
  · exact first leaf before
  · exact second leaf after

/-- The parser of the reference `name` meets the contract. -/
def ReferenceRule (c : Contract) (ctx : RouteContext) (name : String) : Prop :=
  ∀ (routeName : String) (s : ParseState), c.inv s →
    Meets c s (parseReference ctx name routeName) fun t step => LeavesOk c t step.leaves

/-- The parser of inline steps meets the contract. -/
def InlineRule (c : Contract) (ctx : RouteContext) : Prop :=
  ∀ (routeName : String) (fields : List (String × Json)) (s : ParseState), c.inv s →
    Meets c s (parseObject ctx routeName fields) fun t step => LeavesOk c t step.leaves

/-- The parsers of single steps meet the contract. -/
structure LeafRules (c : Contract) (ctx : RouteContext) : Prop where
  named (name : String) : ReferenceRule c ctx name
  inline : InlineRule c ctx

mutual

/-- It is enough that the rule holds for the references that are written in the routes. -/
theorem parseRoutes_meets_of_references (inline : InlineRule c ctx) (section_ : String)
    (s : ParseState) (inv : c.inv s) :
    ∀ value : Json, (∀ name ∈ routesReferences value, ReferenceRule c ctx name) →
      Meets c s (parseRoutes ctx section_ value) fun t routes => LeavesOk c t (routesLeaves routes)
  | .array entries, rules => by
      rw [parseRoutes]
      rw [routesReferences] at rules
      exact parseEntries_meets inline section_ 0 s inv entries rules
  | .null, _ => meets_fail inv _
  | .bool _, _ => meets_fail inv _
  | .number _, _ => meets_fail inv _
  | .string _, _ => meets_fail inv _
  | .object _, _ => meets_fail inv _

theorem parseEntries_meets (inline : InlineRule c ctx) (section_ : String) (index : Nat)
    (s : ParseState) (inv : c.inv s) :
    ∀ entries : List Json, (∀ name ∈ entriesReferences entries, ReferenceRule c ctx name) →
      Meets c s (parseEntries ctx section_ index entries) fun t routes =>
        LeavesOk c t (routesLeaves routes)
  | [], _ => meets_pure inv (fun leaf inside => by simp [routesLeaves] at inside)
  | entry :: rest, rules => by
      rw [parseEntries]
      rw [entriesReferences, List.forall_mem_append] at rules
      refine meets_bind (parseEntry_meets inline section_ index s inv entry rules.1) ?_
      intro t route inv' _ first
      refine meets_bind (parseEntries_meets inline section_ (index + 1) t inv' rest rules.2) ?_
      intro u routes inv'' grows second
      refine meets_pure inv'' ?_
      rw [routesLeaves]
      exact (first.grow grows).append second

theorem parseEntry_meets (inline : InlineRule c ctx) (section_ : String) (index : Nat)
    (s : ParseState) (inv : c.inv s) :
    ∀ entry : Json, (∀ name ∈ entryReferences entry, ReferenceRule c ctx name) →
      Meets c s (parseEntry ctx section_ index entry) fun t route => LeavesOk c t route.leaves
  | .object fields, rules => by
      rw [parseEntry]
      rw [entryReferences] at rules
      exact parseNamedRoute_meets inline section_ index s inv fields rules
  | .null, _ => meets_fail inv _
  | .bool _, _ => meets_fail inv _
  | .number _, _ => meets_fail inv _
  | .string _, _ => meets_fail inv _
  | .array _, _ => meets_fail inv _

theorem parseNamedRoute_meets (inline : InlineRule c ctx) (section_ : String) (index : Nat)
    (s : ParseState) (inv : c.inv s) :
    ∀ fields : List (String × Json),
      (∀ name ∈ namedRouteReferences fields, ReferenceRule c ctx name) →
      Meets c s (parseNamedRoute ctx section_ index fields) fun t route =>
        LeavesOk c t route.leaves
  | [], _ => meets_fail inv _
  | (name, value) :: rest, rules => by
      rw [parseNamedRoute]
      rw [namedRouteReferences] at rules
      split
      next only =>
        rw [if_pos only] at rules
        exact parseRouteValue_meets inline section_ name s inv value rules
      · exact meets_fail inv _

theorem parseRouteValue_meets (inline : InlineRule c ctx) (section_ name : String)
    (s : ParseState) (inv : c.inv s) :
    ∀ value : Json, (∀ name ∈ routeValueReferences value, ReferenceRule c ctx name) →
      Meets c s (parseRouteValue ctx section_ name value) fun t route => LeavesOk c t route.leaves
  | .array actions, rules => by
      rw [parseRouteValue]
      rw [routeValueReferences] at rules
      refine meets_bind (parseActions_meets inline name s inv actions rules) ?_
      intro t steps inv' _ ok
      exact meets_pure inv' (by rwa [ParsedRoute.leaves])
  | .null, _ => meets_fail inv _
  | .bool _, _ => meets_fail inv _
  | .number _, _ => meets_fail inv _
  | .string _, _ => meets_fail inv _
  | .object _, _ => meets_fail inv _

theorem parseActions_meets (inline : InlineRule c ctx) (routeName : String) (s : ParseState)
    (inv : c.inv s) :
    ∀ actions : List Json, (∀ name ∈ actionsReferences actions, ReferenceRule c ctx name) →
      Meets c s (parseActions ctx routeName actions) fun t steps =>
        LeavesOk c t (stepsLeaves steps)
  | [], _ => meets_pure inv (fun leaf inside => by simp [stepsLeaves] at inside)
  | value :: rest, rules => by
      rw [parseActions]
      rw [actionsReferences, List.forall_mem_append] at rules
      refine meets_bind (parseAction_meets inline routeName s inv value rules.1) ?_
      intro t step inv' _ first
      refine meets_bind (parseActions_meets inline routeName t inv' rest rules.2) ?_
      intro u steps inv'' grows second
      refine meets_pure inv'' ?_
      rw [stepsLeaves]
      exact (first.grow grows).append second

theorem parseAction_meets (inline : InlineRule c ctx) (routeName : String) (s : ParseState)
    (inv : c.inv s) :
    ∀ value : Json, (∀ name ∈ actionReferences value, ReferenceRule c ctx name) →
      Meets c s (parseAction ctx routeName value) fun t step => LeavesOk c t step.leaves
  | .string name, rules => by
      rw [actionReferences, List.forall_mem_singleton] at rules
      exact rules routeName s inv
  | .object fields, rules => by
      rw [parseAction]
      rw [actionReferences] at rules
      cases found : parseSwitch ctx fields with
      | none => exact inline routeName fields s inv
      | some switch =>
          refine meets_bind (parseSwitch_meets inline fields switch rules found s inv) ?_
          intro t routes inv' _ ok
          cases validateRoutes routes with
          | ok => exact meets_pure inv' (by rwa [ParsedStep.leaves])
          | error e => exact meets_fail inv' _
  | .null, _ => meets_fail inv _
  | .bool _, _ => meets_fail inv _
  | .number _, _ => meets_fail inv _
  | .array _, _ => meets_fail inv _

theorem parseSwitch_meets (inline : InlineRule c ctx) :
    ∀ (fields : List (String × Json)) (switch : ParseM (List ParsedRoute)),
      (∀ name ∈ switchReferences fields, ReferenceRule c ctx name) →
      parseSwitch ctx fields = some switch → ∀ s, c.inv s →
        Meets c s switch fun t routes => LeavesOk c t (routesLeaves routes)
  | [], switch, _, found, s, inv => by simp [parseSwitch] at found
  | (key, value) :: rest, switch, rules, found, s, inv => by
      rw [parseSwitch] at found
      rw [switchReferences] at rules
      split at found
      next isSwitch =>
        rw [if_pos isSwitch] at rules
        obtain rfl := Option.some.inj found
        exact parseRoutes_meets_of_references inline "switch" s inv value rules
      next other =>
        rw [if_neg other] at rules
        exact parseSwitch_meets inline rest switch rules found s inv

end

theorem parseRoutes_meets (rules : LeafRules c ctx) (section_ : String) (s : ParseState)
    (inv : c.inv s) (value : Json) : Meets c s (parseRoutes ctx section_ value) fun t routes =>
      LeavesOk c t (routesLeaves routes) :=
  parseRoutes_meets_of_references rules.inline section_ s inv value fun name _ =>
    rules.named name

end Trees

end BitsBroker
