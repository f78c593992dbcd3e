import BitsBroker.Config.Attaching
import BitsBroker.Config.ParseRules

/-!
What a parse does to the named targets and the pools. A target that is not in the cache is
built and cached once; if it is remote, its pool is registered when it is built and not again
after that. A pool is registered under the name of a registry entry of type `remote`, and the
entry need not be one of the targets.
-/

namespace BitsBroker

/-- The value registered last under a name. -/
def lastFor {A : Type} (name : String) (registered : List (String × A)) : Option A :=
  (registered.reverse.find? fun asked => decide (asked.1 = name)).map (·.2)

theorem lastFor_snoc {A : Type} (name pool : String) (value : A)
    (registered : List (String × A)) :
    lastFor name (registered ++ [(pool, value)]) =
      if pool = name then some value else lastFor name registered := by
  unfold lastFor
  rw [List.reverse_append, List.reverse_singleton, List.singleton_append, List.find?_cons]
  by_cases same : pool = name
  · simp [same]
  · simp [same]

def AnyDispatcher.isRemote : AnyDispatcher → Bool
  | .target dispatcher => match dispatcher.executor with
      | .remotePool _ _ => true
      | .pool _ => false
  | _ => false

def remoteAt (dispatchers : List AnyDispatcher) (i : Nat) : Bool :=
  dispatchers[i]?.any AnyDispatcher.isRemote

theorem remoteAt_of_grows {fewer more : List AnyDispatcher} {i : Nat} (grows : fewer <+: more)
    (bound : i < fewer.length) : remoteAt more i = remoteAt fewer i := by
  obtain ⟨rest, rfl⟩ := grows
  rw [remoteAt, List.getElem?_append_left bound, remoteAt]

section Attaching

variable {ctx : ParseContext} {entryName actionName : String} {kind : ActionKind}
  {settings : DispatcherSettings} {attached : Attached} {built : AnyDispatcher}

def ParseContext.Accepts (ctx : ParseContext) (poolName : String) : Prop :=
  ∃ server, ctx.workerServer = some server ∧ server.registerPool poolName = .ok ()

theorem executorOf_remote {T : Type} {asTarget : Option (WorkerOutcome → T)}
    {secs : JsonNumber → Except String Nat} {poolName : Option String}
    {server : Option WorkerServer} {chosen : Option ExecutorKind} {timeout : Nat}
    {translate : WorkerOutcome → T}
    (made : executorOf asTarget secs poolName server chosen = .ok (.remotePool timeout translate)) :
    ∃ pool willing, poolName = some pool ∧ server = some willing := by
  unfold executorOf at made
  split at made
  · simp at made
  · simp at made
  · simp at made
  · cases asTarget <;> cases poolName <;> cases server <;>
      simp_all [okOr, bind, Except.bind]

/-- A remote dispatcher belongs to a `remote` target, and the server has accepted its pool. -/
theorem attachDispatcher_remote
    (made : attachDispatcher ctx entryName actionName kind settings = .ok attached)
    (carried : attached.dispatcher = some built) (remote : built.isRemote = true) :
    actionName = "remote" ∧ ctx.Accepts entryName ∧
      ∃ dispatcher, attached = .target (some dispatcher) ∧ built = .target dispatcher := by
  obtain ⟨later, passed, made⟩ := attachDispatcher_ok made
  cases kind with
  | switch =>
      simp only [attachKind] at made
      split at made
      · simp at made
      · obtain rfl := Except.ok.inj made
        simp [Attached.dispatcher] at carried
  | check =>
      obtain ⟨result, _, rfl⟩ := exists_of_map_ok made
      obtain ⟨inner, rfl, rfl⟩ := Option.map_eq_some_iff.mp carried
      simp [AnyDispatcher.isRemote] at remote
  | transform =>
      obtain ⟨result, _, rfl⟩ := exists_of_map_ok made
      obtain ⟨inner, rfl, rfl⟩ := Option.map_eq_some_iff.mp carried
      simp [AnyDispatcher.isRemote] at remote
  | target =>
      obtain ⟨result, chosen, rfl⟩ := exists_of_map_ok made
      obtain ⟨dispatcher, rfl, rfl⟩ := Option.map_eq_some_iff.mp carried
      rcases buildDispatcher_ok chosen with ⟨_, _, none_⟩ | ⟨executor, isExecutor, _, _, started, eq⟩
      · simp at none_
      · obtain rfl := Option.some.inj eq
        cases executor with
        | pool _ => simp [AnyDispatcher.isRemote] at remote
        | remotePool timeout translate =>
            obtain ⟨pool, server, named, hosted⟩ := executorOf_remote isExecutor
            by_cases isRemote : actionName = "remote"
            · refine ⟨isRemote, ⟨server, hosted, ?_⟩, _, rfl, rfl⟩
              rw [if_pos isRemote, hosted] at started
              cases answer : server.registerPool entryName with
              | ok _ => rfl
              | error e => simp [startScheduler, answer, Except.mapError] at started
            · simp [isRemote] at named

def willing : WorkerServer := ⟨fun _ => .ok ()⟩

theorem executorOf_willing {T : Type} (asTarget : Option (WorkerOutcome → T))
    (secs : JsonNumber → Except String Nat) (poolName : Option String) (server : WorkerServer)
    (chosen : Option ExecutorKind) :
    executorOf asTarget secs poolName (some willing) chosen =
      executorOf asTarget secs poolName (some server) chosen := by
  unfold executorOf
  split <;> rfl

theorem startScheduler_willing {T : Type} {poolName : Option String} {server : WorkerServer}
    (accepts : ∀ name, poolName = some name → server.registerPool name = .ok ())
    (executor : Executor T) :
    startScheduler poolName (some willing) executor =
      startScheduler poolName (some server) executor := by
  cases executor with
  | pool _ => rfl
  | remotePool _ _ =>
      cases poolName with
      | none => rfl
      | some name => simp [startScheduler, willing, accepts name rfl]

/-- A server that accepts the pool is as good as one that accepts every pool. -/
theorem attachDispatcher_willing {server : WorkerServer} (hosted : ctx.workerServer = some server)
    (accepts : server.registerPool entryName = .ok ()) :
    attachDispatcher { ctx with workerServer := some willing } entryName actionName kind settings =
      attachDispatcher ctx entryName actionName kind settings := by
  have named : ∀ name, (if actionName = "remote" then some entryName else none) = some name →
      server.registerPool name = .ok () := by
    intro name chosen
    split at chosen
    · obtain rfl := Option.some.inj chosen
      exact accepts
    · simp at chosen
  have sameExecutor : remoteExecutor { ctx with workerServer := some willing } actionName settings =
      remoteExecutor ctx actionName settings := by
    simp [remoteExecutor, hosted]
  have sameBuild : ∀ later : DispatcherSettings,
      attachKind { ctx with workerServer := some willing } entryName actionName later kind =
        attachKind ctx entryName actionName later kind := by
    intro later
    cases kind with
    | check | transform | switch => rfl
    | target =>
        simp only [attachKind, hosted, buildDispatcher, fromConfig,
          executorOf_willing _ _ _ server, startScheduler_willing named]
  simp only [attachDispatcher, sameExecutor, sameBuild]

end Attaching

section Steps

variable {ctx : RouteContext} {entryName actionName : String} {action : Action}
  {settings : DispatcherSettings} {silent : Option Bool} {s : ParseState}

theorem asksForPool_of_remote {attached : Attached} {built : AnyDispatcher} {kind : ActionKind}
    (made : attachDispatcher ctx.toParseContext entryName actionName kind settings = .ok attached)
    (carried : attached.dispatcher = some built) (remote : built.isRemote = true) :
    asksForPool ctx entryName actionName kind settings = true := by
  obtain ⟨_, ⟨server, hosted, accepts⟩, dispatcher, rfl, rfl⟩ :=
    attachDispatcher_remote made carried remote
  have same : attachDispatcher { ctx.toParseContext with workerServer := some willing } entryName
      actionName kind settings = .ok (.target (some dispatcher)) :=
    (attachDispatcher_willing hosted accepts).trans made
  simp only [asksForPool, hosted, Option.map_some]
  rw [show (⟨fun _ => .ok ()⟩ : WorkerServer) = willing from rfl, same]
  exact remote

theorem remote_of_asksForPool {kind : ActionKind}
    (asks : asksForPool ctx entryName actionName kind settings = true) : actionName = "remote" := by
  simp only [asksForPool] at asks
  split at asks
  next dispatcher made =>
    have remote : (AnyDispatcher.target dispatcher).isRemote = true := asks
    exact (attachDispatcher_remote made rfl remote).1
  · simp at asks

theorem build_registered (s : ParseState) (dispatcher : Option AnyDispatcher) :
    (s.build dispatcher).2.registered = s.registered := by
  cases dispatcher <;> rfl

theorem finishStep_registered (action : Action) (silent : Option Bool) (attached : Attached)
    (s : ParseState) : (finishStep action silent attached s).2.registered = s.registered := by
  unfold finishStep
  split
  · exact build_registered s _
  · exact build_registered s _
  · exact build_registered s _
  · rfl
  · rfl

theorem attachStep_registered_eq :
    (attachStep ctx entryName actionName action settings silent s).2.registered =
      (s.ask (asksForPool ctx entryName actionName (actionKind action) settings)
        entryName).registered := by
  unfold attachStep
  dsimp only
  split
  · rfl
  · rfl
  · exact finishStep_registered _ _ _ _

/-- Only a `remote` entry registers a pool, under its own name. -/
theorem attachStep_registered (ctx : RouteContext) (entryName actionName : String)
    (action : Action) (settings : DispatcherSettings) (silent : Option Bool) (s : ParseState) :
    (attachStep ctx entryName actionName action settings silent s).2.registered = s.registered ∨
      actionName = "remote" ∧
        (attachStep ctx entryName actionName action settings silent s).2.registered =
          s.registered ++ [(entryName, s.dispatchers.length)] := by
  rw [attachStep_registered_eq, ParseState.ask]
  split
  next asks => exact Or.inr ⟨remote_of_asksForPool asks, rfl⟩
  · exact Or.inl rfl

/-- The dispatcher of a target has been built. If it is remote, the pool registered last under the
name of the target is its own, and the server has accepted it. -/
def Serves (ctx : RouteContext) (s : ParseState) (name : String) (resolved : ResolvedTarget) :
    Prop :=
  ∀ i, resolved.dispatcher = some i → i < s.dispatchers.length ∧
    (remoteAt s.dispatchers i = true → lastFor name s.registered = some i ∧ ctx.Accepts name)

theorem attachStep_serves {resolved : ResolvedTarget}
    (finished : (attachStep ctx entryName actionName action settings silent s).1 =
      .ok (.target resolved)) :
    Serves ctx (attachStep ctx entryName actionName action settings silent s).2 entryName
      resolved := by
  obtain ⟨attached, made, isNext, dispatchers⟩ := attachStep_ok finished
  intro i named
  change resolved.dispatcher = _ at isNext
  rw [isNext] at named
  obtain ⟨built, carried, rfl⟩ := Option.map_eq_some_iff.mp named
  rw [dispatchers, carried]
  refine ⟨by simp, ?_⟩
  intro remote
  have isRemote : built.isRemote = true := by simpa [remoteAt] using remote
  have asks := asksForPool_of_remote made carried isRemote
  refine ⟨?_, (attachDispatcher_remote made carried isRemote).2.1⟩
  rw [attachStep_registered_eq, ParseState.ask, if_pos asks, lastFor_snoc, if_pos rfl]

end Steps

section Entries

variable {ctx : RouteContext} {entryName : String}

/-- What a step that can be attached is made of. -/
structure StepParts where
  typeName : String
  action : Action
  settings : DispatcherSettings
  silent : Option Bool

def silentField (fields : List (String × Json)) : Option (Option Bool) :=
  match Json.get fields "silent" with
  | none => some none
  | some (.bool value) => some (some value)
  | some _ => none

/-- The parts of a registry entry, if it is well formed. -/
def entryParts (ctx : RouteContext) (entry : Json) : Option StepParts :=
  entry.asObject.bind fun fields =>
    if (Json.get fields "persistent").isSome || (Json.get fields "lock_ttl_secs").isSome then none
    else ((Json.get fields "type").bind Json.asStr).bind fun typeName =>
      (parseDispatcherFields (Json.get fields "dispatcher")).toOption.bind fun settings =>
      (silentField fields).bind fun silent =>
      (ctx.createAction typeName (.object (fields.filter fun field =>
        decide (field.1 ∉ ["type", "dispatcher", "silent"])))).toOption.map fun action =>
        ⟨typeName, action, settings, silent⟩

/-- A step is refused in every state, or attached from its parts in every state. -/
def Builds (ctx : RouteContext) (entryName : String) (parse : ParseM StepAction) :
    Option StepParts → Prop
  | none => ∃ error, parse = ParseM.fail error
  | some parts =>
      parse = attachStep ctx entryName parts.typeName parts.action parts.settings parts.silent

theorem builds_fail (error : ParseError) : Builds ctx entryName (ParseM.fail error) none :=
  ⟨error, rfl⟩

theorem builds_lift {A : Type} (value : Except ConfigError A) {second : A → ParseM StepAction}
    {parts : A → Option StepParts} (then_ : ∀ found, Builds ctx entryName (second found)
      (parts found)) :
    Builds ctx entryName (ParseM.lift value >>= second) (value.toOption.bind parts) := by
  cases value with
  | error error => exact ⟨.config error, rfl⟩
  | ok found => exact then_ found

theorem builds_silent (fields : List (String × Json)) (refuse : ParseError)
    {second : Option Bool → ParseM StepAction} {parts : Option Bool → Option StepParts}
    (then_ : ∀ silent, Builds ctx entryName (second silent) (parts silent)) :
    Builds ctx entryName (parseSilent fields refuse >>= second)
      ((silentField fields).bind parts) := by
  unfold parseSilent silentField
  cases Json.get fields "silent" with
  | none => exact then_ none
  | some value =>
      cases value with
      | bool value => exact then_ (some value)
      | null | number _ | string _ | array _ | object _ => exact ⟨refuse, rfl⟩

theorem actionFromEntry_builds (ns entryName : String) (entry : Json) :
    Builds ctx entryName (actionFromEntry ctx ns entryName entry) (entryParts ctx entry) := by
  unfold actionFromEntry entryParts
  cases entry.asObject with
  | none => exact builds_fail _
  | some fields =>
      dsimp only [Option.bind_some]
      split
      · exact builds_fail _
      · cases (Json.get fields "type").bind Json.asStr with
        | none => exact builds_fail _
        | some typeName =>
            apply builds_lift
            intro settings
            apply builds_silent
            intro silent
            cases ctx.createAction typeName _ with
            | error e => exact builds_fail _
            | ok action => rfl

theorem entry_builds (entries : HashMap String Json) (ns name routeName : String) :
    Builds ctx name (lookupEntry entries ns name routeName >>= actionFromEntry ctx ns name)
      ((entries.lookup name).bind (entryParts ctx)) := by
  unfold lookupEntry
  cases entries.lookup name with
  | none => exact builds_fail _
  | some entry => exact actionFromEntry_builds ns name entry

def entryType (entry : Json) : Option String :=
  (entry.asObject.bind fun fields => Json.get fields "type").bind Json.asStr

theorem entryType_of_parts {entry : Json} {parts : StepParts}
    (found : entryParts ctx entry = some parts) : entryType entry = some parts.typeName := by
  obtain ⟨fields, isObject, found⟩ := Option.bind_eq_some_iff.mp found
  split at found
  · cases found
  · obtain ⟨typeName, isType, found⟩ := Option.bind_eq_some_iff.mp found
    obtain ⟨settings, _, found⟩ := Option.bind_eq_some_iff.mp found
    obtain ⟨silent, _, found⟩ := Option.bind_eq_some_iff.mp found
    obtain ⟨action, _, rfl⟩ := Option.map_eq_some_iff.mp found
    simp [entryType, isObject, isType]

/-- An inline step is attached under the name of its action, which is not `remote`. -/
theorem parseInline_builds (routeName key ns actionName : String) (config : Json)
    (fields : List (String × Json)) :
    ∃ parts, Builds ctx actionName (parseInline ctx routeName key ns actionName config fields)
      parts ∧ ∀ found, parts = some found → found.typeName ≠ "remote" := by
  unfold parseInline
  split
  · exact ⟨none, builds_fail _, by simp⟩
  next notRemote =>
    split
    · exact ⟨none, builds_fail _, by simp⟩
    next action _ =>
      split
      · have attached : ∀ settings silent, Builds ctx actionName
            (attachStep ctx actionName actionName action settings silent)
            (some ⟨actionName, action, settings, silent⟩) := fun _ _ => rfl
        refine ⟨_, builds_lift _ fun settings => builds_silent fields _ (attached settings), ?_⟩
        intro found isFound
        obtain ⟨settings, _, isFound⟩ := Option.bind_eq_some_iff.mp isFound
        obtain ⟨silent, _, isFound⟩ := Option.bind_eq_some_iff.mp isFound
        cases isFound
        exact notRemote
      · exact ⟨none, builds_fail _, by simp⟩

end Entries

/-- The name of the target that a reference stands for. -/
def targetName (reference : String) : Option String :=
  match splitNs reference with
  | some (ns, name) => if ns = "target" then some name else none
  | none => none

/-- The targets that routes refer to. -/
def targetNames (value : Json) : List String := (routesReferences value).filterMap targetName

/-- The reference makes a pool out of a check or a transform that has the name of a target. -/
def TakesPool (registries : Registries) (reference : String) : Prop :=
  ∃ ns name entry, splitNs reference = some (ns, name) ∧
    (ns = "check" ∧ registries.checks.lookup name = some entry ∨
      ns = "transform" ∧ registries.transforms.lookup name = some entry) ∧
    entryType entry = some "remote" ∧ registries.targets.lookup name ≠ none

section Parsing

variable {ctx : RouteContext} {cache : HashMap String ResolvedTarget} {names : List String}
  {s t : ParseState}

/-- What a parse that started from `cache` has in its own copy of it and has asked to register,
if it refers to the targets `names`. -/
structure Shares (ctx : RouteContext) (cache : HashMap String ResolvedTarget)
    (names : List String) (s : ParseState) : Prop where
  kept (name : String) (resolved : ResolvedTarget) : cache.lookup name = some resolved →
    s.resolvedTargets.lookup name = some resolved
  fresh (name : String) (resolved : ResolvedTarget) :
    s.resolvedTargets.lookup name = some resolved → cache.lookup name = some resolved ∨
      cache.lookup name = none ∧ name ∈ names ∧ ctx.registries.targets.lookup name ≠ none ∧
        Serves ctx s name resolved
  asked (pool : String) (dispatcher : Nat) : (pool, dispatcher) ∈ s.registered →
    ctx.registries.targets.lookup pool = none ∨ cache.lookup pool = none ∧ pool ∈ names

theorem Serves.grow {name : String} {resolved : ResolvedTarget}
    (serves : Serves ctx s name resolved) (dispatchers : s.dispatchers <+: t.dispatchers)
    (same : lastFor name t.registered = lastFor name s.registered) :
    Serves ctx t name resolved := by
  intro i named
  obtain ⟨bound, ready⟩ := serves i named
  refine ⟨Nat.lt_of_lt_of_le bound dispatchers.length_le, ?_⟩
  rw [remoteAt_of_grows dispatchers bound, same]
  exact ready

/-- The pool of a step that may be built is nobody else's. -/
theorem Shares.attach (shares : Shares ctx cache names s) (entryName : String)
    (grows : StepGrows s t)
    (registered : t.registered = s.registered ∨
      t.registered = s.registered ++ [(entryName, s.dispatchers.length)] ∧
        (ctx.registries.targets.lookup entryName = none ∨
          s.resolvedTargets.lookup entryName = none ∧ entryName ∈ names)) :
    Shares ctx cache names t where
  kept name resolved cached := by
    rw [grows.cache]
    exact shares.kept name resolved cached
  fresh name resolved found := by
    rw [grows.cache] at found
    rcases shares.fresh name resolved found with old | ⟨absent, referred, known, serves⟩
    · exact Or.inl old
    · refine Or.inr ⟨absent, referred, known, serves.grow grows.dispatchers ?_⟩
      rcases registered with same | ⟨more, permitted⟩
      · rw [same]
      · have different : entryName ≠ name := by
          rintro rfl
          rcases permitted with unknown | ⟨uncached, _⟩
          · exact known unknown
          · simp [found] at uncached
        rw [more, lastFor_snoc, if_neg different]
  asked pool served inside := by
    rcases registered with same | ⟨more, permitted⟩
    · rw [same] at inside
      exact shares.asked pool served inside
    · rw [more, List.mem_append, List.mem_singleton] at inside
      rcases inside with old | new
      · exact shares.asked pool served old
      · obtain ⟨rfl, rfl⟩ := Prod.mk.inj new
        rcases permitted with unknown | ⟨uncached, referred⟩
        · exact Or.inl unknown
        · refine Or.inr ⟨?_, referred⟩
          cases cached : cache.lookup pool with
          | none => rfl
          | some resolved => simp [shares.kept pool resolved cached] at uncached

def sharesContract (ctx : RouteContext) (cache : HashMap String ResolvedTarget)
    (names : List String) : Contract where
  inv := Shares ctx cache names
  grows s t := s.dispatchers <+: t.dispatchers ∧ ∀ name resolved,
    s.resolvedTargets.lookup name = some resolved → t.resolvedTargets.lookup name = some resolved
  ok s leaf := ∀ name resolved, leaf = (⟨false, "target", name⟩, .target resolved) →
    s.resolvedTargets.lookup name = some resolved
  refl _ := ⟨List.prefix_rfl, fun _ _ found => found⟩
  trans first second := ⟨first.1.trans second.1, fun name resolved found =>
    second.2 name resolved (first.2 name resolved found)⟩
  stable grows ok name resolved eq := grows.2 name resolved (ok name resolved eq)

theorem Builds.meets {entryName : String} {parts : Option StepParts} {parse : ParseM StepAction}
    (builds : Builds ctx entryName parse parts) (shares : Shares ctx cache names s)
    (permitted : ∀ found, parts = some found → found.typeName = "remote" →
      ctx.registries.targets.lookup entryName = none ∨
        s.resolvedTargets.lookup entryName = none ∧ entryName ∈ names) :
    Meets (sharesContract ctx cache names) s parse fun t built =>
      t.resolvedTargets = s.resolvedTargets ∧
        ∀ resolved, built = .target resolved → Serves ctx t entryName resolved := by
  cases parts with
  | none =>
      obtain ⟨error, rfl⟩ := builds
      exact meets_fail shares error
  | some found =>
      obtain rfl := builds
      have grows := attachStep_grows ctx entryName found.typeName found.action found.settings
        found.silent s
      refine ⟨?_, ⟨grows.dispatchers, ?_⟩, ?_⟩
      · refine shares.attach entryName grows ?_
        rcases attachStep_registered ctx entryName found.typeName found.action found.settings
          found.silent s with same | ⟨isRemote, more⟩
        · exact Or.inl same
        · exact Or.inr ⟨more, permitted found rfl isRemote⟩
      · intro name resolved isFound
        rwa [grows.cache]
      · intro built finished
        refine ⟨grows.cache, ?_⟩
        rintro resolved rfl
        exact attachStep_serves finished

theorem resolveTarget_meets {name : String} (routeName : String) (referred : name ∈ names)
    (shares : Shares ctx cache names s) :
    Meets (sharesContract ctx cache names) s (resolveTarget ctx name routeName) fun t built =>
      ∀ resolved, built = .target resolved → t.resolvedTargets.lookup name = some resolved := by
  unfold resolveTarget
  have cached : Meets (sharesContract ctx cache names) s (cachedTarget name) fun t found =>
      t = s ∧ found = s.resolvedTargets.lookup name := by
    refine ⟨shares, (sharesContract ctx cache names).refl s, ?_⟩
    intro found eq
    exact ⟨rfl, (Except.ok.inj eq).symm⟩
  refine meets_bind cached ?_
  rintro t found shares' _ ⟨rfl, eq⟩
  split
  next resolved =>
    refine meets_pure shares' ?_
    rintro other same
    obtain rfl := StepAction.target.inj same
    exact eq.symm
  next =>
    have uncached : t.resolvedTargets.lookup name = none := eq.symm
    refine meets_bind (lookupEntry_meets shares' _ _ _ _) ?_
    rintro u entry shares'' _ ⟨rfl, known⟩
    refine meets_bind ((actionFromEntry_builds "target" name entry).meets shares''
      fun _ _ _ => Or.inr ⟨uncached, referred⟩) ?_
    rintro v built shares3 _ ⟨sameCache, serves⟩
    have unbuilt : v.resolvedTargets.lookup name = none := by rw [sameCache, uncached]
    split
    next resolved =>
      have absent : cache.lookup name = none := by
        cases old : cache.lookup name with
        | none => rfl
        | some before => simp [shares3.kept name before old] at unbuilt
      have stored : Meets (sharesContract ctx cache names) v (cacheTarget name resolved) fun w _ =>
          w.resolvedTargets.lookup name = some resolved := by
        refine ⟨⟨?_, ?_, shares3.asked⟩, ⟨List.prefix_rfl, ?_⟩, ?_⟩
        · intro other before old
          have different : other ≠ name := by
            rintro rfl
            simp [absent] at old
          simpa [cacheTarget, HashMap.lookup_insert_eq, different] using
            shares3.kept other before old
        · intro other before old
          simp only [cacheTarget, HashMap.lookup_insert_eq] at old
          split at old
          next same =>
            obtain rfl := Option.some.inj old
            subst same
            exact Or.inr ⟨absent, referred, by simp [known], serves resolved rfl⟩
          next => exact shares3.fresh other before old
        · intro other before old
          have different : other ≠ name := by
            rintro rfl
            simp [unbuilt] at old
          simpa [cacheTarget, HashMap.lookup_insert_eq, different] using old
        · intro _ _
          simp [cacheTarget]
      refine meets_bind stored ?_
      intro w _ shares4 _ held
      refine meets_pure shares4 ?_
      rintro other same
      obtain rfl := StepAction.target.inj same
      exact held
    next other notTarget =>
      refine meets_pure shares3 ?_
      rintro resolved rfl
      exact absurd rfl (notTarget resolved)

theorem entry_meets {ns name routeName : String} {entries : HashMap String Json}
    (shares : Shares ctx cache names s)
    (apart : ∀ entry, entries.lookup name = some entry → entryType entry = some "remote" →
      ctx.registries.targets.lookup name = none) :
    Meets (sharesContract ctx cache names) s (do
      let entry ← lookupEntry entries ns name routeName
      actionFromEntry ctx ns name entry) fun _ _ => True := by
  refine meets_bind (lookupEntry_meets shares _ _ _ _) ?_
  rintro t entry shares' _ ⟨rfl, found⟩
  have built := (actionFromEntry_builds ns name entry).meets shares'
    fun parts isParts remote => Or.inl (apart entry found (remote ▸ entryType_of_parts isParts))
  exact built.weaken fun _ _ _ => trivial

theorem resolveNamed_shares {reference ns name : String} (routeName : String)
    (split_ : splitNs reference = some (ns, name))
    (referred : ∀ name, targetName reference = some name → name ∈ names)
    (apart : ¬ TakesPool ctx.registries reference) (shares : Shares ctx cache names s) :
    Meets (sharesContract ctx cache names) s (resolveNamed ctx ns name routeName) fun t built =>
      ns = "target" → ∀ resolved, built = .target resolved →
        t.resolvedTargets.lookup name = some resolved := by
  unfold resolveNamed
  split
  next isCheck =>
    have built : Meets (sharesContract ctx cache names) s (do
        let entry ← lookupEntry ctx.registries.checks ns name routeName
        actionFromEntry ctx ns name entry) fun _ _ => True := by
      apply entry_meets shares
      intro entry found remote
      by_contra known
      exact apart ⟨ns, name, entry, split_, Or.inl ⟨isCheck, found⟩, remote, known⟩
    exact built.weaken fun _ _ _ isTarget => by simp [isCheck] at isTarget
  · split
    next isTransform =>
      have built : Meets (sharesContract ctx cache names) s (do
          let entry ← lookupEntry ctx.registries.transforms ns name routeName
          actionFromEntry ctx ns name entry) fun _ _ => True := by
        apply entry_meets shares
        intro entry found remote
        by_contra known
        exact apart ⟨ns, name, entry, split_, Or.inr ⟨isTransform, found⟩, remote, known⟩
      exact built.weaken fun _ _ _ isTarget => by simp [isTransform] at isTarget
    · split
      next isTarget =>
        have inside : name ∈ names := referred name (by simp [targetName, split_, isTarget])
        exact (resolveTarget_meets routeName inside shares).weaken fun _ _ held _ => held
      · exact meets_fail shares _

theorem reference_shares {reference : String}
    (referred : ∀ name, targetName reference = some name → name ∈ names)
    (apart : ¬ TakesPool ctx.registries reference) :
    ReferenceRule (sharesContract ctx cache names) ctx reference := by
  intro routeName s shares
  unfold parseReference
  split
  · exact meets_fail shares _
  · split
    · exact meets_fail shares _
    next ns name split_ =>
      refine meets_bind (resolveNamed_shares routeName split_ referred apart shares) ?_
      intro t built shares' _ held
      refine meets_pure shares' ?_
      intro leaf inside other resolved eq
      simp only [ParsedStep.leaves, List.mem_singleton] at inside
      subst inside
      obtain ⟨written, same⟩ := Prod.mk.inj eq
      obtain ⟨_, rfl, rfl⟩ := StepName.mk.inj written
      exact held rfl resolved same

theorem inline_shares : InlineRule (sharesContract ctx cache names) ctx := by
  intro routeName fields s shares
  unfold parseObject
  split
  · exact meets_fail shares _
  next key ns actionName config _ =>
    obtain ⟨parts, builds, notRemote⟩ :=
      parseInline_builds routeName key ns actionName config fields
    refine meets_bind (builds.meets shares fun found isFound remote =>
      absurd remote (notRemote found isFound)) ?_
    intro t built shares' _ _
    refine meets_pure shares' ?_
    intro leaf inside other resolved eq
    simp only [ParsedStep.leaves, List.mem_singleton] at inside
    subst inside
    simp at eq

/-- A parse keeps the cached targets, builds the others that it refers to, and registers pools
only under their names or under names that are no targets. -/
theorem parseRoutes_shares (ctx : RouteContext) (section_ : String) (value : Json)
    {s : ParseState} (unregistered : s.registered = [])
    (apart : ∀ reference ∈ routesReferences value, ¬ TakesPool ctx.registries reference) :
    Meets (sharesContract ctx s.resolvedTargets (targetNames value)) s
      (parseRoutes ctx section_ value) fun t routes =>
        LeavesOk (sharesContract ctx s.resolvedTargets (targetNames value)) t
          (routesLeaves routes) := by
  have start : Shares ctx s.resolvedTargets (targetNames value) s := by
    refine ⟨fun _ _ found => found, fun _ _ found => Or.inl found, ?_⟩
    simp [unregistered]
  refine parseRoutes_meets_of_references inline_shares section_ s start value ?_
  intro reference inside
  refine reference_shares ?_ (apart reference inside)
  intro name named
  exact List.mem_filterMap.mpr ⟨reference, inside, named⟩

end Parsing

end BitsBroker
