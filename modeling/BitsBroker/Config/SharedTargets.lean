import BitsBroker.Config.Registration
import BitsBroker.WorkerServer

/-!
Calls of `parse_route` that run at the same time. A call copies the cache of named targets under
its lock, parses against the copy, and adds what it has built to the cache under the lock again;
a name that is in the cache by then keeps its entry. What a parse builds and which pools it
registers depend on the copy and on the answers of the worker server alone, so the model parses
when the copy is taken; the registrations follow one at a time, and the second section under the
lock comes after them. Targets and dispatchers are named in the order of the first sections. A
pool is known by the dispatcher whose queue its router serves; there is none if the registration
itself failed after the router was put in place. The routes of the configuration file are parsed
first, in the same way.

Two calls that overlap and refer to a target that neither finds in its copy both build it. Each
keeps its own, and the pool serves the one that was registered last.
-/

namespace BitsBroker

open Transition Table

/-- The worker server during a call: `started` is how the start of its listener ends. -/
def workerServer (started : Except String Unit) : WorkerServer where
  registerPool name := match validatePoolName name with
    | .ok () => started
    | .error error => .error error

def RouteContext.during (ctx : RouteContext) (started : Except String Unit) : RouteContext :=
  { ctx with workerServer := ctx.workerServer.map fun _ => workerServer started }

inductive RouteCallPc where
  | parsing
  | returned
  | failed
deriving DecidableEq

structure RouteCall where
  value : Json
  result : Except ParseError (List ParsedRoute)
  resolvedTargets : HashMap String ResolvedTarget
  registering : List (String × Option Nat)
  pc : RouteCallPc

structure RouteFactory where
  dispatchers : List AnyDispatcher
  targets : List TargetAction
  resolvedTargets : HashMap String ResolvedTarget
  pools : HashMap String (Option Nat)
  calls : List RouteCall

def RouteFactory.new : RouteFactory where
  dispatchers := []
  targets := []
  resolvedTargets := ∅
  pools := ∅
  calls := []

inductive RouteAction where
  | begin (name : String) (value : Json) (started : Except String Unit)
  | register (call : Nat)
  | finish (call : Nat)

/-- The routers that a parse puts in place: those under valid names. -/
def registrations (s : ParseState) : List (String × Option Nat) :=
  (s.registered.filter fun asked => (validatePoolName asked.1).isOk).map fun asked =>
    (asked.1, if asked.2 < s.dispatchers.length then some asked.2 else none)

section Calls

variable (ctx : RouteContext)

def parseAgainst (s : RouteFactory) (name : String) (value : Json)
    (started : Except String Unit) : Except ParseError (List ParsedRoute) × ParseState :=
  parseRoutes (ctx.during started) name value ⟨s.dispatchers, s.targets, s.resolvedTargets, []⟩

def beginCall (s : RouteFactory) (name : String) (value : Json)
    (started : Except String Unit) : RouteFactory :=
  let parsed := parseAgainst ctx s name value started
  { s with
    dispatchers := parsed.2.dispatchers
    targets := parsed.2.targets
    calls := s.calls ++
      [⟨value, parsed.1, parsed.2.resolvedTargets, registrations parsed.2, .parsing⟩] }

def registerNext (s : RouteFactory) (i : Nat) (call : RouteCall) : Option RouteFactory :=
  match call.registering with
  | [] => none
  | (pool, served) :: rest => some { s with
      pools := AList.insert pool served s.pools
      calls := s.calls.set i { call with registering := rest } }

/-- `entry(name).or_insert(target)` for every target of the call is the union that keeps the
entries of the cache. -/
def finishCall (s : RouteFactory) (i : Nat) (call : RouteCall) : Option RouteFactory :=
  match call.registering, call.result with
  | [], .ok _ => some { s with
      resolvedTargets := s.resolvedTargets ∪ call.resolvedTargets
      calls := s.calls.set i { call with pc := .returned } }
  | [], .error _ => some { s with calls := s.calls.set i { call with pc := .failed } }
  | _ :: _, _ => none

def routeStep (s : RouteFactory) : RouteAction → Option RouteFactory
  | .begin name value started => some (beginCall ctx s name value started)
  | .register i => s.calls[i]?.bind fun call =>
      if call.pc = .parsing then registerNext s i call else none
  | .finish i => s.calls[i]?.bind fun call =>
      if call.pc = .parsing then finishCall s i call else none

end Calls

/-- Returned routes hold `resolved` at a step `target::name`. -/
def RouteFactory.Holds (s : RouteFactory) (name : String) (resolved : ResolvedTarget) : Prop :=
  ∃ call ∈ s.calls, call.pc = .returned ∧ ∃ routes, call.result = .ok routes ∧
    (⟨false, "target", name⟩, .target resolved) ∈ routesLeaves routes

/-- A named target is one instance, and its pool serves its queue. -/
structure RouteFactory.OneInstance (s : RouteFactory) : Prop where
  same (name : String) (left right : ResolvedTarget) : s.Holds name left → s.Holds name right →
    left.target = right.target ∧ left.dispatcher = right.dispatcher
  served (name : String) (resolved : ResolvedTarget) (i : Nat) : s.Holds name resolved →
    resolved.dispatcher = some i → remoteAt s.dispatchers i = true →
    s.pools.lookup name = some (some i)

/-- A call begins only if the targets it shares with the calls in progress are cached, and if it
makes no pool of the name of a target out of a check or a transform. -/
def Separate (ctx : RouteContext) (s : RouteFactory) : RouteAction → Prop
  | .begin _ value _ =>
      (∀ call ∈ s.calls, call.pc = .parsing → ∀ name ∈ targetNames value,
        name ∈ targetNames call.value → s.resolvedTargets.lookup name ≠ none) ∧
      ∀ reference ∈ routesReferences value, ¬ TakesPool ctx.registries reference
  | _ => True

section Pools

theorem lastFor_map {A B : Type} (f : A → B) (name : String) (registered : List (String × A)) :
    lastFor name (registered.map fun asked => (asked.1, f asked.2)) =
      (lastFor name registered).map f := by
  induction registered using List.reverseRecOn with
  | nil => rfl
  | append_singleton front last ih =>
      rw [List.map_append, List.map_singleton, lastFor_snoc, lastFor_snoc, ih]
      by_cases same : last.1 = name
      · simp [same]
      · simp [same]

theorem lastFor_filter {A : Type} (keep : String → Bool) {name : String}
    (kept : keep name = true) (registered : List (String × A)) :
    lastFor name (registered.filter fun asked => keep asked.1) = lastFor name registered := by
  induction registered using List.reverseRecOn with
  | nil => rfl
  | append_singleton front last ih =>
      rw [List.filter_append, lastFor_snoc, ← ih]
      by_cases inside : keep last.1 = true
      · have alone : ([last].filter fun asked => keep asked.1) = [last] := by simp [inside]
        rw [alone, lastFor_snoc]
      · have gone : ([last].filter fun asked => keep asked.1) = [] := by simp [inside]
        have different : last.1 ≠ name := by
          intro same
          rw [same] at inside
          exact inside kept
        rw [gone, List.append_nil, if_neg different]

/-- The pools after the registrations. -/
def servePools (pools : HashMap String (Option Nat)) (registering : List (String × Option Nat)) :
    HashMap String (Option Nat) :=
  registering.foldl (fun pools asked => AList.insert asked.1 asked.2 pools) pools

theorem lookup_servePools (pools : HashMap String (Option Nat))
    (registering : List (String × Option Nat)) (name : String) :
    (servePools pools registering).lookup name =
      (lastFor name registering).or (pools.lookup name) := by
  induction registering using List.reverseRecOn with
  | nil => rfl
  | append_singleton front last ih =>
      have one : servePools pools (front ++ [last]) =
          AList.insert last.1 last.2 (servePools pools front) := by
        simp [servePools, List.foldl_append]
      rw [one, HashMap.lookup_insert_eq, lastFor_snoc, ih]
      by_cases same : last.1 = name
      · simp [same]
      · simp [same, Ne.symm same]

theorem lastFor_registrations {s : ParseState} {name : String} {i : Nat}
    (valid : validatePoolName name = .ok ()) (bound : i < s.dispatchers.length)
    (last : lastFor name s.registered = some i) :
    lastFor name (registrations s) = some (some i) := by
  have kept : (validatePoolName name).isOk = true := by rw [valid]; rfl
  unfold registrations
  rw [lastFor_map fun served => if served < s.dispatchers.length then some served else none,
    lastFor_filter (fun pool => (validatePoolName pool).isOk) kept, last]
  simp [bound]

end Pools

/-- The dispatcher of a target exists, and if it is remote then it is served under its name. -/
def Routed (dispatchers : List AnyDispatcher) (pools : HashMap String (Option Nat))
    (name : String) (resolved : ResolvedTarget) : Prop :=
  ∀ i, resolved.dispatcher = some i → i < dispatchers.length ∧
    (remoteAt dispatchers i = true → pools.lookup name = some (some i))

theorem Routed.mono {fewer more : List AnyDispatcher} {before after : HashMap String (Option Nat)}
    {name : String} {resolved : ResolvedTarget} (routed : Routed fewer before name resolved)
    (grows : fewer <+: more) (same : after.lookup name = before.lookup name) :
    Routed more after name resolved := by
  intro i named
  obtain ⟨bound, serves⟩ := routed i named
  refine ⟨Nat.lt_of_lt_of_le bound grows.length_le, ?_⟩
  rw [remoteAt_of_grows grows bound, same]
  exact serves

/-- A call in progress: a target of its own is in the cache, or it is one that the call has built
and will be served once all its pools are registered. -/
structure CallWf (ctx : RouteContext) (s : RouteFactory) (call : RouteCall) : Prop where
  resolved (name : String) (found : ResolvedTarget) :
    call.resolvedTargets.lookup name = some found → s.resolvedTargets.lookup name = some found ∨
      s.resolvedTargets.lookup name = none ∧ name ∈ targetNames call.value ∧
        ctx.registries.targets.lookup name ≠ none ∧
        Routed s.dispatchers (servePools s.pools call.registering) name found
  registering (pool : String) (served : Option Nat) : (pool, served) ∈ call.registering →
    ctx.registries.targets.lookup pool = none ∨
      s.resolvedTargets.lookup pool = none ∧ pool ∈ targetNames call.value
  leaves (routes : List ParsedRoute) : call.result = .ok routes →
    ∀ name found, (⟨false, "target", name⟩, .target found) ∈ routesLeaves routes →
      call.resolvedTargets.lookup name = some found

structure FactoryWf (ctx : RouteContext) (s : RouteFactory) : Prop where
  cached (name : String) (found : ResolvedTarget) : s.resolvedTargets.lookup name = some found →
    ctx.registries.targets.lookup name ≠ none ∧ Routed s.dispatchers s.pools name found
  held (name : String) (found : ResolvedTarget) : s.Holds name found →
    s.resolvedTargets.lookup name = some found
  parsing (i : Nat) (call : RouteCall) : s.calls[i]? = some call → call.pc = .parsing →
    CallWf ctx s call
  apart (i j : Nat) (left right : RouteCall) (name : String) : i ≠ j →
    s.calls[i]? = some left → s.calls[j]? = some right → left.pc = .parsing →
    right.pc = .parsing → name ∈ targetNames left.value → name ∈ targetNames right.value →
    s.resolvedTargets.lookup name ≠ none

theorem FactoryWf.oneInstance {ctx : RouteContext} {s : RouteFactory} (wf : FactoryWf ctx s) :
    s.OneInstance where
  same name left right first second := by
    have equal : left = right := by
      simpa [wf.held name left first] using wf.held name right second
    exact ⟨by rw [equal], by rw [equal]⟩
  served name resolved i holds named remote :=
    ((wf.cached name resolved (wf.held name resolved holds)).2 i named).2 remote

section Steps

variable {ctx : RouteContext} {s : RouteFactory}

theorem factoryWf_new (ctx : RouteContext) : FactoryWf ctx RouteFactory.new where
  cached name found cached := by cases cached
  held name found holds := by
    obtain ⟨call, member, _⟩ := holds
    cases member
  parsing i call present := by simp [RouteFactory.new] at present
  apart i j left right name _ present := by simp [RouteFactory.new] at present

/-- A router is put in place under a name that is not the one of a target in the cache. -/
theorem CallWf.pool_ne {call : RouteCall} (wf : CallWf ctx s call) {pool name : String}
    {served : Option Nat} (registers : (pool, served) ∈ call.registering)
    (known : ctx.registries.targets.lookup name ≠ none)
    (elsewhere : s.resolvedTargets.lookup name = none → name ∉ targetNames call.value) :
    name ≠ pool := by
  rintro rfl
  rcases wf.registering name served registers with unknown | ⟨uncached, referred⟩
  · exact known unknown
  · exact elsewhere uncached referred

theorem lookup_servePools_insert (pools : HashMap String (Option Nat)) {pool name : String}
    (served : Option Nat) (registering : List (String × Option Nat)) (different : name ≠ pool) :
    (servePools (AList.insert pool served pools) registering).lookup name =
      (servePools pools registering).lookup name := by
  rw [lookup_servePools, lookup_servePools, HashMap.lookup_insert_eq, if_neg different]

/-- The routes that are held were held before, or belong to the call that returned. -/
theorem Holds.of_set {i : Nat} {call : RouteCall} {dispatchers : List AnyDispatcher}
    {targets : List TargetAction} {cache : HashMap String ResolvedTarget}
    {pools : HashMap String (Option Nat)} {name : String} {found : ResolvedTarget}
    (holds : RouteFactory.Holds ⟨dispatchers, targets, cache, pools, s.calls.set i call⟩ name found) :
    s.Holds name found ∨ call.pc = .returned ∧ ∃ routes, call.result = .ok routes ∧
      (⟨false, "target", name⟩, .target found) ∈ routesLeaves routes := by
  obtain ⟨other, member, returned, routes, parsed, leaf⟩ := holds
  rcases List.mem_or_eq_of_mem_set member with before | rfl
  · exact Or.inl ⟨other, before, returned, routes, parsed, leaf⟩
  · exact Or.inr ⟨returned, routes, parsed, leaf⟩

theorem FactoryWf.register {i : Nat} {call : RouteCall} {next : RouteFactory}
    (wf : FactoryWf ctx s) (present : s.calls[i]? = some call) (parsing : call.pc = .parsing)
    (registers : registerNext s i call = some next) : FactoryWf ctx next := by
  have own := wf.parsing i call present parsing
  unfold registerNext at registers
  split at registers
  · cases registers
  next pool served rest asked =>
    cases registers
    have first : (pool, served) ∈ call.registering := by rw [asked]; exact List.mem_cons_self
    constructor
    · intro name found cached
      obtain ⟨known, routed⟩ := wf.cached name found cached
      have different : name ≠ pool := own.pool_ne first known fun uncached => by
        rw [cached] at uncached
        cases uncached
      refine ⟨known, routed.mono List.prefix_rfl ?_⟩
      rw [HashMap.lookup_insert_eq, if_neg different]
    · intro name found holds
      rcases Holds.of_set holds with before | ⟨returned, _⟩
      · exact wf.held name found before
      · rw [parsing] at returned
        cases returned
    · intro j other found busy
      rcases getElem?_of_set found with ⟨rfl, rfl⟩ | ⟨apart, before⟩
      · constructor
        · intro name resolved mine
          rcases own.resolved name resolved mine with cached | ⟨absent, referred, known, routed⟩
          · exact Or.inl cached
          · refine Or.inr ⟨absent, referred, known, ?_⟩
            rw [asked] at routed
            exact routed
        · intro other served inside
          exact own.registering other served (by rw [asked]; exact List.mem_cons_of_mem _ inside)
        · exact own.leaves
      · have theirs := wf.parsing j other before busy
        refine ⟨?_, theirs.registering, theirs.leaves⟩
        intro name resolved mine
        rcases theirs.resolved name resolved mine with cached | ⟨absent, referred, known, routed⟩
        · exact Or.inl cached
        · have different : name ≠ pool := own.pool_ne first known fun _ shared =>
            wf.apart i j call other name (Ne.symm apart) present before parsing busy shared referred
              absent
          refine Or.inr ⟨absent, referred, known, routed.mono List.prefix_rfl ?_⟩
          exact lookup_servePools_insert s.pools served other.registering different
    · intro j k left right name different isLeft isRight leftBusy rightBusy inLeft inRight
      have moved : ∀ {m : Nat} {moved : RouteCall}, (s.calls.set i { call with
          registering := rest })[m]? = some moved → ∃ before, s.calls[m]? = some before ∧
            before.pc = moved.pc ∧ before.value = moved.value := by
        intro m moved found
        rcases getElem?_of_set found with ⟨rfl, rfl⟩ | ⟨_, before⟩
        · exact ⟨call, present, rfl, rfl⟩
        · exact ⟨moved, before, rfl, rfl⟩
      obtain ⟨leftBefore, leftWas, leftPc, leftValue⟩ := moved isLeft
      obtain ⟨rightBefore, rightWas, rightPc, rightValue⟩ := moved isRight
      exact wf.apart j k leftBefore rightBefore name different leftWas rightWas
        (leftPc.trans leftBusy) (rightPc.trans rightBusy) (leftValue ▸ inLeft)
        (rightValue ▸ inRight)

/-- The parts of the invariant about the calls, after one of them has ended. -/
theorem FactoryWf.ended {i : Nat} {call : RouteCall} {pc : RouteCallPc} (wf : FactoryWf ctx s)
    {cache : HashMap String ResolvedTarget} (over_ : pc ≠ .parsing)
    (kept : ∀ name found, s.resolvedTargets.lookup name = some found →
      cache.lookup name = some found)
    (added : ∀ j other name, j ≠ i → s.calls[j]? = some other → other.pc = .parsing →
      name ∈ targetNames other.value → s.resolvedTargets.lookup name = none →
      cache.lookup name = none)
    (cached : ∀ name found, cache.lookup name = some found →
      ctx.registries.targets.lookup name ≠ none ∧ Routed s.dispatchers s.pools name found)
    (held : pc = .returned → ∀ routes, call.result = .ok routes → ∀ name found,
      (⟨false, "target", name⟩, .target found) ∈ routesLeaves routes →
        cache.lookup name = some found) :
    FactoryWf ctx { s with
      resolvedTargets := cache
      calls := s.calls.set i { call with pc := pc } } := by
  have others : ∀ {j : Nat} {other : RouteCall},
      (s.calls.set i { call with pc := pc })[j]? = some other → other.pc = .parsing →
      j ≠ i ∧ s.calls[j]? = some other := by
    intro j other found busy
    rcases getElem?_of_set found with ⟨_, rfl⟩ | both
    · exact absurd busy over_
    · exact both
  constructor
  · exact cached
  · intro name found holds
    rcases Holds.of_set holds with before | ⟨returned, routes, parsed, leaf⟩
    · exact kept name found (wf.held name found before)
    · exact held returned routes parsed name found leaf
  · intro j other found busy
    obtain ⟨apart, before⟩ := others found busy
    have theirs := wf.parsing j other before busy
    refine ⟨?_, ?_, theirs.leaves⟩
    · intro name resolved mine
      rcases theirs.resolved name resolved mine with stored | ⟨absent, referred, known, routed⟩
      · exact Or.inl (kept name resolved stored)
      · exact Or.inr ⟨added j other name apart before busy referred absent, referred, known, routed⟩
    · intro pool served inside
      rcases theirs.registering pool served inside with unknown | ⟨absent, referred⟩
      · exact Or.inl unknown
      · exact Or.inr ⟨added j other pool apart before busy referred absent, referred⟩
  · intro j k left right name different isLeft isRight leftBusy rightBusy inLeft inRight
    obtain ⟨_, leftWas⟩ := others isLeft leftBusy
    obtain ⟨_, rightWas⟩ := others isRight rightBusy
    have stored := wf.apart j k left right name different leftWas rightWas leftBusy rightBusy
      inLeft inRight
    obtain ⟨found, isFound⟩ := Option.ne_none_iff_exists'.mp stored
    rw [kept name found isFound]
    simp

theorem lookup_union_of_cached (cache more : HashMap String ResolvedTarget) {name : String}
    {found : ResolvedTarget} (stored : cache.lookup name = some found) :
    (cache ∪ more).lookup name = some found :=
  AList.lookup_union_eq_some.mpr (Or.inl stored)

theorem lookup_union_of_uncached (cache more : HashMap String ResolvedTarget) {name : String}
    (absent : cache.lookup name = none) : (cache ∪ more).lookup name = more.lookup name :=
  AList.lookup_union_right (AList.lookup_eq_none.mp absent)

theorem FactoryWf.finish {i : Nat} {call : RouteCall} {next : RouteFactory}
    (wf : FactoryWf ctx s) (present : s.calls[i]? = some call) (parsing : call.pc = .parsing)
    (finishes : finishCall s i call = some next) : FactoryWf ctx next := by
  have own := wf.parsing i call present parsing
  unfold finishCall at finishes
  split at finishes
  next routes done parsed =>
    cases finishes
    apply wf.ended (by simp) (fun name found => lookup_union_of_cached _ _)
    · intro j other name apart before busy referred absent
      rw [lookup_union_of_uncached _ _ absent]
      cases mine : call.resolvedTargets.lookup name with
      | none => rfl
      | some found =>
          rcases own.resolved name found mine with stored | ⟨_, shared, _⟩
          · rw [stored] at absent
            cases absent
          · exact absurd absent (wf.apart i j call other name (Ne.symm apart) present before parsing
              busy shared referred)
    · intro name found stored
      rcases AList.lookup_union_eq_some.mp stored with old | ⟨absent, mine⟩
      · exact wf.cached name found old
      · rcases own.resolved name found mine with old | ⟨_, _, known, routed⟩
        · exact wf.cached name found old
        · rw [done] at routed
          exact ⟨known, routed⟩
    · intro _ found isFound name resolved leaf
      have mine := own.leaves found isFound name resolved leaf
      rcases own.resolved name resolved mine with old | ⟨absent, _⟩
      · exact lookup_union_of_cached _ _ old
      · rw [lookup_union_of_uncached _ _ absent]
        exact mine
  next error done failed =>
    cases finishes
    apply wf.ended (by simp) (fun _ _ stored => stored)
    · intro _ _ _ _ _ _ _ absent
      exact absent
    · exact wf.cached
    · intro returned
      cases returned
  · cases finishes

theorem validate_of_accepts {started : Except String Unit} {name : String}
    (accepts : (ctx.during started).Accepts name) : validatePoolName name = .ok () := by
  obtain ⟨server, hosted, registers⟩ := accepts
  obtain ⟨_, _, rfl⟩ := Option.map_eq_some_iff.mp hosted
  simp only [workerServer] at registers
  split at registers
  next valid => exact valid
  · cases registers

/-- A target that is served when its call has parsed is routed once its pools are registered. -/
theorem Serves.routed {started : Except String Unit} {parsed : ParseState} {name : String}
    {found : ResolvedTarget} (serves : Serves (ctx.during started) parsed name found)
    (pools : HashMap String (Option Nat)) :
    Routed parsed.dispatchers (servePools pools (registrations parsed)) name found := by
  intro i named
  obtain ⟨bound, ready⟩ := serves i named
  refine ⟨bound, ?_⟩
  intro remote
  obtain ⟨last, accepts⟩ := ready remote
  rw [lookup_servePools, lastFor_registrations (validate_of_accepts accepts) bound last]
  rfl

theorem FactoryWf.begin {name : String} {value : Json} {started : Except String Unit}
    (wf : FactoryWf ctx s) (separate : Separate ctx s (.begin name value started)) :
    FactoryWf ctx (beginCall ctx s name value started) := by
  obtain ⟨alone, apart⟩ := separate
  have meets := parseRoutes_shares (ctx.during started) name value
    (s := ⟨s.dispatchers, s.targets, s.resolvedTargets, []⟩) rfl apart
  have grows : s.dispatchers <+: (parseAgainst ctx s name value started).2.dispatchers :=
    meets.grows.1
  have shares : Shares (ctx.during started) s.resolvedTargets (targetNames value)
      (parseAgainst ctx s name value started).2 := meets.inv
  constructor
  · intro other found cached
    obtain ⟨known, routed⟩ := wf.cached other found cached
    exact ⟨known, routed.mono grows rfl⟩
  · rintro other found ⟨call, member, returned, rest⟩
    rcases List.mem_append.mp member with before | fresh
    · exact wf.held other found ⟨call, before, returned, rest⟩
    · rw [List.mem_singleton.mp fresh] at returned
      cases returned
  · intro i call found busy
    rcases getElem?_of_snoc found with before | ⟨_, rfl⟩
    · have theirs := wf.parsing i call before busy
      refine ⟨?_, theirs.registering, theirs.leaves⟩
      intro other resolved mine
      rcases theirs.resolved other resolved mine with cached | ⟨absent, referred, known, routed⟩
      · exact Or.inl cached
      · exact Or.inr ⟨absent, referred, known, routed.mono grows rfl⟩
    · constructor
      · intro other resolved mine
        rcases shares.fresh other resolved mine with cached | ⟨absent, referred, known, serves⟩
        · exact Or.inl cached
        · exact Or.inr ⟨absent, referred, known, serves.routed s.pools⟩
      · intro pool served inside
        obtain ⟨⟨asked, dispatcher⟩, kept, same⟩ := List.mem_map.mp inside
        cases same
        exact shares.asked asked dispatcher (List.mem_filter.mp kept).1
      · intro routes parsed other resolved leaf
        exact meets.result routes parsed _ leaf other resolved rfl
  · intro i j left right other different isLeft isRight leftBusy rightBusy inLeft inRight
    rcases getElem?_of_snoc isLeft with leftOld | ⟨leftNew, rfl⟩
    · rcases getElem?_of_snoc isRight with rightOld | ⟨_, rfl⟩
      · exact wf.apart i j left right other different leftOld rightOld leftBusy rightBusy inLeft
          inRight
      · exact alone left (List.mem_of_getElem? leftOld) leftBusy other inRight inLeft
    · rcases getElem?_of_snoc isRight with rightOld | ⟨rightNew, _⟩
      · exact alone right (List.mem_of_getElem? rightOld) rightBusy other inLeft inRight
      · exact absurd (leftNew.trans rightNew.symm) different

theorem FactoryWf.step {action : RouteAction} {next : RouteFactory} (wf : FactoryWf ctx s)
    (separate : Separate ctx s action) (taken : routeStep ctx s action = some next) :
    FactoryWf ctx next := by
  cases action with
  | begin name value started =>
      cases taken
      exact wf.begin separate
  | register i =>
      obtain ⟨call, present, moves⟩ := Option.bind_eq_some_iff.mp taken
      split at moves
      next parsing => exact wf.register present parsing moves
      · cases moves
  | finish i =>
      obtain ⟨call, present, moves⟩ := Option.bind_eq_some_iff.mp taken
      split at moves
      next parsing => exact wf.finish present parsing moves
      · cases moves

end Steps

/-- In every run in which calls that overlap share only cached targets, a named target is one
instance and its pool serves its queue. -/
theorem named_target_is_one_instance (ctx : RouteContext) {actions : List RouteAction}
    {s : RouteFactory} (path : Path (routeStep ctx) (Separate ctx) RouteFactory.new actions s) :
    s.OneInstance := by
  have wf : FactoryWf ctx s := by
    apply path.invariant (factoryWf_new ctx)
    intro state action next wf separate taken
    exact wf.step separate taken
  exact wf.oneInstance

section Checks

def takesPool (registries : Registries) (reference : String) : Bool :=
  match splitNs reference with
  | none => false
  | some (ns, name) =>
      (registries.targets.lookup name).isSome &&
        ((decide (ns = "check") && (registries.checks.lookup name).any fun entry =>
            decide (entryType entry = some "remote")) ||
          (decide (ns = "transform") && (registries.transforms.lookup name).any fun entry =>
            decide (entryType entry = some "remote")))

theorem takesPool_complete {registries : Registries} {reference : String}
    (takes : TakesPool registries reference) : takesPool registries reference = true := by
  obtain ⟨ns, name, entry, split_, place, remote, known⟩ := takes
  have isTarget : (registries.targets.lookup name).isSome = true :=
    Option.isSome_iff_ne_none.mpr known
  rcases place with ⟨isCheck, found⟩ | ⟨isTransform, found⟩
  · simp [takesPool, split_, isTarget, isCheck, found, remote]
  · simp [takesPool, split_, isTarget, isTransform, found, remote]

def isSeparate (ctx : RouteContext) (s : RouteFactory) : RouteAction → Bool
  | .begin _ value _ =>
      (s.calls.all fun call => decide (call.pc ≠ .parsing) ||
        (targetNames value).all fun name => decide (name ∉ targetNames call.value) ||
          (s.resolvedTargets.lookup name).isSome) &&
      (routesReferences value).all fun reference => !takesPool ctx.registries reference
  | _ => true

theorem isSeparate_sound (ctx : RouteContext) (s : RouteFactory) (action : RouteAction)
    (checked : isSeparate ctx s action = true) : Separate ctx s action := by
  cases action with
  | register i => trivial
  | finish i => trivial
  | begin name value started =>
      simp only [isSeparate, Bool.and_eq_true, List.all_eq_true, Bool.or_eq_true,
        decide_eq_true_eq, Bool.not_eq_true'] at checked
      constructor
      · intro call member busy shared inValue inCall
        rcases checked.1 call member with done | cached
        · exact absurd busy done
        · rcases cached shared inValue with elsewhere | stored
          · exact absurd inCall elsewhere
          · exact Option.isSome_iff_ne_none.mp stored
      · intro reference inside takes
        have clear := checked.2 reference inside
        rw [takesPool_complete takes] at clear
        cases clear

/-- The named targets that returned routes hold. -/
def RouteFactory.heldTargets (s : RouteFactory) : List (String × ResolvedTarget) :=
  s.calls.flatMap fun call =>
    match call.pc, call.result with
    | .returned, .ok routes => (routesLeaves routes).filterMap fun leaf =>
        match leaf with
        | (⟨false, "target", name⟩, .target resolved) => some (name, resolved)
        | _ => none
    | _, _ => []

theorem RouteFactory.holds_of_mem {s : RouteFactory} {name : String} {resolved : ResolvedTarget}
    (member : (name, resolved) ∈ s.heldTargets) : s.Holds name resolved := by
  obtain ⟨call, inside, held⟩ := List.mem_flatMap.mp member
  split at held
  next routes returned parsed =>
    obtain ⟨leaf, isLeaf, same⟩ := List.mem_filterMap.mp held
    split at same
    · cases same
      exact ⟨call, inside, returned, routes, parsed, isLeaf⟩
    · cases same
  next => cases held

end Checks

namespace Scenario

/-- A worker server and one remote target. -/
def hosting : RouteContext where
  workerServer := some ⟨fun _ => .ok ()⟩
  jobStore := false
  brokerId := "site-env-0"
  tryFromSecsF64 := fun secs =>
    if secs = defaultHeartbeatTimeoutSecs then .ok 60000000000 else .error "unused"
  registries := ⟨∅, ∅, AList.insert "backend" (.object [("type", .string "remote")]) ∅⟩
  createAction := fun name _ =>
    if name = "remote" then .ok (.target ⟨fun _ => .error (.configError "unused")⟩ none none)
    else .error s!"Unknown action: '{name}'"
  render := fun _ => ""

def backendRoute : Json := .array [.object [("route", .array [.string "target::backend"])]]

def beginRoute : RouteAction := .begin "route" backendRoute (.ok ())

def oneAfterTheOther : List RouteAction :=
  [beginRoute, .register 0, .finish 0, beginRoute, .finish 1]

def overlapping : List RouteAction :=
  [beginRoute, beginRoute, .register 0, .register 1, .finish 0, .finish 1]

end Scenario

open Scenario

theorem named_target_is_one_instance_in_turn :
    ∃ s, Path (routeStep hosting) (Separate hosting) RouteFactory.new oneAfterTheOther s ∧
      s.heldTargets = [("backend", ⟨0, some 0, none⟩), ("backend", ⟨0, some 0, none⟩)] ∧
      s.pools.lookup "backend" = some (some 0) ∧ s.OneInstance := by
  have ran : (run (fun s action => if isSeparate hosting s action then routeStep hosting s action
      else none) RouteFactory.new oneAfterTheOther).any (fun s => decide (s.heldTargets =
        [("backend", ⟨0, some 0, none⟩), ("backend", ⟨0, some 0, none⟩)] ∧
        s.pools.lookup "backend" = some (some 0))) = true := by decide +kernel
  obtain ⟨s, finished, outcome⟩ := (Option.any_eq_true _ _).mp ran
  have path := Path.of_run_if (isSeparate_sound hosting) _ _ finished
  have both := of_decide_eq_true outcome
  exact ⟨s, path, both.1, both.2, named_target_is_one_instance hosting path⟩

/-- Two calls that overlap build the target twice, and the pool serves the second one. -/
theorem named_target_built_twice :
    ∃ s, Path (routeStep hosting) Always RouteFactory.new overlapping s ∧ ¬s.OneInstance := by
  have ran : (run (routeStep hosting) RouteFactory.new overlapping).any (fun s =>
      decide (s.heldTargets =
        [("backend", ⟨0, some 0, none⟩), ("backend", ⟨1, some 1, none⟩)])) = true := by
    decide +kernel
  obtain ⟨s, finished, outcome⟩ := (Option.any_eq_true _ _).mp ran
  have held := of_decide_eq_true outcome
  refine ⟨s, Path.of_run _ _ finished, ?_⟩
  intro one
  have first : s.Holds "backend" ⟨0, some 0, none⟩ := s.holds_of_mem (by simp [held])
  have second : s.Holds "backend" ⟨1, some 1, none⟩ := s.holds_of_mem (by simp [held])
  have same := (one.same "backend" _ _ first second).1
  cases same

end BitsBroker
