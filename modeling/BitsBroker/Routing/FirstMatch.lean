import BitsBroker.Dispatcher.LocalAnswer
import BitsBroker.Routing.Switch

/-!
How a switch routes a job. `Switch.dispatch` follows the source: the routes are tried in a loop
that collects the reasons of the rejections, each route on a copy-on-write view of the job, and an
action runs directly or through its dispatcher. What the world answers meanwhile (the flags of the
job, the dispatchers) may differ from one look to the next, so every look takes a new tick.

`Switch.verdict` is what routing is for: a first match over the tree, with the reasons of the
leaves in the order of the tree.
-/

namespace BitsBroker

/-- The fields of a job that are not shared between its clones. -/
def Job.clone (job : Job) : Job where
  id := job.id
  originalRequest := job.originalRequest
  request := job.request
  user := job.user
  createdAt := job.createdAt
  metadata := job.metadata

inductive CowJob where
  | borrowed (job : Job)
  | owned (job : Job)

def CowJob.get : CowJob → Job
  | .borrowed job | .owned job => job

def CowJob.toMut : CowJob → Job
  | .borrowed job => job.clone
  | .owned job => job

/-- What the job and the dispatchers answer at each tick. A dispatcher is given the job and the
outcome of the work; after a transform it also matters whether the work still has the job. -/
structure Outside where
  isCancelled : Nat → Bool
  clientPresent : Nat → Bool
  check : Nat → Nat → Job → Except ActionError CheckResult → Except ActionError CheckResult
  transform : Nat → Nat → Job → Except ActionError TransformResult →
    Except ActionError TransformResult × Bool
  target : Nat → Nat → Job → Except ActionError TargetResult → Except ActionError TargetResult

abbrev Dispatching : Type → Type := StateT Nat (Except ActionError)

def look {A : Type} (answer : Nat → A) : Dispatching A := fun tick => .ok (answer tick, tick + 1)

def attempt {A : Type} (answer : Nat → Except ActionError A) : Dispatching A := fun tick =>
  (answer tick).map fun value => (value, tick + 1)

/-- What an action does with the route it is in. -/
inductive Passage where
  | pass (job : CowJob)
  | complete (result : JobResult)
  | reject (reason : String) (silent : Bool)

/-- How the loop over the routes goes on after a route. -/
inductive RouteEnd where
  | complete (result : JobResult)
  | next (rejections : List String)

section Dispatch

variable (out : Outside)

def Outside.runCheck (check : CheckAction) (job : CowJob) : Option Nat → Dispatching CheckResult
  | some dispatcher => attempt fun tick =>
      out.check tick dispatcher job.get (check.evaluate job.get.clone)
  | none => attempt fun _ => check.evaluate job.get

def Outside.runTransform (transform : TransformAction) (job : CowJob) :
    Option Nat → Dispatching (TransformResult × CowJob)
  | some dispatcher => do
      let (outcome, modified) := transform.execute job.get.clone
      let (answer, shared) ← look fun tick => out.transform tick dispatcher job.get outcome
      match ← attempt fun _ => answer with
      | .continue =>
          if shared then
            throw (.resourceError "transform Arc still shared after dispatch")
          else pure (.continue, .owned modified)
      | result => pure (result, job)
  | none => do
      let (outcome, modified) := transform.execute job.toMut
      let result ← attempt fun _ => outcome
      pure (result, .owned modified)

def Outside.runTarget (target : TargetAction) (job : CowJob) :
    Option Nat → Dispatching TargetResult
  | some dispatcher => attempt fun tick =>
      out.target tick dispatcher job.get (target.dispatch job.get.clone)
  | none => do
      if ← look out.isCancelled then throw .cancelled
      if !(← look out.clientPresent) then throw .clientGone
      attempt fun _ => target.dispatch job.get

mutual

def Switch.dispatch (switch : Switch) (job : Job) : Dispatching TargetResult :=
  match switch with
  | .mk routes => dispatchRoutes job [] routes

def dispatchRoutes (job : Job) (rejections : List String) (routes : List Route) :
    Dispatching TargetResult :=
  match routes with
  | [] =>
      if rejections.isEmpty then pure (.reject "no route matched the request" true)
      else pure (.reject ("; ".intercalate rejections) false)
  | .mk _ actions :: routes => do
      match ← dispatchActions (.borrowed job) rejections actions with
      | .complete result => pure (.complete result)
      | .next rejections => dispatchRoutes job rejections routes

def dispatchActions (job : CowJob) (rejections : List String) (actions : List Action) :
    Dispatching RouteEnd :=
  match actions with
  | [] => pure (.next rejections)
  | action :: rest => do
      if ← look out.isCancelled then throw .cancelled
      match ← dispatchAction job action with
      | .pass job => dispatchActions job rejections rest
      | .complete result => pure (.complete result)
      | .reject reason silent =>
          pure (.next (if silent then rejections else rejections ++ [reason]))

def dispatchAction (job : CowJob) (action : Action) : Dispatching Passage :=
  match action with
  | .check check dispatcher silentOverride => do
      match ← out.runCheck check job dispatcher with
      | .pass => pure (.pass job)
      | .reject reason silent => pure (.reject reason (silentOverride.getD silent))
  | .transform transform dispatcher silentOverride => do
      match ← out.runTransform transform job dispatcher with
      | (.continue, job) => pure (.pass job)
      | (.reject reason silent, _) => pure (.reject reason (silentOverride.getD silent))
  | .target target dispatcher silentOverride => do
      match ← out.runTarget target job dispatcher with
      | .complete result => pure (.complete result)
      | .reject reason silent => pure (.reject reason (silentOverride.getD silent))
  | .switch switch => do
      match ← switch.dispatch job.get with
      | .complete result => pure (.complete result)
      | .reject reason silent => pure (.reject reason silent)

end

end Dispatch

/-- The result that the job ends with. -/
def JobResult.ofDispatch : Except ActionError TargetResult → JobResult
  | .ok (.complete result) => result
  | .ok (.reject reason _) => .error reason
  | .error .cancelled => .cancelled
  | .error .clientGone => .clientGone
  | .error (.queueFull reason) => .overloaded reason
  | .error (.userLimitExceeded reason) => .rateLimited reason
  | .error _ => .failed "internal server error"

def Runner.dispatch (out : Outside) (router : Switch) (job : Job) (tick : Nat) : JobResult :=
  .ofDispatch ((router.dispatch out job tick).map (·.1))

/-- What a routing tree makes of a job; the reasons are those of the leaves. -/
inductive Verdict where
  | complete (result : JobResult)
  | failed (error : ActionError)
  | rejected (reasons : List String)

namespace Verdict

def after (reasons : List String) : Verdict → Verdict
  | .rejected later => .rejected (reasons ++ later)
  | .complete result => .complete result
  | .failed error => .failed error

/-- A rejection at a leaf, of which nothing is said when it is silent. -/
def leaf (silentOverride : Option Bool) (reason : String) (silent : Bool) : Verdict :=
  .rejected (if silentOverride.getD silent then [] else [reason])

def result : Verdict → Except ActionError TargetResult
  | .complete result => .ok (.complete result)
  | .failed error => .error error
  | .rejected [] => .ok (.reject "no route matched the request" true)
  | .rejected reasons => .ok (.reject ("; ".intercalate reasons) false)

end Verdict

mutual

def Switch.verdict (switch : Switch) (job : Job) : Verdict :=
  match switch with
  | .mk routes => routesVerdict job routes

/-- The first route that does not reject the job decides. -/
def routesVerdict (job : Job) (routes : List Route) : Verdict :=
  match routes with
  | [] => .rejected []
  | .mk _ actions :: routes => match actionsVerdict job actions with
      | .rejected reasons => (routesVerdict job routes).after reasons
      | .complete result => .complete result
      | .failed error => .failed error

def actionsVerdict (job : Job) (actions : List Action) : Verdict :=
  match actions with
  | [] => .rejected []
  | .check check _ silentOverride :: rest => match check.evaluate job with
      | .error error => .failed error
      | .ok .pass => actionsVerdict job rest
      | .ok (.reject reason silent) => .leaf silentOverride reason silent
  | .transform transform _ silentOverride :: rest => match transform.execute job with
      | (.error error, _) => .failed error
      | (.ok .continue, modified) => actionsVerdict modified rest
      | (.ok (.reject reason silent), _) => .leaf silentOverride reason silent
  | .target target _ silentOverride :: _ => match target.dispatch job with
      | .error error => .failed error
      | .ok (.complete result) => .complete result
      | .ok (.reject reason silent) => .leaf silentOverride reason silent
  | .switch switch :: _ => switch.verdict job

end

/-- The job is not cancelled, its client stays present, and every dispatcher is a local pool that
admits what it is given. -/
structure Outside.Admits (out : Outside) : Prop where
  uncancelled (tick : Nat) : out.isCancelled tick = false
  present (tick : Nat) : out.clientPresent tick = true
  check (tick dispatcher : Nat) (job : Job) (outcome : Except ActionError CheckResult) :
    ∃ cfg shared, LocalAnswer cfg job .cancelled outcome
      (out.check tick dispatcher job outcome) shared
  transform (tick dispatcher : Nat) (job : Job) (outcome : Except ActionError TransformResult) :
    ∃ cfg, LocalAnswer cfg job .cancelled outcome
      (out.transform tick dispatcher job outcome).1 (out.transform tick dispatcher job outcome).2
  target (tick dispatcher : Nat) (job : Job) (outcome : Except ActionError TargetResult) :
    ∃ cfg shared, LocalAnswer cfg job .cancelledOrClientGone outcome
      (out.target tick dispatcher job outcome) shared

/-- The computation has the same result from every tick on. -/
def Answers {A : Type} (computation : Dispatching A) (result : Except ActionError A) : Prop :=
  ∀ tick, (computation tick).map (·.1) = result

section Answers

variable {A B : Type} {computation : Dispatching A} {rest : A → Dispatching B} {value : A}
  {error : ActionError} {result : Except ActionError B}

theorem Answers.pure (value : A) : Answers (Pure.pure value) (.ok value) := fun _ => rfl

theorem Answers.look {answer : Nat → A} (same : ∀ tick, answer tick = value) :
    Answers (look answer) (.ok value) := by
  intro tick
  simp only [BitsBroker.look, same, Except.map]

theorem Answers.attempt {answer : Nat → Except ActionError A} {settled : Except ActionError A}
    (same : ∀ tick, answer tick = settled) : Answers (attempt answer) settled := by
  intro tick
  simp only [BitsBroker.attempt, same]
  cases settled <;> rfl

theorem Answers.bind_ok (first : Answers computation (.ok value))
    (second : Answers (rest value) result) : Answers (computation >>= rest) result := by
  intro tick
  have here := first tick
  cases ran : computation tick with
  | error error => simp [ran, Except.map] at here
  | ok pair =>
      simp only [ran, Except.map, Except.ok.injEq] at here
      subst here
      have there := second pair.2
      simpa only [Bind.bind, StateT.bind, ran, Except.bind] using there

theorem Answers.bind_error (first : Answers computation (.error error)) :
    Answers (computation >>= rest) (.error error) := by
  intro tick
  have here := first tick
  cases ran : computation tick with
  | error other =>
      simp only [ran, Except.map, Except.error.injEq] at here
      subst here
      simp only [Bind.bind, StateT.bind, ran, Except.bind, Except.map]
  | ok pair => simp [ran, Except.map] at here

end Answers

/-- The lists read the same once they are joined. -/
structure Joins (pushed reasons : List String) : Prop where
  empty : pushed = [] ↔ reasons = []
  text : "; ".intercalate pushed = "; ".intercalate reasons

section Joins

variable {pushed reasons later more : List String}

theorem Joins.refl (reasons : List String) : Joins reasons reasons := ⟨Iff.rfl, rfl⟩

theorem Joins.trans {between : List String} (first : Joins pushed between)
    (second : Joins between reasons) : Joins pushed reasons :=
  ⟨first.empty.trans second.empty, first.text.trans second.text⟩

/-- The reasons of a nested switch come as one. -/
theorem Joins.joined (some_ : reasons ≠ []) : Joins ["; ".intercalate reasons] reasons :=
  ⟨by simpa using some_, String.intercalate_singleton⟩

theorem Joins.append (first : Joins pushed reasons) (second : Joins later more) :
    Joins (pushed ++ later) (reasons ++ more) := by
  by_cases before : pushed = []
  · have none_ := first.empty.mp before
    rw [before, none_, List.nil_append, List.nil_append]
    exact second
  · by_cases after : later = []
    · have none_ := second.empty.mp after
      rw [after, none_, List.append_nil, List.append_nil]
      exact first
    · have someBefore : reasons ≠ [] := fun none_ => before (first.empty.mpr none_)
      have someAfter : more ≠ [] := fun none_ => after (second.empty.mpr none_)
      refine ⟨by simp [before, someBefore], ?_⟩
      rw [String.intercalate_append_of_ne_nil before after,
        String.intercalate_append_of_ne_nil someBefore someAfter, first.text, second.text]

end Joins

/-- How the loop over the routes goes on when a route has a verdict. -/
def RouteEnds (computation : Dispatching RouteEnd) (reasons : List String) : Verdict → Prop
  | .complete result => Answers computation (.ok (.complete result))
  | .failed error => Answers computation (.error error)
  | .rejected more => ∃ pushed, Answers computation (.ok (.next pushed)) ∧
      Joins pushed (reasons ++ more)

section Routing

variable {out : Outside} {job : CowJob} {action : Action} {rest : List Action}
  {pushed reasons : List String}

theorem runCheck_answers (admits : out.Admits) (check : CheckAction) (job : CowJob)
    (dispatcher : Option Nat) :
    Answers (out.runCheck check job dispatcher) (check.evaluate job.get) := by
  cases dispatcher with
  | none => exact .attempt fun _ => rfl
  | some dispatcher =>
      refine .attempt fun tick => ?_
      obtain ⟨cfg, shared, answer⟩ := admits.check tick dispatcher job.get
        (check.evaluate job.get.clone)
      exact answer.eq.1

theorem runTarget_answers (admits : out.Admits) (target : TargetAction) (job : CowJob)
    (dispatcher : Option Nat) :
    Answers (out.runTarget target job dispatcher) (target.dispatch job.get) := by
  cases dispatcher with
  | none =>
      refine .bind_ok (.look admits.uncancelled) ?_
      refine .bind_ok (.look admits.present) ?_
      exact .attempt fun _ => rfl
  | some dispatcher =>
      refine .attempt fun tick => ?_
      obtain ⟨cfg, shared, answer⟩ := admits.target tick dispatcher job.get
        (target.dispatch job.get.clone)
      exact answer.eq.1

/-- A transform that continues leaves its job behind, directly or through a pool. -/
theorem runTransform_answers (admits : out.Admits) (transform : TransformAction) (job : CowJob)
    (dispatcher : Option Nat) {outcome : Except ActionError TransformResult} {modified : Job}
    (executed : transform.execute job.get = (outcome, modified)) :
    ∃ later, Answers (out.runTransform transform job dispatcher) (outcome.map (·, later)) ∧
      (outcome = .ok .continue → later = .owned modified) := by
  cases dispatcher with
  | none =>
      have same : job.toMut = job.get := by cases job <;> rfl
      have direct : transform.execute job.toMut = (outcome, modified) := by rw [same, executed]
      refine ⟨.owned modified, ?_, fun _ => rfl⟩
      simp only [Outside.runTransform, direct]
      cases outcome with
      | error error => exact .bind_error (.attempt fun _ => rfl)
      | ok result => exact .bind_ok (.attempt fun _ => rfl) (.pure _)
  | some dispatcher =>
      have copied : transform.execute job.get.clone = (outcome, modified) := executed
      have answered : ∀ tick, out.transform tick dispatcher job.get outcome = (outcome, false) := by
        intro tick
        obtain ⟨cfg, answer⟩ := admits.transform tick dispatcher job.get outcome
        exact Prod.ext answer.eq.1 answer.eq.2
      have goes : ∀ later, Answers (attempt (fun _ => outcome) >>= fun
            | .continue => pure (.continue, .owned modified)
            | result => pure (result, job)) (outcome.map (·, later)) →
          Answers (out.runTransform transform job (some dispatcher)) (outcome.map (·, later)) := by
        intro later rest
        simp only [Outside.runTransform, copied]
        exact .bind_ok (.look answered) rest
      cases outcome with
      | error error => exact ⟨job, goes job (.bind_error (.attempt fun _ => rfl)), by simp⟩
      | ok result =>
          cases result with
          | «continue» =>
              exact ⟨.owned modified, goes _ (.bind_ok (.attempt fun _ => rfl) (.pure _)),
                fun _ => rfl⟩
          | reject reason silent =>
              exact ⟨job, goes _ (.bind_ok (.attempt fun _ => rfl) (.pure _)), by simp⟩

theorem RouteEnds.goes {computation later : Dispatching RouteEnd} {verdict : Verdict}
    (ends : RouteEnds later reasons verdict)
    (same : ∀ settled, Answers later settled → Answers computation settled) :
    RouteEnds computation reasons verdict := by
  cases verdict with
  | complete result => exact same _ ends
  | failed error => exact same _ ends
  | rejected more =>
      obtain ⟨pushed, answers, joins⟩ := ends
      exact ⟨pushed, same _ answers, joins⟩

/-- What becomes of a route after one of its actions. -/
def Follows (out : Outside) (pushed reasons : List String) (rest : List Action)
    (verdict : Verdict) : Except ActionError Passage → Prop
  | .error error => verdict = .failed error
  | .ok (.pass later) => RouteEnds (dispatchActions out later pushed rest) reasons verdict
  | .ok (.complete result) => verdict = .complete result
  | .ok (.reject reason silent) => verdict = .rejected (if silent then [] else [reason])

theorem dispatchActions_cons (admits : out.Admits) (joins : Joins pushed reasons)
    {passage : Except ActionError Passage} {verdict : Verdict}
    (acts : Answers (dispatchAction out job action) passage)
    (follows : Follows out pushed reasons rest verdict passage) :
    RouteEnds (dispatchActions out job pushed (action :: rest)) reasons verdict := by
  have looks : ∀ settled, Answers (dispatchAction out job action >>= fun
        | .pass job => dispatchActions out job pushed rest
        | .complete result => pure (.complete result)
        | .reject reason silent =>
            pure (.next (if silent then pushed else pushed ++ [reason]))) settled →
      Answers (dispatchActions out job pushed (action :: rest)) settled := by
    intro settled goes
    rw [dispatchActions]
    exact .bind_ok (.look admits.uncancelled) goes
  cases passage with
  | error error =>
      subst follows
      exact looks _ (.bind_error acts)
  | ok passage =>
      cases passage with
      | pass later => exact follows.goes fun settled goes => looks settled (.bind_ok acts goes)
      | complete result =>
          subst follows
          exact looks _ (.bind_ok acts (.pure _))
      | reject reason silent =>
          subst follows
          refine ⟨_, looks _ (.bind_ok acts (.pure _)), ?_⟩
          cases silent with
          | true => simpa using joins
          | false => exact joins.append (.refl _)

theorem check_ends (admits : out.Admits) (joins : Joins pushed reasons) (check : CheckAction)
    (dispatcher : Option Nat) (silentOverride : Option Bool)
    (later : RouteEnds (dispatchActions out job pushed rest) reasons
      (actionsVerdict job.get rest)) :
    RouteEnds (dispatchActions out job pushed (.check check dispatcher silentOverride :: rest))
      reasons (actionsVerdict job.get (.check check dispatcher silentOverride :: rest)) := by
  have runs := runCheck_answers admits check job dispatcher
  have acts : ∀ {passage}, Answers (out.runCheck check job dispatcher >>= fun
      | .pass => pure (.pass job)
      | .reject reason silent => pure (.reject reason (silentOverride.getD silent))) passage →
      Answers (dispatchAction out job (.check check dispatcher silentOverride)) passage := by
    intro passage goes
    rw [dispatchAction]
    exact goes
  rw [actionsVerdict]
  cases evaluated : check.evaluate job.get with
  | error error =>
      rw [evaluated] at runs
      exact dispatchActions_cons admits joins (acts (.bind_error runs)) rfl
  | ok result =>
      rw [evaluated] at runs
      cases result with
      | pass => exact dispatchActions_cons admits joins (acts (.bind_ok runs (.pure _))) later
      | reject reason silent =>
          exact dispatchActions_cons admits joins (acts (.bind_ok runs (.pure _))) rfl

theorem transform_ends (admits : out.Admits) (joins : Joins pushed reasons)
    (transform : TransformAction) (dispatcher : Option Nat) (silentOverride : Option Bool)
    (later : ∀ job : CowJob, RouteEnds (dispatchActions out job pushed rest) reasons
      (actionsVerdict job.get rest)) :
    RouteEnds
      (dispatchActions out job pushed (.transform transform dispatcher silentOverride :: rest))
      reasons (actionsVerdict job.get (.transform transform dispatcher silentOverride :: rest)) := by
  have acts : ∀ {passage}, Answers (out.runTransform transform job dispatcher >>= fun
      | (.continue, job) => pure (.pass job)
      | (.reject reason silent, _) => pure (.reject reason (silentOverride.getD silent))) passage →
      Answers (dispatchAction out job (.transform transform dispatcher silentOverride)) passage := by
    intro passage goes
    rw [dispatchAction]
    exact goes
  rw [actionsVerdict]
  rcases executed : transform.execute job.get with ⟨outcome, modified⟩
  obtain ⟨left_, runs, continues⟩ := runTransform_answers admits transform job dispatcher executed
  cases outcome with
  | error error => exact dispatchActions_cons admits joins (acts (.bind_error runs)) rfl
  | ok result =>
      cases result with
      | «continue» =>
          obtain rfl := continues rfl
          exact dispatchActions_cons admits joins (acts (.bind_ok runs (.pure _)))
            (later (.owned modified))
      | reject reason silent =>
          exact dispatchActions_cons admits joins (acts (.bind_ok runs (.pure _))) rfl

theorem target_ends (admits : out.Admits) (joins : Joins pushed reasons) (target : TargetAction)
    (dispatcher : Option Nat) (silentOverride : Option Bool) :
    RouteEnds (dispatchActions out job pushed (.target target dispatcher silentOverride :: rest))
      reasons (actionsVerdict job.get (.target target dispatcher silentOverride :: rest)) := by
  have runs := runTarget_answers admits target job dispatcher
  have acts : ∀ {passage}, Answers (out.runTarget target job dispatcher >>= fun
      | .complete result => pure (.complete result)
      | .reject reason silent => pure (.reject reason (silentOverride.getD silent))) passage →
      Answers (dispatchAction out job (.target target dispatcher silentOverride)) passage := by
    intro passage goes
    rw [dispatchAction]
    exact goes
  rw [actionsVerdict]
  cases dispatched : target.dispatch job.get with
  | error error =>
      rw [dispatched] at runs
      exact dispatchActions_cons admits joins (acts (.bind_error runs)) rfl
  | ok result =>
      rw [dispatched] at runs
      cases result with
      | complete result =>
          exact dispatchActions_cons admits joins (acts (.bind_ok runs (.pure _))) rfl
      | reject reason silent =>
          exact dispatchActions_cons admits joins (acts (.bind_ok runs (.pure _))) rfl

/-- The reasons of a nested switch arrive joined. -/
theorem switch_ends (admits : out.Admits) (joins : Joins pushed reasons) (switch : Switch)
    (nested : Answers (switch.dispatch out job.get) (switch.verdict job.get).result) :
    RouteEnds (dispatchActions out job pushed (.switch switch :: rest)) reasons
      (actionsVerdict job.get (.switch switch :: rest)) := by
  have acts : ∀ {passage}, Answers (switch.dispatch out job.get >>= fun
      | .complete result => pure (.complete result)
      | .reject reason silent => pure (.reject reason silent)) passage →
      Answers (dispatchAction out job (.switch switch)) passage := by
    intro passage goes
    rw [dispatchAction]
    exact goes
  rw [actionsVerdict]
  cases decided : switch.verdict job.get with
  | complete result =>
      rw [decided] at nested
      exact dispatchActions_cons admits joins (acts (.bind_ok nested (.pure _))) rfl
  | failed error =>
      rw [decided] at nested
      exact dispatchActions_cons admits joins (acts (.bind_error nested)) rfl
  | rejected more =>
      rw [decided] at nested
      cases more with
      | nil => exact dispatchActions_cons admits joins (acts (.bind_ok nested (.pure _))) rfl
      | cons first others =>
          have one : RouteEnds (dispatchActions out job pushed (.switch switch :: rest)) reasons
              (.rejected ["; ".intercalate (first :: others)]) :=
            dispatchActions_cons admits joins (acts (.bind_ok nested (.pure _))) rfl
          obtain ⟨later, answers, read⟩ := one
          refine ⟨later, answers, read.trans ?_⟩
          exact (Joins.refl reasons).append (.joined (by simp))

theorem Verdict.result_of_joins (joins : Joins pushed reasons) :
    Verdict.result (.rejected pushed) = Verdict.result (.rejected reasons) := by
  cases pushed with
  | nil =>
      obtain rfl := joins.empty.mp rfl
      rfl
  | cons first others =>
      cases reasons with
      | nil => simpa using joins.empty.mpr rfl
      | cons reason more => simp only [Verdict.result, joins.text]

mutual

theorem Switch.dispatch_answers (admits : out.Admits) (switch : Switch) (job : Job) :
    Answers (switch.dispatch out job) (switch.verdict job).result := by
  cases switch with
  | mk routes =>
      have answers := dispatchRoutes_answers admits routes job (.refl [])
      rw [Switch.dispatch, Switch.verdict]
      cases decided : routesVerdict job routes <;> simpa [decided, Verdict.after] using answers

theorem dispatchRoutes_answers {pushed reasons : List String} (admits : out.Admits)
    (routes : List Route) (job : Job) (joins : Joins pushed reasons) :
    Answers (dispatchRoutes out job pushed routes)
      ((routesVerdict job routes).after reasons).result := by
  cases routes with
  | nil =>
      rw [dispatchRoutes, routesVerdict, Verdict.after, List.append_nil,
        ← Verdict.result_of_joins joins]
      cases pushed with
      | nil => exact .pure _
      | cons first others => exact .pure _
  | cons route routes =>
      obtain ⟨name, actions⟩ := route
      have ends := dispatchActions_end admits actions (.borrowed job) joins
      rw [dispatchRoutes, routesVerdict]
      cases decided : actionsVerdict job actions with
      | complete result =>
          rw [CowJob.get, decided] at ends
          exact .bind_ok ends (.pure _)
      | failed error =>
          rw [CowJob.get, decided] at ends
          exact .bind_error ends
      | rejected more =>
          rw [CowJob.get, decided] at ends
          obtain ⟨later, answers, read⟩ := ends
          refine .bind_ok answers ?_
          have others := dispatchRoutes_answers admits routes job read
          cases left_ : routesVerdict job routes <;>
            simpa [left_, Verdict.after] using others

theorem dispatchActions_end {pushed reasons : List String} (admits : out.Admits)
    (actions : List Action) (job : CowJob) (joins : Joins pushed reasons) :
    RouteEnds (dispatchActions out job pushed actions) reasons
      (actionsVerdict job.get actions) := by
  cases actions with
  | nil =>
      rw [dispatchActions, actionsVerdict]
      exact ⟨pushed, .pure _, by simpa using joins⟩
  | cons action rest =>
      cases action with
      | check check dispatcher silentOverride =>
          exact check_ends admits joins check dispatcher silentOverride
            (dispatchActions_end admits rest job joins)
      | transform transform dispatcher silentOverride =>
          exact transform_ends admits joins transform dispatcher silentOverride
            fun later => dispatchActions_end admits rest later joins
      | target target dispatcher silentOverride =>
          exact target_ends admits joins target dispatcher silentOverride
      | switch switch =>
          exact switch_ends admits joins switch (switch.dispatch_answers admits job.get)

end

end Routing

/-- A switch routes by first match, whether its actions run directly or through local pools. -/
theorem switch_dispatch_eq_first_match (out : Outside) (admits : out.Admits) (switch : Switch)
    (job : Job) (tick : Nat) :
    (switch.dispatch out job tick).map (·.1) = (switch.verdict job).result ∧
      Runner.dispatch out switch job tick = .ofDispatch (switch.verdict job).result ∧
      PoolsAnswer := by
  have answers := switch.dispatch_answers admits job tick
  refine ⟨answers, ?_, pools_answer⟩
  rw [Runner.dispatch, answers]

namespace Scenario

def servingPool (T : Type) : DispatcherConfig T := ⟨1, .pool 1, none, false⟩

/-- A job that nobody cancels, with its client there and every dispatcher a small pool. -/
def servedOutside : Outside where
  isCancelled := fun _ => false
  clientPresent := fun _ => true
  check := fun _ _ _ outcome => outcome
  transform := fun _ _ _ outcome => (outcome, false)
  target := fun _ _ _ outcome => outcome

theorem servedOutside_admits : servedOutside.Admits where
  uncancelled := fun _ => rfl
  present := fun _ => rfl
  check := fun _ _ job outcome => ⟨servingPool _, false,
    .of_pool rfl (by decide) (by decide) rfl job .cancelled outcome⟩
  transform := fun _ _ job outcome => ⟨servingPool _,
    .of_pool rfl (by decide) (by decide) rfl job .cancelled outcome⟩
  target := fun _ _ job outcome => ⟨servingPool _, false,
    .of_pool rfl (by decide) (by decide) rfl job .cancelledOrClientGone outcome⟩

def setRequest (request : Json) : TransformAction :=
  ⟨fun job => (.ok .continue, { job with request := request })⟩

/-- Rejects a job whose request has been changed. -/
def unchangedOnly (reason : String) : TargetAction :=
  ⟨fun job => match job.request with
    | .null => .ok (.reject reason false)
    | _ => .ok (.reject "changed" false)⟩

/-- The first route changes the job and ends in a switch; the second one sees the job as it was. -/
def nestedRoutes : Switch :=
  .mk [
    .mk "changing" [.transform (setRequest (.bool true)) (some 0) none,
      .switch (.mk [
        .mk "left" [.target (unchangedOnly "left") none none],
        .mk "silent" [.target (unchangedOnly "silent") (some 1) (some true)],
        .mk "right" [.target (unchangedOnly "right") (some 1) none]])],
    .mk "plain" [.check ⟨fun _ => .ok .pass⟩ (some 2) none,
      .target (unchangedOnly "plain") none none]]

end Scenario

theorem switch_dispatch_nestedRoutes :
    (Scenario.nestedRoutes.dispatch Scenario.servedOutside
      (.newWithId "job" .null 0) 0).map (·.1) = .ok (.reject "changed; changed; plain" false) := by
  have routed := (switch_dispatch_eq_first_match Scenario.servedOutside
    Scenario.servedOutside_admits Scenario.nestedRoutes (.newWithId "job" .null 0) 0).1
  rw [routed]
  rfl

end BitsBroker
