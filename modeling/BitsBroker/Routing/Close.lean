import BitsBroker.Dispatcher.Closing
import BitsBroker.Routing.FirstMatch

/-!
Closing the dispatchers of a routing tree. `Bits::drop` closes the tree of the broker and the trees
of the added routes; a handle of a route may live on and submit further jobs. A closed dispatcher
refuses every job before its work is started. The dispatchers that are closed are all that the trees
can reach: what such a job ends with depends neither on the code of an action that has a dispatcher
nor on any dispatcher that stays open.
-/

namespace BitsBroker

open Transition

mutual

def Switch.closeAll (switch : Switch) : List Nat :=
  match switch with
  | .mk routes => closeRoutes routes

def closeRoutes (routes : List Route) : List Nat :=
  match routes with
  | [] => []
  | .mk _ actions :: routes => closeActions actions ++ closeRoutes routes

def closeActions (actions : List Action) : List Nat :=
  match actions with
  | [] => []
  | action :: rest => action.close ++ closeActions rest

/-- The dispatchers on which an action calls `close`. -/
def Action.close (action : Action) : List Nat :=
  match action with
  | .check _ dispatcher _ | .transform _ dispatcher _ | .target _ dispatcher _ => dispatcher.toList
  | .switch switch => switch.closeAll

end

/-- The first step of `Bits::drop`. -/
def dropCloses (router : Switch) (addedRoutes : List Switch) : List Nat :=
  router.closeAll ++ addedRoutes.flatMap Switch.closeAll

/-- An answer to a call for the job that was made after a call of `close` had returned. -/
def ClosedAnswer {T : Type} (cfg : DispatcherConfig T) (job : Job) (guard : DispatchGuard)
    (result : Except ActionError T) : Prop :=
  ∃ (now j : Nat) (before after : List (DispatcherAction T)) (s t : DispatcherState T)
    (handle : JobHandle) (caller : Caller T) (exit_ : Exit),
    Path (dispatcherStep cfg) Always (DispatcherState.new cfg now) before s ∧ s.Closed ∧
    s.jobs[j]? = some handle ∧ handle.job = job ∧
    Path (dispatcherStep cfg) Always s (.dispatch j guard :: after) t ∧
    t.callers[s.callers.length]? = some caller ∧ caller.pc = .returned exit_ result

theorem ClosedAnswer.error {T : Type} {cfg : DispatcherConfig T} {job : Job} {guard : DispatchGuard}
    {result : Except ActionError T} (answer : ClosedAnswer cfg job guard result) :
    ∃ error, result = .error error := by
  obtain ⟨now, j, before, after, s, t, handle, caller, exit_, path, closed, -, -, later, present,
    pc⟩ := answer
  have wf : ReplyWf s := (ReplyWf.initial cfg now).of_path path
  have void := void_path wf closed later
    (fun _ known => by simp at known) present
  obtain ⟨own, there, state⟩ := void.caller
  obtain rfl := Option.some.inj (present.symm.trans there)
  rcases state with early | ⟨dropped | ⟨error, returned⟩, _⟩
  · simp [pc, DispatchPc.early] at early
  · simp [pc] at dropped
  · rw [pc, DispatchPc.returned.injEq] at returned
    exact ⟨error, returned.2⟩

/-- The dispatchers are closed: they answer as such, whatever the work would have done. -/
structure Outside.Refuses (out : Outside) (closed : List Nat) : Prop where
  check (tick : Nat) {dispatcher : Nat} (job : Job) : dispatcher ∈ closed →
    ∃ cfg answer, ClosedAnswer cfg job .cancelled answer ∧
      ∀ outcome, out.check tick dispatcher job outcome = answer
  transform (tick : Nat) {dispatcher : Nat} (job : Job) : dispatcher ∈ closed →
    ∃ cfg answer, ClosedAnswer cfg job .cancelled answer ∧
      ∀ outcome, (out.transform tick dispatcher job outcome).1 = answer
  target (tick : Nat) {dispatcher : Nat} (job : Job) : dispatcher ∈ closed →
    ∃ cfg answer, ClosedAnswer cfg job .cancelledOrClientGone answer ∧
      ∀ outcome, out.target tick dispatcher job outcome = answer

/-- The same flags of the job, and the same answers of the closed dispatchers. -/
structure Outside.Alike (out other : Outside) (closed : List Nat) : Prop where
  isCancelled : out.isCancelled = other.isCancelled
  clientPresent : out.clientPresent = other.clientPresent
  check (tick : Nat) {dispatcher : Nat} (job : Job) (outcome : Except ActionError CheckResult) :
    dispatcher ∈ closed →
    out.check tick dispatcher job outcome = other.check tick dispatcher job outcome
  transform (tick : Nat) {dispatcher : Nat} (job : Job)
    (outcome : Except ActionError TransformResult) : dispatcher ∈ closed →
    out.transform tick dispatcher job outcome = other.transform tick dispatcher job outcome
  target (tick : Nat) {dispatcher : Nat} (job : Job) (outcome : Except ActionError TargetResult) :
    dispatcher ∈ closed →
    out.target tick dispatcher job outcome = other.target tick dispatcher job outcome

/-- Code that stands in for that of the actions. -/
structure Code where
  check : CheckAction
  transform : TransformAction
  target : TargetAction

mutual

/-- The same tree with other code behind every dispatcher. -/
def Switch.recoded (code : Code) (switch : Switch) : Switch :=
  match switch with
  | .mk routes => .mk (recodedRoutes code routes)

def recodedRoutes (code : Code) (routes : List Route) : List Route :=
  match routes with
  | [] => []
  | .mk name actions :: routes => .mk name (recodedActions code actions) :: recodedRoutes code routes

def recodedActions (code : Code) (actions : List Action) : List Action :=
  match actions with
  | [] => []
  | action :: rest => action.recoded code :: recodedActions code rest

def Action.recoded (code : Code) (action : Action) : Action :=
  match action with
  | .check _ (some dispatcher) silentOverride => .check code.check (some dispatcher) silentOverride
  | .transform _ (some dispatcher) silentOverride =>
      .transform code.transform (some dispatcher) silentOverride
  | .target _ (some dispatcher) silentOverride =>
      .target code.target (some dispatcher) silentOverride
  | .check check none silentOverride => .check check none silentOverride
  | .transform transform none silentOverride => .transform transform none silentOverride
  | .target target none silentOverride => .target target none silentOverride
  | .switch switch => .switch (switch.recoded code)

end

section Closed

variable {out other : Outside} {closed : List Nat} (code : Code)

theorem runCheck_refused (refuses : out.Refuses closed) (alike : out.Alike other closed)
    (check : CheckAction) (job : CowJob) {dispatcher : Nat} (shut : dispatcher ∈ closed) :
    out.runCheck check job (some dispatcher) = other.runCheck code.check job (some dispatcher) := by
  funext tick
  obtain ⟨cfg, answer, -, refused⟩ := refuses.check tick job.get shut
  simp only [Outside.runCheck, attempt, ← alike.check tick _ _ shut, refused]

theorem runTarget_refused (refuses : out.Refuses closed) (alike : out.Alike other closed)
    (target : TargetAction) (job : CowJob) {dispatcher : Nat} (shut : dispatcher ∈ closed) :
    out.runTarget target job (some dispatcher) =
      other.runTarget code.target job (some dispatcher) := by
  funext tick
  obtain ⟨cfg, answer, -, refused⟩ := refuses.target tick job.get shut
  simp only [Outside.runTarget, attempt, ← alike.target tick _ _ shut, refused]

theorem runTransform_error {transform : TransformAction} {job : CowJob} {dispatcher tick : Nat}
    {error : ActionError}
    (refused : ∀ outcome, (out.transform tick dispatcher job.get outcome).1 = .error error) :
    out.runTransform transform job (some dispatcher) tick = .error error := by
  have answered := refused (transform.execute job.get.clone).1
  simp only [Outside.runTransform, Bind.bind, StateT.bind, look, Except.bind, attempt]
  rw [answered]
  rfl

theorem runTransform_refused (refuses : out.Refuses closed) (alike : out.Alike other closed)
    (transform : TransformAction) (job : CowJob) {dispatcher : Nat} (shut : dispatcher ∈ closed) :
    out.runTransform transform job (some dispatcher) =
      other.runTransform code.transform job (some dispatcher) := by
  funext tick
  obtain ⟨cfg, answer, closedly, refused⟩ := refuses.transform tick job.get shut
  obtain ⟨error, rfl⟩ := closedly.error
  have also : ∀ outcome, (other.transform tick dispatcher job.get outcome).1 = .error error := by
    intro outcome
    rw [← alike.transform tick _ _ shut, refused]
  rw [runTransform_error refused, runTransform_error also]

/-- Without a dispatcher an action depends on the flags only. -/
theorem runTarget_direct (alike : out.Alike other closed) (target : TargetAction) (job : CowJob) :
    out.runTarget target job none = other.runTarget target job none := by
  simp only [Outside.runTarget, alike.isCancelled, alike.clientPresent]

mutual

theorem Switch.dispatch_closed (refuses : out.Refuses closed) (alike : out.Alike other closed)
    (switch : Switch) (shut : switch.closeAll ⊆ closed) (job : Job) :
    switch.dispatch out job = (switch.recoded code).dispatch other job := by
  match switch with
  | .mk routes =>
      simp only [Switch.dispatch, Switch.recoded]
      exact dispatchRoutes_closed refuses alike routes shut job []

theorem dispatchRoutes_closed (refuses : out.Refuses closed) (alike : out.Alike other closed)
    (routes : List Route) (shut : closeRoutes routes ⊆ closed) (job : Job)
    (rejections : List String) : dispatchRoutes out job rejections routes =
      dispatchRoutes other job rejections (recodedRoutes code routes) := by
  match routes with
  | [] => simp only [dispatchRoutes, recodedRoutes]
  | .mk name actions :: rest =>
      obtain ⟨here, there⟩ := List.append_subset.mp shut
      simp only [dispatchRoutes, recodedRoutes]
      rw [dispatchActions_closed refuses alike actions here]
      refine bind_congr fun ended => ?_
      cases ended with
      | complete result => rfl
      | next reasons => exact dispatchRoutes_closed refuses alike rest there job reasons

theorem dispatchActions_closed (refuses : out.Refuses closed) (alike : out.Alike other closed)
    (actions : List Action) (shut : closeActions actions ⊆ closed) (job : CowJob)
    (rejections : List String) : dispatchActions out job rejections actions =
      dispatchActions other job rejections (recodedActions code actions) := by
  match actions with
  | [] => simp only [dispatchActions, recodedActions]
  | action :: rest =>
      obtain ⟨here, there⟩ := List.append_subset.mp shut
      simp only [dispatchActions, recodedActions, alike.isCancelled]
      rw [dispatchAction_closed refuses alike action here]
      refine bind_congr fun cancelled => ?_
      cases cancelled with
      | true => rfl
      | false =>
          refine bind_congr fun passage => ?_
          cases passage with
          | pass job => exact dispatchActions_closed refuses alike rest there job rejections
          | complete result => rfl
          | reject reason silent => rfl

theorem dispatchAction_closed (refuses : out.Refuses closed) (alike : out.Alike other closed)
    (action : Action) (shut : action.close ⊆ closed) (job : CowJob) :
    dispatchAction out job action = dispatchAction other job (action.recoded code) := by
  match action with
  | .check check none silentOverride =>
      simp only [dispatchAction, Action.recoded]
      rfl
  | .check check (some dispatcher) silentOverride =>
      simp only [dispatchAction, Action.recoded]
      rw [runCheck_refused code refuses alike check job (shut (by simp [Action.close]))]
  | .transform transform none silentOverride =>
      simp only [dispatchAction, Action.recoded]
      rfl
  | .transform transform (some dispatcher) silentOverride =>
      simp only [dispatchAction, Action.recoded]
      rw [runTransform_refused code refuses alike transform job (shut (by simp [Action.close]))]
  | .target target none silentOverride =>
      simp only [dispatchAction, Action.recoded]
      rw [runTarget_direct alike]
  | .target target (some dispatcher) silentOverride =>
      simp only [dispatchAction, Action.recoded]
      rw [runTarget_refused code refuses alike target job (shut (by simp [Action.close]))]
  | .switch switch =>
      simp only [dispatchAction, Action.recoded]
      rw [Switch.dispatch_closed refuses alike switch shut]

end

end Closed

/-- After `Bits::drop` no code behind a dispatcher runs, and no dispatcher that is still open gets a
job: what a dispatch through the broker's routes or an added route ends with stays the same when all
that code and the answers of all other dispatchers are replaced. -/
theorem dropped_routes_run_nothing {out other : Outside} {router : Switch}
    {addedRoutes : List Switch} (refuses : out.Refuses (dropCloses router addedRoutes))
    (alike : out.Alike other (dropCloses router addedRoutes)) {switch : Switch}
    (known : switch = router ∨ switch ∈ addedRoutes) (code : Code) (job : Job) (tick : Nat) :
    Runner.dispatch out switch job tick = Runner.dispatch other (switch.recoded code) job tick := by
  have shut : switch.closeAll ⊆ dropCloses router addedRoutes := by
    rcases known with rfl | added
    · exact List.subset_append_left _ _
    · intro dispatcher member
      exact List.mem_append_right _ (List.mem_flatMap.mpr ⟨switch, added, member⟩)
  rw [Runner.dispatch, Runner.dispatch, Switch.dispatch_closed code refuses alike switch shut]

namespace Scenario

theorem servingPool_closed {T : Type} (job : Job) (guard : DispatchGuard) :
    ClosedAnswer (servingPool T) job guard (.error .closed) := by
  refine ⟨0, 0, [.submit job, .close, .closer 0 .step, .closer 0 .step, .closer 0 .step,
    .closer 0 .step, .closer 0 .step], [.call 0 .step, .call 0 .step], _, _, _, _, .refused,
    .of_run _ _ rfl, ?_, rfl, rfl, .of_run _ _ rfl, rfl, rfl⟩
  exact List.mem_singleton.mpr rfl

/-- The dispatchers below the bound are closed, the others are small pools. -/
def closedBelow (bound : Nat) : Outside where
  isCancelled := fun _ => false
  clientPresent := fun _ => true
  check := fun _ dispatcher _ outcome => if dispatcher < bound then .error .closed else outcome
  transform := fun _ dispatcher _ outcome =>
    (if dispatcher < bound then .error .closed else outcome, false)
  target := fun _ dispatcher _ outcome => if dispatcher < bound then .error .closed else outcome

theorem closedBelow_refuses {bound : Nat} {closed : List Nat}
    (below : ∀ dispatcher ∈ closed, dispatcher < bound) : (closedBelow bound).Refuses closed where
  check _ dispatcher job shut := ⟨servingPool _, _, servingPool_closed job _,
    fun _ => by simp [closedBelow, below dispatcher shut]⟩
  transform _ dispatcher job shut := ⟨servingPool _, _, servingPool_closed job _,
    fun _ => by simp [closedBelow, below dispatcher shut]⟩
  target _ dispatcher job shut := ⟨servingPool _, _, servingPool_closed job _,
    fun _ => by simp [closedBelow, below dispatcher shut]⟩

theorem closedBelow_alike {bound more : Nat} {closed : List Nat}
    (below : ∀ dispatcher ∈ closed, dispatcher < bound) (within : bound ≤ more) :
    (closedBelow more).Alike (closedBelow bound) closed where
  isCancelled := rfl
  clientPresent := rfl
  check _ dispatcher job outcome shut := by
    have small := below dispatcher shut
    simp [closedBelow, small, Nat.lt_of_lt_of_le small within]
  transform _ dispatcher job outcome shut := by
    have small := below dispatcher shut
    simp [closedBelow, small, Nat.lt_of_lt_of_le small within]
  target _ dispatcher job outcome shut := by
    have small := below dispatcher shut
    simp [closedBelow, small, Nat.lt_of_lt_of_le small within]

/-- Code that would answer every job. -/
def eagerCode : Code where
  check := ⟨fun _ => .ok .pass⟩
  transform := setRequest .null
  target := ⟨fun _ => .ok (.complete (.error "ran"))⟩

end Scenario

theorem dropped_routes_run_nothing_nestedRoutes :
    Runner.dispatch (Scenario.closedBelow 9) Scenario.nestedRoutes (.newWithId "job" .null 0) 0 =
        .failed "internal server error" ∧
      Runner.dispatch (Scenario.closedBelow 9) Scenario.nestedRoutes (.newWithId "job" .null 0) 0 =
        Runner.dispatch (Scenario.closedBelow 3) (Scenario.nestedRoutes.recoded Scenario.eagerCode)
          (.newWithId "job" .null 0) 0 := by
  have low : ∀ dispatcher ∈ dropCloses Scenario.nestedRoutes [], dispatcher < 3 := by decide
  have below : ∀ dispatcher ∈ dropCloses Scenario.nestedRoutes [], dispatcher < 9 :=
    fun dispatcher member => Nat.lt_trans (low dispatcher member) (by decide)
  refine ⟨rfl, ?_⟩
  exact dropped_routes_run_nothing (Scenario.closedBelow_refuses below)
    (Scenario.closedBelow_alike low (by decide)) (Or.inl rfl) Scenario.eagerCode _ _

end BitsBroker
