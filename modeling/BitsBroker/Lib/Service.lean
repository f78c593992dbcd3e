import Mathlib.Data.List.Basic

/-!
Services that answer calls one after the other, and what it means that one keeps the promises of
another. The promise is a function from states to answers and states. A server may meet faults: then
it may report a failure instead of the answer, and the call may or may not have taken effect. The
states of the server and of the promise are tied by a relation, so that the server may keep less, or
keep it in another form.
-/

namespace Service

variable {Call Answer Fault S C : Type}

/-- The answers to a list of calls, and the state after the last of them. -/
def serveAll (serve : C → Call → Fault → Answer × C) (server : C) :
    List (Call × Fault) → List Answer × C
  | [] => ([], server)
  | (call, fault) :: rest =>
      let (answer, next) := serve server call fault
      let (answers, last) := serveAll serve next rest
      (answer :: answers, last)

/-- One call: the promised answer, or a failure with or without the effect. -/
inductive Served (promise : S → Call → Answer × S) (failure : Call → Answer → Prop) (state : S)
    (call : Call) : Answer → S → Prop
  | kept : Served promise failure state call (promise state call).1 (promise state call).2
  | lost {answer : Answer} : failure call answer → Served promise failure state call answer state
  | unheard {answer : Answer} : failure call answer →
      Served promise failure state call answer (promise state call).2

/-- The calls of a run with their answers. -/
inductive Account (promise : S → Call → Answer × S) (failure : Call → Answer → Prop) :
    S → List (Call × Answer) → S → Prop
  | nil {state : S} : Account promise failure state [] state
  | cons {state next last : S} {call : Call} {answer : Answer} {rest : List (Call × Answer)} :
      Served promise failure state call answer next → Account promise failure next rest last →
      Account promise failure state ((call, answer) :: rest) last

/-- What a server does with a call: it keeps the promise, or it met a fault and says so. -/
inductive Response (promise : S → Call → Answer × S) (failure : Call → Answer → Prop)
    (tied : C → S → Prop) (calm : Prop) (state : S) (call : Call) : Answer × C → Prop
  | kept {after : C} : tied after (promise state call).2 →
      Response promise failure tied calm state call ((promise state call).1, after)
  | lost {answer : Answer} {after : C} : ¬ calm → failure call answer → tied after state →
      Response promise failure tied calm state call (answer, after)
  | unheard {answer : Answer} {after : C} : ¬ calm → failure call answer →
      tied after (promise state call).2 →
      Response promise failure tied calm state call (answer, after)

def Keeps (promise : S → Call → Answer × S) (failure : Call → Answer → Prop)
    (valid : Call → Prop) (calm : Fault → Prop) (serve : C → Call → Fault → Answer × C)
    (tied : C → S → Prop) : Prop :=
  ∀ server state call fault, tied server state → valid call →
    Response promise failure tied (calm fault) state call (serve server call fault)

section Runs

variable {promise : S → Call → Answer × S} {failure : Call → Answer → Prop} {valid : Call → Prop}
  {calm : Fault → Prop} {serve : C → Call → Fault → Answer × C} {tied : C → S → Prop}

theorem serveAll_cons (server : C) (call : Call) (fault : Fault) (rest : List (Call × Fault)) :
    serveAll serve server ((call, fault) :: rest) =
      ((serve server call fault).1 :: (serveAll serve (serve server call fault).2 rest).1,
        (serveAll serve (serve server call fault).2 rest).2) := rfl

theorem Response.answered {calm : Prop} {state next : S} {call : Call} {answer : Answer} {after : C}
    (promised : promise state call = (answer, next)) (ties : tied after next) :
    Response promise failure tied calm state call (answer, after) := by
  obtain ⟨rfl, rfl⟩ := Prod.mk.inj promised
  exact .kept ties

theorem Response.hidden {calm : Prop} {state next : S} {call : Call} {answer reply : Answer} {after : C}
    (promised : promise state call = (reply, next)) (faulty : ¬ calm) (fails : failure call answer)
    (ties : tied after next) : Response promise failure tied calm state call (answer, after) := by
  obtain ⟨rfl, rfl⟩ := Prod.mk.inj promised
  exact .unheard faulty fails ties

theorem Response.served {calm : Prop} {state : S} {call : Call} {result : Answer × C}
    (response : Response promise failure tied calm state call result) :
    ∃ next, Served promise failure state call result.1 next ∧ tied result.2 next := by
  cases response with
  | kept ties => exact ⟨_, .kept, ties⟩
  | lost _ fails ties => exact ⟨_, .lost fails, ties⟩
  | unheard _ fails ties => exact ⟨_, .unheard fails, ties⟩

theorem Response.of_calm {calm : Prop} {state : S} {call : Call} {result : Answer × C}
    (response : Response promise failure tied calm state call result) (quiet : calm) :
    result.1 = (promise state call).1 ∧ tied result.2 (promise state call).2 := by
  cases response with
  | kept ties => exact ⟨rfl, ties⟩
  | lost faulty _ _ => exact absurd quiet faulty
  | unheard faulty _ _ => exact absurd quiet faulty

/-- Over a whole run every answer is the promised one or a reported failure. -/
theorem Keeps.account (keeps : Keeps promise failure valid calm serve tied)
    (requests : List (Call × Fault)) : ∀ {server : C} {state : S}, tied server state →
      (∀ request ∈ requests, valid request.1) →
      ∃ last, Account promise failure state
          ((requests.map (·.1)).zip (serveAll serve server requests).1) last ∧
        tied (serveAll serve server requests).2 last := by
  induction requests with
  | nil => exact fun ties _ => ⟨_, Account.nil, ties⟩
  | cons request rest ih =>
      intro server state ties allowed
      obtain ⟨call, fault⟩ := request
      obtain ⟨next, served, later⟩ :=
        (keeps server state call fault ties (allowed (call, fault) (by simp))).served
      obtain ⟨last, account, ends⟩ := ih later fun request member =>
        allowed request (List.mem_cons_of_mem _ member)
      exact ⟨last, Account.cons served account, ends⟩

/-- Without faults the answers are the promised ones. -/
theorem Keeps.calm_answers (keeps : Keeps promise failure valid calm serve tied)
    (requests : List (Call × Fault)) : ∀ {server : C} {state : S}, tied server state →
      (∀ request ∈ requests, valid request.1 ∧ calm request.2) →
      (serveAll serve server requests).1 =
        (serveAll (fun state call (_ : Unit) => promise state call) state
          (requests.map fun request => (request.1, ()))).1 := by
  induction requests with
  | nil => exact fun _ _ => rfl
  | cons request rest ih =>
      intro server state ties allowed
      obtain ⟨call, fault⟩ := request
      obtain ⟨sound, quiet⟩ := allowed (call, fault) (by simp)
      obtain ⟨same, later⟩ := (keeps server state call fault ties sound).of_calm quiet
      have others := ih later fun request member =>
        allowed request (List.mem_cons_of_mem _ member)
      rw [List.map_cons, serveAll_cons, serveAll_cons, same, others]

end Runs

end Service
