import BitsBroker.Lib.HashMap
import BitsBroker.Lib.Table
import BitsBroker.Lib.Transition

/-!
The listener of the worker server. A call of `register_pool` or `start` goes through the steps of
`ensure_started`: it looks at the once-flag, sets it, and binds a listener. The calls of several
threads may overlap between any two of these steps, and an attempt to bind ends as the operating
system decides. `late` and `failed` belong to no code: a call is late if some attempt to bind had
failed when it began.

The flag is set before the listener is bound and it is not taken back when that fails. A call that
comes later finds the flag and reports success, and so does a call that comes in between.
-/

namespace BitsBroker

open Transition Table

def validatePoolName (name : String) : Except String Unit :=
  if name.isEmpty then .error "pool name must not be empty"
  else match name.toList.find? fun ch => !ch.isAlphanum && ch != '_' && ch != '-' with
    | some ch => .error (s!"pool name '{name}' contains invalid character '{ch}'; " ++
        "only alphanumeric characters, underscores, and hyphens are allowed")
    | none => .ok ()

namespace WorkerListener

inductive Request where
  | registerPool (poolName : String) (router : Nat)
  | start

/-- How an attempt to bind ends: with a listener that is served, or in one of three errors. -/
inductive Attempt where
  | served
  | unbound (e : String)
  | blocking (e : String)
  | unconverted (e : String)

def Attempt.result (bindAddr : String) : Attempt → Except String Unit
  | .served => .ok ()
  | .unbound e => .error s!"worker server failed to bind to {bindAddr}: {e}"
  | .blocking e => .error s!"worker server: failed to set non-blocking on listener: {e}"
  | .unconverted e => .error s!"worker server: failed to convert listener to async: {e}"

inductive Pc where
  | entered
  | checking
  | setting
  | binding
  | idle
  | returned (result : Except String Unit) (tried : Bool)

structure Call where
  request : Request
  late : Bool
  pc : Pc

structure Server where
  host : String
  port : Nat
  pools : HashMap String Nat
  started : Bool
  listening : Bool
  failed : Bool
  calls : List Call

def new (host : String) (port : Nat) : Server where
  host := host
  port := port
  pools := ∅
  started := false
  listening := false
  failed := false
  calls := []

def Server.address (s : Server) : String := s!"{s.host}:{s.port}"

inductive Move where
  | enter
  | check
  | set
  | bind (attempt : Attempt)

inductive Action where
  | call (request : Request)
  | move (i : Nat) (move : Move)

def Server.moved (s : Server) (i : Nat) (call : Call) (pc : Pc) : Server :=
  { s with calls := s.calls.set i { call with pc := pc } }

/-- What a call does before it asks for the listener. -/
def enter (s : Server) (i : Nat) (call : Call) : Server :=
  match call.request with
  | .registerPool poolName router =>
      match validatePoolName poolName with
      | .error e => s.moved i call (.returned (.error e) false)
      | .ok () => ({ s with pools := AList.insert poolName router s.pools }).moved i call .checking
  | .start =>
      if s.pools.entries.isEmpty then s.moved i call .idle else s.moved i call .checking

def bind (s : Server) (i : Nat) (call : Call) (attempt : Attempt) : Server :=
  let after := match attempt with
    | .served => { s with listening := true }
    | .unbound _ | .blocking _ | .unconverted _ => { s with failed := true }
  after.moved i call (.returned (attempt.result s.address) true)

def moveCall (s : Server) (i : Nat) (call : Call) : Move → Pc → Option Server
  | .enter, .entered => some (enter s i call)
  | .check, .checking =>
      some (s.moved i call (if s.started then .returned (.ok ()) false else .setting))
  | .set, .setting => some (({ s with started := true }).moved i call .binding)
  | .bind attempt, .binding => some (bind s i call attempt)
  | _, _ => none

def step (s : Server) : Action → Option Server
  | .call request => some { s with calls := s.calls ++ [⟨request, s.failed, .entered⟩] }
  | .move i move => s.calls[i]?.bind fun call => moveCall s i call move call.pc

/-- A call that reports success has a listener, and a call after a failed attempt tries again or
reports an error. -/
structure Sound (s : Server) : Prop where
  listens : ∀ call ∈ s.calls, ∀ tried, call.pc = .returned (.ok ()) tried → s.listening = true
  retries : ∀ call ∈ s.calls, call.late = true →
    call.pc ≠ .idle ∧ ∀ tried, call.pc = .returned (.ok ()) tried → tried = true

/-- Every attempt to bind succeeds, and no call looks at the flag while another one has set it and
has not bound the listener. -/
def Orderly (s : Server) : Action → Prop
  | .move _ (.bind attempt) => attempt = .served
  | .move _ .check => s.listening = true ∨ ∀ call ∈ s.calls, call.pc ≠ .binding
  | _ => True

/-- The flag is set only if the listener is there or about to be bound, and nothing has failed. -/
structure Wf (s : Server) : Prop where
  started : s.started = true → s.listening = true ∨ ∃ call ∈ s.calls, call.pc = .binding
  listens : ∀ call ∈ s.calls, ∀ tried, call.pc = .returned (.ok ()) tried → s.listening = true
  failed : s.failed = false
  late : ∀ call ∈ s.calls, call.late = false

theorem Wf.sound {s : Server} (wf : Wf s) : Sound s := by
  refine ⟨wf.listens, ?_⟩
  intro call member late
  rw [wf.late call member] at late
  cases late

theorem wf_new (host : String) (port : Nat) : Wf (new host port) := by
  constructor
  · intro started
    cases started
  · intro call member
    cases member
  · rfl
  · intro call member
    cases member

/-- One call moves on, after a change that keeps the other calls and any listener. -/
theorem Wf.moved {before s : Server} (wf : Wf before) {i : Nat} {call : Call} {pc : Pc}
    (calls : s.calls = before.calls) (kept : before.listening = true → s.listening = true)
    (failed : s.failed = false) (found : s.calls[i]? = some call)
    (started : s.started = true → s.listening = true ∨ pc = .binding ∨
      call.pc ≠ .binding ∧ ∃ other ∈ s.calls, other.pc = .binding)
    (listens : ∀ tried, pc = .returned (.ok ()) tried → s.listening = true) :
    Wf (s.moved i call pc) := by
  have inside : ∀ other ∈ (s.moved i call pc).calls,
      other ∈ before.calls ∨ other = { call with pc } := by
    intro other member
    rw [← calls]
    exact List.mem_or_eq_of_mem_set member
  constructor
  · intro flag
    rcases started flag with bound | here | ⟨elsewhere, other, member, binding⟩
    · exact Or.inl bound
    · right
      refine ⟨{ call with pc }, ?_, here⟩
      exact List.mem_set (List.getElem?_eq_some_iff.mp found).1 _
    · right
      obtain ⟨j, position⟩ := List.mem_iff_getElem?.mp member
      have apart : i ≠ j := by
        rintro rfl
        rw [found] at position
        cases position
        exact elsewhere binding
      refine ⟨other, List.mem_of_getElem? (i := j) ?_, binding⟩
      simpa [Server.moved, apart] using position
  · intro other member tried returned
    rcases inside other member with same | rfl
    · exact kept (wf.listens other same tried returned)
    · exact listens tried returned
  · exact failed
  · intro other member
    rcases inside other member with same | rfl
    · exact wf.late other same
    · rw [calls] at found
      exact wf.late call (List.mem_of_getElem? found)

/-- A call that is not binding leaves any other call where it binds. -/
theorem Wf.waits {s : Server} (wf : Wf s) {call : Call} (pc : Pc) (elsewhere : call.pc ≠ .binding)
    (flag : s.started = true) : s.listening = true ∨ pc = .binding ∨
      call.pc ≠ .binding ∧ ∃ other ∈ s.calls, other.pc = .binding := by
  rcases wf.started flag with bound | binding
  · exact Or.inl bound
  · exact Or.inr (Or.inr ⟨elsewhere, binding⟩)

theorem Wf.enter {s : Server} (wf : Wf s) {i : Nat} {call : Call}
    (found : s.calls[i]? = some call) (entered : call.pc = .entered) :
    Wf (enter s i call) := by
  have elsewhere : call.pc ≠ .binding := by
    rw [entered]
    intro same
    cases same
  unfold WorkerListener.enter
  split
  next poolName router _ =>
    split
    · exact wf.moved rfl id wf.failed found (wf.waits _ elsewhere) (by simp)
    · have inserted : Wf { s with pools := AList.insert poolName router s.pools } :=
        ⟨wf.started, wf.listens, wf.failed, wf.late⟩
      exact inserted.moved rfl id wf.failed found (inserted.waits _ elsewhere) (by simp)
  next =>
    split
    · exact wf.moved rfl id wf.failed found (wf.waits _ elsewhere) (by simp)
    · exact wf.moved rfl id wf.failed found (wf.waits _ elsewhere) (by simp)

theorem Wf.check {s : Server} (wf : Wf s) {i : Nat} {call : Call}
    (found : s.calls[i]? = some call) (checking : call.pc = .checking)
    (orderly : s.listening = true ∨ ∀ other ∈ s.calls, other.pc ≠ .binding) :
    Wf (s.moved i call (if s.started then .returned (.ok ()) false else .setting)) := by
  have elsewhere : call.pc ≠ .binding := by
    rw [checking]
    intro same
    cases same
  apply wf.moved rfl id wf.failed found (wf.waits _ elsewhere)
  intro tried returned
  by_cases flag : s.started = true
  · rcases orderly with bound | alone
    · exact bound
    · rcases wf.started flag with bound | ⟨other, member, binding⟩
      · exact bound
      · exact absurd binding (alone other member)
  · rw [if_neg flag] at returned
    cases returned

theorem Wf.step {s next : Server} {action : Action} (wf : Wf s) (orderly : Orderly s action)
    (taken : step s action = some next) : Wf next := by
  cases action with
  | call request =>
      cases taken
      constructor
      · intro flag
        rcases wf.started flag with bound | ⟨other, member, binding⟩
        · exact Or.inl bound
        · exact Or.inr ⟨other, List.mem_append_left _ member, binding⟩
      · intro call member tried returned
        rcases List.mem_append.mp member with old | fresh
        · exact wf.listens call old tried returned
        · rw [List.mem_singleton.mp fresh] at returned
          cases returned
      · exact wf.failed
      · intro call member
        rcases List.mem_append.mp member with old | fresh
        · exact wf.late call old
        · rw [List.mem_singleton.mp fresh]
          exact wf.failed
  | move i move =>
      obtain ⟨call, found, moves⟩ := Option.bind_eq_some_iff.mp taken
      unfold moveCall at moves
      split at moves
      next entered =>
        cases moves
        exact wf.enter found entered
      next checking =>
        cases moves
        exact wf.check found checking orderly
      next setting =>
        cases moves
        apply Wf.moved (s := { s with started := true }) wf rfl id wf.failed found
        · intro _
          exact Or.inr (Or.inl rfl)
        · intro tried returned
          cases returned
      next attempt binding =>
        cases moves
        have served : attempt = .served := orderly
        subst served
        apply Wf.moved (s := { s with listening := true }) wf rfl (fun _ => rfl) wf.failed found
        · intro _
          exact Or.inl rfl
        · intro _ _
          rfl
      next => cases moves

/-- In every run whose attempts to bind all succeed and in which no call looks at the flag between
the two halves of a start, success means that a listener is served. -/
theorem reported_success_listens (host : String) (port : Nat) {actions : List Action} {s : Server}
    (path : Path step Orderly (new host port) actions s) : Sound s := by
  apply Wf.sound
  apply path.invariant (wf_new host port)
  intro state action next wf orderly taken
  exact wf.step orderly taken

/-- The flag is set and nobody is left who would bind a listener. -/
structure Stuck (s : Server) : Prop where
  started : s.started = true
  silent : s.listening = false
  nobody : ∀ call ∈ s.calls, call.pc ≠ .setting ∧ call.pc ≠ .binding

theorem Stuck.moved {before s : Server} (stuck : Stuck before) {i : Nat} {call : Call} {pc : Pc}
    (calls : s.calls = before.calls) (started : s.started = true) (silent : s.listening = false)
    (elsewhere : pc ≠ .setting ∧ pc ≠ .binding) : Stuck (s.moved i call pc) := by
  refine ⟨started, silent, ?_⟩
  intro other member
  rcases List.mem_or_eq_of_mem_set member with same | rfl
  · rw [calls] at same
    exact stuck.nobody other same
  · exact elsewhere

theorem Stuck.enter {s : Server} (stuck : Stuck s) (i : Nat) (call : Call) :
    Stuck (enter s i call) := by
  unfold WorkerListener.enter
  split
  next poolName router _ =>
    split
    · exact stuck.moved rfl stuck.started stuck.silent (by simp)
    · exact Stuck.moved (s := { s with pools := AList.insert poolName router s.pools }) stuck rfl
        stuck.started stuck.silent (by simp)
  next =>
    split
    · exact stuck.moved rfl stuck.started stuck.silent (by simp)
    · exact stuck.moved rfl stuck.started stuck.silent (by simp)

theorem Stuck.step {s next : Server} {action : Action} (stuck : Stuck s)
    (taken : step s action = some next) : Stuck next := by
  cases action with
  | call request =>
      cases taken
      refine ⟨stuck.started, stuck.silent, ?_⟩
      intro call member
      rcases List.mem_append.mp member with old | fresh
      · exact stuck.nobody call old
      · rw [List.mem_singleton.mp fresh]
        simp
  | move i move =>
      obtain ⟨call, found, moves⟩ := Option.bind_eq_some_iff.mp taken
      have nobody := stuck.nobody call (List.mem_of_getElem? found)
      unfold moveCall at moves
      split at moves
      next entered =>
        cases moves
        exact stuck.enter i call
      next checking =>
        cases moves
        rw [if_pos stuck.started]
        exact stuck.moved rfl stuck.started stuck.silent (by simp)
      next setting => exact absurd setting nobody.1
      next attempt binding => exact absurd binding nobody.2
      next => cases moves

/-- Once an attempt to bind has failed and nobody else is about to bind, no continuation of the
run ever gets a listener. -/
theorem failed_start_is_final {s last : Server} (stuck : Stuck s) {actions : List Action}
    (path : Path step Always s actions last) : last.listening = false := by
  have still : Stuck last := by
    apply path.invariant stuck
    intro state action next stuck _ taken
    exact stuck.step taken
  exact still.silent

def isOrderly (s : Server) : Action → Bool
  | .move _ (.bind .served) => true
  | .move _ (.bind _) => false
  | .move _ .check => s.listening || s.calls.all fun call =>
      match call.pc with
      | .binding => false
      | _ => true
  | _ => true

theorem isOrderly_sound (s : Server) (action : Action) (checked : isOrderly s action = true) :
    Orderly s action := by
  unfold isOrderly at checked
  split at checked
  · rfl
  · cases checked
  next =>
    rcases Bool.or_eq_true_iff.mp checked with bound | alone
    · exact Or.inl bound
    · right
      intro call member binding
      have passes := List.all_eq_true.mp alone call member
      simp [binding] at passes
  next other binds checks =>
    cases action with
    | call request => trivial
    | move i move =>
        cases move with
        | enter => trivial
        | check => exact absurd rfl (checks i)
        | set => trivial
        | bind attempt => exact absurd rfl (binds i attempt)

def Call.succeeded (call : Call) : Bool :=
  match call.pc with
  | .returned (.ok ()) _ => true
  | _ => false

theorem Call.succeeded_iff (call : Call) :
    call.succeeded = true ↔ ∃ tried, call.pc = .returned (.ok ()) tried := by
  unfold Call.succeeded
  constructor
  · intro passes
    split at passes
    next tried returned => exact ⟨tried, returned⟩
    next => cases passes
  · rintro ⟨tried, returned⟩
    rw [returned]

namespace Scenario

def request (i : Nat) (call : Request) (attempt : Attempt) : List Action :=
  [.call call, .move i .enter, .move i .check, .move i .set, .move i (.bind attempt)]

def shared : List Action :=
  request 0 (.registerPool "pool" 0) .served ++ [.call .start, .move 1 .enter, .move 1 .check]

/-- The port is taken when the first pool is registered and free afterwards. -/
def taken : List Action :=
  request 0 (.registerPool "pool" 0) (.unbound "address in use") ++
    [.call (.registerPool "pool" 1), .move 1 .enter, .move 1 .check]

end Scenario

open WorkerListener.Scenario

theorem reported_success_listens_shared :
    ∃ last, Path step Orderly (new "localhost" 9000) shared last ∧
      last.calls.all Call.succeeded = true ∧ Sound last := by
  have ran : (run (fun s action => if isOrderly s action then step s action else none)
      (new "localhost" 9000) shared).any (fun s => s.calls.all Call.succeeded) = true := by
    decide +kernel
  obtain ⟨last, finished, succeeded⟩ := (Option.any_eq_true _ _).mp ran
  have path := Path.of_run_if isOrderly_sound _ _ finished
  exact ⟨last, path, succeeded, reported_success_listens "localhost" 9000 path⟩

theorem unserved_success : ∃ last, Path step Always (new "localhost" 9000) taken last ∧
    ¬Sound last := by
  have ran : (run step (new "localhost" 9000) taken).any
      (fun s => s.calls.any Call.succeeded && !s.listening) = true := by decide +kernel
  obtain ⟨last, finished, outcome⟩ := (Option.any_eq_true _ _).mp ran
  refine ⟨last, Path.of_run _ _ finished, ?_⟩
  intro sound
  simp only [Bool.and_eq_true, List.any_eq_true, Bool.not_eq_true'] at outcome
  obtain ⟨⟨call, member, succeeded⟩, silent⟩ := outcome
  obtain ⟨tried, returned⟩ := call.succeeded_iff.mp succeeded
  have listening := sound.listens call member tried returned
  rw [silent] at listening
  cases listening

end WorkerListener

end BitsBroker
