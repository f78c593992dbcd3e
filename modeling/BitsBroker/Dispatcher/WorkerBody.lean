import BitsBroker.Job
import BitsBroker.Lib.Relay

/-!
The body of a worker's answer. `handle_complete_data` gives the caller the reading end of a channel
for sixteen frames and answers the worker; a task of its own moves the frames of the request body
into the channel. A frame that could not be read is sent on as an error with its text, and after it
the task stops. The caller may go away at any time.
-/

namespace BitsBroker

open Transition

variable {E : Type}

/-- One frame of a request body; `E` is the error of the HTTP library. -/
abbrev BodyFrame (E : Type) : Type := Except E (List UInt8)

def BodyFrame.isErr : BodyFrame E → Bool
  | .ok _ => false
  | .error _ => true

def BodyFrame.item (toText : E → String) : BodyFrame E → Except String (List UInt8)
  | .ok bytes => .ok bytes
  | .error err => .error (toText err)

def bodyRelay (toText : E → String) :
    Relay.Setup (BodyFrame E) (Except String (List UInt8)) where
  capacity := 16
  final := BodyFrame.isErr
  convert := BodyFrame.item toText

abbrev BodyRelay (E : Type) : Type := Relay.State (BodyFrame E) (Except String (List UInt8))

def bodyStep (toText : E → String) : BodyRelay E → Relay.Action → Option (BodyRelay E) :=
  Relay.step (bodyRelay toText)

/-- The frames before the first error, and the text of that error. -/
def relayedBody (toText : E → String) (body : List (BodyFrame E)) : ByteStream :=
  (body.takeWhile (!BodyFrame.isErr ·) ++ (body.find? BodyFrame.isErr).toList).map
    (BodyFrame.item toText)

theorem sentOf_body (toText : E → String) (body : List (BodyFrame E)) :
    (Relay.sentOf (bodyRelay toText).final body).map (bodyRelay toText).convert =
      relayedBody toText body := by
  rw [Relay.sentOf_eq]
  rfl

/-- A body without errors arrives as it was sent, and only such a body arrives without errors. -/
theorem relayedBody_clean (toText : E → String) (body : List (BodyFrame E))
    (clean : ∀ item ∈ relayedBody toText body, ∃ bytes, item = .ok bytes) :
    ∃ chunks : List (List UInt8), body = chunks.map .ok ∧
      relayedBody toText body = chunks.map .ok := by
  induction body with
  | nil => exact ⟨[], rfl, rfl⟩
  | cons frame rest ih =>
      cases frame with
      | error err =>
          obtain ⟨bytes, wrong⟩ := clean (.error (toText err))
            (by simp [relayedBody, BodyFrame.isErr, BodyFrame.item])
          cases wrong
      | ok bytes =>
          have split_ : relayedBody toText (.ok bytes :: rest) =
              .ok bytes :: relayedBody toText rest := by
            simp [relayedBody, BodyFrame.isErr, BodyFrame.item]
          rw [split_] at clean
          obtain ⟨chunks, whole, relayed⟩ := ih fun item member =>
            clean item (List.mem_cons_of_mem _ member)
          exact ⟨bytes :: chunks, by rw [whole, List.map_cons],
            by rw [split_, relayed, List.map_cons]⟩

/-- What the caller receives is a beginning of what the worker sent, and a normal end means that it
received all of it. -/
theorem worker_body_relayed (toText : E → String) {body : List (BodyFrame E)}
    {actions : List Relay.Action} {s : BodyRelay E}
    (path : Path (bodyStep toText) Always (Relay.start body) actions s) :
    s.taken <+: relayedBody toText body ∧ s.buffer.length ≤ 16 ∧
      (s.ended = true → s.taken = relayedBody toText body ∧
        ((∀ item ∈ s.taken, ∃ bytes, item = .ok bytes) →
          ∃ chunks : List (List UInt8), body = chunks.map .ok ∧ s.taken = chunks.map .ok)) ∧
      (¬ s.Over → ∃ action, action ≠ .drop ∧ (bodyStep toText s action).isSome = true) ∧
      actions.length ≤ 3 * body.length + 3 ∧
      (s.reading = false → ∀ (more : List Relay.Action) (t : BodyRelay E),
        Path (bodyStep toText) Always s more t →
          t.buffer = [] ∧ s.source.length ≤ t.source.length + 1) := by
  have wf : Relay.Wf (bodyRelay toText) body s := .of_path path
  have received := wf.received
  rw [sentOf_body] at received
  refine ⟨received, wf.bounded, fun ended => ?_, fun busy => ?_, ?_, fun gone more t later => ?_⟩
  · have whole := (wf.finished ended).2
    rw [sentOf_body] at whole
    refine ⟨whole, fun clean => ?_⟩
    rw [whole] at clean ⊢
    exact relayedBody_clean toText body clean
  · exact Relay.moves wf (Nat.succ_pos 15) busy
  · have short := Relay.length_le_of_path path
    omega
  · have abandoned := Relay.Abandoned.of_path wf gone later
    exact ⟨abandoned.empty, abandoned.close⟩

/-- A body that breaks off after its first frame. -/
def brokenOff : List (BodyFrame String) := [.ok [1, 2], .error "connection reset", .ok [3]]

theorem worker_body_relayed_brokenOff : ∃ s : BodyRelay String,
    s.taken = [.ok [1, 2], .error "connection reset"] ∧ s.ended = true ∧
      s.taken = relayedBody id brokenOff := by
  have ran : (run (bodyStep id) (Relay.start brokenOff)
      [.read, .send, .read, .receive, .send, .receive, .receive]).any
        (fun s => decide (s.taken = [.ok [1, 2], .error "connection reset"]) && s.ended) = true := by
    decide +kernel
  obtain ⟨s, finished, checked⟩ := (Option.any_eq_true _ _).mp ran
  simp only [Bool.and_eq_true, decide_eq_true_eq] at checked
  have relayed := worker_body_relayed id (Path.of_run _ _ finished)
  exact ⟨s, checked.1, checked.2, (relayed.2.2.1 checked.2).1⟩

end BitsBroker
