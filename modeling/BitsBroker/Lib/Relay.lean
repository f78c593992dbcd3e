import BitsBroker.Lib.Transition

/-!
A task that moves the frames of a source into a bounded channel, and the reader of that channel. The
task reads a frame, waits for room and sends it; it stops after a final frame, at the end of the
source, or when it finds the reader gone. Task and reader take their steps in any order.

What the reader has and what it can still get together are what is to be sent of the source, as long
as the reader is there. Every step takes something off a measure.
-/

namespace Relay

open Transition

variable {Frame Item : Type}

structure Setup (Frame Item : Type) where
  capacity : Nat
  final : Frame → Bool
  convert : Frame → Item

/-- What is sent of a list of frames: all of it up to the first final frame, and that one. -/
def sentOf (final : Frame → Bool) : List Frame → List Frame
  | [] => []
  | frame :: rest => if final frame then [frame] else frame :: sentOf final rest

theorem sentOf_eq (final : Frame → Bool) (frames : List Frame) :
    sentOf final frames = frames.takeWhile (!final ·) ++ (frames.find? final).toList := by
  induction frames with
  | nil => rfl
  | cons frame rest ih =>
      by_cases last : final frame = true
      · simp [sentOf, last]
      · simp [sentOf, last, ih]

structure State (Frame Item : Type) where
  source : List Frame
  held : Option Frame
  sending : Bool
  buffer : List Item
  reading : Bool
  taken : List Item
  ended : Bool

def start (source : List Frame) : State Frame Item where
  source := source
  held := none
  sending := true
  buffer := []
  reading := true
  taken := []
  ended := false

inductive Action where
  | read
  | send
  | receive
  | drop
deriving DecidableEq

def readFrame (s : State Frame Item) : Option (State Frame Item) :=
  match s.sending, s.held, s.source with
  | true, none, [] => some { s with sending := false }
  | true, none, frame :: rest => some { s with source := rest, held := some frame }
  | _, _, _ => none

def sendFrame (setup : Setup Frame Item) (s : State Frame Item) : Option (State Frame Item) :=
  match s.held with
  | none => none
  | some frame =>
      if s.reading then
        if s.buffer.length < setup.capacity then some { s with
          held := none
          buffer := s.buffer ++ [setup.convert frame]
          sending := !setup.final frame }
        else none
      else some { s with held := none, sending := false }

def receiveItem (s : State Frame Item) : Option (State Frame Item) :=
  match s.reading, s.ended, s.buffer with
  | true, false, item :: rest => some { s with buffer := rest, taken := s.taken ++ [item] }
  | true, false, [] => if s.sending then none else some { s with ended := true }
  | _, _, _ => none

def dropReader (s : State Frame Item) : Option (State Frame Item) :=
  if s.reading then some { s with reading := false, buffer := [] } else none

def step (setup : Setup Frame Item) (s : State Frame Item) : Action → Option (State Frame Item)
  | .read => readFrame s
  | .send => sendFrame setup s
  | .receive => receiveItem s
  | .drop => dropReader s

/-- The frames that the task is still going to send. -/
def State.unsent (setup : Setup Frame Item) (s : State Frame Item) : List Frame :=
  if s.sending then sentOf setup.final (s.held.toList ++ s.source) else []

structure Wf (setup : Setup Frame Item) (source : List Frame) (s : State Frame Item) : Prop where
  conserved : s.reading = true →
    s.taken ++ s.buffer ++ (s.unsent setup).map setup.convert =
      (sentOf setup.final source).map setup.convert
  received : s.taken <+: (sentOf setup.final source).map setup.convert
  bounded : s.buffer.length ≤ setup.capacity
  idle : s.sending = false → s.held = none
  gone : s.reading = false → s.buffer = []
  finished : s.ended = true → s.sending = false ∧
    s.taken = (sentOf setup.final source).map setup.convert

/-- Every step takes something off. -/
def State.rank (s : State Frame Item) : Nat :=
  3 * s.source.length + 2 * s.held.toList.length + s.buffer.length + s.sending.toNat +
    s.reading.toNat + (!s.ended).toNat

/-- The task has stopped, and the reader has seen the end or is gone. -/
def State.Over (s : State Frame Item) : Prop :=
  s.sending = false ∧ (s.reading = true → s.ended = true)

section Runs

variable {setup : Setup Frame Item} {source : List Frame} {s next : State Frame Item}

/-- The steps of the task and the reader, one rule for each way they can go. -/
inductive Step (setup : Setup Frame Item) (s : State Frame Item) :
    Action → State Frame Item → Prop
  | finish : s.sending = true → s.held = none → s.source = [] →
      Step setup s .read { s with sending := false }
  | take {frame rest} : s.sending = true → s.held = none → s.source = frame :: rest →
      Step setup s .read { s with source := rest, held := some frame }
  | put {frame} : s.held = some frame → s.reading = true → s.buffer.length < setup.capacity →
      Step setup s .send { s with
        held := none
        buffer := s.buffer ++ [setup.convert frame]
        sending := !setup.final frame }
  | stop {frame} : s.held = some frame → s.reading = false →
      Step setup s .send { s with held := none, sending := false }
  | receive {item rest} : s.reading = true → s.ended = false → s.buffer = item :: rest →
      Step setup s .receive { s with buffer := rest, taken := s.taken ++ [item] }
  | close : s.reading = true → s.ended = false → s.buffer = [] → s.sending = false →
      Step setup s .receive { s with ended := true }
  | drop : s.reading = true → Step setup s .drop { s with reading := false, buffer := [] }

theorem step_cases {action : Action} (taken : step setup s action = some next) :
    Step setup s action next := by
  cases action with
  | read =>
      simp only [step, readFrame] at taken
      split at taken
      next sending held empty =>
        cases taken
        exact .finish sending held empty
      next sending held more =>
        cases taken
        exact .take sending held more
      next => cases taken
  | send =>
      simp only [step, sendFrame] at taken
      split at taken
      next => cases taken
      next frame held =>
        split at taken
        next reading =>
          split at taken
          next room =>
            cases taken
            exact .put held reading room
          next => cases taken
        next gone =>
          cases taken
          exact .stop held (by simpa using gone)
  | receive =>
      simp only [step, receiveItem] at taken
      split at taken
      next reading ended more =>
        cases taken
        exact .receive reading ended more
      next reading ended empty =>
        split at taken
        next => cases taken
        next stopped =>
          cases taken
          exact .close reading ended empty (by simpa using stopped)
      next => cases taken
  | drop =>
      simp only [step, dropReader] at taken
      split at taken
      next reading =>
        cases taken
        exact .drop reading
      next => cases taken

theorem Wf.initial (setup : Setup Frame Item) (source : List Frame) :
    Wf setup source (start source) where
  conserved _ := by simp [start, State.unsent]
  received := List.nil_prefix
  bounded := Nat.zero_le _
  idle sending := by simp [start] at sending
  gone reading := by simp [start] at reading
  finished ended := by simp [start] at ended

theorem unsent_of_held {frame : Frame} (wf : Wf setup source s) (held : s.held = some frame) :
    s.unsent setup = frame :: if setup.final frame then [] else sentOf setup.final s.source := by
  have sending : s.sending = true := by
    by_contra idle
    simp [wf.idle (by simpa using idle)] at held
  simp only [State.unsent, sending, held, if_true, Option.toList_some, List.singleton_append,
    sentOf]
  split <;> rfl

theorem Wf.step {action : Action} (wf : Wf setup source s)
    (taken : step setup s action = some next) : Wf setup source next := by
  cases step_cases taken with
  | finish sending held empty =>
      have nothing : s.unsent setup = [] := by simp [State.unsent, sending, held, empty, sentOf]
      refine ⟨fun reading => ?_, wf.received, wf.bounded, fun _ => held, wf.gone, fun ended => ?_⟩
      · have conserved := wf.conserved reading
        rw [nothing] at conserved
        simpa [State.unsent] using conserved
      · exact ⟨rfl, (wf.finished ended).2⟩
  | take sending held more =>
      refine ⟨fun reading => ?_, wf.received, wf.bounded, fun idle => ?_, wf.gone, wf.finished⟩
      · simpa [State.unsent, sending, held, more] using wf.conserved reading
      · simp [sending] at idle
  | @put frame held reading room =>
      have unsent := unsent_of_held wf held
      have conserved := wf.conserved reading
      rw [unsent] at conserved
      refine ⟨fun _ => ?_, wf.received, ?_, fun _ => rfl, fun gone => ?_, fun ended => ?_⟩
      · by_cases final : setup.final frame = true
        · simpa [State.unsent, final] using conserved
        · simpa [State.unsent, final] using conserved
      · simp only [List.length_append, List.length_singleton]
        omega
      · simp [reading] at gone
      · have stopped := wf.idle (wf.finished ended).1
        simp [held] at stopped
  | stop held gone =>
      refine ⟨fun reading => ?_, wf.received, wf.bounded, fun _ => rfl, wf.gone, fun ended => ?_⟩
      · simp [gone] at reading
      · exact ⟨rfl, (wf.finished ended).2⟩
  | @receive item rest reading open_ more =>
      have conserved := wf.conserved reading
      rw [more] at conserved
      have bounded := wf.bounded
      rw [more, List.length_cons] at bounded
      refine ⟨fun _ => ?_, ?_, by simp only; omega, wf.idle, fun gone => ?_, fun ended => ?_⟩
      · simpa [State.unsent] using conserved
      · exact ⟨rest ++ (s.unsent setup).map setup.convert, by simpa using conserved⟩
      · simp [reading] at gone
      · simp [open_] at ended
  | close reading open_ empty stopped =>
      have conserved := wf.conserved reading
      refine ⟨fun _ => by simpa [State.unsent] using conserved, wf.received, wf.bounded, wf.idle,
        wf.gone, fun _ => ⟨stopped, ?_⟩⟩
      simpa [State.unsent, stopped, empty] using conserved
  | drop reading =>
      refine ⟨fun reads => ?_, wf.received, Nat.zero_le _, wf.idle, fun _ => rfl, wf.finished⟩
      simp at reads

theorem Wf.of_path {actions : List Action} {allowed : State Frame Item → Action → Prop}
    (path : Path (Relay.step setup) allowed (start source) actions s) : Wf setup source s :=
  path.invariant (Wf.initial setup source) fun _ _ _ wf _ taken => wf.step taken

theorem rank_step {action : Action} (wf : Wf setup source s)
    (taken : step setup s action = some next) :
    next.rank < s.rank := by
  cases step_cases taken with
  | finish sending held empty => simp [State.rank, sending]
  | take sending held more =>
      simp only [State.rank, more, held, List.length_cons, Option.toList_some, Option.toList_none,
        List.length_nil]
      omega
  | @put frame held reading room =>
      have fewer : (!setup.final frame).toNat ≤ s.sending.toNat := by
        cases sending : s.sending with
        | true => exact Bool.toNat_le _
        | false => simp [wf.idle sending] at held
      simp only [State.rank, held, Option.toList_some, Option.toList_none, List.length_nil,
        List.length_append, List.length_singleton]
      omega
  | stop held gone =>
      simp only [State.rank, held, Option.toList_some, Option.toList_none, List.length_nil,
        List.length_singleton, Bool.toNat_false]
      omega
  | receive reading open_ more =>
      simp only [State.rank, more, List.length_cons]
      omega
  | close reading open_ empty stopped => simp [State.rank, open_]
  | drop reading =>
      simp only [State.rank, reading, Bool.toNat_true, Bool.toNat_false, List.length_nil]
      omega

/-- A run is no longer than what its steps can take off. -/
theorem length_le_of_path {actions : List Action} {allowed : State Frame Item → Action → Prop}
    (path : Path (step setup) allowed (start source) actions s) :
    actions.length + s.rank ≤ 3 * source.length + 3 := by
  induction path with
  | nil => simp [State.rank, start]
  | snoc path _ taken ih =>
      have less := rank_step (Wf.of_path path) taken
      simp only [List.length_append, List.length_singleton]
      omega

/-- As long as not everything is over, the task or the reader can go on. -/
theorem moves (wf : Wf setup source s) (room : 0 < setup.capacity) (busy : ¬ s.Over) :
    ∃ action, action ≠ .drop ∧ (step setup s action).isSome = true := by
  cases sending : s.sending with
  | true =>
      have open_ : s.ended = false := by
        by_contra ended
        have stopped := (wf.finished (by simpa using ended)).1
        simp [sending] at stopped
      cases held : s.held with
      | none =>
          refine ⟨.read, by decide, ?_⟩
          cases source : s.source with
          | nil => simp [step, readFrame, sending, held, source]
          | cons frame rest => simp [step, readFrame, sending, held, source]
      | some frame =>
          cases reading : s.reading with
          | false => exact ⟨.send, by decide, by simp [step, sendFrame, held, reading]⟩
          | true =>
              cases buffer : s.buffer with
              | nil =>
                  refine ⟨.send, by decide, ?_⟩
                  simp [step, sendFrame, held, reading, buffer, room]
              | cons item rest =>
                  refine ⟨.receive, by decide, ?_⟩
                  simp [step, receiveItem, reading, open_, buffer]
  | false =>
      have reading : s.reading = true := by
        by_contra gone
        exact busy ⟨sending, fun reads => absurd reads gone⟩
      have open_ : s.ended = false := by
        by_contra ended
        exact busy ⟨sending, fun _ => by simpa using ended⟩
      refine ⟨.receive, by decide, ?_⟩
      cases buffer : s.buffer with
      | nil => simp [step, receiveItem, reading, open_, buffer, sending]
      | cons item rest => simp [step, receiveItem, reading, open_, buffer]

/-- A task whose reader is gone reads at most one more frame, and nothing is stored. -/
structure Abandoned (left : Nat) (s : State Frame Item) : Prop where
  gone : s.reading = false
  empty : s.buffer = []
  close : left ≤ s.source.length + 1
  spent : s.source.length < left → s.held = none → s.sending = false

theorem Abandoned.step {left : Nat} {action : Action} (abandoned : Abandoned left s)
    (taken : step setup s action = some next) : Abandoned left next := by
  have gone := abandoned.gone
  cases step_cases taken with
  | finish sending held empty =>
      exact ⟨gone, abandoned.empty, abandoned.close, fun _ _ => rfl⟩
  | @take frame rest sending held more =>
      have whole : left ≤ s.source.length := by
        by_contra fewer
        have stopped := abandoned.spent (by omega) held
        simp [sending] at stopped
      rw [more, List.length_cons] at whole
      exact ⟨gone, abandoned.empty, whole, fun _ none => by cases none⟩
  | put held reading room => simp [gone] at reading
  | stop held _ => exact ⟨gone, abandoned.empty, abandoned.close, fun _ _ => rfl⟩
  | receive reading open_ more => simp [gone] at reading
  | close reading open_ empty stopped => simp [gone] at reading
  | drop reading => simp [gone] at reading

theorem Abandoned.of_path {actions : List Action} {allowed : State Frame Item → Action → Prop}
    (wf : Wf setup source s) (gone : s.reading = false)
    (path : Path (Relay.step setup) allowed s actions next) :
    Abandoned s.source.length next := by
  have here : Abandoned s.source.length s :=
    ⟨gone, wf.gone gone, Nat.le_succ _, fun fewer => absurd fewer (Nat.lt_irrefl _)⟩
  exact path.invariant here fun _ _ _ abandoned _ taken => abandoned.step taken

end Runs

end Relay
