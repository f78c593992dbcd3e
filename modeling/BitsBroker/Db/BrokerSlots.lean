import BitsBroker.Db.Memory
import BitsBroker.Lib.Revision
import BitsBroker.Lib.Table
import BitsBroker.Lib.Transition
import BitsBroker.RequestIdRoundTrip

/-!
Broker slots of the three backends. A slot is the value of a counter of the site and the
environment: the in-memory store counts under its lock, NATS reads the counter with its
revision and writes it back with a compare-and-set, TiKV reads it in the snapshot of an
optimistic transaction and commits. Any number of calls run at once, each step of a call is
one operation of the store, and `granted` lists the slots in the order in which the writes
that allocate them take effect.
-/

namespace BitsBroker

open Transition Table Revision RequestId

inductive SlotBackend where
  | memory
  | nats
  | tikv
deriving DecidableEq

def u16Max : Nat := 65535

def natsBrokerSlotCounterKey (siteTag envTag : String) : String :=
  s!"counters.broker_slot.{siteTag}.{envTag}"

def tikvBrokerSlotCounterKey (siteTag envTag : String) : String :=
  s!"counters/broker_slot/{siteTag}/{envTag}"

inductive SlotPc where
  | begun
  | creating
  | updating (slot revision : Nat)
  | began (snapshot : Store String Nat)
  | committing (slot : Nat) (snapshot : Store String Nat)
  | done (answer : Except DbError Nat)

structure SlotCall where
  pair : String × String
  pc : SlotPc

structure SlotGrant where
  call : Nat
  pair : String × String
  slot : Nat
deriving DecidableEq

structure SlotState where
  brokerSlots : HashMap (String × String) Nat
  kv : Store String Nat
  calls : List SlotCall
  granted : List SlotGrant

def SlotState.new : SlotState where
  brokerSlots := ∅
  kv := Store.empty
  calls := []
  granted := []

/-- `skip` is a write of some other key of the shared store. -/
inductive SlotAction where
  | request (site env : String)
  | call (i : Nat)
  | skip
deriving DecidableEq

def slotExhausted (pair : String × String) : DbError := .slotExhausted pair.1 pair.2 u16Max

def allocateMemory (slots : HashMap (String × String) Nat) (pair : String × String) :
    Except DbError Nat × HashMap (String × String) Nat :=
  let nextSlot := (slots.lookup pair).getD 0
  if u16Max < nextSlot then (.error (slotExhausted pair), AList.insert pair nextSlot slots)
  else (.ok (nextSlot % (u16Max + 1)), AList.insert pair (nextSlot + 1) slots)

namespace SlotState

def setPc (s : SlotState) (i : Nat) (call : SlotCall) (pc : SlotPc) : SlotState :=
  { s with calls := s.calls.set i { call with pc := pc } }

/-- The call returns `slot`. -/
def grant (s : SlotState) (i : Nat) (call : SlotCall) (slot : Nat) : SlotState :=
  { s.setPc i call (.done (.ok slot)) with granted := s.granted ++ [⟨i, call.pair, slot⟩] }

def setKv (s : SlotState) (kv : Store String Nat) : SlotState := { s with kv := kv }

end SlotState

def memoryAllocate (s : SlotState) (i : Nat) (call : SlotCall) : SlotState :=
  match allocateMemory s.brokerSlots call.pair with
  | (.error e, slots) => { s with brokerSlots := slots }.setPc i call (.done (.error e))
  | (.ok slot, slots) => { s with brokerSlots := slots }.grant i call slot

def natsKey (pair : String × String) : String := natsBrokerSlotCounterKey pair.1 pair.2

def natsRead (s : SlotState) (i : Nat) (call : SlotCall) : SlotState :=
  match s.kv.read (natsKey call.pair) with
  | none => s.setPc i call .creating
  | some (none, revision) => s.setPc i call (.updating 0 revision)
  | some (some nextSlot, revision) =>
      if u16Max < nextSlot then s.setPc i call (.done (.error (slotExhausted call.pair)))
      else s.setPc i call (.updating nextSlot revision)

def natsCreate (s : SlotState) (i : Nat) (call : SlotCall) : SlotState :=
  match s.kv.create (natsKey call.pair) 1 with
  | some kv => (s.setKv kv).grant i call 0
  | none => s.setPc i call .begun

def natsUpdate (s : SlotState) (i : Nat) (call : SlotCall) (slot revision : Nat) : SlotState :=
  match s.kv.update (natsKey call.pair) (slot + 1) revision with
  | some kv => (s.setKv kv).grant i call slot
  | none => s.setPc i call .begun

def tikvKey (pair : String × String) : String := tikvBrokerSlotCounterKey pair.1 pair.2

def tikvGet (s : SlotState) (i : Nat) (call : SlotCall) (snapshot : Store String Nat) :
    SlotState :=
  let nextSlot := (snapshot.value (tikvKey call.pair)).getD 0
  if u16Max < nextSlot then s.setPc i call (.done (.error (slotExhausted call.pair)))
  else s.setPc i call (.committing nextSlot snapshot)

def tikvCommit (s : SlotState) (i : Nat) (call : SlotCall) (slot : Nat)
    (snapshot : Store String Nat) : SlotState :=
  let key := tikvKey call.pair
  match s.kv.commit key (slot + 1) (snapshot.revision key) with
  | some kv => (s.setKv kv).grant i call slot
  | none => s.setPc i call .begun

def slotCallStep (backend : SlotBackend) (s : SlotState) (i : Nat) (call : SlotCall) :
    Option SlotState :=
  match backend, call.pc with
  | .memory, .begun => some (memoryAllocate s i call)
  | .nats, .begun => some (natsRead s i call)
  | .nats, .creating => some (natsCreate s i call)
  | .nats, .updating slot revision => some (natsUpdate s i call slot revision)
  | .tikv, .begun => some (s.setPc i call (.began s.kv))
  | .tikv, .began snapshot => some (tikvGet s i call snapshot)
  | .tikv, .committing slot snapshot => some (tikvCommit s i call slot snapshot)
  | _, _ => none

def slotStep (backend : SlotBackend) (s : SlotState) : SlotAction → Option SlotState
  | .request site env => some { s with calls := s.calls ++ [⟨(site, env), .begun⟩] }
  | .call i => s.calls[i]?.bind fun call => slotCallStep backend s i call
  | .skip => some (s.setKv s.kv.skip)

def ValidPair (pair : String × String) : Prop := ValidTag pair.1 ∧ ValidTag pair.2

/-- The in-memory store keeps the pair as its key; the others make the key from tags that the
configuration has validated. -/
def SlotBackend.Accepts (backend : SlotBackend) (pair : String × String) : Prop :=
  backend = .memory ∨ ValidPair pair

def ValidRequest (backend : SlotBackend) (_ : SlotState) : SlotAction → Prop
  | .request site env => backend.Accepts (site, env)
  | _ => True

section Keys

theorem not_mem_of_validTag {tag : String} (valid : ValidTag tag) {separator : Char}
    (outside : ¬ isTagChar separator) : separator ∉ tag.toList :=
  fun inside => outside (valid.2.2 separator inside)

theorem separated_injective {left right : String × String} (leftValid : ValidPair left)
    (separator : Char) (outside : ¬ isTagChar separator)
    (same : left.1.toList ++ separator :: left.2.toList =
      right.1.toList ++ separator :: right.2.toList) : left = right := by
  have apart := (List.append_cons_inj_of_notMem (not_mem_of_validTag leftValid.1 outside)
    (not_mem_of_validTag leftValid.2 outside)).mp same
  exact Prod.ext (String.toList_injective apart.1) (String.toList_injective apart.2.2)

theorem natsKey_injective {left right : String × String} (leftValid : ValidPair left)
    (same : natsKey left = natsKey right) : left = right := by
  have dot : ".".toList = ['.'] := by decide
  have chars : ∀ pair : String × String, (natsKey pair).toList =
      "counters.broker_slot.".toList ++ (pair.1.toList ++ '.' :: pair.2.toList) := by
    intro pair
    unfold natsKey natsBrokerSlotCounterKey
    simp only [String.toList_append, toString, dot, List.append_assoc, List.singleton_append]
  refine separated_injective leftValid '.' (by simp [isTagChar]) ?_
  have whole := congrArg String.toList same
  rw [chars left, chars right] at whole
  exact List.append_cancel_left whole

theorem tikvKey_injective {left right : String × String} (leftValid : ValidPair left)
    (same : tikvKey left = tikvKey right) : left = right := by
  have slash : "/".toList = ['/'] := by decide
  have chars : ∀ pair : String × String, (tikvKey pair).toList =
      "counters/broker_slot/".toList ++ (pair.1.toList ++ '/' :: pair.2.toList) := by
    intro pair
    unfold tikvKey tikvBrokerSlotCounterKey
    simp only [String.toList_append, toString, slash, List.append_assoc, List.singleton_append]
  refine separated_injective leftValid '/' (by simp [isTagChar]) ?_
  have whole := congrArg String.toList same
  rw [chars left, chars right] at whole
  exact List.append_cancel_left whole

def SlotBackend.counterKey : SlotBackend → String × String → String
  | .tikv, pair => tikvKey pair
  | _, pair => natsKey pair

theorem SlotBackend.counterKey_injective {backend : SlotBackend} {left right : String × String}
    (accepted : backend.Accepts left) (shared : backend ≠ .memory)
    (same : backend.counterKey left = backend.counterKey right) : left = right := by
  have valid := accepted.resolve_left shared
  cases backend with
  | memory => exact absurd rfl shared
  | nats => exact natsKey_injective valid same
  | tikv => exact tikvKey_injective valid same

end Keys

namespace SlotState

def counterOf (s : SlotState) (backend : SlotBackend) (pair : String × String) : Nat :=
  match backend with
  | .memory => (s.brokerSlots.lookup pair).getD 0
  | .nats | .tikv => (s.kv.value (backend.counterKey pair)).getD 0

/-- What was given out for a pair, in the order of the writes. -/
def grantsOf (s : SlotState) (pair : String × String) : List SlotGrant :=
  s.granted.filter fun grant => decide (grant.pair = pair)

def slotsOf (s : SlotState) (pair : String × String) : List Nat := (s.grantsOf pair).map (·.slot)

theorem counterOf_kv {backend : SlotBackend} (shared : backend ≠ .memory) (s : SlotState)
    (pair : String × String) :
    s.counterOf backend pair = (s.kv.value (backend.counterKey pair)).getD 0 := by
  cases backend with
  | memory => exact absurd rfl shared
  | nats | tikv => rfl

end SlotState

/-- What a transaction saw is still there, or was overwritten by a larger counter. -/
structure SnapshotOk (key : String) (kv snapshot : Store String Nat) : Prop where
  stable (entry : Option Nat × Nat) : snapshot.read key = some entry → kv.Stable key entry
  below : (snapshot.value key).getD 0 ≤ (kv.value key).getD 0

def SlotCall.Ok (backend : SlotBackend) (s : SlotState) (call : SlotCall) : Prop :=
  let key := backend.counterKey call.pair
  match call.pc with
  | .begun | .done (.ok _) => True
  | .creating => backend = .nats
  | .updating slot revision => backend = .nats ∧ slot ≤ u16Max ∧
      ∃ value : Option Nat, s.kv.Stable key (value, revision) ∧ value.getD 0 = slot
  | .began snapshot => backend = .tikv ∧ SnapshotOk key s.kv snapshot
  | .committing slot snapshot => backend = .tikv ∧ SnapshotOk key s.kv snapshot ∧
      slot ≤ u16Max ∧ slot = (snapshot.value key).getD 0
  | .done (.error e) => e = slotExhausted call.pair ∧
      s.counterOf backend call.pair = u16Max + 1

def SlotPc.finished : SlotPc → Bool
  | .done _ => true
  | _ => false

structure SlotWf (backend : SlotBackend) (s : SlotState) : Prop where
  ordered : s.kv.Ordered
  accepted (i : Nat) (call : SlotCall) : s.calls[i]? = some call → backend.Accepts call.pair
  counted (pair : String × String) : backend.Accepts pair →
    s.counterOf backend pair = (s.slotsOf pair).length
  sequence (pair : String × String) : s.slotsOf pair = List.range (s.slotsOf pair).length
  bounded (pair : String × String) : (s.slotsOf pair).length ≤ u16Max + 1
  returned (i : Nat) (call : SlotCall) (slot : Nat) : s.calls[i]? = some call →
    (call.pc = .done (.ok slot) ↔ ⟨i, call.pair, slot⟩ ∈ s.granted)
  known (grant : SlotGrant) : grant ∈ s.granted → grant.call < s.calls.length
  calls (i : Nat) (call : SlotCall) : s.calls[i]? = some call → call.Ok backend s

/-- What a step does: a call appears, another key is written, a call moves on without a slot,
or a call takes the counter. -/
inductive SlotMove (backend : SlotBackend) (s next : SlotState) : SlotAction → Prop
  | requested {site env : String} :
      next = { s with calls := s.calls ++ [⟨(site, env), .begun⟩] } →
      SlotMove backend s next (.request site env)
  | skipped : next = s.setKv s.kv.skip → SlotMove backend s next .skip
  | kept {i : Nat} {call : SlotCall} {pc : SlotPc} : s.calls[i]? = some call →
      call.pc.finished = false → (∀ slot, pc ≠ .done (.ok slot)) →
      next.calls = s.calls.set i { call with pc := pc } → next.kv = s.kv →
      next.granted = s.granted →
      (∀ pair, next.counterOf backend pair = s.counterOf backend pair) →
      SlotCall.Ok backend next { call with pc := pc } → SlotMove backend s next (.call i)
  | allocated {i : Nat} {call : SlotCall} : s.calls[i]? = some call →
      call.pc.finished = false → s.counterOf backend call.pair ≤ u16Max →
      next.calls =
        s.calls.set i { call with pc := .done (.ok (s.counterOf backend call.pair)) } →
      (next.kv = s.kv ∨ backend ≠ .memory ∧ ∃ key value, next.kv = s.kv.write key value) →
      next.granted = s.granted ++ [⟨i, call.pair, s.counterOf backend call.pair⟩] →
      (∀ pair, backend.Accepts pair → next.counterOf backend pair =
        if pair = call.pair then s.counterOf backend call.pair + 1
        else s.counterOf backend pair) →
      SlotMove backend s next (.call i)

section Inversion

variable {backend : SlotBackend} {s next : SlotState} {i : Nat} {call : SlotCall}

theorem SlotMove.of_setPc {pc : SlotPc} (present : s.calls[i]? = some call)
    (unfinished : call.pc.finished = false) (unallocated : ∀ slot, pc ≠ .done (.ok slot))
    (ok : SlotCall.Ok backend s { call with pc := pc }) :
    SlotMove backend s (s.setPc i call pc) (.call i) := by
  refine .kept present unfinished unallocated rfl rfl rfl (fun _ => rfl) ?_
  cases pc <;> exact ok

theorem memoryAllocate_move (present : s.calls[i]? = some call) (pc : call.pc = .begun)
    (bounded : s.counterOf .memory call.pair ≤ u16Max + 1) :
    SlotMove .memory s (memoryAllocate s i call) (.call i) := by
  have unfinished : call.pc.finished = false := by rw [pc]; rfl
  have current : s.counterOf .memory call.pair = (s.brokerSlots.lookup call.pair).getD 0 := rfl
  unfold memoryAllocate allocateMemory
  by_cases full : u16Max < (s.brokerSlots.lookup call.pair).getD 0
  · simp only [full, if_true]
    have unchanged : ∀ pair, ((AList.insert call.pair ((s.brokerSlots.lookup call.pair).getD 0)
        s.brokerSlots).lookup pair).getD 0 = (s.brokerSlots.lookup pair).getD 0 := by
      intro pair
      rw [HashMap.lookup_insert_eq]
      split
      next same => rw [same]; rfl
      next => rfl
    refine .kept present unfinished (by simp) rfl rfl rfl unchanged ⟨rfl, ?_⟩
    have same := unchanged call.pair
    change ((AList.insert call.pair _ s.brokerSlots).lookup call.pair).getD 0 = u16Max + 1
    omega
  · simp only [full, if_false]
    have small : (s.brokerSlots.lookup call.pair).getD 0 % (u16Max + 1) =
        s.counterOf .memory call.pair := by
      rw [current]
      exact Nat.mod_eq_of_lt (by omega)
    rw [small]
    refine .allocated present unfinished (by omega) rfl (Or.inl rfl) rfl ?_
    intro pair _
    change ((AList.insert call.pair _ s.brokerSlots).lookup pair).getD 0 = _
    rw [HashMap.lookup_insert_eq]
    split
    · rfl
    · rfl

/-- A conditional write that goes through from the counter that was seen. -/
theorem grant_move (shared : backend ≠ .memory) (present : s.calls[i]? = some call)
    (unfinished : call.pc.finished = false) {slot : Nat} (small : slot ≤ u16Max)
    (seen : (s.kv.value (backend.counterKey call.pair)).getD 0 = slot) :
    SlotMove backend s
      ((s.setKv (s.kv.write (backend.counterKey call.pair) (some (slot + 1)))).grant i call slot)
      (.call i) := by
  have current : s.counterOf backend call.pair = slot := by
    rw [SlotState.counterOf_kv shared, seen]
  subst current
  refine .allocated present unfinished small rfl (Or.inr ⟨shared, _, _, rfl⟩) rfl ?_
  intro pair accepted
  rw [SlotState.counterOf_kv shared]
  change ((s.kv.write (backend.counterKey call.pair) _).value (backend.counterKey pair)).getD 0 = _
  rw [Store.value_write]
  by_cases same : pair = call.pair
  · subst same
    simp
  · have apart : backend.counterKey pair ≠ backend.counterKey call.pair := fun equal =>
      same (SlotBackend.counterKey_injective accepted shared equal)
    rw [if_neg apart, if_neg same, SlotState.counterOf_kv shared]

theorem SlotWf.counter_le (wf : SlotWf backend s) {pair : String × String}
    (accepted : backend.Accepts pair) : s.counterOf backend pair ≤ u16Max + 1 := by
  rw [wf.counted pair accepted]
  exact wf.bounded pair

theorem natsRead_move (wf : SlotWf .nats s) (present : s.calls[i]? = some call)
    (pc : call.pc = .begun) : SlotMove .nats s (natsRead s i call) (.call i) := by
  have unfinished : call.pc.finished = false := by rw [pc]; rfl
  unfold natsRead
  split
  · exact .of_setPc present unfinished (by simp) rfl
  next revision found =>
    refine .of_setPc present unfinished (by simp) ⟨rfl, Nat.zero_le _, none, ?_, rfl⟩
    exact Store.Stable.of_read wf.ordered found
  next nextSlot revision found =>
    split
    next full =>
      refine .of_setPc present unfinished (by simp) ⟨rfl, ?_⟩
      have current : s.counterOf .nats call.pair = nextSlot := by
        simp [SlotState.counterOf, SlotBackend.counterKey, Store.value, found]
      have bound := wf.counter_le (wf.accepted i call present)
      change s.counterOf .nats call.pair = u16Max + 1
      omega
    next room =>
      refine .of_setPc present unfinished (by simp) ⟨rfl, by omega, some nextSlot, ?_, rfl⟩
      exact Store.Stable.of_read wf.ordered found

theorem natsCreate_move (present : s.calls[i]? = some call) (pc : call.pc = .creating) :
    SlotMove .nats s (natsCreate s i call) (.call i) := by
  have unfinished : call.pc.finished = false := by rw [pc]; rfl
  unfold natsCreate
  split
  next kv created =>
    obtain ⟨absent, rfl⟩ := Store.create_value created
    refine grant_move (by simp) present unfinished (Nat.zero_le _) ?_
    change (s.kv.value (natsKey call.pair)).getD 0 = 0
    rw [absent]
    rfl
  next => exact .of_setPc present unfinished (by simp) trivial

theorem natsUpdate_move (wf : SlotWf .nats s) (present : s.calls[i]? = some call)
    {slot revision : Nat} (pc : call.pc = .updating slot revision) :
    SlotMove .nats s (natsUpdate s i call slot revision) (.call i) := by
  have unfinished : call.pc.finished = false := by rw [pc]; rfl
  have ok := wf.calls i call present
  rw [SlotCall.Ok, pc] at ok
  obtain ⟨_, small, value, stable, same⟩ := ok
  unfold natsUpdate
  split
  next kv updated =>
    obtain ⟨there, rfl⟩ := Store.commit_read stable updated
    refine grant_move (by simp) present unfinished small ?_
    rw [Store.value, there]
    exact same
  next => exact .of_setPc present unfinished (by simp) trivial

theorem tikvBegin_move (wf : SlotWf .tikv s) (present : s.calls[i]? = some call)
    (pc : call.pc = .begun) : SlotMove .tikv s (s.setPc i call (.began s.kv)) (.call i) := by
  refine .of_setPc present (by rw [pc]; rfl) (by simp) ⟨rfl, ?_, le_rfl⟩
  intro entry found
  exact Store.Stable.of_read wf.ordered found

theorem tikvGet_move (wf : SlotWf .tikv s) (present : s.calls[i]? = some call)
    {snapshot : Store String Nat} (pc : call.pc = .began snapshot) :
    SlotMove .tikv s (tikvGet s i call snapshot) (.call i) := by
  have unfinished : call.pc.finished = false := by rw [pc]; rfl
  have ok := wf.calls i call present
  rw [SlotCall.Ok, pc] at ok
  have below : (snapshot.value (tikvKey call.pair)).getD 0 ≤ s.counterOf .tikv call.pair :=
    ok.2.below
  have bound := wf.counter_le (wf.accepted i call present)
  unfold tikvGet
  simp only
  split
  next full =>
    refine .of_setPc present unfinished (by simp) ⟨rfl, ?_⟩
    change s.counterOf .tikv call.pair = u16Max + 1
    omega
  next room =>
    exact .of_setPc present unfinished (by simp) ⟨rfl, ok.2, by omega, rfl⟩

theorem tikvCommit_move (wf : SlotWf .tikv s) (present : s.calls[i]? = some call) {slot : Nat}
    {snapshot : Store String Nat} (pc : call.pc = .committing slot snapshot) :
    SlotMove .tikv s (tikvCommit s i call slot snapshot) (.call i) := by
  have unfinished : call.pc.finished = false := by rw [pc]; rfl
  have ok := wf.calls i call present
  rw [SlotCall.Ok, pc] at ok
  obtain ⟨_, snapped, small, seen⟩ := ok
  unfold tikvCommit
  simp only
  split
  next kv committed =>
    obtain ⟨there, rfl⟩ := Store.commit_snapshot snapped.stable committed
    refine grant_move (by simp) present unfinished small ?_
    rw [seen, Store.value, Store.value, there]
  next => exact .of_setPc present unfinished (by simp) trivial

theorem slotStep_move {action : SlotAction} (wf : SlotWf backend s)
    (taken : slotStep backend s action = some next) : SlotMove backend s next action := by
  cases action with
  | request site env =>
      simp only [slotStep, Option.some.injEq] at taken
      exact .requested taken.symm
  | skip =>
      simp only [slotStep, Option.some.injEq] at taken
      exact .skipped taken.symm
  | call i =>
      simp only [slotStep, Option.bind_eq_some_iff] at taken
      obtain ⟨call, present, taken⟩ := taken
      unfold slotCallStep at taken
      split at taken <;> try simp only [Option.some.injEq, reduceCtorEq] at taken
      next pc =>
        have bound := wf.counter_le (wf.accepted i call present)
        exact taken ▸ memoryAllocate_move present pc bound
      next pc => exact taken ▸ natsRead_move wf present pc
      next pc => exact taken ▸ natsCreate_move present pc
      next pc => exact taken ▸ natsUpdate_move wf present pc
      next pc => exact taken ▸ tikvBegin_move wf present pc
      next pc => exact taken ▸ tikvGet_move wf present pc
      next pc => exact taken ▸ tikvCommit_move wf present pc

end Inversion

/-- What one step can do to what the other calls have seen. -/
structure Grows (backend : SlotBackend) (s next : SlotState) : Prop where
  stable (key : String) (entry : Option Nat × Nat) : s.kv.Stable key entry →
    next.kv.Stable key entry
  kv (pair : String × String) : backend.Accepts pair →
    (s.kv.value (backend.counterKey pair)).getD 0 ≤
      (next.kv.value (backend.counterKey pair)).getD 0
  counter (pair : String × String) : backend.Accepts pair →
    s.counterOf backend pair ≤ next.counterOf backend pair

section Step

variable {backend : SlotBackend} {s next : SlotState} {action : SlotAction} {i : Nat}
  {call : SlotCall}

theorem SlotMove.grows (move : SlotMove backend s next action) : Grows backend s next := by
  cases move with
  | requested eq =>
      subst eq
      exact ⟨fun _ _ => id, fun _ _ => le_rfl, fun pair _ => by cases backend <;> exact le_rfl⟩
  | skipped eq =>
      subst eq
      refine ⟨fun _ _ stable => stable.skip, fun _ _ => le_rfl, fun pair _ => ?_⟩
      cases backend <;> exact le_rfl
  | kept _ _ _ _ kv _ counters _ =>
      refine ⟨fun _ _ stable => kv ▸ stable, fun _ _ => by rw [kv], fun pair _ => ?_⟩
      rw [counters]
  | allocated _ _ _ _ kv _ counters =>
      have more : ∀ pair, backend.Accepts pair →
          s.counterOf backend pair ≤ next.counterOf backend pair := by
        intro pair accepted
        rw [counters pair accepted]
        split
        next same =>
          subst same
          omega
        next => exact le_rfl
      rcases kv with same | ⟨shared, key, value, written⟩
      · exact ⟨fun _ _ stable => same ▸ stable, fun _ _ => by rw [same], more⟩
      · refine ⟨fun _ _ stable => written ▸ stable.write key value, ?_, more⟩
        intro pair accepted
        have grown := more pair accepted
        rwa [SlotState.counterOf_kv shared, SlotState.counterOf_kv shared] at grown

theorem SlotCall.Ok.mono (grows : Grows backend s next) (accepted : backend.Accepts call.pair)
    (bounded : next.counterOf backend call.pair ≤ u16Max + 1) (ok : call.Ok backend s) :
    call.Ok backend next := by
  have snapped : ∀ snapshot, SnapshotOk (backend.counterKey call.pair) s.kv snapshot →
      SnapshotOk (backend.counterKey call.pair) next.kv snapshot := by
    intro snapshot before
    refine ⟨fun entry found => grows.stable _ _ (before.stable entry found), ?_⟩
    exact Nat.le_trans before.below (grows.kv call.pair accepted)
  unfold SlotCall.Ok at *
  cases pc : call.pc with
  | begun => trivial
  | creating =>
      rw [pc] at ok
      exact ok
  | updating slot revision =>
      rw [pc] at ok
      obtain ⟨isNats, small, value, stable, same⟩ := ok
      exact ⟨isNats, small, value, grows.stable _ _ stable, same⟩
  | began snapshot =>
      rw [pc] at ok
      exact ⟨ok.1, snapped snapshot ok.2⟩
  | committing slot snapshot =>
      rw [pc] at ok
      exact ⟨ok.1, snapped snapshot ok.2.1, ok.2.2⟩
  | done answer =>
      cases answer with
      | ok slot => trivial
      | error e =>
          rw [pc] at ok
          have more := grows.counter call.pair accepted
          exact ⟨ok.1, by simp only at ok; omega⟩

theorem SlotMove.slotsOf_cases (move : SlotMove backend s next action) :
    next.granted = s.granted ∨
      ∃ i call, action = .call i ∧ s.calls[i]? = some call ∧ s.counterOf backend call.pair ≤ u16Max ∧
        next.granted = s.granted ++ [⟨i, call.pair, s.counterOf backend call.pair⟩] := by
  cases move with
  | requested eq | skipped eq =>
      subst eq
      exact Or.inl rfl
  | kept _ _ _ _ _ granted _ _ => exact Or.inl granted
  | allocated present _ small _ _ granted _ => exact Or.inr ⟨_, _, rfl, present, small, granted⟩

theorem SlotState.grantsOf_snoc {grant : SlotGrant} (granted : next.granted = s.granted ++ [grant])
    (pair : String × String) :
    next.grantsOf pair =
      if grant.pair = pair then s.grantsOf pair ++ [grant] else s.grantsOf pair := by
  unfold grantsOf
  rw [granted, List.filter_append]
  by_cases same : grant.pair = pair
  · simp [same]
  · simp [same]

theorem SlotState.slotsOf_snoc {grant : SlotGrant} (granted : next.granted = s.granted ++ [grant])
    (pair : String × String) :
    next.slotsOf pair =
      if grant.pair = pair then s.slotsOf pair ++ [grant.slot] else s.slotsOf pair := by
  rw [slotsOf, grantsOf_snoc granted]
  split
  · rw [List.map_append]
    rfl
  · rfl

theorem SlotWf.counted_step (wf : SlotWf backend s) (move : SlotMove backend s next action)
    (pair : String × String) (accepted : backend.Accepts pair) :
    next.counterOf backend pair = (next.slotsOf pair).length := by
  have before := wf.counted pair accepted
  cases move with
  | requested eq | skipped eq =>
      subst eq
      cases backend <;> exact before
  | kept _ _ _ _ _ granted counters _ =>
      rw [counters, before, SlotState.slotsOf, SlotState.slotsOf, SlotState.grantsOf,
        SlotState.grantsOf, granted]
  | @allocated i call _ _ _ _ _ granted counters =>
      rw [counters pair accepted, SlotState.slotsOf_snoc granted]
      by_cases same : pair = call.pair
      · subst same
        simp [before]
      · rw [if_neg same, if_neg fun equal : call.pair = pair => same equal.symm, before]

theorem SlotWf.sequence_step (wf : SlotWf backend s) (move : SlotMove backend s next action)
    (pair : String × String) :
    next.slotsOf pair = List.range (next.slotsOf pair).length ∧
      (next.slotsOf pair).length ≤ u16Max + 1 := by
  rcases move.slotsOf_cases with same | ⟨i, call, _, present, small, granted⟩
  · rw [SlotState.slotsOf, SlotState.grantsOf, same]
    exact ⟨wf.sequence pair, wf.bounded pair⟩
  · rw [SlotState.slotsOf_snoc granted]
    split
    next here =>
      simp only at here
      subst here
      have counted := wf.counted call.pair (wf.accepted i call present)
      constructor
      · rw [List.length_append, List.length_singleton, List.range_succ, ← wf.sequence, counted]
      · rw [List.length_append, List.length_singleton]
        omega
    next => exact ⟨wf.sequence pair, wf.bounded pair⟩

theorem SlotWf.returned_step (wf : SlotWf backend s) (move : SlotMove backend s next action)
    (j : Nat) (other : SlotCall) (slot : Nat) (present : next.calls[j]? = some other) :
    other.pc = .done (.ok slot) ↔ ⟨j, other.pair, slot⟩ ∈ next.granted := by
  cases move with
  | requested eq =>
      subst eq
      rcases getElem?_of_snoc present with old | ⟨last, rfl⟩
      · exact wf.returned j other slot old
      · simp only [reduceCtorEq, false_iff]
        intro inside
        have bound := wf.known _ inside
        simp only at bound
        omega
  | skipped eq =>
      subst eq
      exact wf.returned j other slot present
  | @kept i call pc known unfinished unallocated calls _ granted _ _ =>
      rw [calls] at present
      rw [granted]
      rcases getElem?_of_set present with ⟨rfl, rfl⟩ | ⟨_, old⟩
      · have before := wf.returned j call slot known
        constructor
        · intro finished
          exact absurd finished (unallocated slot)
        · intro inside
          have done := before.mpr inside
          simp [done, SlotPc.finished] at unfinished
      · exact wf.returned j other slot old
  | @allocated i call known unfinished _ calls _ granted _ =>
      rw [calls] at present
      rw [granted, List.mem_append, List.mem_singleton]
      rcases getElem?_of_set present with ⟨rfl, rfl⟩ | ⟨elsewhere, old⟩
      · have fresh : ⟨j, call.pair, slot⟩ ∉ s.granted := by
          intro inside
          have done := (wf.returned j call slot known).mpr inside
          simp [done, SlotPc.finished] at unfinished
        simp [fresh, eq_comm]
      · rw [wf.returned j other slot old]
        constructor
        · exact Or.inl
        · rintro (inside | equal)
          · exact inside
          · simp only [SlotGrant.mk.injEq] at equal
            exact absurd equal.1 elsewhere

theorem SlotMove.call_cases (move : SlotMove backend s next action) {j : Nat} {other : SlotCall}
    (present : next.calls[j]? = some other) :
    s.calls[j]? = some other ∨
      (∃ site env, action = .request site env ∧ other = ⟨(site, env), .begun⟩) ∨
      ∃ call, s.calls[j]? = some call ∧ other.pair = call.pair ∧ other.Ok backend next := by
  cases move with
  | requested eq =>
      subst eq
      rcases getElem?_of_snoc present with old | ⟨_, rfl⟩
      · exact Or.inl old
      · exact Or.inr (Or.inl ⟨_, _, rfl, rfl⟩)
  | skipped eq =>
      subst eq
      exact Or.inl present
  | kept known _ _ calls _ _ _ ok =>
      rw [calls] at present
      rcases getElem?_of_set present with ⟨rfl, rfl⟩ | ⟨_, old⟩
      · exact Or.inr (Or.inr ⟨_, known, rfl, ok⟩)
      · exact Or.inl old
  | allocated known _ _ calls _ _ _ =>
      rw [calls] at present
      rcases getElem?_of_set present with ⟨rfl, rfl⟩ | ⟨_, old⟩
      · exact Or.inr (Or.inr ⟨_, known, rfl, trivial⟩)
      · exact Or.inl old

theorem SlotMove.length_le (move : SlotMove backend s next action) :
    s.calls.length ≤ next.calls.length := by
  cases move with
  | requested eq =>
      subst eq
      simp
  | skipped eq =>
      subst eq
      exact le_rfl
  | kept _ _ _ calls _ _ _ _ | allocated _ _ _ calls _ _ _ => rw [calls, List.length_set]

theorem SlotMove.ordered (move : SlotMove backend s next action) (ordered : s.kv.Ordered) :
    next.kv.Ordered := by
  cases move with
  | requested eq =>
      subst eq
      exact ordered
  | skipped eq =>
      subst eq
      exact ordered.skip
  | kept _ _ _ _ kv _ _ _ =>
      rw [kv]
      exact ordered
  | allocated _ _ _ _ kv _ _ =>
      rcases kv with same | ⟨_, key, value, written⟩
      · rw [same]
        exact ordered
      · rw [written]
        exact ordered.write key value

theorem SlotWf.step (wf : SlotWf backend s) (move : SlotMove backend s next action)
    (valid : ValidRequest backend s action) : SlotWf backend next := by
  have accepted : ∀ (j : Nat) (other : SlotCall), next.calls[j]? = some other →
      backend.Accepts other.pair := by
    intro j other present
    rcases move.call_cases present with old | ⟨site, env, rfl, rfl⟩ | ⟨call, known, same, _⟩
    · exact wf.accepted j other old
    · exact valid
    · rw [same]
      exact wf.accepted j call known
  constructor
  · exact move.ordered wf.ordered
  · exact accepted
  · exact wf.counted_step move
  · exact fun pair => (wf.sequence_step move pair).1
  · exact fun pair => (wf.sequence_step move pair).2
  · exact wf.returned_step move
  · intro grant inside
    have longer := move.length_le
    rcases move.slotsOf_cases with same | ⟨i, call, _, present, _, granted⟩
    · have bound := wf.known grant (same ▸ inside)
      omega
    · rw [granted, List.mem_append, List.mem_singleton] at inside
      rcases inside with old | rfl
      · have bound := wf.known grant old
        omega
      · have bound := (List.getElem?_eq_some_iff.mp present).1
        simp only
        omega
  · intro j other present
    have bounded : next.counterOf backend other.pair ≤ u16Max + 1 := by
      rw [wf.counted_step move _ (accepted j other present)]
      exact (wf.sequence_step move _).2
    rcases move.call_cases present with old | ⟨site, env, _, rfl⟩ | ⟨_, _, _, ok⟩
    · exact (wf.calls j other old).mono move.grows (accepted j other present) bounded
    · trivial
    · exact ok

end Step

theorem SlotWf.initial (backend : SlotBackend) : SlotWf backend SlotState.new := by
  constructor
  · exact Store.Ordered.empty
  · intro i call present
    simp [SlotState.new] at present
  · intro pair _
    cases backend <;> rfl
  · intro pair
    rfl
  · intro pair
    exact Nat.zero_le _
  · intro i call slot present
    simp [SlotState.new] at present
  · intro grant inside
    simp [SlotState.new] at inside
  · intro i call present
    simp [SlotState.new] at present

theorem SlotWf.path {backend : SlotBackend} {s t : SlotState} {actions : List SlotAction}
    (wf : SlotWf backend s) (path : Path (slotStep backend) (ValidRequest backend) s actions t) :
    SlotWf backend t := by
  refine path.invariant wf ?_
  intro state action next wf valid taken
  exact wf.step (slotStep_move wf taken) valid

section Exhausted

variable {backend : SlotBackend} {s next : SlotState} {action : SlotAction} {i : Nat}
  {call : SlotCall} {pair : String × String}

/-- Nothing is given out for a pair whose slots are used up. -/
theorem SlotMove.grantsOf_full (wf : SlotWf backend s) (move : SlotMove backend s next action)
    (full : (s.slotsOf pair).length = u16Max + 1) : next.grantsOf pair = s.grantsOf pair := by
  rcases move.slotsOf_cases with same | ⟨i, call, _, present, small, granted⟩
  · rw [SlotState.grantsOf, SlotState.grantsOf, same]
  · rw [SlotState.grantsOf_snoc granted]
    split
    next here =>
      simp only at here
      subst here
      have counted := wf.counted call.pair (wf.accepted i call present)
      omega
    next => rfl

theorem SlotWf.full_path (wf : SlotWf backend s) (full : (s.slotsOf pair).length = u16Max + 1)
    {actions : List SlotAction} {t : SlotState}
    (path : Path (slotStep backend) (ValidRequest backend) s actions t) :
    t.grantsOf pair = s.grantsOf pair := by
  induction path with
  | nil => rfl
  | @snoc actions middle action last before valid taken ih =>
      have mid := wf.path before
      have still : (middle.slotsOf pair).length = u16Max + 1 := by
        rw [SlotState.slotsOf, ih]
        exact full
      rw [(slotStep_move mid taken).grantsOf_full mid still, ih]

/-- How many of its own steps a call needs at most to see that the slots are used up. -/
def SlotCall.stepsLeft (call : SlotCall) : Nat :=
  match call.pc with
  | .begun => 2
  | .creating | .updating _ _ | .committing _ _ => 3
  | .began snapshot => if u16Max < (snapshot.value (tikvKey call.pair)).getD 0 then 1 else 4
  | .done _ => 0

theorem SlotCall.stepsLeft_le (call : SlotCall) : call.stepsLeft ≤ 4 := by
  unfold SlotCall.stepsLeft
  split
  · omega
  · omega
  · omega
  · omega
  · split <;> omega
  · omega

/-- The call has seen that the slots are used up, or is closer to it. -/
def SlotCall.NearsEnd (call later : SlotCall) : Prop :=
  later.pair = call.pair ∧ (later.pc = .done (.error (slotExhausted call.pair)) ∨
    later.pc.finished = false ∧ later.stepsLeft < call.stepsLeft)

theorem getElem?_setPc (present : s.calls[i]? = some call) (pc : SlotPc) :
    (s.setPc i call pc).calls[i]? = some { call with pc := pc } :=
  List.getElem?_set_self (List.getElem?_eq_some_iff.mp present).1

theorem natsStep_full (wf : SlotWf .nats s) (present : s.calls[i]? = some call)
    (unfinished : call.pc.finished = false) (full : s.counterOf .nats call.pair = u16Max + 1) :
    ∃ pc, slotCallStep .nats s i call = some (s.setPc i call pc) ∧
      call.NearsEnd { call with pc := pc } := by
  have ok := wf.calls i call present
  have current : (s.kv.value (natsKey call.pair)).getD 0 = u16Max + 1 := full
  obtain ⟨revision, there⟩ : ∃ revision,
      s.kv.read (natsKey call.pair) = some (some (u16Max + 1), revision) := by
    cases found : s.kv.read (natsKey call.pair) with
    | none => simp [Store.value, found] at current
    | some entry =>
        obtain ⟨value, revision⟩ := entry
        cases value with
        | none => simp [Store.value, found] at current
        | some count =>
            simp only [Store.value, found, Option.bind_some, Option.getD_some] at current
            exact ⟨revision, by rw [current]⟩
  cases pc : call.pc with
  | begun =>
      refine ⟨.done (.error (slotExhausted call.pair)), ?_, rfl, Or.inl rfl⟩
      simp [slotCallStep, pc, natsRead, there]
  | creating =>
      refine ⟨.begun, ?_, rfl, Or.inr ⟨rfl, ?_⟩⟩
      · simp [slotCallStep, pc, natsCreate, Store.create, Store.value, there]
      · simp [SlotCall.stepsLeft, pc]
  | updating slot seen =>
      rw [SlotCall.Ok, pc] at ok
      obtain ⟨_, small, value, stable, same⟩ := ok
      refine ⟨.begun, ?_, rfl, Or.inr ⟨rfl, ?_⟩⟩
      · have refused : s.kv.update (natsKey call.pair) (slot + 1) seen = none := by
          cases updated : s.kv.update (natsKey call.pair) (slot + 1) seen with
          | none => rfl
          | some kv =>
              have found := (Store.commit_read stable updated).1
              change s.kv.read (natsKey call.pair) = some (value, seen) at found
              rw [there, Option.some.injEq, Prod.mk.injEq] at found
              rw [← found.1, Option.getD_some] at same
              omega
        simp [slotCallStep, pc, natsUpdate, refused]
      · simp [SlotCall.stepsLeft, pc]
  | began snapshot =>
      rw [SlotCall.Ok, pc] at ok
      simp at ok
  | committing slot snapshot =>
      rw [SlotCall.Ok, pc] at ok
      simp at ok
  | done answer => simp [pc, SlotPc.finished] at unfinished

theorem tikvStep_full (wf : SlotWf .tikv s) (present : s.calls[i]? = some call)
    (unfinished : call.pc.finished = false) (full : s.counterOf .tikv call.pair = u16Max + 1) :
    ∃ pc, slotCallStep .tikv s i call = some (s.setPc i call pc) ∧
      call.NearsEnd { call with pc := pc } := by
  have ok := wf.calls i call present
  have current : (s.kv.value (tikvKey call.pair)).getD 0 = u16Max + 1 := full
  cases pc : call.pc with
  | begun =>
      refine ⟨.began s.kv, by simp [slotCallStep, pc], rfl, Or.inr ⟨rfl, ?_⟩⟩
      simp [SlotCall.stepsLeft, pc, current]
  | began snapshot =>
      by_cases seen : u16Max < (snapshot.value (tikvKey call.pair)).getD 0
      · refine ⟨.done (.error (slotExhausted call.pair)), ?_, rfl, Or.inl rfl⟩
        simp [slotCallStep, pc, tikvGet, seen]
      · refine ⟨.committing ((snapshot.value (tikvKey call.pair)).getD 0) snapshot, ?_, rfl,
          Or.inr ⟨rfl, ?_⟩⟩
        · simp [slotCallStep, pc, tikvGet, seen]
        · simp [SlotCall.stepsLeft, pc, seen]
  | committing slot snapshot =>
      rw [SlotCall.Ok, pc] at ok
      obtain ⟨_, snapped, small, same⟩ := ok
      change slot = (snapshot.value (tikvKey call.pair)).getD 0 at same
      refine ⟨.begun, ?_, rfl, Or.inr ⟨rfl, ?_⟩⟩
      · have refused : s.kv.commit (tikvKey call.pair) (slot + 1)
            (snapshot.revision (tikvKey call.pair)) = none := by
          cases committed : s.kv.commit (tikvKey call.pair) (slot + 1)
              (snapshot.revision (tikvKey call.pair)) with
          | none => rfl
          | some kv =>
              have unchanged : s.kv.read (tikvKey call.pair) =
                  snapshot.read (tikvKey call.pair) :=
                (Store.commit_snapshot snapped.stable committed).1
              rw [Store.value, unchanged] at current
              rw [Store.value] at same
              omega
        simp [slotCallStep, pc, tikvCommit, refused]
      · simp [SlotCall.stepsLeft, pc]
  | creating =>
      rw [SlotCall.Ok, pc] at ok
      simp at ok
  | updating slot seen =>
      rw [SlotCall.Ok, pc] at ok
      simp at ok
  | done answer => simp [pc, SlotPc.finished] at unfinished

theorem SlotWf.step_full (wf : SlotWf backend s) (present : s.calls[i]? = some call)
    (unfinished : call.pc.finished = false)
    (full : s.counterOf backend call.pair = u16Max + 1) :
    ∃ next later, slotStep backend s (.call i) = some next ∧ next.calls[i]? = some later ∧
      call.NearsEnd later := by
  cases backend with
  | memory =>
      have ok := wf.calls i call present
      have current : (s.brokerSlots.lookup call.pair).getD 0 = u16Max + 1 := full
      cases pc : call.pc with
      | begun =>
          refine ⟨memoryAllocate s i call, ⟨call.pair, .done (.error (slotExhausted call.pair))⟩,
            by simp [slotStep, slotCallStep, present, pc], ?_, rfl, Or.inl rfl⟩
          simp only [memoryAllocate, allocateMemory, current, Nat.lt_succ_self, if_true]
          exact getElem?_setPc present _
      | done answer => simp [pc, SlotPc.finished] at unfinished
      | _ =>
          rw [SlotCall.Ok, pc] at ok
          simp at ok
  | nats =>
      obtain ⟨pc, taken, nears⟩ := natsStep_full wf present unfinished full
      exact ⟨_, _, by simpa [slotStep, present] using taken, getElem?_setPc present pc, nears⟩
  | tikv =>
      obtain ⟨pc, taken, nears⟩ := tikvStep_full wf present unfinished full
      exact ⟨_, _, by simpa [slotStep, present] using taken, getElem?_setPc present pc, nears⟩

/-- A call of a pair whose slots are used up ends within its own next steps. -/
theorem SlotWf.ends_full (wf : SlotWf backend s) (present : s.calls[i]? = some call)
    (unfinished : call.pc.finished = false) (full : (s.slotsOf call.pair).length = u16Max + 1) :
    ∃ n t, n ≤ call.stepsLeft ∧
      run (slotStep backend) s (List.replicate n (.call i)) = some t ∧
      t.calls[i]? = some ⟨call.pair, .done (.error (slotExhausted call.pair))⟩ := by
  generalize budget : call.stepsLeft = steps
  induction steps using Nat.strongRecOn generalizing s call with
  | ind steps ih =>
      have counted := wf.counted call.pair (wf.accepted i call present)
      obtain ⟨next, later, taken, moved, samePair, nears⟩ :=
        wf.step_full present unfinished (counted.trans full)
      rcases nears with ended | ⟨running, closer⟩
      · refine ⟨1, next, ?_, by simp [run, taken], ?_⟩
        · have positive : call.stepsLeft ≠ 0 := by
            unfold SlotCall.stepsLeft
            cases pc : call.pc with
            | began snapshot =>
                simp only
                split <;> omega
            | done answer => simp [pc, SlotPc.finished] at unfinished
            | _ => simp
          omega
        · rw [moved]
          cases later
          simp only at samePair ended
          rw [samePair, ended]
      · have move := slotStep_move wf taken
        have still : (next.slotsOf later.pair).length = u16Max + 1 := by
          rw [samePair, SlotState.slotsOf, move.grantsOf_full wf full]
          exact full
        obtain ⟨n, t, fewer, ran, ended⟩ := ih later.stepsLeft (by omega)
          (wf.step move trivial) moved running still rfl
        refine ⟨n + 1, t, by omega, ?_, samePair ▸ ended⟩
        simp [List.replicate_succ, run, taken, ran]

end Exhausted

/-- Slots of every backend, for every interleaving of the calls. -/
theorem broker_slots_unique {backend : SlotBackend} {s : SlotState}
    (reachable : Reachable (slotStep backend) (ValidRequest backend) SlotState.new s) :
    (∀ pair, backend.Accepts pair →
      s.slotsOf pair = List.range (s.counterOf backend pair) ∧
        s.counterOf backend pair ≤ u16Max + 1) ∧
    (∀ (i : Nat) (call : SlotCall) (slot : Nat), s.calls[i]? = some call →
      (call.pc = .done (.ok slot) ↔ ⟨i, call.pair, slot⟩ ∈ s.granted)) ∧
    (∀ (i j : Nat) (left right : SlotCall) (slot : Nat), s.calls[i]? = some left →
      s.calls[j]? = some right → left.pair = right.pair → left.pc = .done (.ok slot) →
      right.pc = .done (.ok slot) → i = j) ∧
    (∀ (i : Nat) (call : SlotCall) (e : DbError), s.calls[i]? = some call →
      call.pc = .done (.error e) → e = slotExhausted call.pair ∧
        s.counterOf backend call.pair = u16Max + 1) ∧
    (∀ pair, backend.Accepts pair → (s.slotsOf pair).length = u16Max + 1 →
      ∀ (actions : List SlotAction) (t : SlotState),
        Path (slotStep backend) (ValidRequest backend) s actions t →
        t.counterOf backend pair = s.counterOf backend pair ∧
        t.grantsOf pair = s.grantsOf pair ∧
        ∀ (i : Nat) (call : SlotCall), t.calls[i]? = some call → call.pair = pair →
          call.pc.finished = false → ∃ n last, n ≤ 4 ∧
            run (slotStep backend) t (List.replicate n (.call i)) = some last ∧
            last.calls[i]? = some ⟨pair, .done (.error (slotExhausted pair))⟩) ∧
    (∀ (i : Nat) (call : SlotCall) (next : SlotState), s.calls[i]? = some call →
      slotStep backend s (.call i) = some next → ∀ pair, backend.Accepts pair →
      pair ≠ call.pair → next.counterOf backend pair = s.counterOf backend pair ∧
        next.grantsOf pair = s.grantsOf pair) := by
  obtain ⟨actions, path⟩ := reachable
  have wf := (SlotWf.initial backend).path path
  refine ⟨?_, wf.returned, ?_, ?_, ?_, ?_⟩
  · intro pair accepted
    rw [wf.counted pair accepted]
    exact ⟨wf.sequence pair, wf.bounded pair⟩
  · intro i j left right slot leftIn rightIn samePair leftDone rightDone
    have leftGrant := (wf.returned i left slot leftIn).mp leftDone
    have rightGrant := (wf.returned j right slot rightIn).mp rightDone
    have distinct : (s.slotsOf left.pair).Nodup := by
      rw [wf.sequence]
      exact List.nodup_range
    have same := List.inj_on_of_nodup_map distinct
      (List.mem_filter.mpr ⟨leftGrant, by simp⟩)
      (List.mem_filter.mpr ⟨rightGrant, by simp [samePair]⟩) rfl
    exact congrArg SlotGrant.call same
  · intro i call e present ended
    have ok := wf.calls i call present
    rw [SlotCall.Ok, ended] at ok
    exact ok
  · intro pair accepted full later t onward
    have wf' := wf.path onward
    have kept := wf.full_path full onward
    have still : (t.slotsOf pair).length = u16Max + 1 := by
      rw [SlotState.slotsOf, kept]
      exact full
    refine ⟨?_, kept, ?_⟩
    · rw [wf'.counted pair accepted, wf.counted pair accepted, full, still]
    · intro i call present samePair unfinished
      subst samePair
      obtain ⟨n, last, few, ran, ended⟩ := wf'.ends_full present unfinished still
      exact ⟨n, last, Nat.le_trans few call.stepsLeft_le, ran, ended⟩
  · intro i call next present taken pair accepted elsewhere
    have move := slotStep_move wf taken
    have wf' := wf.step move trivial
    have kept : next.grantsOf pair = s.grantsOf pair := by
      rcases move.slotsOf_cases with same | ⟨j, other, here, known, _, granted⟩
      · rw [SlotState.grantsOf, SlotState.grantsOf, same]
      · obtain rfl : i = j := by simpa using here
        obtain rfl := Option.some.inj (present.symm.trans known)
        rw [SlotState.grantsOf_snoc granted, if_neg fun same => elsewhere same.symm]
    refine ⟨?_, kept⟩
    rw [wf'.counted pair accepted, wf.counted pair accepted, SlotState.slotsOf, SlotState.slotsOf,
      kept]

namespace Scenario

/-- Two calls read the counter before either writes: the second write is refused and retried. -/
def racingAllocations : List SlotAction :=
  [.request "bol" "dev", .request "bol" "dev", .request "bol" "dev", .call 0, .call 0, .skip,
    .call 1, .call 2, .call 2, .call 1, .call 1, .call 1]

def requestsTags (_ : SlotState) : SlotAction → Bool
  | .request site env => decide (site = "bol" ∧ env = "dev")
  | _ => true

theorem requestsTags_sound (backend : SlotBackend) (s : SlotState) (action : SlotAction)
    (checked : requestsTags s action = true) : ValidRequest backend s action := by
  cases action with
  | request site env =>
      obtain ⟨rfl, rfl⟩ := of_decide_eq_true checked
      refine Or.inr ⟨⟨by decide, by decide, ?_⟩, ⟨by decide, by decide, ?_⟩⟩
      · simp [isTagChar]
      · simp [isTagChar]
  | call i => trivial
  | skip => trivial

end Scenario

open Scenario in
theorem broker_slots_racingAllocations :
    ∃ s, Path (slotStep .nats) (ValidRequest .nats) SlotState.new racingAllocations s ∧
      s.slotsOf ("bol", "dev") = [0, 1, 2] ∧
      s.granted = [⟨0, ("bol", "dev"), 0⟩, ⟨2, ("bol", "dev"), 1⟩, ⟨1, ("bol", "dev"), 2⟩] := by
  have ran : (run (fun s action => if requestsTags s action then slotStep .nats s action else none)
      SlotState.new racingAllocations).any (fun s => decide (
        s.counterOf .nats ("bol", "dev") = 3 ∧ s.granted = [⟨0, ("bol", "dev"), 0⟩,
          ⟨2, ("bol", "dev"), 1⟩, ⟨1, ("bol", "dev"), 2⟩])) = true := by
    decide +kernel
  obtain ⟨s, finished, checked⟩ := (Option.any_eq_true _ _).mp ran
  obtain ⟨counter, granted⟩ := of_decide_eq_true checked
  have path := Path.of_run_if (requestsTags_sound .nats) _ _ finished
  have accepted : SlotBackend.nats.Accepts ("bol", "dev") :=
    requestsTags_sound .nats s (.request "bol" "dev") rfl
  have sequence := (broker_slots_unique ⟨_, path⟩).1 ("bol", "dev") accepted
  refine ⟨s, path, ?_, granted⟩
  rw [sequence.1, counter]
  rfl

end BitsBroker
