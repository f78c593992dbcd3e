import BitsBroker.Db.Nats
import BitsBroker.Lib.Revision
import BitsBroker.Lib.Table
import BitsBroker.Lib.Timeline
import BitsBroker.Lib.Transition

/-!
Reservations of admission slots over NATS. `reserve_user_slot_nats` asks for the entry, creates
it when there is none, and asks again when another call was faster, and each of the three is a
message to the server. Any number of calls run at once, among removals by releases and by the
reclaim sweep. A call that answers took effect in its last step, as if the three messages were
one: `reserveUserSlotNats` gives the same answer there. The second question is the weak point, as
it takes the revision of whatever entry it finds, so no removal may come between the refused
creation and that question.
-/

namespace BitsBroker

open Transition Table Revision Timeline

abbrev SlotRecords : Type := Store String UserLimitEntry

inductive ReservePc where
  | reading
  | creating
  | rereading
  | done (answer : Except DbError Nat) (ended : Nat)

structure ReserveCall where
  scope : String
  user : String
  jobId : String
  ownerBrokerId : String
  since : Nat
  pc : ReservePc

def ReserveCall.key (call : ReserveCall) : String :=
  NatsStore.userSlotKey call.scope call.user call.jobId

def ReserveCall.entry (call : ReserveCall) (createdAt : Nat) : UserLimitEntry :=
  NatsStore.UserLimits.created call.scope call.user call.jobId call.ownerBrokerId createdAt

structure ReserveState where
  kv : Log SlotRecords
  calls : List ReserveCall

def ReserveState.new : ReserveState where
  kv := Log.start Store.empty
  calls := []

/-- `fault` is a message whose answer is an error; a creation may have been carried out all the
same. `purge` is a removal by a release or by a sweep, `marker` what the server leaves when a
tombstone times out, and `expire` drops what is left of a removed key. -/
inductive ReserveAction where
  | request (scope user jobId ownerBrokerId : String)
  | call (i now : Nat)
  | fault (i : Nat) (error : String) (landed : Bool) (now : Nat)
  | purge (scope user jobId : String)
  | marker (key : String)
  | expire (key : String)

namespace ReserveState

def store (s : ReserveState) : SlotRecords := s.kv.current

def goOn (s : ReserveState) (store : SlotRecords) (calls : List ReserveCall) : ReserveState where
  kv := s.kv.push store
  calls := calls

def setPc (s : ReserveState) (i : Nat) (call : ReserveCall) (store : SlotRecords)
    (pc : ReservePc) : ReserveState :=
  s.goOn store (s.calls.set i { call with pc := pc })

def finish (s : ReserveState) (i : Nat) (call : ReserveCall) (store : SlotRecords)
    (answer : Except DbError Nat) : ReserveState :=
  s.setPc i call store (.done answer s.kv.now)

end ReserveState

def reserveRead (s : ReserveState) (i : Nat) (call : ReserveCall) : ReserveState :=
  match s.store.read call.key with
  | some (some _, revision) => s.finish i call s.store (.ok revision)
  | _ => s.setPc i call s.store .creating

def reserveCreate (s : ReserveState) (i : Nat) (call : ReserveCall) (now : Nat) : ReserveState :=
  match s.store.create call.key (call.entry now) with
  | some store => s.finish i call store (.ok store.last)
  | none => s.setPc i call s.store .rereading

def reserveReread (s : ReserveState) (i : Nat) (call : ReserveCall) : ReserveState :=
  s.finish i call s.store (.ok ((s.store.revision call.key).getD 0))

def reserveCallStep (s : ReserveState) (i : Nat) (call : ReserveCall) (now : Nat) :
    Option ReserveState :=
  match call.pc with
  | .reading => some (reserveRead s i call)
  | .creating => some (reserveCreate s i call now)
  | .rereading => some (reserveReread s i call)
  | .done _ _ => none

def reserveFault (s : ReserveState) (i : Nat) (call : ReserveCall) (error : String)
    (landed : Bool) (now : Nat) : Option ReserveState :=
  match call.pc with
  | .reading => some (s.finish i call s.store (.error (.backend s!"get user slot: {error}")))
  | .creating =>
      let store := if landed then (s.store.create call.key (call.entry now)).getD s.store else s.store
      some (s.finish i call store (.error (.backend s!"create user slot: {error}")))
  | .rereading =>
      some (s.finish i call s.store (.error (.backend s!"get user slot after race: {error}")))
  | .done _ _ => none

def beginReserve (s : ReserveState) (scope user jobId ownerBrokerId : String) : ReserveCall :=
  ⟨scope, user, jobId, ownerBrokerId, s.kv.now, .reading⟩

def reserveStep (s : ReserveState) : ReserveAction → Option ReserveState
  | .request scope user jobId ownerBrokerId =>
      some (s.goOn s.store (s.calls ++ [beginReserve s scope user jobId ownerBrokerId]))
  | .call i now => s.calls[i]?.bind fun call => reserveCallStep s i call now
  | .fault i error landed now =>
      s.calls[i]?.bind fun call => reserveFault s i call error landed now
  | .purge scope user jobId =>
      some (s.goOn (s.store.write (NatsStore.userSlotKey scope user jobId) none) s.calls)
  | .marker key =>
      if s.store.value key = none then some (s.goOn (s.store.write key none) s.calls) else none
  | .expire key => some (s.goOn (s.store.expire key) s.calls)

/-- No slot is removed while a call that was too late to create it has not asked for it again. -/
def KeepsRaced (s : ReserveState) : ReserveAction → Prop
  | .purge scope user jobId => ∀ (i : Nat) (call : ReserveCall), s.calls[i]? = some call →
      call.key = NatsStore.userSlotKey scope user jobId → call.pc ≠ .rereading
  | _ => True

/-- What a step does to the store, and the slot it removes. -/
inductive SlotsStep (before : SlotRecords) : Option String → SlotRecords → Prop
  | same : SlotsStep before none before
  | create (key : String) (value : UserLimitEntry) : before.value key = none →
      SlotsStep before none (before.write key (some value))
  | remove (key : String) : SlotsStep before (some key) (before.write key none)
  | expire (key : String) : SlotsStep before none (before.expire key)

def SlotsFollow (before after : SlotRecords) : Prop :=
  ∃ removed, SlotsStep before removed after

/-- What the last step of a call that answers `revision` did. -/
inductive ReserveCall.Took (call : ReserveCall) (revision now : Nat) (before : SlotRecords) :
    SlotRecords → Prop
  | found (value : UserLimitEntry) : before.read call.key = some (some value, revision) →
      Took call revision now before before
  | created : before.value call.key = none → revision = before.last + 1 →
      Took call revision now before (before.write call.key (some (call.entry now)))

def ReserveState.Answered (s : ReserveState) (call : ReserveCall) (revision ended : Nat) : Prop :=
  call.since < ended ∧ ∃ (now : Nat) (before after : SlotRecords),
    s.kv.seen ended = some before ∧ s.kv.seen (ended + 1) = some after ∧
    call.Took revision now before after

def ReservePc.Ok (s : ReserveState) (call : ReserveCall) : ReservePc → Prop
  | .rereading => s.store.value call.key ≠ none
  | .done (.ok revision) ended => s.Answered call revision ended
  | _ => True

structure ReserveCall.Ok (s : ReserveState) (call : ReserveCall) : Prop where
  since : call.since < s.kv.now
  pc : call.pc.Ok s call

structure ReserveWf (s : ReserveState) : Prop where
  chained : s.kv.Chained SlotsFollow
  single (instant : Nat) (store : SlotRecords) : s.kv.seen instant = some store → store.Single
  calls (i : Nat) (call : ReserveCall) : s.calls[i]? = some call → call.Ok s

section Store

variable {before after : SlotRecords} {removed : Option String}

theorem SlotsStep.given (taken : SlotsStep before removed after) {revision : Nat} {key : String}
    (given : before.Given revision key) : after.Given revision key := by
  cases taken with
  | same => exact given
  | create changed value absent => exact given.write changed (some value)
  | remove changed => exact given.write changed none
  | expire changed => exact given.expire changed

theorem SlotsStep.single (taken : SlotsStep before removed after) (single : before.Single) :
    after.Single := by
  cases taken with
  | same => exact single
  | create changed value absent => exact single.write changed (some value)
  | remove changed => exact single.write changed none
  | expire changed => exact single.expire changed

/-- The entry of a slot is the same until the slot is removed. -/
theorem SlotsStep.kept (taken : SlotsStep before removed after) {key : String} {value : UserLimitEntry}
    {revision : Nat} (present : after.value key ≠ none)
    (found : before.read key = some (some value, revision)) :
    after.read key = some (some value, revision) := by
  cases taken with
  | same => exact found
  | create changed other absent =>
      rw [Store.read_write]
      by_cases same : key = changed
      · rw [same] at found
        simp [Store.value, found] at absent
      · rw [if_neg same]
        exact found
  | remove changed =>
      rw [Store.value_write] at present
      rw [Store.read_write]
      by_cases same : key = changed
      · simp [same] at present
      · rw [if_neg same]
        exact found
  | expire changed =>
      rcases Store.read_expire before changed key with same | ⟨_, absent⟩
      · rw [same]
        exact found
      · simp [Store.value, found] at absent

/-- Only a removal of the slot removes it. -/
theorem SlotsStep.stays (taken : SlotsStep before removed after) {key : String}
    (unremoved : removed ≠ some key) (present : before.value key ≠ none) :
    after.value key ≠ none := by
  cases taken with
  | same => exact present
  | create changed value absent =>
      rw [Store.value_write]
      by_cases same : key = changed
      · rw [if_pos same]
        simp
      · rw [if_neg same]
        exact present
  | remove changed =>
      rw [Store.value_write]
      have other : key ≠ changed := fun same => unremoved (by rw [same])
      rw [if_neg other]
      exact present
  | expire changed =>
      rcases Store.read_expire before changed key with same | ⟨_, absent⟩
      · rw [Store.value, same]
        exact present
      · exact absurd absent present

theorem SlotsStep.of_create {store : SlotRecords} {key : String} {value : UserLimitEntry}
    (created : before.create key value = some store) : SlotsStep before none store := by
  obtain ⟨absent, rfl⟩ := Store.create_value created
  exact .create key value absent

end Store

section Step

variable {s next : ReserveState} {removed : Option String} {i : Nat} {call : ReserveCall}
  {now : Nat}

/-- What a step does: one more store is seen, and each call is as before, new, or the one that
moved. -/
structure ReserveMove (s next : ReserveState) (removed : Option String) : Prop where
  log : next.kv = s.kv.push next.store
  taken : SlotsStep s.store removed next.store
  calls (i : Nat) (call : ReserveCall) : next.calls[i]? = some call →
    s.calls[i]? = some call ∨ call.Ok next

theorem ReserveMove.later (move : ReserveMove s next removed) : next.kv.now = s.kv.now + 1 := by
  rw [move.log]
  exact Log.now_push s.kv _

theorem ReserveMove.answered (move : ReserveMove s next removed) {revision ended : Nat}
    (answered : s.Answered call revision ended) : next.Answered call revision ended := by
  obtain ⟨since, now, before, after, first, follows, took⟩ := answered
  refine ⟨since, now, before, after, ?_, ?_, took⟩
  · rw [move.log]
    exact Log.seen_later first _
  · rw [move.log]
    exact Log.seen_later follows _

theorem ReserveWf.step (wf : ReserveWf s) (move : ReserveMove s next removed)
    (raced : ∀ (i : Nat) (call : ReserveCall), s.calls[i]? = some call → call.pc = .rereading →
      removed ≠ some call.key) : ReserveWf next := by
  refine ⟨?_, ?_, ?_⟩
  · rw [move.log]
    exact wf.chained.push ⟨removed, move.taken⟩
  · intro instant store seen
    rw [move.log, Log.seen_push] at seen
    split at seen
    · cases seen
      exact move.taken.single (wf.single s.kv.now s.store (Log.seen_now s.kv))
    · exact wf.single instant store seen
  · intro i call present
    rcases move.calls i call present with old | moved
    · have ok := wf.calls i call old
      have later := move.later
      have since := ok.since
      refine ⟨by omega, ?_⟩
      have inside := ok.pc
      cases pc : call.pc with
      | reading => trivial
      | creating => trivial
      | rereading =>
          rw [pc] at inside
          exact move.taken.stays (raced i call old pc) inside
      | done answer ended =>
          rw [pc] at inside
          cases answer with
          | error e => trivial
          | ok revision => exact move.answered inside
    · exact moved

theorem ReserveMove.of_setPc {store : SlotRecords} {pc : ReservePc} (ok : call.Ok s)
    (taken : SlotsStep s.store none store)
    (inside : pc.Ok (s.setPc i call store pc) { call with pc := pc }) :
    ReserveMove s (s.setPc i call store pc) none := by
  refine ⟨rfl, taken, ?_⟩
  intro j other there
  rcases getElem?_of_set there with ⟨_, rfl⟩ | ⟨_, old⟩
  · have since := ok.since
    have later : (s.setPc i call store pc).kv.now = s.kv.now + 1 := Log.now_push s.kv _
    exact Or.inr ⟨by rw [later]; exact Nat.lt_succ_of_lt since, inside⟩
  · exact Or.inl old

theorem ReserveState.answered_finish (now : Nat) {store : SlotRecords} {revision : Nat}
    (ok : call.Ok s) (took : call.Took revision now s.store store) :
    (s.finish i call store (.ok revision)).Answered
      { call with pc := .done (.ok revision) s.kv.now } revision s.kv.now := by
  refine ⟨ok.since, now, s.store, store, Log.seen_later (Log.seen_now s.kv) _,
    Log.seen_next s.kv store, ?_⟩
  cases took with
  | found value there => exact .found value there
  | created absent given => exact .created absent given

theorem reserveRead_move (ok : call.Ok s) : ReserveMove s (reserveRead s i call) none := by
  unfold reserveRead
  split
  next value revision found =>
    exact ReserveMove.of_setPc ok .same (ReserveState.answered_finish 0 ok (.found value found))
  next => exact ReserveMove.of_setPc ok .same trivial

theorem reserveCreate_move (ok : call.Ok s) (now : Nat) :
    ReserveMove s (reserveCreate s i call now) none := by
  unfold reserveCreate
  split
  next store created =>
    obtain ⟨absent, rfl⟩ := Store.create_value created
    exact ReserveMove.of_setPc ok (.create call.key (call.entry now) absent)
      (ReserveState.answered_finish now ok (.created absent rfl))
  next refused =>
    apply ReserveMove.of_setPc ok .same
    show s.store.value call.key ≠ none
    intro absent
    simp [Store.create, absent] at refused

theorem reserveReread_move (ok : call.Ok s) (rereading : call.pc = .rereading) :
    ReserveMove s (reserveReread s i call) none := by
  have present := ok.pc
  rw [rereading] at present
  have stored : s.store.value call.key ≠ none := present
  cases found : s.store.read call.key with
  | none => simp [Store.value, found] at stored
  | some entry =>
      obtain ⟨kept, revision⟩ := entry
      cases kept with
      | none => simp [Store.value, found] at stored
      | some value =>
          have answer : (s.store.revision call.key).getD 0 = revision := by
            simp [Store.revision, found]
          unfold reserveReread
          rw [answer]
          exact ReserveMove.of_setPc ok .same
            (ReserveState.answered_finish 0 ok (.found value found))

theorem reserveFault_move (ok : call.Ok s) {error : String} {landed : Bool}
    (taken : reserveFault s i call error landed now = some next) : ReserveMove s next none := by
  unfold reserveFault at taken
  split at taken
  next => cases taken; exact ReserveMove.of_setPc ok .same trivial
  next =>
    cases taken
    refine ReserveMove.of_setPc ok ?_ trivial
    cases landed with
    | false => exact .same
    | true =>
        cases created : s.store.create call.key (call.entry now) with
        | none => exact .same
        | some store => exact SlotsStep.of_create created
  next => cases taken; exact ReserveMove.of_setPc ok .same trivial
  next => cases taken

theorem ReserveMove.of_store {store : SlotRecords} (taken : SlotsStep s.store removed store) :
    ReserveMove s (s.goOn store s.calls) removed :=
  ⟨rfl, taken, fun _ _ there => Or.inl there⟩

def ReserveAction.removes : ReserveAction → Option String
  | .purge scope user jobId => some (NatsStore.userSlotKey scope user jobId)
  | .marker key => some key
  | _ => none

theorem reserveStep_move (wf : ReserveWf s) {action : ReserveAction}
    (taken : reserveStep s action = some next) : ReserveMove s next action.removes := by
  cases action with
  | request scope user jobId ownerBrokerId =>
      cases taken
      refine ⟨rfl, .same, ?_⟩
      intro j other there
      rcases getElem?_of_snoc there with old | ⟨_, rfl⟩
      · exact Or.inl old
      · refine Or.inr ⟨?_, trivial⟩
        have later := Log.now_push s.kv s.store
        show s.kv.now < (s.kv.push s.store).now
        omega
  | call i now =>
      simp only [reserveStep, Option.bind_eq_some_iff] at taken
      obtain ⟨call, present, taken⟩ := taken
      have ok := wf.calls i call present
      unfold reserveCallStep at taken
      split at taken
      next => cases taken; exact reserveRead_move ok
      next => cases taken; exact reserveCreate_move ok now
      next rereading => cases taken; exact reserveReread_move ok rereading
      next => cases taken
  | fault i error landed now =>
      simp only [reserveStep, Option.bind_eq_some_iff] at taken
      obtain ⟨call, present, taken⟩ := taken
      exact reserveFault_move (wf.calls i call present) taken
  | purge scope user jobId =>
      cases taken
      exact ReserveMove.of_store (.remove _)
  | marker key =>
      simp only [reserveStep] at taken
      split at taken
      · cases taken
        exact ReserveMove.of_store (.remove key)
      · cases taken
  | expire key =>
      cases taken
      exact ReserveMove.of_store (.expire key)

/-- No slot is removed under a call that asks for it again. -/
theorem KeepsRaced.removes (wf : ReserveWf s) {action : ReserveAction}
    (raced : KeepsRaced s action) (taken : reserveStep s action = some next) (i : Nat)
    (call : ReserveCall) (present : s.calls[i]? = some call) (rereading : call.pc = .rereading) :
    action.removes ≠ some call.key := by
  cases action with
  | purge scope user jobId =>
      intro same
      exact raced i call present (Option.some.inj same).symm rereading
  | marker key =>
      intro same
      have stored := (wf.calls i call present).pc
      rw [rereading] at stored
      simp only [reserveStep] at taken
      split at taken
      next absent =>
        rw [Option.some.inj same] at absent
        exact stored absent
      · cases taken
  | _ => simp [ReserveAction.removes]

end Step

theorem ReserveWf.initial : ReserveWf ReserveState.new := by
  refine ⟨Log.Chained.start _, ?_, ?_⟩
  · intro instant store seen
    have first : instant = 0 := Nat.le_zero.mp (Log.le_now seen)
    subst first
    cases seen
    exact Store.Single.empty
  · intro i call present
    simp [ReserveState.new] at present

theorem ReserveWf.of_reachable {s : ReserveState}
    (reachable : Reachable reserveStep KeepsRaced ReserveState.new s) : ReserveWf s := by
  obtain ⟨actions, path⟩ := reachable
  apply path.invariant ReserveWf.initial
  intro state action next wf raced taken
  exact wf.step (reserveStep_move wf taken) (raced.removes wf taken)

section Sequential

open NatsStore

def KvOperation.value? {V : Type} : KvOperation V → Option V
  | .put value => some value
  | .delete | .purge => none

/-- The bucket has the entries of the store. -/
structure Holds (bucket : UserLimits) (kv : SlotRecords) : Prop where
  last : bucket.lastRevision = kv.last
  entries (key : String) :
    (bucket.entry key).map (fun current => (current.operation.value?, current.revision)) =
      kv.read key

theorem entry_write {V : Type} {keyOf : V → String} (bucket : Bucket keyOf)
    {key : String} {operation : KvOperation V}
    (named : ∀ value, operation = .put value → key = keyOf value) (other : String) :
    (bucket.write key operation named).entry other =
      if other = key then some ⟨key, bucket.lastRevision + 1, operation⟩ else bucket.entry other := by
  simp only [Bucket.entry, Bucket.write, List.find?_append, List.find?_filter, decide_eq_true_eq]
  by_cases same : other = key
  · rw [if_pos same, same]
    have gone : (bucket.entries.find? fun current =>
        decide (current.key ≠ key ∧ current.key = key)) = none := by
      simp
    rw [gone]
    simp
  · rw [if_neg same]
    have kept : (fun current : KvEntry V =>
        decide (current.key ≠ key ∧ current.key = other)) =
        fun current => decide (current.key = other) := by
      funext current
      by_cases here : current.key = other
      · simp [here, same]
      · simp [here]
    rw [kept]
    simp [Ne.symm same]

theorem Holds.write {bucket : UserLimits} {kv : SlotRecords} (holds : Holds bucket kv)
    (value : UserLimitEntry) :
    Holds (bucket.put value) (kv.write (slotKeyOf value) (some value)) := by
  refine ⟨?_, ?_⟩
  · exact congrArg (· + 1) holds.last
  · intro other
    rw [Bucket.put, entry_write, Store.read_write, ← holds.last]
    by_cases same : other = slotKeyOf value
    · simp [same, KvOperation.value?]
    · rw [if_neg same, if_neg same]
      exact holds.entries other

/-- The call as one operation answers and writes as the three messages do. -/
theorem Holds.reserve {bucket : UserLimits} {before after : SlotRecords} {call : ReserveCall}
    {revision now : Nat} (holds : Holds bucket before)
    (took : call.Took revision now before after) :
    ∃ later, bucket.reserveUserSlotNats call.scope call.user call.jobId call.ownerBrokerId now
      none none = .ok (revision, later) ∧ Holds later after := by
  have there := holds.entries call.key
  cases took with
  | found value found =>
      rw [found, Option.map_eq_some_iff] at there
      obtain ⟨⟨key, given, operation⟩, entry, same⟩ := there
      refine ⟨bucket, ?_, holds⟩
      cases operation with
      | put kept =>
          simp only [Prod.mk.injEq] at same
          simp only [UserLimits.reserveUserSlotNats]
          rw [show bucket.entry (userSlotKey call.scope call.user call.jobId) = _ from entry]
          simp only [same.2]
      | delete => simp [KvOperation.value?] at same
      | purge => simp [KvOperation.value?] at same
  | created absent given =>
      refine ⟨bucket.put (call.entry now), ?_, holds.write (call.entry now)⟩
      have fresh : (bucket.put (call.entry now)).lastRevision = revision := by
        rw [given, ← holds.last]
        rfl
      simp only [UserLimits.reserveUserSlotNats]
      split
      next key other value entry =>
        rw [show bucket.entry call.key = _ from entry] at there
        simp [Store.value, ← there, KvOperation.value?] at absent
      next => exact congrArg Except.ok (Prod.ext fresh rfl)

theorem Holds.listed {bucket : UserLimits} {kv : SlotRecords} (holds : Holds bucket kv)
    {call : ReserveCall} {value : UserLimitEntry} {revision : Nat}
    (found : kv.read call.key = some (some value, revision)) :
    ∃ listed ∈ bucket.listUserSlotsNats call.scope call.user,
      listed.jobId = call.jobId ∧ listed.seq = revision := by
  have there := holds.entries call.key
  rw [found, Option.map_eq_some_iff] at there
  obtain ⟨⟨key, given, operation⟩, entry, same⟩ := there
  have member := List.mem_of_find?_eq_some entry
  have named := List.find?_some entry
  simp only [decide_eq_true_eq] at named
  cases operation with
  | delete => simp [KvOperation.value?] at same
  | purge => simp [KvOperation.value?] at same
  | put kept =>
      simp only [KvOperation.value?, Prod.mk.injEq, Option.some.injEq] at same
      have keyed := bucket.keyed _ member kept rfl
      obtain ⟨scopes, users, jobs⟩ := userSlotKey_inj (keyed.symm.trans named)
      refine ⟨{ kept with seq := given }, ?_, jobs, same.2⟩
      rw [UserLimits.listUserSlotsNats_eq, List.mem_filter]
      refine ⟨List.mem_filterMap.mpr ⟨_, member, rfl⟩, ?_⟩
      simp [scopes, users]

end Sequential

theorem ReserveCall.Took.reads {call : ReserveCall} {revision now : Nat}
    {before after : SlotRecords} (took : call.Took revision now before after) :
    ∃ value, after.read call.key = some (some value, revision) := by
  cases took with
  | found value found => exact ⟨value, found⟩
  | created absent given =>
      refine ⟨call.entry now, ?_⟩
      rw [Store.read_write, if_pos rfl, given]

theorem ReserveWf.key_eq {s : ReserveState} (wf : ReserveWf s) {first last : ReserveCall}
    {revision began ended : Nat} (before : began ≤ ended)
    (earlier : s.Answered first revision began) (later : s.Answered last revision ended) :
    last.key = first.key := by
  obtain ⟨_, _, _, store, _, seen, took⟩ := earlier
  obtain ⟨_, _, _, other, _, seen', took'⟩ := later
  obtain ⟨value, reads⟩ := took.reads
  obtain ⟨value', reads'⟩ := took'.reads
  have given : store.Given revision first.key :=
    wf.single _ store seen first.key (some value, revision) reads
  have carried : other.Given revision first.key := by
    apply wf.chained.always (Q := fun store => store.Given revision first.key) ?_ seen given
      (Nat.succ_le_succ before) seen'
    rintro before after ⟨removed, taken⟩ given
    exact taken.given given
  exact carried.2 last.key (some value', revision) reads' rfl

/-- In every run a call that answers took effect in its last step as one operation would, calls
for different slots are answered by different revisions, and as long as the slot is there it is
listed with the revision that was answered. -/
theorem reserve_calls_atomic {s : ReserveState}
    (reachable : Reachable reserveStep KeepsRaced ReserveState.new s)
    {i : Nat} {call : ReserveCall} {revision ended : Nat} (present : s.calls[i]? = some call)
    (finished : call.pc = .done (.ok revision) ended) :
    (call.since < ended ∧ ∃ (now : Nat) (before after : SlotRecords),
      s.kv.seen ended = some before ∧ s.kv.seen (ended + 1) = some after ∧
      ∀ bucket, Holds bucket before → ∃ later, bucket.reserveUserSlotNats call.scope call.user
        call.jobId call.ownerBrokerId now none none = .ok (revision, later) ∧
          Holds later after) ∧
    (∀ (j : Nat) (other : ReserveCall) (later : Nat), s.calls[j]? = some other →
      other.pc = .done (.ok revision) later →
        other.scope = call.scope ∧ other.user = call.user ∧ other.jobId = call.jobId) ∧
    ((∀ (instant : Nat) (store : SlotRecords), ended < instant →
        s.kv.seen instant = some store → store.value call.key ≠ none) →
      ∀ bucket, Holds bucket s.store →
        ∃ listed ∈ bucket.listUserSlotsNats call.scope call.user,
          listed.jobId = call.jobId ∧ listed.seq = revision) := by
  have wf := ReserveWf.of_reachable reachable
  have answered : ∀ {j : Nat} {other : ReserveCall} {later : Nat}, s.calls[j]? = some other →
      other.pc = .done (.ok revision) later → s.Answered other revision later := by
    intro j other later there done
    have inside := (wf.calls j other there).pc
    rw [done] at inside
    exact inside
  obtain ⟨since, now, before, after, first, follows, took⟩ := answered present finished
  refine ⟨⟨since, now, before, after, first, follows, ?_⟩, ?_, ?_⟩
  · intro bucket holds
    exact holds.reserve took
  · intro j other later there done
    have theirs := answered there done
    have same : other.key = call.key := by
      rcases Nat.le_total later ended with before' | before'
      · exact (wf.key_eq before' theirs (answered present finished)).symm
      · exact wf.key_eq before' (answered present finished) theirs
    exact NatsStore.userSlotKey_inj same
  · intro lasting bucket holds
    obtain ⟨value, reads⟩ := took.reads
    have late := Log.le_now follows
    have kept : s.store.read call.key = some (some value, revision) := by
      apply wf.chained.carry (P := fun store => store.value call.key ≠ none)
        (Q := fun store => store.read call.key = some (some value, revision)) ?_ follows reads late
        ?_ (Log.seen_now s.kv)
      · rintro before after ⟨removed, taken⟩ stays found
        exact taken.kept stays found
      · intro middle between beyond _ seen
        exact lasting middle between (by omega) seen
    exact holds.listed kept

namespace Scenario

def reservation : ReserveAction := .request "scope" "user" "job-1" "bol-dev-0"

def duplicate : ReserveAction := .request "scope" "user" "job-1" "bol-dev-1"

/-- After a first slot was released, two calls find none, and the slower one asks again. -/
def racingReservations : List ReserveAction :=
  [reservation, .call 0 1, .call 0 2, .purge "scope" "user" "job-1", reservation, duplicate,
    .call 1 3, .call 2 3, .call 1 4, .call 2 4, .call 2 5]

/-- The slot is released before the slower call asks again. -/
def releasedUnderReread : List ReserveAction :=
  [reservation, duplicate, .call 0 1, .call 1 1, .call 0 2, .call 1 2,
    .purge "scope" "user" "job-1", .call 1 3]

def isRereading : ReservePc → Bool
  | .rereading => true
  | _ => false

def revisionOf : ReservePc → Option Nat
  | .done (.ok revision) _ => some revision
  | _ => none

def keepsRaced (s : ReserveState) : ReserveAction → Bool
  | .purge scope user jobId => s.calls.all fun call =>
      !(decide (call.key = NatsStore.userSlotKey scope user jobId) && isRereading call.pc)
  | _ => true

theorem keepsRaced_sound (s : ReserveState) (action : ReserveAction)
    (checked : keepsRaced s action = true) : KeepsRaced s action := by
  cases action with
  | purge scope user jobId =>
      intro i call present same rereading
      have kept := List.all_eq_true.mp checked call (List.mem_of_getElem? present)
      rw [decide_eq_true same, rereading] at kept
      cases kept
  | _ => trivial

theorem of_revisionOf {pc : ReservePc} {revision : Nat} (given : revisionOf pc = some revision) :
    ∃ ended, pc = .done (.ok revision) ended := by
  unfold revisionOf at given
  split at given
  next other ended =>
    cases given
    exact ⟨ended, rfl⟩
  · cases given

end Scenario

open Scenario in
theorem reserve_calls_atomic_racing :
    ∃ (s : ReserveState) (call : ReserveCall) (ended : Nat),
      Path reserveStep KeepsRaced ReserveState.new racingReservations s ∧
      s.calls[2]? = some call ∧ call.pc = .done (.ok 3) ended ∧ call.since < ended ∧
      s.store.value call.key ≠ none := by
  have ran : (run (fun s action => if keepsRaced s action then reserveStep s action else none)
      ReserveState.new racingReservations).any (fun s => s.calls[2]?.any fun call =>
        decide (revisionOf call.pc = some 3) && (s.store.value call.key).isSome) = true := by
    decide +kernel
  obtain ⟨s, finished, checked⟩ := (Option.any_eq_true _ _).mp ran
  obtain ⟨call, present, facts⟩ := (Option.any_eq_true _ _).mp checked
  rw [Bool.and_eq_true, decide_eq_true_eq] at facts
  obtain ⟨ended, answered⟩ := of_revisionOf facts.1
  have path := Path.of_run_if keepsRaced_sound _ _ finished
  have atomic := reserve_calls_atomic ⟨_, path⟩ present answered
  refine ⟨s, call, ended, path, present, answered, atomic.1.1, ?_⟩
  exact Option.isSome_iff_ne_none.mp facts.2

open Scenario in
example : (run reserveStep ReserveState.new releasedUnderReread).any (fun s => s.calls[1]?.any
    fun call => decide (revisionOf call.pc = some 2) && (s.store.value call.key).isNone) = true := by
  decide +kernel

end BitsBroker
