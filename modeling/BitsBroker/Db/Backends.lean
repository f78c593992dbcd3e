import BitsBroker.Db.ClaimLoops
import BitsBroker.Lib.Service
import BitsBroker.Runtime.Recovery

/-!
The three backends as services: the calls of `JobStore` and `BrokerLeaseStore`, answered one after
the other, with time passing in between. The promise they keep is a ledger of records and leases. The
in-memory store has no faults. The client libraries of the other two may fail at any of their calls,
and a write that was reported to have failed may have landed. The serialised form of a value is a
parameter; what a run writes has to read back as it was written. A bucket of NATS drops what is left
of a deleted key at some time, and a lease at some time after `max_age`; the clock of its server is
the one of the brokers.
-/

namespace BitsBroker.Backends

open RequestId Revision Service

inductive StoreCall where
  | upsertJob (record : PersistentJobRecord)
  | deleteJob (jobId : String)
  | claimIfOwner (jobId expectedOwnerBrokerId claimantBrokerId : String)
  | upsertBrokerLease (brokerId internalPollBaseUrl : String) (ttl : Nat)
  | lookupOwnerLease (ownerBrokerId : String)
  | deleteBrokerLease (brokerId : String)
  | wait (elapsed : Nat)

inductive Reply where
  | done
  | claim (result : ClaimResult)
  | lease (lookup : LeaseLookup)

abbrev StoreAnswer : Type := Except DbError Reply

/-- A call of a client library that failed; `landed` says whether it took effect all the same. -/
structure Fault where
  message : String
  landed : Bool

inductive ClientCall where
  | connect
  | begins
  | reads
  | writes
  | commits
  | purgesWithTtl
  | purges
deriving DecidableEq

/-- What happens to one call: its faults, the keys whose delete markers are dropped meanwhile, and
whether a lease past its age is still there. -/
structure Weather where
  fault : ClientCall → Option Fault
  dropped : List String
  swept : Bool

def Weather.Calm (weather : Weather) : Prop := ∀ call, weather.fault call = none

structure Codec (V B : Type) where
  serialize : V → B
  deserialize : B → Except String V

/-- What is read back is what was written; floats and deep nesting can be lost in a text. -/
def Codec.ReadsBack {V B : Type} (codec : Codec V B) (value : V) : Prop :=
  codec.deserialize (codec.serialize value) = .ok value

def backend (context message : String) : DbError := .backend s!"{context}: {message}"

/-- A write: its reply or its fault, and what is then in the store. -/
def attempt {S A : Type} (fault : Option Fault) (store next : S) (reply : A) (context : String) :
    Except DbError A × S :=
  match fault with
  | none => (.ok reply, next)
  | some fault => (.error (backend context fault.message), if fault.landed then next else store)

section Ledger

structure Ledger where
  records : String → Option PersistentJobRecord
  leases : String → Option BrokerLeaseRecord
  now : Nat

namespace Ledger

def new : Ledger where
  records := fun _ => none
  leases := fun _ => none
  now := 0

def setRecord (ledger : Ledger) (jobId : String) (record : Option PersistentJobRecord) : Ledger :=
  { ledger with records := Function.update ledger.records jobId record }

def setLease (ledger : Ledger) (brokerId : String) (lease : Option BrokerLeaseRecord) : Ledger :=
  { ledger with leases := Function.update ledger.leases brokerId lease }

variable (divF64 : Nat → Nat)

def evaluate (now : Nat) : Option BrokerLeaseRecord → LeaseLookup
  | some lease => if leaseIsActiveWithGrace divF64 lease now then .active lease else .missingOrExpired
  | none => .missingOrExpired

def invalidJobId (jobId : String) (e : RequestId.DecodeError) : DbError :=
  .backend s!"invalid public job ID {debugText jobId}: {e.message}"

def claim (ledger : Ledger) (jobId expected claimant : String) : ClaimResult × Ledger :=
  match ledger.records jobId with
  | none => (.notFound, ledger)
  | some record =>
      if record.brokerId = claimant then (.claimed record, ledger)
      else if record.brokerId ≠ expected then (.active record.brokerId, ledger)
      else
        let claimed := { record with brokerId := claimant }
        (.claimed claimed, ledger.setRecord jobId (some claimed))

/-- What the store is for: the last record of each job, the last lease of each broker, and one owner
of a record at a time. -/
def serve (ledger : Ledger) : StoreCall → StoreAnswer × Ledger
  | .upsertJob record => match decode record.jobId with
      | .error e => (.error (invalidJobId record.jobId e), ledger)
      | .ok _ => (.ok .done, ledger.setRecord record.jobId (some record))
  | .deleteJob jobId => match decode jobId with
      | .error e => (.error (invalidJobId jobId e), ledger)
      | .ok _ => (.ok .done, ledger.setRecord jobId none)
  | .claimIfOwner jobId expected claimant => match decode jobId with
      | .error e => (.error (invalidJobId jobId e), ledger)
      | .ok _ =>
          let (result, next) := ledger.claim jobId expected claimant
          (.ok (.claim result), next)
  | .upsertBrokerLease brokerId internalPollBaseUrl ttl => (.ok .done, ledger.setLease brokerId
      (some ⟨brokerId, internalPollBaseUrl, ledger.now + ttl, ledger.now⟩))
  | .lookupOwnerLease ownerBrokerId =>
      (.ok (.lease (evaluate divF64 ledger.now (ledger.leases ownerBrokerId))), ledger)
  | .deleteBrokerLease brokerId => (.ok .done, ledger.setLease brokerId none)
  | .wait elapsed => (.ok .done, { ledger with now := ledger.now + elapsed })

end Ledger

end Ledger

section Memory

structure MemoryBackend where
  store : MemoryStore
  now : Nat

namespace MemoryBackend

def new : MemoryBackend where
  store := MemoryStore.new
  now := 0

def serve (divF64 : Nat → Nat) (s : MemoryBackend) (call : StoreCall) (_ : Weather) :
    StoreAnswer × MemoryBackend :=
  match call with
  | .upsertJob record => match s.store.upsertJob record with
      | .error e => (.error e, s)
      | .ok store => (.ok .done, { s with store := store })
  | .deleteJob jobId => match s.store.deleteJob jobId with
      | .error e => (.error e, s)
      | .ok store => (.ok .done, { s with store := store })
  | .claimIfOwner jobId expected claimant => match s.store.claimIfOwner jobId expected claimant with
      | .error e => (.error e, s)
      | .ok (result, store) => (.ok (.claim result), { s with store := store })
  | .upsertBrokerLease brokerId internalPollBaseUrl ttl => (.ok .done, { s with
      store := s.store.upsertBrokerLease brokerId internalPollBaseUrl ttl s.now })
  | .lookupOwnerLease ownerBrokerId =>
      (.ok (.lease (lookupOwnerLease divF64 s.store ownerBrokerId s.now)), s)
  | .deleteBrokerLease brokerId =>
      (.ok .done, { s with store := s.store.deleteBrokerLease brokerId })
  | .wait elapsed => (.ok .done, { s with now := s.now + elapsed })

end MemoryBackend

end Memory

section Nats

variable {B : Type}

/-- The two buckets of one store. The server keeps the time of a lease beside it. -/
structure NatsBackend (B : Type) where
  jobs : Store String B
  leases : Store String (B × Nat)
  now : Nat

namespace NatsBackend

def new : NatsBackend B where
  jobs := Store.empty
  leases := Store.empty
  now := 0

def withJobs (s : NatsBackend B) (jobs : Store String B) : NatsBackend B := { s with jobs := jobs }

def withLeases (s : NatsBackend B) (leases : Store String (B × Nat)) : NatsBackend B :=
  { s with leases := leases }

end NatsBackend

variable (job : Codec PersistentJobRecord B) (lease : Codec BrokerLeaseRecord B)
  (divF64 : Nat → Nat) (leaseTtl : Nat)

def natsBrokerLeaseKey (brokerId : String) : String := s!"brokers.{brokerId}"

def natsConnected (weather : Weather) (s : NatsBackend B) (go : StoreAnswer × NatsBackend B) :
    StoreAnswer × NatsBackend B :=
  match weather.fault .connect with
  | some fault => (.error (.backend fault.message), s)
  | none => go

def natsUpsertJob (weather : Weather) (s : NatsBackend B) (record : PersistentJobRecord) :
    StoreAnswer × NatsBackend B :=
  match natsJobKey record.jobId with
  | .error e => (.error e, s)
  | .ok key => natsConnected weather s <| Prod.map id s.withJobs <|
      attempt (weather.fault .writes) s.jobs (s.jobs.write key (some (job.serialize record))) .done
        "put job"

/-- A tombstone that expires, or else a permanent one. -/
def purgeExpiring (weather : Weather) (store : Store String B) (key : String) :
    Except DbError Reply × Store String B :=
  match attempt (weather.fault .purgesWithTtl) store (store.write key none) Reply.done
    "purge with ttl" with
  | (.ok reply, purged) => (.ok reply, purged)
  | (.error _, kept) =>
      attempt (weather.fault .purges) kept (kept.write key none) .done s!"purge {key} (fallback)"

def natsDeleteJob (weather : Weather) (s : NatsBackend B) (jobId : String) :
    StoreAnswer × NatsBackend B :=
  match natsJobKey jobId with
  | .error e => (.error e, s)
  | .ok key => natsConnected weather s <| Prod.map id s.withJobs <|
      purgeExpiring weather s.jobs key

def natsRefreshClaim (weather : Weather) (jobs : Store String B) (key claimant : String) :
    Except DbError ClaimResult :=
  match weather.fault .reads with
  | some fault => .error (backend "re-read after CAS retries" fault.message)
  | none => match jobs.read key with
    | some (some value, _) => match job.deserialize value with
        | .error e => .error (backend "deserialize failed" e)
        | .ok current =>
            if current.brokerId = claimant then .ok (.claimed current)
            else .ok (.active current.brokerId)
    | _ => .ok .notFound

/-- The attempts that are left; an update that meets another revision is tried again. -/
def natsClaimLoop (weather : Weather) (jobs : Store String B) (key expected claimant : String) :
    Nat → Except DbError ClaimResult × Store String B
  | 0 => (natsRefreshClaim job weather jobs key claimant, jobs)
  | left + 1 => match weather.fault .reads with
    | some fault => (.error (backend "get job entry" fault.message), jobs)
    | none => match jobs.read key with
      | none => (.ok .notFound, jobs)
      | some (none, _) => (.ok .notFound, jobs)
      | some (some value, revision) => match job.deserialize value with
          | .error e => (.error (backend "deserialize failed" e), jobs)
          | .ok record =>
              if record.brokerId = claimant then (.ok (.claimed record), jobs)
              else if record.brokerId ≠ expected then (.ok (.active record.brokerId), jobs)
              else
                let claimed := { record with brokerId := claimant }
                match jobs.update key (job.serialize claimed) revision with
                | none => natsClaimLoop weather jobs key expected claimant left
                | some next =>
                    attempt (weather.fault .writes) jobs next (.claimed claimed) "update job"

def natsClaimIfOwner (weather : Weather) (s : NatsBackend B) (jobId expected claimant : String) :
    StoreAnswer × NatsBackend B :=
  match natsJobKey jobId with
  | .error e => (.error e, s)
  | .ok key => natsConnected weather s <| Prod.map (Except.map .claim) s.withJobs <|
      natsClaimLoop job weather s.jobs key expected claimant maxCasAttempts

def outOfRange : String := "Source duration value is out of range for the target type"

def natsUpsertBrokerLease (weather : Weather) (s : NatsBackend B)
    (brokerId internalPollBaseUrl : String) (ttl : Nat) : StoreAnswer × NatsBackend B :=
  if ttl ≤ MemoryStore.chronoMax then
    let record : BrokerLeaseRecord := {
      brokerId := brokerId
      internalPollBaseUrl := internalPollBaseUrl
      leaseUntil := s.now + ttl
      updatedAt := s.now
    }
    natsConnected weather s <| Prod.map id s.withLeases <|
      attempt (weather.fault .writes) s.leases
        (s.leases.write (natsBrokerLeaseKey brokerId) (some (lease.serialize record, s.now))) .done
        "put lease"
  else (.error (backend "invalid broker lease ttl" outOfRange), s)

/-- `max_age` of the leases bucket; none at all when it is zero. -/
def leaseMaxAge : Nat := min (2 * leaseTtl) durationMax

def natsLeaseEntry (weather : Weather) (s : NatsBackend B) (brokerId : String) : Option B :=
  match s.leases.value (natsBrokerLeaseKey brokerId) with
  | some (value, stored) =>
      if leaseMaxAge leaseTtl ≠ 0 ∧ stored + leaseMaxAge leaseTtl ≤ s.now ∧ weather.swept = true then
        none
      else some value
  | none => none

def natsGetBrokerLease (weather : Weather) (s : NatsBackend B) (brokerId : String) :
    Except DbError (Option BrokerLeaseRecord) :=
  match weather.fault .connect with
  | some fault => .error (.backend fault.message)
  | none => match weather.fault .reads with
    | some fault => .error (backend "get lease entry" fault.message)
    | none => match natsLeaseEntry leaseTtl weather s brokerId with
      | none => .ok none
      | some value => match lease.deserialize value with
          | .error e => .error (backend "deserialize failed" e)
          | .ok record => .ok (some record)

def natsDeleteBrokerLease (weather : Weather) (s : NatsBackend B) (brokerId : String) :
    StoreAnswer × NatsBackend B :=
  natsConnected weather s <| Prod.map id s.withLeases <|
    attempt (weather.fault .writes) s.leases (s.leases.write (natsBrokerLeaseKey brokerId) none) .done
      "delete lease"

/-- `lookup_owner_lease` over what the backend answers. -/
def evaluateLease (now : Nat) : Except DbError (Option BrokerLeaseRecord) → LeaseLookup
  | .ok found => Ledger.evaluate divF64 now found
  | .error _ => .unknown

def NatsBackend.wait (weather : Weather) (s : NatsBackend B) (elapsed : Nat) : NatsBackend B where
  jobs := weather.dropped.foldl Store.expire s.jobs
  leases := weather.dropped.foldl Store.expire s.leases
  now := s.now + elapsed

def NatsBackend.serve (s : NatsBackend B) (call : StoreCall) (weather : Weather) :
    StoreAnswer × NatsBackend B :=
  match call with
  | .upsertJob record => natsUpsertJob job weather s record
  | .deleteJob jobId => natsDeleteJob weather s jobId
  | .claimIfOwner jobId expected claimant => natsClaimIfOwner job weather s jobId expected claimant
  | .upsertBrokerLease brokerId internalPollBaseUrl ttl =>
      natsUpsertBrokerLease lease weather s brokerId internalPollBaseUrl ttl
  | .lookupOwnerLease ownerBrokerId =>
      (.ok (.lease (evaluateLease divF64 s.now
        (natsGetBrokerLease lease leaseTtl weather s ownerBrokerId))), s)
  | .deleteBrokerLease brokerId => natsDeleteBrokerLease weather s brokerId
  | .wait elapsed => (.ok .done, s.wait weather elapsed)

end Nats

section Tikv

variable {B : Type}

structure TikvBackend (B : Type) where
  kv : Store String B
  now : Nat

namespace TikvBackend

def new : TikvBackend B where
  kv := Store.empty
  now := 0

def withKv (s : TikvBackend B) (kv : Store String B) : TikvBackend B := { s with kv := kv }

end TikvBackend

variable (job : Codec PersistentJobRecord B) (lease : Codec BrokerLeaseRecord B)
  (divF64 : Nat → Nat)

def tikvBrokerKey (brokerId : String) : String := s!"brokers/{brokerId}"

/-- The client is there and a transaction begins. -/
def tikvBegun (weather : Weather) (s : TikvBackend B) (go : StoreAnswer × TikvBackend B) :
    StoreAnswer × TikvBackend B :=
  match weather.fault .connect with
  | some fault => (.error (.backend fault.message), s)
  | none => match weather.fault .begins with
    | some fault => (.error (backend "begin txn failed" fault.message), s)
    | none => go

/-- A transaction that writes one key without reading it. The write is buffered until the commit. -/
def tikvWrite (weather : Weather) (s : TikvBackend B) (failed key : String) (value : Option B) :
    StoreAnswer × TikvBackend B :=
  tikvBegun weather s <|
    match weather.fault .writes with
    | some fault => (.error (backend failed fault.message), s)
    | none => Prod.map id s.withKv <|
        attempt (weather.fault .commits) s.kv (s.kv.write key value) .done "commit failed"

def tikvUpsertJob (weather : Weather) (s : TikvBackend B) (record : PersistentJobRecord) :
    StoreAnswer × TikvBackend B :=
  match tikvJobKey record.jobId with
  | .error e => (.error e, s)
  | .ok key => tikvWrite weather s "put failed" key (some (job.serialize record))

def tikvDeleteJob (weather : Weather) (s : TikvBackend B) (jobId : String) :
    StoreAnswer × TikvBackend B :=
  match tikvJobKey jobId with
  | .error e => (.error e, s)
  | .ok key => tikvWrite weather s "delete failed" key none

/-- The attempts that are left; a commit that meets a write conflict is tried again. -/
def tikvClaimLoop (weather : Weather) (kv : Store String B) (jobId key expected claimant : String) :
    Nat → Except DbError ClaimResult × Store String B
  | 0 => (.error (claimConflict jobId), kv)
  | left + 1 => match weather.fault .begins with
    | some fault => (.error (backend "begin txn failed" fault.message), kv)
    | none => match weather.fault .reads with
      | some fault => (.error (backend "get failed" fault.message), kv)
      | none => match kv.value key with
        | none => (.ok .notFound, kv)
        | some value => match job.deserialize value with
            | .error e => (.error (backend "deserialize failed" e), kv)
            | .ok record =>
                if record.brokerId = claimant then (.ok (.claimed record), kv)
                else if record.brokerId ≠ expected then (.ok (.active record.brokerId), kv)
                else
                  let claimed := { record with brokerId := claimant }
                  match weather.fault .writes with
                  | some fault => (.error (backend "put failed" fault.message), kv)
                  | none =>
                      match kv.commit key (job.serialize claimed) (kv.revision key) with
                      | none => tikvClaimLoop weather kv jobId key expected claimant left
                      | some next =>
                          attempt (weather.fault .commits) kv next (.claimed claimed) "commit failed"

def tikvClaimIfOwner (weather : Weather) (s : TikvBackend B) (jobId expected claimant : String) :
    StoreAnswer × TikvBackend B :=
  match tikvJobKey jobId with
  | .error e => (.error e, s)
  | .ok key => match weather.fault .connect with
    | some fault => (.error (.backend fault.message), s)
    | none => Prod.map (Except.map .claim) s.withKv <|
        tikvClaimLoop job weather s.kv jobId key expected claimant maxTxnAttempts

def tikvUpsertBrokerLease (weather : Weather) (s : TikvBackend B)
    (brokerId internalPollBaseUrl : String) (ttl : Nat) : StoreAnswer × TikvBackend B :=
  let record : BrokerLeaseRecord := {
    brokerId := brokerId
    internalPollBaseUrl := internalPollBaseUrl
    leaseUntil := s.now + MemoryStore.leaseDuration ttl
    updatedAt := s.now
  }
  tikvWrite weather s "put failed" (tikvBrokerKey brokerId) (some (lease.serialize record))

def tikvGetBrokerLease (weather : Weather) (s : TikvBackend B) (brokerId : String) :
    Except DbError (Option BrokerLeaseRecord) :=
  match weather.fault .connect with
  | some fault => .error (.backend fault.message)
  | none => match weather.fault .begins with
    | some fault => .error (backend "begin txn failed" fault.message)
    | none => match weather.fault .reads with
      | some fault => .error (backend "get failed" fault.message)
      | none => match s.kv.value (tikvBrokerKey brokerId) with
        | none => .ok none
        | some value => match lease.deserialize value with
            | .error e => .error (backend "deserialize failed" e)
            | .ok record => .ok (some record)

def TikvBackend.serve (s : TikvBackend B) (call : StoreCall) (weather : Weather) :
    StoreAnswer × TikvBackend B :=
  match call with
  | .upsertJob record => tikvUpsertJob job weather s record
  | .deleteJob jobId => tikvDeleteJob weather s jobId
  | .claimIfOwner jobId expected claimant => tikvClaimIfOwner job weather s jobId expected claimant
  | .upsertBrokerLease brokerId internalPollBaseUrl ttl =>
      tikvUpsertBrokerLease lease weather s brokerId internalPollBaseUrl ttl
  | .lookupOwnerLease ownerBrokerId =>
      (.ok (.lease (evaluateLease divF64 s.now (tikvGetBrokerLease lease weather s ownerBrokerId))), s)
  | .deleteBrokerLease brokerId => tikvWrite weather s "delete failed" (tikvBrokerKey brokerId) none
  | .wait elapsed => (.ok .done, { s with now := s.now + elapsed })

end Tikv

/-- An error of the backend, or a lookup that does not know. -/
def Failed (_ : StoreCall) (answer : StoreAnswer) : Prop :=
  (∃ message, answer = .error (.backend message)) ∨ answer = .ok (.lease .unknown)

/-- Brokers renew their leases with the configured duration. -/
def StoreCall.Valid (leaseTtl : Nat) : StoreCall → Prop
  | .upsertBrokerLease _ _ ttl => ttl = leaseTtl ∧ ttl ≤ MemoryStore.chronoMax
  | _ => True

/-- A record reads back whoever owns it. -/
def Codec.ReadsBackOwned {B : Type} (codec : Codec PersistentJobRecord B)
    (record : PersistentJobRecord) : Prop :=
  ∀ owner, codec.ReadsBack { record with brokerId := owner }

/-- What the call may write reads back. -/
def StoreCall.Readable {B : Type} (job : Codec PersistentJobRecord B)
    (lease : Codec BrokerLeaseRecord B) : StoreCall → Prop
  | .upsertJob record => job.ReadsBackOwned record
  | .upsertBrokerLease brokerId url ttl => ∀ now, lease.ReadsBack ⟨brokerId, url, now + ttl, now⟩
  | _ => True

/-- What the ledger holds reads back. -/
structure Ledger.Readable {B : Type} (job : Codec PersistentJobRecord B)
    (lease : Codec BrokerLeaseRecord B) (ledger : Ledger) : Prop where
  records (jobId : String) (record : PersistentJobRecord) : ledger.records jobId = some record →
    job.ReadsBackOwned record
  leases (brokerId : String) (record : BrokerLeaseRecord) :
    ledger.leases brokerId = some record → lease.ReadsBack record

theorem Ledger.Readable.setRecord {B : Type} {job : Codec PersistentJobRecord B}
    {lease : Codec BrokerLeaseRecord B} {ledger : Ledger} (readable : ledger.Readable job lease)
    (jobId : String) {record : Option PersistentJobRecord}
    (given : ∀ written, record = some written → job.ReadsBackOwned written) :
    (ledger.setRecord jobId record).Readable job lease := by
  refine ⟨?_, readable.leases⟩
  intro other written found
  simp only [Ledger.setRecord, Function.update_apply] at found
  split at found
  · exact given written found
  · exact readable.records other written found

theorem Ledger.Readable.setLease {B : Type} {job : Codec PersistentJobRecord B}
    {lease : Codec BrokerLeaseRecord B} {ledger : Ledger} (readable : ledger.Readable job lease)
    (brokerId : String) {record : Option BrokerLeaseRecord}
    (given : ∀ written, record = some written → lease.ReadsBack written) :
    (ledger.setLease brokerId record).Readable job lease := by
  refine ⟨readable.records, ?_⟩
  intro other written found
  simp only [Ledger.setLease, Function.update_apply] at found
  split at found
  · exact given written found
  · exact readable.leases other written found

section Keys

theorem jobKey_error (store : ClaimBackend) {jobId : String} {e : RequestId.DecodeError}
    (decoded : decode jobId = .error e) :
    store.jobKey jobId = .error (Ledger.invalidJobId jobId e) := by
  cases store with
  | nats => simp [ClaimBackend.jobKey, natsJobKey, decoded, Ledger.invalidJobId]
  | tikv => simp [ClaimBackend.jobKey, tikvJobKey, decoded, Ledger.invalidJobId]

theorem jobKey_ok (store : ClaimBackend) {jobId : String} {parts : DecodedId}
    (decoded : decode jobId = .ok parts) : ∃ key, store.jobKey jobId = .ok key := by
  cases store with
  | nats => simp [ClaimBackend.jobKey, natsJobKey, decoded]
  | tikv => simp [ClaimBackend.jobKey, tikvJobKey, decoded]

theorem jobKey_chars (store : ClaimBackend) {jobId key : String}
    (keyed : store.jobKey jobId = .ok key) :
    ∃ front, key.toList = 'j' :: front ++ jobId.toList ∧ jobId.toList.length = idLen := by
  cases decoded : decode jobId with
  | error e =>
      rw [jobKey_error store decoded] at keyed
      cases keyed
  | ok parts =>
      have length := decode_length decoded
      cases store with
      | nats =>
          simp only [ClaimBackend.jobKey, natsJobKey, decoded, Except.ok.injEq] at keyed
          subst keyed
          refine ⟨s!"obs.{parts.site}.{parts.env}.{parts.brokerSlot}.".toList, ?_, length⟩
          simp [String.toList_append, toString]
      | tikv =>
          simp only [ClaimBackend.jobKey, tikvJobKey, decoded, Except.ok.injEq] at keyed
          subst keyed
          refine ⟨s!"obs/{parts.site}/{parts.env}/{parts.brokerSlot}/".toList, ?_, length⟩
          simp [String.toList_append, toString]

def jobKeyOf (store : ClaimBackend) (jobId : String) : Option String :=
  (store.jobKey jobId).toOption

theorem jobKeyOf_eq {store : ClaimBackend} {jobId key : String} :
    jobKeyOf store jobId = some key ↔ store.jobKey jobId = .ok key := by
  unfold jobKeyOf
  cases store.jobKey jobId <;> simp [Except.toOption]

theorem jobKeyOf_injective {store : ClaimBackend} (left right key : String)
    (leftKey : jobKeyOf store left = some key)
    (rightKey : jobKeyOf store right = some key) : left = right := by
  obtain ⟨leftFront, leftEq, leftLength⟩ := jobKey_chars store (jobKeyOf_eq.mp leftKey)
  obtain ⟨rightFront, rightEq, rightLength⟩ := jobKey_chars store (jobKeyOf_eq.mp rightKey)
  have same := leftEq.symm.trans rightEq
  exact String.toList_injective (List.append_inj' same (leftLength.trans rightLength.symm)).2

def natsLeaseKeyOf (brokerId : String) : Option String := some (natsBrokerLeaseKey brokerId)

def tikvLeaseKeyOf (brokerId : String) : Option String := some (tikvBrokerKey brokerId)

theorem natsLeaseKeyOf_injective (left right key : String) (leftKey : natsLeaseKeyOf left = some key)
    (rightKey : natsLeaseKeyOf right = some key) : left = right := by
  have same := congrArg String.toList (Option.some.inj (leftKey.trans rightKey.symm))
  simp only [natsBrokerLeaseKey, String.toList_append, toString,
    List.append_cancel_left_eq] at same
  exact String.toList_injective same

theorem tikvLeaseKeyOf_injective (left right key : String) (leftKey : tikvLeaseKeyOf left = some key)
    (rightKey : tikvLeaseKeyOf right = some key) : left = right := by
  have same := congrArg String.toList (Option.some.inj (leftKey.trans rightKey.symm))
  simp only [tikvBrokerKey, String.toList_append, toString, List.append_cancel_left_eq] at same
  exact String.toList_injective same

theorem tikvBrokerKey_chars (brokerId : String) :
    ∃ rest, (tikvBrokerKey brokerId).toList = 'b' :: rest := by
  refine ⟨"rokers/".toList ++ brokerId.toList, ?_⟩
  simp [tikvBrokerKey, String.toList_append, toString]

/-- Jobs and leases share one key space. -/
theorem tikvKeys_apart {jobId key brokerId : String} (keyed : tikvJobKey jobId = .ok key) :
    key ≠ tikvBrokerKey brokerId := by
  rintro rfl
  obtain ⟨front, chars, _⟩ := jobKey_chars .tikv keyed
  obtain ⟨rest, others⟩ := tikvBrokerKey_chars brokerId
  rw [others] at chars
  simp at chars

end Keys

theorem attempt_cases {S A : Type} (fault : Option Fault) (store next : S) (reply : A)
    (context : String) :
    fault = none ∧ attempt fault store next reply context = (.ok reply, next) ∨
      fault ≠ none ∧ ∃ message, attempt fault store next reply context =
          (.error (.backend message), store) ∨
        attempt fault store next reply context = (.error (.backend message), next) := by
  cases fault with
  | none => exact Or.inl ⟨rfl, rfl⟩
  | some fault =>
      refine Or.inr ⟨by simp, s!"{context}: {fault.message}", ?_⟩
      by_cases landed : fault.landed = true
      · exact Or.inr (by simp [attempt, backend, landed])
      · exact Or.inl (by simp [attempt, backend, landed])

theorem Weather.not_calm {weather : Weather} {call : ClientCall}
    (faulty : weather.fault call ≠ none) : ¬ weather.Calm := fun calm => faulty (calm call)

theorem Weather.not_calm_of_met {weather : Weather} {call : ClientCall} {fault : Fault}
    (met : weather.fault call = some fault) : ¬ weather.Calm :=
  fun calm => by
    have free := calm call
    rw [met] at free
    cases free

theorem failed_backend (call : StoreCall) (message : String) :
    Failed call (.error (.backend message)) := Or.inl ⟨message, rfl⟩

section Promises

variable {divF64 : Nat → Nat} {ledger : Ledger} {jobId expected claimant : String}
  {record : PersistentJobRecord}

theorem serve_invalid_upsert {e : RequestId.DecodeError}
    (decoded : decode record.jobId = .error e) :
    ledger.serve divF64 (.upsertJob record) =
      (.error (Ledger.invalidJobId record.jobId e), ledger) := by
  unfold Ledger.serve
  simp [decoded]

theorem serve_invalid_delete {e : RequestId.DecodeError} (decoded : decode jobId = .error e) :
    ledger.serve divF64 (.deleteJob jobId) = (.error (Ledger.invalidJobId jobId e), ledger) := by
  unfold Ledger.serve
  simp [decoded]

theorem serve_invalid_claim {e : RequestId.DecodeError} (decoded : decode jobId = .error e) :
    ledger.serve divF64 (.claimIfOwner jobId expected claimant) =
      (.error (Ledger.invalidJobId jobId e), ledger) := by
  unfold Ledger.serve
  simp [decoded]

theorem serve_upsert {parts : DecodedId} (decoded : decode record.jobId = .ok parts) :
    ledger.serve divF64 (.upsertJob record) = (.ok .done, ledger.setRecord record.jobId (some record)) := by
  unfold Ledger.serve
  simp [decoded]

theorem serve_delete {parts : DecodedId} (decoded : decode jobId = .ok parts) :
    ledger.serve divF64 (.deleteJob jobId) = (.ok .done, ledger.setRecord jobId none) := by
  unfold Ledger.serve
  simp [decoded]

theorem serve_claim_absent {parts : DecodedId} (decoded : decode jobId = .ok parts)
    (absent : ledger.records jobId = none) :
    ledger.serve divF64 (.claimIfOwner jobId expected claimant) =
      (.ok (.claim .notFound), ledger) := by
  unfold Ledger.serve
  simp [decoded, Ledger.claim, absent]

theorem serve_claim_own {parts : DecodedId} (decoded : decode jobId = .ok parts)
    (found : ledger.records jobId = some record) (own : record.brokerId = claimant) :
    ledger.serve divF64 (.claimIfOwner jobId expected claimant) =
      (.ok (.claim (.claimed record)), ledger) := by
  unfold Ledger.serve
  simp [decoded, Ledger.claim, found, own]

theorem serve_claim_other {parts : DecodedId} (decoded : decode jobId = .ok parts)
    (found : ledger.records jobId = some record) (own : record.brokerId ≠ claimant)
    (other : record.brokerId ≠ expected) :
    ledger.serve divF64 (.claimIfOwner jobId expected claimant) =
      (.ok (.claim (.active record.brokerId)), ledger) := by
  unfold Ledger.serve
  simp [decoded, Ledger.claim, found, own, other]

theorem serve_claim_transfer {parts : DecodedId} (decoded : decode jobId = .ok parts)
    (found : ledger.records jobId = some record) (own : record.brokerId ≠ claimant)
    (known : record.brokerId = expected) :
    ledger.serve divF64 (.claimIfOwner jobId expected claimant) =
      (.ok (.claim (.claimed { record with brokerId := claimant })),
        ledger.setRecord jobId (some { record with brokerId := claimant })) := by
  have different : expected ≠ claimant := known ▸ own
  unfold Ledger.serve
  simp [decoded, Ledger.claim, found, different, known]

end Promises

section MemoryKeeps

variable {divF64 : Nat → Nat} {leaseTtl : Nat} {s : MemoryBackend} {ledger : Ledger}

structure MemoryTied (s : MemoryBackend) (ledger : Ledger) : Prop where
  records (jobId : String) : s.store.recordOf jobId = ledger.records jobId
  leases (brokerId : String) : s.store.getBrokerLease brokerId = ledger.leases brokerId
  now : s.now = ledger.now

theorem memoryJobKey_error {jobId : String} {e : RequestId.DecodeError}
    (decoded : decode jobId = .error e) :
    memoryJobKey jobId = .error (Ledger.invalidJobId jobId e) := by
  simp [memoryJobKey, decoded, Ledger.invalidJobId]

theorem memoryJobKey_ok {jobId : String} {parts : DecodedId} (decoded : decode jobId = .ok parts) :
    ∃ key, memoryJobKey jobId = .ok key := by
  simp [memoryJobKey, decoded]

theorem MemoryTied.insert {key : String} {record : PersistentJobRecord} {jobId : String}
    (tied : MemoryTied s ledger) (keyed : memoryJobKey jobId = .ok key) :
    MemoryTied ⟨{ s.store with jobs := AList.insert key record s.store.jobs }, s.now⟩
      (ledger.setRecord jobId (some record)) := by
  refine ⟨?_, tied.leases, tied.now⟩
  intro other
  rw [MemoryStore.recordOf_insert keyed, tied.records]
  exact (Function.update_apply ..).symm

theorem MemoryTied.claim {jobId expected claimant : String} {parts : DecodedId} {result : ClaimResult}
    {next : MemoryStore} {calm : Prop} (tied : MemoryTied s ledger) (decoded : decode jobId = .ok parts)
    (claimed : s.store.claimIfOwner jobId expected claimant = .ok (result, next)) :
    Response (Ledger.serve divF64) Failed MemoryTied calm ledger (.claimIfOwner jobId expected claimant)
      (.ok (.claim result), ⟨next, s.now⟩) := by
  cases MemoryStore.claimIfOwner_effect claimed with
  | notFound absent =>
      exact .answered (serve_claim_absent decoded (tied.records jobId ▸ absent)) tied
  | alreadyMine found own =>
      exact .answered (serve_claim_own decoded (tied.records jobId ▸ found) own) tied
  | active found own other =>
      exact .answered (serve_claim_other decoded (tied.records jobId ▸ found) own other) tied
  | transferred found own known keyed =>
      exact .answered (serve_claim_transfer decoded (tied.records jobId ▸ found) own known)
        (tied.insert keyed)

theorem memory_keeps : Keeps (Ledger.serve divF64) Failed (StoreCall.Valid leaseTtl) Weather.Calm
    (MemoryBackend.serve divF64) MemoryTied := by
  intro s ledger call weather tied valid
  cases call with
  | upsertJob record =>
      simp only [MemoryBackend.serve]
      cases decoded : decode record.jobId with
      | error e =>
          simp only [MemoryStore.upsertJob, memoryJobKey_error decoded]
          exact .answered (serve_invalid_upsert decoded) tied
      | ok parts =>
          obtain ⟨key, keyed⟩ := memoryJobKey_ok decoded
          simp only [MemoryStore.upsertJob, keyed]
          exact .answered (serve_upsert decoded) (tied.insert keyed)
  | deleteJob jobId =>
      simp only [MemoryBackend.serve]
      cases decoded : decode jobId with
      | error e =>
          simp only [MemoryStore.deleteJob, memoryJobKey_error decoded]
          exact .answered (serve_invalid_delete decoded) tied
      | ok parts =>
          obtain ⟨key, keyed⟩ := memoryJobKey_ok decoded
          have deleted : s.store.deleteJob jobId =
              .ok { s.store with jobs := AList.erase key s.store.jobs } := by
            simp [MemoryStore.deleteJob, keyed]
          rw [deleted]
          refine .answered (serve_delete decoded) ⟨?_, tied.leases, tied.now⟩
          intro other
          rw [MemoryStore.recordOf_deleteJob deleted, tied.records]
          exact (Function.update_apply ..).symm
  | claimIfOwner jobId expected claimant =>
      simp only [MemoryBackend.serve]
      cases decoded : decode jobId with
      | error e =>
          simp only [MemoryStore.claimIfOwner, memoryJobKey_error decoded]
          exact .answered (serve_invalid_claim decoded) tied
      | ok parts =>
          cases claimed : s.store.claimIfOwner jobId expected claimant with
          | error e =>
              obtain ⟨key, keyed⟩ := memoryJobKey_ok decoded
              simp only [MemoryStore.claimIfOwner, keyed] at claimed
              repeat' split at claimed
              all_goals cases claimed
          | ok answer =>
              obtain ⟨result, next⟩ := answer
              exact tied.claim decoded claimed
  | upsertBrokerLease brokerId url ttl =>
      obtain ⟨rfl, representable⟩ := valid
      refine .answered rfl ⟨tied.records, ?_, tied.now⟩
      intro other
      simp only [MemoryStore.getBrokerLease, MemoryStore.upsertBrokerLease, HashMap.lookup_insert_eq,
        Ledger.setLease, Function.update_apply, MemoryStore.leaseDuration, if_pos representable,
        tied.now]
      rw [← tied.leases other]
      rfl
  | lookupOwnerLease brokerId =>
      refine .answered ?_ tied
      simp only [Ledger.serve, lookupOwnerLease, ← tied.leases, ← tied.now]
      cases s.store.getBrokerLease brokerId <;> rfl
  | deleteBrokerLease brokerId =>
      refine .answered rfl ⟨tied.records, ?_, tied.now⟩
      intro other
      simp only [MemoryStore.getBrokerLease, MemoryStore.deleteBrokerLease, HashMap.lookup_erase_eq,
        Ledger.setLease, Function.update_apply]
      rw [← tied.leases other]
      rfl
  | wait elapsed =>
      refine .answered rfl ⟨tied.records, tied.leases, ?_⟩
      show s.now + elapsed = ledger.now + elapsed
      rw [tied.now]

end MemoryKeeps

section Writes

variable {divF64 : Nat → Nat} {ledger after : Ledger} {weather : Weather} {S A C : Type}
  {tied : C → Ledger → Prop} {call : ClientCall} {store next : S} {reply : A} {context : String}
  {request : StoreCall} {wrap : S → C} {lift : Except DbError A → StoreAnswer}

theorem response_of_attempt
    (lifts : ∀ message, lift (.error (.backend message)) = .error (.backend message))
    (promised : ledger.serve divF64 request = (lift (.ok reply), after))
    (before : tied (wrap store) ledger) (ends : tied (wrap next) after) :
    Response (Ledger.serve divF64) Failed tied weather.Calm ledger request
      (Prod.map lift wrap (attempt (weather.fault call) store next reply context)) := by
  rcases attempt_cases (weather.fault call) store next reply context with
    ⟨_, done⟩ | ⟨faulty, message, kept | landed⟩
  · rw [done]
    exact .answered promised ends
  · rw [kept, Prod.map_apply, lifts]
    exact .lost (weather.not_calm faulty) (failed_backend request message) before
  · rw [landed, Prod.map_apply, lifts]
    exact .hidden promised (weather.not_calm faulty) (failed_backend request message) ends

theorem response_of_fault {server : C} {fault : Fault} {message : String}
    (met : weather.fault call = some fault) (ties : tied server ledger) :
    Response (Ledger.serve divF64) Failed tied weather.Calm ledger request
      (.error (.backend message), server) :=
  .lost (weather.not_calm_of_met met) (failed_backend request message) ties

end Writes

section NatsKeeps

variable {B : Type} {job : Codec PersistentJobRecord B} {lease : Codec BrokerLeaseRecord B}
  {divF64 : Nat → Nat} {leaseTtl : Nat} {s : NatsBackend B} {ledger : Ledger} {weather : Weather}

/-- The form of a lease in its bucket. -/
def dated (lease : Codec BrokerLeaseRecord B) (record : BrokerLeaseRecord) : B × Nat :=
  (lease.serialize record, record.updatedAt)

structure NatsTied (job : Codec PersistentJobRecord B) (lease : Codec BrokerLeaseRecord B)
    (leaseTtl : Nat) (s : NatsBackend B) (ledger : Ledger) : Prop where
  jobs : s.jobs.Represents (jobKeyOf .nats) job.serialize ledger.records
  leases : s.leases.Represents natsLeaseKeyOf (dated lease) ledger.leases
  now : s.now = ledger.now
  until_ (brokerId : String) (record : BrokerLeaseRecord) : ledger.leases brokerId = some record →
    record.leaseUntil = record.updatedAt + leaseTtl
  readable : ledger.Readable job lease

abbrev NatsResponse (job : Codec PersistentJobRecord B) (lease : Codec BrokerLeaseRecord B)
    (divF64 : Nat → Nat) (leaseTtl : Nat) (weather : Weather) (ledger : Ledger) (call : StoreCall)
    (result : StoreAnswer × NatsBackend B) : Prop :=
  Response (Ledger.serve divF64) Failed (NatsTied job lease leaseTtl) weather.Calm ledger call result

theorem nats_connected {call : StoreCall} {go : StoreAnswer × NatsBackend B}
    (tied : NatsTied job lease leaseTtl s ledger)
    (response : NatsResponse job lease divF64 leaseTtl weather ledger call go) :
    NatsResponse job lease divF64 leaseTtl weather ledger call (natsConnected weather s go) := by
  unfold natsConnected
  cases met : weather.fault .connect with
  | none => exact response
  | some fault => exact response_of_fault met tied

theorem NatsTied.setRecord {jobId key : String} (tied : NatsTied job lease leaseTtl s ledger)
    (keyed : natsJobKey jobId = .ok key) (record : Option PersistentJobRecord)
    (given : ∀ written, record = some written → job.ReadsBackOwned written) :
    NatsTied job lease leaseTtl
      (s.withJobs (s.jobs.write key (record.map job.serialize))) (ledger.setRecord jobId record) :=
  ⟨tied.jobs.write jobKeyOf_injective (jobKeyOf_eq.mpr keyed) record, tied.leases, tied.now,
    tied.until_, tied.readable.setRecord jobId given⟩

theorem NatsTied.setLease {brokerId : String} (tied : NatsTied job lease leaseTtl s ledger)
    (record : Option BrokerLeaseRecord)
    (lasts : ∀ written, record = some written → written.leaseUntil = written.updatedAt + leaseTtl)
    (given : ∀ written, record = some written → lease.ReadsBack written) :
    NatsTied job lease leaseTtl
      (s.withLeases (s.leases.write (natsBrokerLeaseKey brokerId) (record.map (dated lease))))
      (ledger.setLease brokerId record) := by
  refine ⟨tied.jobs, tied.leases.write natsLeaseKeyOf_injective rfl record, tied.now, ?_,
    tied.readable.setLease brokerId given⟩
  intro other written found
  simp only [Ledger.setLease, Function.update_apply] at found
  split at found
  · exact lasts written found
  · exact tied.until_ other written found

/-- Whichever of the two purges goes through, the record is gone. -/
theorem nats_purge {jobId key : String} {parts : DecodedId}
    (tied : NatsTied job lease leaseTtl s ledger) (decoded : decode jobId = .ok parts)
    (keyed : natsJobKey jobId = .ok key) :
    NatsResponse job lease divF64 leaseTtl weather ledger (.deleteJob jobId)
      (Prod.map id s.withJobs (purgeExpiring weather s.jobs key)) := by
  have purged : NatsTied job lease leaseTtl (s.withJobs (s.jobs.write key none))
      (ledger.setRecord jobId none) := tied.setRecord keyed none (by rintro _ ⟨⟩)
  have again : NatsTied job lease leaseTtl
      (s.withJobs ((s.jobs.write key none).write key none)) (ledger.setRecord jobId none) := by
    have twice : NatsTied job lease leaseTtl
        (s.withJobs ((s.jobs.write key none).write key none))
        ((ledger.setRecord jobId none).setRecord jobId none) :=
      purged.setRecord keyed none (by rintro _ ⟨⟩)
    have same : (ledger.setRecord jobId none).setRecord jobId none = ledger.setRecord jobId none := by
      simp [Ledger.setRecord]
    rw [same] at twice
    exact twice
  unfold purgeExpiring
  rcases attempt_cases (weather.fault .purgesWithTtl) s.jobs (s.jobs.write key none) Reply.done
    "purge with ttl" with ⟨_, done⟩ | ⟨faulty, message, kept | landed⟩
  · rw [done]
    exact .answered (serve_delete decoded) purged
  · rw [kept]
    exact response_of_attempt (fun _ => rfl) (serve_delete decoded) tied purged
  · rw [landed]
    dsimp only
    rcases attempt_cases (weather.fault .purges) (s.jobs.write key none)
      ((s.jobs.write key none).write key none) Reply.done s!"purge {key} (fallback)" with
      ⟨_, done⟩ | ⟨_, message, still | twice⟩
    · rw [done]
      exact .answered (serve_delete decoded) again
    · rw [still]
      exact .hidden (serve_delete decoded) (weather.not_calm faulty) (failed_backend _ message) purged
    · rw [twice]
      exact .hidden (serve_delete decoded) (weather.not_calm faulty) (failed_backend _ message) again

theorem nats_claim {jobId key expected claimant : String} {parts : DecodedId} (left : Nat)
    (tied : NatsTied job lease leaseTtl s ledger) (decoded : decode jobId = .ok parts)
    (keyed : natsJobKey jobId = .ok key) :
    NatsResponse job lease divF64 leaseTtl weather ledger (.claimIfOwner jobId expected claimant)
      (Prod.map (Except.map .claim) s.withJobs
        (natsClaimLoop job weather s.jobs key expected claimant (left + 1))) := by
  have value := tied.jobs jobId key (jobKeyOf_eq.mpr keyed)
  unfold natsClaimLoop
  cases met : weather.fault .reads with
  | some fault => exact response_of_fault met tied
  | none =>
      dsimp only
      cases found : ledger.records jobId with
      | none =>
          rw [found, Option.map_none] at value
          have promised := @serve_claim_absent divF64 ledger jobId expected claimant _ decoded found
          cases read : s.jobs.read key with
          | none => exact .answered promised tied
          | some entry =>
              obtain ⟨held, revision⟩ := entry
              cases held with
              | none => exact .answered promised tied
              | some bytes => simp [Store.value, read] at value
      | some record =>
          rw [found, Option.map_some] at value
          obtain ⟨⟨held, revision⟩, read, is⟩ := Option.bind_eq_some_iff.mp value
          dsimp only at is
          subst is
          have owned := tied.readable.records jobId record found
          have back : job.deserialize (job.serialize record) = .ok record := owned record.brokerId
          simp only [read, back]
          split
          next own => exact .answered (serve_claim_own decoded found own) tied
          next own =>
            split
            next other => exact .answered (serve_claim_other decoded found own other) tied
            next known =>
              simp only [Store.update_current read]
              exact response_of_attempt (fun _ => rfl)
                (serve_claim_transfer decoded found own (not_not.mp known)) tied
                (tied.setRecord keyed (some { record with brokerId := claimant })
                  (by rintro _ ⟨⟩; exact owned))

/-- A lease that the bucket has dropped is not active any more. -/
theorem nats_lookup (rounds : ∀ duration, divF64 duration ≤ duration) {brokerId : String}
    (representable : leaseTtl ≤ MemoryStore.chronoMax)
    (tied : NatsTied job lease leaseTtl s ledger) (read : weather.fault .reads = none)
    (connected : weather.fault .connect = none) :
    evaluateLease divF64 s.now (natsGetBrokerLease lease leaseTtl weather s brokerId) =
      Ledger.evaluate divF64 ledger.now (ledger.leases brokerId) := by
  have value := tied.leases brokerId (natsBrokerLeaseKey brokerId) rfl
  simp only [natsGetBrokerLease, connected, read, natsLeaseEntry, value]
  cases found : ledger.leases brokerId with
  | none => rfl
  | some record =>
      simp only [Option.map_some, dated]
      have lasts := tied.until_ brokerId record found
      split
      next expired =>
        split at expired
        next old =>
          obtain ⟨_, aged, _⟩ := old
          have grace : leaseGraceDuration divF64 record ≤ leaseTtl := by
            have bound := rounds (record.leaseUntil - record.updatedAt)
            have length : record.leaseUntil - record.updatedAt = leaseTtl := by omega
            rw [length] at bound
            unfold leaseGraceDuration
            rw [length]
            omega
          have age : leaseMaxAge leaseTtl = 2 * leaseTtl := by
            unfold leaseMaxAge
            apply Nat.min_eq_left
            have most : 2 * MemoryStore.chronoMax ≤ durationMax := by decide
            omega
          have now := tied.now
          have inactive : leaseIsActiveWithGrace divF64 record ledger.now = false := by
            simp only [leaseIsActiveWithGrace, decide_eq_false_iff_not]
            omega
          simp [evaluateLease, Ledger.evaluate, inactive]
        · cases expired
      next bytes kept =>
        split at kept
        · cases kept
        · obtain rfl := Option.some.inj kept
          have back : lease.deserialize (lease.serialize record) = .ok record :=
            tied.readable.leases brokerId record found
          rw [back, evaluateLease, tied.now]

theorem expire_all {V A W : Type} {keyOf : A → Option String} {encode : W → V}
    {contents : A → Option W} (dropped : List String) : ∀ {store : Store String V},
    store.Represents keyOf encode contents →
    (dropped.foldl Store.expire store).Represents keyOf encode contents := by
  induction dropped with
  | nil => exact id
  | cons key rest ih => exact fun holds => ih (holds.expire key)

theorem nats_keeps (rounds : ∀ duration, divF64 duration ≤ duration)
    (representable : leaseTtl ≤ MemoryStore.chronoMax) :
    Keeps (Ledger.serve divF64) Failed (fun call => call.Valid leaseTtl ∧ call.Readable job lease)
      Weather.Calm (NatsBackend.serve job lease divF64 leaseTtl) (NatsTied job lease leaseTtl) := by
  intro s ledger call weather tied valid
  cases call with
  | upsertJob record =>
      simp only [NatsBackend.serve, natsUpsertJob]
      cases decoded : decode record.jobId with
      | error e =>
          rw [show natsJobKey record.jobId = .error _ from jobKey_error .nats decoded]
          exact .answered (serve_invalid_upsert decoded) tied
      | ok parts =>
          obtain ⟨key, keyed⟩ := jobKey_ok .nats decoded
          rw [show natsJobKey record.jobId = .ok key from keyed]
          exact nats_connected tied (response_of_attempt (fun _ => rfl) (serve_upsert decoded) tied
            (tied.setRecord keyed (some record) (by rintro _ ⟨⟩; exact valid.2)))
  | deleteJob jobId =>
      simp only [NatsBackend.serve, natsDeleteJob]
      cases decoded : decode jobId with
      | error e =>
          rw [show natsJobKey jobId = .error _ from jobKey_error .nats decoded]
          exact .answered (serve_invalid_delete decoded) tied
      | ok parts =>
          obtain ⟨key, keyed⟩ := jobKey_ok .nats decoded
          rw [show natsJobKey jobId = .ok key from keyed]
          exact nats_connected tied (nats_purge tied decoded keyed)
  | claimIfOwner jobId expected claimant =>
      simp only [NatsBackend.serve, natsClaimIfOwner]
      cases decoded : decode jobId with
      | error e =>
          rw [show natsJobKey jobId = .error _ from jobKey_error .nats decoded]
          exact .answered (serve_invalid_claim decoded) tied
      | ok parts =>
          obtain ⟨key, keyed⟩ := jobKey_ok .nats decoded
          rw [show natsJobKey jobId = .ok key from keyed]
          exact nats_connected tied (nats_claim 2 tied decoded keyed)
  | upsertBrokerLease brokerId url ttl =>
      obtain ⟨⟨rfl, _⟩, reads⟩ := valid
      simp only [NatsBackend.serve, natsUpsertBrokerLease, if_pos representable]
      apply nats_connected tied
      apply response_of_attempt (fun _ => rfl) rfl tied
      rw [tied.now]
      exact tied.setLease (some ⟨brokerId, url, ledger.now + ttl, ledger.now⟩)
        (by rintro _ ⟨⟩; rfl) (by rintro _ ⟨⟩; exact reads ledger.now)
  | lookupOwnerLease brokerId =>
      simp only [NatsBackend.serve]
      cases connected : weather.fault .connect with
      | some fault =>
          simp only [natsGetBrokerLease, connected, evaluateLease]
          exact .lost (weather.not_calm_of_met connected) (Or.inr rfl) tied
      | none => cases read : weather.fault .reads with
        | some fault =>
            simp only [natsGetBrokerLease, connected, read, evaluateLease]
            exact .lost (weather.not_calm_of_met read) (Or.inr rfl) tied
        | none =>
            rw [nats_lookup rounds representable tied read connected]
            exact .answered rfl tied
  | deleteBrokerLease brokerId =>
      exact nats_connected tied (response_of_attempt (fun _ => rfl) rfl tied
        (tied.setLease none (by rintro _ ⟨⟩) (by rintro _ ⟨⟩)))
  | wait elapsed =>
      refine .answered rfl ⟨expire_all _ tied.jobs, expire_all _ tied.leases, ?_, tied.until_,
        ⟨tied.readable.records, tied.readable.leases⟩⟩
      show s.now + elapsed = ledger.now + elapsed
      rw [tied.now]

end NatsKeeps

section TikvKeeps

variable {B : Type} {job : Codec PersistentJobRecord B} {lease : Codec BrokerLeaseRecord B}
  {divF64 : Nat → Nat} {leaseTtl : Nat} {s : TikvBackend B} {ledger : Ledger} {weather : Weather}

structure TikvTied (job : Codec PersistentJobRecord B) (lease : Codec BrokerLeaseRecord B)
    (s : TikvBackend B) (ledger : Ledger) : Prop where
  jobs : s.kv.Represents (jobKeyOf .tikv) job.serialize ledger.records
  leases : s.kv.Represents tikvLeaseKeyOf lease.serialize ledger.leases
  now : s.now = ledger.now
  readable : ledger.Readable job lease

abbrev TikvResponse (job : Codec PersistentJobRecord B) (lease : Codec BrokerLeaseRecord B)
    (divF64 : Nat → Nat) (weather : Weather) (ledger : Ledger) (call : StoreCall)
    (result : StoreAnswer × TikvBackend B) : Prop :=
  Response (Ledger.serve divF64) Failed (TikvTied job lease) weather.Calm ledger call result

theorem TikvTied.setRecord {jobId key : String} (tied : TikvTied job lease s ledger)
    (keyed : tikvJobKey jobId = .ok key) (record : Option PersistentJobRecord)
    (given : ∀ written, record = some written → job.ReadsBackOwned written) :
    TikvTied job lease (s.withKv (s.kv.write key (record.map job.serialize)))
      (ledger.setRecord jobId record) := by
  refine ⟨tied.jobs.write jobKeyOf_injective (jobKeyOf_eq.mpr keyed) record, ?_, tied.now,
    tied.readable.setRecord jobId given⟩
  apply tied.leases.aside
  intro brokerId same
  exact tikvKeys_apart keyed (Option.some.inj same).symm

theorem TikvTied.setLease {brokerId : String} (tied : TikvTied job lease s ledger)
    (record : Option BrokerLeaseRecord)
    (given : ∀ written, record = some written → lease.ReadsBack written) :
    TikvTied job lease (s.withKv (s.kv.write (tikvBrokerKey brokerId) (record.map lease.serialize)))
      (ledger.setLease brokerId record) := by
  refine ⟨?_, tied.leases.write tikvLeaseKeyOf_injective rfl record, tied.now,
    tied.readable.setLease brokerId given⟩
  apply tied.jobs.aside
  intro jobId same
  exact tikvKeys_apart (jobKeyOf_eq.mp same) rfl

theorem tikv_write {call : StoreCall} {failed key : String} {value : Option B} {after : Ledger}
    (tied : TikvTied job lease s ledger)
    (promised : ledger.serve divF64 call = (.ok .done, after))
    (ends : TikvTied job lease (s.withKv (s.kv.write key value)) after) :
    TikvResponse job lease divF64 weather ledger call (tikvWrite weather s failed key value) := by
  unfold tikvWrite tikvBegun
  cases connected : weather.fault .connect with
  | some fault => exact response_of_fault connected tied
  | none => cases begun : weather.fault .begins with
    | some fault => exact response_of_fault begun tied
    | none => cases written : weather.fault .writes with
      | some fault => exact response_of_fault written tied
      | none => exact response_of_attempt (fun _ => rfl) promised tied ends

theorem tikv_claim {jobId key expected claimant : String} {parts : DecodedId} (left : Nat)
    (tied : TikvTied job lease s ledger) (decoded : decode jobId = .ok parts)
    (keyed : tikvJobKey jobId = .ok key) :
    TikvResponse job lease divF64 weather ledger (.claimIfOwner jobId expected claimant)
      (Prod.map (Except.map .claim) s.withKv
        (tikvClaimLoop job weather s.kv jobId key expected claimant (left + 1))) := by
  have value := tied.jobs jobId key (jobKeyOf_eq.mpr keyed)
  unfold tikvClaimLoop
  cases begun : weather.fault .begins with
  | some fault => exact response_of_fault begun tied
  | none => cases met : weather.fault .reads with
    | some fault => exact response_of_fault met tied
    | none =>
        dsimp only
        rw [value]
        cases found : ledger.records jobId with
        | none => exact .answered (serve_claim_absent decoded found) tied
        | some record =>
            have owned := tied.readable.records jobId record found
            have back : job.deserialize (job.serialize record) = .ok record := owned record.brokerId
            simp only [Option.map_some, back]
            split
            next own => exact .answered (serve_claim_own decoded found own) tied
            next own =>
              split
              next other => exact .answered (serve_claim_other decoded found own other) tied
              next known =>
                cases written : weather.fault .writes with
                | some fault => exact response_of_fault written tied
                | none =>
                    simp only [Store.commit_current]
                    exact response_of_attempt (fun _ => rfl)
                      (serve_claim_transfer decoded found own (not_not.mp known)) tied
                      (tied.setRecord keyed (some { record with brokerId := claimant })
                        (by rintro _ ⟨⟩; exact owned))

theorem tikv_lookup {brokerId : String} (tied : TikvTied job lease s ledger)
    (connected : weather.fault .connect = none) (begun : weather.fault .begins = none)
    (read : weather.fault .reads = none) :
    evaluateLease divF64 s.now (tikvGetBrokerLease lease weather s brokerId) =
      Ledger.evaluate divF64 ledger.now (ledger.leases brokerId) := by
  have value := tied.leases brokerId (tikvBrokerKey brokerId) rfl
  simp only [tikvGetBrokerLease, connected, begun, read, value, tied.now]
  cases found : ledger.leases brokerId with
  | none => rfl
  | some record =>
      have back : lease.deserialize (lease.serialize record) = .ok record :=
        tied.readable.leases brokerId record found
      simp only [Option.map_some, back, evaluateLease]

theorem tikv_keeps : Keeps (Ledger.serve divF64) Failed
    (fun call => call.Valid leaseTtl ∧ call.Readable job lease) Weather.Calm
    (TikvBackend.serve job lease divF64) (TikvTied job lease) := by
  intro s ledger call weather tied valid
  cases call with
  | upsertJob record =>
      simp only [TikvBackend.serve, tikvUpsertJob]
      cases decoded : decode record.jobId with
      | error e =>
          rw [show tikvJobKey record.jobId = .error _ from jobKey_error .tikv decoded]
          exact .answered (serve_invalid_upsert decoded) tied
      | ok parts =>
          obtain ⟨key, keyed⟩ := jobKey_ok .tikv decoded
          rw [show tikvJobKey record.jobId = .ok key from keyed]
          exact tikv_write tied (serve_upsert decoded)
            (tied.setRecord keyed (some record) (by rintro _ ⟨⟩; exact valid.2))
  | deleteJob jobId =>
      simp only [TikvBackend.serve, tikvDeleteJob]
      cases decoded : decode jobId with
      | error e =>
          rw [show tikvJobKey jobId = .error _ from jobKey_error .tikv decoded]
          exact .answered (serve_invalid_delete decoded) tied
      | ok parts =>
          obtain ⟨key, keyed⟩ := jobKey_ok .tikv decoded
          rw [show tikvJobKey jobId = .ok key from keyed]
          exact tikv_write tied (serve_delete decoded)
            (tied.setRecord keyed none (by rintro _ ⟨⟩))
  | claimIfOwner jobId expected claimant =>
      simp only [TikvBackend.serve, tikvClaimIfOwner]
      cases decoded : decode jobId with
      | error e =>
          rw [show tikvJobKey jobId = .error _ from jobKey_error .tikv decoded]
          exact .answered (serve_invalid_claim decoded) tied
      | ok parts =>
          obtain ⟨key, keyed⟩ := jobKey_ok .tikv decoded
          rw [show tikvJobKey jobId = .ok key from keyed]
          cases connected : weather.fault .connect with
          | some fault => exact response_of_fault connected tied
          | none => exact tikv_claim 1 tied decoded keyed
  | upsertBrokerLease brokerId url ttl =>
      obtain ⟨⟨_, representable⟩, reads⟩ := valid
      simp only [TikvBackend.serve, tikvUpsertBrokerLease, MemoryStore.leaseDuration,
        if_pos representable]
      apply tikv_write tied rfl
      rw [tied.now]
      exact tied.setLease (some ⟨brokerId, url, ledger.now + ttl, ledger.now⟩)
        (by rintro _ ⟨⟩; exact reads ledger.now)
  | lookupOwnerLease brokerId =>
      simp only [TikvBackend.serve]
      cases connected : weather.fault .connect with
      | some fault =>
          simp only [tikvGetBrokerLease, connected, evaluateLease]
          exact .lost (weather.not_calm_of_met connected) (Or.inr rfl) tied
      | none => cases begun : weather.fault .begins with
        | some fault =>
            simp only [tikvGetBrokerLease, connected, begun, evaluateLease]
            exact .lost (weather.not_calm_of_met begun) (Or.inr rfl) tied
        | none => cases read : weather.fault .reads with
          | some fault =>
              simp only [tikvGetBrokerLease, connected, begun, read, evaluateLease]
              exact .lost (weather.not_calm_of_met read) (Or.inr rfl) tied
          | none =>
              rw [tikv_lookup tied connected begun read]
              exact .answered rfl tied
  | deleteBrokerLease brokerId =>
      exact tikv_write tied rfl (tied.setLease none (by rintro _ ⟨⟩))
  | wait elapsed =>
      refine .answered rfl ⟨tied.jobs, tied.leases, ?_, ⟨tied.readable.records, tied.readable.leases⟩⟩
      show s.now + elapsed = ledger.now + elapsed
      rw [tied.now]

end TikvKeeps

section Main

variable {B : Type}

theorem MemoryTied.initial : MemoryTied MemoryBackend.new Ledger.new := by
  refine ⟨?_, fun _ => rfl, rfl⟩
  intro jobId
  unfold MemoryStore.recordOf
  split <;> rfl

theorem Ledger.Readable.initial (job : Codec PersistentJobRecord B)
    (lease : Codec BrokerLeaseRecord B) : Ledger.new.Readable job lease :=
  ⟨fun _ _ found => (by cases found), fun _ _ found => (by cases found)⟩

theorem NatsTied.initial (job : Codec PersistentJobRecord B) (lease : Codec BrokerLeaseRecord B)
    (leaseTtl : Nat) : NatsTied job lease leaseTtl NatsBackend.new Ledger.new :=
  ⟨fun _ _ _ => rfl, fun _ _ _ => rfl, rfl, fun _ _ found => (by cases found),
    .initial job lease⟩

theorem TikvTied.initial (job : Codec PersistentJobRecord B) (lease : Codec BrokerLeaseRecord B) :
    TikvTied job lease TikvBackend.new Ledger.new :=
  ⟨fun _ _ _ => rfl, fun _ _ _ => rfl, rfl, .initial job lease⟩

def calls (requests : List (StoreCall × Weather)) : List StoreCall := requests.map (·.1)

def memoryAnswers (divF64 : Nat → Nat) (requests : List (StoreCall × Weather)) : List StoreAnswer :=
  (serveAll (MemoryBackend.serve divF64) MemoryBackend.new requests).1

def natsAnswers (job : Codec PersistentJobRecord B) (lease : Codec BrokerLeaseRecord B)
    (divF64 : Nat → Nat) (leaseTtl : Nat) (requests : List (StoreCall × Weather)) :
    List StoreAnswer :=
  (serveAll (NatsBackend.serve job lease divF64 leaseTtl) NatsBackend.new requests).1

def tikvAnswers (job : Codec PersistentJobRecord B) (lease : Codec BrokerLeaseRecord B)
    (divF64 : Nat → Nat) (requests : List (StoreCall × Weather)) : List StoreAnswer :=
  (serveAll (TikvBackend.serve job lease divF64) TikvBackend.new requests).1

/-- The answers are those of a ledger in which each failed call took effect or did not. -/
def Accounted (divF64 : Nat → Nat) (requests : List (StoreCall × Weather))
    (answers : List StoreAnswer) : Prop :=
  ∃ last, Account (Ledger.serve divF64) Failed Ledger.new ((calls requests).zip answers) last

end Main

/-- Without faults a broker cannot tell from the answers which backend it runs on. -/
theorem backends_agree {B : Type} (job : Codec PersistentJobRecord B)
    (lease : Codec BrokerLeaseRecord B) {divF64 : Nat → Nat}
    (rounds : ∀ duration, divF64 duration ≤ duration) {leaseTtl : Nat}
    (representable : leaseTtl ≤ MemoryStore.chronoMax) (requests : List (StoreCall × Weather))
    (valid : ∀ request ∈ requests,
      (request.1.Valid leaseTtl ∧ request.1.Readable job lease) ∧ request.2.Calm) :
    natsAnswers job lease divF64 leaseTtl requests = memoryAnswers divF64 requests ∧
      tikvAnswers job lease divF64 requests = memoryAnswers divF64 requests := by
  have memory : Keeps _ _ (StoreCall.Valid leaseTtl) _ _ _ := @memory_keeps divF64 leaseTtl
  have tikv := @tikv_keeps B job lease divF64 leaseTtl
  have nats := @nats_keeps B job lease divF64 leaseTtl rounds representable
  have promised := memory.calm_answers requests MemoryTied.initial fun request member =>
    ⟨(valid request member).1.1, (valid request member).2⟩
  have natsPromised := nats.calm_answers requests (NatsTied.initial job lease leaseTtl) valid
  have tikvPromised := tikv.calm_answers requests (TikvTied.initial job lease) valid
  exact ⟨natsPromised.trans promised.symm, tikvPromised.trans promised.symm⟩

section Scenario

/-- A form of the values that keeps them as they are. -/
inductive Plain where
  | job (record : PersistentJobRecord)
  | lease (record : BrokerLeaseRecord)

def plainJob : Codec PersistentJobRecord Plain where
  serialize := .job
  deserialize
    | .job record => .ok record
    | .lease _ => .error "missing field"

def plainLease : Codec BrokerLeaseRecord Plain where
  serialize := .lease
  deserialize
    | .lease record => .ok record
    | .job _ => .error "missing field"

def fair : Weather := ⟨fun _ => none, [], true⟩

/-- The call fails, and what it wrote is there. -/
def unheard (call : ClientCall) : Weather :=
  ⟨fun other => if other = call then some ⟨"timed out", true⟩ else none, [], true⟩

def thirty : Nat := 30 * 1000000000

/-- The owner of a record falls silent, the first claim of it is not heard of, and the second finds
the record taken over; the delete needs its fallback. -/
def takeOver (claim delete : Weather) : List (StoreCall × Weather) :=
  [(.upsertBrokerLease "bol-dev-0" "http://a" thirty, fair),
    (.upsertJob Scenario.ownedRecord, fair), (.wait (2 * thirty), fair),
    (.lookupOwnerLease "bol-dev-0", fair),
    (.claimIfOwner Scenario.claimedId "bol-dev-0" "bol-dev-1", claim),
    (.claimIfOwner Scenario.claimedId "bol-dev-0" "bol-dev-1", fair),
    (.deleteJob Scenario.claimedId, delete), (.deleteJob "no-id", fair)]

theorem takeOver_valid {claim delete : Weather} : ∀ request ∈ takeOver claim delete,
    request.1.Valid thirty ∧ request.1.Readable plainJob plainLease := by
  intro request member
  simp only [takeOver, List.mem_cons, List.not_mem_nil, or_false] at member
  rcases member with rfl | rfl | rfl | rfl | rfl | rfl | rfl | rfl
  · exact ⟨⟨rfl, by decide⟩, fun _ => rfl⟩
  · exact ⟨trivial, fun _ => rfl⟩
  all_goals exact ⟨trivial, trivial⟩

def succeeded (answers : List StoreAnswer) : List Bool :=
  answers.map fun
    | .ok _ => true
    | .error _ => false

theorem backends_agree_fair :
    natsAnswers plainJob plainLease (· / 10) thirty (takeOver fair fair) =
        memoryAnswers (· / 10) (takeOver fair fair) ∧
      tikvAnswers plainJob plainLease (· / 10) (takeOver fair fair) =
        memoryAnswers (· / 10) (takeOver fair fair) := by
  apply backends_agree plainJob plainLease (fun _ => Nat.div_le_self _ _) (by decide)
  intro request member
  refine ⟨takeOver_valid request member, ?_⟩
  simp only [takeOver, List.mem_cons, List.not_mem_nil, or_false] at member
  rcases member with rfl | rfl | rfl | rfl | rfl | rfl | rfl | rfl
  all_goals exact fun _ => rfl

/-- A duration that no timestamp can hold: the in-memory store takes a minute instead. -/
example :
    (natsAnswers plainJob plainLease (· / 10) (MemoryStore.chronoMax + 1)
      [(.upsertBrokerLease "bol-dev-0" "http://a" (MemoryStore.chronoMax + 1), fair)]).map
        (fun answer => answer.isOk) = [false] ∧
      (memoryAnswers (· / 10)
        [(.upsertBrokerLease "bol-dev-0" "http://a" (MemoryStore.chronoMax + 1), fair)]).map
        (fun answer => answer.isOk) = [true] := by
  decide

end Scenario

end BitsBroker.Backends
