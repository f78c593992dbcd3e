import BitsBroker.Job
import BitsBroker.RequestId
import BitsBroker.Lib.HashMap

/-!
The in-memory persistence store: durable job records, broker leases and per-user
admission slots. An operation runs under one lock in the source, so each is one
function from store to store; only the sweep of the slots reads the leases under one
lock and removes the slots under another. Wall-clock time is in nanoseconds. The
counter of admission slots is a natural number, which stands for the `u64` of the
source as long as fewer than `2 ^ 64` slots are reserved.
-/

namespace BitsBroker

open RequestId

structure BrokerLeaseRecord where
  brokerId : String
  internalPollBaseUrl : String
  leaseUntil : Nat
  updatedAt : Nat
deriving Repr, DecidableEq

structure UserLimitEntry where
  scope : String
  user : String
  jobId : String
  ownerBrokerId : String
  seq : Nat
  createdAt : Nat
deriving Repr, DecidableEq

inductive ClaimResult where
  | notFound
  | active (ownerBrokerId : String)
  | claimed (record : PersistentJobRecord)

inductive DbError where
  | conflict (message : String)
  | backend (message : String)
  | slotExhausted (site env : String) (ceiling : Nat)
deriving Repr, DecidableEq

abbrev UserSlots : Type := HashMap (String × String) (HashMap String UserLimitEntry)

structure MemoryStore where
  jobs : HashMap String PersistentJobRecord
  brokers : HashMap String BrokerLeaseRecord
  userSlots : UserSlots
  userSeq : Nat

def MemoryStore.new : MemoryStore where
  jobs := ∅
  brokers := ∅
  userSlots := ∅
  userSeq := 0

def memoryJobKey (jobId : String) : Except DbError String :=
  match decode jobId with
  | .error e => .error (.backend s!"invalid public job ID {debugText jobId}: {e.message}")
  | .ok decoded => .ok s!"{decoded.site}/{decoded.env}/{decoded.brokerSlot}/{jobId}"

/-- The longest duration. -/
def durationMax : Nat := 2 ^ 64 * 1000000000 - 1

namespace MemoryStore

def upsertJob (store : MemoryStore) (record : PersistentJobRecord) :
    Except DbError MemoryStore :=
  match memoryJobKey record.jobId with
  | .error e => .error e
  | .ok key => .ok { store with jobs := AList.insert key record store.jobs }

def deleteJob (store : MemoryStore) (jobId : String) : Except DbError MemoryStore :=
  match memoryJobKey jobId with
  | .error e => .error e
  | .ok key => .ok { store with jobs := AList.erase key store.jobs }

def claimIfOwner (store : MemoryStore) (jobId expectedOwnerBrokerId claimantBrokerId : String) :
    Except DbError (ClaimResult × MemoryStore) :=
  match memoryJobKey jobId with
  | .error e => .error e
  | .ok key =>
      match store.jobs.lookup key with
      | none => .ok (.notFound, store)
      | some record =>
          if record.brokerId = claimantBrokerId then .ok (.claimed record, store)
          else if record.brokerId ≠ expectedOwnerBrokerId then
            .ok (.active record.brokerId, store)
          else
            let claimed := { record with brokerId := claimantBrokerId }
            .ok (.claimed claimed, { store with jobs := AList.insert key claimed store.jobs })

def chronoMax : Nat := (2 ^ 63 - 1) * 1000000

def leaseDuration (ttl : Nat) : Nat := if ttl ≤ chronoMax then ttl else 60 * 1000000000

def upsertBrokerLease (store : MemoryStore) (brokerId internalPollBaseUrl : String)
    (ttl now : Nat) : MemoryStore :=
  let lease : BrokerLeaseRecord := {
    brokerId := brokerId
    internalPollBaseUrl := internalPollBaseUrl
    leaseUntil := now + leaseDuration ttl
    updatedAt := now
  }
  { store with brokers := AList.insert brokerId lease store.brokers }

def getBrokerLease (store : MemoryStore) (brokerId : String) : Option BrokerLeaseRecord :=
  store.brokers.lookup brokerId

def deleteBrokerLease (store : MemoryStore) (brokerId : String) : MemoryStore :=
  { store with brokers := AList.erase brokerId store.brokers }

def reserveUserSlot (store : MemoryStore) (scope user jobId ownerBrokerId : String) (now : Nat) :
    Nat × MemoryStore :=
  let entries := (store.userSlots.lookup (scope, user)).getD ∅
  match entries.lookup jobId with
  | some existing => (existing.seq, store)
  | none =>
      let seq := store.userSeq + 1
      let entry : UserLimitEntry := {
        scope := scope
        user := user
        jobId := jobId
        ownerBrokerId := ownerBrokerId
        seq := seq
        createdAt := now
      }
      (seq, { store with
        userSlots := AList.insert (scope, user) (AList.insert jobId entry entries) store.userSlots
        userSeq := seq })

def releaseUserSlot (store : MemoryStore) (scope user jobId : String) : MemoryStore :=
  match store.userSlots.lookup (scope, user) with
  | none => store
  | some entries =>
      let rest := AList.erase jobId entries
      if rest.entries.isEmpty then
        { store with userSlots := AList.erase (scope, user) store.userSlots }
      else { store with userSlots := AList.insert (scope, user) rest store.userSlots }

def listUserSlots (store : MemoryStore) (scope user : String) : List UserLimitEntry :=
  match store.userSlots.lookup (scope, user) with
  | none => []
  | some entries => entries.entries.map (·.2)

def recordOf (store : MemoryStore) (jobId : String) : Option PersistentJobRecord :=
  match memoryJobKey jobId with
  | .error _ => none
  | .ok key => store.jobs.lookup key

end MemoryStore

theorem memoryJobKey_chars {jobId key : String} (ok : memoryJobKey jobId = .ok key) :
    ∃ front, key.toList = front ++ jobId.toList ∧ jobId.toList.length = idLen := by
  unfold memoryJobKey at ok
  split at ok
  · simp at ok
  next decoded found =>
    simp only [Except.ok.injEq] at ok
    subst ok
    refine ⟨s!"{decoded.site}/{decoded.env}/{decoded.brokerSlot}/".toList, ?_,
      decode_length found⟩
    simp [String.toList_append, toString]

theorem memoryJobKey_injective {left right key : String}
    (leftKey : memoryJobKey left = .ok key) (rightKey : memoryJobKey right = .ok key) :
    left = right := by
  obtain ⟨leftFront, leftEq, leftLength⟩ := memoryJobKey_chars leftKey
  obtain ⟨rightFront, rightEq, rightLength⟩ := memoryJobKey_chars rightKey
  have same : leftFront ++ left.toList = rightFront ++ right.toList := by
    rw [← leftEq, ← rightEq]
  have chars := (List.append_inj' same (by rw [leftLength, rightLength])).2
  exact String.toList_injective chars

theorem decode_of_memoryJobKey {jobId key : String} (ok : memoryJobKey jobId = .ok key) :
    ∃ decoded, decode jobId = .ok decoded := by
  unfold memoryJobKey at ok
  split at ok
  · simp at ok
  next decoded found => exact ⟨decoded, found⟩

end BitsBroker
