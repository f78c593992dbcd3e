import Mathlib.Algebra.Group.Nat.Defs
import Mathlib.Data.List.Basic

/-!
The job handed to the broker, its durable record, and the terminal results. The
shared flags of a submitted job (result slot, pollers, deadlines) are not part of
`Job`: they belong to the objects the runtime keeps per submission. A response
stream is the list of chunks it yields.
-/

namespace BitsBroker

inductive JsonNumber where
  | posInt (value : UInt64)
  | negInt (value : Int)
  | float (bits : BitVec 64)
deriving Repr, DecidableEq

inductive Json where
  | null
  | bool (value : Bool)
  | number (value : JsonNumber)
  | string (value : String)
  | array (items : List Json)
  | object (fields : List (String × Json))
deriving Repr

def Json.emptyObject : Json := .object []

def Json.field (name : String) : Json → Json
  | .object fields => ((fields.find? fun entry => entry.1 == name).map (·.2)).getD .null
  | _ => .null

def Json.pointer (json : Json) : List String → Option Json
  | [] => some json
  | name :: rest => match json with
    | .object fields =>
        (fields.find? fun entry => entry.1 == name).bind fun entry => entry.2.pointer rest
    | _ => none

def Json.asStr : Json → Option String
  | .string value => some value
  | _ => none

def Json.asArray : Json → Option (List Json)
  | .array items => some items
  | _ => none

def Json.asObject : Json → Option (List (String × Json))
  | .object fields => some fields
  | _ => none

def Json.asU64 : Json → Option Nat
  | .number (.posInt value) => some value.toNat
  | _ => none

theorem asU64_lt {value : Json} {n : Nat} (isNumber : value.asU64 = some n) : n < 2 ^ 64 := by
  unfold Json.asU64 at isNumber
  split at isNumber
  next word =>
    obtain rfl := Option.some.inj isNumber
    exact word.toNat_lt
  · simp at isNumber

structure Job where
  id : String
  originalRequest : Json
  request : Json
  user : Json
  createdAt : Nat
  metadata : Json
deriving Repr

def Job.newWithId (id : String) (request : Json) (now : Nat) : Job where
  id := id
  originalRequest := request
  request := request
  user := Json.emptyObject
  createdAt := now
  metadata := Json.emptyObject

structure PersistentJobRecord where
  jobId : String
  brokerId : String
  originalRequest : Json
  user : Json
  metadata : Json
  createdAt : Nat
deriving Repr

def Job.restore (record : PersistentJobRecord) : Job where
  id := record.jobId
  originalRequest := record.originalRequest
  request := record.originalRequest
  user := record.user
  createdAt := record.createdAt
  metadata := record.metadata

def Job.toRecord (job : Job) (brokerId : String) : PersistentJobRecord where
  jobId := job.id
  brokerId := brokerId
  originalRequest := job.originalRequest
  user := job.user
  metadata := job.metadata
  createdAt := job.createdAt

inductive PendingStatus where
  | queued
  | processing
deriving Repr, DecidableEq

def PendingStatus.asStr : PendingStatus → String
  | .queued => "queued"
  | .processing => "processing"

def PendingStatus.fromHeader (value : String) : Option PendingStatus :=
  if value = "queued" then some .queued
  else if value = "processing" then some .processing
  else none

abbrev ByteStream : Type := List (Except String (List UInt8))

inductive JobResult where
  | success (contentType : String) (size : Int) (stream : ByteStream)
  | redirect (location message : String) (contentType : Option String)
      (contentLength : Option UInt64)
  | error (message : String)
  | failed (reason : String)
  | overloaded (reason : String)
  | rateLimited (reason : String)
  | cancelled
  | clientGone

def JobResult.isDeliverable : JobResult → Bool
  | .success .. | .redirect .. => true
  | _ => false

inductive PollOutcome where
  | ready (result : JobResult)
  | pending (id : String) (status : PendingStatus)
  | notFound
  | jobLost

def PollOutcome.queued (id : String) : PollOutcome := .pending id .queued

def PollOutcome.isReady : PollOutcome → Bool
  | .ready _ => true
  | _ => false

theorem Job.restore_toRecord (job : Job) (brokerId : String) :
    Job.restore (job.toRecord brokerId) = { job with request := job.originalRequest } := rfl

theorem PendingStatus.fromHeader_asStr (status : PendingStatus) :
    PendingStatus.fromHeader status.asStr = some status := by
  cases status <;> decide

end BitsBroker
