import BitsBroker.Dispatcher.Dispatch

/-!
The HTTP side of a remote pool. Workers report on a claimed job by its identifier: a
heartbeat renews the entry of the in-progress table, a completion removes it and sends the
outcome on. The reaper walks the table shard by shard and drops the entries whose worker
has been silent for too long; when the server stops it collects the remaining identifiers
and drops them one by one. Every step of this system is a run of the dispatcher underneath.
-/

namespace BitsBroker

inductive StatusCode where
  | ok
  | notFound
deriving Repr, DecidableEq

/-- The bytes of a header value. -/
abbrev HeaderBytes : Type := List UInt8

def HeaderBytes.toStr (value : HeaderBytes) : Option String :=
  if value.all fun byte => byte == 9 || (32 ≤ byte && byte < 127) then
    some (String.ofList (value.map fun byte => Char.ofNat byte.toNat))
  else none

def parseI64 (text : String) : Option Int :=
  let (negative, digits) := match text.toList with
    | '-' :: rest => (true, rest)
    | '+' :: rest => (false, rest)
    | digits => (false, digits)
  if digits.isEmpty || !digits.all Char.isDigit then none
  else
    let value := Nat.ofDigitChars 10 digits 0
    if negative then if value ≤ 2 ^ 63 then some (-(value : Int)) else none
    else if value < 2 ^ 63 then some (value : Int) else none

def completeContentType (header : Option HeaderBytes) : String :=
  match header with
  | some value => match value.toStr with
    | some text => text
    | none => "application/octet-stream"
  | none => "application/octet-stream"

def completeSize (header : Option HeaderBytes) : Int :=
  match header with
  | some value => match value.toStr with
    | some text => match parseI64 text with
      | some size => if 0 ≤ size then size else -1
      | none => -1
    | none => -1
  | none => -1

inductive WorkerRequest where
  | heartbeat (jobId : String)
  | completeData (jobId : String) (contentType contentLength : Option HeaderBytes)
      (body : ByteStream)
  | completeRedirect (jobId location message : String) (contentType : Option String)
      (contentLength : Option UInt64)
  | completeReject (jobId reason : String)
  | completeError (jobId message : String)

def WorkerRequest.jobId : WorkerRequest → String
  | .heartbeat jobId | .completeData jobId _ _ _ | .completeRedirect jobId _ _ _ _
  | .completeReject jobId _ | .completeError jobId _ => jobId

/-- What a request tells about the job; a heartbeat tells nothing. -/
def WorkerRequest.outcome : WorkerRequest → Option WorkerOutcome
  | .heartbeat _ => none
  | .completeData _ contentType contentLength body =>
      some (.complete (completeContentType contentType) (completeSize contentLength) body)
  | .completeRedirect _ location message contentType contentLength =>
      some (.redirect location message contentType contentLength)
  | .completeReject _ reason => some (.reject reason)
  | .completeError _ message => some (.error message)

structure RemotePool where
  capacity : Nat
  userLimit : Option UserLimitConfig
  shared : Bool
  heartbeatTimeout : Nat
  shards : Nat
  shardOf : String → Nat
  sharded : ∀ jobId, shardOf jobId < shards

def RemotePool.dispatcher (pool : RemotePool) : DispatcherConfig TargetResult where
  capacity := pool.capacity
  executor := .remotePool pool.heartbeatTimeout WorkerOutcome.toTarget
  userLimit := pool.userLimit
  shared := pool.shared

inductive ReaperPc where
  | selecting
  | retaining (now shard : Nat)
  | collecting (shard : Nat) (ids : List String)
  | removing (ids : List String)
  | ended
deriving DecidableEq

inductive ReaperEvent where
  | tick
  | shutdown
  | step
deriving DecidableEq

abbrev TargetDispatcher : Type := DispatcherState TargetResult

structure PoolState where
  dispatcher : TargetDispatcher
  reaper : ReaperPc

/-- The interval of the reaper is half the timeout; a timer refuses an empty interval. -/
def PoolState.new (pool : RemotePool) (now : Nat) : PoolState where
  dispatcher := DispatcherState.new pool.dispatcher now
  reaper := if pool.heartbeatTimeout / 2 = 0 then .ended else .selecting

def handleHeartbeat (s : TargetDispatcher) (jobId : String) : StatusCode × TargetDispatcher :=
  match s.inProgress.lookup jobId with
  | some entry => (.ok, { s with
      inProgress := AList.insert jobId { entry with lastHeartbeat := s.now } s.inProgress })
  | none => (.notFound, s)

/-- The completion handlers differ in the outcome they send. -/
def handleComplete (s : TargetDispatcher) (jobId : String) (outcome : WorkerOutcome) :
    StatusCode × TargetDispatcher :=
  match settle s jobId (.sent outcome.toTarget) with
  | some next => (.ok, next)
  | none => (.notFound, s)

def handleCompleteData (s : TargetDispatcher) (jobId : String)
    (contentType contentLength : Option HeaderBytes) (body : ByteStream) :
    StatusCode × TargetDispatcher :=
  handleComplete s jobId
    (.complete (completeContentType contentType) (completeSize contentLength) body)

def handleCompleteRedirect (s : TargetDispatcher) (jobId location message : String)
    (contentType : Option String) (contentLength : Option UInt64) :
    StatusCode × TargetDispatcher :=
  handleComplete s jobId (.redirect location message contentType contentLength)

def handleCompleteReject (s : TargetDispatcher) (jobId reason : String) :
    StatusCode × TargetDispatcher :=
  handleComplete s jobId (.reject reason)

def handleCompleteError (s : TargetDispatcher) (jobId message : String) :
    StatusCode × TargetDispatcher :=
  handleComplete s jobId (.error message)

def serve (s : TargetDispatcher) : WorkerRequest → StatusCode × TargetDispatcher
  | .heartbeat jobId => handleHeartbeat s jobId
  | .completeData jobId contentType contentLength body =>
      handleCompleteData s jobId contentType contentLength body
  | .completeRedirect jobId location message contentType contentLength =>
      handleCompleteRedirect s jobId location message contentType contentLength
  | .completeReject jobId reason => handleCompleteReject s jobId reason
  | .completeError jobId message => handleCompleteError s jobId message

def entryAlive (timeout now : Nat) (entry : InProgressJob) : Bool :=
  decide (now - entry.lastHeartbeat < timeout)

def retainEntry (timeout now : Nat) (s : TargetDispatcher) (jobId : String) : TargetDispatcher :=
  match s.inProgress.lookup jobId with
  | some entry => if entryAlive timeout now entry then s else (settle s jobId .dropped).getD s
  | none => s

def shardKeys (pool : RemotePool) (s : TargetDispatcher) (shard : Nat) : List String :=
  s.inProgress.keys.filter fun jobId => pool.shardOf jobId == shard

/-- The walk of `retain` over one shard, under the lock of that shard. -/
def retainShard (pool : RemotePool) (now shard : Nat) (s : TargetDispatcher) : TargetDispatcher :=
  (shardKeys pool s shard).foldl (retainEntry pool.heartbeatTimeout now) s

def reaperStep (pool : RemotePool) (s : PoolState) : ReaperEvent → Option PoolState
  | .tick => match s.reaper with
      | .selecting => some { s with reaper := .retaining s.dispatcher.now 0 }
      | _ => none
  | .shutdown => match s.reaper with
      | .selecting =>
          if s.dispatcher.stopping then some { s with reaper := .collecting 0 [] } else none
      | _ => none
  | .step => match s.reaper with
      | .retaining now shard =>
          if shard < pool.shards then some
            { dispatcher := retainShard pool now shard s.dispatcher
              reaper := .retaining now (shard + 1) }
          else some { s with reaper := .selecting }
      | .collecting shard ids =>
          if shard < pool.shards then some { s with
            reaper := .collecting (shard + 1) (ids ++ shardKeys pool s.dispatcher shard) }
          else some { s with reaper := .removing ids }
      | .removing (jobId :: rest) => some
          { dispatcher := (settle s.dispatcher jobId .dropped).getD s.dispatcher
            reaper := .removing rest }
      | .removing [] => some { s with reaper := .ended }
      | _ => none

inductive PoolAction where
  | serve (request : WorkerRequest)
  | reaper (event : ReaperEvent)
  | dispatcher (action : DispatcherAction TargetResult)

/-- The table is changed by the handlers and by the reaper only. -/
def DispatcherAction.onTable {T : Type} : DispatcherAction T → Bool
  | .heartbeat _ | .complete _ _ | .evict _ => true
  | _ => false

def poolStep (pool : RemotePool) (s : PoolState) : PoolAction → Option PoolState
  | .serve request => some { s with dispatcher := (serve s.dispatcher request).2 }
  | .reaper event => reaperStep pool s event
  | .dispatcher action =>
      if action.onTable then none
      else (dispatcherStep pool.dispatcher s.dispatcher action).map fun next =>
        { s with dispatcher := next }

end BitsBroker
