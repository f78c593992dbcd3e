import BitsBroker.Dispatcher.Dispatch

/-!
The dispatcher block of a configured action: how its JSON is decoded and checked, and the
dispatcher that is built from it. The derived decoders are written out as the serialisation
library runs them; of their errors only the kind is kept. A number of seconds is kept as it
was read, and `tryFromSecsF64` stands for its conversion to a duration. Only a remote pool
uses the worker server, which may refuse to register the pool.
-/

namespace BitsBroker

inductive DecodeError where
  | invalidType
  | invalidValue
  | invalidLength
  | missingField (field : String)
  | duplicateField (field : String)
  | unknownField (field : String)
  | unknownVariant (variant : String)
  | custom (message : String)
deriving Repr, DecidableEq

inductive ConfigError where
  | validation (path reason : String)
  | missingField (path : String)
  | decode (path target : String) (source : DecodeError)
deriving Repr, DecidableEq

def okOr {E A : Type} (value : Option A) (error : E) : Except E A :=
  match value with
  | some value => .ok value
  | none => .error error

def Json.get (fields : List (String × Json)) (name : String) : Option Json :=
  (fields.find? fun entry => entry.1 == name).map (·.2)

def usizeTryFrom (value : Nat) : Option Nat :=
  if value < 2 ^ 64 then some value else none

def defaultQueueCapacity : Nat := 500000

def defaultPoolSize : Nat := 256

/-- The most permits a semaphore can be created with. -/
def maxPermits : Nat := 2 ^ 61 - 1

inductive QueueKind where
  | fifo
  | costWeighted
  | agePriority
deriving Repr, DecidableEq

def QueueKind.variant (name : String) : Except DecodeError QueueKind :=
  if name = "fifo" then .ok .fifo
  else if name = "cost_weighted" then .ok .costWeighted
  else if name = "age_priority" then .ok .agePriority
  else .error (.unknownVariant name)

def QueueKind.decode : Json → Except DecodeError QueueKind
  | .string name => QueueKind.variant name
  | .object [(name, content)] => do
      let kind ← QueueKind.variant name
      match content with
      | .null => .ok kind
      | _ => .error .invalidType
  | .object _ => .error .invalidValue
  | _ => .error .invalidType

structure RemotePoolConfig where
  heartbeatTimeoutSecs : JsonNumber
deriving Repr, DecidableEq

/-- 60.0 seconds. -/
def defaultHeartbeatTimeoutSecs : JsonNumber := .float 0x404E000000000000#64

def RemotePoolConfig.visitMap :
    List (String × Json) → Option JsonNumber → Except DecodeError RemotePoolConfig
  | [], secs => .ok ⟨secs.getD defaultHeartbeatTimeoutSecs⟩
  | (key, value) :: rest, secs =>
      if key = "heartbeat_timeout_secs" then
        if secs.isSome then .error (.duplicateField key)
        else match value with
          | .number number => visitMap rest (some number)
          | _ => .error .invalidType
      else if key = "bind" then .error (.custom
        "remote_pool.bind has been removed; configure host and port at bits.worker_server instead")
      else .error (.unknownField key)

inductive ExecutorKind where
  | asyncPool (concurrency : Option Nat)
  | threadPool (concurrency : Option Nat)
  | remotePool (config : RemotePoolConfig)
deriving Repr, DecidableEq

def decodeConcurrency : Json → Except DecodeError (Option Nat)
  | .null => .ok none
  | .number (.posInt value) => .ok (some value.toNat)
  | .number (.negInt _) => .error .invalidValue
  | _ => .error .invalidType

inductive TaggedContent where
  | map (fields : List (String × Json))
  | seq (items : List Json)

/-- The `concurrency` field of the two local pools. Other fields are ignored; a sequence lists
the fields by position. -/
def TaggedContent.concurrency : TaggedContent → Except DecodeError (Option Nat)
  | .map fields => match Json.get fields "concurrency" with
      | some value => decodeConcurrency value
      | none => .ok none
  | .seq [] => .ok none
  | .seq [value] => decodeConcurrency value
  | .seq _ => .error .invalidLength

def ExecutorKind.variant (tag : String) (content : TaggedContent) :
    Except DecodeError ExecutorKind :=
  if tag = "async_pool" then content.concurrency.map .asyncPool
  else if tag = "thread_pool" then content.concurrency.map .threadPool
  else if tag = "remote_pool" then
    match content with
    | .map fields => (RemotePoolConfig.visitMap fields none).map .remotePool
    | .seq _ => .error .invalidType
  else .error (.unknownVariant tag)

def ExecutorKind.decode : Json → Except DecodeError ExecutorKind
  | .object fields => match Json.get fields "type" with
      | none => .error (.missingField "type")
      | some (.string tag) =>
          ExecutorKind.variant tag (.map (fields.filter fun entry => entry.1 != "type"))
      | some _ => .error .invalidType
  | .array [] => .error (.missingField "type")
  | .array (.string tag :: rest) => ExecutorKind.variant tag (.seq rest)
  | _ => .error .invalidType

structure DispatcherSettings where
  queue : Option QueueKind
  executor : Option ExecutorKind
  queueCapacity : Nat
  userLimit : Option UserLimitConfig

def DispatcherSettings.default : DispatcherSettings where
  queue := none
  executor := none
  queueCapacity := defaultQueueCapacity
  userLimit := none

section Parsing

def parseCeiling (value : Json) (path : String) : Except ConfigError Nat := do
  let n ← okOr value.asU64 (.validation path "must be a non-negative integer")
  okOr (usizeTryFrom n) (.validation path "value too large for this platform")

def rejectUnknown (known : List String) (path expected : String) :
    List (String × Json) → Except ConfigError Unit
  | [] => .ok ()
  | (key, _) :: rest =>
      if key ∈ known then rejectUnknown known path expected rest
      else .error (.validation path s!"unknown field '{key}' (expected {expected})")

def parseRoles (realmPath : String) :
    List (String × Json) → HashMap String Nat → Except ConfigError (HashMap String Nat)
  | [], roles => .ok roles
  | (role, value) :: rest, roles => do
      let ceiling ← parseCeiling value (realmPath ++ ".roles." ++ role)
      parseRoles realmPath rest (AList.insert role ceiling roles)

def parseRealm (realm : String) (value : Json) : Except ConfigError RealmLimit := do
  let realmPath := "dispatcher.user_limit.realms." ++ realm
  let fields ← okOr value.asObject (.validation realmPath "must be an object")
  rejectUnknown ["max", "roles"] realmPath "'max' and/or 'roles'" fields
  let default ← (Json.get fields "max").mapM fun max => parseCeiling max (realmPath ++ ".max")
  let roles ← match Json.get fields "roles" with
    | none => .ok ∅
    | some rolesValue => do
        let rolesFields ← okOr rolesValue.asObject
          (.validation (realmPath ++ ".roles") "must be an object")
        parseRoles realmPath rolesFields ∅
  if default.isNone && roles.entries.isEmpty then
    .error (.validation realmPath "must define 'max' and/or a non-empty 'roles' map")
  else .ok ⟨default, roles⟩

def parseRealms :
    List (String × Json) → HashMap String RealmLimit →
      Except ConfigError (HashMap String RealmLimit)
  | [], realms => .ok realms
  | (realm, value) :: rest, realms => do
      let limit ← parseRealm realm value
      parseRealms rest (AList.insert realm limit realms)

def parseUserLimit (value : Json) : Except ConfigError UserLimitConfig := do
  let fields ← okOr value.asObject (.validation "dispatcher.user_limit" "must be an object")
  let default ← (Json.get fields "max").mapM fun max =>
    parseCeiling max "dispatcher.user_limit.max"
  rejectUnknown ["max", "realms"] "dispatcher.user_limit" "'max' and/or 'realms'" fields
  let realms ← match Json.get fields "realms" with
    | none => .ok ∅
    | some realmsValue => do
        let realmsFields ← okOr realmsValue.asObject
          (.validation "dispatcher.user_limit.realms" "must be an object")
        parseRealms realmsFields ∅
  if default.isNone && realms.entries.isEmpty then
    .error (.validation "dispatcher.user_limit"
      "must define a global 'max' and/or at least one realm block")
  else .ok ⟨default, realms⟩

def decodeField {A : Type} (path target : String) (decode : Json → Except DecodeError A)
    (value : Json) : Except ConfigError A :=
  (decode value).mapError (.decode path target)

def parseQueueCapacity (value : Json) : Except ConfigError Nat := do
  let cap ← okOr value.asU64
    (.validation "dispatcher.queue_capacity" "must be a positive integer")
  if cap = 0 then .error (.validation "dispatcher.queue_capacity" "must be greater than zero")
  else
    okOr (usizeTryFrom cap)
      (.validation "dispatcher.queue_capacity" "value too large for this platform")

def parseDispatcherFields : Option Json → Except ConfigError DispatcherSettings
  | none => .ok .default
  | some value => do
      let fields ← okOr value.asObject (.validation "dispatcher" "must be an object")
      let queue ← (Json.get fields "queue").mapM
        (decodeField "dispatcher.queue" "QueueKind" QueueKind.decode)
      let executor ← (Json.get fields "executor").mapM
        (decodeField "dispatcher.executor" "ExecutorKind" ExecutorKind.decode)
      let capacity ← (Json.get fields "queue_capacity").mapM parseQueueCapacity
      let userLimit ← (Json.get fields "user_limit").mapM parseUserLimit
      if (Json.get fields "concurrency").isSome then
        .error (.validation "dispatcher.concurrency"
          "removed; set concurrency inside the executor block instead")
      else if (Json.get fields "persistent").isSome || (Json.get fields "lock_ttl_secs").isSome then
        .error (.validation "dispatcher"
          "persistent/lock_ttl_secs removed; use bits.persist_after_secs policy")
      else .ok ⟨queue, executor, capacity.getD defaultQueueCapacity, userLimit⟩

end Parsing

structure WorkerServer where
  registerPool : String → Except String Unit

structure UserLimit where
  config : UserLimitConfig
  limiter : UserLimiter
  shared : Bool

/-- Which executor was created. The two local pools differ in what runs their loops: tasks or
threads. -/
inductive ExecutorType where
  | asyncPool
  | threadPool
  | remotePool
deriving Repr, DecidableEq

def executorType : Option ExecutorKind → ExecutorType
  | none | some (.asyncPool _) => .asyncPool
  | some (.threadPool _) => .threadPool
  | some (.remotePool _) => .remotePool

structure Dispatcher (T : Type) where
  queue : QueueKind
  executorType : ExecutorType
  executor : Executor T
  queueCapacity : Nat
  userLimiter : Option UserLimit

/-- The dispatcher as the transition system sees it. -/
def Dispatcher.config {T : Type} (dispatcher : Dispatcher T) : DispatcherConfig T where
  capacity := dispatcher.queueCapacity
  executor := dispatcher.executor
  userLimit := dispatcher.userLimiter.map (·.config)
  shared := dispatcher.userLimiter.any (·.shared)

inductive BuildError where
  | failed (reason : String)
  | panicked

section Building

variable {T : Type}

def startScheduler (poolName : Option String) (workerServer : Option WorkerServer) :
    Executor T → Except BuildError Unit
  | .pool _ => .ok ()
  | .remotePool _ _ => match poolName, workerServer with
      | some name, some server => (server.registerPool name).mapError fun e =>
          .failed s!"remote_pool: failed to register pool '{name}': {e}"
      | _, _ => .ok ()

def Dispatcher.new (queue : QueueKind) (executorType : ExecutorType) (executor : Executor T)
    (start : Except BuildError Unit) (queueCapacity : Nat) : Except BuildError (Dispatcher T) :=
  if queueCapacity = 0 then .error (.failed "queue_capacity must be greater than zero")
  else if maxPermits < queueCapacity then .error .panicked
  else start.map fun _ => ⟨queue, executorType, executor, queueCapacity, none⟩

variable (asTarget : Option (WorkerOutcome → T))
  (tryFromSecsF64 : JsonNumber → Except String Nat)

/-- `asTarget` is the translation of worker outcomes, present when `T` is `TargetResult`. -/
def executorOf (poolName : Option String) (workerServer : Option WorkerServer) :
    Option ExecutorKind → Except BuildError (Executor T)
  | none => .ok (.pool defaultPoolSize)
  | some (.asyncPool concurrency) | some (.threadPool concurrency) =>
      .ok (.pool (concurrency.getD defaultPoolSize))
  | some (.remotePool cfg) => do
      let translate ← okOr asTarget
        (.failed "remote_pool executor can only be used with target actions")
      let _ ← okOr poolName
        (.failed "remote_pool executor requires a named target registry entry (pool name)")
      let _ ← okOr workerServer
        (.failed "remote_pool executor requires bits.worker_server to be configured")
      let heartbeatTimeout ← (tryFromSecsF64 cfg.heartbeatTimeoutSecs).mapError fun e =>
        .failed s!"remote_pool: invalid heartbeat_timeout_secs: {e}"
      if heartbeatTimeout = 0 then
        .error (.failed "remote_pool: heartbeat_timeout_secs must be positive")
      else .ok (.remotePool heartbeatTimeout translate)

def fromConfig (queue : Option QueueKind) (executor : Option ExecutorKind)
    (poolName : Option String) (workerServer : Option WorkerServer) (queueCapacity : Nat) :
    Except BuildError (Option (Dispatcher T)) :=
  if queue.isNone && executor.isNone then .ok none
  else do
    let built ← executorOf asTarget tryFromSecsF64 poolName workerServer executor
    let dispatcher ← Dispatcher.new (queue.getD .fifo) (executorType executor) built
      (startScheduler poolName workerServer built) queueCapacity
    .ok (some dispatcher)

def Dispatcher.withUserLimit (dispatcher : Dispatcher T) (cfg : Option UserLimitConfig)
    (scope brokerId : String) (shared : Bool) : Dispatcher T :=
  { dispatcher with userLimiter := cfg.map fun cfg => ⟨cfg, ⟨scope, brokerId⟩, shared⟩ }

end Building

section Attaching

structure ParseContext where
  workerServer : Option WorkerServer
  jobStore : Bool
  brokerId : String
  tryFromSecsF64 : JsonNumber → Except String Nat

inductive ActionKind where
  | check
  | transform
  | target
  | switch
deriving DecidableEq

inductive Attached where
  | check (dispatcher : Option (Dispatcher CheckResult))
  | transform (dispatcher : Option (Dispatcher TransformResult))
  | target (dispatcher : Option (Dispatcher TargetResult))
  | bare

/-- How the parser can end without a result. -/
inductive Abort where
  | error (error : ConfigError)
  | panic

variable (ctx : ParseContext)

/-- The executor of a `remote` target is a remote pool, and no other action has one. -/
def remoteExecutor (actionName : String) (settings : DispatcherSettings) :
    Except ConfigError DispatcherSettings :=
  if actionName = "remote" then do
    let settings ← match settings.executor with
      | none => .ok { settings with
          executor := some (.remotePool ⟨defaultHeartbeatTimeoutSecs⟩) }
      | some (.remotePool _) => .ok settings
      | some _ => .error (.validation "dispatcher.executor"
          "'remote' target requires executor: remote_pool")
    if ctx.workerServer.isNone then .error (.missingField "bits.worker_server")
    else .ok settings
  else match settings.executor with
    | some (.remotePool _) => .error (.validation "dispatcher.executor"
        "remote_pool requires a 'remote' target action")
    | _ => .ok settings

def defaultQueue (settings : DispatcherSettings) : DispatcherSettings :=
  if settings.userLimit.isSome && settings.queue.isNone && settings.executor.isNone then
    { settings with queue := some .fifo }
  else settings

def buildDispatcher {T : Type} (asTarget : Option (WorkerOutcome → T)) (entryName : String)
    (settings : DispatcherSettings) (poolName : Option String)
    (workerServer : Option WorkerServer) : Except Abort (Option (Dispatcher T)) :=
  match fromConfig asTarget ctx.tryFromSecsF64 settings.queue settings.executor poolName
      workerServer settings.queueCapacity with
  | .error (.failed e) => .error (.error (.validation "dispatcher" e))
  | .error .panicked => .error .panic
  | .ok built => .ok (built.map fun dispatcher =>
      dispatcher.withUserLimit settings.userLimit entryName ctx.brokerId ctx.jobStore)

def attachKind (entryName actionName : String) (settings : DispatcherSettings) :
    ActionKind → Except Abort Attached
  | .check => (buildDispatcher ctx none entryName settings none none).map .check
  | .transform => (buildDispatcher ctx none entryName settings none none).map .transform
  | .target => (buildDispatcher ctx (some WorkerOutcome.toTarget) entryName settings
      (if actionName = "remote" then some entryName else none) ctx.workerServer).map .target
  | .switch =>
      if settings.queue.isSome || settings.executor.isSome then
        .error (.error (.validation "dispatcher"
          "config only valid for Check, Transform, and Target actions"))
      else .ok .bare

def attachDispatcher (entryName actionName : String) (kind : ActionKind)
    (settings : DispatcherSettings) : Except Abort Attached := do
  let settings ← (remoteExecutor ctx actionName settings).mapError .error
  attachKind ctx entryName actionName (defaultQueue settings) kind

end Attaching

end BitsBroker
