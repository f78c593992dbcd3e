import Mathlib
import BitsBroker.Config.AddRoute
import BitsBroker.Config.UserLimits
import BitsBroker.Db.BrokerSlots
import BitsBroker.Db.ClaimLoops
import BitsBroker.Lib.Hex

/-!
The start of a broker. `parse_bootstrap` reads the configuration, checks the tags and the
durations, sets up the store, has a broker slot allocated and parses the routes; from what it
accepts the broker gets its identity and makes the identifiers of its jobs. Texts and sections are
decoded by libraries, which are parameters, and durations are numbers of nanoseconds. What the
store and the network do to one start is an `Outside` of the start.

The slots come from the shared store, so brokers that start against one store, at any time, are
different brokers, and so are their jobs.
-/

namespace BitsBroker

open RequestId Transition

namespace Bootstrap

structure WorkerServerConfig where
  host : String
  port : UInt16
  advertisedAddr : Option String

inductive PersistenceConfig where
  | tikv (endpoints : List String) (brokerLeaseTtlSecs : JsonNumber)
      (connectTimeoutSecs : Option JsonNumber)
  | nats (url jobsBucket leasesBucket : String) (brokerLeaseTtlSecs : JsonNumber)
      (numReplicas : Nat) (connectTimeoutSecs : Option JsonNumber) (initMaxAttempts : Option UInt32)
      (jobsTombstoneTtlSecs : Option JsonNumber)

structure BitsConfig where
  site : Option Json
  env : Option Json
  internalPollEndpoint : Option String
  internalPollTimeoutSecs : Option JsonNumber
  sweepIntervalSecs : Option JsonNumber
  reconnectBufferSecs : Option JsonNumber
  persistAfterSecs : Option JsonNumber
  persistence : Option PersistenceConfig
  workerServer : Option WorkerServerConfig
  maxJobs : Option Nat

def BitsConfig.default : BitsConfig :=
  ⟨none, none, none, none, none, none, none, none, none, none⟩

structure ServerConfig where
  host : String
  port : UInt16
  pollTimeoutSecs : JsonNumber
  retryAfterSecs : Nat

/-- 25.0 seconds. -/
def defaultPollTimeoutSecs : JsonNumber := .float 0x4039000000000000#64

def ServerConfig.default : ServerConfig where
  host := "0.0.0.0"
  port := 8080
  pollTimeoutSecs := defaultPollTimeoutSecs
  retryAfterSecs := 5

inductive BootError where
  | yaml (reason : String)
  | config (error : ConfigError)
  | featureDisabled (path feature : String)
  | persistenceInit (path backend reason : String)
  | persistence (error : DbError)
  | routing (error : RoutingError)
  | panic

/-- The libraries, and the features the program was built with. -/
structure Libraries where
  fromYaml : String → Except String Json
  decodeBits : Json → Except DecodeError BitsConfig
  decodeServer : Json → Except DecodeError ServerConfig
  checkMetrics : Json → Except ConfigError Unit
  tryFromSecsF64 : JsonNumber → Except String Nat
  asSecsText : Nat → String
  createAction : String → Json → Except String Action
  render : Json → String
  tikv : Bool
  nats : Bool

inductive Allocation where
  | slot (slot : Fin (u16Max + 1))
  | failed (error : DbError)
  | noRuntime (reason : String)
  | panicked

/-- `init` is the error of each attempt to set the store up, if it fails, and `attempt` how binding
the listener of the worker server would end. -/
structure Outside where
  init : Nat → Option String
  inRuntime : Bool
  allocation : Allocation
  attempt : WorkerListener.Attempt

inductive StoreSetup where
  | tikv (endpoints : List String) (connectTimeout : Nat)
  | nats (url jobsBucket leasesBucket : String) (leaseTtl numReplicas connectTimeout : Nat)
      (jobTombstoneTtl : Nat)

structure RuntimeConfig where
  router : List ParsedRoute
  routes : BitsRoutes
  sweepInterval : Option Nat
  reconnectBuffer : Nat
  site : String
  env : String
  brokerSlot : Nat
  internalPollEndpoint : String
  internalPollTimeout : Nat
  jobStore : Option StoreSetup
  brokerLeaseTtl : Nat
  persistAfter : Option Nat
  maxJobs : Nat

structure Boot where
  runtimeConfig : RuntimeConfig
  serverConfig : ServerConfig
  hadServerSection : Bool

def second : Nat := 1000000000

def secs (bits : BitVec 64) : JsonNumber := .float bits

/-- 2.5, 5.0 and 30.0 seconds. -/
def defaultInternalPollTimeoutSecs : JsonNumber := secs 0x4004000000000000#64

def defaultReconnectBufferSecs : JsonNumber := secs 0x4014000000000000#64

def defaultBrokerLeaseTtlSecs : JsonNumber := secs 0x403E000000000000#64

def defaultMaxJobs : Nat := 500000

def defaultConnectTimeout : Nat := 10 * second

def defaultJobTombstoneTtl : Nat := 24 * 60 * 60 * second

def defaultInitMaxAttempts : UInt32 := 6

def invalid {A : Type} (field reason : String) : Except BootError A :=
  .error (.config (.validation field reason))

def refuseIf (bad : Bool) (field reason : String) : Except BootError Unit :=
  if bad then invalid field reason else .ok ()

def encodeErrorText : EncodeError → String
  | .emptyTag => "tag must not be empty"
  | .tagTooLong actual => s!"tag must be at most 3 characters, got {actual}"
  | .invalidTagCharacter ch => s!"tag contains invalid character {RequestId.debugChar ch}"
  | .timestampBeforeCustomEpoch => "timestamp is before the custom epoch"
  | .timestampTooLarge => "timestamp exceeds the u32 seconds-since-epoch ceiling"

def tagText : Json → Option String
  | .string tag => some tag
  | .number (.posInt number) => some (toString number.toNat)
  | _ => none

def requireSiteEnvTag (field : String) (value : Option Json) : Except BootError String := do
  let value ← okOr value (.config (.missingField field))
  let tag ← okOr (tagText value)
    (.config (.validation field "must be a string or unsigned integer tag"))
  match packTag tag with
  | .ok _ => .ok tag
  | .error e => invalid field (encodeErrorText e)

section Parsing

variable (libs : Libraries)

def durationSecs (field : String) (number : JsonNumber) : Except BootError Nat :=
  (libs.tryFromSecsF64 number).mapError fun e => .config (.validation field e)

def positiveDurationSecs (field : String) (number : JsonNumber) : Except BootError Nat := do
  let duration ← durationSecs libs field number
  refuseIf (duration = 0) field "must be greater than zero"
  .ok duration

/-- A section that is there is decoded. -/
def decodeSection {A : Type} (fields : List (String × Json)) (path target : String)
    (decode : Json → Except DecodeError A) : Except BootError (Option A) :=
  match Json.get fields path with
  | none => .ok none
  | some value => ((decode value).map some).mapError fun e => .config (.decode path target e)

def decodeMap : Json → Except DecodeError (HashMap String Json)
  | .object fields => .ok (fields.foldl (fun entries field => AList.insert field.1 field.2 entries) ∅)
  | _ => .error .invalidType

structure Timing where
  internalPollTimeout : Nat
  sweepInterval : Option Nat
  reconnectBuffer : Nat
  persistAfter : Option Nat

def parseTiming (bits : BitsConfig) : Except BootError Timing := do
  let internalPollTimeout ← positiveDurationSecs libs "bits.internal_poll_timeout_secs"
    (bits.internalPollTimeoutSecs.getD defaultInternalPollTimeoutSecs)
  let sweepInterval ← bits.sweepIntervalSecs.mapM
    (positiveDurationSecs libs "bits.sweep_interval_secs")
  let reconnectBuffer ← positiveDurationSecs libs "bits.reconnect_buffer_secs"
    (bits.reconnectBufferSecs.getD defaultReconnectBufferSecs)
  let persistAfter ← bits.persistAfterSecs.mapM (durationSecs libs "bits.persist_after_secs")
  .ok ⟨internalPollTimeout, sweepInterval, reconnectBuffer, persistAfter⟩

/-- A wildcard address cannot be asked, so the loopback address stands in for it. -/
def pollHost (host : String) : String :=
  if host = "::" then "::1" else if host = "0.0.0.0" then "127.0.0.1" else host

def derivedEndpoint (server : ServerConfig) : String :=
  let host := pollHost server.host
  if host.toList.contains ':' then s!"http://[{host}]:{server.port.toNat}/job"
  else s!"http://{host}:{server.port.toNat}/job"

def persistGuard : Nat := second

/-- The record of a job has to be written before the first long poll for the job times out. -/
def checkPersistAfter (persistence : Option PersistenceConfig) (persistAfter : Option Nat)
    (pollTimeout : Nat) : Except BootError Unit :=
  match persistence, persistAfter with
  | some _, some persistAfter =>
      if durationMax < persistAfter + persistGuard then .error .panic
      else refuseIf (pollTimeout ≤ persistAfter + persistGuard) "bits.persist_after_secs"
        (s!"bits.persist_after_secs ({libs.asSecsText persistAfter} s) + 1 s guard must be less " ++
          s!"than server.poll_timeout_secs ({libs.asSecsText pollTimeout} s)")
  | _, _ => .ok ()

def parseLeaseTtl (number : JsonNumber) : Except BootError Nat := do
  let ttl ← durationSecs libs "bits.persistence.broker_lease_ttl_secs" number
  refuseIf (ttl < second) "bits.persistence.broker_lease_ttl_secs" "must be at least 1 second"
  .ok ttl

def parseConnectTimeout : Option JsonNumber → Except BootError Nat
  | some number => positiveDurationSecs libs "bits.persistence.connect_timeout_secs" number
  | none => .ok defaultConnectTimeout

def parseTombstoneTtl : Option JsonNumber → Except BootError Nat
  | some number => do
      let ttl ← positiveDurationSecs libs "bits.persistence.jobs_tombstone_ttl_secs" number
      refuseIf (ttl < second) "bits.persistence.jobs_tombstone_ttl_secs"
        "must be at least 1 second"
      .ok ttl
  | none => .ok defaultJobTombstoneTtl

/-- The error of the last attempt, the number of attempts and the sleeps between them. -/
structure InitReport where
  lastErr : Option String
  calls : Nat
  sleeps : List Nat
deriving DecidableEq

def maxInitDelay : Nat := 10 * second

def natsInitFrom (init : Nat → Option String) : Nat → Nat → Nat → InitReport
  | 0, attempt, _ => ⟨init attempt, 1, []⟩
  | left + 1, attempt, delay => match init attempt with
      | none => ⟨none, 1, []⟩
      | some _ =>
          let rest := natsInitFrom init left (attempt + 1) (min (delay * 2) maxInitDelay)
          ⟨rest.lastErr, rest.calls + 1, delay :: rest.sleeps⟩

def natsInit (init : Nat → Option String) (maxAttempts : Nat) : InitReport :=
  natsInitFrom init (maxAttempts - 1) 1 second

def initNats (world : Outside) (maxAttempts : Nat) : Except BootError Unit :=
  if !world.inRuntime then
    invalid "bits.persistence.type" "nats requires a running Tokio runtime for init"
  else match (natsInit world.init maxAttempts).lastErr with
    | some reason => .error (.persistenceInit "bits.persistence" "nats" reason)
    | none => .ok ()

def setUpTikv (endpoints : List String) (leaseTtlSecs : JsonNumber)
    (connectTimeoutSecs : Option JsonNumber) : Except BootError (StoreSetup × Nat) := do
  refuseIf endpoints.isEmpty "bits.persistence.endpoints" "must not be empty"
  let ttl ← parseLeaseTtl libs leaseTtlSecs
  let connectTimeout ← parseConnectTimeout libs connectTimeoutSecs
  if libs.tikv then .ok (.tikv endpoints connectTimeout, ttl)
  else .error (.featureDisabled "bits.persistence.type" "tikv")

/-- With the feature the connect timeout is read first, without it last. -/
def setUpNats (world : Outside) (url jobsBucket leasesBucket : String)
    (leaseTtlSecs : JsonNumber) (numReplicas : Nat) (connectTimeoutSecs : Option JsonNumber)
    (initMaxAttempts : Option UInt32) (jobsTombstoneTtlSecs : Option JsonNumber) :
    Except BootError (StoreSetup × Nat) := do
  refuseIf url.isEmpty "bits.persistence.url" "must not be empty"
  refuseIf jobsBucket.isEmpty "bits.persistence.jobs_bucket" "must not be empty"
  refuseIf leasesBucket.isEmpty "bits.persistence.leases_bucket" "must not be empty"
  refuseIf (numReplicas < 1) "bits.persistence.num_replicas" "must be at least 1"
  let ttl ← parseLeaseTtl libs leaseTtlSecs
  let maxAttempts := (initMaxAttempts.getD defaultInitMaxAttempts).toNat
  if libs.nats then do
    let connectTimeout ← parseConnectTimeout libs connectTimeoutSecs
    let tombstoneTtl ← parseTombstoneTtl libs jobsTombstoneTtlSecs
    refuseIf (maxAttempts < 1) "bits.persistence.init_max_attempts" "must be at least 1"
    initNats world maxAttempts
    .ok (.nats url jobsBucket leasesBucket ttl numReplicas connectTimeout tombstoneTtl, ttl)
  else do
    let _ ← parseTombstoneTtl libs jobsTombstoneTtlSecs
    refuseIf (maxAttempts < 1) "bits.persistence.init_max_attempts" "must be at least 1"
    let _ ← parseConnectTimeout libs connectTimeoutSecs
    .error (.featureDisabled "bits.persistence.type" "nats")

/-- The store, the lifetime of the lease, and after how long a job is persisted. -/
structure Persistence where
  jobStore : Option StoreSetup
  brokerLeaseTtl : Nat
  persistAfter : Option Nat

def setUpPersistence (world : Outside) (persistAfter : Option Nat) :
    Option PersistenceConfig → Except BootError Persistence
  | some (.tikv endpoints leaseTtlSecs connectTimeoutSecs) => do
      let (store, ttl) ← setUpTikv libs endpoints leaseTtlSecs connectTimeoutSecs
      .ok ⟨some store, ttl, persistAfter⟩
  | some (.nats url jobsBucket leasesBucket leaseTtlSecs numReplicas connectTimeoutSecs
      initMaxAttempts jobsTombstoneTtlSecs) => do
      let (store, ttl) ← setUpNats libs world url jobsBucket leasesBucket leaseTtlSecs numReplicas
        connectTimeoutSecs initMaxAttempts jobsTombstoneTtlSecs
      .ok ⟨some store, ttl, persistAfter⟩
  | none => .ok ⟨none, 30 * second, none⟩

def allocateStartupBrokerSlot : Allocation → Except BootError Nat
  | .slot slot => .ok slot
  | .failed error => .error (.persistence error)
  | .noRuntime reason => invalid "bits.persistence" reason
  | .panicked => invalid "bits.persistence" "broker slot allocator panicked"

def brokerSlot (world : Outside) : Option StoreSetup → Except BootError Nat
  | some _ => allocateStartupBrokerSlot world.allocation
  | none => .ok 0

def brokerIdOf (site env : String) (brokerSlot : Nat) : String := s!"{site}-{env}-{brokerSlot}"

def parseRegistries (fields : List (String × Json)) : Except BootError Registries := do
  let checks ← decodeSection fields "checks" "map" decodeMap
  let transforms ← decodeSection fields "transforms" "map" decodeMap
  let targets ← decodeSection fields "targets" "map" decodeMap
  .ok ⟨checks.getD ∅, transforms.getD ∅, targets.getD ∅⟩

def BootError.ofParse : ParseError → BootError
  | .routing error => .routing error
  | .config error => .config error
  | .panic => .panic

def routeContext (bits : BitsConfig) (jobStore : Bool) (brokerId : String)
    (registries : Registries) : RouteContext where
  workerServer := bits.workerServer.map fun _ => workerServer (.ok ())
  jobStore := jobStore
  brokerId := brokerId
  tryFromSecsF64 := libs.tryFromSecsF64
  registries := registries
  createAction := libs.createAction
  render := libs.render

def workerAddress (bits : BitsConfig) : String :=
  (bits.workerServer.map fun ws => s!"{ws.host}:{ws.port.toNat}").getD ""

def parseRouter (ctx : RouteContext) (address : String) (attempt : WorkerListener.Attempt)
    (fields : List (String × Json)) : Except BootError (List ParsedRoute × BitsRoutes) :=
  match Json.get fields "routes" with
  | none => .ok ([], BitsRoutes.new)
  | some value => match parseRoute ctx address BitsRoutes.new "routes" value attempt with
      | (.error error, _) => .error (BootError.ofParse error)
      | (.ok branches, routes) => match validateRoutes branches with
          | .error error => .error (.routing error)
          | .ok () => .ok (branches, routes)

def checkServer (server : ServerConfig) : Except BootError Nat := do
  let pollTimeout ← positiveDurationSecs libs "server.poll_timeout_secs" server.pollTimeoutSecs
  refuseIf (server.retryAfterSecs = 0) "server.retry_after_secs" "must be greater than zero"
  .ok pollTimeout

def checkMetrics (fields : List (String × Json)) : Except BootError Unit :=
  match Json.get fields "metrics" with
  | none => .ok ()
  | some value => (libs.checkMetrics value).mapError .config

def parseFields (world : Outside) (fields : List (String × Json)) : Except BootError Boot := do
  let bits := (← decodeSection fields "bits" "BitsConfig" libs.decodeBits).getD .default
  let site ← requireSiteEnvTag "bits.site" bits.site
  let env ← requireSiteEnvTag "bits.env" bits.env
  let timing ← parseTiming libs bits
  refuseIf (bits.maxJobs = some 0) "bits.max_jobs" "must be greater than zero"
  let serverSection ← decodeSection fields "server" "ServerConfig" libs.decodeServer
  let server := serverSection.getD .default
  checkMetrics libs fields
  let pollTimeout ← checkServer libs server
  checkPersistAfter libs bits.persistence timing.persistAfter pollTimeout
  let persistence ← setUpPersistence libs world timing.persistAfter bits.persistence
  let slot ← brokerSlot world persistence.jobStore
  let registries ← parseRegistries fields
  let ctx := routeContext libs bits persistence.jobStore.isSome (brokerIdOf site env slot) registries
  let (router, routes) ← parseRouter ctx (workerAddress bits) world.attempt fields
  .ok {
    runtimeConfig := {
      router := router
      routes := routes
      sweepInterval := timing.sweepInterval
      reconnectBuffer := timing.reconnectBuffer
      site := site
      env := env
      brokerSlot := slot
      internalPollEndpoint := bits.internalPollEndpoint.getD (derivedEndpoint server)
      internalPollTimeout := timing.internalPollTimeout
      jobStore := persistence.jobStore
      brokerLeaseTtl := persistence.brokerLeaseTtl
      persistAfter := persistence.persistAfter
      maxJobs := bits.maxJobs.getD defaultMaxJobs }
    serverConfig := server
    hadServerSection := serverSection.isSome }

def parseBootstrap (world : Outside) (config : String) : Except BootError Boot := do
  let raw ← (libs.fromYaml config).mapError .yaml
  let fields ← okOr raw.asObject
    (.config (.validation "config" "top-level config must be a YAML mapping"))
  parseFields libs world fields

end Parsing

/-- The identity a broker is made with. -/
structure SubmitContext where
  brokerId : String
  site : String
  env : String
  brokerSlot : Nat

def fromRuntimeConfig (parsed : RuntimeConfig) : SubmitContext where
  brokerId := brokerIdOf parsed.site parsed.env parsed.brokerSlot
  site := parsed.site
  env := parsed.env
  brokerSlot := parsed.brokerSlot

def SubmitContext.newJobId (ctx : SubmitContext) (now : Nat) (random : List Nat) :
    Except EncodeError String :=
  encodeWithFixedRandom ctx.site ctx.env ctx.brokerSlot now random

section Accepted

theorem isTagChar_of_tagCharValue {ch : Char} {digit : Nat} (read : tagCharValue ch = .ok digit) :
    isTagChar ch := by
  unfold tagCharValue at read
  split at read
  next decimal => exact Or.inl decimal
  next =>
    split at read
    next letter => exact Or.inr letter
    next => cases read

theorem isTagChar_of_mapM {tag : List Char} {digits : List Nat}
    (read : tag.mapM tagCharValue = .ok digits) : ∀ ch ∈ tag, isTagChar ch := by
  induction tag generalizing digits with
  | nil =>
      intro ch member
      cases member
  | cons first rest ih =>
      rw [List.mapM_cons, bind_ok_iff] at read
      obtain ⟨digit, firstOk, read⟩ := read
      rw [bind_ok_iff] at read
      obtain ⟨others, restOk, _⟩ := read
      intro ch member
      rcases List.mem_cons.mp member with rfl | inside
      · exact isTagChar_of_tagCharValue firstOk
      · exact ih restOk ch inside

theorem validTag_of_packTag {tag : String} {number : Nat} (packed : packTag tag = .ok number) :
    ValidTag tag := by
  simp only [packTag] at packed
  split at packed
  · cases packed
  next nonempty =>
    split at packed
    · cases packed
    next short =>
      refine ⟨by omega, by omega, ?_⟩
      unfold tagDigits at packed
      cases read : tag.toList.mapM tagCharValue with
      | error e => simp [read] at packed
      | ok digits => exact isTagChar_of_mapM read

theorem requireSiteEnvTag_ok {field : String} {value : Option Json} {tag : String}
    (accepted : requireSiteEnvTag field value = .ok tag) : ValidTag tag := by
  unfold requireSiteEnvTag at accepted
  rw [bind_ok_iff] at accepted
  obtain ⟨json, _, accepted⟩ := accepted
  rw [bind_ok_iff] at accepted
  obtain ⟨text, _, accepted⟩ := accepted
  cases packed : packTag text with
  | error e => simp [packed, invalid] at accepted
  | ok number =>
      rw [packed] at accepted
      cases accepted
      exact validTag_of_packTag packed

theorem refuseIf_ok {bad : Bool} {field reason : String} {done : Unit}
    (accepted : refuseIf bad field reason = .ok done) : bad = false := by
  cases bad with
  | false => rfl
  | true => cases accepted

variable {libs : Libraries} {world : Outside} {field : String}

theorem durationSecs_ok {number : JsonNumber} {duration : Nat}
    (accepted : durationSecs libs field number = .ok duration) :
    libs.tryFromSecsF64 number = .ok duration := by
  unfold durationSecs at accepted
  cases read : libs.tryFromSecsF64 number with
  | error e =>
      rw [read] at accepted
      cases accepted
  | ok value =>
      rw [read] at accepted
      cases accepted
      rfl

theorem positiveDurationSecs_ok {number : JsonNumber} {duration : Nat}
    (accepted : positiveDurationSecs libs field number = .ok duration) :
    libs.tryFromSecsF64 number = .ok duration ∧ 0 < duration := by
  unfold positiveDurationSecs at accepted
  simp only [bind_ok_iff] at accepted
  obtain ⟨read, readOk, _, positive, same⟩ := accepted
  cases same
  have nonzero := of_decide_eq_false (refuseIf_ok positive)
  exact ⟨durationSecs_ok readOk, by omega⟩

theorem mapM_ok {A B E : Type} {convert : A → Except E B} {P : B → Prop}
    (each : ∀ value result, convert value = .ok result → P result) {value : Option A}
    {result : Option B} (accepted : value.mapM convert = .ok result) :
    ∀ made, result = some made → P made := by
  intro made same
  subst same
  cases value with
  | none => cases accepted
  | some value =>
      cases read : convert value with
      | error e =>
          simp only [Option.mapM_some, read] at accepted
          cases accepted
      | ok other =>
          simp only [Option.mapM_some, read] at accepted
          cases accepted
          exact each value made read

/-- What is read of the durations. -/
structure Timing.Sound (timing : Timing) : Prop where
  internalPollTimeout : 0 < timing.internalPollTimeout
  sweepInterval (interval : Nat) : timing.sweepInterval = some interval → 0 < interval
  reconnectBuffer : 0 < timing.reconnectBuffer

theorem parseTiming_ok {bits : BitsConfig} {timing : Timing}
    (accepted : parseTiming libs bits = .ok timing) : timing.Sound := by
  unfold parseTiming at accepted
  simp only [bind_ok_iff] at accepted
  obtain ⟨internal, internalOk, interval, intervalOk, buffer, bufferOk, _, _, same⟩ := accepted
  cases same
  refine ⟨(positiveDurationSecs_ok internalOk).2, ?_, (positiveDurationSecs_ok bufferOk).2⟩
  exact mapM_ok (fun _ _ read => (positiveDurationSecs_ok read).2) intervalOk

theorem checkPersistAfter_ok {persistence : Option PersistenceConfig} {persistAfter : Option Nat}
    {pollTimeout : Nat} {done : Unit}
    (accepted : checkPersistAfter libs persistence persistAfter pollTimeout = .ok done)
    (stored : persistence.isSome = true) {delay : Nat} (delayed : persistAfter = some delay) :
    delay + persistGuard < pollTimeout := by
  obtain ⟨config, rfl⟩ := Option.isSome_iff_exists.mp stored
  subst delayed
  simp only [checkPersistAfter] at accepted
  split at accepted
  · cases accepted
  · have early := of_decide_eq_false (refuseIf_ok accepted)
    omega

theorem parseLeaseTtl_ok {number : JsonNumber} {ttl : Nat}
    (accepted : parseLeaseTtl libs number = .ok ttl) : second ≤ ttl := by
  unfold parseLeaseTtl at accepted
  simp only [bind_ok_iff] at accepted
  obtain ⟨read, _, _, long, same⟩ := accepted
  cases same
  have bound := of_decide_eq_false (refuseIf_ok long)
  omega

theorem parseConnectTimeout_ok {number : Option JsonNumber} {timeout : Nat}
    (accepted : parseConnectTimeout libs number = .ok timeout) : 0 < timeout := by
  cases number with
  | none =>
      cases accepted
      decide
  | some number => exact (positiveDurationSecs_ok accepted).2

theorem parseTombstoneTtl_ok {number : Option JsonNumber} {ttl : Nat}
    (accepted : parseTombstoneTtl libs number = .ok ttl) : second ≤ ttl := by
  cases number with
  | none =>
      cases accepted
      decide
  | some number =>
      simp only [parseTombstoneTtl, bind_ok_iff] at accepted
      obtain ⟨read, _, _, long, same⟩ := accepted
      cases same
      have bound := of_decide_eq_false (refuseIf_ok long)
      omega

/-- What a store is set up with. -/
def StoreSetup.Sound (leaseTtl : Nat) : StoreSetup → Prop
  | .tikv endpoints connectTimeout => endpoints ≠ [] ∧ 0 < connectTimeout
  | .nats url jobsBucket leasesBucket ttl numReplicas connectTimeout jobTombstoneTtl =>
      url ≠ "" ∧ jobsBucket ≠ "" ∧ leasesBucket ≠ "" ∧ ttl = leaseTtl ∧ 0 < numReplicas ∧
        0 < connectTimeout ∧ second ≤ jobTombstoneTtl

theorem setUpTikv_ok {endpoints : List String} {leaseTtlSecs : JsonNumber}
    {connectTimeoutSecs : Option JsonNumber} {store : StoreSetup} {ttl : Nat}
    (accepted : setUpTikv libs endpoints leaseTtlSecs connectTimeoutSecs = .ok (store, ttl)) :
    store.Sound ttl ∧ second ≤ ttl := by
  unfold setUpTikv at accepted
  simp only [bind_ok_iff] at accepted
  obtain ⟨_, given, ttl', ttlOk, timeout, timeoutOk, accepted⟩ := accepted
  split at accepted
  · cases accepted
    have nonempty := refuseIf_ok given
    refine ⟨⟨?_, parseConnectTimeout_ok timeoutOk⟩, parseLeaseTtl_ok ttlOk⟩
    rintro rfl
    cases nonempty
  · cases accepted

theorem ne_empty_of_refuseIf {text field reason : String} {done : Unit}
    (accepted : refuseIf text.isEmpty field reason = .ok done) : text ≠ "" := by
  rintro rfl
  have nonempty := refuseIf_ok accepted
  revert nonempty
  decide

theorem setUpNats_ok {url jobsBucket leasesBucket : String} {leaseTtlSecs : JsonNumber}
    {numReplicas : Nat} {connectTimeoutSecs : Option JsonNumber} {initMaxAttempts : Option UInt32}
    {jobsTombstoneTtlSecs : Option JsonNumber} {store : StoreSetup} {ttl : Nat}
    (accepted : setUpNats libs world url jobsBucket leasesBucket leaseTtlSecs numReplicas
      connectTimeoutSecs initMaxAttempts jobsTombstoneTtlSecs = .ok (store, ttl)) :
    store.Sound ttl ∧ second ≤ ttl := by
  unfold setUpNats at accepted
  simp only [bind_ok_iff] at accepted
  obtain ⟨_, urlOk, _, jobsOk, _, leasesOk, _, replicasOk, ttl', ttlOk, accepted⟩ := accepted
  split at accepted
  · simp only [bind_ok_iff] at accepted
    obtain ⟨timeout, timeoutOk, tombstone, tombstoneOk, _, _, _, _, same⟩ := accepted
    cases same
    have replicas := of_decide_eq_false (refuseIf_ok replicasOk)
    exact ⟨⟨ne_empty_of_refuseIf urlOk, ne_empty_of_refuseIf jobsOk, ne_empty_of_refuseIf leasesOk,
      rfl, by omega, parseConnectTimeout_ok timeoutOk, parseTombstoneTtl_ok tombstoneOk⟩,
      parseLeaseTtl_ok ttlOk⟩
  · simp only [bind_ok_iff] at accepted
    obtain ⟨_, _, _, _, _, _, same⟩ := accepted
    cases same

structure Persistence.Sound (persistence : Persistence) (configured : Bool)
    (persistAfter : Option Nat) : Prop where
  present : persistence.jobStore.isSome = configured
  delay : persistence.persistAfter = if configured then persistAfter else none
  store (store : StoreSetup) : persistence.jobStore = some store →
    store.Sound persistence.brokerLeaseTtl
  leaseTtl : second ≤ persistence.brokerLeaseTtl

theorem setUpPersistence_ok {persistAfter : Option Nat} {config : Option PersistenceConfig}
    {persistence : Persistence}
    (accepted : setUpPersistence libs world persistAfter config = .ok persistence) :
    persistence.Sound config.isSome persistAfter := by
  have made : ∀ {store : StoreSetup} {ttl : Nat}, store.Sound ttl ∧ second ≤ ttl →
      Persistence.Sound ⟨some store, ttl, persistAfter⟩ true persistAfter := by
    intro store ttl sound
    refine ⟨rfl, rfl, ?_, sound.2⟩
    rintro _ ⟨⟩
    exact sound.1
  cases config with
  | none =>
      cases accepted
      refine ⟨rfl, rfl, by simp, ?_⟩
      decide
  | some config =>
      cases config with
      | tikv endpoints leaseTtlSecs connectTimeoutSecs =>
          simp only [setUpPersistence, bind_ok_iff] at accepted
          obtain ⟨⟨store, ttl⟩, built, same⟩ := accepted
          cases same
          exact made (setUpTikv_ok built)
      | nats url jobsBucket leasesBucket leaseTtlSecs numReplicas connectTimeoutSecs
          initMaxAttempts jobsTombstoneTtlSecs =>
          simp only [setUpPersistence, bind_ok_iff] at accepted
          obtain ⟨⟨store, ttl⟩, built, same⟩ := accepted
          cases same
          exact made (setUpNats_ok built)

theorem parseRouter_ok {ctx : RouteContext} {address : String} {attempt : WorkerListener.Attempt}
    {fields : List (String × Json)} {router : List ParsedRoute} {routes : BitsRoutes}
    (accepted : parseRouter ctx address attempt fields = .ok (router, routes)) :
    validateRoutes router = .ok () := by
  unfold parseRouter at accepted
  split at accepted
  · cases accepted
    rfl
  next value =>
    split at accepted
    · cases accepted
    next branches parsed built =>
      split at accepted
      · cases accepted
      next valid =>
        cases accepted
        exact valid

theorem brokerSlot_ok {store : Option StoreSetup} {slot : Nat}
    (accepted : brokerSlot world store = .ok slot) :
    slot ≤ u16Max ∧ (store = none → slot = 0) ∧
      (store.isSome = true → ∃ given, world.allocation = .slot given ∧ slot = given) := by
  cases store with
  | none =>
      cases accepted
      exact ⟨Nat.zero_le _, fun _ => rfl, by simp⟩
  | some store =>
      simp only [brokerSlot] at accepted
      cases allocated : world.allocation with
      | slot given =>
          rw [allocated] at accepted
          cases accepted
          exact ⟨Nat.le_of_lt_succ given.isLt, by simp, fun _ => ⟨given, rfl, rfl⟩⟩
      | failed error => simp [allocated, allocateStartupBrokerSlot] at accepted
      | noRuntime reason => simp [allocated, allocateStartupBrokerSlot, invalid] at accepted
      | panicked => simp [allocated, allocateStartupBrokerSlot, invalid] at accepted

structure RuntimeConfig.Sound (config : RuntimeConfig) (pollTimeout : Nat) : Prop where
  site : ValidTag config.site
  env : ValidTag config.env
  slot : config.brokerSlot ≤ u16Max
  alone : config.jobStore = none → config.brokerSlot = 0
  internalPollTimeout : 0 < config.internalPollTimeout
  sweepInterval (interval : Nat) : config.sweepInterval = some interval → 0 < interval
  reconnectBuffer : 0 < config.reconnectBuffer
  maxJobs : 0 < config.maxJobs
  router : validateRoutes config.router = .ok ()
  store (store : StoreSetup) : config.jobStore = some store → store.Sound config.brokerLeaseTtl
  leaseTtl : second ≤ config.brokerLeaseTtl
  persistAfter (delay : Nat) : config.persistAfter = some delay →
    config.jobStore.isSome = true ∧ delay + persistGuard < pollTimeout

theorem checkServer_ok {server : ServerConfig} {pollTimeout : Nat}
    (accepted : checkServer libs server = .ok pollTimeout) :
    libs.tryFromSecsF64 server.pollTimeoutSecs = .ok pollTimeout ∧ 0 < pollTimeout ∧
      0 < server.retryAfterSecs := by
  unfold checkServer at accepted
  simp only [bind_ok_iff] at accepted
  obtain ⟨timeout, timeoutOk, _, retryOk, same⟩ := accepted
  cases same
  have nonzero := of_decide_eq_false (refuseIf_ok retryOk)
  obtain ⟨read, positive⟩ := positiveDurationSecs_ok timeoutOk
  exact ⟨read, positive, by omega⟩

theorem maxJobs_pos {given : Option Nat} (nonzero : ¬given = some 0) :
    0 < given.getD defaultMaxJobs := by
  cases given with
  | none => decide
  | some count =>
      have positive : count ≠ 0 := fun zero => nonzero (by rw [zero])
      exact Nat.pos_of_ne_zero positive

/-- What the start took from outside: the slot of a broker with a store. -/
def Boot.TookSlot (boot : Boot) (world : Outside) : Prop :=
  boot.runtimeConfig.jobStore.isSome = true →
    ∃ given, world.allocation = .slot given ∧ boot.runtimeConfig.brokerSlot = given

theorem parseFields_ok {fields : List (String × Json)} {boot : Boot}
    (accepted : parseFields libs world fields = .ok boot) :
    (∃ pollTimeout, libs.tryFromSecsF64 boot.serverConfig.pollTimeoutSecs = .ok pollTimeout ∧
      0 < pollTimeout ∧ boot.runtimeConfig.Sound pollTimeout) ∧
    0 < boot.serverConfig.retryAfterSecs ∧ boot.TookSlot world := by
  unfold parseFields at accepted
  simp only [bind_ok_iff] at accepted
  obtain ⟨bits, _, site, siteOk, env, envOk, timing, timingOk, _, jobsOk, server, _, _, _,
    pollTimeout, serverOk, _, persistOk, persistence, storeOk, slot, slotOk, registries, _,
    ⟨router, routes⟩, routerOk, same⟩ := accepted
  cases same
  have timingSound := parseTiming_ok timingOk
  have storeSound := setUpPersistence_ok storeOk
  obtain ⟨slotBound, slotAlone, slotGiven⟩ := brokerSlot_ok slotOk
  obtain ⟨read, positive, retry⟩ := checkServer_ok serverOk
  refine ⟨⟨pollTimeout, read, positive, ?_⟩, retry, slotGiven⟩
  refine ⟨requireSiteEnvTag_ok siteOk, requireSiteEnvTag_ok envOk, slotBound, slotAlone,
    timingSound.internalPollTimeout, timingSound.sweepInterval, timingSound.reconnectBuffer, ?_,
    parseRouter_ok routerOk, storeSound.store, storeSound.leaseTtl, ?_⟩
  · exact maxJobs_pos (of_decide_eq_false (refuseIf_ok jobsOk))
  · intro delay delayed
    have delayed : persistence.persistAfter = some delay := delayed
    have kept := storeSound.delay
    rw [delayed] at kept
    by_cases configured : (bits.getD BitsConfig.default).persistence.isSome = true
    · rw [if_pos configured] at kept
      exact ⟨storeSound.present.trans configured,
        checkPersistAfter_ok persistOk configured kept.symm⟩
    · rw [if_neg configured] at kept
      cases kept

theorem parseBootstrap_ok {config : String} {boot : Boot}
    (accepted : parseBootstrap libs world config = .ok boot) :
    ∃ fields, parseFields libs world fields = .ok boot := by
  unfold parseBootstrap at accepted
  simp only [bind_ok_iff] at accepted
  obtain ⟨_, _, fields, _, parsed⟩ := accepted
  exact ⟨fields, parsed⟩

theorem jobKeys_of_decode {id : String} {decoded : DecodedId} (read : decode id = .ok decoded) :
    (∀ backend : ClaimBackend, ∃ key, backend.jobKey id = .ok key) ∧
      ∃ key, memoryJobKey id = .ok key := by
  refine ⟨?_, by simp [memoryJobKey, read]⟩
  intro backend
  cases backend with
  | nats => simp [ClaimBackend.jobKey, natsJobKey, read]
  | tikv => simp [ClaimBackend.jobKey, tikvJobKey, read]

end Accepted

section Startups

theorem brokerIdOf_inj {site env other name : String} {slot number : Nat} (siteOk : ValidTag site)
    (envOk : ValidTag env) (otherOk : ValidTag other) (nameOk : ValidTag name)
    (same : brokerIdOf site env slot = brokerIdOf other name number) :
    site = other ∧ env = name ∧ slot = number := by
  have dash : "-".toList = ['-'] := by decide
  have outside : ¬isTagChar '-' := by simp [isTagChar]
  have chars : ∀ (s e : String) (n : Nat), (brokerIdOf s e n).toList =
      s.toList ++ '-' :: (e.toList ++ '-' :: n.repr.toList) := by
    intro s e n
    simp only [brokerIdOf, String.toList_append, toString, dash, List.append_assoc,
      List.cons_append, List.nil_append]
  have whole := congrArg String.toList same
  rw [chars, chars] at whole
  obtain ⟨sites, whole⟩ := Hex.word_inj (not_mem_of_validTag siteOk outside)
    (not_mem_of_validTag otherOk outside) whole
  obtain ⟨envs, slots⟩ := Hex.word_inj (not_mem_of_validTag envOk outside)
    (not_mem_of_validTag nameOk outside) whole
  exact ⟨String.toList_injective sites, String.toList_injective envs,
    Nat.repr_inj.mp (String.toList_injective slots)⟩

/-- A broker whose start was accepted, and which got its slot from the call `i` of a store. -/
structure Started (s : SlotState) (i : Nat) (boot : Boot) : Prop where
  parsed : ∃ (libs : Libraries) (world : Outside) (config : String) (slot : Fin (u16Max + 1)),
    parseBootstrap libs world config = .ok boot ∧ world.allocation = .slot slot ∧
      ∃ call, s.calls[i]? = some call ∧
        call.pair = (boot.runtimeConfig.site, boot.runtimeConfig.env) ∧
        call.pc = .done (.ok slot)
  stored : boot.runtimeConfig.jobStore.isSome = true

theorem Started.slot {s : SlotState} {i : Nat} {boot : Boot} (started : Started s i boot) :
    ValidTag boot.runtimeConfig.site ∧ ValidTag boot.runtimeConfig.env ∧
      s.calls[i]? = some ⟨(boot.runtimeConfig.site, boot.runtimeConfig.env),
        .done (.ok boot.runtimeConfig.brokerSlot)⟩ := by
  obtain ⟨libs, world, config, slot, accepted, given, ⟨pair, pc⟩, present, tags, done⟩ :=
    started.parsed
  obtain ⟨fields, parsed⟩ := parseBootstrap_ok accepted
  obtain ⟨⟨_, _, _, sound⟩, _, took⟩ := parseFields_ok parsed
  obtain ⟨other, also, same⟩ := took started.stored
  rw [given] at also
  cases also
  cases tags
  cases done
  refine ⟨sound.site, sound.env, ?_⟩
  rw [same]
  exact present

/-- Two finished allocations of one pair have different slots. -/
theorem slot_ne {backend : SlotBackend} {s : SlotState} (wf : SlotWf backend s)
    {i j : Nat} {pair : String × String} {slot : Nat}
    (left : s.calls[i]? = some ⟨pair, .done (.ok slot)⟩)
    (right : s.calls[j]? = some ⟨pair, .done (.ok slot)⟩) : i = j := by
  have leftGrant := (wf.returned i _ slot left).mp rfl
  have rightGrant := (wf.returned j _ slot right).mp rfl
  have distinct : (s.slotsOf pair).Nodup := by
    rw [wf.sequence]
    exact List.nodup_range
  have same := List.inj_on_of_nodup_map distinct
    (List.mem_filter.mpr ⟨leftGrant, by simp⟩) (List.mem_filter.mpr ⟨rightGrant, by simp⟩) rfl
  exact congrArg SlotGrant.call same

/-- Five random bytes. -/
def RandomBytes (random : List Nat) : Prop := random.length = 5 ∧ ∀ byte ∈ random, byte < 256

theorem range_of_timestampSeconds {now seconds : Nat} (read : timestampSeconds now = .ok seconds) :
    customEpoch ≤ now ∧ now < customEpoch + 2 ^ 32 * 1000000000 := by
  unfold timestampSeconds at read
  split at read
  · cases read
  next after =>
    simp only at read
    split at read
    next bound =>
      have whole := (Nat.div_lt_iff_lt_mul (by decide)).mp bound
      omega
    · cases read

theorem Started.owner {s : SlotState} {i : Nat} {boot : Boot} (started : Started s i boot)
    {now : Nat} {random : List Nat} (drawn : RandomBytes random) {id : String}
    (made : (fromRuntimeConfig boot.runtimeConfig).newJobId now random = .ok id) :
    slotFromJobId id = .ok (fromRuntimeConfig boot.runtimeConfig).brokerId := by
  obtain ⟨site, env, _⟩ := started.slot
  obtain ⟨libs, world, config, _, accepted, _⟩ := started.parsed
  obtain ⟨fields, parsed⟩ := parseBootstrap_ok accepted
  obtain ⟨⟨_, _, _, sound⟩, _, _⟩ := parseFields_ok parsed
  have encoded : encodeWithFixedRandom boot.runtimeConfig.site boot.runtimeConfig.env
      boot.runtimeConfig.brokerSlot now random = .ok id := made
  have clock : ∃ seconds, timestampSeconds now = .ok seconds := by
    simp only [encodeWithFixedRandom, bind_ok_iff] at encoded
    obtain ⟨_, _, _, _, seconds, read, _⟩ := encoded
    exact ⟨seconds, read⟩
  obtain ⟨seconds, read⟩ := clock
  obtain ⟨after, before⟩ := range_of_timestampSeconds read
  have slot : boot.runtimeConfig.brokerSlot < 2 ^ 16 := Nat.lt_succ_of_le sound.slot
  obtain ⟨other, back, decoded⟩ :=
    decode_encode (⟨site, env, slot, drawn.1, drawn.2, after, before⟩ : Encodable _ _ _ now random)
  have same : id = other := Except.ok.inj (encoded.symm.trans back)
  subst same
  simp [slotFromJobId, decoded, fromRuntimeConfig, brokerIdOf]

def persistentConfig : String :=
  "bits:\n  site: bol\n  env: dev\n  persistence:\n    type: nats\n    url: nats://nats:4222\n"

def persistenceSection : Json :=
  .object [("type", .string "nats"), ("url", .string "nats://nats:4222")]

def bitsSection : Json :=
  .object [("site", .string "bol"), ("env", .string "dev"), ("persistence", persistenceSection)]

def persistentBits : BitsConfig :=
  { BitsConfig.default with
    site := some (.string "bol")
    env := some (.string "dev")
    persistence := some (.nats "nats://nats:4222" "bits-jobs" "bits-leases"
      defaultBrokerLeaseTtlSecs 1 none none none) }

def persistentLibs : Libraries where
  fromYaml := fun _ => .ok (.object [("bits", bitsSection)])
  decodeBits := fun _ => .ok persistentBits
  decodeServer := fun _ => .error .invalidType
  checkMetrics := fun _ => .ok ()
  tryFromSecsF64 := fun number =>
    if number = defaultInternalPollTimeoutSecs then .ok 2500000000
    else if number = defaultReconnectBufferSecs then .ok 5000000000
    else if number = defaultPollTimeoutSecs then .ok 25000000000
    else if number = defaultBrokerLeaseTtlSecs then .ok 30000000000
    else .error "unused"
  asSecsText := fun _ => ""
  createAction := fun name _ => .error s!"Unknown action: '{name}'"
  render := fun _ => ""
  tikv := true
  nats := true

/-- The store answers the second attempt. -/
def lateStore (slot : Fin (u16Max + 1)) : Outside where
  init := fun attempt => if attempt < 2 then some "NATS init timed out after 10.0s" else none
  inRuntime := true
  allocation := .slot slot
  attempt := .served

/-- Two starts allocate their slots at the same time, and the slower one reads again. -/
def racingStarts : List SlotAction :=
  [.request "bol" "dev", .request "bol" "dev", .call 0, .call 1, .call 0, .call 1, .call 1, .call 1]

def finishedWith (s : SlotState) (i : Nat) (pair : String × String) (slot : Nat) : Bool :=
  s.calls[i]?.any fun call => decide (call.pair = pair) && match call.pc with
    | .done (.ok given) => decide (given = slot)
    | _ => false

theorem of_finishedWith {s : SlotState} {i : Nat} {pair : String × String} {slot : Nat}
    (checked : finishedWith s i pair slot = true) :
    s.calls[i]? = some ⟨pair, .done (.ok slot)⟩ := by
  obtain ⟨⟨tags, pc⟩, present, facts⟩ := (Option.any_eq_true _ _).mp checked
  rw [Bool.and_eq_true, decide_eq_true_eq] at facts
  obtain ⟨rfl, done⟩ := facts
  simp only at done
  split at done
  next given =>
    rw [of_decide_eq_true done] at present
    exact present
  · cases done

theorem persistent_boot (slot : Fin (u16Max + 1)) (small : slot = 0 ∨ slot = 1) : ∃ boot,
    parseBootstrap persistentLibs (lateStore slot) persistentConfig = .ok boot ∧
      boot.runtimeConfig.site = "bol" ∧ boot.runtimeConfig.env = "dev" ∧
      boot.runtimeConfig.jobStore.isSome = true := by
  have parsed : (parseBootstrap persistentLibs (lateStore slot) persistentConfig).toOption.any
      (fun boot => decide (boot.runtimeConfig.site = "bol" ∧ boot.runtimeConfig.env = "dev") &&
        boot.runtimeConfig.jobStore.isSome) = true := by
    rcases small with rfl | rfl
    · decide +kernel
    · decide +kernel
  obtain ⟨boot, accepted, facts⟩ := (Option.any_eq_true _ _).mp parsed
  rw [Bool.and_eq_true, decide_eq_true_eq] at facts
  refine ⟨boot, ?_, facts.1.1, facts.1.2, facts.2⟩
  cases result : parseBootstrap persistentLibs (lateStore slot) persistentConfig with
  | error e => simp [result, Except.toOption] at accepted
  | ok other =>
      simp only [result, Except.toOption, Option.some.injEq] at accepted
      rw [accepted]

/-- What `parse_bootstrap` accepts can be run: the durations and limits are positive, a record is
written before the first poll of its job times out, the routes are valid, and until the clock of
the identifiers ends the broker can make an identifier, which names the broker as the owner and
which every store takes. -/
theorem accepted_config_sound {libs : Libraries} {world : Outside} {config : String} {boot : Boot}
    (accepted : parseBootstrap libs world config = .ok boot) :
    (∃ pollTimeout, libs.tryFromSecsF64 boot.serverConfig.pollTimeoutSecs = .ok pollTimeout ∧
      0 < pollTimeout ∧ boot.runtimeConfig.Sound pollTimeout) ∧
    0 < boot.serverConfig.retryAfterSecs ∧
    ∀ (now : Nat) (random : List Nat), customEpoch ≤ now →
      now < customEpoch + 2 ^ 32 * 1000000000 → random.length = 5 → (∀ byte ∈ random, byte < 256) →
      ∃ id, (fromRuntimeConfig boot.runtimeConfig).newJobId now random = .ok id ∧
        slotFromJobId id = .ok (fromRuntimeConfig boot.runtimeConfig).brokerId ∧
        (∀ backend : ClaimBackend, ∃ key, backend.jobKey id = .ok key) ∧
        ∃ key, memoryJobKey id = .ok key := by
  obtain ⟨fields, parsed⟩ := parseBootstrap_ok accepted
  obtain ⟨⟨pollTimeout, read, positive, sound⟩, retry, _⟩ := parseFields_ok parsed
  refine ⟨⟨pollTimeout, read, positive, sound⟩, retry, ?_⟩
  intro now random after before five bytes
  have slot : boot.runtimeConfig.brokerSlot < 2 ^ 16 := Nat.lt_succ_of_le sound.slot
  have fits : Encodable boot.runtimeConfig.site boot.runtimeConfig.env
      boot.runtimeConfig.brokerSlot now random :=
    ⟨sound.site, sound.env, slot, five, bytes, after, before⟩
  obtain ⟨id, encoded, back⟩ := decode_encode fits
  refine ⟨id, encoded, ?_, jobKeys_of_decode back⟩
  simp [slotFromJobId, back, fromRuntimeConfig, brokerIdOf]

theorem accepted_config_sound_persistent :
    ∃ boot, parseBootstrap persistentLibs (lateStore 0) persistentConfig = .ok boot ∧
      0 < boot.serverConfig.retryAfterSecs ∧ ∃ id,
        (fromRuntimeConfig boot.runtimeConfig).newJobId customEpoch [1, 2, 3, 4, 5] = .ok id ∧
        slotFromJobId id = .ok (fromRuntimeConfig boot.runtimeConfig).brokerId := by
  obtain ⟨boot, accepted, _⟩ := persistent_boot 0 (Or.inl rfl)
  obtain ⟨_, retry, mints⟩ := accepted_config_sound accepted
  obtain ⟨id, made, owner, _⟩ := mints customEpoch [1, 2, 3, 4, 5] le_rfl (by decide) rfl (by decide)
  exact ⟨boot, accepted, retry, id, made, owner⟩

/-- Whatever the order in which brokers start against one store, two of them have different
identities, and no identifier that one of them makes is taken for a job of the other. -/
theorem started_brokers_differ {backend : SlotBackend} {s : SlotState}
    (reachable : Reachable (slotStep backend) (ValidRequest backend) SlotState.new s)
    {i j : Nat} {left right : Boot} (first : Started s i left) (last : Started s j right)
    (apart : i ≠ j) :
    (fromRuntimeConfig left.runtimeConfig).brokerId ≠
      (fromRuntimeConfig right.runtimeConfig).brokerId ∧
    ∀ (now later : Nat) (random bytes : List Nat) (id other : String),
      RandomBytes random → RandomBytes bytes →
      (fromRuntimeConfig left.runtimeConfig).newJobId now random = .ok id →
      (fromRuntimeConfig right.runtimeConfig).newJobId later bytes = .ok other →
        id ≠ other ∧
          slotFromJobId id ≠ .ok (fromRuntimeConfig right.runtimeConfig).brokerId := by
  obtain ⟨actions, path⟩ := reachable
  have wf := (SlotWf.initial backend).path path
  obtain ⟨leftSite, leftEnv, leftCall⟩ := first.slot
  obtain ⟨rightSite, rightEnv, rightCall⟩ := last.slot
  have differ : (fromRuntimeConfig left.runtimeConfig).brokerId ≠
      (fromRuntimeConfig right.runtimeConfig).brokerId := by
    intro same
    obtain ⟨sites, envs, slots⟩ := brokerIdOf_inj leftSite leftEnv rightSite rightEnv same
    rw [sites, envs, slots] at leftCall
    exact apart (slot_ne wf leftCall rightCall)
  refine ⟨differ, ?_⟩
  intro now later random bytes id other drawn drawnToo made madeToo
  have owner := first.owner drawn made
  have ownerToo := last.owner drawnToo madeToo
  constructor
  · rintro rfl
    rw [owner] at ownerToo
    exact differ (Except.ok.inj ownerToo)
  · intro same
    rw [owner] at same
    exact differ (Except.ok.inj same)

theorem started_brokers_differ_racing :
    ∃ (s : SlotState) (left right : Boot),
      Path (slotStep .nats) (ValidRequest .nats) SlotState.new racingStarts s ∧
      Started s 0 left ∧ Started s 1 right ∧
      (fromRuntimeConfig left.runtimeConfig).brokerId ≠
        (fromRuntimeConfig right.runtimeConfig).brokerId := by
  have ran : (run (fun s action => if Scenario.requestsTags s action then slotStep .nats s action
      else none) SlotState.new racingStarts).any (fun s =>
        finishedWith s 0 ("bol", "dev") 0 && finishedWith s 1 ("bol", "dev") 1) = true := by
    decide +kernel
  obtain ⟨s, finished, checked⟩ := (Option.any_eq_true _ _).mp ran
  rw [Bool.and_eq_true] at checked
  have path := Path.of_run_if (Scenario.requestsTags_sound .nats) _ _ finished
  have boots : ∀ (i : Nat) (slot : Fin (u16Max + 1)), slot = 0 ∨ slot = 1 →
      finishedWith s i ("bol", "dev") slot = true → ∃ boot, Started s i boot := by
    intro i slot small done
    obtain ⟨boot, accepted, site, env, stored⟩ := persistent_boot slot small
    refine ⟨boot, ⟨_, _, _, slot, accepted, rfl, ⟨("bol", "dev"), .done (.ok slot)⟩, ?_, ?_, rfl⟩,
      stored⟩
    · exact of_finishedWith done
    · rw [site, env]
  obtain ⟨left, first⟩ := boots 0 0 (Or.inl rfl) checked.1
  obtain ⟨right, last⟩ := boots 1 1 (Or.inr rfl) checked.2
  exact ⟨s, left, right, path, first, last,
    (started_brokers_differ ⟨_, path⟩ first last (by decide)).1⟩

end Startups

section Init

variable {init : Nat → Option String}

/-- What a loop reports that starts with the attempt `attempt` and may make `left` more. -/
structure InitReport.Follows (report : InitReport) (init : Nat → Option String)
    (left attempt delay : Nat) : Prop where
  calls : 1 ≤ report.calls ∧ report.calls ≤ left + 1
  failed (k : Nat) : attempt ≤ k → k + 1 < attempt + report.calls → init k ≠ none
  lastErr (last : Nat) : last + 1 = attempt + report.calls → report.lastErr = init last
  exhausted : report.lastErr ≠ none → report.calls = left + 1
  sleeps : report.sleeps = (List.range (report.calls - 1)).map fun i =>
    min (delay * 2 ^ i) maxInitDelay

theorem capped_double (delay i : Nat) :
    min (min (delay * 2) maxInitDelay * 2 ^ i) maxInitDelay =
      min (delay * 2 ^ (i + 1)) maxInitDelay := by
  have grown : delay * 2 ^ (i + 1) = delay * 2 * 2 ^ i := by rw [Nat.pow_succ']; ring
  have positive : 1 ≤ 2 ^ i := Nat.one_le_two_pow
  rw [grown]
  by_cases low : delay * 2 ≤ maxInitDelay
  · rw [Nat.min_eq_left low]
  · have high : maxInitDelay ≤ delay * 2 := by omega
    have beyond : maxInitDelay ≤ maxInitDelay * 2 ^ i := Nat.le_mul_of_pos_right _ positive
    have further : maxInitDelay * 2 ^ i ≤ delay * 2 * 2 ^ i := Nat.mul_le_mul_right _ high
    rw [Nat.min_eq_right high, Nat.min_eq_right beyond, Nat.min_eq_right (beyond.trans further)]

/-- A failed attempt, the sleep after it, and the rest of the loop. -/
theorem InitReport.Follows.retry {rest : InitReport} {left attempt delay : Nat} {reason : String}
    (short : delay ≤ maxInitDelay) (first : init attempt = some reason)
    (follows : rest.Follows init left (attempt + 1) (min (delay * 2) maxInitDelay)) :
    InitReport.Follows ⟨rest.lastErr, rest.calls + 1, delay :: rest.sleeps⟩ init (left + 1) attempt
      delay := by
  obtain ⟨some_, bound⟩ := follows.calls
  refine ⟨⟨Nat.le_add_left 1 _, Nat.succ_le_succ bound⟩, ?_, ?_, ?_, ?_⟩
  · intro k from_ below
    by_cases here : k = attempt
    · rw [here, first]
      simp
    · have below : k + 1 < attempt + (rest.calls + 1) := below
      exact follows.failed k (by omega) (by omega)
  · intro last same
    have same : last + 1 = attempt + (rest.calls + 1) := same
    exact follows.lastErr last (by omega)
  · intro failed
    exact congrArg (· + 1) (follows.exhausted failed)
  · show delay :: rest.sleeps = (List.range rest.calls).map _
    obtain ⟨count, counted⟩ : ∃ count, rest.calls = count + 1 := ⟨rest.calls - 1, by omega⟩
    rw [follows.sleeps, counted, List.range_succ_eq_map, List.map_cons, List.map_map]
    refine congrArg₂ List.cons ?_ ?_
    · rw [Nat.pow_zero, Nat.mul_one, Nat.min_eq_left short]
    · apply List.map_congr_left
      intro i _
      exact capped_double delay i

theorem natsInitFrom_follows (left : Nat) : ∀ (attempt : Nat) {delay : Nat},
    delay ≤ maxInitDelay →
      (natsInitFrom init left attempt delay).Follows init left attempt delay := by
  induction left with
  | zero =>
      intro attempt delay short
      refine ⟨⟨le_rfl, le_rfl⟩, ?_, ?_, fun _ => rfl, rfl⟩
      · intro k from_ below
        have below : k + 1 < attempt + 1 := below
        omega
      · intro last same
        have here : last = attempt := Nat.succ_injective same
        rw [here]
        rfl
  | succ left ih =>
      intro attempt delay short
      simp only [natsInitFrom]
      cases first : init attempt with
      | none =>
          refine ⟨⟨le_rfl, Nat.le_add_left 1 _⟩, ?_, ?_, fun failed => absurd rfl failed, rfl⟩
          · intro k from_ below
            have below : k + 1 < attempt + 1 := below
            omega
          · intro last same
            have here : last = attempt := Nat.succ_injective same
            rw [here, first]
      | some reason =>
          exact (ih (attempt + 1) (Nat.min_le_right (delay * 2) maxInitDelay)).retry short first

/-- The loop asks at most `maxAttempts` times and stops at the first attempt that succeeds, sleeps
one, two, four and eight seconds and then ten each time, and ends with an error only when every
attempt has failed, with the error of the last one. -/
theorem nats_init_retries {maxAttempts : Nat} (positive : 0 < maxAttempts)
    (init : Nat → Option String) {report : InitReport} (ran : natsInit init maxAttempts = report) :
    (1 ≤ report.calls ∧ report.calls ≤ maxAttempts) ∧
    (∀ attempt, 1 ≤ attempt → attempt < report.calls → init attempt ≠ none) ∧
    report.lastErr = init report.calls ∧
    (report.lastErr = none ↔ ∃ attempt, 1 ≤ attempt ∧ attempt ≤ maxAttempts ∧ init attempt = none) ∧
    (report.lastErr ≠ none → report.calls = maxAttempts) ∧
    report.sleeps = (List.range (report.calls - 1)).map fun i => min (second * 2 ^ i) maxInitDelay := by
  have follows : report.Follows init (maxAttempts - 1) 1 second := by
    rw [← ran]
    exact natsInitFrom_follows (maxAttempts - 1) 1 (by decide)
  obtain ⟨some_, bound⟩ := follows.calls
  have earlier : ∀ attempt, 1 ≤ attempt → attempt < report.calls → init attempt ≠ none := by
    intro attempt from_ below
    exact follows.failed attempt from_ (by omega)
  have last : report.lastErr = init report.calls := follows.lastErr report.calls (by omega)
  have exhausted : report.lastErr ≠ none → report.calls = maxAttempts := by
    intro failed
    have all := follows.exhausted failed
    omega
  refine ⟨⟨some_, by omega⟩, earlier, last, ⟨?_, ?_⟩, exhausted, follows.sleeps⟩
  · intro succeeded
    exact ⟨report.calls, some_, by omega, last.symm.trans succeeded⟩
  · rintro ⟨attempt, from_, upTo, succeeded⟩
    by_contra failed
    have all := exhausted failed
    by_cases final : attempt = report.calls
    · rw [final, ← last] at succeeded
      exact failed succeeded
    · exact earlier attempt from_ (by omega) succeeded

/-- The first two attempts find no server. -/
theorem nats_init_retries_late :
    (natsInit (fun attempt => if attempt ≤ 2 then some "NATS connect failed" else none) 6).calls ≤ 6 ∧
      (natsInit (fun attempt => if attempt ≤ 2 then some "NATS connect failed" else none) 6).lastErr =
        none := by
  have retries := @nats_init_retries 6 (by decide)
    (fun attempt => if attempt ≤ 2 then some "NATS connect failed" else none) _ rfl
  exact ⟨retries.1.2, retries.2.2.2.1.mpr ⟨3, by decide, by decide, rfl⟩⟩

end Init

end Bootstrap

end BitsBroker
