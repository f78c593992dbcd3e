import BitsBroker.Job
import BitsBroker.Lib.PathPattern
import BitsBroker.RequestId
import BitsBroker.WorkerServer
import Mathlib.Data.List.TakeWhile

/-!
How a request of a worker finds its handler. The first segment of the path names the pool, the rest
goes to the router that the pool registered, and that router has six routes. What the HTTP library
does with the texts of a URI is a parameter: it parses a path with its query, and it decodes the text
of a path segment.

The registrations of a run are read off its actions: a call registers its router when it enters, and
only under a valid name. The pools of the listener are what was registered last under each name.
-/

namespace BitsBroker

open Transition Table

namespace WorkerRoutes

structure Uri where
  scheme : Option String
  authority : Option String
  path : String
  query : Option String
deriving Repr, DecidableEq

structure HttpRequest where
  method : String
  uri : Uri
  headers : List (String × List UInt8)
  body : ByteStream

structure HttpRules where
  parsePathAndQuery : String → Option (String × Option String)
  decodeSegment : List Char → Option String

def pathAndQuery (path : String) (query : Option String) : String :=
  match query with
  | some q => s!"{path}?{q}"
  | none => path

/-- A URI needs a scheme and an authority, or neither. -/
def Uri.fromParts (uri : Uri) : Option Uri :=
  if uri.scheme.isSome = uri.authority.isSome then some uri else none

def callbackUrl (advertisedAddr : Option String) (poolName : String) : Option String :=
  advertisedAddr.map fun addr => s!"http://{PathPattern.trimEndSlashes addr}/{poolName}"

def extractPoolAndRest (path : String) : String × String :=
  let afterSlash := match path.toList with
    | '/' :: rest => rest
    | chars => chars
  match afterSlash.findIdx? (· == '/') with
  | some pos => (String.ofList (afterSlash.take pos), String.ofList (afterSlash.drop pos))
  | none => if afterSlash.isEmpty then ("", "/") else (String.ofList afterSlash, "/")

inductive Dispatched where
  | response (status : Nat) (body : String)
  | routed (router : Nat) (request : HttpRequest)

def noPoolSpecified (available : String) : String :=
  s!"no pool specified; available pools: [{available}]"

def poolNotFound (poolName available : String) : String :=
  s!"pool '{poolName}' not found; available pools: [{available}]"

/-- `keys` are the names of the pools in the order of the hash map. -/
def dispatchToPool (http : HttpRules) (pools : HashMap String Nat) (keys : List String)
    (request : HttpRequest) : Dispatched :=
  let (poolName, restPath) := extractPoolAndRest request.uri.path
  let available := ", ".intercalate keys
  if poolName.isEmpty then .response 404 (noPoolSpecified available)
  else match pools.lookup poolName with
    | none => .response 404 (poolNotFound poolName available)
    | some router =>
        match http.parsePathAndQuery (pathAndQuery restPath request.uri.query) with
        | none => .response 400 "invalid request path"
        | some (path, query) =>
            match Uri.fromParts { request.uri with path := path, query := query } with
            | none => .response 400 "invalid request URI"
            | some uri => .routed router { request with uri := uri }

inductive Verb where
  | get
  | post
deriving Repr, DecidableEq

def Verb.allows : Verb → String → Bool
  | .get, method => method == "GET" || method == "HEAD"
  | .post, method => method == "POST"

inductive Handler where
  | getWork
  | heartbeat
  | completeData
  | completeRedirect
  | completeReject
  | completeError
deriving Repr, DecidableEq

def schedulerRoutes : List (String × Verb × Handler) :=
  [("/work", .get, .getWork),
   ("/heartbeat/{job_id}", .post, .heartbeat),
   ("/complete/data/{job_id}", .post, .completeData),
   ("/complete/redirect/{job_id}", .post, .completeRedirect),
   ("/complete/reject/{job_id}", .post, .completeReject),
   ("/complete/error/{job_id}", .post, .completeError)]

def segments (path : String) : List (List Char) := path.toList.splitOn '/'

def patternOf (route : String) : PathPattern.Pattern Char :=
  (segments route).map fun segment =>
    if segment.head? = some '{' then .param else .literal segment

def routeTable : List (PathPattern.Pattern Char × Verb × Handler) :=
  schedulerRoutes.map fun route => (patternOf route.1, route.2)

inductive PoolReply where
  | handled (handler : Handler) (jobId : Option String)
  | status (code : Nat)
deriving Repr, DecidableEq

def jobIdOf (http : HttpRules) : List (List Char) → Option (Option String)
  | [] => some none
  | segment :: _ => (http.decodeSegment segment).map some

def callRouter (http : HttpRules) (request : HttpRequest) : PoolReply :=
  match PathPattern.route routeTable (segments request.uri.path) with
  | none => .status 404
  | some ((verb, handler), params) =>
      if verb.allows request.method then
        match jobIdOf http params with
        | some jobId => .handled handler jobId
        | none => .status 400
      else .status 405

inductive WorkerAnswer where
  | response (status : Nat) (body : String)
  | pool (router : Nat) (reply : PoolReply)
deriving Repr, DecidableEq

def workerCall (http : HttpRules) (pools : HashMap String Nat) (keys : List String)
    (request : HttpRequest) : WorkerAnswer :=
  match dispatchToPool http pools keys request with
  | .response status body => .response status body
  | .routed router request => .pool router (callRouter http request)

/-- The registration that an action of the listener makes, if it makes one. -/
def registered (requests : List WorkerListener.Request) :
    WorkerListener.Action → Option (String × Nat)
  | .move i .enter => match requests[i]? with
      | some (.registerPool poolName router) => match validatePoolName poolName with
          | .ok () => some (poolName, router)
          | .error _ => none
      | _ => none
  | _ => none

/-- The registrations of a run, in their order. -/
def registrations (requests : List WorkerListener.Request) :
    List WorkerListener.Action → List (String × Nat)
  | [] => []
  | .call request :: rest => registrations (requests ++ [request]) rest
  | action :: rest => (registered requests action).toList ++ registrations requests rest

def lastRegistered (log : List (String × Nat)) (poolName : String) : Option Nat :=
  ((log.filter (·.1 == poolName)).getLast?).map (·.2)

def requestOf : WorkerListener.Action → Option WorkerListener.Request
  | .call request => some request
  | .move _ _ => none

section Registered

theorem lastRegistered_snoc (log : List (String × Nat)) (entry : String × Nat)
    (poolName : String) : lastRegistered (log ++ [entry]) poolName =
      if poolName = entry.1 then some entry.2 else lastRegistered log poolName := by
  by_cases same : poolName = entry.1
  · simp [lastRegistered, List.filter_append, same]
  · have other : ¬ entry.1 = poolName := fun eq => same eq.symm
    simp [lastRegistered, List.filter_append, same, other]

theorem registrations_snoc (action : WorkerListener.Action) (actions : List WorkerListener.Action) :
    ∀ requests, registrations requests (actions ++ [action]) = registrations requests actions ++
      (registered (requests ++ actions.filterMap requestOf) action).toList := by
  induction actions with
  | nil =>
      intro requests
      cases action with
      | call request => simp [registrations, registered]
      | move i move => simp [registrations]
  | cons first rest ih =>
      intro requests
      cases first with
      | call request => simp [registrations, ih, requestOf]
      | move i move => simp [registrations, ih, requestOf, List.filterMap_cons]

/-- What the listener keeps of a run: its calls in their order, and the last registrations. -/
structure Tracks (actions : List WorkerListener.Action) (s : WorkerListener.Server) : Prop where
  calls : s.calls.map (·.request) = actions.filterMap requestOf
  pools : ∀ poolName, s.pools.lookup poolName = lastRegistered (registrations [] actions) poolName

theorem calls_moved (s : WorkerListener.Server) {i : Nat} {call : WorkerListener.Call}
    (found : s.calls[i]? = some call) (pc : WorkerListener.Pc) :
    (s.moved i call pc).calls.map (·.request) = s.calls.map (·.request) := by
  obtain ⟨bound, present⟩ := List.getElem?_eq_some_iff.mp found
  simp only [WorkerListener.Server.moved, List.map_set]
  apply List.ext_getElem (by simp)
  intro j short _
  by_cases here : i = j
  · subst here
    simp [present]
  · simp [List.getElem_set_ne here]

theorem Tracks.moved {actions : List WorkerListener.Action} {before s : WorkerListener.Server}
    (tracks : Tracks actions before) {i : Nat} {call : WorkerListener.Call}
    (found : before.calls[i]? = some call) (calls : s.calls = before.calls)
    (move : WorkerListener.Move)
    (pools : ∀ poolName, s.pools.lookup poolName = lastRegistered (registrations [] actions ++
      (registered (actions.filterMap requestOf) (.move i move)).toList) poolName)
    (pc : WorkerListener.Pc) : Tracks (actions ++ [.move i move]) (s.moved i call pc) := by
  constructor
  · rw [calls_moved s (calls ▸ found), calls, tracks.calls]
    simp [List.filterMap_append, requestOf]
  · intro poolName
    rw [registrations_snoc, List.nil_append]
    exact pools poolName

theorem Tracks.enter {actions : List WorkerListener.Action} {s : WorkerListener.Server}
    (tracks : Tracks actions s) {i : Nat} {call : WorkerListener.Call}
    (found : s.calls[i]? = some call) :
    Tracks (actions ++ [.move i .enter]) (WorkerListener.enter s i call) := by
  have known : (actions.filterMap requestOf)[i]? = some call.request := by
    rw [← tracks.calls, List.getElem?_map, found, Option.map_some]
  unfold WorkerListener.enter
  cases request : call.request with
  | start =>
      rw [request] at known
      have same : ∀ poolName, s.pools.lookup poolName = lastRegistered (registrations [] actions ++
          (registered (actions.filterMap requestOf) (.move i .enter)).toList) poolName := by
        intro poolName
        simpa [registered, known] using tracks.pools poolName
      by_cases empty : s.pools.entries.isEmpty = true
      · simpa [empty] using tracks.moved found rfl .enter same .idle
      · simpa [empty] using tracks.moved found rfl .enter same .checking
  | registerPool poolName router =>
      rw [request] at known
      cases valid : validatePoolName poolName with
      | error e =>
          simp only [valid]
          refine tracks.moved found rfl .enter ?_ _
          intro other
          simpa [registered, known, valid] using tracks.pools other
      | ok done =>
          have made : registered (actions.filterMap requestOf) (.move i .enter) =
              some (poolName, router) := by simp [registered, known, valid]
          simp only [valid]
          refine Tracks.moved (s := { s with pools := AList.insert poolName router s.pools }) tracks
            found rfl .enter ?_ _
          intro other
          rw [made, Option.toList_some, lastRegistered_snoc, HashMap.lookup_insert_eq,
            tracks.pools]

theorem Tracks.of_path {host : String} {port : Nat} {actions : List WorkerListener.Action}
    {s : WorkerListener.Server}
    (path : Path WorkerListener.step Always (WorkerListener.new host port) actions s) :
    Tracks actions s := by
  induction path with
  | nil => exact ⟨rfl, fun _ => rfl⟩
  | @snoc actions s action next path permitted taken ih =>
      cases action with
      | call request =>
          cases taken
          refine ⟨by simp [ih.calls, requestOf], fun poolName => ?_⟩
          rw [registrations_snoc]
          simpa [registered] using ih.pools poolName
      | move i move =>
          obtain ⟨call, found, moves⟩ := Option.bind_eq_some_iff.mp taken
          have quiet : ∀ other, other ≠ WorkerListener.Move.enter → ∀ poolName,
              s.pools.lookup poolName = lastRegistered (registrations [] actions ++
                (registered (actions.filterMap requestOf) (.move i other)).toList) poolName := by
            intro other silent poolName
            cases other with
            | enter => exact absurd rfl silent
            | check | set | bind => simpa [registered] using ih.pools poolName
          unfold WorkerListener.moveCall at moves
          split at moves
          next =>
            cases moves
            exact ih.enter found
          next =>
            cases moves
            exact ih.moved found rfl _ (quiet _ (by simp)) _
          next =>
            cases moves
            exact Tracks.moved (s := { s with started := true }) ih found rfl _
              (quiet _ (by simp)) _
          next attempt binding =>
            cases moves
            cases attempt with
            | served =>
                exact Tracks.moved (s := { s with listening := true }) ih found rfl _
                  (quiet _ (by simp)) _
            | unbound e | blocking e | unconverted e =>
                exact Tracks.moved (s := { s with failed := true }) ih found rfl _
                  (quiet _ (by simp)) _
          next => cases moves

theorem valid_of_made {requests : List WorkerListener.Request} {action : WorkerListener.Action}
    {entry : String × Nat} (made : registered requests action = some entry) :
    validatePoolName entry.1 = .ok () := by
  unfold registered at made
  split at made
  next i =>
    split at made
    next poolName router _ =>
      cases valid : validatePoolName poolName with
      | error e => simp [valid] at made
      | ok done =>
          simp only [valid, Option.some.injEq] at made
          subst made
          exact valid
    next => cases made
  next => cases made

/-- Only valid names are registered. -/
theorem valid_of_registered {requests : List WorkerListener.Request}
    {actions : List WorkerListener.Action} {entry : String × Nat}
    (member : entry ∈ registrations requests actions) : validatePoolName entry.1 = .ok () := by
  induction actions generalizing requests with
  | nil => simp [registrations] at member
  | cons action rest ih =>
      cases action with
      | call request => exact ih member
      | move i move =>
          rcases List.mem_append.mp member with here | later
          · rw [Option.mem_toList] at here
            exact valid_of_made here
          · exact ih later

theorem slash_not_mem {poolName : String} (valid : validatePoolName poolName = .ok ()) :
    poolName ≠ "" ∧ '/' ∉ poolName.toList := by
  unfold validatePoolName at valid
  split at valid
  next => cases valid
  next filled =>
    split at valid
    next => cases valid
    next clean =>
      refine ⟨fun empty => filled (by simp [empty]), fun slash => ?_⟩
      have refused := List.find?_eq_none.mp clean '/' slash
      exact refused (by decide)

theorem valid_of_lastRegistered {actions : List WorkerListener.Action} {poolName : String}
    {router : Nat} (last : lastRegistered (registrations [] actions) poolName = some router) :
    validatePoolName poolName = .ok () := by
  obtain ⟨entry, found, -⟩ := Option.map_eq_some_iff.mp last
  have member := List.mem_of_getLast? found
  obtain ⟨logged, same⟩ := List.mem_filter.mp member
  have name : entry.1 = poolName := by simpa using same
  rw [← name]
  exact valid_of_registered logged

end Registered

section Dispatch

/-- A URI as the HTTP library hands it over: the text of its path and query parses to them. -/
structure HttpRules.Received (http : HttpRules) (uri : Uri) : Prop where
  formed : uri.path = "" ∨ uri.path = "*" ∨ uri.path.toList.head? = some '/'
  parts : uri.path.toList.head? = some '/' → uri.scheme.isSome = uri.authority.isSome
  parsed : uri.path.toList.head? = some '/' →
    http.parsePathAndQuery (pathAndQuery uri.path uri.query) = some (uri.path, uri.query)

/-- What is left of a path from a slash on is a path again, and a text without percent signs decodes
to itself. -/
structure HttpRules.Lawful (http : HttpRules) : Prop where
  plain : ∀ text : List Char, '%' ∉ text → http.decodeSegment text = some (String.ofList text)
  tail : ∀ (front rest : List Char) (query : Option String),
    http.parsePathAndQuery (pathAndQuery (String.ofList (front ++ '/' :: rest)) query) =
      some (String.ofList (front ++ '/' :: rest), query) →
    http.parsePathAndQuery (pathAndQuery (String.ofList ('/' :: rest)) query) =
      some (String.ofList ('/' :: rest), query)
  root : ∀ (path : String) (query : Option String),
    http.parsePathAndQuery (pathAndQuery path query) = some (path, query) →
    http.parsePathAndQuery (pathAndQuery "/" query) = some ("/", query)

/-- The request is for the pool of that name, with that rest of the path. -/
def Addresses (request : HttpRequest) (poolName : String) (rest : List Char) : Prop :=
  request.uri.path.toList = '/' :: (poolName.toList ++ rest) ∧
    (rest = [] ∨ rest.head? = some '/')

def forwarded (request : HttpRequest) (rest : List Char) : HttpRequest :=
  { request with uri := { request.uri with
      path := if rest = [] then "/" else String.ofList rest } }

theorem findIdx_slash (name rest : List Char) (plain : '/' ∉ name) :
    (name ++ '/' :: rest).findIdx? (· == '/') = some name.length := by
  induction name with
  | nil => simp [List.findIdx?_cons]
  | cons ch chars ih =>
      have other : ch ≠ '/' := fun same => plain (by simp [same])
      have later := ih fun member => plain (List.mem_cons_of_mem _ member)
      simp [List.findIdx?_cons, other, later]

theorem extract_of_path {path : String} {name rest : List Char}
    (shape : path.toList = '/' :: (name ++ rest)) (plain : '/' ∉ name)
    (slash : rest = [] ∨ rest.head? = some '/') : extractPoolAndRest path =
      (String.ofList name, if rest = [] then "/" else String.ofList rest) := by
  unfold extractPoolAndRest
  rw [shape]
  cases rest with
  | nil =>
      have missing : name.findIdx? (· == '/') = none := by
        rw [List.findIdx?_eq_none_iff]
        intro ch member
        simpa using fun same : ch = '/' => plain (same ▸ member)
      simp only [List.append_nil, missing, if_true]
      cases name with
      | nil => rfl
      | cons ch chars => rfl
  | cons ch more =>
      have here : ch = '/' := by simpa using slash
      subst here
      simp only [findIdx_slash name more plain, List.take_left, List.drop_left]
      rfl

theorem path_split (chars : List Char) : ∃ name rest, chars = name ++ rest ∧ '/' ∉ name ∧
    (rest = [] ∨ rest.head? = some '/') := by
  refine ⟨chars.takeWhile (· != '/'), chars.dropWhile (· != '/'),
    List.takeWhile_append_dropWhile.symm, fun slash => ?_, ?_⟩
  · have kept := List.all_eq_true.mp (List.all_takeWhile (p := (· != '/')) (l := chars)) '/' slash
    simp at kept
  · cases rest : chars.dropWhile (· != '/') with
    | nil => exact Or.inl rfl
    | cons ch more =>
        right
        have stops := List.head_dropWhile_not (· != '/') (l := chars) (by simp [rest])
        simpa [rest] using stops

variable {http : HttpRules} {request : HttpRequest}

theorem parse_rest (lawful : http.Lawful) (received : http.Received request.uri)
    {poolName : String} {rest : List Char} (addresses : Addresses request poolName rest) :
    http.parsePathAndQuery (pathAndQuery (forwarded request rest).uri.path request.uri.query) =
      some ((forwarded request rest).uri.path, request.uri.query) := by
  obtain ⟨shape, slash⟩ := addresses
  have parsed := received.parsed (by simp [shape])
  have whole : request.uri.path = String.ofList ('/' :: (poolName.toList ++ rest)) := by
    rw [← shape, String.ofList_toList]
  cases rest with
  | nil => simpa [forwarded] using lawful.root _ _ parsed
  | cons ch more =>
      have here : ch = '/' := by simpa using slash
      subst here
      rw [whole] at parsed
      simpa [forwarded] using lawful.tail ('/' :: poolName.toList) more _ parsed

theorem dispatch_of_address (lawful : http.Lawful) (received : http.Received request.uri)
    {pools : HashMap String Nat} (keys : List String) {poolName : String} {router : Nat}
    {rest : List Char} (known : pools.lookup poolName = some router)
    (valid : validatePoolName poolName = .ok ()) (addresses : Addresses request poolName rest) :
    dispatchToPool http pools keys request = .routed router (forwarded request rest) := by
  have plain := slash_not_mem valid
  have extracted : extractPoolAndRest request.uri.path =
      (poolName, if rest = [] then "/" else String.ofList rest) := by
    rw [extract_of_path addresses.1 plain.2 addresses.2, String.ofList_toList]
  have parts := received.parts (by simp [addresses.1])
  have parsed := parse_rest lawful received addresses
  have filled : ¬ poolName.isEmpty = true := by simpa using plain.1
  simp only [forwarded] at parsed
  unfold dispatchToPool
  rw [extracted]
  simp only [if_neg filled, known, parsed, Uri.fromParts, parts, if_true]
  rfl

/-- What the server answers itself. -/
inductive NotFound (keys : List String) : Dispatched → Prop
  | unnamed : NotFound keys (.response 404 (noPoolSpecified (", ".intercalate keys)))
  | unknown (poolName : String) :
      NotFound keys (.response 404 (poolNotFound poolName (", ".intercalate keys)))

theorem dispatch_missing {pools : HashMap String Nat} (keys : List String) {poolName rest : String}
    (extracted : extractPoolAndRest request.uri.path = (poolName, rest))
    (missing : pools.lookup poolName = none) :
    NotFound keys (dispatchToPool http pools keys request) := by
  unfold dispatchToPool
  rw [extracted]
  by_cases empty : poolName.isEmpty = true
  · simp only [if_pos empty]
    exact .unnamed
  · simp only [if_neg empty, missing]
    exact .unknown poolName

theorem dispatch_of_none (received : http.Received request.uri) {pools : HashMap String Nat}
    (keys : List String)
    (valid : ∀ poolName router, pools.lookup poolName = some router →
      validatePoolName poolName = .ok ())
    (nowhere : ¬ ∃ poolName router rest, pools.lookup poolName = some router ∧
      Addresses request poolName rest) :
    NotFound keys (dispatchToPool http pools keys request) := by
  have missing : ∀ poolName, validatePoolName poolName ≠ .ok () → pools.lookup poolName = none := by
    intro poolName refused
    cases known : pools.lookup poolName with
    | none => rfl
    | some router => exact absurd (valid poolName router known) refused
  rcases received.formed with empty | star | slashed
  · exact dispatch_missing keys (by rw [empty]; rfl) (missing "" (by decide))
  · exact dispatch_missing keys (by rw [star]; rfl) (missing "*" (by decide))
  · obtain ⟨chars, shape⟩ : ∃ chars, request.uri.path.toList = '/' :: chars := by
      cases path : request.uri.path.toList with
      | nil => simp [path] at slashed
      | cons ch chars => exact ⟨chars, by simpa [path] using slashed⟩
    obtain ⟨name, rest, rfl, plain, slash⟩ := path_split chars
    refine dispatch_missing keys (extract_of_path shape plain slash) ?_
    cases known : pools.lookup (String.ofList name) with
    | none => rfl
    | some router =>
        exact absurd ⟨_, router, rest, known, by simpa using shape, slash⟩ nowhere

end Dispatch

section Examples

/-- Texts that need no decoding, read up to the first question mark. -/
def plainHttp : HttpRules where
  parsePathAndQuery text :=
    let path := String.ofList (text.toList.takeWhile (· != '?'))
    match text.toList.dropWhile (· != '?') with
    | [] => some (path, none)
    | _ :: query => some (path, some (String.ofList query))
  decodeSegment text := if '%' ∈ text then none else some (String.ofList text)

theorem plainHttp_parse (path : List Char) (query : Option String) :
    plainHttp.parsePathAndQuery (pathAndQuery (String.ofList path) query) =
      some (String.ofList path, query) ↔ '?' ∉ path := by
  constructor
  · intro parsed member
    have read : (plainHttp.parsePathAndQuery (pathAndQuery (String.ofList path) query)).map (·.1) =
        some (String.ofList ((pathAndQuery (String.ofList path) query).toList.takeWhile
          (· != '?'))) := by
      simp only [plainHttp]
      split <;> rfl
    rw [parsed, Option.map_some, Option.some.injEq] at read
    simp only at read
    rw [← String.toList_ofList (l := path), read, String.toList_ofList] at member
    have marks := List.mem_takeWhile_imp member
    simp at marks
  · intro plain
    have kept : ∀ ch ∈ path, (ch != '?') = true := by
      intro ch member
      simpa using fun same : ch = '?' => plain (same ▸ member)
    cases query with
    | none =>
        have whole := List.dropWhile_eq_nil_iff.mpr kept
        have start := List.takeWhile_eq_self_iff.mpr kept
        simp only [pathAndQuery, plainHttp, String.toList_ofList, whole, start]
    | some q =>
        have written : (s!"{String.ofList path}?{q}").toList = path ++ '?' :: q.toList := by
          simp [toString]
        simp only [pathAndQuery, plainHttp, written, List.dropWhile_append_of_pos kept,
          List.takeWhile_append_of_pos kept]
        simp

theorem plainHttp_lawful : plainHttp.Lawful where
  plain text plain := by simp [plainHttp, plain]
  tail front rest query parsed := by
    rw [plainHttp_parse] at parsed ⊢
    exact fun member => parsed (List.mem_append_right _ member)
  root path query _ := by
    have parsed := (plainHttp_parse ['/'] query).mpr (by decide)
    exact parsed

/-- Two registrations of one pool; the second call enters last. -/
def twoRegistrations : List WorkerListener.Action :=
  [.call (.registerPool "gpu" 1), .call (.registerPool "gpu" 2), .move 0 .enter, .move 1 .enter]

def reportRequest : HttpRequest where
  method := "POST"
  uri := ⟨none, none, "/gpu/complete/error/j7", some "x=1"⟩
  headers := []
  body := []

theorem reportRequest_received : plainHttp.Received reportRequest.uri where
  formed := Or.inr (Or.inr (by decide))
  parts _ := rfl
  parsed _ := (plainHttp_parse "/gpu/complete/error/j7".toList (some "x=1")).mpr (by decide)

end Examples

/-- Over every run of calls that register pools: a request goes to the router that was registered
last under the name in its path, with the rest of the path and everything else as it came, and any
other request is refused with the names that were registered. -/
theorem worker_request_dispatched {http : HttpRules} (lawful : http.Lawful) {host : String}
    {port : Nat} {actions : List WorkerListener.Action} {s : WorkerListener.Server}
    (path : Path WorkerListener.step Always (WorkerListener.new host port) actions s)
    {request : HttpRequest} (received : http.Received request.uri) {keys : List String}
    (listed : keys.Perm s.pools.keys) :
    (∀ poolName router rest,
      lastRegistered (registrations [] actions) poolName = some router →
      Addresses request poolName rest →
      dispatchToPool http s.pools keys request = .routed router (forwarded request rest)) ∧
    ((¬ ∃ poolName router rest,
      lastRegistered (registrations [] actions) poolName = some router ∧
        Addresses request poolName rest) →
      NotFound keys (dispatchToPool http s.pools keys request)) ∧
    keys.Nodup ∧ ∀ poolName, poolName ∈ keys ↔
      (lastRegistered (registrations [] actions) poolName).isSome = true := by
  have tracks := Tracks.of_path path
  refine ⟨fun poolName router rest last addresses => ?_, fun nowhere => ?_, ?_, fun poolName => ?_⟩
  · have known : s.pools.lookup poolName = some router := by rw [tracks.pools, last]
    exact dispatch_of_address lawful received keys known (valid_of_lastRegistered last) addresses
  · refine dispatch_of_none received keys (fun poolName router known => ?_) ?_
    · rw [tracks.pools] at known
      exact valid_of_lastRegistered known
    · rintro ⟨poolName, router, rest, known, addresses⟩
      rw [tracks.pools] at known
      exact nowhere ⟨poolName, router, rest, known, addresses⟩
  · exact listed.nodup_iff.mpr s.pools.keys_nodup
  · rw [listed.mem_iff, ← tracks.pools, AList.lookup_isSome]
    rfl

theorem worker_request_dispatched_twoRegistrations : ∃ s : WorkerListener.Server,
    run WorkerListener.step (WorkerListener.new "0.0.0.0" 9000) twoRegistrations = some s ∧
      dispatchToPool plainHttp s.pools ["gpu"] reportRequest =
        .routed 2 (forwarded reportRequest "/complete/error/j7".toList) := by
  have ran : (run WorkerListener.step (WorkerListener.new "0.0.0.0" 9000) twoRegistrations).any
      (fun s => decide (["gpu"] = s.pools.keys)) = true := by decide
  obtain ⟨s, finished, checked⟩ := (Option.any_eq_true _ _).mp ran
  have listed : ["gpu"].Perm s.pools.keys := by
    rw [← of_decide_eq_true checked]
  refine ⟨s, finished, ?_⟩
  apply (worker_request_dispatched plainHttp_lawful (Path.of_run _ _ finished)
    reportRequest_received listed).1 "gpu" 2
  · decide
  · exact ⟨by decide, Or.inr (by decide)⟩

section Routes

/-- The fixed segments of a route that ends in a job id. -/
def Handler.literals : Handler → List (List Char)
  | .getWork => ["".toList, "work".toList]
  | .heartbeat => ["".toList, "heartbeat".toList]
  | .completeData => ["".toList, "complete".toList, "data".toList]
  | .completeRedirect => ["".toList, "complete".toList, "redirect".toList]
  | .completeReject => ["".toList, "complete".toList, "reject".toList]
  | .completeError => ["".toList, "complete".toList, "error".toList]

def Handler.verb : Handler → Verb
  | .getWork => .get
  | _ => .post

def Handler.open_ : Handler → PathPattern.Pattern Char
  | .getWork => []
  | _ => [.param]

/-- The part of a worker's path after the name of the pool: the handler, and for all but one of them
the text of a job id. -/
inductive WorkerPath (http : HttpRules) : Handler → List Char → Option String → Prop
  | work : WorkerPath http .getWork "/work".toList none
  | job {handler : Handler} {text : List Char} {jobId : String} : handler ≠ .getWork →
      text ≠ [] → '/' ∉ text → http.decodeSegment text = some jobId →
      WorkerPath http handler (['/'].intercalate (handler.literals ++ [text])) (some jobId)

theorem routeTable_separate :
    routeTable.Pairwise fun one other => PathPattern.apart one.1 other.1 = true := by
  decide

theorem mem_routeTable (pattern : PathPattern.Pattern Char) (verb : Verb) (handler : Handler) :
    (pattern, verb, handler) ∈ routeTable ↔
      pattern = handler.literals.map .literal ++ handler.open_ ∧ verb = handler.verb := by
  have table : routeTable = [Handler.getWork, .heartbeat, .completeData, .completeRedirect,
      .completeReject, .completeError].map fun handler =>
        (handler.literals.map .literal ++ handler.open_, handler.verb, handler) := by
    decide
  rw [table, List.mem_map]
  constructor
  · rintro ⟨other, -, same⟩
    cases same
    exact ⟨rfl, rfl⟩
  · rintro ⟨rfl, rfl⟩
    exact ⟨handler, by cases handler <;> decide, rfl⟩

theorem not_mem_of_mem_splitOn (chars : List Char) : ∀ segment ∈ chars.splitOn '/',
    '/' ∉ segment := by
  induction chars with
  | nil => simp
  | cons ch rest ih =>
      intro segment member
      rw [List.splitOn_cons_eq_if_modifyHead] at member
      by_cases slash : ch = '/'
      · simp only [slash, beq_self_eq_true, if_true, List.mem_cons] at member
        rcases member with rfl | later
        · exact List.not_mem_nil
        · exact ih segment later
      · have other : (ch == '/') = false := by simpa using slash
        rw [other] at member
        cases parts : rest.splitOn '/' with
        | nil => exact absurd parts (List.splitOn_ne_nil _ _)
        | cons first more =>
            rw [parts] at member ih
            rcases List.mem_cons.mp member with rfl | later
            · have plain := ih first List.mem_cons_self
              intro inside
              rcases List.mem_cons.mp inside with same | inFirst
              · exact slash same.symm
              · exact plain inFirst
            · exact ih segment (List.mem_cons_of_mem _ later)

theorem segments_iff {path : String} {parts : List (List Char)} (filled : parts ≠ []) :
    segments path = parts ↔
      (∀ part ∈ parts, '/' ∉ part) ∧ path.toList = ['/'].intercalate parts := by
  constructor
  · rintro rfl
    exact ⟨not_mem_of_mem_splitOn _, (List.intercalate_splitOn '/').symm⟩
  · rintro ⟨plain, whole⟩
    rw [segments, whole]
    exact List.splitOn_intercalate '/' plain filled

theorem fill_literals (literals : List (List Char)) (rest : PathPattern.Pattern Char)
    (params : List (List Char)) :
    PathPattern.fill (literals.map .literal ++ rest) params =
      literals ++ PathPattern.fill rest params := by
  induction literals with
  | nil => rfl
  | cons text more ih => simp [PathPattern.fill, ih]

theorem holes_literals (literals : List (List Char)) (rest : PathPattern.Pattern Char) :
    PathPattern.holes (literals.map .literal ++ rest) = PathPattern.holes rest := by
  induction literals with
  | nil => rfl
  | cons text more ih => simp [PathPattern.holes, ih]

theorem literals_plain (handler : Handler) : ∀ part ∈ handler.literals, '/' ∉ part := by
  cases handler <;> decide

variable {http : HttpRules} {request : HttpRequest}

/-- The texts that the router reads from a path. -/
theorem route_path_iff (path : String) (verb : Verb) (handler : Handler)
    (params : List (List Char)) :
    PathPattern.route routeTable (segments path) = some ((verb, handler), params) ↔
      verb = handler.verb ∧ params.length = PathPattern.holes handler.open_ ∧
        (∀ text ∈ params, text ≠ []) ∧
        segments path = handler.literals ++ PathPattern.fill handler.open_ params := by
  rw [PathPattern.route_iff routeTable_separate]
  simp only [mem_routeTable, PathPattern.fits_iff]
  constructor
  · rintro ⟨pattern, ⟨rfl, rfl⟩, length, nonempty, same⟩
    rw [holes_literals] at length
    rw [fill_literals] at same
    exact ⟨rfl, length, nonempty, same⟩
  · rintro ⟨rfl, length, nonempty, same⟩
    refine ⟨_, ⟨rfl, rfl⟩, ?_, nonempty, ?_⟩
    · rw [holes_literals, length]
    · rw [fill_literals, same]

theorem callRouter_eq (handler : Handler) (jobId : Option String) :
    callRouter http request = .handled handler jobId ↔ ∃ params,
      PathPattern.route routeTable (segments request.uri.path) =
        some ((handler.verb, handler), params) ∧
      handler.verb.allows request.method = true ∧ jobIdOf http params = some jobId := by
  unfold callRouter
  constructor
  · intro handled
    split at handled
    next => cases handled
    next verb other params found =>
      have verbEq := ((route_path_iff _ verb other params).mp found).1
      subst verbEq
      split at handled
      next allowed =>
        split at handled
        next id read =>
          cases handled
          exact ⟨params, found, allowed, read⟩
        next => cases handled
      next => cases handled
  · rintro ⟨params, found, allowed, read⟩
    simp [found, allowed, read]

theorem open_of_job {handler : Handler} (job : handler ≠ .getWork) :
    handler.open_ = [.param] := by
  cases handler with
  | getWork => exact absurd rfl job
  | heartbeat | completeData | completeRedirect | completeReject | completeError => rfl

theorem jobs_filled (handler : Handler) (text : List Char) : handler.literals ++ [text] ≠ [] := by
  simp

theorem callRouter_iff (handler : Handler) (jobId : Option String) :
    callRouter http request = .handled handler jobId ↔
      handler.verb.allows request.method = true ∧
        WorkerPath http handler request.uri.path.toList jobId := by
  rw [callRouter_eq]
  simp only [route_path_iff]
  constructor
  · rintro ⟨params, ⟨-, length, nonempty, same⟩, allowed, read⟩
    refine ⟨allowed, ?_⟩
    by_cases work : handler = .getWork
    · subst work
      obtain rfl : params = [] := List.length_eq_zero_iff.mp length
      obtain rfl : none = jobId := Option.some.inj read
      have whole := ((segments_iff (by decide)).mp same).2
      rw [whole]
      exact .work
    · rw [open_of_job work] at length same
      obtain ⟨text, rfl⟩ := List.length_eq_one_iff.mp length
      obtain ⟨id, decoded, rfl⟩ := Option.map_eq_some_iff.mp read
      have shape := (segments_iff (jobs_filled handler text)).mp same
      rw [shape.2]
      exact .job work (nonempty text (by simp)) (shape.1 text (by simp)) decoded
  · rintro ⟨allowed, found⟩
    generalize whole : request.uri.path.toList = chars at found
    cases found with
    | work =>
        refine ⟨[], ⟨trivial, rfl, by simp, ?_⟩, allowed, rfl⟩
        exact (segments_iff (by decide)).mpr ⟨by decide, whole⟩
    | @job _ text id job filled plain decoded =>
        refine ⟨[text], ⟨trivial, ?_, by simpa using filled, ?_⟩, allowed, by simp [jobIdOf, decoded]⟩
        · rw [open_of_job job]
          rfl
        · rw [open_of_job job]
          refine (segments_iff (jobs_filled handler text)).mpr ⟨fun part member => ?_, whole⟩
          rcases List.mem_append.mp member with fixed | last
          · exact literals_plain handler part fixed
          · rw [List.mem_singleton.mp last]
            exact plain

end Routes

section Calls

variable {http : HttpRules} {request : HttpRequest}

theorem workerPath_slash {handler : Handler} {chars : List Char} {jobId : Option String}
    (found : WorkerPath http handler chars jobId) : chars.head? = some '/' ∧ chars ≠ ['/'] := by
  cases found with
  | work => decide
  | @job _ text id job _ _ _ =>
      cases handler with
      | getWork => exact absurd rfl job
      | heartbeat | completeData | completeRedirect | completeReject | completeError =>
          simp [Handler.literals]

/-- A call reaches a handler exactly if its path is the name of the pool and a worker's path. -/
theorem workerCall_iff (lawful : http.Lawful) (received : http.Received request.uri)
    {pools : HashMap String Nat} (keys : List String)
    (valid : ∀ poolName router, pools.lookup poolName = some router →
      validatePoolName poolName = .ok ()) (router : Nat) (handler : Handler)
    (jobId : Option String) :
    workerCall http pools keys request = .pool router (.handled handler jobId) ↔
      ∃ poolName chars, pools.lookup poolName = some router ∧
        request.uri.path.toList = '/' :: (poolName.toList ++ chars) ∧
        WorkerPath http handler chars jobId ∧ handler.verb.allows request.method = true := by
  constructor
  · intro called
    by_cases somewhere : ∃ poolName router rest, pools.lookup poolName = some router ∧
        Addresses request poolName rest
    · obtain ⟨poolName, other, rest, known, addresses⟩ := somewhere
      have routed := dispatch_of_address lawful received keys known (valid _ _ known) addresses
      simp only [workerCall, routed, WorkerAnswer.pool.injEq] at called
      obtain ⟨rfl, handled⟩ := called
      obtain ⟨allowed, found⟩ := (callRouter_iff handler jobId).mp handled
      refine ⟨poolName, rest, known, addresses.1, ?_, allowed⟩
      by_cases empty : rest = []
      · have root : (forwarded request rest).uri.path.toList = ['/'] := by
          simp [forwarded, empty]
        exact absurd root (workerPath_slash found).2
      · simpa [forwarded, empty] using found
    · have refused := dispatch_of_none received keys valid somewhere
      unfold workerCall at called
      generalize dispatchToPool http pools keys request = answer at called refused
      cases refused with
      | unnamed | unknown => cases called
  · rintro ⟨poolName, chars, known, shape, found, allowed⟩
    have slash := (workerPath_slash found).1
    have filled : chars ≠ [] := by
      rintro rfl
      cases slash
    have routed := dispatch_of_address lawful received keys known (valid _ _ known)
      ⟨shape, Or.inr slash⟩
    simp only [workerCall, routed, WorkerAnswer.pool.injEq, true_and]
    rw [callRouter_iff]
    refine ⟨allowed, ?_⟩
    simpa [forwarded, filled] using found

end Calls

/-- The path that a client reads from an `http` URL. -/
def urlPath (url : String) : List Char := (url.toList.drop "http://".length).dropWhile (· != '/')

theorem urlText (base poolName : String) : (s!"http://{base}/{poolName}").toList =
    "http://".toList ++ (base.toList ++ '/' :: poolName.toList) := by
  simp [toString]

theorem callbackUrl_path {host : List Char} (plain : '/' ∉ host) (count : Nat)
    {poolName url : String}
    (callback : callbackUrl (some (String.ofList (host ++ List.replicate count '/'))) poolName =
      some url) : urlPath url = '/' :: poolName.toList := by
  have trimmed : (PathPattern.trimEndSlashes
      (String.ofList (host ++ List.replicate count '/'))).toList = host := by
    have stays : host.reverse.dropWhile (· == '/') = host.reverse := by
      cases back : host.reverse with
      | nil => rfl
      | cons ch chars =>
          have member : ch ∈ host := List.mem_reverse.mp (by simp [back])
          have other : ¬ ch = '/' := fun same => plain (same ▸ member)
          simp [other]
    simp only [PathPattern.trimEndSlashes, String.toList_ofList, List.reverse_append,
      List.reverse_replicate]
    rw [List.dropWhile_append_of_pos (by simp), stays, List.reverse_reverse]
  simp only [callbackUrl, Option.map_some, Option.some.injEq] at callback
  rw [← callback]
  generalize PathPattern.trimEndSlashes _ = base at trimmed ⊢
  have written : (s!"http://{base}/{poolName}").toList =
      "http://".toList ++ (host ++ '/' :: poolName.toList) := by
    rw [← trimmed]
    exact urlText base poolName
  have counted : "http://".length = "http://".toList.length := by decide
  rw [urlPath, written, counted, List.drop_left, List.dropWhile_append_of_pos]
  · simp
  · intro ch member
    simpa using fun same : ch = '/' => plain (same ▸ member)

theorem jobId_plain {jobId : String} {decoded : RequestId.DecodedId}
    (made : RequestId.decode jobId = .ok decoded) :
    jobId.toList ≠ [] ∧ '/' ∉ jobId.toList ∧ '%' ∉ jobId.toList := by
  have length := RequestId.decode_length made
  have alphabet := RequestId.decode_alphabet made
  refine ⟨fun empty => ?_, fun slash => ?_, fun percent => ?_⟩
  · rw [empty] at length
    cases length
  · have listed := alphabet '/' slash
    revert listed
    decide
  · have listed := alphabet '%' percent
    revert listed
    decide

/-- Over every run of calls that register pools: a request of a worker is handled for a job exactly
if its path is the name of a pool, the path of a handler and the text of that job's id; and the paths
that a worker makes from the callback URL and the id of a job do reach the handler. -/
theorem worker_paths_exact {http : HttpRules} (lawful : http.Lawful) {host : String}
    {port : Nat} {actions : List WorkerListener.Action} {s : WorkerListener.Server}
    (path : Path WorkerListener.step Always (WorkerListener.new host port) actions s)
    {request : HttpRequest} (received : http.Received request.uri) (keys : List String) :
    (∀ router handler jobId,
      workerCall http s.pools keys request = .pool router (.handled handler jobId) ↔
        ∃ poolName chars, lastRegistered (registrations [] actions) poolName = some router ∧
          request.uri.path.toList = '/' :: (poolName.toList ++ chars) ∧
          WorkerPath http handler chars jobId ∧ handler.verb.allows request.method = true) ∧
    ∀ (address : List Char) (count : Nat) (poolName url jobId : String) (router : Nat)
      (handler : Handler) (decoded : RequestId.DecodedId), '/' ∉ address →
      lastRegistered (registrations [] actions) poolName = some router →
      callbackUrl (some (String.ofList (address ++ List.replicate count '/'))) poolName = some url →
      RequestId.decode jobId = .ok decoded → handler ≠ .getWork → request.method = "POST" →
      request.uri.path.toList =
        urlPath url ++ ['/'].intercalate (handler.literals ++ [jobId.toList]) →
      workerCall http s.pools keys request = .pool router (.handled handler (some jobId)) := by
  have tracks := Tracks.of_path path
  have valid : ∀ poolName router, s.pools.lookup poolName = some router →
      validatePoolName poolName = .ok () := by
    intro poolName router known
    rw [tracks.pools] at known
    exact valid_of_lastRegistered known
  have exact_ := fun router handler jobId =>
    workerCall_iff lawful received keys valid router handler jobId
  simp only [tracks.pools] at exact_
  refine ⟨exact_, ?_⟩
  intro address count poolName url jobId router handler decoded plain last callback made job method
    aimed
  have text := jobId_plain made
  rw [callbackUrl_path plain count callback] at aimed
  refine (exact_ router handler (some jobId)).mpr ⟨poolName, _, last, aimed, ?_, ?_⟩
  · exact .job job text.1 text.2.1 (by rw [lawful.plain _ text.2.2, String.ofList_toList])
  · cases handler with
    | getWork => exact absurd rfl job
    | heartbeat | completeData | completeRedirect | completeReject | completeError =>
        rw [method]
        rfl

/-- A worker's heartbeat for a job, at the callback URL of the pool. -/
def beatRequest : HttpRequest where
  method := "POST"
  uri := ⟨none, none, "/gpu/heartbeat/017sg4fag00000000000000001", none⟩
  headers := []
  body := []

theorem beatRequest_received : plainHttp.Received beatRequest.uri where
  formed := Or.inr (Or.inr (by decide))
  parts _ := rfl
  parsed _ := (plainHttp_parse "/gpu/heartbeat/017sg4fag00000000000000001".toList none).mpr
    (by decide)

theorem worker_paths_exact_twoRegistrations : ∃ s : WorkerListener.Server,
    run WorkerListener.step (WorkerListener.new "0.0.0.0" 9000) twoRegistrations = some s ∧
      workerCall plainHttp s.pools ["gpu"] reportRequest =
        .pool 2 (.handled .completeError (some "j7")) ∧
      callbackUrl (some "gpu-node:9000/") "gpu" = some "http://gpu-node:9000/gpu" ∧
      workerCall plainHttp s.pools ["gpu"] beatRequest =
        .pool 2 (.handled .heartbeat (some "017sg4fag00000000000000001")) := by
  have ran : (run WorkerListener.step (WorkerListener.new "0.0.0.0" 9000) twoRegistrations).isSome =
      true := by decide
  obtain ⟨s, finished⟩ := Option.isSome_iff_exists.mp ran
  have callback : callbackUrl (some "gpu-node:9000/") "gpu" = some "http://gpu-node:9000/gpu" := by
    decide
  refine ⟨s, finished, ?_, callback, ?_⟩
  · apply ((worker_paths_exact plainHttp_lawful (Path.of_run _ _ finished)
      reportRequest_received ["gpu"]).1 2 .completeError (some "j7")).mpr
    refine ⟨"gpu", "/complete/error/j7".toList, by decide, by decide, ?_, rfl⟩
    have text : "/complete/error/j7".toList =
        ['/'].intercalate (Handler.completeError.literals ++ ["j7".toList]) := by decide
    rw [text]
    exact .job (by decide) (by decide) (by decide) rfl
  · have made : (RequestId.decode "017sg4fag00000000000000001").isOk = true := by decide +kernel
    cases read : RequestId.decode "017sg4fag00000000000000001" with
    | error e =>
        rw [read] at made
        cases made
    | ok decoded =>
        have slashed : String.ofList ("gpu-node:9000".toList ++ List.replicate 1 '/') =
            "gpu-node:9000/" := by decide
        exact (worker_paths_exact plainHttp_lawful (Path.of_run _ _ finished)
          beatRequest_received ["gpu"]).2 "gpu-node:9000".toList 1 "gpu" _ _ 2 .heartbeat decoded
          (by decide) (by decide) (slashed ▸ callback) read (by decide) rfl (by decide)

end WorkerRoutes

end BitsBroker
