import BitsBroker.Runtime.Proxy
import Mathlib.Logic.Function.Iterate

/-!
An answer that passes through several brokers. A broker that has proxied a poll answers its own
caller through the same handler, and that caller may be another broker. After the first of them the
answer stands: a later broker reads back what the one before it has read. Two outcomes are not so
steady. The text of an error is wrapped in one more error body by every broker it passes, and a job
that the owner does not know is unknown to the caller only if no broker on the way still finds its
record.
-/

namespace BitsBroker

open RequestId

/-- One broker on the way: its handler's retry delay, and what its store says when the broker before
it does not know the job. -/
structure Hop where
  retryAfterSecs : Nat
  durable : Option (Except DbError Bool)

/-- What the broker makes of the answer that the one before it gives to this outcome. -/
def Hop.pass (http : HttpText) (id : String) (hop : Hop) (outcome : PollOutcome) :
    Option PollOutcome :=
  (pollById http outcome hop.retryAfterSecs).bind fun response =>
    tryProxyWithLease hop.durable id (some response)

def relay (http : HttpText) (id : String) : List Hop → PollOutcome → Option PollOutcome
  | [], outcome => some outcome
  | hop :: more, outcome => (hop.pass http id outcome).bind (relay http id more)

/-- The body of an error answer. -/
def HttpText.wrapped (http : HttpText) (message : String) : String :=
  http.json { code := "JOB_ERROR", message, retryable := false }

def Hop.findsNothing (hop : Hop) : Bool :=
  match hop.durable with
  | none | some (.ok false) => true
  | some (.ok true) | some (.error _) => false

/-- The outcomes that a broker hands on as they are. -/
inductive Steady (id : String) : PollOutcome → Prop
  | pending (status : PendingStatus) : Steady id (.pending id status)
  | success (contentType : String) (stream : ByteStream) : HeaderText contentType →
      Steady id (.ready (.success contentType (-1) stream))
  | redirect (location : String) (contentType : Option String) (contentLength : Option UInt64) :
      HeaderText location → (∀ text, contentType = some text → HeaderText text) →
      location ≠ "" → lastSegment location ≠ id →
      Steady id (.ready (.redirect location "proxied redirect" contentType contentLength))
  | cancelled : Steady id (.ready .cancelled)

section Relays

variable {http : HttpText} {id : String} {decoded : DecodedId}

theorem Hop.pass_of_response {hop : Hop} {outcome read : PollOutcome} {response : Response http}
    (built : pollById http outcome hop.retryAfterSecs = some response)
    (reads : readResponse hop.durable id response = read) :
    hop.pass http id outcome = some read := by
  unfold Hop.pass
  rw [built, Option.bind_some, tryProxyWithLease, Option.map_some, reads]

theorem Steady.pass (lawful : http.Lawful) (valid : decode id = .ok decoded)
    {outcome : PollOutcome} (settled : Steady id outcome) (hop : Hop) :
    hop.pass http id outcome = some outcome := by
  cases settled with
  | pending status =>
      obtain ⟨response, built, reads⟩ :=
        pending_translates lawful valid status hop.retryAfterSecs hop.durable
      exact Hop.pass_of_response built reads
  | success contentType stream readable =>
      obtain ⟨value, accepted, _⟩ := lawful.accepts contentType readable
      obtain ⟨response, built, relation⟩ := result_translates lawful id
        (.success contentType (-1) stream) hop.retryAfterSecs hop.durable ⟨value, accepted⟩
      apply Hop.pass_of_response built
      generalize readResponse hop.durable id response = read at relation
      cases relation with
      | success _ received _ _ same => rw [same readable]
  | redirect location contentType contentLength address kind named elsewhere =>
      obtain ⟨response, built, relation⟩ := redirect_translates lawful id location
        "proxied redirect" contentType contentLength hop.retryAfterSecs hop.durable address kind
      apply Hop.pass_of_response built
      generalize readResponse hop.durable id response = read at relation
      cases relation with
      | redirect => rfl
      | ownAddress _ _ _ _ own =>
          rcases own with empty | same
          · exact absurd empty named
          · exact absurd same elsewhere
  | cancelled =>
      obtain ⟨response, built, relation⟩ := result_translates lawful id .cancelled
        hop.retryAfterSecs hop.durable trivial
      apply Hop.pass_of_response built
      generalize readResponse hop.durable id response = read at relation
      cases relation
      rfl

theorem Steady.relay (lawful : http.Lawful) (valid : decode id = .ok decoded)
    {outcome : PollOutcome} (settled : Steady id outcome) :
    ∀ hops, relay http id hops outcome = some outcome := by
  intro hops
  induction hops with
  | nil => rfl
  | cons hop more ih =>
      rw [BitsBroker.relay, settled.pass lawful valid hop, Option.bind_some]
      exact ih

theorem headerText_default : HeaderText "application/octet-stream" :=
  headerText_of_all (by decide +kernel)

theorem proxySuccess_settled (readable : ∀ value text, http.toStr value = some text →
    HeaderText text) (response : Response http) (streams : response.contentLength = none) :
    Steady id (proxySuccess response) := by
  unfold proxySuccess
  rw [streams]
  apply Steady.success
  cases found : response.headerText .contentType with
  | none => exact headerText_default
  | some text =>
      obtain ⟨value, _, read⟩ := Option.bind_eq_some_iff.mp found
      exact readable value text read

/-- The first broker settles every result but an error. -/
theorem result_settles (lawful : http.Lawful)
    (readable : ∀ value text, http.toStr value = some text → HeaderText text) (result : JobResult)
    (hop : Hop) (carried : Carried http (.ready result)) (sound : ∀ message, result ≠ .error message) :
    ∃ first, hop.pass http id (.ready result) = some first ∧ Steady id first := by
  cases result with
  | success contentType size stream =>
      obtain ⟨value, accepted⟩ := carried
      have built : pollById http (.ready (.success contentType size stream)) hop.retryAfterSecs =
          some ⟨200, [(.contentType, value)], .stream stream⟩ := by
        simp [pollById, resultToResponse, intoResponse, buildHeaders, accepted]
      refine ⟨_, Hop.pass_of_response built rfl, ?_⟩
      exact proxySuccess_settled readable _ rfl
  | redirect location message contentType contentLength =>
      obtain ⟨address, kind⟩ := carried
      obtain ⟨response, built, relation⟩ := redirect_translates lawful id location message
        contentType contentLength hop.retryAfterSecs hop.durable address kind
      refine ⟨_, Hop.pass_of_response built rfl, ?_⟩
      generalize readResponse hop.durable id response = read at relation
      cases relation with
      | redirect _ _ _ _ named elsewhere => exact .redirect _ _ _ address kind named elsewhere
      | ownAddress => exact .pending _
  | error message => exact absurd rfl (sound message)
  | failed _ | overloaded _ | rateLimited _ | cancelled | clientGone =>
      obtain ⟨response, built, relation⟩ := result_translates lawful id _ hop.retryAfterSecs
        hop.durable carried
      refine ⟨_, Hop.pass_of_response built rfl, ?_⟩
      generalize readResponse hop.durable id response = read at relation
      cases relation
      all_goals
        first
        | exact .pending _
        | exact .cancelled

theorem error_passes (hop : Hop) (message : String) :
    hop.pass http id (.ready (.error message)) =
      some (.ready (.error (http.wrapped message))) := rfl

theorem errors_wrapped (hops : List Hop) : ∀ message,
    relay http id hops (.ready (.error message)) =
      some (.ready (.error (Nat.iterate http.wrapped hops.length message))) := by
  induction hops with
  | nil =>
      intro message
      rfl
  | cons hop more ih =>
      intro message
      rw [relay, error_passes, Option.bind_some, ih, List.length_cons, Function.iterate_succ_apply]

theorem notFound_passes (hop : Hop) :
    hop.pass http id .notFound =
      some (if hop.findsNothing then .notFound else .queued id) := by
  unfold Hop.pass Hop.findsNothing
  cases durable : hop.durable with
  | none => rfl
  | some answer => cases answer with
    | error e => rfl
    | ok present => cases present <;> rfl

theorem notFound_relayed (lawful : http.Lawful) (valid : decode id = .ok decoded) :
    ∀ hops, relay http id hops .notFound =
      some (if hops.all Hop.findsNothing then .notFound else .queued id) := by
  intro hops
  induction hops with
  | nil => rfl
  | cons hop more ih =>
      rw [relay, notFound_passes, Option.bind_some, List.all_cons]
      cases found : hop.findsNothing with
      | true => simpa using ih
      | false =>
          have queued : Steady id (.queued id) := .pending .queued
          simpa using queued.relay lawful valid more

/-- However many brokers an answer passes, the caller gets what the first of them has made of it,
save for an error, which each of them wraps, and for an unknown job. -/
theorem relays_add_nothing (lawful : http.Lawful)
    (readable : ∀ value text, http.toStr value = some text → HeaderText text)
    (valid : decode id = .ok decoded) {outcome : PollOutcome} (carried : Carried http outcome)
    (own : ∀ other status, outcome = .pending other status → other = id) (hop : Hop)
    (more : List Hop) :
    ((∀ message, outcome ≠ .ready (.error message)) → outcome ≠ .notFound →
      ∃ first, hop.pass http id outcome = some first ∧
        relay http id (hop :: more) outcome = some first) ∧
    (∀ message, outcome = .ready (.error message) → relay http id (hop :: more) outcome =
      some (.ready (.error (Nat.iterate http.wrapped (more.length + 1) message)))) ∧
    (outcome = .notFound → relay http id (hop :: more) outcome =
      some (if (hop :: more).all Hop.findsNothing then .notFound else .queued id)) := by
  refine ⟨?_, ?_, ?_⟩
  · intro sound known
    have settles : ∃ first, hop.pass http id outcome = some first ∧ Steady id first := by
      cases outcome with
      | ready result =>
          apply result_settles lawful readable result hop carried
          intro message same
          exact sound message (congrArg PollOutcome.ready same)
      | pending other status =>
          obtain rfl := own other status rfl
          exact ⟨_, (Steady.pending status).pass lawful valid hop, .pending status⟩
      | notFound => exact absurd rfl known
      | jobLost => exact ⟨.ready .cancelled, rfl, .cancelled⟩
    obtain ⟨first, passed, settled⟩ := settles
    refine ⟨first, passed, ?_⟩
    rw [relay, passed, Option.bind_some]
    exact settled.relay lawful valid more
  · rintro message rfl
    exact errors_wrapped (hop :: more) message
  · rintro rfl
    exact notFound_relayed lawful valid (hop :: more)

end Relays

open ProxyScenario

theorem plainHttp_readable : ∀ value text, plainHttp.toStr value = some text → HeaderText text := by
  intro value text read
  simp only [plainHttp] at read
  split at read
  next all =>
    obtain rfl : value = text := Option.some.inj read
    exact List.all_eq_true.mp all
  · cases read

/-- A redirect and an error of the owner, each through two brokers. -/
theorem relays_add_nothing_twice : ∃ decoded, decode jobId = .ok decoded ∧
    (∃ first, Hop.pass plainHttp jobId ⟨5, none⟩ (.ready redirected) = some first ∧
      relay plainHttp jobId [⟨5, none⟩, ⟨7, none⟩] (.ready redirected) = some first) ∧
    relay plainHttp jobId [⟨5, none⟩, ⟨7, none⟩] (.ready (.error "no such field")) =
      some (.ready (.error (plainHttp.wrapped (plainHttp.wrapped "no such field")))) := by
  obtain ⟨decoded, valid⟩ := jobId_valid
  have carried : Carried plainHttp (.ready redirected) := by
    refine ⟨headerText_of_all (by decide +kernel), ?_⟩
    rintro text known
    obtain rfl : "application/x-grib" = text := by simpa using known
    exact headerText_of_all (by decide +kernel)
  have redirects := relays_add_nothing plainHttp_lawful plainHttp_readable valid carried
    (by rintro _ _ ⟨⟩) ⟨5, none⟩ [⟨7, none⟩]
  have free : Carried plainHttp (.ready (.error "no such field")) := trivial
  have errors := relays_add_nothing plainHttp_lawful plainHttp_readable valid free
    (by rintro _ _ ⟨⟩) ⟨5, none⟩ [⟨7, none⟩]
  refine ⟨decoded, valid, redirects.1 ?_ ?_, errors.2.1 "no such field" rfl⟩
  · rintro _ ⟨⟩
  · rintro ⟨⟩

end BitsBroker
