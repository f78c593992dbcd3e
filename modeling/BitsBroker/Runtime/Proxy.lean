import BitsBroker.Db.Memory
import BitsBroker.Server
import Mathlib.Data.List.TakeWhile

/-!
Proxied polls. The broker that was asked forwards the poll to the owner and reads the
outcome back from the response. The translation is lossy by design: a result that the
owner reports as a server error or as throttling is taken for a passing condition, every
410 becomes a cancellation, and a redirect to the job's own address is how a pending job
is announced. All other outcomes come back as they were sent.
-/

namespace BitsBroker

open RequestId

/-- How a poll of a job that lives here ends: `taken` is the result found at once, and `woken`
the one found after a notification, which a timeout leaves empty. -/
def pollLocal (id : String) (taken woken : Option JobResult) (status : PendingStatus) :
    PollOutcome :=
  match taken with
  | some result => .ready result
  | none =>
      match woken with
      | some result => .ready result
      | none => .pending id status

def lastSegment (location : String) : String :=
  let path := location.toList.takeWhile fun ch => ch != '?'
  String.ofList (path.reverse.takeWhile fun ch => ch != '/').reverse

def stripPlus : List Char → List Char
  | '+' :: rest => rest
  | digits => digits

def parseU64 (text : String) : Option UInt64 :=
  let digits := stripPlus text.toList
  if digits.isEmpty || !digits.all Char.isDigit then none
  else
    let value := Nat.ofDigitChars 10 digits 0
    if value < 2 ^ 64 then some (UInt64.ofNat value) else none

/-- The store was asked whether the durable record is still there; without a store nobody was. -/
def ownerNotFoundOutcome (id : String) : Option (Except DbError Bool) → PollOutcome
  | none => .notFound
  | some (.ok true) => .queued id
  | some (.ok false) => .notFound
  | some (.error _) => .queued id

variable {http : HttpText}

def Response.headerText (response : Response http) (name : HeaderName) : Option String :=
  (response.header name).bind http.toStr

def Response.pendingStatus (response : Response http) : PendingStatus :=
  ((response.headerText .pendingStatus).bind PendingStatus.fromHeader).getD .queued

def proxySuccess (response : Response http) : PollOutcome :=
  let contentType := (response.headerText .contentType).getD "application/octet-stream"
  let size := (response.contentLength.map fun length => (length : Int).bmod (2 ^ 64)).getD (-1)
  .ready (.success contentType size response.bytesStream)

def proxyRedirect (response : Response http) (id : String) : PollOutcome :=
  let location := (response.headerText .location).getD ""
  if location = "" then .pending id response.pendingStatus
  else if lastSegment location = id then .pending id response.pendingStatus
  else .ready (.redirect location "proxied redirect" (response.headerText .polytopeContentType)
    ((response.headerText .polytopeContentLength).bind parseU64))

def readResponse (durable : Option (Except DbError Bool)) (id : String)
    (response : Response http) : PollOutcome :=
  if response.status = 200 then proxySuccess response
  else if response.status = 303 ∨ response.status = 307 ∨ response.status = 302 ∨
      response.status = 308 then proxyRedirect response id
  else if response.status = 404 then ownerNotFoundOutcome id durable
  else if response.status = 400 then .ready (.error response.text)
  else if response.status = 410 then .ready .cancelled
  else if response.status = 401 ∨ response.status = 403 then .queued id
  else if response.status = 429 then .queued id
  else if 500 ≤ response.status ∧ response.status < 600 then .queued id
  else .queued id

/-- `sent` is the owner's response, absent when the request timed out or failed. -/
def tryProxyWithLease (durable : Option (Except DbError Bool)) (id : String)
    (sent : Option (Response http)) : Option PollOutcome :=
  sent.map (readResponse durable id)

theorem parseU64_toString (length : UInt64) : parseU64 (toString length.toNat) = some length := by
  have chars : (toString length.toNat).toList = Nat.toDigits 10 length.toNat := Nat.toList_repr
  have digits : ∀ ch ∈ Nat.toDigits 10 length.toNat, ch.isDigit = true :=
    fun ch member => Nat.isDigit_of_mem_toDigits (by decide) (by decide) member
  have unsigned : stripPlus (Nat.toDigits 10 length.toNat) = Nat.toDigits 10 length.toNat := by
    unfold stripPlus
    split
    next rest signed =>
      have plus := digits '+' (by simp [signed])
      simp at plus
    · rfl
  have nonempty : (Nat.toDigits 10 length.toNat).isEmpty = false := by
    simp
  have allDigits : (Nat.toDigits 10 length.toNat).all Char.isDigit = true := by
    rw [List.all_eq_true]
    exact digits
  unfold parseU64
  rw [chars, unsigned]
  simp [nonempty, allDigits, Nat.ofDigitChars_ten_toDigits, length.toNat_lt]

theorem lastSegment_snoc (front : String) {id : String}
    (plain : ∀ ch ∈ id.toList, ch ≠ '?' ∧ ch ≠ '/')
    (leading : front.toList.all (fun ch => ch != '?') = true) :
    lastSegment (front ++ "/" ++ id) = id := by
  have path : (front ++ "/" ++ id).toList.takeWhile (fun ch => ch != '?') =
      (front ++ "/" ++ id).toList := by
    rw [List.takeWhile_eq_self_iff]
    intro ch member
    simp only [String.toList_append, List.mem_append] at member
    rcases member with (inFront | slash) | inId
    · exact List.all_eq_true.mp leading ch inFront
    · obtain rfl : ch = '/' := by simpa using slash
      decide
    · simpa using (plain ch inId).1
  have kept : ∀ ch ∈ id.toList.reverse, (ch != '/') = true := by
    intro ch member
    simpa using (plain ch (by simpa using member)).2
  unfold lastSegment
  rw [path]
  simp only [String.toList_append, List.reverse_append]
  rw [List.takeWhile_append_of_pos kept]
  simp

theorem decode_plain {id : String} {decoded : DecodedId} (valid : decode id = .ok decoded) :
    ∀ ch ∈ id.toList, ch ≠ '?' ∧ ch ≠ '/' := by
  have alphabet : crockfordAlphabet.all (fun ch => ch != '?' && ch != '/') = true := by
    decide +kernel
  intro ch member
  simpa using List.all_eq_true.mp alphabet ch (decode_alphabet valid ch member)

theorem decode_headerText {id : String} {decoded : DecodedId} (valid : decode id = .ok decoded) :
    HeaderText id := by
  have alphabet : crockfordAlphabet.all isHeaderText = true := by decide +kernel
  intro ch member
  exact List.all_eq_true.mp alphabet ch (decode_alphabet valid ch member)

theorem build_reads (lawful : http.Lawful) (status : Nat) {headers : List (HeaderName × String)}
    (body : Body) (texts : ∀ header ∈ headers, HeaderText header.2) :
    ∃ response, build http status headers body = some response ∧ response.status = status ∧
      ∀ name, response.headerText name =
        (headers.find? fun header => header.1 == name).map (·.2) := by
  obtain ⟨built, some_, reads⟩ := buildHeaders_reads lawful headers texts
  exact ⟨{ status, headers := built, body }, by simp [build, some_], rfl, reads⟩

/-- What the broker that was asked makes of the owner's outcome. -/
inductive Translates (http : HttpText) (id : String) : PollOutcome → PollOutcome → Prop
  | pending (status : PendingStatus) : Translates http id (.pending id status) (.pending id status)
  | success (sent received : String) (size : Int) (stream : ByteStream) :
      (HeaderText sent → received = sent) →
      Translates http id (.ready (.success sent size stream))
        (.ready (.success received (-1) stream))
  | redirect (location message : String) (contentType : Option String)
      (contentLength : Option UInt64) : location ≠ "" → lastSegment location ≠ id →
      Translates http id (.ready (.redirect location message contentType contentLength))
        (.ready (.redirect location "proxied redirect" contentType contentLength))
  | ownAddress (location message : String) (contentType : Option String)
      (contentLength : Option UInt64) : location = "" ∨ lastSegment location = id →
      Translates http id (.ready (.redirect location message contentType contentLength)) (.queued id)
  | error (message : String) :
      Translates http id (.ready (.error message))
        (.ready (.error (http.json { code := "JOB_ERROR", message, retryable := false })))
  | cancelled : Translates http id (.ready .cancelled) (.ready .cancelled)
  | clientGone : Translates http id (.ready .clientGone) (.ready .cancelled)
  | failed (reason : String) : Translates http id (.ready (.failed reason)) (.queued id)
  | overloaded (reason : String) : Translates http id (.ready (.overloaded reason)) (.queued id)
  | rateLimited (reason : String) : Translates http id (.ready (.rateLimited reason)) (.queued id)

/-- The texts that an outcome puts into headers survive them. -/
def Carried (http : HttpText) : PollOutcome → Prop
  | .ready (.success contentType _ _) => ∃ value, http.tryFrom contentType = some value
  | .ready (.redirect location _ contentType _) =>
      HeaderText location ∧ ∀ text, contentType = some text → HeaderText text
  | _ => True

theorem pending_translates (lawful : http.Lawful) {id : String} {decoded : DecodedId}
    (valid : decode id = .ok decoded) (status : PendingStatus) (retryAfterSecs : Nat)
    (durable : Option (Except DbError Bool)) :
    ∃ response, pollById http (.pending id status) retryAfterSecs = some response ∧
      readResponse durable id response = .pending id status := by
  have address : "/job/" ++ id = "/job" ++ "/" ++ id := by
    rw [← String.toList_inj]
    simp
  have texts : ∀ header ∈ [(HeaderName.location, "/job/" ++ id), (.retryAfter, "0"),
      (.pendingStatus, status.asStr)], HeaderText header.2 := by
    simp only [List.mem_cons, List.not_mem_nil, or_false]
    rintro header (rfl | rfl | rfl)
    · exact headerText_append (headerText_of_all (by decide +kernel)) (decode_headerText valid)
    · exact headerText_of_all (by decide +kernel)
    · cases status with
      | queued => exact headerText_of_all (by decide +kernel)
      | processing => exact headerText_of_all (by decide +kernel)
  obtain ⟨response, built, isSeeOther, reads⟩ := build_reads lawful 303 .empty texts
  refine ⟨response, ?_, ?_⟩
  · exact built
  · have location : response.headerText .location = some ("/job/" ++ id) := by
      rw [reads]
      rfl
    have announced : response.pendingStatus = status := by
      unfold Response.pendingStatus
      rw [reads]
      simp [PendingStatus.fromHeader_asStr]
    have own : lastSegment ("/job/" ++ id) = id := by
      rw [address]
      exact lastSegment_snoc "/job" (decode_plain valid) (by decide +kernel)
    simp [readResponse, isSeeOther, proxyRedirect, location, own, announced]

theorem redirectHeaders_text {location : String} {contentType : Option String}
    (contentLength : Option UInt64) (address : HeaderText location)
    (kind : ∀ text, contentType = some text → HeaderText text) :
    ∀ header ∈ redirectHeaders location contentType contentLength, HeaderText header.2 := by
  intro header member
  simp only [redirectHeaders, List.cons_append, List.mem_cons, List.mem_append, Option.mem_toList,
    Option.map_eq_some_iff] at member
  rcases member with rfl | ⟨text, known, rfl⟩ | ⟨length, _, rfl⟩
  · exact address
  · exact kind text known
  · exact headerText_toString length.toNat

theorem redirect_translates (lawful : http.Lawful) (id location message : String)
    (contentType : Option String) (contentLength : Option UInt64) (retryAfterSecs : Nat)
    (durable : Option (Except DbError Bool)) (address : HeaderText location)
    (kind : ∀ text, contentType = some text → HeaderText text) :
    ∃ response, pollById http (.ready (.redirect location message contentType contentLength))
        retryAfterSecs = some response ∧
      Translates http id (.ready (.redirect location message contentType contentLength))
        (readResponse durable id response) := by
  obtain ⟨response, built, isSeeOther, reads⟩ := build_reads lawful 303 .empty
    (redirectHeaders_text contentLength address kind)
  have target : response.headerText .location = some location := by
    rw [reads]
    rfl
  have unannounced : response.pendingStatus = .queued := by
    unfold Response.pendingStatus
    rw [reads]
    cases contentType <;> cases contentLength <;> rfl
  have sameType : response.headerText .polytopeContentType = contentType := by
    rw [reads]
    cases contentType <;> cases contentLength <;> rfl
  have sameLength :
      (response.headerText .polytopeContentLength).bind parseU64 = contentLength := by
    rw [reads]
    cases contentLength with
    | none => cases contentType <;> rfl
    | some length =>
        have written : ((redirectHeaders location contentType (some length)).find?
            fun header => header.1 == .polytopeContentLength).map (·.2) =
              some (toString length.toNat) := by
          cases contentType <;> rfl
        rw [written]
        exact parseU64_toString length
  refine ⟨response, built, ?_⟩
  have outcome : readResponse durable id response = proxyRedirect response id := by
    simp [readResponse, isSeeOther]
  rw [outcome]
  unfold proxyRedirect
  rw [target, unannounced, sameType, sameLength]
  by_cases empty : location = ""
  · have own : Translates http id _ _ :=
      Translates.ownAddress location message contentType contentLength (Or.inl empty)
    simpa [empty, PollOutcome.queued] using own
  · by_cases segment : lastSegment location = id
    · have own : Translates http id _ _ :=
        Translates.ownAddress location message contentType contentLength (Or.inr segment)
      simpa [empty, segment, PollOutcome.queued] using own
    · have elsewhere : Translates http id _ _ :=
        Translates.redirect location message contentType contentLength empty segment
      simpa [empty, segment] using elsewhere

theorem retryResponse_status (lawful : http.Lawful) (status : Nat) (code reason : String)
    (retryAfterSecs : Nat) :
    (retryResponse http status code reason retryAfterSecs).status = status := by
  have texts : ∀ header ∈ [(HeaderName.retryAfter, toString retryAfterSecs)],
      HeaderText header.2 := by
    intro header member
    obtain rfl : header = (HeaderName.retryAfter, toString retryAfterSecs) := by simpa using member
    exact headerText_toString retryAfterSecs
  obtain ⟨built, some_, _⟩ := buildHeaders_reads lawful _ texts
  unfold retryResponse intoResponse
  rw [some_]
  rfl

theorem result_translates (lawful : http.Lawful) (id : String) (result : JobResult)
    (retryAfterSecs : Nat) (durable : Option (Except DbError Bool))
    (carried : Carried http (.ready result)) :
    ∃ response, pollById http (.ready result) retryAfterSecs = some response ∧
      Translates http id (.ready result) (readResponse durable id response) := by
  cases result with
  | success contentType size stream =>
      obtain ⟨value, accepted⟩ := carried
      refine ⟨_, rfl, ?_⟩
      simp only [intoResponse, buildHeaders, accepted, readResponse, if_true, proxySuccess]
      refine Translates.success contentType _ size stream ?_
      intro readable
      obtain ⟨same, again, read⟩ := lawful.accepts contentType readable
      obtain rfl : value = same := Option.some.inj (accepted.symm.trans again)
      simp [Response.headerText, Response.header, read]
  | redirect location message contentType contentLength =>
      exact redirect_translates lawful id location message contentType contentLength
        retryAfterSecs durable carried.1 carried.2
  | error message => exact ⟨_, rfl, Translates.error message⟩
  | failed reason => exact ⟨_, rfl, Translates.failed reason⟩
  | overloaded reason =>
      have status := retryResponse_status lawful 529 "QUEUE_FULL" reason retryAfterSecs
      refine ⟨overloadedResponse http reason retryAfterSecs, rfl, ?_⟩
      simp only [overloadedResponse, readResponse, status]
      exact Translates.overloaded reason
  | rateLimited reason =>
      have status := retryResponse_status lawful 429 "USER_LIMIT_EXCEEDED" reason retryAfterSecs
      refine ⟨rateLimitedResponse http reason retryAfterSecs, rfl, ?_⟩
      simp only [rateLimitedResponse, readResponse, status]
      exact Translates.rateLimited reason
  | cancelled => exact ⟨_, rfl, Translates.cancelled⟩
  | clientGone => exact ⟨_, rfl, Translates.clientGone⟩

/-- A proxied poll of a valid job id translates every outcome of the owner's local poll. -/
theorem proxied_poll_translates (lawful : http.Lawful) {id : String} {decoded : DecodedId}
    (valid : decode id = .ok decoded) (taken woken : Option JobResult) (status : PendingStatus)
    (retryAfterSecs : Nat) (durable : Option (Except DbError Bool))
    (carried : Carried http (pollLocal id taken woken status)) :
    ∃ response outcome,
      pollById http (pollLocal id taken woken status) retryAfterSecs = some response ∧
      tryProxyWithLease durable id (some response) = some outcome ∧
      Translates http id (pollLocal id taken woken status) outcome := by
  have translated : ∃ response,
      pollById http (pollLocal id taken woken status) retryAfterSecs = some response ∧
      Translates http id (pollLocal id taken woken status) (readResponse durable id response) := by
    unfold pollLocal at carried ⊢
    split at carried
    next result => exact result_translates lawful id result retryAfterSecs durable carried
    · split at carried
      next result => exact result_translates lawful id result retryAfterSecs durable carried
      · obtain ⟨response, built, read⟩ :=
          pending_translates lawful valid status retryAfterSecs durable
        refine ⟨response, built, ?_⟩
        rw [read]
        exact Translates.pending status
  obtain ⟨response, built, relation⟩ := translated
  exact ⟨response, readResponse durable id response, built, rfl, relation⟩

namespace ProxyScenario

/-- Header values as text: control characters are refused, other bytes are kept but not read. -/
def plainHttp : HttpText where
  Value := String
  tryFrom := fun text =>
    if text.toList.all fun ch => ch == '\t' || (32 ≤ ch.toNat && ch.toNat != 127) then some text
    else none
  fromStatic := id
  toStr := fun value => if value.toList.all isHeaderText then some value else none
  json := fun body =>
    "\x7b\"code\":\"" ++ body.code ++ "\",\"message\":\"" ++ body.message ++
      "\",\"retryable\":" ++ toString body.retryable ++ "\x7d"
  invalidHeader := "failed to parse header value"

theorem plainHttp_lawful : plainHttp.Lawful where
  accepts := by
    intro text readable
    have legal : ∀ ch ∈ text.toList,
        (ch == '\t' || (decide (32 ≤ ch.toNat) && ch.toNat != 127)) = true := by
      intro ch member
      have shown := readable ch member
      simp only [isHeaderText, Bool.or_eq_true, Bool.and_eq_true, decide_eq_true_eq] at shown
      simp only [Bool.or_eq_true, Bool.and_eq_true, decide_eq_true_eq, bne_iff_ne]
      rcases shown with tab | ⟨low, high⟩
      · exact Or.inl tab
      · exact Or.inr ⟨low, by omega⟩
    refine ⟨text, ?_, ?_⟩
    · simp only [plainHttp]
      rw [if_pos (List.all_eq_true.mpr legal)]
    · simp only [plainHttp]
      rw [if_pos (List.all_eq_true.mpr readable)]

def jobId : String := "017sg4fag00000000000000001"

theorem jobId_valid : ∃ decoded, decode jobId = .ok decoded := by
  have ok : (decode jobId).isOk = true := by decide +kernel
  cases found : decode jobId with
  | ok decoded => exact ⟨decoded, rfl⟩
  | error e => simp [found, Except.isOk, Except.toBool] at ok

def redirected : JobResult :=
  .redirect "https://data.test/object?id=1" "done" (some "application/x-grib") (some 1024)

def failed : JobResult := .failed "worker vanished"

end ProxyScenario

open ProxyScenario

theorem proxied_poll_translates_redirect :
    ∃ decoded, decode jobId = .ok decoded ∧ ∃ response outcome,
      pollById plainHttp (pollLocal jobId none (some redirected) .queued) 5 = some response ∧
      tryProxyWithLease none jobId (some response) = some outcome ∧
      Translates plainHttp jobId (pollLocal jobId none (some redirected) .queued) outcome := by
  obtain ⟨decoded, valid⟩ := jobId_valid
  have carried : Carried plainHttp (pollLocal jobId none (some redirected) .queued) := by
    refine ⟨headerText_of_all (by decide +kernel), ?_⟩
    rintro text known
    obtain rfl : "application/x-grib" = text := by simpa using known
    exact headerText_of_all (by decide +kernel)
  exact ⟨decoded, valid,
    proxied_poll_translates plainHttp_lawful valid none (some redirected) .queued 5 none carried⟩

/-- A job that failed is consumed by the owner and reported as pending. -/
theorem failed_result_reported_pending :
    (∃ decoded, decode jobId = .ok decoded) ∧ ∃ response,
      pollById plainHttp (pollLocal jobId (some failed) none .queued) 5 = some response ∧
      tryProxyWithLease none jobId (some response) = some (.pending jobId .queued) := by
  refine ⟨jobId_valid, ?_⟩
  exact ⟨jsonError plainHttp 500 "JOB_FAILED" "internal server error" false, rfl, rfl⟩

end BitsBroker
