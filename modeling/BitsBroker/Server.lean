import BitsBroker.Job

/-!
The answers of the HTTP server to a poll. `HttpText` stands for the libraries underneath:
how a header value is made from text and read back, and how an error body is written.
Building a response fails when a header value is refused; a handler that unwraps the
builder then produces no response, while a tuple response becomes a server error.
-/

namespace BitsBroker

inductive HeaderName where
  | location
  | retryAfter
  | contentType
  | pendingStatus
  | polytopeContentType
  | polytopeContentLength
deriving Repr, DecidableEq

structure ErrorBody where
  code : String
  message : String
  retryable : Bool
deriving Repr, DecidableEq

structure HttpText where
  Value : Type
  tryFrom : String → Option Value
  fromStatic : String → Value
  toStr : Value → Option String
  json : ErrorBody → String
  invalidHeader : String

/-- A character that a header value may hold and that can be read back as text. -/
def isHeaderText (ch : Char) : Bool := ch == '\t' || (32 ≤ ch.toNat && ch.toNat < 127)

def HeaderText (text : String) : Prop := ∀ ch ∈ text.toList, isHeaderText ch = true

/-- A header value made from header text is accepted and reads as that text. -/
structure HttpText.Lawful (http : HttpText) : Prop where
  accepts : ∀ text, HeaderText text → ∃ value, http.tryFrom text = some value ∧
    http.toStr value = some text

inductive Body where
  | empty
  | text (content : String)
  | stream (chunks : ByteStream)

structure Response (http : HttpText) where
  status : Nat
  headers : List (HeaderName × http.Value)
  body : Body

namespace Response

variable {http : HttpText}

def header (response : Response http) (name : HeaderName) : Option http.Value :=
  (response.headers.find? fun header => header.1 == name).map (·.2)

def text (response : Response http) : String :=
  match response.body with
  | .text content => content
  | _ => ""

def bytesStream (response : Response http) : ByteStream :=
  match response.body with
  | .stream chunks => chunks
  | .text content => [.ok content.toUTF8.toList]
  | .empty => []

/-- A streamed body is sent without its length. -/
def contentLength (response : Response http) : Option Nat :=
  match response.body with
  | .stream _ => none
  | .text content => some content.utf8ByteSize
  | .empty => some 0

end Response

section Handlers

variable (http : HttpText)

def buildHeaders : List (HeaderName × String) → Option (List (HeaderName × http.Value))
  | [] => some []
  | (name, text) :: rest =>
      match http.tryFrom text, buildHeaders rest with
      | some value, some headers => some ((name, value) :: headers)
      | _, _ => none

def build (status : Nat) (headers : List (HeaderName × String)) (body : Body) :
    Option (Response http) :=
  (buildHeaders http headers).map fun headers => { status, headers, body }

def jsonError (status : Nat) (code message : String) (retryable : Bool) : Response http where
  status := status
  headers := [(.contentType, http.fromStatic "application/json")]
  body := .text (http.json { code, message, retryable })

def intoResponse (headers : List (HeaderName × String)) (inner : Response http) :
    Response http :=
  match buildHeaders http headers with
  | some added => { inner with headers := added ++ inner.headers }
  | none => { status := 500, headers := [], body := .text http.invalidHeader }

def retryResponse (status : Nat) (code reason : String) (retryAfterSecs : Nat) : Response http :=
  intoResponse http [(.retryAfter, toString retryAfterSecs)] (jsonError http status code reason true)

def overloadedResponse (reason : String) (retryAfterSecs : Nat) : Response http :=
  retryResponse http 529 "QUEUE_FULL" reason retryAfterSecs

def rateLimitedResponse (reason : String) (retryAfterSecs : Nat) : Response http :=
  retryResponse http 429 "USER_LIMIT_EXCEEDED" reason retryAfterSecs

def redirectHeaders (location : String) (contentType : Option String)
    (contentLength : Option UInt64) : List (HeaderName × String) :=
  (.location, location) ::
    (contentType.map fun text => (HeaderName.polytopeContentType, text)).toList ++
    (contentLength.map fun length =>
      (HeaderName.polytopeContentLength, toString length.toNat)).toList

def resultToResponse (result : JobResult) (retryAfterSecs : Nat) : Option (Response http) :=
  match result with
  | .success contentType _ stream =>
      some (intoResponse http [(.contentType, contentType)]
        { status := 200, headers := [], body := .stream stream })
  | .redirect location _ contentType contentLength =>
      build http 303 (redirectHeaders location contentType contentLength) .empty
  | .error message => some (jsonError http 400 "JOB_ERROR" message false)
  | .failed _ => some (jsonError http 500 "JOB_FAILED" "internal server error" false)
  | .overloaded reason => some (overloadedResponse http reason retryAfterSecs)
  | .rateLimited reason => some (rateLimitedResponse http reason retryAfterSecs)
  | .cancelled => some (jsonError http 410 "ACTION_CANCELLED" "job was cancelled" false)
  | .clientGone => some (jsonError http 410 "ACTION_CLIENT_GONE" "client disconnected" false)

/-- The answer to a poll that ended with `outcome`; there is none when the handler panics. -/
def pollById (outcome : PollOutcome) (retryAfterSecs : Nat) : Option (Response http) :=
  match outcome with
  | .ready result => resultToResponse http result retryAfterSecs
  | .pending id status =>
      build http 303 [(.location, s!"/job/{id}"), (.retryAfter, "0"),
        (.pendingStatus, status.asStr)] .empty
  | .notFound =>
      some (jsonError http 404 "JOB_NOT_FOUND" "job does not exist or was already consumed" false)
  | .jobLost =>
      some (jsonError http 410 "JOB_LOST" "job existed but is no longer recoverable" false)

end Handlers

section Headers

variable {http : HttpText}

theorem buildHeaders_reads (lawful : http.Lawful) : ∀ headers : List (HeaderName × String),
    (∀ header ∈ headers, HeaderText header.2) →
      ∃ built, buildHeaders http headers = some built ∧ ∀ name,
        ((built.find? fun header => header.1 == name).map (·.2)).bind http.toStr =
          (headers.find? fun header => header.1 == name).map (·.2) := by
  intro headers
  induction headers with
  | nil =>
      intro _
      exact ⟨[], rfl, fun _ => rfl⟩
  | cons header rest ih =>
      intro texts
      obtain ⟨name, text⟩ := header
      obtain ⟨value, accepted, read⟩ := lawful.accepts text (texts (name, text) (by simp))
      obtain ⟨built, builtRest, readRest⟩ := ih fun header member => texts header (by simp [member])
      refine ⟨(name, value) :: built, by simp [buildHeaders, accepted, builtRest], ?_⟩
      intro wanted
      by_cases here : name = wanted
      · simp [here, read]
      · simp [here, readRest wanted]

theorem headerText_of_all {text : String} (all : text.toList.all isHeaderText = true) :
    HeaderText text := List.all_eq_true.mp all

theorem headerText_toString (n : Nat) : HeaderText (toString n) := by
  intro ch member
  have digit : ch.isDigit = true := by
    have inside : ch ∈ Nat.toDigits 10 n := by simpa [Nat.toList_repr] using member
    exact Nat.isDigit_of_mem_toDigits (by decide) (by decide) inside
  simp only [Char.isDigit, Bool.and_eq_true, decide_eq_true_eq] at digit
  obtain ⟨low, high⟩ := digit
  have above : 48 ≤ ch.toNat := UInt32.le_iff_toNat_le.mp low
  have below : ch.toNat ≤ 57 := UInt32.le_iff_toNat_le.mp high
  simp only [isHeaderText, Bool.or_eq_true, Bool.and_eq_true, decide_eq_true_eq]
  right
  omega

theorem headerText_append {front back : String} (first : HeaderText front)
    (second : HeaderText back) : HeaderText (front ++ back) := by
  intro ch member
  rw [String.toList_append, List.mem_append] at member
  rcases member with inFront | inBack
  · exact first ch inFront
  · exact second ch inBack

end Headers

end BitsBroker
