import Mathlib.Algebra.Group.Nat.Defs
import Mathlib.Data.List.Basic

/-!
Public request identifiers: sixteen packed bytes (version, site, environment,
seconds since a fixed epoch, broker slot, five random bytes) written as 26
Crockford base-32 characters. Timestamps are nanoseconds since the Unix epoch, so
`customEpoch` is `2025-01-01T00:00:00Z`. A tag is padded with a sentinel digit to
three base-37 places, and the base-32 reader keeps its accumulator below `2 ^ 128`.
-/

namespace BitsBroker.RequestId

def idVersion : Nat := 1

def customEpoch : Nat := 1735689600 * 1000000000

def crockfordAlphabet : List Char := "0123456789abcdefghjkmnpqrstvwxyz".toList

def idLen : Nat := 26
def packedLen : Nat := 16
def base37Sentinel : Nat := 36
def base37Radix : Nat := 37
def base37Max : Nat := base37Radix * base37Radix * base37Radix

structure DecodedId where
  version : Nat
  site : String
  env : String
  timestamp : Nat
  brokerSlot : Nat
  random : List Nat
deriving Repr, DecidableEq

inductive DecodeError where
  | wrongLength (actual : Nat)
  | disallowedCrockfordCharacter (ch : Char)
  | base32ValueOutOfRange
  | unknownVersion (version : Nat)
  | tagPackedValueOutOfRange (value : Nat)
  | emptyTag
  | embeddedSentinel
deriving Repr, DecidableEq

/-- A character as `{:?}` writes it between quotes, with `mark` for the quote. Beyond ASCII every
character is taken for a printable one. -/
def escapeDebug (mark ch : Char) : String :=
  if ch = mark ∨ ch = '\\' then String.ofList ['\\', ch]
  else if ch = '\x00' then "\\0"
  else if ch = '\t' then "\\t"
  else if ch = '\r' then "\\r"
  else if ch = '\n' then "\\n"
  else if ch.toNat < 32 ∨ ch.toNat = 127 then
    "\\u\x7b" ++ String.ofList (Nat.toDigits 16 ch.toNat) ++ "\x7d"
  else String.singleton ch

/-- A text as `{:?}` writes it. -/
def debugText (text : String) : String :=
  "\x22" ++ String.join (text.toList.map (escapeDebug (Char.ofNat 34))) ++ "\x22"

def debugChar (ch : Char) : String := "\x27" ++ escapeDebug (Char.ofNat 39) ch ++ "\x27"

def DecodeError.message : DecodeError → String
  | .wrongLength actual => s!"request ID must be exactly 26 characters, got {actual}"
  | .disallowedCrockfordCharacter ch =>
      s!"request ID contains disallowed Crockford base32 character {debugChar ch}"
  | .base32ValueOutOfRange => "request ID base32 value does not fit in 16 bytes"
  | .unknownVersion version => s!"unknown request ID version byte {version}"
  | .tagPackedValueOutOfRange value => s!"packed tag value {value} is outside the base37 range"
  | .emptyTag => "packed tag decodes to an empty tag"
  | .embeddedSentinel => "packed tag contains non-sentinel characters after a sentinel"

inductive EncodeError where
  | emptyTag
  | tagTooLong (actual : Nat)
  | invalidTagCharacter (ch : Char)
  | timestampBeforeCustomEpoch
  | timestampTooLarge
deriving Repr, DecidableEq

def toBeBytes : Nat → Nat → List Nat
  | 0, _ => []
  | len + 1, value => toBeBytes len (value / 256) ++ [value % 256]

def fromBeBytes (bytes : List Nat) : Nat :=
  bytes.foldl (fun value byte => value * 256 + byte) 0

def tagCharValue (ch : Char) : Except EncodeError Nat :=
  if '0' ≤ ch ∧ ch ≤ '9' then .ok (ch.toNat - '0'.toNat)
  else if 'a' ≤ ch ∧ ch ≤ 'z' then .ok (ch.toNat - 'a'.toNat + 10)
  else .error (.invalidTagCharacter ch)

def tagDigits (tag : List Char) : Except EncodeError (List Nat) :=
  match tag.mapM tagCharValue with
  | .error e => .error e
  | .ok digits => .ok (digits ++ List.replicate (3 - digits.length) base37Sentinel)

def packTag (tag : String) : Except EncodeError Nat :=
  let len := tag.toList.length
  if len = 0 then .error .emptyTag
  else if 3 < len then .error (.tagTooLong len)
  else match tagDigits tag.toList with
    | .error e => .error e
    | .ok digits =>
        .ok (digits.getD 0 0 * base37Radix * base37Radix + digits.getD 1 0 * base37Radix +
          digits.getD 2 0)

def valueChar (value : Nat) : Char :=
  if value ≤ 9 then Char.ofNat ('0'.toNat + value) else Char.ofNat ('a'.toNat + (value - 10))

def unpackTag (value : Nat) : Except DecodeError String :=
  if base37Max ≤ value then .error (.tagPackedValueOutOfRange value)
  else
    let digits := [value / (base37Radix * base37Radix), value / base37Radix % base37Radix,
      value % base37Radix]
    match digits.idxOf? base37Sentinel with
    | some 0 => .error .emptyTag
    | some index =>
        if (digits.drop (index + 1)).any (· != base37Sentinel) then .error .embeddedSentinel
        else .ok (String.ofList ((digits.take index).map valueChar))
    | none => .ok (String.ofList (digits.map valueChar))

def timestampSeconds (timestamp : Nat) : Except EncodeError Nat :=
  if timestamp < customEpoch then .error .timestampBeforeCustomEpoch
  else
    let seconds := (timestamp - customEpoch) / 1000000000
    if seconds < 2 ^ 32 then .ok seconds else .error .timestampTooLarge

def crockfordDigits : Nat → Nat → List Char
  | 0, _ => []
  | len + 1, value =>
      crockfordDigits len (value / 32) ++ [crockfordAlphabet.getD (value % 32) '0']

def encodeCrockfordBase32 (packed : List Nat) : String :=
  String.ofList (crockfordDigits idLen (fromBeBytes packed))

def crockfordValue (ch : Char) : Option Nat :=
  if 128 ≤ ch.toNat then none else crockfordAlphabet.idxOf? ch

def readCrockford : Nat → List Char → Except DecodeError Nat
  | value, [] => .ok value
  | value, ch :: rest =>
      match crockfordValue ch with
      | none => .error (.disallowedCrockfordCharacter ch)
      | some digit =>
          if value * 32 + digit < 2 ^ 128 then readCrockford (value * 32 + digit) rest
          else .error .base32ValueOutOfRange

def decodeCrockfordBase32 (id : String) : Except DecodeError (List Nat) :=
  if id.toList.length ≠ idLen then .error (.wrongLength id.toList.length)
  else match readCrockford 0 id.toList with
    | .error e => .error e
    | .ok value => .ok (toBeBytes packedLen value)

def encodeWithFixedRandom (site env : String) (brokerSlot timestamp : Nat) (random : List Nat) :
    Except EncodeError String := do
  let sitePacked ← packTag site
  let envPacked ← packTag env
  let timestampSec ← timestampSeconds timestamp
  return encodeCrockfordBase32 ([idVersion] ++ toBeBytes 2 sitePacked ++ toBeBytes 2 envPacked ++
    toBeBytes 4 timestampSec ++ toBeBytes 2 brokerSlot ++ random)

def decode (id : String) : Except DecodeError DecodedId := do
  let packed ← decodeCrockfordBase32 id
  let version := packed.getD 0 0
  if version ≠ idVersion then throw (.unknownVersion version)
  let site ← unpackTag (fromBeBytes ((packed.drop 1).take 2))
  let env ← unpackTag (fromBeBytes ((packed.drop 3).take 2))
  return {
    version := version
    site := site
    env := env
    timestamp := customEpoch + fromBeBytes ((packed.drop 5).take 4) * 1000000000
    brokerSlot := fromBeBytes ((packed.drop 9).take 2)
    random := (packed.drop 11).take 5
  }

def slotFromJobId (jobId : String) : Except DecodeError String :=
  match decode jobId with
  | .error e => .error e
  | .ok decoded => .ok s!"{decoded.site}-{decoded.env}-{decoded.brokerSlot}"

theorem crockfordValue_alphabet {ch : Char} {digit : Nat} (read : crockfordValue ch = some digit) :
    ch ∈ crockfordAlphabet := by
  unfold crockfordValue at read
  split at read
  · simp at read
  · by_contra absent
    have missing : crockfordAlphabet.idxOf? ch = none := by
      rw [List.idxOf?_eq_none_iff]
      exact absent
    simp [missing] at read

theorem readCrockford_alphabet (chars : List Char) : ∀ {value result : Nat},
    readCrockford value chars = .ok result → ∀ ch ∈ chars, ch ∈ crockfordAlphabet := by
  induction chars with
  | nil => simp
  | cons first rest ih =>
      intro value result read ch member
      simp only [readCrockford] at read
      split at read
      · simp at read
      next digit found =>
        split at read
        next small =>
          rcases List.mem_cons.mp member with same | later
          · subst same
            exact crockfordValue_alphabet found
          · exact ih read ch later
        next large => simp at read

theorem decode_crockford {id : String} {decoded : DecodedId} (ok : decode id = .ok decoded) :
    ∃ packed, decodeCrockfordBase32 id = .ok packed := by
  cases found : decodeCrockfordBase32 id with
  | ok packed => exact ⟨packed, rfl⟩
  | error e => simp [decode, found, bind, Except.bind] at ok

theorem decode_length {id : String} {decoded : DecodedId} (ok : decode id = .ok decoded) :
    id.toList.length = idLen := by
  obtain ⟨packed, found⟩ := decode_crockford ok
  unfold decodeCrockfordBase32 at found
  split at found
  · simp at found
  next same => simpa using same

theorem decode_alphabet {id : String} {decoded : DecodedId} (ok : decode id = .ok decoded) :
    ∀ ch ∈ id.toList, ch ∈ crockfordAlphabet := by
  obtain ⟨packed, found⟩ := decode_crockford ok
  unfold decodeCrockfordBase32 at found
  split at found
  · simp at found
  · split at found
    · simp at found
    next value read => exact readCrockford_alphabet _ read

end BitsBroker.RequestId
