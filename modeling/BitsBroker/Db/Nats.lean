import BitsBroker.Db.Memory
import BitsBroker.Lib.Hex

/-!
The admission slots of the NATS store. A slot is kept under a key of four words joined by dots,
and the words for scope, user and job are the hexadecimal digits of their UTF-8 bytes, so no
word holds a dot and different slots have different keys. The slots of one user are listed
through a subject filter; the filter of the server is the documented one, where `*` stands for
one word and a final `>` for one or more words.

A bucket holds the current entry of each key. Its calls are modelled one after the other, and
the errors of the client library are given from outside.
-/

namespace BitsBroker

inductive KvOperation (V : Type) where
  | put (value : V)
  | delete
  | purge

structure KvEntry (V : Type) where
  key : String
  revision : Nat
  operation : KvOperation V

namespace NatsStore

def hexToken (s : String) : String := String.ofList (Hex.bytes s.toByteArray.data.toList)

def userSlotKey (scope user jobId : String) : String :=
  s!"ul.{hexToken scope}.{hexToken user}.{hexToken jobId}"

def userSlotPrefix (scope user : String) : String := s!"ul.{hexToken scope}.{hexToken user}."

def startsWith (s start : String) : Bool := start.toList.isPrefixOf s.toList

def wordsMatch : List (List Char) → List (List Char) → Bool
  | [['>']], _ :: _ => true
  | word :: pattern, first :: others =>
      (decide (word = ['*']) || decide (word = first)) && wordsMatch pattern others
  | [], [] => true
  | _, _ => false

def subjectMatches (pattern subject : String) : Bool :=
  wordsMatch (pattern.toList.splitOn '.') (subject.toList.splitOn '.')

def scanCurrentEntries {V : Type} (entries : List (KvEntry V)) (keyPattern : String) :
    List (KvEntry V) :=
  entries.filter fun current => subjectMatches keyPattern current.key

def allKeys : String := ">"

theorem scanCurrentEntries_allKeys {V : Type} (entries : List (KvEntry V)) :
    scanCurrentEntries entries allKeys = entries := by
  apply List.filter_eq_self.mpr
  intro current _
  have pattern : allKeys.toList.splitOn '.' = [['>']] := by decide
  rw [subjectMatches, pattern]
  cases words : current.key.toList.splitOn '.' with
  | nil => exact absurd words (List.splitOn_ne_nil _ _)
  | cons first others => rfl

section Keys

theorem toList_hexToken (s : String) :
    (hexToken s).toList = Hex.bytes s.toByteArray.data.toList := String.toList_ofList

theorem hexToken_inj {left right : String} (same : hexToken left = hexToken right) :
    left = right := by
  have digits := Hex.bytes_inj (String.ofList_injective same)
  apply String.toByteArray_inj.mp
  apply ByteArray.ext
  exact Array.toList_inj.mp digits

theorem hexToken_isDigit {s : String} {c : Char} (member : c ∈ (hexToken s).toList) :
    Hex.IsDigit c := by
  rw [toList_hexToken] at member
  exact Hex.bytes_isDigit member

theorem dot_not_mem (s : String) : '.' ∉ (hexToken s).toList := by
  intro member
  have digit := hexToken_isDigit member
  revert digit
  decide

theorem toList_userSlotPrefix (scope user : String) :
    (userSlotPrefix scope user).toList =
      "ul".toList ++ '.' :: ((hexToken scope).toList ++ '.' :: ((hexToken user).toList ++ ['.'])) := by
  simp [userSlotPrefix, toString]

theorem toList_userSlotKey (scope user jobId : String) :
    (userSlotKey scope user jobId).toList =
      (userSlotPrefix scope user).toList ++ (hexToken jobId).toList := by
  simp [userSlotKey, userSlotPrefix, toString]

theorem userSlotPrefix_cut {scope user other name : String} {rest others : List Char}
    (same : (userSlotPrefix scope user).toList ++ rest =
      (userSlotPrefix other name).toList ++ others) :
    scope = other ∧ user = name ∧ rest = others := by
  rw [toList_userSlotPrefix, toList_userSlotPrefix] at same
  simp only [List.append_assoc, List.cons_append, List.nil_append, List.append_cancel_left_eq,
    List.cons.injEq, true_and] at same
  obtain ⟨scopes, tails⟩ := Hex.word_inj (dot_not_mem scope) (dot_not_mem other) same
  obtain ⟨users, tails⟩ := Hex.word_inj (dot_not_mem user) (dot_not_mem name) tails
  exact ⟨hexToken_inj (String.toList_injective scopes),
    hexToken_inj (String.toList_injective users), tails⟩

theorem userSlotKey_inj {scope user jobId other name job : String}
    (same : userSlotKey scope user jobId = userSlotKey other name job) :
    scope = other ∧ user = name ∧ jobId = job := by
  have chars := congrArg String.toList same
  rw [toList_userSlotKey, toList_userSlotKey] at chars
  obtain ⟨scopes, users, jobs⟩ := userSlotPrefix_cut chars
  exact ⟨scopes, users, hexToken_inj (String.toList_injective jobs)⟩

theorem startsWith_userSlotPrefix (scope user jobId other name : String) :
    startsWith (userSlotKey scope user jobId) (userSlotPrefix other name) = true ↔
      scope = other ∧ user = name := by
  rw [startsWith, List.isPrefixOf_iff_prefix, toList_userSlotKey]
  constructor
  · rintro ⟨rest, same⟩
    obtain ⟨scopes, users, _⟩ := userSlotPrefix_cut same
    exact ⟨scopes.symm, users.symm⟩
  · rintro ⟨rfl, rfl⟩
    exact ⟨_, rfl⟩

/-- The characters of a key: digits, lower-case letters and dots. -/
def KeyChar (c : Char) : Prop := '0' ≤ c ∧ c ≤ '9' ∨ 'a' ≤ c ∧ c ≤ 'z' ∨ c = '.'

theorem keyChar_of_isDigit {c : Char} (digit : Hex.IsDigit c) : KeyChar c := by
  rcases digit with decimal | ⟨above, below⟩
  · exact Or.inl decimal
  · exact Or.inr (Or.inl ⟨above, Char.le_trans below (by decide)⟩)

theorem keyChar_of_mem {scope user jobId : String} {c : Char}
    (member : c ∈ (userSlotKey scope user jobId).toList) : KeyChar c := by
  rw [toList_userSlotKey, toList_userSlotPrefix] at member
  simp only [List.mem_append, List.mem_cons, List.not_mem_nil, or_false] at member
  have dot : KeyChar '.' := Or.inr (Or.inr rfl)
  rcases member with (start | rfl | inside | rfl | inside | rfl) | inside
  · have letters : c = 'u' ∨ c = 'l' := by simpa using start
    rcases letters with rfl | rfl
    · exact Or.inr (Or.inl ⟨by decide, by decide⟩)
    · exact Or.inr (Or.inl ⟨by decide, by decide⟩)
  · exact dot
  · exact keyChar_of_isDigit (hexToken_isDigit inside)
  · exact dot
  · exact keyChar_of_isDigit (hexToken_isDigit inside)
  · exact dot
  · exact keyChar_of_isDigit (hexToken_isDigit inside)

theorem count_dot_hexToken (s : String) : (hexToken s).toList.count '.' = 0 :=
  List.count_eq_zero.mpr (dot_not_mem s)

theorem count_dot_userSlotKey (scope user jobId : String) :
    (userSlotKey scope user jobId).toList.count '.' = 3 := by
  rw [toList_userSlotKey, toList_userSlotPrefix]
  simp only [List.count_append, List.count_cons, List.count_nil, count_dot_hexToken]
  decide

theorem splitOn_userSlotPrefix (scope user : String) {last : List Char} (free : '.' ∉ last) :
    ((userSlotPrefix scope user).toList ++ last).splitOn '.' =
      ["ul".toList, (hexToken scope).toList, (hexToken user).toList, last] := by
  have joined : (userSlotPrefix scope user).toList ++ last = ['.'].intercalate
      ["ul".toList, (hexToken scope).toList, (hexToken user).toList, last] := by
    rw [toList_userSlotPrefix]
    simp [List.intercalate]
  rw [joined]
  apply List.splitOn_intercalate
  · intro word member
    simp only [List.mem_cons, List.not_mem_nil, or_false] at member
    rcases member with rfl | rfl | rfl | rfl
    · decide
    · exact dot_not_mem scope
    · exact dot_not_mem user
    · exact free
  · exact List.cons_ne_nil _ _

theorem hexToken_ne_star (s : String) : (hexToken s).toList ≠ ['*'] := by
  intro star
  have digit : Hex.IsDigit '*' := hexToken_isDigit (s := s) (star ▸ List.mem_singleton_self _)
  revert digit
  decide

theorem hexToken_toList_inj {left right : String} :
    (hexToken left).toList = (hexToken right).toList ↔ left = right := by
  constructor
  · intro same
    exact hexToken_inj (String.toList_injective same)
  · rintro rfl
    rfl

/-- The filter of a user's listing lets through the keys of that user in that scope. -/
theorem subjectMatches_userSlotKey (scope user other name job : String) :
    subjectMatches (userSlotPrefix scope user ++ ">") (userSlotKey other name job) = true ↔
      other = scope ∧ name = user := by
  have pattern : (userSlotPrefix scope user ++ ">").toList =
      (userSlotPrefix scope user).toList ++ ['>'] := String.toList_append
  rw [subjectMatches, pattern, splitOn_userSlotPrefix scope user (by decide), toList_userSlotKey,
    splitOn_userSlotPrefix other name (dot_not_mem job)]
  simp [wordsMatch, hexToken_ne_star, hexToken_toList_inj]
  constructor
  · rintro ⟨rfl, rfl⟩
    exact ⟨rfl, rfl⟩
  · rintro ⟨rfl, rfl⟩
    exact ⟨rfl, rfl⟩

end Keys

/-- A key has one current entry, and every value is stored under its own key. -/
structure Bucket {V : Type} (keyOf : V → String) where
  lastRevision : Nat
  entries : List (KvEntry V)
  distinct : (entries.map (·.key)).Nodup
  keyed : ∀ entry ∈ entries, ∀ value, entry.operation = .put value → entry.key = keyOf value

namespace Bucket

variable {V : Type} {keyOf : V → String}

def new (keyOf : V → String) : Bucket keyOf where
  lastRevision := 0
  entries := []
  distinct := List.nodup_nil
  keyed := by simp

def entry (bucket : Bucket keyOf) (key : String) : Option (KvEntry V) :=
  bucket.entries.find? fun current => current.key = key

def write (bucket : Bucket keyOf) (key : String) (operation : KvOperation V)
    (named : ∀ value, operation = .put value → key = keyOf value) : Bucket keyOf where
  lastRevision := bucket.lastRevision + 1
  entries := bucket.entries.filter (fun current => current.key ≠ key) ++
    [⟨key, bucket.lastRevision + 1, operation⟩]
  distinct := by
    rw [List.map_append, List.map_singleton, List.nodup_append']
    refine ⟨(bucket.distinct.sublist (List.filter_sublist.map _)), List.nodup_singleton _, ?_⟩
    intro other kept written
    obtain ⟨current, inside, rfl⟩ := List.mem_map.mp kept
    have differs := (List.mem_filter.mp inside).2
    simp only [decide_eq_true_eq, ne_eq] at differs
    exact differs (List.mem_singleton.mp written)
  keyed := by
    intro entry member value put
    rcases List.mem_append.mp member with kept | written
    · exact bucket.keyed entry (List.mem_filter.mp kept).1 value put
    · rw [List.mem_singleton] at written
      subst written
      exact named value put

def put (bucket : Bucket keyOf) (value : V) : Bucket keyOf :=
  bucket.write (keyOf value) (.put value) (by
    intro other same
    cases same
    rfl)

def purgeExpiring (bucket : Bucket keyOf) (key : String) : Bucket keyOf :=
  bucket.write key .purge (by
    intro value put
    cases put)

end Bucket

def slotKeyOf (value : UserLimitEntry) : String :=
  userSlotKey value.scope value.user value.jobId

abbrev UserLimits : Type := Bucket slotKeyOf

namespace UserLimits

/-- The slot of a call that creates it. -/
def created (scope user jobId ownerBrokerId : String) (now : Nat) : UserLimitEntry :=
  { scope, user, jobId, ownerBrokerId, seq := 0, createdAt := now }

def reserveUserSlotNats (bucket : UserLimits) (scope user jobId ownerBrokerId : String)
    (now : Nat) (getFault createFault : Option String) : Except DbError (Nat × UserLimits) :=
  match getFault with
  | some e => .error (.backend s!"get user slot: {e}")
  | none =>
      match bucket.entry (userSlotKey scope user jobId) with
      | some ⟨_, revision, .put _⟩ => .ok (revision, bucket)
      | _ =>
          match createFault with
          | some e => .error (.backend s!"create user slot: {e}")
          | none =>
              let after := bucket.put (created scope user jobId ownerBrokerId now)
              .ok (after.lastRevision, after)

/-- The slot that an entry holds, ordered by the revision that created it. -/
def slot (current : KvEntry UserLimitEntry) : Option UserLimitEntry :=
  match current.operation with
  | .put value => some { value with seq := current.revision }
  | .delete | .purge => none

def listUserSlotsNats (bucket : UserLimits) (scope user : String) : List UserLimitEntry :=
  (scanCurrentEntries bucket.entries (userSlotPrefix scope user ++ ">")).filterMap slot

theorem listUserSlotsNats_eq (bucket : UserLimits) (scope user : String) :
    bucket.listUserSlotsNats scope user =
      (bucket.entries.filterMap slot).filter fun listed =>
        listed.scope = scope ∧ listed.user = user := by
  rw [listUserSlotsNats, scanCurrentEntries, List.filterMap_filter, List.filter_filterMap]
  apply List.filterMap_congr
  intro current member
  cases holds : current.operation with
  | delete => simp [slot, holds]
  | purge => simp [slot, holds]
  | put value =>
      have key : current.key = userSlotKey value.scope value.user value.jobId :=
        bucket.keyed current member value holds
      by_cases matching : value.scope = scope ∧ value.user = user
      · have passes := (subjectMatches_userSlotKey scope user _ _ value.jobId).mpr matching
        obtain ⟨rfl, rfl⟩ := matching
        simp [slot, holds, key, passes, Option.filter]
      · have blocked : ¬subjectMatches (userSlotPrefix scope user ++ ">")
            (userSlotKey value.scope value.user value.jobId) = true := fun passes =>
          matching ((subjectMatches_userSlotKey scope user _ _ value.jobId).mp passes)
        simp [slot, holds, key, blocked, Option.filter, matching]

end UserLimits

def brokerLeaseKey (brokerId : String) : String := s!"brokers.{brokerId}"

theorem brokerLeaseKey_inj {left right : String} (same : brokerLeaseKey left = brokerLeaseKey right) :
    left = right := by
  have chars := congrArg String.toList same
  simp only [brokerLeaseKey, toString, String.toList_append, List.append_cancel_left_eq] at chars
  exact String.toList_injective (by simpa using chars)

def leaseKeyOf (record : BrokerLeaseRecord) : String := brokerLeaseKey record.brokerId

abbrev Leases : Type := Bucket leaseKeyOf

namespace Leases

def getBrokerLease (leases : Leases) (brokerId : String) : Option BrokerLeaseRecord :=
  match leases.entry (brokerLeaseKey brokerId) with
  | some ⟨_, _, .put record⟩ => some record
  | _ => none

end Leases

/-- Different slots have different keys of lower-case letters, digits and three dots, a prefix
belongs to one scope and user, and a listing holds the slots of its scope and user. -/
theorem userSlotKey_separates :
    (∀ scope user jobId other name job,
      userSlotKey scope user jobId = userSlotKey other name job →
        scope = other ∧ user = name ∧ jobId = job) ∧
    (∀ scope user jobId, (∀ c ∈ (userSlotKey scope user jobId).toList, KeyChar c) ∧
      (userSlotKey scope user jobId).toList.count '.' = 3) ∧
    (∀ scope user jobId other name,
      startsWith (userSlotKey scope user jobId) (userSlotPrefix other name) = true ↔
        scope = other ∧ user = name) ∧
    ∀ (bucket : UserLimits) (scope user : String),
      bucket.listUserSlotsNats scope user =
        (bucket.entries.filterMap UserLimits.slot).filter fun listed =>
          listed.scope = scope ∧ listed.user = user := by
  refine ⟨?_, ?_, ?_, ?_⟩
  · intro scope user jobId other name job same
    exact userSlotKey_inj same
  · intro scope user jobId
    exact ⟨fun c member => keyChar_of_mem member, count_dot_userSlotKey scope user jobId⟩
  · exact startsWith_userSlotPrefix
  · exact UserLimits.listUserSlotsNats_eq

end NatsStore

end BitsBroker
