import BitsBroker.Lib.Positional
import BitsBroker.RequestId

/-!
Request identifiers as an exact code: every identifier that can be made is read back to the
fields it was made from, and every accepted text is the one that its fields encode to. The
layers are inverted one by one: bytes, base-32 characters, tags.
-/

namespace BitsBroker.RequestId

open Positional

theorem toBeBytes_eq_digits (len number : Nat) : toBeBytes len number = digits 256 len number := by
  induction len generalizing number with
  | zero => rfl
  | succ len ih => rw [toBeBytes, digits, ih]

theorem fromBeBytes_eq_value (bytes : List Nat) : fromBeBytes bytes = value 256 bytes := rfl

section Crockford

def crockfordChar (digit : Nat) : Char := crockfordAlphabet.getD digit '0'

theorem crockfordValue_crockfordChar : ∀ digit, digit < 32 →
    crockfordValue (crockfordChar digit) = some digit := by
  decide +kernel

theorem crockfordChar_of_value {ch : Char} {digit : Nat} (read : crockfordValue ch = some digit) :
    digit < 32 ∧ crockfordChar digit = ch := by
  unfold crockfordValue at read
  split at read
  · simp at read
  · obtain ⟨bound, found, _⟩ := List.findIdx?_eq_some_iff_getElem.mp read
    have same : crockfordAlphabet[digit] = ch := by simpa using found
    have length : crockfordAlphabet.length = 32 := by decide +kernel
    refine ⟨by omega, ?_⟩
    rw [crockfordChar, ← same]
    simp [bound]

theorem crockfordDigits_eq_map (len number : Nat) :
    crockfordDigits len number = (digits 32 len number).map crockfordChar := by
  induction len generalizing number with
  | zero => rfl
  | succ len ih =>
      rw [crockfordDigits, digits, ih, List.map_append]
      rfl

theorem readCrockford_map : ∀ (written : List Nat) (total : Nat),
    (∀ digit ∈ written, digit < 32) →
    written.foldl (fun total digit => total * 32 + digit) total < 2 ^ 128 →
    readCrockford total (written.map crockfordChar) =
      .ok (written.foldl (fun total digit => total * 32 + digit) total) := by
  intro written
  induction written with
  | nil => simp [readCrockford]
  | cons digit rest ih =>
      intro total bounded fits
      have first := crockfordValue_crockfordChar digit (bounded digit (by simp))
      have small : total * 32 + digit < 2 ^ 128 := by
        have grown := value_le_foldl (by decide : 0 < 32) rest (total * 32 + digit)
        exact Nat.lt_of_le_of_lt grown fits
      simp only [List.map_cons, readCrockford, first, List.foldl_cons]
      rw [if_pos small]
      exact ih _ (fun digit member => bounded digit (by simp [member])) fits

theorem readCrockford_ok : ∀ (chars : List Char) {total number : Nat},
    readCrockford total chars = .ok number → total < 2 ^ 128 →
    number < 2 ^ 128 ∧ ∃ written : List Nat, chars = written.map crockfordChar ∧
      (∀ digit ∈ written, digit < 32) ∧
      number = written.foldl (fun total digit => total * 32 + digit) total := by
  intro chars
  induction chars with
  | nil =>
      intro total number read small
      simp only [readCrockford, Except.ok.injEq] at read
      subst read
      exact ⟨small, [], rfl, by simp, rfl⟩
  | cons ch rest ih =>
      intro total number read small
      simp only [readCrockford] at read
      split at read
      · simp at read
      next digit found =>
        split at read
        next fits =>
          obtain ⟨bound, written, chars, bounded, eq⟩ := ih read fits
          obtain ⟨digitBound, same⟩ := crockfordChar_of_value found
          refine ⟨bound, digit :: written, by simp [chars, same], ?_, eq⟩
          intro other member
          rcases List.mem_cons.mp member with rfl | later
          · exact digitBound
          · exact bounded other later
        · simp at read

theorem decodeCrockford_encode {packed : List Nat} (length : packed.length = packedLen)
    (bytes : ∀ byte ∈ packed, byte < 256) :
    decodeCrockfordBase32 (encodeCrockfordBase32 packed) = .ok packed := by
  have fits : value 256 packed < 2 ^ 128 := by
    have bound := value_lt bytes
    rw [length] at bound
    exact bound
  have written : value 32 (digits 32 idLen (value 256 packed)) = value 256 packed :=
    value_digits 32 idLen (Nat.lt_trans fits (by decide))
  have read : readCrockford 0 ((digits 32 idLen (value 256 packed)).map crockfordChar) =
      .ok (value 256 packed) := by
    have all := readCrockford_map (digits 32 idLen (value 256 packed)) 0
      (digits_lt (by decide) _ _)
    unfold value at written all fits
    rw [written] at all
    exact all fits
  have unchanged : digits 256 packedLen (value 256 packed) = packed := by
    rw [← length]
    exact digits_value bytes
  unfold decodeCrockfordBase32 encodeCrockfordBase32
  rw [String.toList_ofList, crockfordDigits_eq_map, List.length_map, length_digits,
    fromBeBytes_eq_value, read]
  simp [toBeBytes_eq_digits, unchanged]

theorem encodeCrockford_decode {id : String} {packed : List Nat}
    (read : decodeCrockfordBase32 id = .ok packed) :
    encodeCrockfordBase32 packed = id ∧ packed.length = packedLen ∧
      ∀ byte ∈ packed, byte < 256 := by
  unfold decodeCrockfordBase32 at read
  split at read
  · simp at read
  next sized =>
    split at read
    · simp at read
    next number found =>
      simp only [Except.ok.injEq] at read
      obtain ⟨fits, written, chars, bounded, eq⟩ := readCrockford_ok id.toList found (by decide)
      have length : written.length = idLen := by
        have same : id.toList.length = idLen := by simpa using sized
        rwa [chars, List.length_map] at same
      have number_eq : number = value 32 written := eq
      have spelled : digits 32 idLen number = written := by
        rw [number_eq, ← length]
        exact digits_value bounded
      have packed_eq : packed = digits 256 packedLen number := by
        rw [← read, toBeBytes_eq_digits]
      refine ⟨?_, ?_, ?_⟩
      · rw [packed_eq, encodeCrockfordBase32, fromBeBytes_eq_value,
          value_digits 256 packedLen fits, crockfordDigits_eq_map, spelled, ← chars]
        exact String.ofList_toList
      · rw [packed_eq]
        exact length_digits 256 packedLen number
      · rw [packed_eq]
        exact digits_lt (by decide) packedLen number

end Crockford

section Tags

def isTagChar (ch : Char) : Prop := '0' ≤ ch ∧ ch ≤ '9' ∨ 'a' ≤ ch ∧ ch ≤ 'z'

/-- One to three characters of `[0-9a-z]`. -/
def ValidTag (tag : String) : Prop :=
  1 ≤ tag.toList.length ∧ tag.toList.length ≤ 3 ∧ ∀ ch ∈ tag.toList, isTagChar ch

theorem tagCharValue_valueChar : ∀ digit, digit < 36 →
    tagCharValue (valueChar digit) = .ok digit := by
  decide +kernel

theorem tagCharValue_of_isTagChar {ch : Char} (tag : isTagChar ch) :
    ∃ digit, digit < 36 ∧ tagCharValue ch = .ok digit ∧ valueChar digit = ch := by
  rcases tag with ⟨low, high⟩ | ⟨low, high⟩
  · have lowNat : 48 ≤ ch.toNat := UInt32.le_iff_toNat_le.mp low
    have highNat : ch.toNat ≤ 57 := UInt32.le_iff_toNat_le.mp high
    refine ⟨ch.toNat - 48, by omega, by simp [tagCharValue, low, high], ?_⟩
    have small : ch.toNat - 48 ≤ 9 := by omega
    have sum : '0'.toNat + (ch.toNat - 48) = ch.toNat := by
      have zero : '0'.toNat = 48 := by decide
      omega
    rw [valueChar, if_pos small, sum]
    exact Char.ofNat_toNat ch
  · have lowNat : 97 ≤ ch.toNat := UInt32.le_iff_toNat_le.mp low
    have highNat : ch.toNat ≤ 122 := UInt32.le_iff_toNat_le.mp high
    have notDigit : ¬ ('0' ≤ ch ∧ ch ≤ '9') := by
      rintro ⟨_, below⟩
      have belowNat : ch.toNat ≤ 57 := UInt32.le_iff_toNat_le.mp below
      omega
    refine ⟨ch.toNat - 97 + 10, by omega, ?_, ?_⟩
    · rw [tagCharValue, if_neg notDigit, if_pos ⟨low, high⟩]
      rfl
    · have large : ¬ ch.toNat - 97 + 10 ≤ 9 := by omega
      have sum : 'a'.toNat + (ch.toNat - 97 + 10 - 10) = ch.toNat := by
        have first : 'a'.toNat = 97 := by decide
        omega
      rw [valueChar, if_neg large, sum]
      exact Char.ofNat_toNat ch

theorem isTagChar_valueChar : ∀ digit, digit < 36 →
    '0' ≤ valueChar digit ∧ valueChar digit ≤ '9' ∨
      'a' ≤ valueChar digit ∧ valueChar digit ≤ 'z' := by
  decide +kernel

theorem mapM_tagCharValue : ∀ {chars : List Char}, (∀ ch ∈ chars, isTagChar ch) →
    ∃ read : List Nat, chars.mapM tagCharValue = .ok read ∧ (∀ digit ∈ read, digit < 36) ∧
      read.map valueChar = chars := by
  intro chars
  induction chars with
  | nil =>
      intro _
      exact ⟨[], rfl, by simp, rfl⟩
  | cons ch rest ih =>
      intro tags
      obtain ⟨digit, bound, found, back⟩ := tagCharValue_of_isTagChar (tags ch (by simp))
      obtain ⟨read, readRest, bounds, backRest⟩ := ih fun other member => tags other (by simp [member])
      refine ⟨digit :: read, ?_, ?_, by simp [back, backRest]⟩
      · rw [List.mapM_cons, found, readRest]
        rfl
      · intro other member
        rcases List.mem_cons.mp member with rfl | later
        · exact bound
        · exact bounds other later

theorem mapM_valueChar : ∀ {read : List Nat}, (∀ digit ∈ read, digit < 36) →
    (read.map valueChar).mapM tagCharValue = .ok read := by
  intro read
  induction read with
  | nil =>
      intro _
      rfl
  | cons digit rest ih =>
      intro bounds
      have found := tagCharValue_valueChar digit (bounds digit (by simp))
      have readRest := ih fun other member => bounds other (by simp [member])
      rw [List.map_cons, List.mapM_cons, found, readRest]
      rfl

def unpackDigits (written : List Nat) : Except DecodeError String :=
  match written.idxOf? base37Sentinel with
  | some 0 => .error .emptyTag
  | some index =>
      if (written.drop (index + 1)).any (· != base37Sentinel) then .error .embeddedSentinel
      else .ok (String.ofList ((written.take index).map valueChar))
  | none => .ok (String.ofList (written.map valueChar))

def padded (read : List Nat) : List Nat :=
  read ++ List.replicate (3 - read.length) base37Sentinel

def packDigits (written : List Nat) : Nat :=
  written.getD 0 0 * base37Radix * base37Radix + written.getD 1 0 * base37Radix + written.getD 2 0

theorem unpackTag_packDigits {a b c : Nat} (first : a < 37) (second : b < 37) (third : c < 37) :
    unpackTag (packDigits [a, b, c]) = unpackDigits [a, b, c] := by
  have number : packDigits [a, b, c] = a * 37 * 37 + b * 37 + c := rfl
  have inRange : ¬ base37Max ≤ packDigits [a, b, c] := by
    have top : base37Max = 50653 := rfl
    omega
  have high : packDigits [a, b, c] / (base37Radix * base37Radix) = a := by
    have square : base37Radix * base37Radix = 1369 := rfl
    rw [square]
    omega
  have middle : packDigits [a, b, c] / base37Radix % base37Radix = b := by
    have radix : base37Radix = 37 := rfl
    rw [radix]
    omega
  have low : packDigits [a, b, c] % base37Radix = c := by
    have radix : base37Radix = 37 := rfl
    rw [radix]
    omega
  unfold unpackTag
  rw [if_neg inRange, high, middle, low]
  rfl

theorem unpackTag_ok {number : Nat} {tag : String} (read : unpackTag number = .ok tag) :
    ∃ a b c, a < 37 ∧ b < 37 ∧ c < 37 ∧ number = packDigits [a, b, c] ∧
      unpackDigits [a, b, c] = .ok tag := by
  unfold unpackTag at read
  split at read
  · simp at read
  next inRange =>
    have top : base37Max = 50653 := rfl
    have radix : base37Radix = 37 := rfl
    refine ⟨number / (base37Radix * base37Radix), number / base37Radix % base37Radix,
      number % base37Radix, ?_, ?_, ?_, ?_, read⟩
    · rw [radix]
      omega
    · exact Nat.mod_lt _ (by decide)
    · exact Nat.mod_lt _ (by decide)
    · simp only [packDigits, List.getD_cons_zero, List.getD_cons_succ, radix]
      omega

/-- A tag of one to three digits, padded to three, is the only spelling of its digits. -/
theorem unpackDigits_ok {a b c : Nat} (first : a < 37) (second : b < 37) (third : c < 37)
    {tag : String} (read : unpackDigits [a, b, c] = .ok tag) :
    ∃ written : List Nat, 1 ≤ written.length ∧ written.length ≤ 3 ∧
      (∀ digit ∈ written, digit < 36) ∧ padded written = [a, b, c] ∧
      tag = String.ofList (written.map valueChar) := by
  have sentinel : base37Sentinel = 36 := rfl
  by_cases firstPad : a = 36
  · subst firstPad
    simp [unpackDigits, List.idxOf?_cons, sentinel] at read
  · by_cases secondPad : b = 36
    · subst secondPad
      by_cases thirdPad : c = 36
      · subst thirdPad
        simp [unpackDigits, List.idxOf?_cons, sentinel, firstPad] at read
        exact ⟨[a], by simp, by simp, by simp; omega, by simp [padded, sentinel], by simp [read]⟩
      · simp [unpackDigits, List.idxOf?_cons, sentinel, firstPad, thirdPad] at read
    · by_cases thirdPad : c = 36
      · subst thirdPad
        simp [unpackDigits, List.idxOf?_cons, sentinel, firstPad, secondPad] at read
        refine ⟨[a, b], by simp, by simp, ?_, by simp [padded, sentinel], by simp [read]⟩
        simp only [List.mem_cons, List.not_mem_nil, or_false]
        rintro digit (rfl | rfl) <;> omega
      · simp [unpackDigits, List.idxOf?_cons, sentinel, firstPad, secondPad, thirdPad] at read
        refine ⟨[a, b, c], by simp, by simp, ?_, by simp [padded], by simp [read]⟩
        simp only [List.mem_cons, List.not_mem_nil, or_false]
        rintro digit (rfl | rfl | rfl) <;> omega

theorem unpackTag_padded {read : List Nat} (nonempty : 1 ≤ read.length) (short : read.length ≤ 3)
    (bounds : ∀ digit ∈ read, digit < 36) :
    unpackTag (packDigits (padded read)) = .ok (String.ofList (read.map valueChar)) := by
  have sentinel : base37Sentinel = 36 := rfl
  match read with
  | [] => simp at nonempty
  | [a] =>
      have first := bounds a (by simp)
      have shape : padded [a] = [a, 36, 36] := rfl
      rw [shape, unpackTag_packDigits (by omega) (by omega) (by omega)]
      simp [unpackDigits, List.idxOf?_cons, sentinel, Nat.ne_of_lt first]
  | [a, b] =>
      have first := bounds a (by simp)
      have second := bounds b (by simp)
      have shape : padded [a, b] = [a, b, 36] := rfl
      rw [shape, unpackTag_packDigits (by omega) (by omega) (by omega)]
      simp [unpackDigits, List.idxOf?_cons, sentinel, Nat.ne_of_lt first, Nat.ne_of_lt second]
  | [a, b, c] =>
      have first := bounds a (by simp)
      have second := bounds b (by simp)
      have third := bounds c (by simp)
      have shape : padded [a, b, c] = [a, b, c] := rfl
      rw [shape, unpackTag_packDigits (by omega) (by omega) (by omega)]
      simp [unpackDigits, List.idxOf?_cons, sentinel, Nat.ne_of_lt first, Nat.ne_of_lt second,
        Nat.ne_of_lt third]
  | _ :: _ :: _ :: _ :: _ =>
      simp only [List.length_cons] at short
      omega

theorem packTag_of_read {tag : String} {read : List Nat}
    (found : tag.toList.mapM tagCharValue = .ok read) (nonempty : 1 ≤ tag.toList.length)
    (short : tag.toList.length ≤ 3) :
    tagDigits tag.toList = .ok (padded read) ∧ packTag tag = .ok (packDigits (padded read)) := by
  have digits_eq : tagDigits tag.toList = .ok (padded read) := by
    simp [tagDigits, found, padded]
  refine ⟨digits_eq, ?_⟩
  unfold packTag
  rw [if_neg (by omega), if_neg (by omega), digits_eq]
  rfl

theorem unpackTag_packTag {tag : String} (valid : ValidTag tag) :
    ∃ number, packTag tag = .ok number ∧ number < 2 ^ 16 ∧ unpackTag number = .ok tag := by
  obtain ⟨nonempty, short, chars⟩ := valid
  obtain ⟨read, found, bounds, back⟩ := mapM_tagCharValue chars
  have length : read.length = tag.toList.length := by rw [← back, List.length_map]
  have unpacked := unpackTag_padded (by omega) (by omega) bounds
  rw [back, String.ofList_toList] at unpacked
  refine ⟨_, (packTag_of_read found nonempty short).2, ?_, unpacked⟩
  obtain ⟨a, b, c, first, second, third, number, _⟩ := unpackTag_ok unpacked
  have shape : packDigits [a, b, c] = a * 37 * 37 + b * 37 + c := rfl
  omega

theorem packTag_unpackTag {number : Nat} {tag : String} (read : unpackTag number = .ok tag) :
    packTag tag = .ok number := by
  obtain ⟨a, b, c, first, second, third, eq, unpacked⟩ := unpackTag_ok read
  obtain ⟨written, nonempty, short, bounds, shape, rfl⟩ :=
    unpackDigits_ok first second third unpacked
  have found : (String.ofList (written.map valueChar)).toList.mapM tagCharValue = .ok written := by
    rw [String.toList_ofList]
    exact mapM_valueChar bounds
  have length : (String.ofList (written.map valueChar)).toList.length = written.length := by simp
  rw [(packTag_of_read found (by omega) (by omega)).2, shape, eq]

end Tags

section Fields

def packFields (site env seconds brokerSlot : Nat) (random : List Nat) : List Nat :=
  [idVersion] ++ toBeBytes 2 site ++ toBeBytes 2 env ++ toBeBytes 4 seconds ++
    toBeBytes 2 brokerSlot ++ random

theorem toBeBytes_two (number : Nat) : toBeBytes 2 number = [number / 256 % 256, number % 256] := by
  simp [toBeBytes]

theorem toBeBytes_four (number : Nat) : toBeBytes 4 number =
    [number / 256 / 256 / 256 % 256, number / 256 / 256 % 256, number / 256 % 256,
      number % 256] := by
  simp [toBeBytes]

theorem fromBeBytes_two (a b : Nat) : fromBeBytes [a, b] = a * 256 + b := by
  simp [fromBeBytes]

theorem fromBeBytes_four (a b c d : Nat) :
    fromBeBytes [a, b, c, d] = ((a * 256 + b) * 256 + c) * 256 + d := by
  simp [fromBeBytes]

theorem length_packFields {site env seconds brokerSlot : Nat} {random : List Nat}
    (five : random.length = 5) :
    (packFields site env seconds brokerSlot random).length = packedLen := by
  simp [packFields, toBeBytes_eq_digits, length_digits, five, packedLen]

theorem packFields_bytes {site env seconds brokerSlot : Nat} {random : List Nat}
    (bytes : ∀ byte ∈ random, byte < 256) :
    ∀ byte ∈ packFields site env seconds brokerSlot random, byte < 256 := by
  intro byte member
  simp only [packFields, toBeBytes_eq_digits, List.mem_append, List.mem_singleton] at member
  rcases member with ((((rfl | inSite) | inEnv) | inSeconds) | inSlot) | inRandom
  · decide
  · exact digits_lt (by decide) 2 site byte inSite
  · exact digits_lt (by decide) 2 env byte inEnv
  · exact digits_lt (by decide) 4 seconds byte inSeconds
  · exact digits_lt (by decide) 2 brokerSlot byte inSlot
  · exact bytes byte inRandom

theorem encode_of_fields {site env : String} {sitePacked envPacked seconds timestamp : Nat}
    (brokerSlot : Nat) (random : List Nat) (siteOk : packTag site = .ok sitePacked)
    (envOk : packTag env = .ok envPacked) (timeOk : timestampSeconds timestamp = .ok seconds) :
    encodeWithFixedRandom site env brokerSlot timestamp random =
      .ok (encodeCrockfordBase32 (packFields sitePacked envPacked seconds brokerSlot random)) := by
  simp [encodeWithFixedRandom, siteOk, envOk, timeOk, bind, Except.bind, pure, Except.pure,
    packFields]

theorem decode_of_fields {id site env : String} {sitePacked envPacked seconds brokerSlot : Nat}
    {random : List Nat} (five : random.length = 5)
    (read : decodeCrockfordBase32 id = .ok (packFields sitePacked envPacked seconds brokerSlot random))
    (siteBound : sitePacked < 2 ^ 16) (envBound : envPacked < 2 ^ 16)
    (secondsBound : seconds < 2 ^ 32) (slotBound : brokerSlot < 2 ^ 16)
    (siteOk : unpackTag sitePacked = .ok site) (envOk : unpackTag envPacked = .ok env) :
    decode id = .ok {
      version := idVersion
      site := site
      env := env
      timestamp := customEpoch + seconds * 1000000000
      brokerSlot := brokerSlot
      random := random } := by
  have siteBytes : fromBeBytes [sitePacked / 256 % 256, sitePacked % 256] = sitePacked := by
    rw [fromBeBytes_two]
    omega
  have envBytes : fromBeBytes [envPacked / 256 % 256, envPacked % 256] = envPacked := by
    rw [fromBeBytes_two]
    omega
  have slotBytes : fromBeBytes [brokerSlot / 256 % 256, brokerSlot % 256] = brokerSlot := by
    rw [fromBeBytes_two]
    omega
  have secondsBytes : fromBeBytes [seconds / 256 / 256 / 256 % 256, seconds / 256 / 256 % 256,
      seconds / 256 % 256, seconds % 256] = seconds := by
    rw [fromBeBytes_four]
    omega
  have whole : random.take 5 = random := List.take_of_length_le (by omega)
  simp only [packFields, toBeBytes_two, toBeBytes_four, List.cons_append, List.nil_append] at read
  simp [decode, read, bind, Except.bind, pure, Except.pure, siteBytes, envBytes, slotBytes,
    secondsBytes, siteOk, envOk, whole]

theorem drop_split (bytes : List Nat) (start len : Nat) :
    bytes.drop start = (bytes.drop start).take len ++ bytes.drop (start + len) := by
  have whole := List.take_append_drop len (bytes.drop start)
  rw [List.drop_drop] at whole
  exact whole.symm

theorem slice_length {packed : List Nat} (length : packed.length = packedLen) {start len : Nat}
    (inside : start + len ≤ packedLen) : ((packed.drop start).take len).length = len := by
  rw [List.length_take, List.length_drop]
  omega

theorem slice_lt {packed : List Nat} (bytes : ∀ byte ∈ packed, byte < 256) (start len : Nat) :
    ∀ byte ∈ (packed.drop start).take len, byte < 256 :=
  fun byte member => bytes byte (List.mem_of_mem_drop (List.mem_of_mem_take member))

theorem slice_value_lt {packed : List Nat} (length : packed.length = packedLen)
    (bytes : ∀ byte ∈ packed, byte < 256) {start len : Nat} (inside : start + len ≤ packedLen) :
    fromBeBytes ((packed.drop start).take len) < 256 ^ len := by
  have small := value_lt (slice_lt bytes start len)
  rwa [slice_length length inside] at small

theorem slice_bytes {packed : List Nat} (length : packed.length = packedLen)
    (bytes : ∀ byte ∈ packed, byte < 256) {start len : Nat} (inside : start + len ≤ packedLen) :
    toBeBytes len (fromBeBytes ((packed.drop start).take len)) = (packed.drop start).take len := by
  have back := digits_value (slice_lt bytes start len)
  rw [slice_length length inside] at back
  rw [toBeBytes_eq_digits, fromBeBytes_eq_value, back]

theorem fields_of_packed {packed : List Nat} (length : packed.length = packedLen)
    (bytes : ∀ byte ∈ packed, byte < 256) (version : packed.getD 0 0 = idVersion) :
    packed = packFields (fromBeBytes ((packed.drop 1).take 2)) (fromBeBytes ((packed.drop 3).take 2))
      (fromBeBytes ((packed.drop 5).take 4)) (fromBeBytes ((packed.drop 9).take 2))
      ((packed.drop 11).take 5) := by
  have first : packed.take 1 = [idVersion] := by
    cases packed with
    | nil => simp [packedLen] at length
    | cons byte rest => simpa using version
  have last : packed.drop 16 = [] := List.drop_eq_nil_of_le (by rw [length]; decide)
  unfold packFields
  rw [slice_bytes length bytes (by decide), slice_bytes length bytes (by decide),
    slice_bytes length bytes (by decide), slice_bytes length bytes (by decide), ← first]
  calc packed = packed.take 1 ++ packed.drop 1 := (List.take_append_drop 1 packed).symm
    _ = packed.take 1 ++ ((packed.drop 1).take 2 ++ ((packed.drop 3).take 2 ++
        ((packed.drop 5).take 4 ++ ((packed.drop 9).take 2 ++ ((packed.drop 11).take 5 ++
          packed.drop 16))))) := by
        rw [← drop_split packed 11 5, ← drop_split packed 9 2, ← drop_split packed 5 4,
          ← drop_split packed 3 2, ← drop_split packed 1 2]
    _ = _ := by
        rw [last]
        simp only [List.append_assoc, List.append_nil]

theorem fields_of_decode {id : String} {decoded : DecodedId} (accepted : decode id = .ok decoded) :
    ∃ sitePacked envPacked seconds, seconds < 2 ^ 32 ∧ decoded.brokerSlot < 2 ^ 16 ∧
      decoded.random.length = 5 ∧ (∀ byte ∈ decoded.random, byte < 256) ∧
      decodeCrockfordBase32 id =
        .ok (packFields sitePacked envPacked seconds decoded.brokerSlot decoded.random) ∧
      unpackTag sitePacked = .ok decoded.site ∧ unpackTag envPacked = .ok decoded.env ∧
      decoded.timestamp = customEpoch + seconds * 1000000000 := by
  obtain ⟨packed, read⟩ := decode_crockford accepted
  obtain ⟨_, length, bytes⟩ := encodeCrockford_decode read
  simp only [decode, read, bind, Except.bind, pure, Except.pure] at accepted
  split at accepted
  · simp [throw, throwThe, MonadExceptOf.throw] at accepted
  next version =>
    split at accepted
    · simp at accepted
    next site siteOk =>
      split at accepted
      · simp at accepted
      next env envOk =>
        simp only [Except.ok.injEq] at accepted
        subst accepted
        have shape := fields_of_packed length bytes (by simpa using version)
        exact ⟨_, _, _, slice_value_lt length bytes (by decide),
          slice_value_lt length bytes (by decide), slice_length length (by decide),
          slice_lt bytes 11 5, by rw [read, ← shape], siteOk, envOk, rfl⟩

end Fields

section RoundTrip

def u16Mul (a b : Nat) : Option Nat := if a * b < 2 ^ 16 then some (a * b) else none

def u16Add (a b : Nat) : Option Nat := if a + b < 2 ^ 16 then some (a + b) else none

/-- The sum of `packTag` in 16-bit arithmetic, absent when an operation overflows. -/
def packDigitsU16 (written : List Nat) : Option Nat :=
  (u16Mul (written.getD 0 0) base37Radix).bind fun scaled =>
    (u16Mul scaled base37Radix).bind fun high =>
      (u16Mul (written.getD 1 0) base37Radix).bind fun middle =>
        (u16Add high middle).bind fun front => u16Add front (written.getD 2 0)

def PacksInU16 (tag : String) : Prop :=
  ∃ written number, tagDigits tag.toList = .ok written ∧ packDigitsU16 written = some number ∧
    packTag tag = .ok number

structure Encodable (site env : String) (brokerSlot timestamp : Nat) (random : List Nat) :
    Prop where
  site : ValidTag site
  env : ValidTag env
  slot : brokerSlot < 2 ^ 16
  five : random.length = 5
  bytes : ∀ byte ∈ random, byte < 256
  after : customEpoch ≤ timestamp
  before : timestamp < customEpoch + 2 ^ 32 * 1000000000

theorem padded_shape {read : List Nat} (short : read.length ≤ 3)
    (bounds : ∀ digit ∈ read, digit < 36) :
    ∃ a b c, a < 37 ∧ b < 37 ∧ c < 37 ∧ padded read = [a, b, c] := by
  match read with
  | [] => exact ⟨36, 36, 36, by decide, by decide, by decide, rfl⟩
  | [a] =>
      have first := bounds a (by simp)
      exact ⟨a, 36, 36, by omega, by decide, by decide, rfl⟩
  | [a, b] =>
      have first := bounds a (by simp)
      have second := bounds b (by simp)
      exact ⟨a, b, 36, by omega, by omega, by decide, rfl⟩
  | [a, b, c] =>
      have first := bounds a (by simp)
      have second := bounds b (by simp)
      have third := bounds c (by simp)
      exact ⟨a, b, c, by omega, by omega, by omega, rfl⟩
  | _ :: _ :: _ :: _ :: _ =>
      simp only [List.length_cons] at short
      omega

theorem packDigitsU16_eq {a b c : Nat} (first : a < 37) (second : b < 37) (third : c < 37) :
    packDigitsU16 [a, b, c] = some (packDigits [a, b, c]) := by
  have radix : base37Radix = 37 := rfl
  have scaled : u16Mul a 37 = some (a * 37) := if_pos (by omega)
  have high : u16Mul (a * 37) 37 = some (a * 37 * 37) := if_pos (by omega)
  have middle : u16Mul b 37 = some (b * 37) := if_pos (by omega)
  have front : u16Add (a * 37 * 37) (b * 37) = some (a * 37 * 37 + b * 37) := if_pos (by omega)
  have whole : u16Add (a * 37 * 37 + b * 37) c = some (a * 37 * 37 + b * 37 + c) :=
    if_pos (by omega)
  simp [packDigitsU16, packDigits, radix, scaled, high, middle, front, whole]

theorem packsInU16 {tag : String} (valid : ValidTag tag) : PacksInU16 tag := by
  obtain ⟨nonempty, short, chars⟩ := valid
  obtain ⟨read, found, bounds, back⟩ := mapM_tagCharValue chars
  have length : read.length = tag.toList.length := by rw [← back, List.length_map]
  obtain ⟨digits_eq, packed⟩ := packTag_of_read found nonempty short
  refine ⟨padded read, packDigits (padded read), digits_eq, ?_, packed⟩
  obtain ⟨a, b, c, first, second, third, shape⟩ := padded_shape (by omega) bounds
  rw [shape]
  exact packDigitsU16_eq first second third

theorem validTag_of_unpackTag {number : Nat} {tag : String} (read : unpackTag number = .ok tag) :
    ValidTag tag := by
  obtain ⟨a, b, c, first, second, third, _, unpacked⟩ := unpackTag_ok read
  obtain ⟨written, nonempty, short, bounds, _, rfl⟩ := unpackDigits_ok first second third unpacked
  refine ⟨by simpa using nonempty, by simpa using short, ?_⟩
  intro ch member
  rw [String.toList_ofList, List.mem_map] at member
  obtain ⟨digit, inside, rfl⟩ := member
  exact isTagChar_valueChar digit (bounds digit inside)

theorem timestampSeconds_of_range {timestamp : Nat} (after : customEpoch ≤ timestamp)
    (before : timestamp < customEpoch + 2 ^ 32 * 1000000000) :
    timestampSeconds timestamp = .ok ((timestamp - customEpoch) / 1000000000) ∧
      (timestamp - customEpoch) / 1000000000 < 2 ^ 32 := by
  have seconds : (timestamp - customEpoch) / 1000000000 < 2 ^ 32 := by
    apply Nat.div_lt_of_lt_mul
    omega
  refine ⟨?_, seconds⟩
  unfold timestampSeconds
  rw [if_neg (by omega)]
  exact if_pos seconds

theorem decode_encode {site env : String} {brokerSlot timestamp : Nat} {random : List Nat}
    (fields : Encodable site env brokerSlot timestamp random) :
    ∃ id, encodeWithFixedRandom site env brokerSlot timestamp random = .ok id ∧
      decode id = .ok {
        version := idVersion
        site := site
        env := env
        timestamp := customEpoch + (timestamp - customEpoch) / 1000000000 * 1000000000
        brokerSlot := brokerSlot
        random := random } := by
  obtain ⟨sitePacked, siteOk, siteBound, siteBack⟩ := unpackTag_packTag fields.site
  obtain ⟨envPacked, envOk, envBound, envBack⟩ := unpackTag_packTag fields.env
  obtain ⟨timeOk, secondsBound⟩ := timestampSeconds_of_range fields.after fields.before
  have read : decodeCrockfordBase32 (encodeCrockfordBase32 (packFields sitePacked envPacked
      ((timestamp - customEpoch) / 1000000000) brokerSlot random)) = .ok (packFields sitePacked
        envPacked ((timestamp - customEpoch) / 1000000000) brokerSlot random) :=
    decodeCrockford_encode (length_packFields fields.five) (packFields_bytes fields.bytes)
  exact ⟨_, encode_of_fields brokerSlot random siteOk envOk timeOk,
    decode_of_fields fields.five read siteBound envBound secondsBound fields.slot siteBack envBack⟩

theorem encode_decode {id : String} {decoded : DecodedId} (accepted : decode id = .ok decoded) :
    Encodable decoded.site decoded.env decoded.brokerSlot decoded.timestamp decoded.random ∧
      encodeWithFixedRandom decoded.site decoded.env decoded.brokerSlot decoded.timestamp
        decoded.random = .ok id := by
  obtain ⟨sitePacked, envPacked, seconds, secondsBound, slot, five, bytes, read, siteOk, envOk,
    timestamp⟩ := fields_of_decode accepted
  have after : customEpoch ≤ decoded.timestamp := by omega
  have before : decoded.timestamp < customEpoch + 2 ^ 32 * 1000000000 := by omega
  have elapsed : (decoded.timestamp - customEpoch) / 1000000000 = seconds := by
    rw [timestamp, Nat.add_sub_cancel_left]
    exact Nat.mul_div_cancel seconds (by decide)
  have timeOk := (timestampSeconds_of_range after before).1
  rw [elapsed] at timeOk
  refine ⟨⟨validTag_of_unpackTag siteOk, validTag_of_unpackTag envOk, slot, five, bytes, after,
    before⟩, ?_⟩
  rw [encode_of_fields _ _ (packTag_unpackTag siteOk) (packTag_unpackTag envOk) timeOk,
    (encodeCrockford_decode read).1]

/-- Encoding and decoding request identifiers are inverse to each other: the fields survive, up
to the fraction of a second, and every accepted text is the encoding of the fields it decodes to. -/
theorem request_id_two_sided_inverse {site env : String} {brokerSlot timestamp : Nat}
    {random : List Nat} (fields : Encodable site env brokerSlot timestamp random) :
    (∃ id, encodeWithFixedRandom site env brokerSlot timestamp random = .ok id ∧
      id.toList.length = 26 ∧ PacksInU16 site ∧ PacksInU16 env ∧
      decode id = .ok {
        version := 1
        site := site
        env := env
        timestamp := customEpoch + (timestamp - customEpoch) / 1000000000 * 1000000000
        brokerSlot := brokerSlot
        random := random } ∧
      slotFromJobId id = .ok s!"{site}-{env}-{brokerSlot}") ∧
    (∀ id decoded, decode id = .ok decoded →
      Encodable decoded.site decoded.env decoded.brokerSlot decoded.timestamp decoded.random ∧
      encodeWithFixedRandom decoded.site decoded.env decoded.brokerSlot decoded.timestamp
        decoded.random = .ok id) ∧
    (∀ left right decoded, decode left = .ok decoded → decode right = .ok decoded →
      left = right) := by
  refine ⟨?_, ?_, ?_⟩
  · obtain ⟨id, encoded, back⟩ := decode_encode fields
    refine ⟨id, encoded, decode_length back, packsInU16 fields.site, packsInU16 fields.env, back, ?_⟩
    simp [slotFromJobId, back]
  · intro id decoded accepted
    exact encode_decode accepted
  · intro left right decoded leftOk rightOk
    have leftBack := (encode_decode leftOk).2
    have rightBack := (encode_decode rightOk).2
    rw [leftBack, Except.ok.injEq] at rightBack
    exact rightBack

theorem request_id_two_sided_inverse_bol_dev :
    ∃ id, encodeWithFixedRandom "bol" "dev" 65535 (customEpoch + 1500000000) [0, 1, 2, 254, 255] =
      .ok id ∧ decode id = .ok {
        version := 1
        site := "bol"
        env := "dev"
        timestamp := customEpoch + 1000000000
        brokerSlot := 65535
        random := [0, 1, 2, 254, 255] } := by
  have tags : ValidTag "bol" ∧ ValidTag "dev" := by
    refine ⟨⟨by decide, by decide, ?_⟩, ⟨by decide, by decide, ?_⟩⟩
    · simp [isTagChar]
    · simp [isTagChar]
  have fields : Encodable "bol" "dev" 65535 (customEpoch + 1500000000) [0, 1, 2, 254, 255] :=
    ⟨tags.1, tags.2, by decide, rfl, by decide, by omega, by omega⟩
  obtain ⟨⟨id, encoded, _, _, _, back, _⟩, _⟩ := request_id_two_sided_inverse fields
  exact ⟨id, encoded, back⟩

end RoundTrip

end BitsBroker.RequestId
