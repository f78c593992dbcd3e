import Mathlib.Data.List.Basic

/-!
Bytes written with two lower-case hexadecimal digits each, and words that end at a separator.
The digits of a list of bytes determine the bytes, and a word without the separator is
determined by a text that starts with it.
-/

namespace Hex

def digit (value : Nat) : Char :=
  if value < 10 then Char.ofNat (48 + value) else Char.ofNat (87 + value)

def IsDigit (c : Char) : Prop := '0' ≤ c ∧ c ≤ '9' ∨ 'a' ≤ c ∧ c ≤ 'f'

instance (c : Char) : Decidable (IsDigit c) := inferInstanceAs (Decidable (_ ∨ _))

def byte (b : UInt8) : List Char := [digit (b.toNat / 16), digit (b.toNat % 16)]

def bytes (written : List UInt8) : List Char := written.flatMap byte

theorem digit_isDigit {value : Nat} (small : value < 16) : IsDigit (digit value) := by
  have all : ∀ value < 16, IsDigit (digit value) := by decide
  exact all value small

theorem digit_inj {left right : Nat} (leftSmall : left < 16) (rightSmall : right < 16)
    (same : digit left = digit right) : left = right := by
  have all : ∀ left < 16, ∀ right < 16, digit left = digit right → left = right := by decide
  exact all left leftSmall right rightSmall same

theorem nibbles_lt (b : UInt8) : b.toNat / 16 < 16 ∧ b.toNat % 16 < 16 := by
  have bound := b.toNat_lt
  omega

theorem byte_inj {left right : UInt8} (same : byte left = byte right) : left = right := by
  simp only [byte, List.cons.injEq, and_true] at same
  have high := digit_inj (nibbles_lt left).1 (nibbles_lt right).1 same.1
  have low := digit_inj (nibbles_lt left).2 (nibbles_lt right).2 same.2
  apply UInt8.toNat.inj
  omega

theorem bytes_isDigit {written : List UInt8} {c : Char} (member : c ∈ bytes written) :
    IsDigit c := by
  obtain ⟨b, _, inside⟩ := List.mem_flatMap.mp member
  simp only [byte, List.mem_cons, List.not_mem_nil, or_false] at inside
  rcases inside with rfl | rfl
  · exact digit_isDigit (nibbles_lt b).1
  · exact digit_isDigit (nibbles_lt b).2

theorem bytes_inj : ∀ {left right : List UInt8}, bytes left = bytes right → left = right := by
  intro left
  induction left with
  | nil =>
      intro right same
      cases right with
      | nil => rfl
      | cons b rest => cases same
  | cons a others ih =>
      intro right same
      cases right with
      | nil => cases same
      | cons b rest =>
          have parts : byte a ++ bytes others = byte b ++ bytes rest := same
          obtain ⟨head, tail⟩ := List.append_inj parts rfl
          rw [byte_inj head, ih tail]

theorem word_inj {A : Type} {separator : A} : ∀ {left right : List A}, separator ∉ left →
    separator ∉ right → ∀ {rest others : List A},
    left ++ separator :: rest = right ++ separator :: others → left = right ∧ rest = others := by
  intro left
  induction left with
  | nil =>
      intro right _ free rest others same
      cases right with
      | nil => simpa using same
      | cons first more =>
          simp only [List.nil_append, List.cons_append, List.cons.injEq] at same
          exact absurd (same.1 ▸ List.mem_cons_self) free
  | cons last words ih =>
      intro right leftFree free rest others same
      cases right with
      | nil =>
          simp only [List.nil_append, List.cons_append, List.cons.injEq] at same
          exact absurd (same.1 ▸ List.mem_cons_self) leftFree
      | cons first more =>
          simp only [List.cons_append, List.cons.injEq] at same
          have shorter : separator ∉ words := fun member => leftFree (List.mem_cons_of_mem _ member)
          have fewer : separator ∉ more := fun member => free (List.mem_cons_of_mem _ member)
          obtain ⟨words, tails⟩ := ih shorter fewer same.2
          rw [same.1, words]
          exact ⟨rfl, tails⟩

end Hex
