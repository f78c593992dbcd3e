import Mathlib.Algebra.Group.Nat.Defs
import Mathlib.Data.List.Induction

/-!
Numbers written with a fixed number of digits, most significant digit first. Writing a
number that fits and reading it back gives the number, and reading digits and writing the
value at the same length gives the digits.
-/

namespace Positional

def digits (base : Nat) : Nat → Nat → List Nat
  | 0, _ => []
  | len + 1, value => digits base len (value / base) ++ [value % base]

def value (base : Nat) (written : List Nat) : Nat :=
  written.foldl (fun total digit => total * base + digit) 0

theorem value_snoc (base : Nat) (front : List Nat) (last : Nat) :
    value base (front ++ [last]) = value base front * base + last := by
  simp [value]

theorem length_digits (base len number : Nat) : (digits base len number).length = len := by
  induction len generalizing number with
  | zero => simp [digits]
  | succ len ih => simp [digits, ih]

theorem digits_lt {base : Nat} (positive : 0 < base) (len number : Nat) :
    ∀ digit ∈ digits base len number, digit < base := by
  induction len generalizing number with
  | zero => simp [digits]
  | succ len ih =>
      intro digit member
      rw [digits, List.mem_append] at member
      rcases member with front | last
      · exact ih (number / base) digit front
      · obtain rfl : digit = number % base := by simpa using last
        exact Nat.mod_lt _ positive

theorem value_digits (base len : Nat) : ∀ {number : Nat}, number < base ^ len →
    value base (digits base len number) = number := by
  induction len with
  | zero =>
      intro number bound
      have zero : number = 0 := by simpa using bound
      simp [digits, value, zero]
  | succ len ih =>
      intro number bound
      have shorter : number / base < base ^ len := by
        apply Nat.div_lt_of_lt_mul
        rwa [Nat.mul_comm, ← Nat.pow_succ]
      rw [digits, value_snoc, ih shorter]
      exact Nat.div_add_mod' number base

theorem value_lt {base : Nat} : ∀ {written : List Nat}, (∀ digit ∈ written, digit < base) →
    value base written < base ^ written.length := by
  intro written
  induction written using List.reverseRecOn with
  | nil => simp [value]
  | append_singleton front last ih =>
      intro bounded
      have small := ih fun digit member => bounded digit (by simp [member])
      have lastSmall := bounded last (by simp)
      rw [value_snoc, List.length_append, List.length_singleton, Nat.pow_succ]
      calc value base front * base + last
          < value base front * base + base := by omega
        _ = (value base front + 1) * base := by rw [Nat.succ_mul]
        _ ≤ base ^ front.length * base := Nat.mul_le_mul_right base small

theorem digits_value {base : Nat} : ∀ {written : List Nat}, (∀ digit ∈ written, digit < base) →
    digits base written.length (value base written) = written := by
  intro written
  induction written using List.reverseRecOn with
  | nil => simp [digits]
  | append_singleton front last ih =>
      intro bounded
      have rest := ih fun digit member => bounded digit (by simp [member])
      have lastSmall := bounded last (by simp)
      have positive : 0 < base := by omega
      have quotient : (value base front * base + last) / base = value base front := by
        rw [Nat.add_comm, Nat.add_mul_div_right _ _ positive, Nat.div_eq_of_lt lastSmall]
        omega
      have remainder : (value base front * base + last) % base = last := by
        rw [Nat.add_comm, Nat.add_mul_mod_self_right]
        exact Nat.mod_eq_of_lt lastSmall
      rw [value_snoc, List.length_append, List.length_singleton, digits, quotient, remainder, rest]

theorem value_le_foldl {base : Nat} (positive : 0 < base) (rest : List Nat) : ∀ total,
    total ≤ rest.foldl (fun total digit => total * base + digit) total := by
  induction rest with
  | nil => simp
  | cons digit rest ih =>
      intro total
      have grown : total ≤ total * base + digit := by
        have := Nat.le_mul_of_pos_right total positive
        omega
      exact Nat.le_trans grown (ih _)

end Positional
