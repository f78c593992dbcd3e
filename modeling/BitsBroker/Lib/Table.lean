import Mathlib.Data.List.Basic

/-!
Tables: lists whose entries are named by their index. An entry is replaced in place or
added at the end, so a lookup after an update is a lookup before it or the new entry.
-/

namespace Table

theorem getElem?_of_set {A : Type} {values : List A} {i j : Nat} {value found : A}
    (present : (values.set i value)[j]? = some found) :
    j = i ∧ found = value ∨ j ≠ i ∧ values[j]? = some found := by
  rw [List.getElem?_set] at present
  split at present
  next same =>
    split at present
    · simp only [Option.some.injEq] at present
      exact Or.inl ⟨same.symm, present.symm⟩
    · simp at present
  next different => exact Or.inr ⟨Ne.symm different, present⟩

/-- Two tables that are updated at the same index. -/
theorem getElem?_of_set_both {A B : Type} {values : List A} {others : List B} {i j : Nat}
    {value found : A} {other known : B} (present : (values.set i value)[j]? = some found)
    (presentToo : (others.set i other)[j]? = some known) :
    j = i ∧ found = value ∧ known = other ∨
      j ≠ i ∧ values[j]? = some found ∧ others[j]? = some known := by
  rcases getElem?_of_set present with ⟨here, isValue⟩ | ⟨different, away⟩
  · rcases getElem?_of_set presentToo with ⟨_, isOther⟩ | ⟨different, _⟩
    · exact Or.inl ⟨here, isValue, isOther⟩
    · exact absurd here different
  · rcases getElem?_of_set presentToo with ⟨here, _⟩ | ⟨_, awayToo⟩
    · exact absurd here different
    · exact Or.inr ⟨different, away, awayToo⟩

theorem getElem?_of_snoc {A : Type} {values : List A} {j : Nat} {last found : A}
    (present : (values ++ [last])[j]? = some found) :
    values[j]? = some found ∨ j = values.length ∧ found = last := by
  rw [List.getElem?_append] at present
  split at present
  · exact Or.inl present
  next beyond =>
    rw [List.getElem?_singleton] at present
    split at present
    · simp only [Option.some.injEq] at present
      exact Or.inr ⟨by omega, present.symm⟩
    · simp at present

theorem exists_of_set {A : Type} {values : List A} {holds : A → Prop} {i : Nat} {old new : A}
    (some_ : ∃ (j : Nat) (value : A), values[j]? = some value ∧ holds value)
    (present : values[i]? = some old) (keeps : holds old → holds new) :
    ∃ (j : Nat) (value : A), (values.set i new)[j]? = some value ∧ holds value := by
  obtain ⟨j, value, there, has⟩ := some_
  by_cases here : i = j
  · subst here
    obtain rfl := Option.some.inj (present.symm.trans there)
    exact ⟨i, new, List.getElem?_set_self (List.getElem?_eq_some_iff.mp present).1, keeps has⟩
  · exact ⟨j, value, by rw [List.getElem?_set_ne here]; exact there, has⟩

theorem map_set_of_eq {A B : Type} (f : A → B) {values : List A} {i : Nat} {old new : A}
    (present : values[i]? = some old) (same : f new = f old) :
    (values.set i new).map f = values.map f := by
  apply List.ext_getElem?
  intro j
  simp only [List.getElem?_map, List.getElem?_set]
  by_cases here : i = j
  · subst here
    obtain ⟨bound, value⟩ := List.getElem?_eq_some_iff.mp present
    simp [bound, value, same]
  · simp [here]

theorem any_iff_getElem? {p : A → Bool} {l : List A} :
    l.any p = true ↔ ∃ (i : Nat) (a : A), l[i]? = some a ∧ p a = true := by
  rw [List.any_eq_true]
  constructor
  · rintro ⟨a, inside, holds⟩
    obtain ⟨i, present⟩ := List.mem_iff_getElem?.mp inside
    exact ⟨i, a, present, holds⟩
  · rintro ⟨i, a, present, holds⟩
    exact ⟨a, List.mem_of_getElem? present, holds⟩

end Table
