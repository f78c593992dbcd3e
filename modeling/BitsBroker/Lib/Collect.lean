import Mathlib.Algebra.Order.Group.Multiset

/-!
What the entries of a table carry, as a multiset. Replacing one entry of the table takes
out what the old entry carried and puts in what the new one carries, so a value that moves
from one table to another is accounted for by two of the rules below. The last part takes
the least entry out of an unordered collection.
-/

namespace Collect

variable {A B : Type}

def collect (f : A → Option B) (table : List A) : Multiset B :=
  (table.filterMap f : List B)

@[simp] theorem collect_nil (f : A → Option B) : collect f [] = 0 := rfl

theorem collect_cons (f : A → Option B) (entry : A) (table : List A) :
    collect f (entry :: table) = (f entry).elim (collect f table) (· ::ₘ collect f table) := by
  unfold collect
  cases carried : f entry with
  | none => simp [carried]
  | some value => simp [carried]

theorem collect_append (f : A → Option B) (front back : List A) :
    collect f (front ++ back) = collect f front + collect f back := by
  simp [collect]

theorem collect_snoc_none {f : A → Option B} {entry : A} (table : List A)
    (empty : f entry = none) : collect f (table ++ [entry]) = collect f table := by
  rw [collect_append, collect_cons, empty]
  simp

theorem collect_snoc_some {f : A → Option B} {entry : A} {value : B} (table : List A)
    (carried : f entry = some value) :
    collect f (table ++ [entry]) = collect f table + {value} := by
  rw [collect_append, collect_cons, carried]
  simp

theorem collect_set (f : A → Option B) {table : List A} {i : Nat} {old : A} (new : A)
    (present : table[i]? = some old) :
    collect f (table.set i new) + collect f [old] = collect f table + collect f [new] := by
  induction table generalizing i with
  | nil => simp at present
  | cons entry rest ih =>
      cases i with
      | zero =>
          simp only [List.getElem?_cons_zero, Option.some.injEq] at present
          subst present
          have front := collect_append f [new] rest
          have back := collect_append f [entry] rest
          simp only [List.cons_append, List.nil_append] at front back
          rw [List.set_cons_zero, front, back]
          ac_rfl
      | succ i =>
          simp only [List.getElem?_cons_succ] at present
          have later := ih present
          have front := collect_append f [entry] (rest.set i new)
          have back := collect_append f [entry] rest
          simp only [List.cons_append, List.nil_append] at front back
          rw [List.set_cons_succ, front, back, add_assoc, later, add_assoc]

theorem collect_set_same {f : A → Option B} {table : List A} {i : Nat} {old new : A}
    (present : table[i]? = some old) (same : f new = f old) :
    collect f (table.set i new) = collect f table := by
  have moved := collect_set f new present
  have alike : collect f [new] = collect f [old] := by
    rw [collect_cons, collect_cons, same]
  rw [alike] at moved
  exact add_right_cancel moved

theorem collect_set_gain {f : A → Option B} {table : List A} {i : Nat} {old new : A} {value : B}
    (present : table[i]? = some old) (before : f old = none) (after : f new = some value) :
    collect f (table.set i new) = collect f table + {value} := by
  have moved := collect_set f new present
  rw [collect_cons, collect_cons, before, after] at moved
  simpa using moved

theorem collect_set_lose {f : A → Option B} {table : List A} {i : Nat} {old new : A} {value : B}
    (present : table[i]? = some old) (before : f old = some value) (after : f new = none) :
    collect f table = collect f (table.set i new) + {value} := by
  have moved := collect_set f new present
  rw [collect_cons, collect_cons, before, after] at moved
  simpa using moved.symm

section Least

def popLeast (less : A → A → Bool) : List A → Option (A × List A)
  | [] => none
  | entry :: rest =>
      match popLeast less rest with
      | none => some (entry, [])
      | some (least, others) =>
          if less least entry then some (least, entry :: others)
          else some (entry, least :: others)

theorem popLeast_eq_none {less : A → A → Bool} {entries : List A} :
    popLeast less entries = none ↔ entries = [] := by
  cases entries with
  | nil => simp [popLeast]
  | cons entry rest =>
      simp only [popLeast, reduceCtorEq, iff_false]
      split
      · simp
      · split <;> simp

theorem popLeast_perm {less : A → A → Bool} {entries others : List A} {least : A}
    (popped : popLeast less entries = some (least, others)) :
    entries.Perm (least :: others) := by
  induction entries generalizing least others with
  | nil => simp [popLeast] at popped
  | cons entry rest ih =>
      simp only [popLeast] at popped
      split at popped
      next empty =>
        simp only [Option.some.injEq, Prod.mk.injEq] at popped
        obtain ⟨rfl, rfl⟩ := popped
        rw [popLeast_eq_none.mp empty]
      next smallest remaining found =>
        have below := ih found
        split at popped
        · simp only [Option.some.injEq, Prod.mk.injEq] at popped
          obtain ⟨rfl, rfl⟩ := popped
          exact (below.cons entry).trans (List.Perm.swap smallest entry remaining)
        · simp only [Option.some.injEq, Prod.mk.injEq] at popped
          obtain ⟨rfl, rfl⟩ := popped
          exact below.cons entry

/-- Nothing is less than what is popped, for a strict weak order. -/
theorem popLeast_least (less : A → A → Bool)
    (asymm : ∀ left right, less left right = true → less right left = false)
    (trans : ∀ first second third, less first second = false → less second third = false →
      less first third = false)
    {entries others : List A} {least : A} (popped : popLeast less entries = some (least, others)) :
    ∀ entry ∈ entries, less entry least = false := by
  have irrefl : ∀ entry, less entry entry = false := by
    intro entry
    by_contra before
    have after := asymm entry entry (Bool.not_eq_false _ ▸ before)
    exact before after
  induction entries generalizing least others with
  | nil => simp [popLeast] at popped
  | cons first rest ih =>
      simp only [popLeast] at popped
      split at popped
      next empty =>
        simp only [Option.some.injEq, Prod.mk.injEq] at popped
        obtain ⟨rfl, rfl⟩ := popped
        simp [popLeast_eq_none.mp empty, irrefl]
      next smallest remaining found =>
        have below := ih found
        split at popped
        next smaller =>
          simp only [Option.some.injEq, Prod.mk.injEq] at popped
          obtain ⟨rfl, rfl⟩ := popped
          exact List.forall_mem_cons.mpr ⟨asymm _ _ smaller, below⟩
        next larger =>
          simp only [Option.some.injEq, Prod.mk.injEq] at popped
          obtain ⟨rfl, rfl⟩ := popped
          refine List.forall_mem_cons.mpr ⟨irrefl _, ?_⟩
          intro entry inside
          exact trans _ _ _ (below entry inside) (by simpa using larger)

end Least

end Collect
