import Mathlib.Data.Finset.Sort
import Mathlib.Data.List.Sort
import Mathlib.Data.Prod.Lex
import Mathlib.Data.String.Basic

/-!
Counting in tables of calls. `Separates p f l` says that `f` tells the entries of `l`
that satisfy `p` apart, so counting entries is counting values; a table can then be
compared with another that covers its values. The last part is about ranks: the position
of an element in a sorted list is the number of smaller elements, and as many elements
have a rank below a bound as there are elements, up to the bound.
-/

namespace Counting

variable {A B C : Type}

theorem countP_set_le {p : A → Bool} {l : List A} {i : Nat} {old new : A}
    (present : l[i]? = some old) (weaker : p new = true → p old = true) :
    (l.set i new).countP p ≤ l.countP p := by
  obtain ⟨bound, rfl⟩ := List.getElem?_eq_some_iff.mp present
  rw [List.countP_set bound]
  by_cases kept : p new = true
  · have before := weaker kept
    have positive : 0 < l.countP p := List.countP_pos_iff.mpr ⟨_, List.getElem_mem bound, before⟩
    simp only [kept, before, if_true]
    omega
  · simp only [kept, Bool.false_eq_true, if_false]
    omega

theorem countP_set_eq {p : A → Bool} {l : List A} {i : Nat} {old new : A}
    (present : l[i]? = some old) (same : p new = p old) :
    (l.set i new).countP p = l.countP p := by
  apply Nat.le_antisymm
  · exact countP_set_le present fun kept => same ▸ kept
  · have bound := (List.getElem?_eq_some_iff.mp present).1
    have back : ((l.set i new).set i old).countP p ≤ (l.set i new).countP p :=
      countP_set_le (by simp [bound]) fun kept => same.symm ▸ kept
    rw [List.set_set] at back
    have restored : l.set i old = l := by
      obtain ⟨_, rfl⟩ := List.getElem?_eq_some_iff.mp present
      exact List.set_getElem_self bound
    rwa [restored] at back

theorem countP_set_succ {p : A → Bool} {l : List A} {i : Nat} {old new : A}
    (present : l[i]? = some old) (before : p old = false) (after : p new = true) :
    (l.set i new).countP p = l.countP p + 1 := by
  obtain ⟨bound, rfl⟩ := List.getElem?_eq_some_iff.mp present
  rw [List.countP_set bound]
  simp [before, after]

theorem countP_set_add {p : A → Bool} {l : List A} {i : Nat} {old : A}
    (present : l[i]? = some old) (new : A) :
    (l.set i new).countP p + (p old).toNat = l.countP p + (p new).toNat := by
  obtain ⟨bound, rfl⟩ := List.getElem?_eq_some_iff.mp present
  have positive : p l[i] = true → 0 < l.countP p := fun holds =>
    List.countP_pos_iff.mpr ⟨_, List.getElem_mem bound, holds⟩
  rw [List.countP_set bound]
  cases before : p l[i] with
  | true =>
      have counted := positive before
      cases after : p new with
      | true => simp; omega
      | false => simp; omega
  | false => cases after : p new <;> simp

theorem countP_eraseIdx_eq {p : A → Bool} {l : List A} {i : Nat} {old : A}
    (present : l[i]? = some old) (out : p old = false) : (l.eraseIdx i).countP p = l.countP p := by
  obtain ⟨bound, rfl⟩ := List.getElem?_eq_some_iff.mp present
  have moved := (List.getElem_cons_eraseIdx_perm bound).countP_eq p
  rw [← moved, List.countP_cons]
  simp [out]

theorem countP_range_getElem? (p : A → Bool) (l : List A) :
    (List.range l.length).countP (fun i => l[i]?.any p) = l.countP p := by
  have entries : (List.range l.length).map (fun i => l[i]?) = l.map some := by
    apply List.ext_getElem
    · simp
    · intro i left right
      have bound : i < l.length := by simpa using right
      simp [bound]
  calc (List.range l.length).countP (fun i => l[i]?.any p)
      = ((List.range l.length).map fun i => l[i]?).countP (·.any p) := by
        rw [List.countP_map]
        rfl
    _ = l.countP p := by
        rw [entries, List.countP_map]
        rfl

/-- Two counts that differ at one index. -/
theorem countP_range_change {p q : Nat → Bool} {n i : Nat} (bound : i < n)
    (same : ∀ j, j ≠ i → p j = q j) :
    (List.range n).countP p + (q i).toNat = (List.range n).countP q + (p i).toNat := by
  induction n with
  | zero => omega
  | succ n ih =>
      rw [List.range_succ, List.countP_append, List.countP_append, List.countP_singleton,
        List.countP_singleton]
      by_cases last : i = n
      · subst last
        have before : (List.range i).countP p = (List.range i).countP q := by
          refine List.countP_congr ?_
          intro j inside
          rw [same j (by have := List.mem_range.mp inside; omega)]
        rw [before]
        cases p i <;> cases q i <;> simp
      · have before := ih (by omega)
        rw [same n (Ne.symm last)]
        omega

/-- The sum of the first `n` values. -/
def total (f : Nat → Nat) : Nat → Nat
  | 0 => 0
  | n + 1 => total f n + f n

theorem total_congr {f g : Nat → Nat} {n : Nat} (same : ∀ j, j < n → f j = g j) :
    total f n = total g n := by
  induction n with
  | zero => rfl
  | succ n ih =>
      rw [total, total, ih fun j inside => same j (by omega), same n (by omega)]

/-- Two sums that differ at one index. -/
theorem total_change {f g : Nat → Nat} {n i : Nat} (bound : i < n)
    (same : ∀ j, j ≠ i → f j = g j) : total f n + g i = total g n + f i := by
  induction n with
  | zero => omega
  | succ n ih =>
      rw [total, total]
      by_cases last : i = n
      · subst last
        rw [total_congr fun j inside => same j (by omega)]
        omega
      · have before := ih (by omega)
        rw [same n (Ne.symm last)]
        omega

/-- A count of entries of three kinds. -/
theorem countP_eq_add {p q r w : A → Bool} {l : List A}
    (kinds : ∀ a ∈ l, (p a).toNat = (q a).toNat + (r a).toNat + (w a).toNat) :
    l.countP p = l.countP q + l.countP r + l.countP w := by
  have one : ∀ (holds : A → Bool) (a : A) (rest : List A),
      (a :: rest).countP holds = rest.countP holds + (holds a).toNat := by
    intro holds a rest
    rw [List.countP_cons]
    cases holds a <;> rfl
  induction l with
  | nil => rfl
  | cons a rest ih =>
      have here := kinds a (by simp)
      have there := ih fun b inside => kinds b (by simp [inside])
      rw [one, one, one, one]
      omega

def Separates (p : A → Bool) (f : A → B) (l : List A) : Prop :=
  ∀ (i j : Nat) (left right : A), l[i]? = some left → l[j]? = some right → p left = true →
    p right = true → f left = f right → i = j

theorem Separates.weaken {p q : A → Bool} {f : A → B} {l : List A} (apart : Separates p f l)
    (weaker : ∀ a, q a = true → p a = true) : Separates q f l := by
  intro i j left right leftIn rightIn leftHolds rightHolds same
  exact apart i j left right leftIn rightIn (weaker _ leftHolds) (weaker _ rightHolds) same

theorem Separates.nodup {p : A → Bool} {f : A → B} {l : List A} (apart : Separates p f l) :
    ((l.filter p).map f).Nodup := by
  have pairwise : l.Pairwise fun a b => p a = true → p b = true → f a ≠ f b := by
    rw [List.pairwise_iff_getElem]
    intro i j iBound jBound before left right same
    have index := apart i j l[i] l[j] (by simp) (by simp) left right same
    omega
  rw [List.Nodup, List.pairwise_map, List.pairwise_filter]
  exact pairwise.imp fun apart left right => apart left right

theorem countP_le_countP {p : A → Bool} {q : C → Bool} {f : A → B} {g : C → B} {l : List A}
    {m : List C} (apart : Separates p f l)
    (covered : ∀ a ∈ l, p a = true → ∃ c ∈ m, q c = true ∧ g c = f a) :
    l.countP p ≤ m.countP q := by
  have subset : (l.filter p).map f ⊆ (m.filter q).map g := by
    intro value member
    simp only [List.mem_map, List.mem_filter] at member
    obtain ⟨a, ⟨inside, holds⟩, rfl⟩ := member
    obtain ⟨c, found, chosen, same⟩ := covered a inside holds
    simp only [List.mem_map, List.mem_filter]
    exact ⟨c, ⟨found, chosen⟩, same⟩
  have shorter := (List.subperm_of_subset apart.nodup subset).length_le
  simpa [List.countP_eq_length_filter] using shorter

theorem card_values [DecidableEq B] {p : A → Bool} {f : A → B} {l : List A}
    (apart : Separates p f l) : ((l.filter p).map f).toFinset.card = l.countP p := by
  rw [List.toFinset_card_of_nodup apart.nodup, List.length_map, List.countP_eq_length_filter]

theorem countP_le_succ [DecidableEq B] {p q : A → Bool} {f : A → B} {l : List A} {value : B}
    (apart : Separates p f l) (rest : ∀ a ∈ l, p a = true → f a ≠ value → q a = true) :
    l.countP p ≤ l.countP q + 1 := by
  have cut := List.countP_eq_countP_filter_add l p fun a => decide (f a = value)
  rw [List.countP_filter, List.countP_filter] at cut
  have one : l.countP (fun a => p a && decide (f a = value)) ≤
      [()].countP fun _ => true := by
    refine countP_le_countP (g := fun _ => value)
      (apart.weaken fun a holds => (Bool.and_eq_true _ _ ▸ holds).1) ?_
    intro a _ holds
    simp only [Bool.and_eq_true, decide_eq_true_eq] at holds
    exact ⟨(), by simp, rfl, holds.2.symm⟩
  have others : l.countP (fun a => p a && !decide (f a = value)) ≤ l.countP q := by
    apply List.countP_mono_left
    intro a inside holds
    simp only [Bool.and_eq_true, Bool.not_eq_true', decide_eq_false_iff_not] at holds
    exact rest a inside holds.1 holds.2
  simp only [List.countP_singleton, if_true] at one
  omega

section Rank

variable [LinearOrder A]

theorem findIdx?_of_pairwise_le {l : List A} (sorted : l.Pairwise (· ≤ ·)) {x : A}
    (member : x ∈ l) : l.findIdx? (· == x) = some (l.countP (· < x)) := by
  induction l with
  | nil => simp at member
  | cons y rest ih =>
      rw [List.pairwise_cons] at sorted
      rw [List.findIdx?_cons, List.countP_cons]
      by_cases first : y = x
      · subst first
        have none : rest.countP (· < y) = 0 := by
          rw [List.countP_eq_zero]
          intro z inside
          simpa using sorted.1 z inside
        simp [none]
      · have later : x ∈ rest := (List.mem_cons.mp member).resolve_left (Ne.symm first)
        have smaller := lt_of_le_of_ne (sorted.1 x later) first
        have different : (y == x) = false := by simpa using first
        rw [different, ih sorted.2 later]
        simp [smaller]

/-- The position of `x` once `l` is sorted. -/
def rankIn (x : A) (l : List A) : Option Nat :=
  (l.insertionSort (· ≤ ·)).findIdx? (· == x)

theorem rankIn_eq_countP {l : List A} {x : A} (member : x ∈ l) :
    rankIn x l = some (l.countP (· < x)) := by
  have perm := List.perm_insertionSort (· ≤ ·) l
  have sorted : (l.insertionSort (· ≤ ·)).Pairwise (· ≤ ·) := List.pairwise_insertionSort _ l
  rw [rankIn, findIdx?_of_pairwise_le sorted (perm.mem_iff.mpr member), perm.countP_eq]

theorem rankIn_eq_none {l : List A} {x : A} (absent : x ∉ l) : rankIn x l = none := by
  rw [rankIn, List.findIdx?_eq_none_iff]
  intro y inside
  have member := (List.perm_insertionSort (· ≤ ·) l).mem_iff.mp inside
  simp only [beq_eq_false_iff_ne, ne_eq]
  rintro rfl
  exact absent member

/-- A rank depends only on the order of the elements. -/
theorem rankIn_map {B : Type} [LinearOrder B] {f : A → B} (increasing : StrictMono f) (x : A)
    {l : List A} {m : List B} (same : m.Perm (l.map f)) : rankIn (f x) m = rankIn x l := by
  by_cases member : x ∈ l
  · have image : f x ∈ m := same.mem_iff.mpr (List.mem_map_of_mem member)
    rw [rankIn_eq_countP member, rankIn_eq_countP image, same.countP_eq, List.countP_map]
    congr 2
    funext y
    simp [increasing.lt_iff_lt]
  · have outside : f x ∉ m := by
      rw [same.mem_iff, List.mem_map]
      rintro ⟨y, inside, equal⟩
      exact member (increasing.injective equal ▸ inside)
    rw [rankIn_eq_none member, rankIn_eq_none outside]

theorem card_filter_rank_lt (values : Finset A) (bound : Nat) :
    (values.filter fun x => (values.filter (· < x)).card < bound).card =
      min bound values.card := by
  induction values using Finset.induction_on_max with
  | empty => simp
  | insert top rest above ih =>
      have fresh : top ∉ rest := fun inside => lt_irrefl top (above top inside)
      have unchanged : ∀ x ∈ rest, ((insert top rest).filter (· < x)).card =
          (rest.filter (· < x)).card := by
        intro x inside
        rw [Finset.filter_insert, if_neg (not_lt.mpr (above x inside).le)]
      have whole : (insert top rest).filter (· < top) = rest := by
        rw [Finset.filter_insert, if_neg (lt_irrefl top)]
        exact Finset.filter_true_of_mem above
      rw [Finset.filter_insert, whole, Finset.card_insert_of_notMem fresh]
      have same : (rest.filter fun x => ((insert top rest).filter (· < x)).card < bound) =
          rest.filter fun x => (rest.filter (· < x)).card < bound := by
        apply Finset.filter_congr
        intro x inside
        rw [unchanged x inside]
      rw [same]
      split
      next room =>
        have outside : top ∉ rest.filter fun x => (rest.filter (· < x)).card < bound :=
          fun inside => fresh (Finset.mem_of_mem_filter top inside)
        rw [Finset.card_insert_of_notMem outside, ih]
        omega
      next full =>
        rw [ih]
        omega

theorem countP_rank_lt {p : C → Bool} {f : C → A} {l : List C} (apart : Separates p f l)
    (bound : Nat) :
    l.countP (fun a => p a && decide (l.countP (fun b => p b && decide (f b < f a)) < bound)) =
      min bound (l.countP p) := by
  let values : Finset A := ((l.filter p).map f).toFinset
  have mem_values : ∀ x, x ∈ values ↔ ∃ a ∈ l, p a = true ∧ f a = x := by
    intro x
    simp [values, and_assoc]
  have rank : ∀ x, (values.filter (· < x)).card = l.countP (fun b => p b && decide (f b < x)) := by
    intro x
    have below : Separates (fun b => p b && decide (f b < x)) f l :=
      apart.weaken fun b holds => (Bool.and_eq_true _ _ ▸ holds).1
    rw [← card_values below]
    congr 1
    ext y
    simp only [Finset.mem_filter, mem_values, List.mem_toFinset, List.mem_map, List.mem_filter,
      Bool.and_eq_true, decide_eq_true_eq]
    constructor
    · rintro ⟨⟨a, inside, holds, rfl⟩, less⟩
      exact ⟨a, ⟨inside, holds, less⟩, rfl⟩
    · rintro ⟨a, ⟨inside, holds, less⟩, rfl⟩
      exact ⟨⟨a, inside, holds, rfl⟩, less⟩
  have ranked : Separates
      (fun a => p a && decide (l.countP (fun b => p b && decide (f b < f a)) < bound)) f l :=
    apart.weaken fun a holds => (Bool.and_eq_true _ _ ▸ holds).1
  rw [← card_values ranked, ← card_values apart, ← card_filter_rank_lt values bound]
  congr 1
  ext y
  simp only [Finset.mem_filter, mem_values, rank, List.mem_toFinset, List.mem_map,
    List.mem_filter, Bool.and_eq_true, decide_eq_true_eq]
  constructor
  · rintro ⟨a, ⟨inside, holds, less⟩, rfl⟩
    exact ⟨⟨a, inside, holds, rfl⟩, less⟩
  · rintro ⟨⟨a, inside, holds, rfl⟩, less⟩
    exact ⟨a, ⟨inside, holds, less⟩, rfl⟩

/-- If every entry that satisfies `p` has fewer than `bound` of them below it, there are at most
`bound`. -/
theorem countP_le_of_rank_lt {p : C → Bool} {f : C → A} {l : List C} {bound : Nat}
    (apart : Separates p f l)
    (below : ∀ a ∈ l, p a = true → l.countP (fun b => p b && decide (f b < f a)) < bound) :
    l.countP p ≤ bound := by
  have ranked : l.countP (fun a => p a &&
      decide (l.countP (fun b => p b && decide (f b < f a)) < bound)) = l.countP p := by
    apply List.countP_congr
    intro a inside
    constructor
    · intro both
      exact (Bool.and_eq_true _ _ ▸ both).1
    · intro holds
      simp [holds, below a inside holds]
  have least := countP_rank_lt apart bound
  omega

end Rank

end Counting
