import Mathlib.Data.List.Basic

/-!
Patterns for paths that are split into segments: a segment of a pattern is a fixed text or stands for
any text that is not empty. A pattern fits exactly the paths that filling it in gives. In a table of
patterns of which no two fit one path, it does not matter in which order they are tried.
-/

namespace PathPattern

variable {α Target : Type}

inductive Segment (α : Type) where
  | literal (text : List α)
  | param
deriving DecidableEq

abbrev Pattern (α : Type) : Type := List (Segment α)

/-- A text without the slashes at its end. -/
def trimEndSlashes (text : String) : String :=
  String.ofList (text.toList.reverse.dropWhile (· == '/')).reverse

/-- How many texts a pattern leaves open. -/
def holes : Pattern α → Nat
  | [] => 0
  | .literal _ :: rest => holes rest
  | .param :: rest => holes rest + 1

def fill : Pattern α → List (List α) → List (List α)
  | .literal text :: rest, params => text :: fill rest params
  | .param :: rest, text :: params => text :: fill rest params
  | .param :: _, [] | [], _ => []

section Fits

variable [DecidableEq α]

def fits : Pattern α → List (List α) → Option (List (List α))
  | [], [] => some []
  | .literal text :: rest, segment :: segments =>
      if text = segment then fits rest segments else none
  | .param :: rest, segment :: segments =>
      if segment.isEmpty then none else (fits rest segments).map (segment :: ·)
  | _, _ => none

theorem fits_iff (pattern : Pattern α) : ∀ segments params,
    fits pattern segments = some params ↔
      params.length = holes pattern ∧ (∀ text ∈ params, text ≠ []) ∧
        segments = fill pattern params := by
  induction pattern with
  | nil =>
      intro segments params
      cases segments with
      | nil =>
          simp only [fits, Option.some.injEq, holes, List.length_eq_zero_iff, fill]
          constructor
          · rintro rfl
            simp
          · exact fun same => same.1.symm
      | cons segment rest => simp [fits, fill]
  | cons first rest ih =>
      intro segments params
      cases first with
      | literal text =>
          cases segments with
          | nil => simp [fits, fill]
          | cons segment segments =>
              by_cases same : text = segment
              · simp [fits, fill, holes, same, ih]
              · have other : ¬ segment = text := fun eq => same eq.symm
                simp [fits, fill, same, other]
      | param =>
          cases segments with
          | nil =>
              simp only [fits, holes, reduceCtorEq, false_iff]
              rintro ⟨length, -, filled⟩
              cases params with
              | nil => simp at length
              | cons text params => simp [fill] at filled
          | cons segment segments =>
              simp only [fits, holes]
              constructor
              · intro fitted
                split at fitted
                · cases fitted
                next filled =>
                  obtain ⟨others, found, rfl⟩ := Option.map_eq_some_iff.mp fitted
                  obtain ⟨length, nonempty, same⟩ := (ih _ _).mp found
                  refine ⟨by simp [length], ?_, by simp [fill, same]⟩
                  intro text member
                  rcases List.mem_cons.mp member with rfl | later
                  · simpa using filled
                  · exact nonempty text later
              · rintro ⟨length, nonempty, filled⟩
                cases params with
                | nil => simp at length
                | cons text params =>
                    obtain ⟨rfl, same⟩ := List.cons.inj filled
                    have found := (ih segments params).mpr ⟨by simpa using length,
                      fun text member => nonempty text (List.mem_cons_of_mem _ member), same⟩
                    simp [found, nonempty segment]

/-- Two patterns of different length, or with different texts at some place. -/
def apart : Pattern α → Pattern α → Bool
  | .literal one :: firsts, .literal other :: seconds => one ≠ other || apart firsts seconds
  | _ :: firsts, _ :: seconds => apart firsts seconds
  | [], [] => false
  | _, _ => true

theorem fits_apart (one : Pattern α) : ∀ (other : Pattern α) (segments : List (List α)),
    apart one other = true → (fits one segments).isSome = true → fits other segments = none := by
  induction one with
  | nil =>
      intro other segments different fitted
      cases segments with
      | nil => cases other with
        | nil => simp [apart] at different
        | cons segment rest => simp [fits]
      | cons segment rest => simp [fits] at fitted
  | cons first rest ih =>
      intro other segments different fitted
      cases segments with
      | nil => cases first <;> simp [fits] at fitted
      | cons segment segments =>
          cases other with
          | nil => simp [fits]
          | cons second others =>
              have smaller : (fits rest segments).isSome = true := by
                cases first with
                | literal text =>
                    simp only [fits] at fitted
                    split at fitted
                    · exact fitted
                    · cases fitted
                | param =>
                    simp only [fits] at fitted
                    split at fitted
                    · cases fitted
                    · simpa using fitted
              cases first with
              | param =>
                  have later := ih others segments (by cases second <;> simpa [apart] using different)
                    smaller
                  cases second <;> simp [fits, later]
              | literal text =>
                  cases second with
                  | param =>
                      have later := ih others segments (by simpa [apart] using different) smaller
                      simp [fits, later]
                  | literal text' =>
                      have same : text = segment := by
                        by_contra different'
                        simp [fits, different'] at fitted
                      by_cases equal : text = text'
                      · have later := ih others segments
                          (by simpa [apart, equal] using different) smaller
                        simp [fits, later]
                      · have distinct : ¬ text' = segment := fun eq => equal (same.trans eq.symm)
                        simp [fits, distinct]

/-- The first entry of a table that fits, with the texts of its open segments. -/
def route : List (Pattern α × Target) → List (List α) → Option (Target × List (List α))
  | [], _ => none
  | (pattern, target) :: rest, segments =>
      match fits pattern segments with
      | some params => some (target, params)
      | none => route rest segments

theorem route_iff {table : List (Pattern α × Target)}
    (separate : table.Pairwise fun one other => apart one.1 other.1 = true)
    (segments : List (List α)) (target : Target) (params : List (List α)) :
    route table segments = some (target, params) ↔
      ∃ pattern, (pattern, target) ∈ table ∧ fits pattern segments = some params := by
  induction table with
  | nil => simp [route]
  | cons entry rest ih =>
      obtain ⟨pattern, first⟩ := entry
      obtain ⟨fromFirst, fromRest⟩ := List.pairwise_cons.mp separate
      simp only [route]
      cases fitted : fits pattern segments with
      | none =>
          simp only [ih fromRest]
          constructor
          · rintro ⟨other, member, found⟩
            exact ⟨other, List.mem_cons_of_mem _ member, found⟩
          · rintro ⟨other, member, found⟩
            rcases List.mem_cons.mp member with same | later
            · cases same
              simp [fitted] at found
            · exact ⟨other, later, found⟩
      | some filled =>
          simp only [Option.some.injEq, Prod.mk.injEq]
          constructor
          · rintro ⟨rfl, rfl⟩
            exact ⟨pattern, List.mem_cons_self, fitted⟩
          · rintro ⟨other, member, found⟩
            rcases List.mem_cons.mp member with same | later
            · cases same
              rw [fitted] at found
              exact ⟨rfl, Option.some.inj found⟩
            · have missing := fits_apart pattern other segments (fromFirst _ later) (by simp [fitted])
              simp [missing] at found

end Fits

end PathPattern
