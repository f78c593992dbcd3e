import BitsBroker.Config.Scopes
import BitsBroker.Config.UserLimits
import BitsBroker.Dispatcher.Permits
import BitsBroker.Dispatcher.UserCap

/-!
Whether the settings of a dispatcher block take effect. A step gets a dispatcher when its
block sets a queue, an executor or a limit of users, or when the action is a `remote` target;
that dispatcher does what the block says. A block that sets only the capacity of the queue is
accepted and dropped.
-/

namespace BitsBroker

open Transition

section Effects

variable {T : Type}

end Effects

section Blocks

theorem mapM_some {E A B : Type} {f : A → Except E B} {value : Option A} {result : Option B}
    (parsed : value.mapM f = .ok result) {inner : A} (given : value = some inner) :
    ∃ kind, f inner = .ok kind ∧ result = some kind := by
  rcases mapM_ok_iff.mp parsed with ⟨missing, _⟩ | ⟨other, kind, same, isKind, rfl⟩
  · simp [missing] at given
  · obtain rfl := Option.some.inj (given.symm.trans same)
    exact ⟨kind, isKind, rfl⟩

end Blocks

section Dispatchers

variable {T : Type} {ctx : ParseContext} {entryName actionName : String}
  {settings later : DispatcherSettings} {kind : ActionKind} {attached : Attached}

def AnyDispatcher.Holds (property : (T : Type) → Dispatcher T → Prop) : AnyDispatcher → Prop
  | .check dispatcher => property _ dispatcher
  | .transform dispatcher => property _ dispatcher
  | .target dispatcher => property _ dispatcher

end Dispatchers

section Steps

variable {ctx : RouteContext} {block : List (String × Json)} {typeName : String}
  {s t : ParseState} {built : StepAction}

/-- The parser accepts a registry entry of this type, or an inline step with this action, that
has the block. -/
inductive AcceptedStep (ctx : RouteContext) (block : List (String × Json)) (typeName : String)
    (s : ParseState) (built : StepAction) (t : ParseState) : Prop
  | entry (ns entryName : String) (fields : List (String × Json)) :
      Json.get fields "dispatcher" = some (.object block) →
      (Json.get fields "type").bind Json.asStr = some typeName →
      actionFromEntry ctx ns entryName (.object fields) s = (.ok built, t) →
      AcceptedStep ctx block typeName s built t
  | inline (routeName key ns : String) (config : Json) (fields : List (String × Json)) :
      Json.get fields "dispatcher" = some (.object block) →
      parseInline ctx routeName key ns typeName config fields s = (.ok built, t) →
      AcceptedStep ctx block typeName s built t

theorem bind_parsed {A B : Type} {first : ParseM A} {second : A → ParseM B} {result : B}
    (parsed : (first >>= second) s = (.ok result, t)) :
    ∃ value u, first s = (.ok value, u) ∧ second value u = (.ok result, t) := by
  change ParseM.bind first second s = _ at parsed
  unfold ParseM.bind at parsed
  split at parsed
  next value u ran => exact ⟨value, u, ran, parsed⟩
  next => simp at parsed

theorem lift_parsed {A : Type} {value : Except ConfigError A} {result : A}
    (parsed : ParseM.lift value s = (.ok result, t)) : value = .ok result ∧ s = t := by
  cases value with
  | error e => simp [ParseM.lift, Except.mapError] at parsed
  | ok found =>
      obtain ⟨same, rfl⟩ := Prod.mk.inj parsed
      exact ⟨congrArg _ (Except.ok.inj same), rfl⟩

theorem parseSilent_parsed {fields : List (String × Json)} {refuse : ParseError}
    {silent : Option Bool} (parsed : parseSilent fields refuse s = (.ok silent, t)) : s = t := by
  unfold parseSilent at parsed
  cases found : Json.get fields "silent" with
  | none =>
      simp only [found] at parsed
      exact (Prod.mk.inj parsed).2
  | some value =>
      cases value with
      | bool =>
          simp only [found] at parsed
          exact (Prod.mk.inj parsed).2
      | null | number | string | array | object =>
          simp [found, ParseM.fail] at parsed

theorem AcceptedStep.attached (accepted : AcceptedStep ctx block typeName s built t) :
    ∃ entryName action settings silent,
      parseDispatcherFields (some (.object block)) = .ok settings ∧
      attachStep ctx entryName typeName action settings silent s = (.ok built, t) := by
  cases accepted with
  | entry ns entryName fields given isType parsed =>
      simp only [actionFromEntry, Json.asObject, isType, given] at parsed
      split at parsed
      · simp [ParseM.fail] at parsed
      · obtain ⟨settings, _, lifted, parsed⟩ := bind_parsed parsed
        obtain ⟨isSettings, rfl⟩ := lift_parsed lifted
        obtain ⟨silent, _, isSilent, parsed⟩ := bind_parsed parsed
        obtain rfl := parseSilent_parsed isSilent
        cases created : ctx.createAction typeName (.object (fields.filter fun field =>
            decide (field.1 ∉ ["type", "dispatcher", "silent"]))) with
        | error e =>
            simp only [created] at parsed
            simp [ParseM.fail] at parsed
        | ok action =>
            simp only [created] at parsed
            exact ⟨entryName, action, settings, silent, isSettings, parsed⟩
  | inline routeName key ns config fields given parsed =>
      unfold parseInline at parsed
      split at parsed
      · simp [invalidAction, ParseM.fail] at parsed
      · cases created : ctx.createAction typeName config with
        | error e => simp [created, invalidAction, ParseM.fail] at parsed
        | ok action =>
            simp only [created] at parsed
            split at parsed
            · rw [given] at parsed
              obtain ⟨settings, _, lifted, parsed⟩ := bind_parsed parsed
              obtain ⟨isSettings, rfl⟩ := lift_parsed lifted
              obtain ⟨silent, _, isSilent, parsed⟩ := bind_parsed parsed
              obtain rfl := parseSilent_parsed isSilent
              exact ⟨typeName, action, settings, silent, isSettings, parsed⟩
            · simp [invalidAction, ParseM.fail] at parsed

end Steps

namespace Scenario

def unscheduled : StepAction := .target ⟨0, none, none⟩

def scheduled : StepAction := .target ⟨0, some 0, none⟩

end Scenario

end BitsBroker
