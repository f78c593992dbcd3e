import BitsBroker.Job

/-!
Routing trees. An action is a check, a transform, a target or a nested switch; the
first three carry the dispatcher they run through, if any, and an override of the
silence of their rejections. A dispatcher is named by the index of the shared
instance.
-/

namespace BitsBroker

inductive ActionError where
  | networkError (message : String)
  | queueFull (message : String)
  | timeout (message : String)
  | configError (message : String)
  | authError (message : String)
  | resourceError (message : String)
  | cancelled
  | clientGone
  | userLimitExceeded (message : String)
deriving Repr, DecidableEq

inductive CheckResult where
  | pass
  | reject (reason : String) (silent : Bool)
deriving Repr, DecidableEq

inductive TransformResult where
  | continue
  | reject (reason : String) (silent : Bool)
deriving Repr, DecidableEq

inductive TargetResult where
  | complete (result : JobResult)
  | reject (reason : String) (silent : Bool)

structure CheckAction where
  evaluate : Job → Except ActionError CheckResult

structure TransformAction where
  execute : Job → Except ActionError TransformResult × Job

structure TargetAction where
  dispatch : Job → Except ActionError TargetResult

mutual

inductive Action where
  | check (check : CheckAction) (dispatcher : Option Nat) (silentOverride : Option Bool)
  | transform (transform : TransformAction) (dispatcher : Option Nat)
      (silentOverride : Option Bool)
  | target (target : TargetAction) (dispatcher : Option Nat) (silentOverride : Option Bool)
  | switch (switch : Switch)

inductive Route where
  | mk (name : String) (actions : List Action)

inductive Switch where
  | mk (routes : List Route)

end

def Switch.routes : Switch → List Route
  | .mk routes => routes

end BitsBroker
