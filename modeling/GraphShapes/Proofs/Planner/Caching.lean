import GraphShapes.Proofs.Planner.Collect
import GraphShapes.Proofs.Planner.Provenance
import GraphShapes.Proofs.Planner.Settings

/-!
# Caching target sets

With `cacheSelectNodes` a disjunction that is given targets reads them once, into a splitter of its
own, and hands out readers of that; without it the provider is handed on. What is planned differs
at every nested disjunction, and what is delivered does not: without splitters the two plans are the
same plan (`Shape.unshared_caching`), unless the provider refuses.

So a shape collects the same rows under both settings, with their scopes and traces
(`Shape.collect_caching`).
-/

namespace GraphShapes

/-- The settings with caching switched on or off. -/
def Config.caching (config : Config) (on : Bool) : Config := { config with cacheSelectNodes := on }

/-- The pass with caching switched on or off. -/
def Context.caching (ctx : Context) (on : Bool) : Context :=
  { ctx with config := ctx.config.caching on }

namespace Shape

/-- Without splitters, both settings give the same plan. -/
theorem unshared_caching (ctx : Context) (on : Bool) (s : Shape) :
    PlansSame (ctx.caching on) ctx s :=
  have hpass : (ctx.caching on).SamePass ctx := ⟨rfl, rfl, rfl⟩
  unshared_eq_of_samePass hpass s

end Shape

/-! ## What is collected -/

/-- The rows of what is planned without splitters. -/
def Planning.collected : Except PlanError (Option Plan) → Except PassError (List Row)
  | .error e => .error (.plan e)
  | .ok none => .ok []
  | .ok (some q) => (do (← q.delivery).toExcept).mapError .operator

theorem Planning.collect_eq_collected {step : Planning (Option Plan)} {draft : Draft}
    {value : Except PlanError (Option Plan)}
    (h : Planning.Comes step draft.splitters value Plan.OptMirrors) :
    step.collect draft = collected value := by
  unfold collect
  obtain ⟨draft', -, ⟨e, hrun, rfl⟩ | ⟨p, q, hrun, rfl, hmirrors⟩⟩ := h draft rfl
  · have hrun : step.run.run draft = (.error e, draft') := hrun
    rw [hrun]
    rfl
  · have hrun : step.run.run draft = (.ok p, draft') := hrun
    rw [hrun]
    cases hmirrors with
    | none => rfl
    | some hp =>
      show (do (← Plan.feedIn _ _).toExcept).mapError _ = _
      rw [hp.feed .refl]
      rfl

open Unshared (Ready)

namespace Shape

variable {ctx : Context} {frame : Frame} {negate : Bool} {draft : Draft}

/-- The same rows are collected under both settings, for targets that are not refused. -/
theorem collect_caching {targets : Option Provider} {given : Option Offer}
    (hgiven : GivenMirrors draft.splitters targets given) (hready : Ready given) (on : Bool)
    (s : Shape) :
    s.collect (ctx.caching on) frame targets negate draft =
      s.collect ctx frame targets negate draft := by
  rw [collect_eq, collect_eq,
    Planning.collect_eq_collected (s.plan_comes (ctx.caching on) negate hgiven),
    Planning.collect_eq_collected (s.plan_comes ctx negate hgiven),
    s.unshared_caching ctx on frame negate hready]

/-- That holds for targets from outside that can be asked for again. -/
theorem collect_caching_of_settled {provider : Provider} {plan : Plan}
    (hanswer : provider.answer = .ok plan) (hsettled : provider.Settled draft.splitters)
    (on : Bool) (s : Shape) :
    s.collect (ctx.caching on) frame (some provider) negate draft =
      s.collect ctx frame (some provider) negate draft := by
  obtain ⟨q, hmirrors⟩ := hsettled.exists_mirrors_ok hanswer
  exact collect_caching (.some hmirrors) (Unshared.ready_ok q) on s

end Shape

end GraphShapes
