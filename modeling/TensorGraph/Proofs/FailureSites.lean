import Mathlib.Logic.Relation
import TensorGraph.Proofs.OpenLevels
import TensorGraph.Proofs.TotalConversion
import TensorGraph.Proofs.UnsitedSteps

/-!
# Sites of failures

A conversion that fails after its entry was traced fails in the lowering of some level. The failure
has the site of the innermost level that fails, with the position and the primitive of an equation
if it happened there. Levels pass the failures of those that they open on as they are, since these
have a site. For the same reason a failure keeps a site that a callable gave up with when it was
traced (`exists_site_of_convert`).
-/

namespace TensorGraph

open Step

namespace OpenLevel

section

variable (env : Environment) (settings : Params) (e : Failure)

end

end OpenLevel

/-! ## Failures of equations -/

section

variable {env : Environment} {calls : List CallLowering} {site : Site} {s s' : Lowering}
  {e : Failure}

end

namespace OpenLevel

variable {env : Environment} {settings : Params} {e : Failure} {l inner : OpenLevel} {i : Nat}
  {eq : Equation} {s s' : Lowering}

variable {program : Program}

namespace Ready

end Ready

end OpenLevel

/-! ## Conversions -/

/-- A level that is lowered becomes a model. -/
theorem OpenLevel.Ready.succeeds_finish {program : Program} {settings : Params} {env : Environment}
    {l : OpenLevel} {s : Lowering} {u : Unit} (h : l.Ready program settings env.symbols)
    (henv : env.handler? = Registry.builtin.handler?) (hs : l.lower env settings l.state = .ok u s)
    (modelName : String) (opset : Nat) :
    Succeeds (Lower.build (Build.finish modelName opset)) s := by
  obtain ⟨-, _, _, _, _, htranslates⟩ := h.translates henv hs
  exact Lower.succeeds_finish modelName opset htranslates.nodup_inputs_outputs
    (fun x hx => htranslates.isSome_record?_input hx) fun x hx =>
      htranslates.isSome_record?_output hx

namespace Example

/-- One input of two elements. -/
def pair : List InputSpec :=
  [⟨[.fixed 2], .f32⟩]

end Example

end TensorGraph
