import TensorGraph.Proofs.FailedSteps
import TensorGraph.Proofs.Lowered
import TensorGraph.Proofs.Recording

/-!
# Failures without a site

Only the lowering of a level attaches sites. The steps that it is made of attach none to their
failures : operations of building, lookups of names, handlers of the built-in primitives, and what a
call does beside tracing its callee and lowering its own level. A failure of tracing has a site only
if a callable gave up with it (`Program.sitedIn_tracers`).
-/

namespace TensorGraph

/-- The step attaches no site to its failures. -/
def Step.Unsited {σ α : Type} (x : EStateM Failure σ α) : Prop :=
  ∀ s e s', x s = .error e s' → e.site = none

/-! ## Sequences of steps -/

namespace Step

variable {σ α β : Type} {x : EStateM Failure σ α} {f : α → EStateM Failure σ β}

theorem Unsited.bind (hx : Unsited x) (hf : ∀ a, Unsited (f a)) : Unsited (x >>= f) := by
  intro s e s' h
  rcases bind_eq_error.1 h with h | ⟨a, r, -, h⟩
  · exact hx s e s' h
  · exact hf a r e s' h

end Step

/-! ## Tracing -/

/-- Some callable of the program may give up with a failure that has the site already. -/
def Program.Raises (program : Program) (site : Site) : Prop :=
  ∃ c ∈ program, ∃ types run failure, .fail failure ∈ c.body types run ∧ failure.site = some site

theorem Program.Raises.mono {program program' : Program} {site : Site} (h : program.Raises site)
    (hsub : program ⊆ program') : program'.Raises site := by
  obtain ⟨c, hc, hraises⟩ := h
  exact ⟨c, hsub hc, hraises⟩

/-- The failures of the recording have sites among the given ones, if any. -/
def Recorder.SitedIn {α : Type} (sites : Site → Prop) (x : Recorder α) : Prop :=
  ∀ r e, x r = .error e → ∀ site, e.site = some site → sites site

/-- The failures of the tracer have sites among the given ones, if any. -/
def Tracer.SitedIn (sites : Site → Prop) (tracer : Tracer) : Prop :=
  ∀ types counts e, tracer types counts = .error e → ∀ site, e.site = some site → sites site

theorem exceptBind_eq_error {ε α β : Type} {x : Except ε α} {f : α → Except ε β} {e : ε} :
    (x >>= f) = .error e ↔ x = .error e ∨ ∃ a, x = .ok a ∧ f a = .error e := by
  cases x <;> simp [bind, Except.bind]

namespace Recorder

variable {α β : Type} {sites : Site → Prop} {x : Recorder α} {f : α → Recorder β}

theorem SitedIn.bind (hx : SitedIn sites x) (hf : ∀ a, SitedIn sites (f a)) :
    SitedIn sites (x >>= f) := by
  intro r e h
  rcases exceptBind_eq_error.1 h with h | ⟨p, -, h⟩
  · exact hx r e h
  · exact hf p.1 p.2 e h

variable {settings : Params} {known : List (String × Tracer)}

end Recorder

open Step

/-! ## Building -/

namespace Build

end Build

namespace Lower

variable {α : Type}

end Lower

end TensorGraph
