import TensorGraph.Proofs.HeldVariables
import TensorGraph.Proofs.ReachedLevels

/-!
# Leaked variables

A callable may hold a variable of another trace, for instance one of the callable that encloses it.
Variables are told apart by their numbers, and every trace numbers its own from zero. So a
conversion that succeeds has found, at every level, a variable of the same trace for every number
that is read, and the variable that is read is this one unless the callable holds it as a foreign
one (`scoped_of_convert`). A foreign variable goes unnoticed where the trace has its number, even if
the types differ (`scoped_of_convert_enclosing`).
-/

namespace TensorGraph

/-- Operands and results have numbers of variables that the trace made before, and they are these
variables or foreign. -/
structure Trace.Scoped (foreign : List Var) (t : Trace) : Prop where
  reads : ScopedFrom t.given t.equations
  results : ∀ a ∈ t.outputs, a.IsKnown (t.given ++ madeBy t.equations)
  held : t.UsesHeld foreign

namespace OpenLevel

variable {program : Program} {settings : Params} {env : Environment} {l : OpenLevel} {s : Lowering}

/-- A level that is lowered reads numbers of its own trace. -/
theorem Ready.scoped (h : l.Ready program settings env.symbols)
    (henv : env.handler? = Registry.builtin.handler?) (hs : l.lower env settings l.state = .ok () s)
    {c : Callable} {types : List AbstractValue} {run : Nat}
    (hrun : l.IsRunOf settings c types run) :
    l.trace.Scoped (c.foreignVars types run) := by
  obtain ⟨-, _, _, _, _, htranslates⟩ := h.translates henv hs
  obtain ⟨counts, counts', rfl, htrace⟩ := hrun
  exact ⟨htranslates.translation.reads, htranslates.translation.results,
    Callable.usesHeld_tracer htrace⟩

end OpenLevel

/-- A conversion that succeeds has lowered the level of its entry, and every level that a call opens
from there on. At each of them it has found a variable of the same trace for every number that is
read, and what is read is this variable unless the callable holds it as a foreign one. -/
theorem scoped_of_convert {optimizer : Optimizer} {program : Program} {inputs : List InputSpec}
    {options : ConversionOptions} {m : Model}
    (h : (convert .builtin optimizer program inputs options).result = .ok m) :
    let env : Environment := ⟨Registry.builtin.handler?, (InputSpec.abstractAll inputs).1⟩
    ∃ entry settings t counts log s, ∃ lowered : Model, program.getLast? = some entry ∧
      options.params = .ok settings ∧
      entry.tracer settings (Program.tracers settings program.dropLast)
        (InputSpec.abstractAll inputs).2 .start = .ok (t, counts) ∧
      (OpenLevel.entry program.dropLast t options.modelName counts log).lower env settings
        (OpenLevel.entry program.dropLast t options.modelName counts log).state = .ok () s ∧
      lowered.Finishes s.draft.level s.draft.shared ∧ m = lowered.finished optimizer options ∧
      ∀ l,
        (OpenLevel.entry program.dropLast t options.modelName counts log).Reaches env settings l →
        (∃ c ∈ program, ∃ types run, l.IsRunOf settings c types run) ∧
        (∀ (i : Nat) e index, l.trace.equations[i]? = some e → e.callee? = some index →
          ∃ inner, l.Opens env settings i inner) ∧
        ∀ c types run, l.IsRunOf settings c types run →
          l.trace.Scoped (c.foreignVars types run) := by
  intro env
  obtain ⟨entry, settings, t, counts, log, s, lowered, hentry, hsettings, htrace, hs, hfinishes,
    hm⟩ :=
    exists_lower_of_convert h
  refine ⟨entry, settings, t, counts, log, s, lowered, hentry, hsettings, htrace, hs, hfinishes, hm,
    fun l hl => ?_⟩
  have hready := OpenLevel.ready_entry htrace env.symbols options.modelName log
  obtain ⟨hready, r, hr, -⟩ := hl.lowered rfl hready hs
  refine ⟨?_, fun i e index he hcallee => ?_, fun c types run hrun => hready.scoped rfl hr hrun⟩
  · exact (hl.exists_isRunOf (List.dropLast_sublist program).subset
      ⟨entry, List.mem_of_getLast? hentry, _, _, .start, counts, rfl, htrace⟩).2
  · obtain ⟨_, inner, _, hcalled⟩ := hready.exists_called rfl hr he hcallee
    exact ⟨inner, hcalled.opens⟩

namespace Example

/-- Adds a variable of three elements that it captured to its argument. The captured one has the
number of the argument. -/
def capturing : Callable :=
  .fixed "capturing" none
    [.foreign ⟨0, .known [3] .f32⟩, .elementwise "add" (.value 0) (.value 1)] [.value 2]

/-- Calls the capturing callable on its second argument, and returns a variable of five elements
that it captured. It has the number of what the call gives. -/
def enclosing : Callable :=
  .fixed "enclosing" none [.call 0 [.value 1], .foreign ⟨2, .known [5] .f32⟩] [.value 3]

/-- What the enclosing callable records on three elements and one : its result is no variable of
this trace. -/
def enclosingTrace : Trace :=
  ⟨[⟨0, .known [3] .f32⟩, ⟨1, .known [1] .f32⟩], [],
    [⟨callPrimitive, [.var ⟨1, .known [1] .f32⟩], [⟨2, .known [3] .f32⟩],
      [(callableKey, .callable 0), ("name", .str "capturing")]⟩],
    [.var ⟨2, .known [5] .f32⟩]⟩

/-- What the capturing callable records on one element : its second operand is no variable of this
trace. -/
def capturingTrace : Trace :=
  ⟨[⟨0, .known [1] .f32⟩], [],
    [⟨"add", [.var ⟨0, .known [1] .f32⟩, .var ⟨0, .known [3] .f32⟩], [⟨1, .known [3] .f32⟩], []⟩],
    [.var ⟨1, .known [3] .f32⟩]⟩

theorem tracer_enclosing : enclosing.tracer [] (Program.tracers [] [capturing])
    (InputSpec.abstractAll [⟨[.fixed 3], .f32⟩, ⟨[.fixed 1], .f32⟩]).2 .start =
      .ok (enclosingTrace, ⟨2, 0⟩) :=
  rfl

theorem tracer_capturing (counts : Counts) : capturing.tracer [] (Program.tracers [] [])
    [.known [1] .f32] counts = .ok (capturingTrace, counts.run) :=
  rfl

end Example

/-- Captured variables with numbers of the trace's own ones are converted unnoticed, both as a
result of the entry and as an operand inside a call : they are read as the trace's own variables,
which have other types. -/
theorem scoped_of_convert_enclosing :
    let env : Environment := ⟨Registry.builtin.handler?,
      (InputSpec.abstractAll [⟨[.fixed 3], .f32⟩, ⟨[.fixed 1], .f32⟩]).1⟩
    ∃ m log inner, (convert .builtin .deadNodeElimination [Example.capturing, Example.enclosing]
        [⟨[.fixed 3], .f32⟩, ⟨[.fixed 1], .f32⟩] .default).result = .ok m ∧
      Example.enclosingTrace.Scoped [⟨2, .known [5] .f32⟩] ∧
      (¬ ∀ a ∈ Example.enclosingTrace.outputs, a.IsOneOf Example.enclosingTrace.vars) ∧
      (OpenLevel.entry [Example.capturing] Example.enclosingTrace "model" ⟨2, 0⟩ log).Opens env [] 0
        inner ∧
      inner.trace = Example.capturingTrace ∧
      inner.trace.Scoped [⟨0, .known [3] .f32⟩] ∧
      ¬ ∀ e ∈ inner.trace.equations, ∀ a ∈ e.inputs, a.IsOneOf inner.trace.vars := by
  intro env
  obtain ⟨m, h⟩ := exists_ok_of_isOk (show (convert .builtin .deadNodeElimination
    [Example.capturing, Example.enclosing] [⟨[.fixed 3], .f32⟩, ⟨[.fixed 1], .f32⟩]
    .default).result.isOk = true by decide +kernel)
  obtain ⟨entry, settings, t, counts, log, s, lowered, hentry, hsettings, htrace, -, -, -,
    hlevels⟩ :=
    scoped_of_convert h
  cases hentry
  cases hsettings
  cases Example.tracer_enclosing.symm.trans htrace
  obtain ⟨-, hopens, hscoped⟩ := hlevels _ .refl
  obtain ⟨inner, hinner⟩ := hopens 0 _ 0 rfl rfl
  obtain ⟨-, -, hscoped'⟩ := hlevels _ (.single ⟨0, hinner⟩)
  obtain ⟨_, _, _, run, he, hcallee, hc, hprogram, hrun⟩ := hinner.exists_isRunOf
  cases he
  cases hcallee
  cases hc
  have htrace' : inner.trace = Example.capturingTrace := by
    obtain ⟨counts, counts', -, htraced⟩ := hrun
    rw [hprogram] at htraced
    exact (Prod.mk.inj (Except.ok.inj (htraced.symm.trans (Example.tracer_capturing counts)))).1
  refine ⟨m, log, inner, h, hscoped _ _ _ ⟨.start, _, rfl, htrace⟩, ?_, hinner, htrace',
    hscoped' _ _ _ hrun, ?_⟩
  · simp [Example.enclosingTrace, Trace.vars, Atom.IsOneOf, AbstractValue.known]
  · rw [htrace']
    simp [Example.capturingTrace, Trace.vars, Atom.IsOneOf, AbstractValue.known]

end TensorGraph
