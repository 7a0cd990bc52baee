import TensorGraph.Proofs.Conversion
import TensorGraph.Proofs.FailedSteps

/-!
# Levels that a lowering opens

Lowering a program works on a stack of levels. A level opens another one at an equation that calls a
callable : a name is issued for the call, its operands get names and its callee is traced again;
then the trace is lowered into the level that is opened (`OpenLevel.Opens`). All levels start empty
from a sound state (`OpenLevel.Ready`).
-/

namespace TensorGraph

/-- A level that has been opened, and the trace that is to be lowered into it. -/
structure OpenLevel where
  /-- The names of the calls around the level, outermost first. -/
  path : List String
  /-- The callables that the level can call. -/
  program : Program
  trace : Trace
  /-- The state in which the level is opened. -/
  state : Lowering

/-- Equations can be lowered in two parts. -/
theorem lowerEquations_append (env : Environment) (calls : List CallLowering) (site : Site)
    (index : Nat) (es es' : List Equation) : lowerEquations env calls site index (es ++ es') = (do
      lowerEquations env calls site index es
      lowerEquations env calls site (index + es.length) es') := by
  induction es generalizing index with
  | nil => rfl
  | cons e rest ih =>
    rw [List.cons_append, lowerEquations, lowerEquations, ih, bind_assoc, List.length_cons,
      Nat.add_assoc, Nat.add_comm 1]

namespace OpenLevel

/-- The level as a place of failures. -/
def site (l : OpenLevel) : Site :=
  .level l.path.length l.path

section

variable (env : Environment) (settings : Params)

/-- The lowerings of the calls that the level can make. -/
def calls (l : OpenLevel) : List CallLowering :=
  callLowerings env settings l.program

/-- The steps up to an equation : inputs, constants, and the equations before it. -/
def lowerUpTo (l : OpenLevel) (i : Nat) : Lower Unit := do
  lowerInputs env l.site l.trace.inputs
  lowerConstants l.trace.constants
  lowerEquations env (l.calls env settings) l.site 0 (l.trace.equations.take i)

/-- All steps of the level. -/
def lower (l : OpenLevel) : Lower Unit := do
  lowerTrace env (l.calls env settings) l.site l.trace
  resolveOutputs env l.site

/-- The level opens another one at the equation with position `i`. -/
inductive Opens (l : OpenLevel) (i : Nat) : OpenLevel → Prop where
  | call {s s' : Lowering} {e : Equation} {index : Nat} {c : Callable} {callName : String}
      {data : List String} {t : Trace} (before : l.lowerUpTo env settings i l.state = .ok () s)
      (equation : l.trace.equations[i]? = some e) (callee : e.callee? = some index)
      (known : l.program[index]? = some c)
      (opens : CallOpens c (c.tracer settings (Program.tracers settings (l.program.take index))) e s
        callName data t s') :
      Opens l i ⟨l.path ++ [callName], l.program.take index, t, s'.nest (callName ++ "_graph")⟩

end

/-- The level of the entry of a program, whose trace drew so many constants. -/
def entry (program : Program) (t : Trace) (name : String) (counts : Counts) (log : Log) :
    OpenLevel :=
  ⟨[], program, t,
    { Lowering.start name with builder := { Builder.start name with log }, counts,
                               invocations := 1 }⟩

/-- The level is empty and starts from a sound state, it can call callables of the program from the
first one on, and its trace numbers no two variables alike. -/
structure Ready (program : Program) (settings : Params) (symbols : SymbolTable) (l : OpenLevel) :
    Prop where
  within : ∃ n, l.program = program.take n
  lowered : l.state.draft.Lowered program settings symbols l.state.draft.shared
    ⟨[], [], [], []⟩ [] [] []
  ids : (l.trace.given ++ madeBy l.trace.equations).Nodup

theorem ready_entry {program : Program} {settings : Params} {c : Callable}
    {types : List AbstractValue} {t : Trace} {counts : Counts}
    (htrace : c.tracer settings (Program.tracers settings program) types .start = .ok (t, counts))
    (symbols : SymbolTable) (name : String) (log : Log) :
    (entry program t name counts log).Ready program settings symbols where
  within := ⟨program.length, (List.take_length).symm⟩
  lowered := Lowering.lowered_start program settings symbols name
  ids := (Callable.tracer_spec htrace).2.1

section

variable {program : Program} {settings : Params} {env : Environment} {l inner : OpenLevel} {i : Nat}
  {s s' : Lowering}

/-- The lowering of a call that the level makes. -/
theorem getElem?_calls {index : Nat} {c : Callable} (h : l.program[index]? = some c) :
    (l.calls env settings)[index]? = some (lowerCall env c
      (c.tracer settings (Program.tracers settings (l.program.take index)))
      (callLowerings env settings (l.program.take index))) :=
  getElem?_callLowerings env settings h

theorem site_inside (path : List String) (callName : String) (program : Program) (t : Trace)
    (s : Lowering) :
    (OpenLevel.mk (path ++ [callName]) program t s).site =
      (Site.level path.length path).inside callName := by
  simp [site, Site.inside, Site.level]

namespace Opens

/-- A level that is opened can call fewer callables. -/
theorem length_lt (h : l.Opens env settings i inner) : inner.program.length < l.program.length := by
  cases h with
  | @call _ _ _ index _ _ _ _ before equation callee known opens =>
    have hindex := (List.getElem?_eq_some_iff.1 known).1
    rw [List.length_take]
    omega

theorem program_subset (h : l.Opens env settings i inner) : inner.program ⊆ l.program := by
  cases h with
  | call before equation callee known opens => exact List.take_subset _ _

theorem exists_callee (h : l.Opens env settings i inner) :
    ∃ e index, l.trace.equations[i]? = some e ∧ e.callee? = some index := by
  cases h with
  | call before equation callee known opens => exact ⟨_, _, equation, callee⟩

/-- An equation opens one level. -/
theorem unique {inner' : OpenLevel} (h : l.Opens env settings i inner)
    (h' : l.Opens env settings i inner') :
    inner = inner' := by
  cases h with
  | call before equation callee known opens =>
    cases h' with
    | call before' equation' callee' known' opens' =>
      obtain ⟨-, rfl⟩ := EStateM.Result.ok.inj (before.symm.trans before')
      obtain rfl := Option.some.inj (equation.symm.trans equation')
      obtain rfl := Option.some.inj (callee.symm.trans callee')
      obtain rfl := Option.some.inj (known.symm.trans known')
      cases opens with
      | intro said issued operands traced count =>
        cases opens' with
        | intro said' issued' operands' traced' count' =>
          obtain ⟨-, rfl⟩ := EStateM.Result.ok.inj (said.symm.trans said')
          obtain ⟨rfl, rfl⟩ := EStateM.Result.ok.inj (issued.symm.trans issued')
          obtain ⟨rfl, rfl⟩ := EStateM.Result.ok.inj (operands.symm.trans operands')
          obtain ⟨rfl, rfl⟩ := EStateM.Result.ok.inj (traced.symm.trans traced')
          rfl

end Opens

namespace Ready

theorem callsImplement (h : l.Ready program settings env.symbols)
    (henv : env.handler? = Registry.builtin.handler?) :
    CallsImplement program settings env.symbols (l.calls env settings) := by
  obtain ⟨n, hn⟩ := h.within
  rw [calls, hn]
  exact callsImplement_callLowerings henv rfl n

/-- A callable that the level calls is one of the program, and can call those before it. -/
theorem getElem?_program (h : l.Ready program settings env.symbols) {index : Nat} {c : Callable}
    (hc : l.program[index]? = some c) :
    program[index]? = some c ∧ l.program.take index = program.take index := by
  obtain ⟨n, hn⟩ := h.within
  have hindex : index < n := by
    have := (List.getElem?_eq_some_iff.1 hc).1
    rw [hn, List.length_take] at this
    omega
  rw [hn, List.getElem?_take_of_lt hindex] at hc
  rw [hn, List.take_take, Nat.min_eq_left (Nat.le_of_lt hindex)]
  exact ⟨hc, rfl⟩

/-- What is lowered up to an equation. -/
theorem lowered_upTo (h : l.Ready program settings env.symbols)
    (henv : env.handler? = Registry.builtin.handler?)
    (hs : l.lowerUpTo env settings i l.state = .ok () s) :
    ∃ body, s.draft.Lowered program settings env.symbols l.state.draft.shared
      ⟨l.trace.inputs, l.trace.constants, l.trace.equations.take i, []⟩ body [] [] := by
  have hgiven := (List.nodup_append.1 h.ids).1
  simp only [lowerUpTo, Step.bind_eq_ok] at hs
  obtain ⟨_, s₁, hinputs, _, s₂, hconstants, hequations⟩ := hs
  have hs₁ := lowered_lowerInputs rfl hinputs h.lowered (List.nodup_append.1 hgiven).1
  have hs₂ := lowered_lowerConstants hconstants hs₁ hgiven
  refine lowered_lowerEquations henv rfl (h.callsImplement henv) hequations hs₂ ?_
  have hmade :
      madeBy l.trace.equations = madeBy (l.trace.equations.take i) ++
        madeBy (l.trace.equations.drop i) := by
    simp only [madeBy, ← List.flatMap_append, List.take_append_drop]
  refine h.ids.sublist ((List.Sublist.refl _).append ?_)
  rw [hmade]
  exact List.sublist_append_left _ _

/-- A level that is lowered translates its trace. -/
theorem translates (h : l.Ready program settings env.symbols)
    (henv : env.handler? = Registry.builtin.handler?)
    (hs : l.lower env settings l.state = .ok () s) :
    s.draft.shared.Sound program settings env.symbols ∧ ∃ info body tail decls,
      s.draft.level.Translates program env.symbols
      (Implements program settings env.symbols s.draft.shared) s.draft.shared
        s.draft.name? info l.trace body tail decls := by
  obtain ⟨_, s₁, htrace, hresolve⟩ := Step.bind_eq_ok.1 hs
  obtain ⟨body, tail, decls, hs₁⟩ :=
    lowered_lowerTrace henv rfl (h.callsImplement henv) htrace h.lowered h.ids
  obtain ⟨records, hrecords, htranslates⟩ := translates_resolveOutputs rfl hresolve hs₁
  rw [hrecords] at htranslates ⊢
  exact ⟨hs₁.sound, _, body, tail, decls, htranslates⟩

/-- A level that is lowered was lowered up to every equation, and only grew from there on. -/
theorem exists_upTo (h : l.Ready program settings env.symbols)
    (henv : env.handler? = Registry.builtin.handler?) (hs : l.lower env settings l.state = .ok () s)
    (i : Nat) :
    ∃ r, l.lowerUpTo env settings i l.state = .ok () r ∧
      r.draft.level.nodes <+: s.draft.level.nodes ∧
      r.draft.shared.Le s.draft.shared := by
  simp only [lower, lowerTrace, Step.bind_eq_ok, Lower.locate_eq_ok] at hs
  obtain ⟨_, s₄, ⟨_, s₁, hinputs, _, s₂, hconstants, _, s₃, hequations, houtputs⟩, hresolve⟩ := hs
  rw [← List.take_append_drop i l.trace.equations, lowerEquations_append] at hequations
  obtain ⟨_, r, hbefore, hafter⟩ := Step.bind_eq_ok.1 hequations
  have hupTo : l.lowerUpTo env settings i l.state = .ok () r :=
    Step.bind_eq_ok.2 ⟨_, s₁, hinputs, Step.bind_eq_ok.2 ⟨_, s₂, hconstants, hbefore⟩⟩
  obtain ⟨body, hr⟩ := h.lowered_upTo henv hupTo
  obtain ⟨new, hs₃⟩ := lowered_lowerEquations henv rfl (h.callsImplement henv) hafter hr.rebase
    (by rw [List.take_append_drop]; exact h.ids)
  rw [List.take_append_drop] at hs₃
  obtain ⟨tail, decls, hs₄⟩ := lowered_declareOutputs houtputs hs₃
  obtain ⟨records, hs, -⟩ := translates_resolveOutputs rfl hresolve hs₄
  refine ⟨r, hupTo, ?_, hs ▸ hs₄.le⟩
  rw [hs, Draft.nodes_withRecords, hs₄.nodes, hr.nodes, List.append_nil, List.append_assoc]
  exact List.prefix_append _ _

/-- The levels that a level opens are empty and start from sound states too. -/
theorem of_opens (h : l.Ready program settings env.symbols)
    (henv : env.handler? = Registry.builtin.handler?) (hopens : l.Opens env settings i inner) :
    inner.Ready program settings env.symbols := by
  cases hopens with
  | @call s s' e index c callName data t before equation callee known opens =>
    obtain ⟨hc, htake⟩ := h.getElem?_program known
    obtain ⟨body, hs⟩ := h.lowered_upTo henv before
    obtain ⟨hgrows, -, -, -, counts, counts', htrace⟩ := opens.spec hs.sound.toTidy
    have hsound : s'.draft.shared.Sound program settings env.symbols :=
      hs.sound.grow hgrows.le hgrows.tidy (congrArg Level.functions hgrows.level)
    refine ⟨⟨index, htake⟩, ?_, (Callable.tracer_spec htrace).2.1⟩
    exact Draft.lowered_empty (d := (s'.nest (callName ++ "_graph")).draft) (.refl s'.draft.shared)
      hsound rfl rfl rfl rfl
      rfl rfl

end Ready

end

end OpenLevel

/-! ## The level of the entry -/

section

variable {program : Program} {entry : Callable} {inputs : List InputSpec}
  {options : ConversionOptions} {settings : Params} {t : Trace} {counts : Counts}

/-- The state with another log. -/
def Lowering.logged (s : Lowering) (log : Log) : Lowering :=
  { s with builder := { s.builder with log } }

namespace Lower

variable (s : Lowering) (log : Log)

theorem exists_say (level : LogLevel) (message : String) :
    ∃ log', say level message (s.logged log) = .ok () (s.logged log') :=
  ⟨_, rfl⟩

theorem exists_say_when (c : Prop) [Decidable c] (level : LogLevel) (message : String) :
    ∃ log', ∀ {α : Type} (x : Lower α),
      (if c then (do say level message; x) else x) (s.logged log) = x (s.logged log') := by
  split
  · exact ⟨_, fun x => rfl⟩
  · exact ⟨log, fun x => rfl⟩

theorem exists_trace (name : String) {tracer : Tracer} {args : List TraceArg}
    (h : tracer (args.map TraceArg.type) s.counts = .ok (t, counts)) :
    ∃ log', trace name tracer args (s.logged log) =
      .ok t (Lowering.logged { s with counts, invocations := s.invocations + 1 } log') := by
  let counted : Lowering := { s with invocations := s.invocations + 1 }
  obtain ⟨log', hsay⟩ := exists_say counted log .debug
    ("tracing " ++ name ++ " on " ++ toString args.length ++ " argument(s)")
  have hcount :
      (modify fun s => { s with invocations := s.invocations + 1 } : Lower Unit) (s.logged log) =
        .ok () (counted.logged log) := rfl
  have htrace : tracer (args.map TraceArg.type) (counted.logged log').counts = .ok (t, counts) := h
  refine ⟨log', ?_⟩
  rw [trace, Step.bind_of_ok hcount, Step.bind_of_ok hsay,
    Step.bind_of_ok (Step.get_eq_ok.2 ⟨rfl, rfl⟩)]
  simp only [htrace]
  rfl

end Lower

/-- Lowering a program whose entry can be traced lowers the level of the entry, and makes the model
of it. -/
theorem lowerProgram_eq (registry : Registry) (hsettings : options.params = .ok settings)
    (htrace :
      entry.tracer settings (Program.tracers settings program) (InputSpec.abstractAll inputs).2
        .start = .ok (t, counts)) (name : String) :
    ∃ log, lowerProgram registry program entry inputs options (.start name) =
      (do
        (OpenLevel.entry program t name counts log).lower
          ⟨registry.handler?, (InputSpec.abstractAll inputs).1⟩ settings
        Lower.build (Build.finish options.modelName options.opset) : Lower Model)
          (OpenLevel.entry program t name counts log).state := by
  have hparams : ∀ s, Lower.build (Build.ofExcept options.params) s = .ok settings s := fun s =>
    Lower.build_eq_ok.2 ⟨s.builder, Build.ofExcept_eq_ok.2 ⟨hsettings, rfl⟩, rfl⟩
  have htypes : ((InputSpec.abstractAll inputs).2.map TraceArg.abstract).map TraceArg.type =
      (InputSpec.abstractAll inputs).2 := by
    rw [List.map_map]
    exact List.map_id _
  have hstart : Lowering.start name = (Lowering.start name).logged [] := rfl
  rw [hstart, lowerProgram]
  obtain ⟨log₁, hconverting⟩ := Lower.exists_say (Lowering.start name) [] .info
    ("Converting " ++ entry.name ++ " to model '" ++ options.modelName ++ "'")
  obtain ⟨log₂, hdeclared⟩ := Lower.exists_say_when (Lowering.start name) log₁
    ((!(InputSpec.abstractAll inputs).1.names.isEmpty) = true) .debug
    (toString (InputSpec.abstractAll inputs).1.names.length ++ " symbolic dim(s) declared")
  obtain ⟨log₃, htracing⟩ :=
    Lower.exists_say (Lowering.start name) log₂ .info ("Tracing " ++ entry.name)
  obtain ⟨log₄, htraced⟩ :=
    Lower.exists_trace (Lowering.start name) log₃ entry.name (htypes ▸ htrace)
  obtain ⟨log₅, hbuilding⟩ := Lower.exists_say _ log₄ .info
    ("Building graph (" ++ toString t.equations.length ++ " equations)")
  refine ⟨log₅, ?_⟩
  rw [Step.bind_of_ok hconverting, Step.bind_of_ok (hparams _)]
  dsimp only
  rw [hdeclared, Step.bind_of_ok htracing, Step.bind_of_ok htraced, Step.bind_of_ok hbuilding,
    OpenLevel.lower, bind_assoc]
  rfl

end

end TensorGraph
