import TensorGraph.Conversion.Convert
import TensorGraph.Proofs.Calls

/-!
# What a conversion returns

A conversion with the built-in primitives lowers the trace of the program's entry into the first
level, and the lowered model is made of this level (`Model.Finishes`, `translates_lowerProgram`).
What it returns is the lowered model without the constants that no node reads, optimized if the
options ask for it (`convert_eq_ok`, `translates_of_convert`).
-/

namespace TensorGraph

/-! ## Taking records -/

/-- Records of other names can be left out of a search. -/
theorem findRecord?_filter {p : ValueRecord → Bool} {name : String}
    (h : ∀ r, r.name = name → p r = true) (records : List ValueRecord) :
    findRecord? (records.filter p) name = findRecord? records name := by
  rw [findRecord?, findRecord?, List.find?_filter]
  congr 1
  funext r
  by_cases hr : r.name = name
  · simp [hr, h r hr]
  · simp [hr]

theorem name_of_findRecord? {records : List ValueRecord} {name : String} {r : ValueRecord}
    (h : findRecord? records name = some r) : r.name = name := by
  simpa using List.find?_some h

/-- Names that differ are taken out with the records that they have. -/
theorem takeRecords_eq_ok {names : List String} (hnodup : names.Nodup)
    {records taken left : List ValueRecord} :
    takeRecords names records = .ok (taken, left) ↔
      taken.map some = names.map (findRecord? records) ∧
      left = records.filter fun r => !names.contains r.name := by
  induction names generalizing records taken left with
  | nil =>
    simp only [takeRecords, Except.ok.injEq, Prod.mk.injEq, List.map_nil, List.map_eq_nil_iff,
      List.contains_nil, Bool.not_false, List.filter_true]
    exact and_congr eq_comm eq_comm
  | cons name rest ih =>
    rw [List.nodup_cons] at hnodup
    have hrest : rest.map (findRecord? (records.filter fun s => s.name != name)) =
        rest.map (findRecord? records) :=
      List.map_congr_left fun other hother => findRecord?_filter (fun r hr => by
        simpa [hr] using ne_of_mem_of_not_mem hother hnodup.1) records
    have hleft : (records.filter fun r => !(name :: rest).contains r.name) =
        (records.filter fun s => s.name != name).filter fun r => !rest.contains r.name := by
      rw [List.filter_filter]
      refine List.filter_congr fun r _ => ?_
      by_cases hr : r.name = name <;> simp [hr]
    rw [takeRecords, hleft]
    cases hfind : findRecord? records name with
    | none =>
      simp only [reduceCtorEq, List.map_cons, hfind, false_iff, not_and]
      intro h
      cases taken <;> simp at h
    | some r =>
      simp only [exceptBind_eq_ok, List.map_cons, hfind, pure, Except.pure, Except.ok.injEq,
        Prod.mk.injEq, Prod.exists, ih hnodup.2, hrest]
      constructor
      · rintro ⟨others, left, ⟨hothers, rfl⟩, rfl, rfl⟩
        exact ⟨by rw [List.map_cons, hothers], rfl⟩
      · rintro ⟨htaken, rfl⟩
        cases taken with
        | nil => simp at htaken
        | cons s others =>
          simp only [List.map_cons, List.cons.injEq, Option.some.injEq] at htaken
          exact ⟨others, _, ⟨htaken.2, rfl⟩, by rw [htaken.1], rfl⟩

theorem map_name_of_findRecord? {names : List String} {records taken : List ValueRecord}
    (h : taken.map some = names.map (findRecord? records)) :
    taken.map ValueRecord.name = names := by
  induction names generalizing taken with
  | nil => simpa using h
  | cons name rest ih =>
    cases taken with
    | nil => simp at h
    | cons r taken =>
      simp only [List.map_cons, List.cons.injEq] at h
      rw [List.map_cons, ih h.2, name_of_findRecord? h.1.symm]

/-! ## Models of finished levels -/

/-- A model that is made of a finished level, with the constants and functions that all levels
share. -/
structure Model.Finishes (m : Model) (l : Level) (σ : Shared) : Prop where
  inputs : m.graph.inputs.map some = l.inputs.map l.record?
  outputs : m.graph.outputs.map some = l.outputs.map l.record?
  nodes : m.graph.nodes = l.nodes
  initializers : m.graph.initializers = σ.table.entries
  records : m.graph.records =
    (l.records.filter fun r => !l.inputs.contains r.name).filter fun r => !l.outputs.contains r.name
  functions : m.functions = σ.functions

namespace Model.Finishes

variable {m : Model} {l : Level} {σ : Shared}

theorem inputNames_eq (h : m.Finishes l σ) : m.graph.inputNames = l.inputs :=
  map_name_of_findRecord? h.inputs

theorem outputNames_eq (h : m.Finishes l σ) : m.graph.outputNames = l.outputs :=
  map_name_of_findRecord? h.outputs

theorem initializerNames_eq (h : m.Finishes l σ) : m.graph.initializerNames = σ.table.names := by
  rw [Graph.initializerNames, h.initializers, InitializerTable.names]

end Model.Finishes

section

variable {s s' : Lowering}

theorem Lower.finishes_finish {modelName : String} {opset : Nat} {m : Model}
    (h : build (Build.finish modelName opset) s = .ok m s')
    (hnodup : (s.draft.level.inputs ++ s.draft.level.outputs).Nodup) :
    m.Finishes s.draft.level s.draft.shared := by
  obtain ⟨hinputs, houtputs, hdisjoint⟩ := List.nodup_append.1 hnodup
  simp only [build_eq_ok, Build.finish, Step.get_bind_eq_ok] at h
  obtain ⟨b, hb, rfl⟩ := h
  simp only [Step.bind_eq_ok, Build.ofExcept_eq_ok, Step.set_eq_ok, Step.pure_eq_ok] at hb
  obtain ⟨⟨inputs, records⟩, _, ⟨hin, rfl⟩, ⟨outputs, records'⟩, _, ⟨hout, rfl⟩, _, _, rfl, rfl,
    rfl⟩ := hb
  obtain ⟨hin', rfl⟩ := (takeRecords_eq_ok hinputs).1 hin
  obtain ⟨hout', rfl⟩ := (takeRecords_eq_ok houtputs).1 hout
  refine ⟨hin', hout'.trans (List.map_congr_left fun x hx => ?_), rfl, rfl, rfl, rfl⟩
  refine findRecord?_filter (fun r hr => ?_) s.draft.level.records
  simpa [hr] using fun hmem => hdisjoint x hmem x hx rfl

theorem Shared.sound_empty (program : Program) (settings : Params) (symbols : SymbolTable) :
    Shared.Sound program settings symbols ⟨[], .empty, []⟩ :=
  ⟨⟨by simp [InitializerTable.names, InitializerTable.empty],
    by simp [InitializerTable.names, InitializerTable.empty], by simp, by simp⟩, .nil, trivial,
    by simp⟩

/-- A model that is made of a finished level which translates a trace. -/
def Model.Translates (program : Program) (settings : Params) (symbols : SymbolTable) (t : Trace)
    (m : Model) : Prop :=
  ∃ σ l names info body tail decls, Shared.Sound program settings symbols σ ∧
    l.Translates program symbols (Implements program settings symbols σ) σ names info t body tail
      decls ∧ m.Finishes l σ

/-- A line that is logged under a condition leads to one state, whether it is logged or not. -/
theorem Lower.say_when_eq_ok {c : Prop} [Decidable c] {level : LogLevel} {message : String}
    {α : Type} {x : Lower α} {a : α} : (if c then (do say level message; x) else x) s = .ok a s' ↔
      x { s with builder := if c then s.builder.say level message else s.builder } = .ok a s' := by
  split
  · simp only [Step.bind_eq_ok, say_eq_ok, exists_eq_left, exists_const]
  · rfl

/-- The steps of lowering a program: from a state that differs from the first one in its log only,
the entry is traced, its trace is lowered, the outputs are resolved and the model is made of the
level. -/
theorem lowerProgram_eq_ok (registry : Registry) (program : Program) (entry : Callable)
    (inputs : List InputSpec) (options : ConversionOptions) (s : Lowering) :
    ∃ opened : Lowering, opened.draft = s.draft ∧ opened.counts = s.counts ∧ ∀ m s',
      lowerProgram registry program entry inputs options s = .ok m s' ↔
        ∃ settings, options.params = .ok settings ∧ ∃ t traced, Lower.trace entry.name
          (entry.tracer settings (program.tracers settings))
            ((InputSpec.abstractAll inputs).2.map .abstract) opened = .ok t traced ∧
        ∃ said, Lower.say .info ("Building graph (" ++ toString t.equations.length ++ " equations)")
          traced = .ok () said ∧
        ∃ lowered, lowerTrace ⟨registry.handler?, (InputSpec.abstractAll inputs).1⟩
          (callLowerings ⟨registry.handler?, (InputSpec.abstractAll inputs).1⟩ settings program)
            .top t said = .ok () lowered ∧
        ∃ resolved,
          resolveOutputs ⟨registry.handler?, (InputSpec.abstractAll inputs).1⟩ .top lowered =
            .ok () resolved ∧
          Lower.build (Build.finish options.modelName options.opset) resolved = .ok m s' := by
  let symbols := (InputSpec.abstractAll inputs).1
  let converting :=
    s.builder.say .info ("Converting " ++ entry.name ++ " to model '" ++ options.modelName ++ "'")
  let declared := if !symbols.names.isEmpty then
    converting.say .debug (toString symbols.names.length ++ " symbolic dim(s) declared")
      else converting
  refine ⟨{ s with builder := declared.say .info ("Tracing " ++ entry.name) }, ?_, rfl,
    fun m s' => ?_⟩
  · unfold declared
    split <;> rfl
  simp only [lowerProgram, Step.bind_eq_ok, Lower.say_when_eq_ok, Lower.say_eq_ok, exists_eq_left,
    exists_const, Lower.build_eq_ok, Build.ofExcept_eq_ok]
  constructor
  · rintro ⟨settings, _, ⟨_, ⟨hsettings, rfl⟩, rfl⟩, t, traced, htrace, _, lowered, hlower, _,
      resolved, hrest⟩
    exact ⟨settings, hsettings, t, traced, htrace, lowered, hlower, resolved, hrest⟩
  · rintro ⟨settings, hsettings, t, traced, htrace, lowered, hlower, resolved, hrest⟩
    exact ⟨settings, _, ⟨_, ⟨hsettings, rfl⟩, rfl⟩, t, traced, htrace, _, lowered, hlower, _,
      resolved, hrest⟩

/-- Calls of all callables are lowered as they should be with the built-in primitives. -/
theorem callsImplement_builtin (program : Program) (settings : Params) (symbols : SymbolTable) :
    CallsImplement program settings symbols
      (callLowerings ⟨Registry.builtin.handler?, symbols⟩ settings program) := by
  have := @callsImplement_callLowerings program settings symbols
    ⟨Registry.builtin.handler?, symbols⟩ rfl rfl program.length
  rwa [List.take_length] at this

/-- Before a program is lowered. -/
theorem Lowering.lowered_start (program : Program) (settings : Params) (symbols : SymbolTable)
    (name : String) :
    (start name).draft.Lowered program settings symbols ⟨[], .empty, []⟩
      ⟨[], [], [], []⟩ [] [] [] :=
  Draft.lowered_empty (.refl _) (Shared.sound_empty program settings symbols) rfl rfl rfl rfl
    rfl rfl

/-- The states that lowering a program goes through : the trace of the entry is lowered into the
first level, its outputs get their records, and the model is made of it. -/
theorem lowerProgram_cases {program : Program} {entry : Callable} {inputs : List InputSpec}
    {options : ConversionOptions} {name : String} {m : Model}
    (h : lowerProgram .builtin program entry inputs options (.start name) = .ok m s') :
    ∃ settings t counts said lowered resolved body tail decls records,
      options.params = .ok settings ∧
      entry.tracer settings (program.tracers settings) (InputSpec.abstractAll inputs).2 .start =
        .ok (t, counts) ∧
      said.draft = (Lowering.start name).draft ∧
      lowerTrace ⟨Registry.builtin.handler?, (InputSpec.abstractAll inputs).1⟩
        (callLowerings ⟨Registry.builtin.handler?, (InputSpec.abstractAll inputs).1⟩ settings
          program) .top t said = .ok () lowered ∧
      lowered.draft.Lowered program settings (InputSpec.abstractAll inputs).1
        ⟨[], .empty, []⟩ t body tail decls ∧
      resolved.draft = lowered.draft.withRecords records ∧
      resolved.draft.level.Translates program (InputSpec.abstractAll inputs).1
        (Implements program settings (InputSpec.abstractAll inputs).1 lowered.draft.shared)
        lowered.draft.shared lowered.draft.name? lowered.draft.level.info? t body tail decls ∧
      Lower.build (Build.finish options.modelName options.opset) resolved = .ok m s' := by
  obtain ⟨opened, hopened, hcounts, hsteps⟩ :=
    lowerProgram_eq_ok .builtin program entry inputs options (.start name)
  obtain ⟨settings, hsettings, t, traced, htrace, said, hsay, lowered, hlower, resolved, hresolve,
    hfinish⟩ :=
    (hsteps m s').1 h
  obtain ⟨htraced, counts, htracer⟩ := Lower.draft_trace htrace
  rw [hcounts, List.map_map] at htracer
  have htypes : (InputSpec.abstractAll inputs).2.map (TraceArg.type ∘ TraceArg.abstract) =
      (InputSpec.abstractAll inputs).2 := List.map_id _
  rw [htypes] at htracer
  have hsaid : said.draft = (Lowering.start name).draft :=
    (Lower.draft_say hsay).trans (htraced.trans hopened)
  obtain ⟨body, tail, decls, hlowered⟩ :=
    lowered_lowerTrace rfl rfl (callsImplement_builtin program settings _) hlower
      (hsaid ▸ Lowering.lowered_start program settings _ name) (Callable.tracer_spec htracer).2.1
  obtain ⟨records, hresolved, htranslates⟩ := translates_resolveOutputs rfl hresolve hlowered
  exact ⟨settings, t, counts, said, lowered, resolved, body, tail, decls, records, hsettings,
    htracer, hsaid, hlower, hlowered, hresolved, htranslates, hfinish⟩

/-- Lowering a program gives a model that translates the trace of its entry. -/
theorem translates_lowerProgram {program : Program} {entry : Callable} {inputs : List InputSpec}
    {options : ConversionOptions} {name : String} {m : Model}
    (h : lowerProgram .builtin program entry inputs options (.start name) = .ok m s') :
    ∃ settings t counts, options.params = .ok settings ∧
      entry.tracer settings (program.tracers settings) (InputSpec.abstractAll inputs).2 .start =
        .ok (t, counts) ∧
      m.Translates program settings (InputSpec.abstractAll inputs).1 t := by
  obtain ⟨settings, t, counts, said, lowered, resolved, body, tail, decls, records, hsettings,
    htracer, -, -, hlowered, hresolved, htranslates, hfinish⟩ := lowerProgram_cases h
  have hfinishes := Lower.finishes_finish hfinish htranslates.nodup_inputs_outputs
  rw [show resolved.draft.shared = lowered.draft.shared by rw [hresolved]; rfl] at hfinishes
  exact ⟨settings, t, counts, hsettings, htracer, _, _, _, _, body, tail, decls, hlowered.sound,
    htranslates, hfinishes⟩

/-! ## Finished models -/

/-- The model that a conversion makes of a lowered one. -/
def Model.finished (optimizer : Optimizer) (options : ConversionOptions) (m : Model) : Model :=
  if options.optimize then optimizer.optimize m.prune else m.prune

/-- What dropping unread constants and dead nodes keeps, a conversion keeps of a lowered model. -/
theorem Model.finished_of_steps {P : Model → Prop} {m : Model} (hprune : ∀ m, P m → P m.prune)
    (hdead : ∀ m, P m → P m.withoutDeadNodes) (h : P m) (optimizer : Optimizer)
    (options : ConversionOptions) :
    P (m.finished optimizer options) := by
  unfold Model.finished
  split
  · cases optimizer with
    | noop => exact hprune m h
    | deadNodeElimination => exact hprune _ (hdead _ (hprune m h))
  · exact hprune m h

theorem exists_finishModel (optimizer : Optimizer) (options : ConversionOptions) (m : Model)
    (s : Lowering) :
    ∃ s', finishModel optimizer options m s = .ok (m.finished optimizer options) s' := by
  unfold finishModel Model.finished
  by_cases hunused : 0 < m.unusedInitializers.length
  all_goals
    cases options.optimize
    all_goals
      simp only [hunused]
      exact ⟨_, rfl⟩

theorem convert_eq_ok {registry : Registry} {optimizer : Optimizer} {program : Program}
    {inputs : List InputSpec} {options : ConversionOptions} {m : Model} :
    (convert registry optimizer program inputs options).result = .ok m ↔
      ∃ entry, program.getLast? = some entry ∧ ∃ lowered s,
        lowerProgram registry program.dropLast entry inputs options (.start options.modelName) =
          .ok lowered s ∧
        m = lowered.finished optimizer options := by
  unfold convert
  cases hentry : program.getLast? with
  | none => simp [Outcome.refused]
  | some entry =>
    simp only [Option.some.injEq, exists_eq_left']
    constructor
    · intro h
      split at h
      next m' s' hsteps =>
        obtain ⟨lowered, s, hlowered, hfinish⟩ := Step.bind_eq_ok.1 hsteps
        obtain ⟨_, hfinished⟩ := exists_finishModel optimizer options lowered s
        rw [hfinished] at hfinish
        cases hfinish
        cases h
        exact ⟨lowered, s, hlowered, rfl⟩
      next => simp at h
    · rintro ⟨lowered, s, hlowered, rfl⟩
      obtain ⟨s', hfinished⟩ := exists_finishModel optimizer options lowered s
      rw [Step.bind_eq_ok.2 ⟨lowered, s, hlowered, hfinished⟩]

/-- A conversion that succeeds returns what is made of a model that translates the trace of the
entry. -/
theorem translates_of_convert {optimizer : Optimizer} {program : Program} {inputs : List InputSpec}
    {options : ConversionOptions} {m : Model}
    (h : (convert .builtin optimizer program inputs options).result = .ok m) :
    ∃ (entry : Callable) (settings : Params) (t : Trace) (counts : Counts) (lowered : Model),
      program.getLast? = some entry ∧ options.params = .ok settings ∧
      entry.tracer settings (Program.tracers settings program.dropLast)
        (InputSpec.abstractAll inputs).2 .start = .ok (t, counts) ∧
      lowered.Translates program.dropLast settings (InputSpec.abstractAll inputs).1 t ∧
      m = lowered.finished optimizer options := by
  obtain ⟨entry, hentry, lowered, _, hlowered, rfl⟩ := convert_eq_ok.1 h
  obtain ⟨settings, t, counts, hsettings, htracer, htranslates⟩ := translates_lowerProgram hlowered
  exact ⟨entry, settings, t, counts, lowered, hentry, hsettings, htracer, htranslates, rfl⟩

end

/-! ## An example -/

namespace Example

/-- Twice the argument. -/
def double : Callable :=
  .fixed "double" none
    [.constant ⟨.f32, [], [0, 0, 0, 64]⟩, .elementwise "mul" (.value 0) (.value 1)] [.value 2]

/-- Four times the argument, and the argument itself. -/
def quadruple : Callable :=
  .fixed "quadruple" none [.call 0 [.value 0], .call 0 [.value 1]] [.value 2, .value 0]

/-- Six times the argument, returned twice, and the argument. A power is computed that nothing
needs. -/
def sixfold : Callable :=
  .fixed "sixfold" none [.call 1 [.value 0], .call 0 [.value 0],
    .elementwise "add" (.value 1) (.value 3), .elementwise "pow" (.value 0) (.value 1)]
    [.value 4, .value 2, .value 4]

/-- A program that calls a callable directly and inside another one. -/
def program : Program :=
  [double, quadruple, sixfold]

/-- One input, with a symbolic length. -/
def inputs : List InputSpec :=
  [⟨[.symbol "n", .fixed 2], .f32⟩]

theorem repeatable_program (settings : Params) : program.Repeatable settings := by
  refine Program.repeatable_of_drawless ?_ ?_
  · simp [program, double, quadruple, sixfold, Callable.isUniform_fixed]
  · simp [program, double, quadruple, sixfold, Callable.fixed, Statement.isDraw]

theorem exists_trace : ∃ t counts,
    sixfold.tracer [] (Program.tracers [] program.dropLast) (InputSpec.abstractAll inputs).2
      .start = .ok (t, counts) := by
  obtain ⟨result, hresult⟩ := exists_ok_of_isOk (show (sixfold.tracer []
    (Program.tracers [] program.dropLast) (InputSpec.abstractAll inputs).2 .start).isOk = true by
      decide +kernel)
  exact ⟨result.1, result.2, hresult⟩

end Example

end TensorGraph
