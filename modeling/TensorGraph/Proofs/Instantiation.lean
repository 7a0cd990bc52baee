import TensorGraph.Proofs.Interface
import TensorGraph.Proofs.LevelTypes
import TensorGraph.Proofs.TotalConversion

/-!
# Lengths for symbols

A program that is made of constants, literals, arithmetic and calls, and takes the same steps on all
types, does not depend on lengths. What it records on known lengths is what it records on symbols,
with the lengths in their place (`Program.instantiable_tracers`) : dimensions that join do so for
all lengths (`broadcast?_instantiate`). So a conversion with symbols stands for one with any lengths
(`convert_instantiate`), as long as there are numbers for all symbols.
-/

namespace TensorGraph

/-! ## Known lengths -/

/-- The length of a dimension, where `lengths` are those of symbols. -/
def Dim.length (lengths : UInt32 → Nat) : Dim → Nat
  | .known n => n
  | .symbolic id => lengths id

/-- The type with lengths in place of symbols. -/
def AbstractValue.instantiate (lengths : UInt32 → Nat) (v : AbstractValue) : AbstractValue :=
  .known (v.shape.map (Dim.length lengths)) v.dtype

/-- The variable with lengths in place of symbols. -/
def Var.instantiate (lengths : UInt32 → Nat) (v : Var) : Var :=
  ⟨v.id, v.type.instantiate lengths⟩

/-- The operand with lengths in place of symbols. -/
def Atom.instantiate (lengths : UInt32 → Nat) : Atom → Atom
  | .var v => .var (v.instantiate lengths)
  | .literal t => .literal t

/-- The equation with lengths in place of symbols. -/
def Equation.instantiate (lengths : UInt32 → Nat) (e : Equation) : Equation :=
  { e with inputs := e.inputs.map (Atom.instantiate lengths),
           outputs := e.outputs.map (Var.instantiate lengths) }

/-- The trace with lengths in place of symbols. -/
def Trace.instantiate (lengths : UInt32 → Nat) (t : Trace) : Trace where
  inputs := t.inputs.map (Var.instantiate lengths)
  constants := t.constants.map (Prod.map (Var.instantiate lengths) id)
  equations := t.equations.map (Equation.instantiate lengths)
  outputs := t.outputs.map (Atom.instantiate lengths)

/-- The recording with lengths in place of symbols. -/
def Recording.instantiate (lengths : UInt32 → Nat) (r : Recording) : Recording :=
  { r with
    constants := r.constants.map (Prod.map (Var.instantiate lengths) id)
    equations := r.equations.map (Equation.instantiate lengths)
    values := r.values.map (Var.instantiate lengths) }

section

variable {lengths : UInt32 → Nat}

@[simp] theorem Tensor.instantiate_type (t : Tensor) : t.type.instantiate lengths = t.type := by
  have hlength : Dim.length lengths ∘ Dim.known = id := rfl
  simp [AbstractValue.instantiate, type, AbstractValue.known, hlength]

@[simp] theorem Atom.type_instantiate (a : Atom) :
    (a.instantiate lengths).type = a.type.instantiate lengths := by
  cases a with
  | var v => rfl
  | literal t => exact t.instantiate_type.symm

theorem map_type_instantiate (atoms : List Atom) :
    (atoms.map (Atom.instantiate lengths)).map Atom.type =
      (atoms.map Atom.type).map (AbstractValue.instantiate lengths) := by
  rw [List.map_map, List.map_map]
  exact List.map_congr_left fun a _ => a.type_instantiate

theorem freshVars_instantiate (next : Nat) (types : List AbstractValue) :
    (freshVars next types).map (Var.instantiate lengths) =
      freshVars next (types.map (AbstractValue.instantiate lengths)) := by
  induction types generalizing next with
  | nil => rfl
  | cons type types ih =>
    rw [freshVars_cons, List.map_cons, ih, List.map_cons, freshVars_cons]
    rfl

/-! ## Broadcasting -/

namespace Dim

theorem join?_self (d : Dim) : join? d d = some d :=
  if_pos rfl

theorem join?_one_left (d : Dim) : join? (.known 1) d = some d := by
  rw [join?]
  by_cases h : .known 1 = d
  · rw [if_pos h, h]
  · rw [if_neg h, if_pos rfl]

theorem join?_one_right (d : Dim) : join? d (.known 1) = some d := by
  rw [join?]
  by_cases h : d = .known 1
  · rw [if_pos h]
  · rw [if_neg h, if_neg h, if_pos rfl]

/-- Dimensions that join do so for all lengths. -/
theorem join?_instantiate {a b d : Dim} (h : join? a b = some d) :
    join? (.known (a.length lengths)) (.known (b.length lengths)) =
      some (.known (d.length lengths)) := by
  unfold join? at h
  split_ifs at h with hsame hleft hright
  · obtain rfl := Option.some.inj h
    rw [← hsame]
    exact join?_self _
  · obtain rfl := Option.some.inj h
    rw [hleft]
    exact join?_one_left _
  · obtain rfl := Option.some.inj h
    rw [hright]
    exact join?_one_right _

end Dim

theorem broadcastBack?_instantiate (lengths : UInt32 → Nat) {lhs rhs shape : List Dim}
    (h : broadcastBack? lhs rhs = some shape) :
    broadcastBack? (lhs.map (Dim.known ∘ Dim.length lengths))
      (rhs.map (Dim.known ∘ Dim.length lengths)) =
        some (shape.map (Dim.known ∘ Dim.length lengths)) := by
  induction lhs generalizing rhs shape with
  | nil =>
    obtain rfl : rhs = shape := by simpa [broadcastBack?] using h
    simp [broadcastBack?]
  | cons a lhs ih =>
    cases rhs with
    | nil =>
      obtain rfl : a :: lhs = shape := by simpa [broadcastBack?] using h
      simp [broadcastBack?]
    | cons b rhs =>
      rw [broadcastBack?] at h
      split at h
      next d rest hjoin hrest =>
        obtain rfl := Option.some.inj h
        simp [broadcastBack?, Dim.join?_instantiate hjoin, ih hrest]
      next => cases h

/-- Shapes that broadcast do so for all lengths. -/
theorem broadcast?_instantiate (lengths : UInt32 → Nat) {lhs rhs shape : List Dim}
    (h : broadcast? lhs rhs = some shape) :
    broadcast? (lhs.map (Dim.known ∘ Dim.length lengths))
      (rhs.map (Dim.known ∘ Dim.length lengths)) =
        some (shape.map (Dim.known ∘ Dim.length lengths)) := by
  obtain ⟨back, hback, rfl⟩ := Option.map_eq_some_iff.1 h
  rw [broadcast?, ← List.map_reverse, ← List.map_reverse, broadcastBack?_instantiate lengths hback,
    Option.map_some, List.map_reverse]

end

/-! ## Recordings -/

section

variable {lengths : UInt32 → Nat} {settings : Params} {known : List (String × Tracer)}
  {r r' : Recording}

/-- An operand of the same variables, with lengths in place of symbols. -/
theorem Operand.atom?_instantiate (values : List Var) (o : Operand) :
    o.atom? settings (values.map (Var.instantiate lengths)) = (o.atom? settings values).map
      (Atom.instantiate lengths) := by
  cases o with
  | value index =>
    rw [atom?, atom?, List.getElem?_map, Option.map_map, Option.map_map]
    rfl
  | literalLike index x =>
    rw [atom?, atom?, List.getElem?_map, Option.map_map, Option.map_map]
    rfl
  | literal dtype x => rfl
  | tensor t => rfl
  | param dtype key => rfl

theorem operands_instantiate {values : List Var} {os : List Operand} {atoms : List Atom}
    (h : os.map (Operand.atom? settings values) = atoms.map some) :
    os.map (Operand.atom? settings (values.map (Var.instantiate lengths))) =
      (atoms.map (Atom.instantiate lengths)).map some := by
  have hatoms : os.map (Operand.atom? settings (values.map (Var.instantiate lengths))) =
      (os.map (Operand.atom? settings values)).map (Option.map (Atom.instantiate lengths)) := by
    rw [List.map_map]
    exact List.map_congr_left fun o _ => o.atom?_instantiate values
  rw [hatoms, h, List.map_map, List.map_map]
  rfl

namespace Recording

theorem instantiate_start (types : List AbstractValue) (counts : Counts) :
    (start types counts).instantiate lengths = start (types.map (AbstractValue.instantiate lengths))
      counts := by
  simp [instantiate, start, freshVars_instantiate]

theorem instantiate_holdAll (r : Recording) (made : List Var) :
    (r.holdAll made).instantiate lengths = (r.instantiate lengths).holdAll
      (made.map (Var.instantiate lengths)) := by
  simp [instantiate, holdAll]

theorem instantiate_constantVar (r : Recording) (value : Tensor) :
    (r.constantVar value).instantiate lengths = (r.instantiate lengths).constantVar value := by
  simp [instantiate, constantVar, Var.instantiate]

theorem instantiate_addConstant (r : Recording) (value : Tensor) :
    (r.addConstant value).instantiate lengths = (r.instantiate lengths).addConstant value := by
  simp [instantiate, addConstant, constantVar, Var.instantiate]

theorem instantiate_addEquation (r : Recording) (primitive : String) (atoms : List Atom)
    (types : List AbstractValue) (params : Params) :
    (r.addEquation primitive atoms types params).instantiate lengths =
      (r.instantiate lengths).addEquation primitive (atoms.map (Atom.instantiate lengths))
        (types.map (AbstractValue.instantiate lengths)) params := by
  simp [instantiate, addEquation, Equation.instantiate, freshVars_instantiate]

theorem ids_instantiate (inputs : List Var) (r : Recording) :
    (r.instantiate lengths).ids (inputs.map (Var.instantiate lengths)) = r.ids inputs := by
  have hid : ∀ v : Var, (v.instantiate lengths).id = v.id := fun _ => rfl
  simp [ids, instantiate, madeBy, List.flatMap_map, Equation.instantiate, Function.comp_def, hid]

end Recording

/-- A tracer records the same with lengths in place of symbols. -/
def Tracer.Instantiable (lengths : UInt32 → Nat) (tracer : Tracer) : Prop :=
  ∀ ⦃types counts t counts'⦄, tracer types counts = .ok (t, counts') →
    tracer (types.map (AbstractValue.instantiate lengths)) counts =
      .ok (t.instantiate lengths, counts')

/-- An arithmetic statement makes the same with lengths in place of symbols. -/
theorem Recorder.Makes.instantiate (hknown : ∀ k ∈ known, k.2.Instantiable lengths) {st : Statement}
    {made : List Var} (harith : st.isArithmetic = true) (h : Makes settings known r st made r') :
    Makes settings known (r.instantiate lengths) st (made.map (Var.instantiate lengths))
      (r'.instantiate lengths) := by
  cases h with
  | constant value =>
    rw [List.map_singleton, Recording.instantiate_constantVar, Recording.instantiate_addConstant]
    exact .constant value
  | draw dtype dims bytes =>
    rw [List.map_singleton, Recording.instantiate_constantVar, Recording.instantiate_addConstant]
    exact .draw dtype dims bytes
  | @elementwise primitive lhs rhs a b shape left right fits =>
    have hatom : ∀ {o : Operand} {c : Atom}, o.atom? settings r.values = some c →
        o.atom? settings (r.instantiate lengths).values = some (c.instantiate lengths) :=
          fun ho => by
      rw [Recording.instantiate, Operand.atom?_instantiate, ho, Option.map_some]
    have htype : AbstractValue.instantiate lengths ⟨shape, a.type.dtype⟩ =
        ⟨shape.map (Dim.known ∘ Dim.length lengths), (a.instantiate lengths).type.dtype⟩ := by
      rw [a.type_instantiate, AbstractValue.instantiate, AbstractValue.known, List.map_map]
      rfl
    rw [freshVars_instantiate, Recording.instantiate_addEquation, List.map_singleton, htype]
    refine .elementwise primitive (hatom left) (hatom right) ?_
    simpa [AbstractValue.instantiate, AbstractValue.known] using broadcast?_instantiate lengths fits
  | bind primitive types params operands => simp [Statement.isArithmetic] at harith
  | @call index counts args atoms name tracer inner operands callee trace =>
    rw [freshVars_instantiate, Recording.instantiate_addEquation]
    have htrace := hknown _ (List.mem_of_getElem? callee) trace
    rw [← map_type_instantiate] at htrace
    rw [← map_type_instantiate]
    exact .call (r := r.instantiate lengths) (operands_instantiate operands) callee htrace
  | foreign v => simp [Statement.isArithmetic] at harith

theorem Recorder.statements_instantiate (hknown : ∀ k ∈ known, k.2.Instantiable lengths)
    {body : List Statement} (harith : ∀ st ∈ body, st.isArithmetic = true)
    (h : statements settings known body r = .ok ((), r')) :
    statements settings known body (r.instantiate lengths) = .ok ((), r'.instantiate lengths) := by
  induction body generalizing r with
  | nil =>
    obtain ⟨-, rfl⟩ := pure_eq_ok.1 h
    exact pure_eq_ok.2 ⟨rfl, rfl⟩
  | cons st rest ih =>
    obtain ⟨made, r₁, hmade, hrest⟩ := statements_cons_eq_ok.1 h
    have hmakes := (makes_of_statement hmade).instantiate hknown (harith st (by simp))
    have hrest' := ih (fun st hst => harith st (by simp [hst])) hrest
    rw [Recording.instantiate_holdAll] at hrest'
    exact statements_cons_eq_ok.2 ⟨_, _, statement_of_makes hmakes, hrest'⟩

theorem Callable.instantiable_tracer (hknown : ∀ k ∈ known, k.2.Instantiable lengths) {c : Callable}
    (harith : c.IsArithmetic) (hfixed : c.IsFixed) :
    Tracer.Instantiable lengths (c.tracer settings known) := by
  intro types counts t counts' h
  obtain ⟨harity, r, hbody, hresults, houtputs, hinputs, hconstants, hequations, hcounts⟩ :=
    tracer_eq_ok.1 h
  have hbody' := Recorder.statements_instantiate hknown (List.all_eq_true.1 (harith _ _)) hbody
  obtain ⟨hsteps, hreturns⟩ :=
    hfixed types (types.map (AbstractValue.instantiate lengths)) counts.runs counts.runs
  rw [Recording.instantiate_start, hsteps] at hbody'
  rw [hreturns] at hresults
  refine tracer_eq_ok.2 ⟨by rwa [List.length_map], r.instantiate lengths, hbody',
    operands_instantiate hresults, ?_, ?_, congrArg _ hconstants, congrArg _ hequations, hcounts⟩
  · intro a ha
    obtain ⟨b, hb, rfl⟩ := List.mem_map.1 ha
    rw [Trace.instantiate, Recording.ids_instantiate]
    have hknown := houtputs b hb
    cases b with
    | var v => exact hknown
    | literal value => trivial
  · rw [Trace.instantiate, hinputs, freshVars_instantiate]

/-- Arithmetic callables record the same with lengths in place of symbols. -/
theorem Program.instantiable_tracers {program : Program} (harith : ∀ c ∈ program, c.IsArithmetic)
    (hfixed : ∀ c ∈ program, c.IsFixed) :
    ∀ k ∈ program.tracers settings, k.2.Instantiable lengths := by
  induction program using List.reverseRecOn with
  | nil => simp [tracers]
  | append_singleton program c ih =>
    have hprogram := ih (fun c hc => harith c (List.mem_append_left _ hc))
      fun c hc => hfixed c (List.mem_append_left _ hc)
    intro k hk
    rw [tracers_append_singleton] at hk
    rcases List.mem_append.1 hk with hk | hk
    · exact hprogram k hk
    · obtain rfl := List.mem_singleton.1 hk
      exact Callable.instantiable_tracer hprogram (harith c (by simp)) (hfixed c (by simp))

end

/-! ## Declared lengths -/

/-- The length of a declared entry, where `lengths` are those of named symbols. -/
def DimSpec.length (lengths : String → Nat) : DimSpec → Nat
  | .fixed n => n
  | .symbol s => lengths s

/-- The input with lengths in place of symbols. -/
def InputSpec.instantiate (lengths : String → Nat) (spec : InputSpec) : InputSpec :=
  { spec with shape := spec.shape.map fun d => .fixed (d.length lengths) }

/-- The length of a dimension of a model, where `lengths` are those of named symbols. -/
def ShapeDim.length (lengths : String → Nat) : ShapeDim → Nat
  | .fixed n => n
  | .named s => lengths s

/-- The type of a value with lengths in place of symbols. -/
def ValueType.instantiate (lengths : String → Nat) (type : ValueType) : ValueType :=
  { type with shape := type.shape.map fun d => .fixed (d.length lengths) }

/-- The lengths of numbered symbols, where `lengths` are those of named ones. -/
def SymbolTable.lengths (table : SymbolTable) (lengths : String → Nat) (id : UInt32) : Nat :=
  match table.name? id with
  | some s => lengths s
  | none => 0

section

variable {lengths : String → Nat} {symbols : SymbolTable}

theorem SymbolTable.length_of_renderDim? {d : Dim} {e : ShapeDim}
    (h : symbols.renderDim? d = some e) :
    d.length (symbols.lengths lengths) = e.length lengths := by
  cases d with
  | known n =>
    obtain rfl := Option.some.inj h
    rfl
  | symbolic id =>
    obtain ⟨s, hs, rfl⟩ := Option.map_eq_some_iff.1 h
    simp [Dim.length, SymbolTable.lengths, hs, ShapeDim.length]

theorem SymbolTable.lengths_of_renderShape? {type : AbstractValue} {shape : List ShapeDim}
    (h : symbols.renderShape? type = some shape) :
    type.shape.map (Dim.length (symbols.lengths lengths)) =
      shape.map (ShapeDim.length lengths) := by
  rw [← List.forall₂_eq_eq_eq, List.forall₂_map_left_iff, List.forall₂_map_right_iff]
  exact (forall₂_of_renderShape? h).imp fun d e hd => length_of_renderDim? hd

/-- A type that is rendered is rendered for all lengths, by any table. -/
theorem SymbolTable.renderType?_instantiate {type : AbstractValue} {rendered : ValueType}
    (h : symbols.renderType? type = some rendered) (table : SymbolTable) :
    table.renderType? (type.instantiate (symbols.lengths lengths)) =
      some (rendered.instantiate lengths) := by
  obtain ⟨shape, hshape, rfl⟩ := Option.map_eq_some_iff.1 h
  rw [AbstractValue.instantiate, renderType?_known, lengths_of_renderShape? hshape,
    ValueType.instantiate, List.map_map]
  rfl

theorem SymbolTable.abstractShape_fixed (table : SymbolTable) (dims : List Nat) :
    table.abstractShape (dims.map .fixed) = (table, dims.map .known) := by
  induction dims with
  | nil => rfl
  | cons n dims ih => rw [List.map_cons, abstractShape, ih, List.map_cons]

theorem SymbolTable.abstractSpecs_instantiate (table : SymbolTable) (specs : List InputSpec) :
    table.abstractSpecs (specs.map (InputSpec.instantiate lengths)) =
      (table, specs.map fun spec =>
        .known (spec.shape.map (DimSpec.length lengths)) spec.dtype) := by
  induction specs with
  | nil => rfl
  | cons spec specs ih =>
    have hshape : table.abstractShape (spec.instantiate lengths).shape =
        (table, (spec.shape.map (DimSpec.length lengths)).map .known) := by
      rw [← abstractShape_fixed, List.map_map]
      rfl
    simp only [List.map_cons, abstractSpecs, hshape, ih]
    rfl

theorem DimSpec.length_rendered (d : DimSpec) : d.rendered.length lengths = d.length lengths := by
  cases d <;> rfl

theorem InputSpec.occurrences_instantiate (specs : List InputSpec) :
    occurrences (specs.map (instantiate lengths)) = [] := by
  simp [occurrences, instantiate, DimSpec.symbol?]

/-- Inputs with lengths in place of symbols have the types of the inputs, with these lengths. -/
theorem InputSpec.abstractAll_instantiate {specs : List InputSpec}
    (hfew : (occurrences specs).eraseDups.length ≤ Nat.pow 2 32) :
    (abstractAll (specs.map (instantiate lengths))).2 =
      (abstractAll specs).2.map
        (AbstractValue.instantiate ((abstractAll specs).1.lengths lengths)) := by
  rw [abstractAll, SymbolTable.abstractSpecs_instantiate, ← List.forall₂_eq_eq_eq,
    List.forall₂_map_left_iff, List.forall₂_map_right_iff]
  refine (renders_abstractAll hfew).imp fun spec type hspec => ?_
  have hlengths : type.shape.map (Dim.length ((abstractAll specs).1.lengths lengths)) = _ :=
    SymbolTable.lengths_of_renderShape? hspec.1
  rw [AbstractValue.instantiate, hlengths, hspec.2, List.map_map]
  exact congrArg (AbstractValue.known · _) (List.map_congr_left fun d _ => d.length_rendered.symm)

theorem InputSpec.type_info_instantiate (spec : InputSpec) :
    (spec.instantiate lengths).info.type = spec.info.type.instantiate lengths := by
  have hshape : (spec.instantiate lengths).shape.map DimSpec.rendered =
      (spec.shape.map DimSpec.rendered).map fun d => .fixed (d.length lengths) := by
    rw [instantiate, List.map_map, List.map_map]
    exact List.map_congr_left fun d _ => congrArg ShapeDim.fixed d.length_rendered.symm
  rw [info, hshape]
  rfl

end

/-! ## Converted models -/

/-- Records of the same operands say the same types, with lengths in place of symbols. -/
theorem map_type_of_instantiated {lengths : String → Nat} {symbols table : SymbolTable}
    {atoms : List Atom} {records records' : List ValueRecord}
    (h : List.Forall₂ (fun a r => symbols.renderType? a.type = some r.type) atoms records)
    (h' : List.Forall₂ (fun a r => table.renderType? a.type = some r.type)
      (atoms.map (Atom.instantiate (symbols.lengths lengths))) records') :
    records'.map ValueRecord.type = records.map fun r => r.type.instantiate lengths := by
  induction h generalizing records' with
  | nil =>
    cases h'
    rfl
  | cons hr _ ih =>
    cases h' with
    | cons hr' hrest =>
      rw [Atom.type_instantiate, SymbolTable.renderType?_instantiate hr] at hr'
      rw [List.map_cons, List.map_cons, ih hrest, Option.some.inj hr']

section

variable {optimizer : Optimizer} {program : Program} {inputs : List InputSpec}
  {options : ConversionOptions} {m : Model} {entry : Callable} {settings : Params} {t : Trace}
  {counts : Counts}

/-- The inputs of converted arithmetic have the declared types, and its outputs those of the entry's
trace. -/
theorem types_of_convert (hfew : (InputSpec.occurrences inputs).eraseDups.length ≤ Nat.pow 2 32)
    (harith : ∀ c ∈ program, c.IsArithmetic) (hentry : program.getLast? = some entry)
    (hsettings : options.params = .ok settings)
    (htrace : entry.tracer settings (Program.tracers settings program.dropLast)
      (InputSpec.abstractAll inputs).2 .start = .ok (t, counts))
    (h : (convert .builtin optimizer program inputs options).result = .ok m) :
    m.graph.inputs.map ValueRecord.type = inputs.map (fun spec => spec.info.type) ∧
      List.Forall₂ (fun a r => (InputSpec.abstractAll inputs).1.renderType? a.type = some r.type)
      t.outputs
        m.graph.outputs := by
  obtain ⟨entry', settings', t', counts', lowered, hentry', hsettings', htrace', htranslates,
    rfl⟩ := translates_of_convert h
  cases hentry.symm.trans hentry'
  cases hsettings.symm.trans hsettings'
  cases htrace.symm.trans htrace'
  have hinputs :=
    htranslates.infos_inputs hfew (by rw [(Callable.tracer_spec htrace).1, map_type_freshVars])
  have ht := Callable.typed_tracer
    (Program.renders_tracers fun c hc => harith c ((List.dropLast_sublist program).subset hc))
    (harith entry (List.mem_of_getLast? hentry)) htrace
    (InputSpec.isSome_renderShape?_abstractAll inputs)
  rw [Model.graph_inputs_finished, Model.graph_outputs_finished]
  constructor
  · have htypes := congrArg (List.map Info.type) hinputs
    rwa [List.map_map, List.map_map] at htypes
  · have hrendered : ∀ a ∈ t.outputs,
      ((InputSpec.abstractAll inputs).1.renderShape? a.type).isSome :=
      fun a ha => (ht.outputs a ha).isSome_renderShape? ht.rendered
    refine ((List.forall₂_and_left _ _).2 ⟨hrendered, htranslates.says_outputs ht.outputs⟩).imp
      fun a r har => ?_
    exact (har.2 har.1).renderType?_eq

/-- An arithmetic entry is traced on known lengths as on symbols. -/
theorem tracer_instantiate (hfew : (InputSpec.occurrences inputs).eraseDups.length ≤ Nat.pow 2 32)
    (harith : ∀ c ∈ program, c.IsArithmetic) (hfixed : ∀ c ∈ program, c.IsFixed)
    (hentry : program.getLast? = some entry)
    (htrace : entry.tracer settings (Program.tracers settings program.dropLast)
      (InputSpec.abstractAll inputs).2 .start = .ok (t, counts)) (lengths : String → Nat) :
    entry.tracer settings (Program.tracers settings program.dropLast)
      (InputSpec.abstractAll (inputs.map (InputSpec.instantiate lengths))).2 .start =
        .ok (t.instantiate ((InputSpec.abstractAll inputs).1.lengths lengths), counts) := by
  have hbefore := (List.dropLast_sublist program).subset
  have hmem := List.mem_of_getLast? hentry
  rw [InputSpec.abstractAll_instantiate hfew]
  exact Callable.instantiable_tracer (Program.instantiable_tracers
    (fun c hc => harith c (hbefore hc)) fun c hc => hfixed c (hbefore hc))
    (harith entry hmem) (hfixed entry hmem) htrace

/-- Arithmetic that is converted with symbols is converted with all lengths in their place, to a
model whose inputs and outputs have the types of the first one with these lengths. Its callables
take the same steps on all types, and draw nothing. -/
theorem convert_instantiate (hfew : (InputSpec.occurrences inputs).eraseDups.length ≤ Nat.pow 2 32)
    (harith : ∀ c ∈ program, c.IsArithmetic) (hfixed : ∀ c ∈ program, c.IsFixed)
    (hdrawless : ∀ c ∈ program, ∀ types run, ∀ st ∈ c.body types run, st.isDraw = false)
    (h : (convert .builtin optimizer program inputs options).result = .ok m)
    (lengths : String → Nat) :
    ∃ m', (convert .builtin optimizer program (inputs.map (InputSpec.instantiate lengths))
      options).result = .ok m' ∧
      m'.graph.inputs.map ValueRecord.type =
        m.graph.inputs.map (fun r => r.type.instantiate lengths) ∧
      m'.graph.outputs.map ValueRecord.type =
        m.graph.outputs.map (fun r => r.type.instantiate lengths) := by
  obtain ⟨entry, settings, t, counts, -, hentry, hsettings, htrace, -⟩ := translates_of_convert h
  have htrace' := tracer_instantiate hfew harith hfixed hentry htrace lengths
  have hrepeat : program.Repeatable settings :=
    Program.repeatable_of_drawless (fun c hc => (hfixed c hc).isUniform) hdrawless
  obtain ⟨m', h'⟩ := exists_convert_of_tracer harith hsettings hrepeat hentry htrace' optimizer
  have hnone :
      (InputSpec.occurrences (inputs.map (InputSpec.instantiate lengths))).eraseDups.length ≤
      Nat.pow 2 32 := by
    rw [InputSpec.occurrences_instantiate]
    exact Nat.zero_le _
  obtain ⟨hinputs, houtputs⟩ := types_of_convert hfew harith hentry hsettings htrace h
  obtain ⟨hinputs', houtputs'⟩ := types_of_convert hnone harith hentry hsettings htrace' h'
  refine ⟨m', h', ?_, ?_⟩
  · calc m'.graph.inputs.map ValueRecord.type
      _ = inputs.map fun spec => spec.info.type.instantiate lengths := by
        rw [hinputs', List.map_map]
        exact List.map_congr_left fun spec _ => spec.type_info_instantiate
      _ = (m.graph.inputs.map ValueRecord.type).map (ValueType.instantiate lengths) := by
        rw [hinputs, List.map_map]; rfl
      _ = m.graph.inputs.map fun r => r.type.instantiate lengths := by rw [List.map_map]; rfl
  · exact map_type_of_instantiated houtputs houtputs'

end

namespace Example

/-- Twice each of two arguments. -/
def doubles : Callable :=
  .fixed "doubles" none [.call 0 [.value 0], .call 0 [.value 1]] [.value 2, .value 3]

end Example

/-- Calls on different symbols are converted with one length in place of both, where they are calls
on the same types. -/
theorem convert_instantiate_doubles : ∃ m m',
    (convert .builtin .deadNodeElimination [Example.double, Example.doubles]
      [⟨[.symbol "n"], .f32⟩, ⟨[.symbol "k"], .f32⟩] .default).result = .ok m ∧
    (convert .builtin .deadNodeElimination [Example.double, Example.doubles]
      [⟨[.fixed 3], .f32⟩, ⟨[.fixed 3], .f32⟩] .default).result = .ok m' ∧
    m'.graph.inputs.map ValueRecord.type =
      m.graph.inputs.map (fun r => r.type.instantiate fun _ => 3) ∧
    m'.graph.outputs.map ValueRecord.type =
      m.graph.outputs.map (fun r => r.type.instantiate fun _ => 3) := by
  have harith : ∀ c ∈ [Example.double, Example.doubles], c.IsArithmetic := by
    simp [Example.double, Example.doubles, Statement.isArithmetic, operation?]
  have hfixed : ∀ c ∈ [Example.double, Example.doubles], c.IsFixed := by
    simp [Example.double, Example.doubles, Callable.isFixed_fixed]
  have hdrawless : ∀ c ∈ [Example.double, Example.doubles], ∀ types run, ∀ st ∈ c.body types run,
      st.isDraw = false := by
    simp [Example.double, Example.doubles, Callable.fixed, Statement.isDraw]
  have hsettings : ConversionOptions.default.params = .ok [] := rfl
  obtain ⟨⟨t, counts⟩, htrace⟩ := exists_ok_of_isOk (show (Example.doubles.tracer []
    (Program.tracers [] [Example.double])
    (InputSpec.abstractAll [⟨[.symbol "n"], .f32⟩, ⟨[.symbol "k"], .f32⟩]).2 .start).isOk = true by
      decide +kernel)
  have hrepeat : Program.Repeatable [] [Example.double, Example.doubles] :=
    Program.repeatable_of_drawless (fun c hc => (hfixed c hc).isUniform) hdrawless
  obtain ⟨m, h⟩ := exists_convert_of_tracer harith hsettings hrepeat rfl htrace
    .deadNodeElimination
  obtain ⟨m', h', htypes⟩ := convert_instantiate (by decide) harith hfixed hdrawless h fun _ => 3
  exact ⟨m, m', h, h', htypes⟩

end TensorGraph
