import TensorGraph.Proofs.RelabeledLowering
import TensorGraph.Proofs.SingleAssignment
import TensorGraph.Proofs.UniqueFunctions

/-!
# Names of symbols are only labels

A conversion does not look at what the symbols of its inputs are called. Renamed symbols lead to the
same model with renamed symbols, or to a failure of the same kind at the same site, as long as
different symbols keep different names (`convert_relabel`). In particular a model does not change
when a name is exchanged for another one and neither was declared, so all names in its records are
declared ones (`isDeclared_of_convert`).
-/

namespace TensorGraph

open Step

/-! ## Conversions with renamed symbols -/

/-- Two conversions return one model up to the names of symbols, or they fail alike. -/
inductive RelabelsResult (r : String → String) :
    Except Failure Model → Except Failure Model → Prop where
  | ok (m : Model) : RelabelsResult r (.ok m) (.ok (m.relabel r))
  | error {e e' : Failure} (alike : e.Alike e') : RelabelsResult r (.error e) (.error e')

section

variable {r : String → String}

theorem RelabelsResult.eq_of_ok {m : Model} {result : Except Failure Model}
    (h : RelabelsResult r (.ok m) result) :
    result = .ok (m.relabel r) := by
  cases h
  rfl

theorem alike_lowerProgram (hr : Function.Injective r) (program : Program) (entry : Callable)
    (inputs : List InputSpec) (options : ConversionOptions) :
    Lower.Alike r (fun m m' => m' = m.relabel r)
      (lowerProgram .builtin program entry inputs options)
      (lowerProgram .builtin program entry (inputs.map (InputSpec.relabel r)) options) := by
  rw [lowerProgram, lowerProgram, InputSpec.abstractAll_relabel hr]
  generalize InputSpec.abstractAll inputs = declared
  obtain ⟨symbols, types⟩ := declared
  refine (Lower.alike_say _ _ _).bindEq fun _ =>
    (Lower.alike_build (Build.alike_ofExcept_self _)).bindEq fun settings => ?_
  have hempty : (symbols.relabel r).names.isEmpty = symbols.names.isEmpty := List.isEmpty_map
  let env : Environment := ⟨Registry.builtin.handler?, symbols⟩
  have henv : env.handler? = Registry.builtin.handler? := rfl
  have hcalls := alike_callLowerings hr henv settings program
  have hlower := fun t => (alike_lowerTrace hr henv hcalls .top t).bindEq fun _ =>
    (alike_resolveOutputs hr env .top).bindEq fun _ =>
    Lower.alike_build (Build.alike_finish options.modelName options.opset)
  have hsteps :=
    (Lower.alike_say .info ("Tracing " ++ entry.name) ("Tracing " ++ entry.name)).bindEq fun _ =>
    (Lower.alike_trace entry.name (entry.tracer settings (program.tracers settings))
      (types.map .abstract)).bindEq fun t =>
    (Lower.alike_say .info ("Building graph (" ++ toString t.equations.length ++ " equations)")
      ("Building graph (" ++ toString t.equations.length ++ " equations)")).bindEq fun _ => hlower t
  simp only [hempty]
  split
  · exact (Lower.alike_say _ _ _).bindEq fun _ => hsteps
  · exact hsteps

theorem relabelsResult_convert (hr : Function.Injective r) (optimizer : Optimizer)
    (program : Program) (inputs : List InputSpec) (options : ConversionOptions) :
    RelabelsResult r (convert .builtin optimizer program inputs options).result
      (convert .builtin optimizer program (inputs.map (InputSpec.relabel r)) options).result := by
  unfold convert
  cases program.getLast? with
  | none => exact .error (.refl _)
  | some entry =>
    have hstart : Lowering.Relabels r (.start options.modelName) (.start options.modelName) :=
      ⟨⟨rfl, rfl, rfl⟩, rfl, rfl, rfl⟩
    have hlowered := alike_lowerProgram hr program.dropLast entry inputs options _ _ hstart
    simp only [Bind.bind, EStateM.bind]
    generalize lowerProgram .builtin program.dropLast entry inputs options
      (.start options.modelName) = result at hlowered ⊢
    generalize lowerProgram .builtin program.dropLast entry (inputs.map (InputSpec.relabel r))
      options (.start options.modelName) = result' at hlowered ⊢
    cases hlowered with
    | error failure => exact .error failure
    | @ok m m' s s' value state =>
      subst value
      obtain ⟨t, ht⟩ := exists_finishModel optimizer options m s
      obtain ⟨t', ht'⟩ := exists_finishModel optimizer options (m.relabel r) s'
      simp only [ht, ht', Model.finished_relabel]
      exact .ok _

end

/-! ## Declared names -/

/-- All records of a model. -/
def Model.allRecords (m : Model) : List ValueRecord :=
  m.graph.inputs ++ m.graph.outputs ++ m.graph.records ++ m.functions.flatMap Function.records

theorem Model.allRecords_relabel (r : String → String) (m : Model) :
    (m.relabel r).allRecords = m.allRecords.map (ValueRecord.relabel r) := by
  simp only [allRecords, relabel, Graph.relabel, List.map_append, List.flatMap_map,
    List.map_flatMap]
  rfl

/-- Specs are the same where their names stay. -/
theorem InputSpec.map_relabel_congr {r r' : String → String} {specs : List InputSpec}
    (h : ∀ s, IsDeclared specs s → r s = r' s) :
    specs.map (relabel r) = specs.map (relabel r') := by
  refine List.map_congr_left fun spec hspec => ?_
  rw [relabel, relabel, List.map_congr_left fun d hd => ?_]
  cases d with
  | fixed n => rfl
  | symbol s => rw [DimSpec.relabel, DimSpec.relabel, h s ⟨spec, hspec, hd⟩]

theorem InputSpec.map_relabel_id (specs : List InputSpec) : specs.map (relabel id) = specs := by
  have hentry : ∀ d : DimSpec, d.relabel id = d := fun d => by cases d <;> rfl
  refine (List.map_congr_left fun spec _ => ?_).trans specs.map_id
  rw [relabel, List.map_congr_left (fun d _ => hentry d), List.map_id']
  rfl

section

variable {optimizer : Optimizer} {program : Program} {inputs : List InputSpec}
  {options : ConversionOptions} {m : Model}

/-- The names of dimensions in the records of a model are symbols that were declared. -/
theorem isDeclared_of_convert
    (h : (convert .builtin optimizer program inputs options).result = .ok m) {v : ValueRecord}
    (hv : v ∈ m.allRecords) {s : String} (hs : .named s ∈ v.shape) :
    InputSpec.IsDeclared inputs s := by
  by_contra hundeclared
  -- Exchange the name with one that does not occur either : the specs stay, and so does the model.
  obtain ⟨other, hother⟩ := exists_not_mem (s :: (InputSpec.abstractAll inputs).1.names)
  rw [List.mem_cons, not_or, InputSpec.mem_names_abstractAll] at hother
  have hinputs : inputs.map (InputSpec.relabel (Equiv.swap s other)) = inputs := by
    refine (InputSpec.map_relabel_congr fun x hx => ?_).trans (InputSpec.map_relabel_id inputs)
    exact Equiv.swap_apply_of_ne_of_ne (fun hxs => hundeclared (hxs ▸ hx)) fun hxo =>
      hother.2 (hxo ▸ hx)
  have hresult :=
    relabelsResult_convert (Equiv.swap s other).injective optimizer program inputs options
  rw [hinputs, h] at hresult
  have hmodel : m = m.relabel (Equiv.swap s other) := Except.ok.inj hresult.eq_of_ok
  have hrecords : m.allRecords.map (ValueRecord.relabel (Equiv.swap s other)) =
      m.allRecords.map id := by
    rw [← Model.allRecords_relabel, ← hmodel, List.map_id]
  have hshape : v.shape.map (ShapeDim.relabel (Equiv.swap s other)) = v.shape.map id := by
    rw [List.map_id]
    exact congrArg ValueRecord.shape (List.map_inj_left.1 hrecords v hv)
  have hdim := List.map_inj_left.1 hshape (.named s) hs
  rw [ShapeDim.relabel, Equiv.swap_apply_left] at hdim
  exact hother.1 (ShapeDim.named.inj hdim)

/-! ## Names are labels -/

/-- Renaming a model is the same for two renamings that agree on the names of its records. -/
theorem Model.relabel_congr {r r' : String → String}
    (h : ∀ v ∈ m.allRecords, ∀ s, .named s ∈ v.shape → r s = r' s) :
    m.relabel r = m.relabel r' := by
  have hrecord : ∀ v ∈ m.allRecords, v.relabel r = v.relabel r' := fun v hv => by
    rw [ValueRecord.relabel, ValueRecord.relabel, List.map_congr_left fun d hd => ?_]
    cases d with
    | fixed n => rfl
    | named s => rw [ShapeDim.relabel, ShapeDim.relabel, h v hv s hd]
  have hrecords : ∀ {records : List ValueRecord}, records ⊆ m.allRecords →
      records.map (ValueRecord.relabel r) = records.map (ValueRecord.relabel r') := fun hsub =>
    List.map_congr_left fun v hv => hrecord v (hsub hv)
  have hfunctions : m.functions.map (Function.relabel r) = m.functions.map (Function.relabel r') :=
    List.map_congr_left fun f hf => by
      rw [Function.relabel, Function.relabel, hrecords fun v hv => ?_]
      exact List.mem_append_right _ (List.mem_flatMap.2 ⟨f, hf, hv⟩)
  rw [relabel, relabel, Graph.relabel, Graph.relabel, hfunctions, hrecords, hrecords, hrecords]
  all_goals
    intro v hv
    simp [allRecords, hv]

/-- A renaming that keeps the declared symbols apart is one that keeps all names apart, as far as
declared ones go. -/
theorem exists_injective_of_declared {r : String → String}
    (hr : ∀ s s', InputSpec.IsDeclared inputs s → InputSpec.IsDeclared inputs s' → r s = r s' →
      s = s') :
    ∃ ρ : String → String, Function.Injective ρ ∧ ∀ s, InputSpec.IsDeclared inputs s →
      ρ s = r s := by
  have hnodup : ((InputSpec.abstractAll inputs).1.names.map r).Nodup :=
    (List.nodup_map_iff_inj_on (InputSpec.nodup_names_abstractAll inputs)).2 fun s hs s' hs' =>
      hr s s' (InputSpec.mem_names_abstractAll.1 hs) (InputSpec.mem_names_abstractAll.1 hs')
  obtain ⟨ρ, hρ, -⟩ :=
    exists_perm_of_nodup (List.length_map r).symm (InputSpec.nodup_names_abstractAll inputs) hnodup
      (fun _ _ => List.not_mem_nil) fun _ _ => List.not_mem_nil
  exact ⟨ρ, ρ.injective,
    fun s hs => List.map_inj_left.1 hρ s (InputSpec.mem_names_abstractAll.2 hs)⟩

/-- A conversion does not look at the names of symbols : if different symbols are renamed to
different ones, it returns the same model with renamed symbols, or it fails with the same kind at
the same site. -/
theorem convert_relabel {r : String → String}
    (hr : ∀ s s', InputSpec.IsDeclared inputs s → InputSpec.IsDeclared inputs s' → r s = r s' →
      s = s') (optimizer : Optimizer) (program : Program) (options : ConversionOptions) :
    RelabelsResult r (convert .builtin optimizer program inputs options).result
      (convert .builtin optimizer program (inputs.map (InputSpec.relabel r)) options).result := by
  obtain ⟨ρ, hinjective, hagree⟩ := exists_injective_of_declared hr
  have hresult := relabelsResult_convert hinjective optimizer program inputs options
  rw [InputSpec.map_relabel_congr hagree] at hresult
  generalize hconvert : (convert .builtin optimizer program inputs options).result = result
    at hresult ⊢
  generalize (convert .builtin optimizer program (inputs.map (InputSpec.relabel r))
    options).result = result' at hresult ⊢
  cases hresult with
  | error alike => exact .error alike
  | ok m =>
    have hsame : m.relabel ρ = m.relabel r :=
      Model.relabel_congr fun v hv s hs => hagree s (isDeclared_of_convert hconvert hv hs)
    rw [hsame]
    exact .ok m

end

/-- Where two symbols are exchanged, a program that binds given types is converted to its model with
them exchanged. -/
theorem convert_relabel_swap : ∃ m,
    (convert .builtin .deadNodeElimination [Example.shifted, Example.repeated]
      [⟨[.symbol "n", .symbol "k"], .f32⟩] .default).result = .ok m ∧
    (convert .builtin .deadNodeElimination [Example.shifted, Example.repeated]
      [⟨[.symbol "k", .symbol "n"], .f32⟩] .default).result =
      .ok (m.relabel (Equiv.swap "n" "k")) := by
  obtain ⟨m, h⟩ :=
    exists_ok_of_isOk
      (show (convert .builtin .deadNodeElimination [Example.shifted, Example.repeated]
        [⟨[.symbol "n", .symbol "k"], .f32⟩] .default).result.isOk = true by decide +kernel)
  have hswap : ∀ s s', InputSpec.IsDeclared [⟨[.symbol "n", .symbol "k"], .f32⟩] s →
      InputSpec.IsDeclared [⟨[.symbol "n", .symbol "k"], .f32⟩] s' →
      Equiv.swap "n" "k" s = Equiv.swap "n" "k" s' → s = s' :=
        fun _ _ _ _ hs => (Equiv.swap "n" "k").injective hs
  have hresult :=
    convert_relabel hswap .deadNodeElimination [Example.shifted, Example.repeated] .default
  rw [h] at hresult
  exact ⟨m, h, by simpa [InputSpec.relabel, DimSpec.relabel] using hresult.eq_of_ok⟩

end TensorGraph
