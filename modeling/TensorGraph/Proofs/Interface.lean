import TensorGraph.Proofs.HeldVariables
import TensorGraph.Proofs.SingleAssignment
import TensorGraph.Proofs.SymbolNames
import TensorGraph.Proofs.TypedRecords

/-!
# The interface of a model

A model that is converted has the inputs that were declared and the outputs that its entry returns,
in order (`interface_of_convert`). The records of inputs say the declared shapes, those of outputs
the types of the entry's results as far as these can be rendered, and no record names a symbol that
was not declared. Symbols have 32-bit numbers, so inputs are rendered as they were declared only if
these suffice.
-/

namespace TensorGraph

/-- What the record of a declared input says. -/
def InputSpec.info (spec : InputSpec) : Info :=
  ⟨spec.shape.map DimSpec.rendered, spec.dtype, .declared⟩

/-! ## Records of finished levels -/

section

variable {program : Program} {settings : Params} {symbols : SymbolTable} {targets : Targets}
  {σ : Shared} {names : Nat → Option String} {info : String → Option Info} {t : Trace} {l : Level}
  {body tail : List Node} {decls : List Declaration} {m : Model}

/-- Resolving outputs leaves the records of inputs as they are. -/
theorem Level.Translates.infos_inputs
    (h : l.Translates program symbols targets σ names info t body tail decls) :
    l.inputs.map l.info? = t.inputs.map fun v => (symbols.renderShape? v.type).map fun shape =>
      ⟨shape, v.type.dtype, .declared⟩ := by
  rw [h.translation.inputs_info]
  refine List.map_congr_left fun x hx => ?_
  have hmem : info x ∈ l.inputs.map info := List.mem_map_of_mem hx
  rw [← h.translation.inputs_info] at hmem
  obtain ⟨v, hv, hinfo⟩ := List.mem_map.1 hmem
  obtain ⟨shape, hshape⟩ := Option.isSome_iff_exists.1 (h.translation.inputs_rendered v hv)
  rw [hshape, Option.map_some] at hinfo
  rw [h.resolves.eq_of_some hinfo.symm, hinfo]

namespace Model.Finishes

theorem infos_inputs (h : m.Finishes l σ) :
    m.graph.inputs.map (some ∘ ValueRecord.info) = l.inputs.map l.info? := by
  have := congrArg (List.map (Option.map ValueRecord.info)) h.inputs
  rwa [List.map_map, List.map_map] at this

theorem infos_outputs (h : m.Finishes l σ) :
    m.graph.outputs.map (some ∘ ValueRecord.info) = l.outputs.map l.info? := by
  have := congrArg (List.map (Option.map ValueRecord.info)) h.outputs
  rwa [List.map_map, List.map_map] at this

end Model.Finishes

/-! ## Records of models -/

@[simp] theorem Model.graph_inputs_finished (optimizer : Optimizer) (options : ConversionOptions)
    (m : Model) :
    (m.finished optimizer options).graph.inputs = m.graph.inputs := by
  unfold finished
  cases options.optimize <;> cases optimizer <;> rfl

@[simp] theorem Model.graph_outputs_finished (optimizer : Optimizer) (options : ConversionOptions)
    (m : Model) :
    (m.finished optimizer options).graph.outputs = m.graph.outputs := by
  unfold finished
  cases options.optimize <;> cases optimizer <;> rfl

namespace Model.Translates

/-- The records of a model's inputs say the declared shapes. -/
theorem infos_inputs {inputs : List InputSpec}
    (hfew : (InputSpec.occurrences inputs).eraseDups.length ≤ Nat.pow 2 32)
    (h : m.Translates program settings (InputSpec.abstractAll inputs).1 t)
    (hinputs : t.inputs.map Var.type = (InputSpec.abstractAll inputs).2) :
    m.graph.inputs.map ValueRecord.info = inputs.map InputSpec.info := by
  obtain ⟨σ, l, names, info, body, tail, decls, -, htranslates, hfinishes⟩ := h
  have hrendered :
      (InputSpec.abstractAll inputs).2.map
        (fun type => ((InputSpec.abstractAll inputs).1.renderShape? type).map fun shape =>
          (⟨shape, type.dtype, .declared⟩ : Info)) = inputs.map (some ∘ InputSpec.info) := by
    rw [eq_comm, ← List.forall₂_eq_eq_eq, List.forall₂_map_left_iff, List.forall₂_map_right_iff]
    refine (InputSpec.renders_abstractAll hfew).imp fun spec type hspec => ?_
    rw [hspec.1, hspec.2]
    rfl
  have hinfos := hfinishes.infos_inputs.trans htranslates.infos_inputs
  rw [← hinputs, List.map_map] at hrendered
  refine List.map_injective_iff.2 (Option.some_injective Info) ?_
  rw [List.map_map, List.map_map, hinfos]
  exact hrendered

/-- The records of a model's outputs say the types of the trace's outputs, if these can be
rendered. -/
theorem says_outputs (h : m.Translates program settings symbols t)
    (houtputs : ∀ a ∈ t.outputs, a.IsOneOf t.vars) :
    List.Forall₂ (fun a r => (symbols.renderShape? a.type).isSome →
      r.info.Says symbols a.type) t.outputs
      m.graph.outputs := by
  obtain ⟨σ, l, names, info, body, tail, decls, -, htranslates, hfinishes⟩ := h
  have hinfos := htranslates.infos_of_rendered houtputs
  rw [← hfinishes.infos_outputs, List.forall₂_map_right_iff] at hinfos
  refine hinfos.imp fun a r hstated hrendered => ?_
  obtain ⟨j, hj, hstated⟩ := hstated hrendered
  exact Option.some.inj hj ▸ hstated

end Model.Translates

end

/-! ## Converted models -/

/-- A model has the declared inputs, as long as their symbols are at most `2 ^ 32`, and the outputs
of a trace, and it names declared symbols only. -/
structure Model.Presents (specs : List InputSpec) (t : Trace) (m : Model) : Prop where
  inputs : (InputSpec.occurrences specs).eraseDups.length ≤ Nat.pow 2 32 →
    m.graph.inputs.map ValueRecord.info = specs.map InputSpec.info
  outputs : List.Forall₂ (fun a r => ∀ shape,
    (InputSpec.abstractAll specs).1.renderShape? a.type = some shape →
      r.shape = shape ∧ r.dtype = a.type.dtype) t.outputs m.graph.outputs
  named : ∀ v ∈ m.allRecords, ∀ s, .named s ∈ v.shape → InputSpec.IsDeclared specs s

/-- A conversion that succeeds returns a model with the declared inputs and the outputs of the
entry's trace, as long as the entry holds no variable that was made elsewhere. -/
theorem interface_of_convert {optimizer : Optimizer} {program : Program} {inputs : List InputSpec}
    {options : ConversionOptions} {m : Model}
    (hown : ∀ entry, program.getLast? = some entry →
      entry.foreignVars (InputSpec.abstractAll inputs).2 0 = [])
    (h : (convert .builtin optimizer program inputs options).result = .ok m) :
    ∃ entry settings t counts, program.getLast? = some entry ∧ options.params = .ok settings ∧
      entry.tracer settings (Program.tracers settings program.dropLast)
        (InputSpec.abstractAll inputs).2 .start = .ok (t, counts) ∧
      m.Presents inputs t := by
  obtain ⟨entry, settings, t, counts, lowered, hentry, hsettings, htrace, htranslates, hm⟩ :=
    translates_of_convert h
  have hinputs : t.inputs.map Var.type = (InputSpec.abstractAll inputs).2 := by
    rw [(Callable.tracer_spec htrace).1, map_type_freshVars]
  have houtputs : ∀ a ∈ t.outputs, a.IsOneOf t.vars := by
    have hheld := (Callable.usesHeld_tracer htrace).outputs
    have hforeign : entry.foreignVars (InputSpec.abstractAll inputs).2 Counts.start.runs = [] :=
      hown entry hentry
    rwa [hforeign, List.append_nil] at hheld
  refine ⟨entry, settings, t, counts, hentry, hsettings, htrace, ?_, ?_,
    fun v hv s => isDeclared_of_convert h hv⟩
  · intro hfew
    rw [hm, Model.graph_inputs_finished]
    exact htranslates.infos_inputs hfew hinputs
  · rw [hm, Model.graph_outputs_finished]
    refine (htranslates.says_outputs houtputs).imp fun a r hstated shape hshape => ?_
    obtain ⟨hrendered, hdtype⟩ := hstated (by simp [hshape])
    exact ⟨Option.some.inj (hrendered.symm.trans hshape), hdtype⟩

/-- An entry that binds given types has its interface, also where a callable that it calls holds a
foreign variable. -/
theorem interface_of_convert_repeated : ∃ m t counts,
    (convert .builtin .deadNodeElimination [Example.shifted, Example.repeated] Example.inputs
      .default).result = .ok m ∧
    Example.repeated.tracer [] (Program.tracers [] [Example.shifted])
      (InputSpec.abstractAll Example.inputs).2 .start = .ok (t, counts) ∧
    m.Presents Example.inputs t := by
  have hok : (convert .builtin .deadNodeElimination [Example.shifted, Example.repeated]
      Example.inputs .default).result.isOk = true := by decide +kernel
  obtain ⟨m, h⟩ := exists_ok_of_isOk hok
  obtain ⟨entry, settings, t, counts, hentry, hsettings, htrace, hpresents⟩ :=
    interface_of_convert (by simp [Example.repeated, Callable.fixed, Callable.foreignVars,
      Statement.foreign?]) h
  cases hentry
  cases hsettings
  exact ⟨m, t, counts, h, htrace, hpresents⟩

end TensorGraph
