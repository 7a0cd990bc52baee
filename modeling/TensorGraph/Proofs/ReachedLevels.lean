import Mathlib.Logic.Relation
import TensorGraph.Proofs.OpenLevels

/-!
# Levels that a conversion reaches

A conversion that succeeds lowers the level of its entry and, from there on, every level that one of
these opens (`OpenLevel.Reaches.lowered`). Each call of a lowered level became a node, which passes
its operands and the constants that the level inside reads (`OpenLevel.Ready.exists_called`).
-/

namespace TensorGraph

namespace OpenLevel

section

variable (env : Environment) (settings : Params)

/-- The levels that are opened inside a level, and the level itself. -/
def Reaches : OpenLevel → OpenLevel → Prop :=
  Relation.ReflTransGen fun l inner => ∃ i, l.Opens env settings i inner

/-- The level has the trace of a run of the callable, which can call what the level can. -/
def IsRunOf (c : Callable) (types : List AbstractValue) (run : Nat) (l : OpenLevel) : Prop :=
  ∃ counts counts', counts.runs = run ∧
    c.tracer settings (Program.tracers settings l.program) types counts = .ok (l.trace, counts')

/-- The call at position `i` of a lowered level became the node `n`. It passes its operands, and the
constants that are read by the level which it opens. These hold what was recorded for this call. The
body of this level is that of a function with the name that the node calls. -/
structure Called (l : OpenLevel) (i : Nat) (s : Lowering) (n : Node) (inner : OpenLevel)
    (r : Lowering) : Prop where
  lowered : l.lower env settings l.state = .ok () s
  node : s.draft.level.nodes[i]? = some n
  opens : l.Opens env settings i inner
  inside : inner.lower env settings inner.state = .ok () r
  passes : ∃ data, data.length = inner.trace.inputs.length ∧
    n.inputs = data ++ r.draft.level.referencedInitializers r.draft.initializers
  holds : ∀ c ∈ inner.trace.constants, ∃ x, r.draft.name? c.1.id = some x ∧
    r.draft.initializers.get? x = some c.2
  function : ∃ name f,
    r.draft.level.toFunction name (r.draft.level.referencedInitializers r.draft.initializers)
      r.draft.initializers = .ok f ∧ { f with name := n.opType } ∈ s.draft.shared.functions
  grows : r.draft.shared.Le s.draft.shared

end

section

variable {program : Program} {settings : Params} {env : Environment} {l inner : OpenLevel}
  {i index : Nat} {e : Equation} {s : Lowering}

/-- A level that is opened has the trace of the callee on the types of the operands. -/
theorem Opens.exists_isRunOf (h : l.Opens env settings i inner) :
    ∃ e index c run, l.trace.equations[i]? = some e ∧ e.callee? = some index ∧
      l.program[index]? = some c ∧ inner.program = l.program.take index ∧
      inner.IsRunOf settings c (e.inputs.map Atom.type) run := by
  cases h with
  | @call _ _ e index c _ _ t before equation callee known opens =>
    cases opens with
    | intro said issued operands traced count =>
      obtain ⟨-, counts', htrace⟩ := Lower.draft_trace traced
      rw [map_type_exampleArg] at htrace
      exact ⟨e, index, c, _, equation, callee, known, rfl, _, counts', rfl, htrace⟩

/-- A call inside is of a callable before the one that is called. -/
theorem Opens.callee_lt {inner' : OpenLevel} {i' index' : Nat} {e' : Equation}
    (h : l.Opens env settings i inner) (he : l.trace.equations[i]? = some e)
    (hcallee : e.callee? = some index) (h' : inner.Opens env settings i' inner')
    (he' : inner.trace.equations[i']? = some e') (hcallee' : e'.callee? = some index') :
    index' < index := by
  obtain ⟨_, _, _, _, he₁, hcallee₁, -, hinner, -⟩ := h.exists_isRunOf
  obtain rfl := Option.some.inj (he.symm.trans he₁)
  obtain rfl := Option.some.inj (hcallee.symm.trans hcallee₁)
  obtain ⟨_, _, _, _, he₂, hcallee₂, hknown, -⟩ := h'.exists_isRunOf
  obtain rfl := Option.some.inj (he'.symm.trans he₂)
  obtain rfl := Option.some.inj (hcallee'.symm.trans hcallee₂)
  rw [hinner] at hknown
  have := (List.getElem?_eq_some_iff.1 hknown).1
  rw [List.length_take] at this
  omega

/-- All levels that are reached have traces of callables of the program. -/
theorem Reaches.exists_isRunOf (h : l.Reaches env settings inner) (hprogram : l.program ⊆ program)
    (hl : ∃ c ∈ program, ∃ types run, l.IsRunOf settings c types run) :
    inner.program ⊆ program ∧ ∃ c ∈ program, ∃ types run, inner.IsRunOf settings c types run := by
  induction h with
  | refl => exact ⟨hprogram, hl⟩
  | tail _ hopens ih =>
    obtain ⟨i, hopens⟩ := hopens
    obtain ⟨_, index, c, run, -, -, hc, -, hrun⟩ := hopens.exists_isRunOf
    exact ⟨List.Subset.trans hopens.program_subset ih.1, c, ih.1 (List.mem_of_getElem? hc), _,
      run, hrun⟩

/-- An equation is lowered after those before it. -/
theorem exists_lowerEquation (he : l.trace.equations[i]? = some e)
    (hs : l.lowerUpTo env settings (i + 1) l.state = .ok () s) :
    ∃ r, l.lowerUpTo env settings i l.state = .ok () r ∧
      lowerEquation env (l.calls env settings) l.site e r = .ok () s := by
  simp only [lowerUpTo, Step.bind_eq_ok] at hs
  obtain ⟨_, s₁, hinputs, _, s₂, hconstants, hequations⟩ := hs
  rw [List.take_add_one, he, Option.toList_some, lowerEquations_append] at hequations
  obtain ⟨_, r, hbefore, hlast⟩ := Step.bind_eq_ok.1 hequations
  obtain ⟨_, _, hlower, hend⟩ := Step.bind_eq_ok.1 hlast
  obtain ⟨-, rfl⟩ := Step.pure_eq_ok.1 hend
  exact ⟨r, Step.bind_eq_ok.2 ⟨_, s₁, hinputs, Step.bind_eq_ok.2 ⟨_, s₂, hconstants, hbefore⟩⟩,
    Lower.locate_eq_ok.1 hlower⟩

namespace Ready

/-- The callee of a level that is opened is one of the program. -/
theorem traced (h : l.Ready program settings env.symbols) (hopens : l.Opens env settings i inner)
    (he : l.trace.equations[i]? = some e) (hcallee : e.callee? = some index) :
    ∃ c counts counts', program[index]? = some c ∧
      c.tracer settings (Program.tracers settings (program.take index)) (e.inputs.map Atom.type)
        counts = .ok (inner.trace, counts') := by
  obtain ⟨_, _, c, _, he', hcallee', hc, hinner, counts, counts', -, htrace⟩ :=
    hopens.exists_isRunOf
  obtain rfl := Option.some.inj (he.symm.trans he')
  obtain rfl := Option.some.inj (hcallee.symm.trans hcallee')
  obtain ⟨hprogram, htake⟩ := h.getElem?_program hc
  rw [hinner, htake] at htrace
  exact ⟨c, counts, counts', hprogram, htrace⟩

/-- The constants of a level's trace are in the table. -/
theorem exists_constant (h : l.Ready program settings env.symbols)
    (henv : env.handler? = Registry.builtin.handler?) (hs : l.lower env settings l.state = .ok () s)
    {c : Var × Tensor} (hc : c ∈ l.trace.constants) :
    ∃ x, s.draft.name? c.1.id = some x ∧ s.draft.initializers.get? x = some c.2 := by
  obtain ⟨hsound, _, _, _, _, htranslates⟩ := h.translates henv hs
  obtain ⟨x, hx, hname⟩ := htranslates.translation.constants c hc
  exact ⟨x, hname,
    InitializerTable.get?_of_mem hsound.table_nodup (InitializerTable.mem_of_find? hx)⟩

/-- Before an equation is lowered, its outputs have no names. -/
theorem unbound (h : l.Ready program settings env.symbols)
    (henv : env.handler? = Registry.builtin.handler?)
    (hs : l.lowerUpTo env settings i l.state = .ok () s) (he : l.trace.equations[i]? = some e) :
    (∀ v ∈ e.outputs, s.draft.name? v.id = none) ∧ (e.outputs.map Var.id).Nodup := by
  obtain ⟨hi, rfl⟩ := List.getElem?_eq_some_iff.1 he
  have hsplit : l.trace.equations = l.trace.equations.take i ++ l.trace.equations[i] ::
      l.trace.equations.drop (i + 1) := by
    rw [← List.drop_eq_getElem_cons hi, List.take_append_drop]
  have hids : (Trace.given ⟨l.trace.inputs, l.trace.constants,
      l.trace.equations.take i ++ l.trace.equations[i] :: l.trace.equations.drop (i + 1), []⟩ ++
      madeBy (l.trace.equations.take i ++ l.trace.equations[i] :: l.trace.equations.drop
        (i + 1))).Nodup := by
    rw [← hsplit]
    exact h.ids
  obtain ⟨body, hlowered⟩ := h.lowered_upTo henv hs
  exact ⟨hlowered.name?_eq_none_of_equation hids, nodup_outputs_of_nodup_madeBy hids⟩

/-- As many nodes are built as equations are lowered. -/
theorem length_nodes (h : l.Ready program settings env.symbols)
    (henv : env.handler? = Registry.builtin.handler?)
    (hs : l.lowerUpTo env settings i l.state = .ok () s) (he : l.trace.equations[i]? = some e) :
    s.draft.level.nodes.length = i := by
  obtain ⟨body, hlowered⟩ := h.lowered_upTo henv hs
  have hi := (List.getElem?_eq_some_iff.1 he).1
  rw [hlowered.nodes, List.append_nil, ← hlowered.translation.emits.length_eq, List.length_take]
  omega

/-- Every call of a lowered level became a node. -/
theorem exists_called (h : l.Ready program settings env.symbols)
    (henv : env.handler? = Registry.builtin.handler?) (hs : l.lower env settings l.state = .ok () s)
    (he : l.trace.equations[i]? = some e) (hcallee : e.callee? = some index) :
    ∃ n inner r, l.Called env settings i s n inner r := by
  -- The equation is lowered in a state that the level only grows from.
  obtain ⟨s₂, hupTo, ⟨rest, hrest⟩, hle⟩ := h.exists_upTo henv hs (i + 1)
  obtain ⟨s₁, hbefore, hequation⟩ := exists_lowerEquation he hupTo
  obtain ⟨body, hs₁⟩ := h.lowered_upTo henv hbefore
  obtain ⟨hnames, hnodup⟩ := h.unbound henv hbefore he
  rcases lowerEquation_cases hequation with ⟨_, hnone, -⟩ |
    ⟨s', index', call, hcallee', hcall, hlower, hrecord⟩
  · simp [hcallee] at hnone
  obtain rfl := Option.some.inj (hcallee.symm.trans hcallee')
  have hindex : index < l.program.length := by
    rw [← length_callLowerings env settings]
    exact (List.getElem?_eq_some_iff.1 hcall).1
  obtain ⟨c, hc⟩ : ∃ c, l.program[index]? = some c := ⟨_, List.getElem?_eq_getElem hindex⟩
  obtain ⟨hprogram, htake⟩ := h.getElem?_program hc
  obtain rfl := Option.some.inj ((getElem?_calls hc).symm.trans hcall)
  rw [htake] at hlower
  obtain ⟨n, placed, hplaces, hcalls⟩ :=
    places_lowerCall henv rfl (callsImplement_callLowerings henv rfl index) hprogram hlower hcallee
      hs₁.sound hnames hnodup hs₁.info?_eq_none
  obtain ⟨⟨records, hs₂⟩, -⟩ := hplaces.recorded rfl hrecord
  cases hcalls with
  | @intro callName data t opened inner f opens lowered function grows registered inputs =>
    rw [← htake] at opens
    have hopens := Opens.call hbefore he hcallee hc opens
    have hinside :
        (OpenLevel.mk (l.path ++ [callName]) (l.program.take index) t
          (opened.nest (callName ++ "_graph"))).lower env settings
          (opened.nest (callName ++ "_graph")) = .ok () inner := by
      rw [lower, site_inside, calls, htake]
      exact lowered
    rw [hs₂, Draft.shared_withRecords] at hle
    refine ⟨n, _, inner, hs, ?_, hopens, hinside, ⟨data, ?_, inputs⟩, ?_,
      ⟨callName, f, function, ?_⟩, grows.trans hle⟩
    · rw [← hrest, hs₂, Draft.nodes_withRecords, hplaces.nodes, List.append_assoc,
        List.getElem?_append_right (Nat.le_of_eq (h.length_nodes henv hbefore he)),
        h.length_nodes henv hbefore he]
      simp
    · obtain ⟨-, -, -, hdata, counts, counts', htrace⟩ := opens.spec hs₁.sound.toTidy
      have hlength : e.inputs.length = data.length := by simpa using congrArg List.length hdata
      rw [← hlength, (Callable.tracer_spec htrace).1, length_freshVars, List.length_map]
    · exact fun c => (h.of_opens henv hopens).exists_constant henv hinside
    · exact hle.functions.subset registered

end Ready

/-- The levels that are opened inside a lowered level are lowered, and what is shared grows. -/
theorem Reaches.lowered (hreaches : l.Reaches env settings inner)
    (henv : env.handler? = Registry.builtin.handler?) (h : l.Ready program settings env.symbols)
    (hs : l.lower env settings l.state = .ok () s) :
    inner.Ready program settings env.symbols ∧
      ∃ r, inner.lower env settings inner.state = .ok () r ∧ r.draft.shared.Le s.draft.shared := by
  induction hreaches with
  | refl => exact ⟨h, s, hs, .refl _⟩
  | tail _ hopens ih =>
    obtain ⟨hready, r, hr, hle⟩ := ih
    obtain ⟨i, hopens⟩ := hopens
    obtain ⟨e, index, he, hcallee⟩ := hopens.exists_callee
    obtain ⟨n, _, r', hn⟩ := hready.exists_called henv hr he hcallee
    obtain rfl := hopens.unique hn.opens
    exact ⟨hready.of_opens henv hopens, r', hn.inside, hn.grows.trans hle⟩

end

end OpenLevel

/-! ## Conversions -/

/-- A conversion that succeeds has lowered the level of its entry, and has made the model of it. -/
theorem exists_lower_of_convert {optimizer : Optimizer} {program : Program}
    {inputs : List InputSpec} {options : ConversionOptions} {m : Model}
    (h : (convert .builtin optimizer program inputs options).result = .ok m) :
    let env : Environment := ⟨Registry.builtin.handler?, (InputSpec.abstractAll inputs).1⟩
    ∃ entry settings t counts log s, ∃ lowered : Model, program.getLast? = some entry ∧
      options.params = .ok settings ∧
      entry.tracer settings (Program.tracers settings program.dropLast)
        (InputSpec.abstractAll inputs).2 .start = .ok (t, counts) ∧
      (OpenLevel.entry program.dropLast t options.modelName counts log).lower env settings
        (OpenLevel.entry program.dropLast t options.modelName counts log).state = .ok () s ∧
      lowered.Finishes s.draft.level s.draft.shared ∧ m = lowered.finished optimizer options := by
  intro env
  obtain ⟨entry, settings, t, counts, -, hentry, hsettings, htrace, -, -⟩ := translates_of_convert h
  obtain ⟨entry', hentry', lowered, _, hlowered, hm⟩ := convert_eq_ok.1 h
  obtain rfl := Option.some.inj (hentry.symm.trans hentry')
  obtain ⟨log, hprogram⟩ := lowerProgram_eq .builtin hsettings htrace options.modelName
  rw [hprogram] at hlowered
  obtain ⟨_, s, hs, hfinish⟩ := Step.bind_eq_ok.1 hlowered
  have hready := OpenLevel.ready_entry htrace env.symbols options.modelName log
  obtain ⟨-, _, _, _, _, htranslates⟩ := hready.translates rfl hs
  exact ⟨entry, settings, t, counts, log, s, lowered, hentry, hsettings, htrace, hs,
    Lower.finishes_finish hfinish htranslates.nodup_inputs_outputs, hm⟩

end TensorGraph
