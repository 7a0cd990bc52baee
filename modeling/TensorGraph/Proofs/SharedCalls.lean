import TensorGraph.Proofs.AlikeLevels
import TensorGraph.Proofs.ReachedLevels

/-!
# Calls that share a function

Every call of a callable is traced on its own, so its constants may hold other values than those of
another call, and it passes its own constants. Let the traces of the callable on given types differ
in these values only. Then two calls on the same argument types share one function exactly if the
calls inside do, at the same places, and the constants that are read have names in the same order.
If the same holds of the callables that are called inside, then the levels that the two calls open
must be alike throughout (`opType_eq_iff_of_convert`).

A constant whose value is known already keeps the name it got then, so the order is not always that
of the trace.
-/

namespace TensorGraph

namespace OpenLevel

section

variable (env : Environment) (settings : Params)

/-- Two levels read constants in the same order, and so do the levels that they open at the same
places. -/
inductive Alike : OpenLevel → OpenLevel → Prop where
  | intro {l l' : OpenLevel} {s s' : Lowering} (lowered : l.lower env settings l.state = .ok () s)
      (lowered' : l'.lower env settings l'.state = .ok () s')
      (order : OrderedAlike (s.draft.level.constantReads s.draft.initializers)
        (s'.draft.level.constantReads s'.draft.initializers))
      (calls : ∀ i inner inner', l.Opens env settings i inner → l'.Opens env settings i inner' →
        Alike inner inner') : Alike l l'

end

section

variable {program : Program} {settings : Params} {env : Environment} {l l' inner inner' : OpenLevel}
  {i j index : Nat} {e e' : Equation} {s s' r r' : Lowering} {n n' : Node} {σ : Shared}

theorem alike_iff (hs : l.lower env settings l.state = .ok () s)
    (hs' : l'.lower env settings l'.state = .ok () s') :
    l.Alike env settings l' ↔
      OrderedAlike (s.draft.level.constantReads s.draft.initializers)
        (s'.draft.level.constantReads s'.draft.initializers) ∧
      ∀ i inner inner', l.Opens env settings i inner → l'.Opens env settings i inner' →
        inner.Alike env settings inner' := by
  constructor
  · rintro ⟨lowered, lowered', order, calls⟩
    obtain ⟨-, rfl⟩ := EStateM.Result.ok.inj (lowered.symm.trans hs)
    obtain ⟨-, rfl⟩ := EStateM.Result.ok.inj (lowered'.symm.trans hs')
    exact ⟨order, calls⟩
  · rintro ⟨order, calls⟩
    exact .intro hs hs' order calls

/-! ## Levels of two calls -/

section

variable (henv : env.handler? = Registry.builtin.handler?)
  (hσ : σ.Sound program settings env.symbols) (h : l.Ready program settings env.symbols)
  (h' : l'.Ready program settings env.symbols)

include henv hσ h h'

omit henv in
/-- The traces of two calls of one callable on the same types correspond. -/
theorem Called.corresponds (hn : l.Called env settings i s n inner r)
    (hn' : l'.Called env settings j s' n' inner' r') (he : l.trace.equations[i]? = some e)
    (he' : l'.trace.equations[j]? = some e') (hcallee : e.callee? = some index)
    (hcallee' : e'.callee? = some index)
    (htypes : e.inputs.map Atom.type = e'.inputs.map Atom.type)
    (hsteady : program.SteadyAt settings index) :
    inner.trace.Corresponds σ.table σ.table.SameType inner'.trace := by
  obtain ⟨c, counts, _, hc, htrace⟩ := h.traced hn.opens he hcallee
  obtain ⟨c', other, _, hc', htrace'⟩ := h'.traced hn'.opens he' hcallee'
  obtain rfl := Option.some.inj (hc.symm.trans hc')
  rw [← htypes] at htrace'
  have halike := hsteady _ (Program.getElem?_tracers hc) htrace htrace'
  exact halike.corresponds (Callable.constantVars_eq_of_alike htrace htrace' halike) hσ.table_nodup
    (Callable.type_constant_tracer htrace) (Callable.type_constant_tracer htrace')

/-- Two calls are of one function exactly if calls at the same places inside are, and the constants
that are read inside are in the same order. -/
theorem Called.opType_eq_iff (hn : l.Called env settings i s n inner r)
    (hn' : l'.Called env settings j s' n' inner' r') (hle : s.draft.shared.Le σ)
    (hle' : s'.draft.shared.Le σ)
    (htrace : inner.trace.Corresponds σ.table σ.table.SameType inner'.trace) :
    n.opType = n'.opType ↔
      (∀ (k : Nat) e index, inner.trace.equations[k]? = some e → e.callee? = some index →
        r.draft.level.nodes[k]?.map Node.opType = r'.draft.level.nodes[k]?.map Node.opType) ∧
      OrderedAlike (r.draft.level.constantReads r.draft.initializers)
        (r'.draft.level.constantReads r'.draft.initializers) := by
  have hr := hn.grows.trans hle
  have hr' := hn'.grows.trans hle'
  obtain ⟨hsound, _, _, _, _, htranslates⟩ := (h.of_opens henv hn.opens).translates henv hn.inside
  obtain ⟨hsound', _, _, _, _, htranslates'⟩ :=
    (h'.of_opens henv hn'.opens).translates henv hn'.inside
  obtain ⟨name, f, hf, hmem⟩ := hn.function
  obtain ⟨name', f', hf', hmem'⟩ := hn'.function
  -- What both levels are made of stays the same in the end, where they can be compared.
  have hreads := htranslates.constantReads_mono Implements.captureFrom hr
  have hreads' := htranslates'.constantReads_mono Implements.captureFrom hr'
  have hcaptured := htranslates.referencedInitializers_mono Implements.captureFrom hr
  have hcaptured' := htranslates'.referencedInitializers_mono Implements.captureFrom hr'
  have hfunction := Level.toFunction_mono hr hf
  have hfunction' := Level.toFunction_mono hr' hf'
  rw [← show r.draft.shared.table = r.draft.initializers from rfl, ← hcaptured] at hfunction
  rw [← show r'.draft.shared.table = r'.draft.initializers from rfl, ← hcaptured'] at hfunction'
  rw [hσ.eq_iff_sameBody (hle.functions.subset hmem) (hle'.functions.subset hmem'),
    (htranslates.mono hr hsound.table_used fun _ _ _ h => h.mono hr hsound.table_used).sameBody_iff
      (htranslates'.mono hr' hsound'.table_used fun _ _ _ h => h.mono hr' hsound'.table_used) hσ
      htrace hfunction hfunction',
    hreads, hreads']
  rfl

/-- Two calls of one callable on the same types are of one function exactly if the levels that they
open are alike. -/
theorem Called.opType_eq_iff_alike (hn : l.Called env settings i s n inner r)
    (hn' : l'.Called env settings j s' n' inner' r') (hle : s.draft.shared.Le σ)
    (hle' : s'.draft.shared.Le σ) (he : l.trace.equations[i]? = some e)
    (he' : l'.trace.equations[j]? = some e') (hcallee : e.callee? = some index)
    (hcallee' : e'.callee? = some index)
    (htypes : e.inputs.map Atom.type = e'.inputs.map Atom.type)
    (hsteady : ∀ k ≤ index, program.SteadyAt settings k) :
    n.opType = n'.opType ↔ inner.Alike env settings inner' := by
  induction hlength : inner.program.length using Nat.strongRecOn
    generalizing l l' i j s s' n n' inner inner' r r' e e' index with
  | ind length ih =>
    have hready := h.of_opens henv hn.opens
    have hready' := h'.of_opens henv hn'.opens
    have htrace := hn.corresponds hσ h h' hn' he he' hcallee hcallee' htypes
      (hsteady index (Nat.le_refl _))
    -- Calls at the same place inside are of one function exactly if the levels that they open are
    -- alike.
    have hinside : ∀ (k : Nat) e₁ index₁, inner.trace.equations[k]? = some e₁ →
        e₁.callee? = some index₁ →
        ∃ n₁ n₁' a a', r.draft.level.nodes[k]? = some n₁ ∧ r'.draft.level.nodes[k]? = some n₁' ∧
          inner.Opens env settings k a ∧ inner'.Opens env settings k a' ∧
          (n₁.opType = n₁'.opType ↔ a.Alike env settings a') := by
      intro k e₁ index₁ he₁ hcallee₁
      have he₁' := htrace.equations ▸ he₁
      obtain ⟨n₁, a, r₁, hn₁⟩ := hready.exists_called henv hn.inside he₁ hcallee₁
      obtain ⟨n₁', a', r₁', hn₁'⟩ := hready'.exists_called henv hn'.inside he₁' hcallee₁
      have hbefore : index₁ ≤ index :=
        Nat.le_of_lt (hn.opens.callee_lt he hcallee hn₁.opens he₁ hcallee₁)
      exact ⟨n₁, n₁', a, a', hn₁.node, hn₁'.node, hn₁.opens, hn₁'.opens,
        ih _ (hlength ▸ hn₁.opens.length_lt) hready hready' hn₁ hn₁' (hn.grows.trans hle)
          (hn'.grows.trans hle') he₁ he₁' hcallee₁ hcallee₁ rfl
          (fun k hk => hsteady k (hk.trans hbefore)) rfl⟩
    rw [hn.opType_eq_iff henv hσ h h' hn' hle hle' htrace, alike_iff hn.inside hn'.inside, and_comm]
    refine and_congr_right fun _ =>
      ⟨fun hops k b b' hb hb' => ?_, fun halike k e₁ index₁ he₁ hcallee₁ => ?_⟩
    · obtain ⟨e₁, index₁, he₁, hcallee₁⟩ := hb.exists_callee
      obtain ⟨n₁, n₁', a, a', hnode, hnode', ha, ha', hiff⟩ := hinside k e₁ index₁ he₁ hcallee₁
      have hop := hops k e₁ index₁ he₁ hcallee₁
      rw [hnode, hnode', Option.map_some, Option.map_some, Option.some.injEq] at hop
      rw [hb.unique ha, hb'.unique ha']
      exact hiff.1 hop
    · obtain ⟨n₁, n₁', a, a', hnode, hnode', ha, ha', hiff⟩ := hinside k e₁ index₁ he₁ hcallee₁
      rw [hnode, hnode', Option.map_some, Option.map_some, hiff.2 (halike k a a' ha ha')]

end

end

end OpenLevel

/-! ## Conversions -/

/-- In a conversion that succeeds, calls of one callable on the same argument types, at one level or
at two, become nodes that pass their own constants. Where the traces of the callable on given types
differ in what constants hold only, the nodes have the same operation exactly if the calls at the
same places inside have the same operations, and the constants that are read inside are in the same
order. Where this holds of the callables before it too, they do exactly if the levels that they open
are alike. -/
theorem opType_eq_iff_of_convert {optimizer : Optimizer} {program : Program}
    {inputs : List InputSpec} {options : ConversionOptions} {m : Model}
    (h : (convert .builtin optimizer program inputs options).result = .ok m) :
    let env : Environment := ⟨Registry.builtin.handler?, (InputSpec.abstractAll inputs).1⟩
    ∃ entry settings t counts log s, ∃ lowered : Model, program.getLast? = some entry ∧
      options.params = .ok settings ∧
      entry.tracer settings (Program.tracers settings program.dropLast)
        (InputSpec.abstractAll inputs).2 .start = .ok (t, counts) ∧
      (OpenLevel.entry program.dropLast t options.modelName counts log).lower env settings
        (OpenLevel.entry program.dropLast t options.modelName counts log).state = .ok () s ∧
      lowered.Finishes s.draft.level s.draft.shared ∧ m = lowered.finished optimizer options ∧
      ∀ l l' (i j : Nat) e e' index,
        (OpenLevel.entry program.dropLast t options.modelName counts log).Reaches env settings l →
        (OpenLevel.entry program.dropLast t options.modelName counts log).Reaches env settings l' →
        l.trace.equations[i]? = some e → l'.trace.equations[j]? = some e' →
        e.callee? = some index → e'.callee? = some index →
        e.inputs.map Atom.type = e'.inputs.map Atom.type →
        Program.SteadyAt settings program.dropLast index →
        ∃ s n inner r s' n' inner' r', l.Called env settings i s n inner r ∧
          l'.Called env settings j s' n' inner' r' ∧
          (n.opType = n'.opType ↔
            (∀ (k : Nat) e index, inner.trace.equations[k]? = some e → e.callee? = some index →
              r.draft.level.nodes[k]?.map Node.opType = r'.draft.level.nodes[k]?.map Node.opType) ∧
            OrderedAlike (r.draft.level.constantReads r.draft.initializers)
              (r'.draft.level.constantReads r'.draft.initializers)) ∧
          ((∀ k < index, Program.SteadyAt settings program.dropLast k) →
            (n.opType = n'.opType ↔ inner.Alike env settings inner')) := by
  intro env
  obtain ⟨entry, settings, t, counts, log, s, lowered, hentry, hsettings, htrace, hs, hfinishes,
    hm⟩ :=
    exists_lower_of_convert h
  have hready := OpenLevel.ready_entry htrace env.symbols options.modelName log
  obtain ⟨hsound, -⟩ := hready.translates rfl hs
  refine ⟨entry, settings, t, counts, log, s, lowered, hentry, hsettings, htrace, hs, hfinishes,
    hm, ?_⟩
  intro l l' i j e e' index hl hl' he he' hcallee hcallee' htypes hsteady
  obtain ⟨hready₁, s₁, hs₁, hle₁⟩ := hl.lowered rfl hready hs
  obtain ⟨hready₂, s₂, hs₂, hle₂⟩ := hl'.lowered rfl hready hs
  obtain ⟨n, inner, r, hn⟩ := hready₁.exists_called rfl hs₁ he hcallee
  obtain ⟨n', inner', r', hn'⟩ := hready₂.exists_called rfl hs₂ he' hcallee'
  refine ⟨s₁, n, inner, r, s₂, n', inner', r', hn, hn', ?_, fun hbefore => ?_⟩
  · exact hn.opType_eq_iff rfl hsound hready₁ hready₂ hn' hle₁ hle₂
      (hn.corresponds hsound hready₁ hready₂ hn' he he' hcallee hcallee' htypes hsteady)
  · refine hn.opType_eq_iff_alike rfl hsound hready₁ hready₂ hn' hle₁ hle₂ he he' hcallee hcallee'
      htypes fun k hk => ?_
    rcases Nat.lt_or_eq_of_le hk with hk | rfl
    · exact hbefore k hk
    · exact hsteady

namespace Example

/-- The bytes of a weight, which are new each time one is drawn. -/
def weight (drawn : Nat) : List UInt8 :=
  [0, 0, .ofNat drawn, 64]

/-- Multiplies its argument by a weight and adds another one. Both weights are new in every
trace. -/
def affine : Callable :=
  .fixed "affine" none [.draw .f32 [1] weight, .draw .f32 [1] weight,
    .elementwise "mul" (.value 0) (.value 1), .elementwise "add" (.value 3) (.value 2)] [.value 4]

/-- Calls the affine callable three times. It holds a tensor that is also the second weight of the
second call. -/
def layers : Callable :=
  .fixed "layers" none [.constant ⟨.f32, [1], weight 9⟩, .call 0 [.value 0], .call 0 [.value 2],
    .call 0 [.value 3]] [.value 4]

/-- What is recorded for the call of the affine callable on variable `input`. -/
def layer (input output : Nat) : Equation :=
  ⟨callPrimitive, [.var ⟨input, .known [1] .f32⟩], [⟨output, .known [1] .f32⟩],
    [(callableKey, .callable 0), ("name", .str "affine")]⟩

def layersTrace : Trace :=
  ⟨[⟨0, .known [1] .f32⟩], [(⟨1, .known [1] .f32⟩, ⟨.f32, [1], weight 9⟩)],
    [layer 0 2, layer 2 3, layer 3 4], [.var ⟨4, .known [1] .f32⟩]⟩

theorem tracer_layers : layers.tracer [] (Program.tracers [] [affine])
    (InputSpec.abstractAll [⟨[.fixed 1], .f32⟩]).2 .start = .ok (layersTrace, ⟨4, 6⟩) :=
  eq_ok_of_toOption (by decide +kernel)

theorem steadyAt_affine : Program.SteadyAt [] [affine] 0 := by
  have huniform : ∀ c ∈ [affine], c.IsUniform := by simp [affine, Callable.isUniform_fixed]
  exact fun k hk => Program.steady_tracers [] huniform k (List.mem_of_getElem? hk)

/-- The second call finds its second weight under the name of the outer constant, which comes before
the name of its first weight. -/
theorem exists_convert_layers :
    ∃ m, (convert .builtin .noop [affine, layers] [⟨[.fixed 1], .f32⟩] .default).result = .ok m ∧
      m.graph.nodes.map (fun n => (n.opType, n.inputs)) =
        [("affine_fn", ["var_0", "const_1", "const_2"]),
          ("affine_fn_2", ["var_4", "const_0", "const_3"]),
          ("affine_fn", ["var_8", "const_4", "const_5"])] := by
  have heval :
      (convert .builtin .noop [affine, layers] [⟨[.fixed 1], .f32⟩] .default).result.toOption.map
        (fun m => m.graph.nodes.map fun n => (n.opType, n.inputs)) =
          some [("affine_fn", ["var_0", "const_1", "const_2"]),
            ("affine_fn_2", ["var_4", "const_0", "const_3"]),
            ("affine_fn", ["var_8", "const_4", "const_5"])] := by
    -- The kernel evaluates a sort by insertion, but no merging.
    unfold convert lowerProgram callLowerings lowerCall
    simp only [Level.toFunction, referencedInitializers_eq_insertionSort,
      mergeSort_eq_insertionSort_records]
    decide +kernel
  obtain ⟨m, hm, hnodes⟩ := Option.map_eq_some_iff.1 heval
  exact ⟨m, eq_ok_of_toOption hm, hnodes⟩

end Example

/-- Of three calls of one callable at one level, the first and the third are of one function and the
second is of another one : the levels of the first two are not alike. -/
theorem opType_eq_iff_of_convert_layers :
    let env : Environment :=
      ⟨Registry.builtin.handler?, (InputSpec.abstractAll [⟨[.fixed 1], .f32⟩]).1⟩
    ∃ m log first second third,
      (convert .builtin .noop [Example.affine, Example.layers] [⟨[.fixed 1], .f32⟩]
        .default).result = .ok m ∧
      m.graph.nodes.map (fun n => (n.opType, n.inputs)) =
        [("affine_fn", ["var_0", "const_1", "const_2"]),
          ("affine_fn_2", ["var_4", "const_0", "const_3"]),
          ("affine_fn", ["var_8", "const_4", "const_5"])] ∧
      (OpenLevel.entry [Example.affine] Example.layersTrace "model" ⟨4, 6⟩ log).Opens
        env [] 0 first ∧
      (OpenLevel.entry [Example.affine] Example.layersTrace "model" ⟨4, 6⟩ log).Opens
        env [] 1 second ∧
      (OpenLevel.entry [Example.affine] Example.layersTrace "model" ⟨4, 6⟩ log).Opens
        env [] 2 third ∧
      ¬ first.Alike env [] second ∧ first.Alike env [] third := by
  intro env
  obtain ⟨m, h, hnodes⟩ := Example.exists_convert_layers
  obtain ⟨entry, settings, t, counts, log, s, lowered, hentry, hsettings, htrace, hs, hfinishes,
    rfl, hcalls⟩ :=
    opType_eq_iff_of_convert h
  cases hentry
  obtain rfl : [] = settings := Except.ok.inj hsettings
  cases Example.tracer_layers.symm.trans htrace
  have hmade : ∀ {i s' n inner r},
      OpenLevel.Called env [] (.entry [Example.affine] Example.layersTrace "model" ⟨4, 6⟩ log) i s'
        n inner r → (lowered.graph.nodes.map Node.opType)[i]? = some n.opType := by
    intro i s' n inner r hn
    obtain ⟨-, rfl⟩ := EStateM.Result.ok.inj (hn.lowered.symm.trans hs)
    rw [hfinishes.nodes, List.getElem?_map, hn.node, Option.map_some]
  have hops : lowered.graph.nodes.map Node.opType = ["affine_fn", "affine_fn_2", "affine_fn"] := by
    have hfst := congrArg (List.map Prod.fst) hnodes
    rw [List.map_map] at hfst
    exact hfst
  rw [hops] at hmade
  obtain ⟨s₀, n₀, first, _, s₁, n₁, second, _, hfirst, hsecond, -, hother⟩ :=
    hcalls _ _ 0 1 _ _ 0 .refl .refl rfl rfl rfl rfl rfl Example.steadyAt_affine
  obtain ⟨s₂, n₂, first', _, s₃, n₃, third, _, hfirst', hthird, -, hsame⟩ :=
    hcalls _ _ 0 2 _ _ 0 .refl .refl rfl rfl rfl rfl rfl Example.steadyAt_affine
  obtain rfl := hfirst.opens.unique hfirst'.opens
  refine ⟨_, log, first, second, third, h, hnodes, hfirst.opens, hsecond.opens,
    hthird.opens, ?_, ?_⟩
  · refine mt (hother (by simp)).2 ?_
    rw [← Option.some.inj (hmade hfirst), ← Option.some.inj (hmade hsecond)]
    decide
  · refine (hsame (by simp)).1 ?_
    rw [← Option.some.inj (hmade hfirst'), ← Option.some.inj (hmade hthird)]

end TensorGraph
