import Mathlib.Data.List.Induction
import TensorGraph.Proofs.Lowered

/-!
# Lowering calls

A call is lowered by tracing its callee again and lowering that trace into a nested level. What the
nested level becomes implements the callee, whether a known function has its body or it is appended
as a new one (`places_lowerCall`). The lowerings of all calls of a program do this
(`callsImplement_callLowerings`), from the first callable to the last.
-/

namespace TensorGraph

/-! ## Arguments of callees -/

theorem AbstractValue.known_of_knownDims? {v : AbstractValue} {dims : List Nat}
    (h : v.knownDims? = some dims) :
    AbstractValue.known dims v.dtype = v := by
  obtain ⟨shape, dtype⟩ := v
  simp only [knownDims?] at h
  simp only [known, AbstractValue.mk.injEq, and_true]
  induction shape generalizing dims with
  | nil => simp_all
  | cons d shape ih =>
    cases d with
    | symbolic id => simp [Dim.length?] at h
    | known n =>
      simp only [List.mapM_cons, Dim.length?, Option.pure_def, Option.bind_eq_bind,
        Option.bind_some, Option.bind_eq_some_iff, Option.some.injEq] at h
      obtain ⟨rest, hrest, rfl⟩ := h
      rw [List.map_cons, ih hrest]

/-- A callee is traced again on the types of the operands. -/
theorem Atom.type_exampleArg (a : Atom) : a.exampleArg.type = a.type := by
  cases a with
  | literal t => rfl
  | var v =>
    simp only [exampleArg, Atom.type]
    cases h : v.type.knownDims? with
    | none => rfl
    | some dims =>
      cases dims with
      | nil => exact AbstractValue.known_of_knownDims? h
      | cons n rest => exact AbstractValue.known_of_knownDims? h

theorem map_type_exampleArg (atoms : List Atom) :
    (atoms.map Atom.exampleArg).map TraceArg.type = atoms.map Atom.type := by
  rw [List.map_map]
  exact List.map_congr_left fun a _ => a.type_exampleArg

/-! ## Nested levels -/

section

variable {program : Program} {settings : Params} {symbols : SymbolTable} {s s' : Lowering}
  {u : Unit}

/-- The state in which a nested level is opened. -/
def Lowering.nest (s : Lowering) (name : String) : Lowering :=
  { s with builder := s.builder.child name, bindings := [], sources := [] }

namespace Lower

theorem draft_trace {name : String} {tracer : Tracer} {args : List TraceArg} {t : Trace}
    (h : trace name tracer args s = .ok t s') :
    s'.draft = s.draft ∧ ∃ counts, tracer (args.map TraceArg.type) s.counts = .ok (t, counts) := by
  simp only [trace, Step.bind_eq_ok, Step.modify_eq_ok, Step.get_eq_ok, say_eq_ok] at h
  obtain ⟨_, _, rfl, _, _, rfl, _, _, ⟨rfl, rfl⟩, h⟩ := h
  simp only at h
  cases htrace : tracer (args.map TraceArg.type) s.counts with
  | error e => simp [htrace, Step.throw_eq_ok] at h
  | ok p =>
    obtain ⟨result, counts⟩ := p
    simp only [htrace, Step.bind_eq_ok, Step.modify_eq_ok, Step.pure_eq_ok] at h
    obtain ⟨_, _, rfl, rfl, rfl⟩ := h
    exact ⟨rfl, counts, rfl⟩

/-- A nested level starts empty with the functions of the outer one, and the outer level goes on
with the names and constants that the nested one leaves. -/
theorem draft_nested {name : String} {x : Lower Unit} {sub : Level}
    (h : nested name x s = .ok sub s') :
    ∃ inner : Lowering, x (s.nest name) = .ok () inner ∧ sub = inner.draft.level ∧
      s'.draft = { s.draft with names := inner.draft.names,
                                initializers := inner.draft.initializers } := by
  simp only [nested, Step.get_bind_eq_ok] at h
  simp only [Step.bind_eq_ok, Step.set_eq_ok, Step.pure_eq_ok, Step.get_eq_ok] at h
  obtain ⟨_, _, rfl, _, inner, hx, _, _, ⟨rfl, rfl⟩, _, _, rfl, rfl, rfl⟩ := h
  exact ⟨_, hx, rfl, rfl⟩

end Lower

/-- A name that is not taken has no record after others were bound. -/
theorem Draft.Binds.info_unused {d d' : Draft} {vs : List Var} {outs : List String}
    (h : d.Binds vs outs d') (hinfo : ∀ x, x ∉ d.names.used → d.level.info? x = none) (x : String)
    (hx : x ∉ d'.names.used) :
    d'.level.info? x = none := by
  rw [h.info x fun hout => hx (h.used x hout)]
  exact hinfo x fun hu => hx (h.le.used hu)

theorem Draft.Binds.name?_of_rest {d d' : Draft} {v : Var} {inner x : String}
    {rest : List (Var × String)} (h : d.Binds [v] [x] d')
    (hnames : ∀ p ∈ (v, inner) :: rest, d.name? p.1.id = none)
    (hv : v.id ∉ (rest.map Prod.fst).map Var.id) : ∀ p ∈ rest, d'.name? p.1.id = none := by
  intro p hp
  have hpv : p.1.id ≠ v.id := fun hpv => hv (hpv ▸ List.mem_map_of_mem (List.mem_map_of_mem hp))
  rw [h.names p.1.id (by simpa using hpv)]
  exact hnames p (by simp [hp])

/-- An output of a call is bound to a new name and takes over a record. -/
theorem binds_adoptOutput {v : Var} {x : String} {r : ValueRecord} {s₁ s₂ : Lowering}
    (hx : Lower.outputName v s = .ok x s₁)
    (hregister : Lower.build (Build.registerRecord ⟨x, r.shape, r.dtype, .subgraph⟩) s₁ = .ok u s₂)
    (hs : s.draft.shared.Tidy) (hv : s.draft.name? v.id = none)
    (hinfo : ∀ x, x ∉ s.draft.names.used → s.draft.level.info? x = none) :
    s.draft.Binds [v] [x] s₂.draft ∧ s₂.draft.level.info? x = some r.info.adopted ∧
      s₂.draft.level.functions = s.draft.level.functions ∧
      s₂.draft.initializers = s.draft.initializers := by
  obtain ⟨hbinds, hlevel, htable⟩ := Lower.binds_outputName hx hs hv
  obtain ⟨i, records, hoffer, hs₂, hinfo₂⟩ := Lower.draft_registerRecord hregister
  have hi : i = r.info.adopted := by
    rw [hlevel, hinfo x (hbinds.free x (by simp))] at hoffer
    exact (Option.some.inj hoffer).symm
  have hfunctions : s₁.draft.level.functions = s.draft.level.functions :=
    congrArg Level.functions hlevel
  refine ⟨?_, by simp [hinfo₂, hi], by rw [hs₂]; exact hfunctions, by rw [hs₂]; exact htable⟩
  rw [hs₂] at hinfo₂ ⊢
  refine hbinds.withRecords fun y hy => ?_
  rw [hinfo₂, Function.update_of_ne (by simpa using hy)]

/-- The outputs of a call are bound to new names and take over the records of the nested level's
outputs. -/
theorem binds_adoptOutputs {sub : Level} {pairs : List (Var × String)} {outs : List String}
    (h : adoptOutputs sub pairs s = .ok outs s') (hs : s.draft.shared.Tidy)
    (hnames : ∀ p ∈ pairs, s.draft.name? p.1.id = none)
    (hids : ((pairs.map Prod.fst).map Var.id).Nodup)
    (hinfo : ∀ x, x ∉ s.draft.names.used → s.draft.level.info? x = none) :
    s.draft.Binds (pairs.map Prod.fst) outs s'.draft ∧
      outs.map s'.draft.level.info? = pairs.map (fun p => (sub.info? p.2).map Info.adopted) ∧
      s'.draft.level.functions = s.draft.level.functions ∧
      s'.draft.initializers = s.draft.initializers := by
  induction pairs generalizing s outs with
  | nil =>
    obtain ⟨rfl, rfl⟩ := Step.pure_eq_ok.1 h
    refine ⟨?_, rfl, rfl, rfl⟩
    exact ⟨rfl, rfl, rfl, rfl, .refl _, hs, fun _ _ => rfl, rfl, by simp, by simp, by simp, by simp,
      fun _ _ => rfl⟩
  | cons p rest ih =>
    obtain ⟨v, inner⟩ := p
    simp only [adoptOutputs, Step.bind_eq_ok] at h
    obtain ⟨x, s₁, hx, h⟩ := h
    cases hrecord : sub.record? inner with
    | none =>
      simp only [hrecord] at h
      obtain ⟨_, _, h, -⟩ := Step.bind_eq_ok.1 h
      exact (Step.throw_eq_ok.1 h).elim
    | some r =>
      simp only [hrecord, Step.bind_eq_ok, Step.pure_eq_ok] at h
      obtain ⟨_, s₂, hregister, outs, _, hrest, rfl, rfl⟩ := h
      rw [List.map_cons, List.map_cons, List.nodup_cons] at hids
      obtain ⟨hbinds₂, hinfo₂, hfunctions₂, htable₂⟩ :=
        binds_adoptOutput hx hregister hs (hnames (v, inner) (by simp)) hinfo
      obtain ⟨hbinds, hinfos, hfunctions, htable⟩ :=
        ih hrest hbinds₂.tidy (hbinds₂.name?_of_rest hnames hids.1) hids.2
          (hbinds₂.info_unused hinfo)
      have hx' : x ∉ outs := fun hmem => hbinds.free x hmem (hbinds₂.used x (by simp))
      refine ⟨hbinds₂.cons hbinds hids.1, ?_, hfunctions.trans hfunctions₂, htable.trans htable₂⟩
      rw [List.map_cons, List.map_cons, hinfos, hbinds.info x hx', hinfo₂]
      simp [Level.info?, hrecord]

theorem binds_adoptOutputs_zip {sub : Level} {vs : List Var} {outs : List String}
    (hlength : vs.length = sub.outputs.length)
    (h : adoptOutputs sub (vs.zip sub.outputs) s = .ok outs s') (hs : s.draft.shared.Tidy)
    (hnames : ∀ v ∈ vs, s.draft.name? v.id = none) (hids : (vs.map Var.id).Nodup)
    (hinfo : ∀ x, x ∉ s.draft.names.used → s.draft.level.info? x = none) :
    s.draft.Binds vs outs s'.draft ∧
      outs.map s'.draft.level.info? = (sub.outputs.map sub.info?).map (Option.map Info.adopted) ∧
      s'.draft.level.functions = s.draft.level.functions ∧
      s'.draft.initializers = s.draft.initializers := by
  have hfst : (vs.zip sub.outputs).map Prod.fst = vs := List.map_fst_zip (Nat.le_of_eq hlength)
  have hsnd : (vs.zip sub.outputs).map Prod.snd = sub.outputs :=
    List.map_snd_zip (Nat.le_of_eq hlength.symm)
  obtain ⟨hbinds, hinfos, hkept⟩ :=
    binds_adoptOutputs h hs (fun p hp => hnames p.1 (List.of_mem_zip hp).1) (by rwa [hfst]) hinfo
  rw [hfst] at hbinds
  refine ⟨hbinds, ?_, hkept⟩
  rw [hinfos, ← hsnd, List.map_map, List.map_map, hsnd]
  rfl

/-- A nested level translates a trace, and the outer level goes on with the names and constants that
the nested one leaves; `σ` is what is shared in the end. -/
structure Draft.Nests (program : Program) (settings : Params) (symbols : SymbolTable) (d : Draft)
    (t : Trace) (sub : Level) (σ : Shared) (d' : Draft) : Prop where
  grows : d.Grows d'
  table : d'.initializers = σ.table
  used : d'.names.used = σ.used
  functions : sub.functions = σ.functions
  inherits : d.level.functions <+: sub.functions
  sound : σ.Sound program settings symbols
  translates : ∃ names info body tail decls,
    sub.Translates program symbols (Implements program settings symbols σ) σ names info t body
    tail decls

/-- A trace that is lowered into a nested level leaves a finished level, whose functions and
constants extend those of the outer level. -/
theorem nests_nested {env : Environment} (henv : env.handler? = Registry.builtin.handler?)
    (hsymbols : env.symbols = symbols) {calls : List CallLowering}
    (hcalls : CallsImplement program settings symbols calls) {name : String} {site : Site}
    {t : Trace} {sub : Level}
    (h : Lower.nested name (do lowerTrace env calls site t; resolveOutputs env site) s = .ok sub s')
    (hs : s.draft.shared.Sound program settings symbols)
    (hids : (t.given ++ madeBy t.equations).Nodup) :
    ∃ inner, (do lowerTrace env calls site t; resolveOutputs env site) (s.nest name) =
      .ok () inner ∧
      sub = inner.draft.level ∧ ∃ σ, inner.draft.shared = σ ∧
      s.draft.Nests program settings symbols t sub σ s'.draft := by
  obtain ⟨inner, hlower, rfl, hs'⟩ := Lower.draft_nested h
  obtain ⟨_, inner₁, htrace, hresolve⟩ := Step.bind_eq_ok.1 hlower
  have hempty :=
    Draft.lowered_empty (d := (s.nest name).draft) (.refl s.draft.shared) hs rfl rfl rfl rfl rfl rfl
  obtain ⟨body, tail, decls, hlowered⟩ := lowered_lowerTrace henv hsymbols hcalls htrace hempty hids
  obtain ⟨records, hinner, htranslates⟩ := translates_resolveOutputs hsymbols hresolve hlowered
  refine ⟨inner, hlower, rfl, inner₁.draft.shared, by rw [hinner, Draft.shared_withRecords], ?_⟩
  rw [hs', hinner]
  rw [hinner] at htranslates
  have hle := hlowered.le
  have hsound := hlowered.sound
  refine ⟨?_, rfl, rfl, rfl, hle.functions, hsound, _, _, _, _, _, htranslates⟩
  exact ⟨rfl, rfl, rfl, ⟨hle.used, hle.table, List.prefix_refl _⟩, hsound.table_used,
    hsound.table_nodup, fun f hf => hle.used (hs.functions_used f hf), hs.functions_nodup⟩

/-- The functions of a nested level are merged into the outer one. -/
theorem expands_mergeFunctions {σ : Shared} {functions : List Function}
    (h : Lower.build (Build.mergeFunctions functions) s = .ok u s')
    (hσ : σ.Sound program settings symbols) (hfunctions : functions = σ.functions)
    (hinherits : s.draft.level.functions <+: functions) (htable : s.draft.initializers = σ.table)
    (hused : σ.used ⊆ s.draft.names.used) (hs : s.draft.shared.Tidy) :
    s.draft.Expands s'.draft ∧ σ.Le s'.draft.shared ∧
      s'.draft.shared.Sound program settings symbols ∧
      s'.draft.shared.functions = σ.functions := by
  subst hfunctions
  rw [Lower.draft_mergeFunctions h hinherits hσ.functions_nodup]
  have hle : σ.Le ⟨s.draft.names.used, s.draft.initializers, σ.functions⟩ :=
    ⟨hused, ⟨[], by simp [htable]⟩, List.prefix_refl _⟩
  have htidy : Shared.Tidy ⟨s.draft.names.used, s.draft.initializers, σ.functions⟩ :=
    ⟨hs.table_used, hs.table_nodup, fun f hf => hused (hσ.functions_used f hf), hσ.functions_nodup⟩
  refine ⟨⟨rfl, rfl, rfl, rfl, rfl, rfl, ?_, htidy⟩, hle, hσ.grow hle htidy rfl, rfl⟩
  exact ⟨List.Subset.refl _, ⟨[], by simp [Draft.shared]⟩, hinherits⟩

/-- A call is opened from the state `s` : a name is issued for it, its operands get names, and its
callee is traced. The trace has as many outputs as the equation. -/
inductive CallOpens (c : Callable) (tracer : Tracer) (e : Equation) (s : Lowering) :
    String → List String → Trace → Lowering → Prop where
  | intro {s₁ s₂ s₃ s₄ : Lowering} {callName : String} {data : List String} {t : Trace}
      (said : Lower.sayHere .debug ("nested call to " ++ c.name) s = .ok () s₁)
      (issued : Lower.build (Build.instanceName c.baseName) s₁ = .ok callName s₂)
      (operands : e.inputs.mapM Lower.inputName s₂ = .ok data s₃)
      (traced : Lower.trace c.name tracer (e.inputs.map Atom.exampleArg) s₃ = .ok t s₄)
      (count : t.outputs.length = e.outputs.length) : CallOpens c tracer e s callName data t s₄

/-- What opening a call does to the draft, and how its callee is traced. -/
theorem CallOpens.spec {c : Callable} {tracer : Tracer} {e : Equation} {s s' : Lowering}
    {callName : String} {data : List String} {t : Trace}
    (h : CallOpens c tracer e s callName data t s') (hs : s.draft.shared.Tidy) :
    s.draft.Grows s'.draft ∧ callName ∉ s.draft.names.used ∧ callName ∈ s'.draft.names.used ∧
      e.inputs.map (Atom.name? s'.draft.initializers s'.draft.name?) = data.map some ∧
      ∃ counts counts', tracer (e.inputs.map Atom.type) counts = .ok (t, counts') := by
  cases h with
  | @intro s₁ s₂ s₃ _ _ _ _ said issued operands traced count =>
    obtain ⟨pool, hissues, hs₂⟩ := Lower.draft_instanceName issued
    rw [Lower.draft_sayHere said] at hissues hs₂
    have hgrows₂ : s.draft.Grows s₂.draft := hs₂ ▸ Draft.Grows.of_issues hs hissues
    have hcallName : callName ∈ s₂.draft.shared.used := hs₂ ▸ (hissues.used callName).2 (Or.inl rfl)
    obtain ⟨hgrows₃, hdata⟩ := Lower.draft_inputNames operands hgrows₂.tidy
    obtain ⟨hs', counts', htrace⟩ := Lower.draft_trace traced
    rw [map_type_exampleArg] at htrace
    rw [hs']
    exact ⟨hgrows₂.trans hgrows₃, hissues.free, hgrows₃.le.used hcallName, hdata, _, counts',
      htrace⟩

theorem CallOpens.length_outputs {c : Callable} {tracer : Tracer} {e : Equation} {s s' : Lowering}
    {callName : String} {data : List String} {t : Trace}
    (h : CallOpens c tracer e s callName data t s') :
    t.outputs.length = e.outputs.length := by
  cases h with
  | intro said issued operands traced count => exact count

/-- The steps of a call that is lowered. -/
theorem lowerCall_cases {env : Environment} {c : Callable} {tracer : Tracer}
    {calls : List CallLowering} {site : Site} {e : Equation}
    (h : lowerCall env c tracer calls site e s = .ok u s') :
    ∃ callName data t s₁ sub s₂ s₃ outs s₄ f s₅ function s₆,
      CallOpens c tracer e s callName data t s₁ ∧
      Lower.nested (callName ++ "_graph") (do
        lowerTrace env calls (site.inside callName) t
        resolveOutputs env (site.inside callName)) s₁ = .ok sub s₂ ∧
      s₃.draft = s₂.draft ∧
      adoptOutputs sub (e.outputs.zip sub.outputs) s₃ = .ok outs s₄ ∧
      sub.toFunction callName (sub.referencedInitializers s₂.draft.initializers)
        s₄.draft.initializers = .ok f ∧
      Lower.build (Build.mergeFunctions sub.functions) s₄ = .ok () s₅ ∧
      functionFor c callName f s₅ = .ok function s₆ ∧
      Lower.build
      (Build.addCall function data (sub.referencedInitializers s₂.draft.initializers) outs callName
        c.name) s₆ = .ok u s' := by
  simp only [lowerCall, Step.bind_eq_ok, Lower.issuedBy_eq_ok] at h
  obtain ⟨_, _, hsay, callName, _, hcall, data, _, hdata, t, s₁, htrace, h⟩ := h
  split at h
  · obtain ⟨_, _, h, -⟩ := Step.bind_eq_ok.1 h
    exact (Step.throw_eq_ok.1 h).elim
  · next hlength =>
    simp only [Step.bind_eq_ok, Step.get_eq_ok] at h
    obtain ⟨sub, s₂, hnested, _, _, ⟨rfl, rfl⟩, _, s₃, hsay', outs, s₄, hadopt, _, _, ⟨rfl, rfl⟩, f,
      _, hf, _, s₅, hmerge, function, s₆, hfunction, hadd⟩ := h
    simp only [Lower.build_eq_ok, Build.ofExcept_eq_ok] at hf
    obtain ⟨_, ⟨hf, rfl⟩, rfl⟩ := hf
    exact ⟨callName, data, t, s₁, sub, _, s₃, outs, _, f, s₅, function, s₆,
      .intro hsay hcall hdata htrace (not_not.1 hlength), hnested, Lower.draft_sayHere hsay',
      hadopt, hf, hmerge, hfunction, hadd⟩

/-! ## Functions of nested levels -/

section Function

variable {σ τ : Shared} {index : Nat} {counts counts' : Counts} {c : Callable}
  {types : List AbstractValue} {t : Trace} {sub : Level} {names : Nat → Option String}
  {info : String → Option Info} {body tail : List Node} {decls : List Declaration} {f g : Function}
  {callName function : String}

/-- A function with the body of a finished level implements the callable that the level
translates. -/
theorem implements_of_translates (hc : program[index]? = some c)
    (htrace : c.tracer settings (Program.tracers settings (program.take index)) types counts =
      .ok (t, counts')) (hσ : σ.Sound program settings symbols)
    (hsub : sub.Translates program symbols (Implements program settings symbols σ) σ names info t
      body tail decls)
    (hf : sub.toFunction callName (sub.referencedInitializers σ.table) σ.table = .ok f)
    (hle : σ.Le τ) (hg : g ∈ τ.functions) (hsame : g = { f with name := g.name }) :
    Implements program settings symbols τ index types
      ⟨g, sub.referencedInitializers σ.table, sub.outputs.map sub.info?⟩ := by
  have hname : f.name = callName := by
    obtain ⟨-, records, -, rfl⟩ := Level.toFunction_eq_ok.1 hf
    rfl
  refine .intro hc htrace (fun _ _ _ => id) (hsub.mono hle hσ.table_used fun _ _ _ h =>
    h.mono hle hσ.table_used) (f := f) ?_ hsame hg ?_ rfl
  · rw [hname]
    exact Level.toFunction_mono hle hf
  · exact (hsub.referencedInitializers_mono Implements.captureFrom hle).symm

/-- The function that a nested level becomes, known or new, implements the callable. -/
theorem implements_functionFor (hc : program[index]? = some c)
    (htrace : c.tracer settings (Program.tracers settings (program.take index)) types counts =
      .ok (t, counts')) (hσ : σ.Sound program settings symbols)
    (hsub : sub.Translates program symbols (Implements program settings symbols σ) σ names info t
      body tail decls)
    (hf : sub.toFunction callName (sub.referencedInitializers σ.table) σ.table = .ok f)
    (hle : σ.Le s.draft.shared) (hs : s.draft.shared.Sound program settings symbols)
    (hfunctions : s.draft.shared.functions = σ.functions)
    (h : functionFor c callName f s = .ok function s') :
    ∃ g : Function, g.name = function ∧ g = { f with name := g.name } ∧ s.draft.Expands s'.draft ∧
      s'.draft.shared.Sound program settings symbols ∧
      Implements program settings symbols s'.draft.shared index types
        ⟨g, sub.referencedInitializers σ.table, sub.outputs.map sub.info?⟩ := by
  have hunconfigured : Unconfigured f.nodes := by
    intro n hn
    obtain ⟨m, hm, i, rfl⟩ := (hsub.localizes Implements.captureFrom hf).mem_nodes hn
    exact hsub.unconfigured m hm
  rcases Lower.draft_functionFor h hs.toTidy with ⟨g, hg, hsame, hname, hs'⟩ |
    ⟨hnew, hfree, pool, hpool, hs'⟩
  · have hbody := Function.eq_of_sameBody hsame hunconfigured
    refine ⟨g, hname, hbody, ?_, hs' ▸ hs, ?_⟩
    · rw [hs']
      exact .of_grows (.refl hs.toTidy)
    · rw [hs']
      exact implements_of_translates hc htrace hσ hsub hf hle hg hbody
  · have hused : s.draft.names.used ⊆ pool.used := fun x hx => (hpool x).2 (Or.inr hx)
    have hle' : s.draft.shared.Le s'.draft.shared := by
      rw [hs']
      exact ⟨hused, ⟨[], by simp [Draft.shared]⟩, List.prefix_append _ _⟩
    have htidy : s'.draft.shared.Tidy := by
      rw [hs']
      exact hs.toTidy.of_function (f := { f with name := function }) hfree hused
        ((hpool function).2 (Or.inl rfl))
    have hmember : { f with name := function } ∈ s'.draft.shared.functions := by
      rw [hs']
      simp [Draft.shared]
    have himplements := implements_of_translates hc htrace hσ hsub hf (hle.trans hle') hmember rfl
    refine ⟨_, rfl, rfl, ?_, ?_, himplements⟩
    · exact
        { inputs := by rw [hs'], outputs := by rw [hs'], nodes := by rw [hs'],
          info := by rw [hs']; rfl
          bindings := by rw [hs'], sources := by rw [hs'], le := hle', tidy := htidy }
    · refine hs.push (f := { f with name := function }) hle' htidy (by rw [hs']; rfl) hnew
        (fun n hn hcall => ?_) ⟨_, _, _, himplements, rfl⟩
      obtain ⟨g, hg, hgname, -⟩ := hsub.exists_target_of_toFunction (fun _ _ _ => id) hf hn hcall
      exact List.mem_map.2 ⟨g, hfunctions ▸ hg, hgname⟩

end Function

/-! ## Calls -/

theorem Declares.length_eq {table : InitializerTable} {names : Nat → Option String}
    {inputs declared : List String} {atoms : List Atom} {nodes : List Node}
    {decls : List Declaration} (h : Declares table names inputs declared atoms nodes decls) :
    decls.length = atoms.length := by
  induction h with
  | nil => rfl
  | own source notInput notConstant notDeclared next ih => simp [ih]
  | routed source aliased next ih => simp [ih]

theorem Level.Translates.length_outputs {targets : Targets} {σ : Shared}
    {names : Nat → Option String} {info : String → Option Info} {t : Trace} {body tail : List Node}
    {decls : List Declaration} {l : Level}
    (h : l.Translates program symbols targets σ names info t body tail decls) :
    l.outputs.length = t.outputs.length := by
  rw [h.outputs, List.length_map, h.translation.declares.length_eq]

/-- The outer level has taken over the outputs `vs` of a call from the nested level `sub`, which was
opened in the draft `opened` and has left the shared parts `σ`. -/
structure Draft.Adopts (d opened : Draft) (vs : List Var) (sub : Level) (σ : Shared)
    (outs : List String) (d' : Draft) :
    Prop where
  binds : d.Binds vs outs d'
  grows : opened.shared.Le d'.shared
  infos : outs.map d'.level.info? = (sub.outputs.map sub.info?).map (Option.map Info.adopted)
  table : d'.initializers = σ.table
  used : σ.used ⊆ d'.names.used
  inherits : d'.level.functions <+: sub.functions

/-- Behind a nested level, its outputs are taken over. -/
theorem Draft.Nests.adopts {d opened : Draft} {t : Trace} {sub : Level} {σ : Shared}
    (h : opened.Nests program settings symbols t sub σ s.draft) (hopened : d.Grows opened)
    {vs : List Var} {outs : List String}
    (hadopt : adoptOutputs sub (vs.zip sub.outputs) s = .ok outs s')
    (hlength : t.outputs.length = vs.length) (hnames : ∀ v ∈ vs, d.name? v.id = none)
    (hids : (vs.map Var.id).Nodup) (hinfo : ∀ x, x ∉ d.names.used → d.level.info? x = none) :
    d.Adopts opened vs sub σ outs s'.draft := by
  obtain ⟨names, info, body, tail, decls, hsub⟩ := h.translates
  have hgrows : d.Grows s.draft := hopened.trans h.grows
  obtain ⟨hbinds, hinfos, hfunctions, htable⟩ :=
    binds_adoptOutputs_zip (hlength.symm.trans hsub.length_outputs.symm) hadopt hgrows.tidy
      (fun v hv => (hgrows.name?_eq _).trans (hnames v hv)) hids (hgrows.info_unused hinfo)
  refine ⟨.of_expands (.of_grows hgrows) hbinds, h.grows.le.trans hbinds.le, hinfos,
    htable.trans h.table, h.used ▸ hbinds.le.used, ?_⟩
  rw [hfunctions, hgrows.level, ← hopened.level]
  exact h.inherits

/-- The node `n` of a call is made of the level that the call opens : it passes the operands and the
constants that the level reads to a function with the body of the level. -/
inductive CallPlaces (env : Environment) (c : Callable) (tracer : Tracer)
    (calls : List CallLowering) (site : Site) (e : Equation) (s : Lowering) (n : Node)
    (s' : Lowering) : Prop where
  | intro {callName : String} {data : List String} {t : Trace} {opened inner : Lowering}
      {f : Function} (opens : CallOpens c tracer e s callName data t opened)
      (lowered : (do
        lowerTrace env calls (site.inside callName) t
        resolveOutputs env (site.inside callName) : Lower Unit)
          (opened.nest (callName ++ "_graph")) = .ok () inner)
      (function : inner.draft.level.toFunction callName
        (inner.draft.level.referencedInitializers inner.draft.initializers)
        inner.draft.initializers = .ok f)
      (grows : inner.draft.shared.Le s'.draft.shared)
      (registered : { f with name := n.opType } ∈ s'.draft.shared.functions)
      (inputs : n.inputs =
        data ++ inner.draft.level.referencedInitializers inner.draft.initializers) :
      CallPlaces env c tracer calls site e s n s'

/-- A lowered call becomes a node that calls a function which implements the callee. -/
theorem places_lowerCall {env : Environment} (henv : env.handler? = Registry.builtin.handler?)
    (hsymbols : env.symbols = symbols) {calls : List CallLowering}
    (hcalls : CallsImplement program settings symbols calls) {index : Nat} {c : Callable}
    (hc : program[index]? = some c) {site : Site} {e : Equation}
    (h : lowerCall env c (c.tracer settings (Program.tracers settings (program.take index))) calls
      site e s = .ok u s') (hcallee : e.callee? = some index)
    (hs : s.draft.shared.Sound program settings symbols)
    (hnames : ∀ v ∈ e.outputs, s.draft.name? v.id = none) (hids : (e.outputs.map Var.id).Nodup)
    (hinfo : ∀ x, x ∉ s.draft.names.used → s.draft.level.info? x = none) :
    ∃ n placed, s.draft.Places program settings symbols e n placed placed s'.draft ∧
      CallPlaces env c (c.tracer settings (Program.tracers settings (program.take index))) calls
        site e s n s' := by
  obtain ⟨callName, data, t, s₁, sub, s₂, s₃, outs, s₄, f, s₅,
    function, s₆, hopens, hnested, hs₃, hadopt, hf, hmerge, hfunction, hadd⟩ := lowerCall_cases h
  obtain ⟨hgrows₁, hfree, hcallName, hdata, counts, counts', htrace⟩ := hopens.spec hs.toTidy
  -- The nested level.
  obtain ⟨inner, hlowered, hlevel, σ, hshared, hσ⟩ := nests_nested henv hsymbols hcalls hnested
    (hs.grow hgrows₁.le hgrows₁.tidy (congrArg Level.functions hgrows₁.level))
    (Callable.tracer_spec htrace).2.1
  obtain ⟨names, info, body, tail, decls, hsub⟩ := hσ.translates
  rw [← hs₃] at hσ hf hadd
  -- The outputs of the call and the function of the nested level.
  have hadopts := hσ.adopts hgrows₁ hadopt hopens.length_outputs hnames hids hinfo
  obtain ⟨hexpands₅, hle₅, hsound₅, hfunctions₅⟩ :=
    expands_mergeFunctions hmerge hσ.sound hσ.functions hadopts.inherits hadopts.table hadopts.used
      hadopts.binds.tidy
  rw [hσ.table] at hf hadd
  rw [hadopts.table] at hf
  obtain ⟨g, hg, hbody, hexpands₆, hsound₆, himplements⟩ :=
    implements_functionFor hc htrace hσ.sound hsub hf hle₅ hsound₅ hfunctions₅ hfunction
  -- The node.
  have hbinds₆ := (hadopts.binds.expands hexpands₅).expands hexpands₆
  obtain ⟨-, -, -, hnode⟩ := Lower.addCall_eq_ok.1 hadd
  have hle₆ : s₁.draft.shared.Le s₆.draft.shared :=
    hadopts.grows.trans (hexpands₅.le.trans hexpands₆.le)
  obtain ⟨hnodes, hbinds', pool', hpool', hs'⟩ :=
    Lower.binds_addNode hnode hbinds₆ (hle₆.used hcallName)
  have hle' : s₆.draft.shared.Le s'.draft.shared :=
    hs' ▸ Shared.le_of_used fun x hx => (hpool' x).2 hx
  have hnames₁ : ∀ id x, s₁.draft.name? id = some x → s'.draft.name? id = some x := fun id x hx =>
    hbinds'.names_mono hnames id x (hgrows₁.name?_eq id ▸ hx)
  have hinfos :
      outs.map s'.draft.level.info? = (sub.outputs.map sub.info?).map
        (Option.map Info.adopted) := by
    have hinfo' : s'.draft.level.info? = s₄.draft.level.info? := by
      rw [← hexpands₅.info, ← hexpands₆.info, hs']
      rfl
    rw [hinfo', hadopts.infos]
  have htable : inner.draft.initializers = σ.table := congrArg Shared.table hshared
  refine ⟨c.node g.name callName (data ++ sub.referencedInitializers σ.table) outs,
    (sub.outputs.map sub.info?).map (Option.map Info.adopted), ?_,
    .intro hopens hlowered (by rwa [← hlevel, htable])
    (hshared ▸ hle₅.trans (hexpands₆.le.trans hle')) ?_ (by rw [← hlevel, htable]; rfl)⟩
  swap
  · exact hbody ▸ hle'.functions.subset himplements.member
  rw [hg]
  exact
    { nodes := hnodes
      binds := hbinds'
      emits := by
        rw [← hg]
        exact .call hcallee hc
          (map_eq_map_some_mono (Atom.name?_mono (hle₆.trans hle') hnames₁) hdata) hbinds'.outs_eq
          (himplements.mono hle' hsound₆.table_used)
          (by simp [hsub.length_outputs, hopens.length_outputs])
      reads := fun v hv => by
        obtain ⟨x, -, hx⟩ := exists_of_map_eq_map_some hdata hv
        exact hgrows₁.name?_eq v.id ▸ Atom.isSome_of_name? hx rfl
      name_free := hfree
      name_used := hle'.used (hle₆.used hcallName)
      sound := hsound₆.grow hle' hbinds'.tidy (by rw [hs']; rfl)
      infos_eq := hinfos }

theorem implements_lowerCall {env : Environment} (henv : env.handler? = Registry.builtin.handler?)
    (hsymbols : env.symbols = symbols) {calls : List CallLowering}
    (hcalls : CallsImplement program settings symbols calls) {index : Nat} {c : Callable}
    (hc : program[index]? = some c) :
    CallLowering.Implements program settings symbols index
      (lowerCall env c (c.tracer settings (Program.tracers settings (program.take index)))
        calls) := by
  intro site e s s' u h hcallee hs hnames hids hinfo
  obtain ⟨n, placed, hplaces, -⟩ :=
    places_lowerCall henv hsymbols hcalls hc h hcallee hs hnames hids hinfo
  exact ⟨n, placed, hplaces⟩

/-! ## All calls of a program -/

/-- The lowerings of calls of a longer program begin with those of the shorter one. -/
theorem callLowerings_append_singleton (env : Environment) (settings : Params) (program : Program)
    (c : Callable) :
    callLowerings env settings (program ++ [c]) = callLowerings env settings program ++
      [lowerCall env c (c.tracer settings (program.tracers settings))
        (callLowerings env settings program)] := by
  rw [callLowerings, Program.tracers_append_singleton,
    List.zip_append (by rw [Program.length_tracers]), List.foldl_append]
  rfl

theorem length_callLowerings (env : Environment) (settings : Params) (program : Program) :
    (callLowerings env settings program).length = program.length := by
  induction program using List.reverseRecOn with
  | nil => rfl
  | append_singleton program c ih => simp [callLowerings_append_singleton, ih]

/-- The lowering of calls of a callable is made from those of the callables before it. -/
theorem getElem?_callLowerings (env : Environment) (settings : Params) {program : Program}
    {index : Nat} {c : Callable} (h : program[index]? = some c) :
    (callLowerings env settings program)[index]? =
      some (lowerCall env c (c.tracer settings (Program.tracers settings (program.take index)))
        (callLowerings env settings (program.take index))) := by
  induction program using List.reverseRecOn with
  | nil => simp at h
  | append_singleton program d ih =>
    rw [callLowerings_append_singleton]
    rcases Nat.lt_or_ge index program.length with hindex | hindex
    · rw [List.getElem?_append_left hindex] at h
      rw [List.getElem?_append_left (by rwa [length_callLowerings]),
        List.take_append_of_le_length (Nat.le_of_lt hindex)]
      exact ih h
    · rw [List.getElem?_append_right hindex, List.getElem?_singleton] at h
      split at h
      · next hzero =>
        obtain rfl : index = program.length := by omega
        obtain rfl := Option.some.inj h
        rw [List.getElem?_append_right (Nat.le_of_eq (length_callLowerings _ _ _)),
          length_callLowerings]
        simp
      · simp at h

/-- What holds of the lowering of calls of each callable, as soon as it holds of those before it,
holds of all of them. -/
theorem forall_callLowerings {env : Environment} {P : Nat → CallLowering → Prop}
    (h : ∀ index c, program[index]? = some c →
      (∀ i call, (callLowerings env settings (program.take index))[i]? = some call → P i call) →
      P index (lowerCall env c (c.tracer settings (Program.tracers settings (program.take index)))
        (callLowerings env settings (program.take index)))) (n : Nat) :
    ∀ i call, (callLowerings env settings (program.take n))[i]? = some call → P i call := by
  induction n using Nat.strongRecOn with
  | ind n ih =>
    intro index call hcall
    have hindex : index < (program.take n).length := by
      rw [← length_callLowerings env settings]
      exact (List.getElem?_eq_some_iff.1 hcall).1
    obtain ⟨c, hc⟩ : ∃ c, (program.take n)[index]? = some c := ⟨_, List.getElem?_eq_getElem hindex⟩
    rw [getElem?_callLowerings env settings hc] at hcall
    obtain rfl := Option.some.inj hcall
    have hn : index < n := Nat.lt_of_lt_of_le hindex (List.length_take_le _ _)
    rw [List.take_take, Nat.min_eq_left (Nat.le_of_lt hn)]
    rw [List.getElem?_take_of_lt hn] at hc
    exact h index c hc (ih index hn)

/-- The lowerings of calls of a program all append nodes that call functions which implement the
callee. -/
theorem callsImplement_callLowerings {env : Environment}
    (henv : env.handler? = Registry.builtin.handler?) (hsymbols : env.symbols = symbols) (n : Nat) :
    CallsImplement program settings symbols (callLowerings env settings (program.take n)) :=
  forall_callLowerings (fun _ _ hc ih => implements_lowerCall henv hsymbols ih hc) n

end

end TensorGraph
