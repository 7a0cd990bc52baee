import Mathlib.Data.List.Perm.Subperm
import TensorGraph.Proofs.Conversion

/-!
# Names that lowering declares

The inputs, the nodes with their outputs, the constants and the functions of a level never share a
name. Every name that lowering issues is held until something is declared under it, and is then
given up : `Draft.Distinct held d` says that the held names and the declared ones are all different.
While a nested level is built, the names of the outer level are held (`distinct_nested`).

Each step of lowering takes a distinct draft to a distinct one, so lowering a trace does
(`distinct_lowerTrace`), and what lowering a program leaves is distinct (`distinct_lowerProgram`).
-/

namespace TensorGraph

/-! ## Declared names -/

/-- The names that nodes declare. -/
def nodeNames (nodes : List Node) : List String :=
  nodes.flatMap fun n => n.name :: n.outputs

namespace Draft

/-- The names that are declared in the level or shared by all levels. -/
def declared (d : Draft) : List String :=
  d.level.inputs ++ nodeNames d.level.nodes ++ d.initializers.names ++
    d.level.functions.map Function.name

/-- The held names and the declared ones are different names, all of them taken. -/
structure Distinct (held : List String) (d : Draft) : Prop where
  nodup : (held ++ d.declared).Nodup
  used : ∀ x ∈ held ++ d.declared, x ∈ d.names.used

namespace Distinct

variable {held held' : List String} {d d' : Draft}

/-- Names can be given up, and held names can be declared. -/
theorem of_subperm (h : d.Distinct held)
    (hsub : (held' ++ d'.declared).Subperm (held ++ d.declared))
    (hused : d.names.used ⊆ d'.names.used) : d'.Distinct held' where
  nodup := by
    obtain ⟨l, hperm, hsublist⟩ := hsub
    exact hperm.nodup_iff.1 (h.nodup.sublist hsublist)
  used x hx := hused (h.used x (hsub.subset hx))

/-- What is not declared does not matter. -/
theorem congr (h : d.Distinct held) (hdeclared : d'.declared = d.declared)
    (hused : d.names.used ⊆ d'.names.used) :
    d'.Distinct held :=
  h.of_subperm (by rw [hdeclared]) hused

theorem withRecords (h : d.Distinct held) (records : List ValueRecord) :
    (d.withRecords records).Distinct held :=
  h.congr rfl (List.Subset.refl _)

/-- New names can be held. -/
theorem hold (h : d.Distinct held) {new : List String} (hnodup : new.Nodup)
    (hfree : ∀ x ∈ new, x ∉ d.names.used) (hnew : ∀ x ∈ new, x ∈ d'.names.used)
    (hdeclared : d'.declared = d.declared) (hused : d.names.used ⊆ d'.names.used) :
    d'.Distinct (new ++ held) where
  nodup := by
    rw [hdeclared, List.append_assoc]
    refine List.nodup_append.2 ⟨hnodup, h.nodup, ?_⟩
    rintro x hx _ hdeclared rfl
    exact hfree x hx (h.used x hdeclared)
  used x hx := by
    rw [hdeclared, List.append_assoc] at hx
    rcases List.mem_append.1 hx with hx | hx
    · exact hnew x hx
    · exact hused (h.used x hx)

theorem issue (h : d.Distinct held) {x : String} {pool : NamePool}
    (hissues : d.names.Issues x pool) :
    { d with names := pool }.Distinct (x :: held) :=
  h.hold (List.nodup_singleton x) (by simpa using hissues.free)
    (by simpa using (hissues.used x).2 (Or.inl rfl)) rfl fun y hy => (hissues.used y).2 (Or.inr hy)

/-- New constants have names that were free. -/
theorem grows (h : d.Distinct held) (hgrows : d.Grows d') : d'.Distinct held := by
  obtain ⟨new, hnew, hfree⟩ := hgrows.le.table
  have htable : d'.initializers.names = d.initializers.names ++ new.map Initializer.name := by
    have : d'.initializers.entries = d.initializers.entries ++ new := hnew
    rw [InitializerTable.names, this, List.map_append]
    rfl
  have hnodup : (d.initializers.names ++ new.map Initializer.name).Nodup :=
    htable ▸ hgrows.tidy.table_nodup
  have hheld : { d with names := d'.names }.Distinct (new.map Initializer.name ++ held) := by
    refine h.hold (List.nodup_append.1 hnodup).2.1 (fun x hx => ?_)
      (fun x hx => ?_) rfl hgrows.le.used
    · obtain ⟨i, hi, rfl⟩ := List.mem_map.1 hx
      exact hfree i hi
    · refine hgrows.tidy.table_used ?_
      rw [Draft.shared, htable]
      exact List.mem_append_right _ hx
  refine hheld.of_subperm (List.subperm_ext_iff.2 fun x _ => ?_) (List.Subset.refl _)
  simp only [declared, hgrows.level, htable, List.count_append]
  omega

theorem tidy (h : d.Distinct held) : d.shared.Tidy := by
  have hdeclared := (List.nodup_append.1 h.nodup).2.1
  have htables := List.nodup_append.1 hdeclared
  exact
    { table_used := fun x hx => h.used x (by simp [declared, show x ∈ d.initializers.names from hx])
      table_nodup := (List.nodup_append.1 htables.1).2.1
      functions_used := fun f hf => h.used f.name (by
        simp only [declared, List.mem_append]
        exact Or.inr (Or.inr (List.mem_map_of_mem hf)))
      functions_nodup := htables.2.1 }

/-- The outputs of an equation are held when they are bound. -/
theorem binds (h : d.Distinct held) {vs : List Var} {outs : List String}
    (hbinds : d.Binds vs outs d') (hfunctions : d'.level.functions = d.level.functions)
    (htable : d'.initializers = d.initializers) :
    d'.Distinct (outs ++ held) :=
  h.hold hbinds.nodup hbinds.free hbinds.used
    (by rw [declared, declared, hbinds.inputs, hbinds.nodes, hfunctions, htable]) hbinds.le.used

end Distinct

end Draft

/-! ## Steps of building -/

section

variable {held : List String} {s s' : Lowering} {u : Unit}

theorem Lower.distinct_outputName {v : Var} {x : String} (h : outputName v s = .ok x s')
    (hv : s.draft.name? v.id = none) (hs : s.draft.Distinct held) :
    s'.draft.Distinct (x :: held) := by
  rcases draft_outputName h with ⟨hname, -⟩ | ⟨-, pool, hissues, hs'⟩
  · simp [hv] at hname
  · rw [hs']
    exact (hs.issue hissues).congr rfl (List.Subset.refl _)

theorem Lower.distinct_uniqueName {base x : String} (h : build (Build.uniqueName base) s = .ok x s')
    (hs : s.draft.Distinct held) : s'.draft.Distinct (x :: held) := by
  obtain ⟨pool, hissues, hs'⟩ := draft_uniqueName h
  rw [hs']
  exact hs.issue hissues

/-- An input is declared under a held name. -/
theorem Lower.distinct_addInput {x : String} {shape : List ShapeDim} {dtype : DType}
    (h : build (Build.addInput x shape dtype) s = .ok u s') (hs : s.draft.Distinct (x :: held)) :
    s'.draft.Distinct held := by
  obtain ⟨i, records, -, hs', -⟩ := draft_addInput h
  rw [hs']
  refine hs.of_subperm (List.subperm_ext_iff.2 fun y _ => ?_) fun y hy =>
    (NamePool.mem_used_reserve _ _ y).2 (Or.inr hy)
  simp only [Draft.declared, List.cons_append, List.count_append, List.count_cons, List.count_nil]
  omega

/-- A node is declared under held names. -/
theorem Lower.distinct_addNode {n : Node} (h : build (Build.addNode n) s = .ok u s')
    (hs : s.draft.Distinct (n.outputs ++ n.name :: held)) : s'.draft.Distinct held := by
  obtain ⟨-, pool, hpool, hs'⟩ :=
    draft_addNode h (hs.used _ (by simp)) fun x hx => hs.used x (by simp [hx])
  rw [hs']
  refine hs.of_subperm (List.subperm_ext_iff.2 fun y _ => ?_) fun y hy => (hpool y).2 hy
  simp only [Draft.declared, nodeNames, List.flatMap_append, List.flatMap_cons, List.flatMap_nil,
    List.append_nil, List.count_append, List.count_cons]
  omega

end

/-! ## Inputs, constants and outputs of traces -/

section

variable {program : Program} {settings : Params} {symbols : SymbolTable} {base : Shared} {t : Trace}
  {body tail : List Node} {decls : List Declaration} {held : List String} {s s' : Lowering}
  {u : Unit}

theorem distinct_lowerInputs {env : Environment} (hsymbols : env.symbols = symbols) {site : Site}
    {vs before : List Var} (h : lowerInputs env site vs s = .ok u s')
    (hs : s.draft.Lowered program settings symbols base ⟨before, [], [], []⟩ [] [] [])
    (hids : ((before ++ vs).map Var.id).Nodup) (hd : s.draft.Distinct held) :
    s'.draft.Distinct held := by
  induction vs generalizing s before with
  | nil =>
    obtain ⟨-, rfl⟩ := Step.pure_eq_ok.1 h
    exact hd
  | cons v rest ih =>
    simp only [lowerInputs, Step.bind_eq_ok] at h
    obtain ⟨x, s₁, hx, h⟩ := h
    cases hshape : env.symbols.renderShape? v.type with
    | none =>
      simp only [hshape] at h
      obtain ⟨_, _, h, -⟩ := Step.bind_eq_ok.1 h
      exact (Step.throw_eq_ok.1 h).elim
    | some shape =>
      simp only [hshape, Step.bind_eq_ok] at h
      obtain ⟨_, s₂, hinput, hrest⟩ := h
      have hv := hs.name?_eq_none_of_input hids
      exact ih hrest (lowered_addInput hx (hsymbols ▸ hshape) hinput hs hv) (by simpa using hids)
        (Lower.distinct_addInput hinput (Lower.distinct_outputName hx hv hd))

theorem distinct_lowerConstants {cs : List (Var × Tensor)} (h : lowerConstants cs s = .ok u s')
    (hd : s.draft.Distinct held) : s'.draft.Distinct held := by
  induction cs generalizing s with
  | nil =>
    obtain ⟨-, rfl⟩ := Step.pure_eq_ok.1 h
    exact hd
  | cons c rest ih =>
    simp only [lowerConstants, Step.bind_eq_ok, Step.modify_eq_ok] at h
    obtain ⟨x, s₁, hx, _, s₂, rfl, hrest⟩ := h
    have hgrows := (Lower.draft_addConstant hx hd.tidy).1
    exact ih hrest ((hd.grows hgrows).congr rfl (List.Subset.refl _))

theorem distinct_declareOutput {a : Atom} (h : declareOutput a s = .ok u s')
    (hd : s.draft.Distinct held) :
    s'.draft.Distinct held := by
  obtain ⟨x, s₁, hx, hcases⟩ := declareOutput_cases h
  have hd₁ := hd.grows (Lower.draft_inputName hx hd.tidy).1
  rcases hcases with ⟨-, hs'⟩ | ⟨-, out, s₂, node, s₃, s₄, hout, hnode, hadd, hs'⟩
  · rw [hs']
    exact hd₁.congr rfl (List.Subset.refl _)
  · have hd₃ : s₃.draft.Distinct (node :: out :: held) :=
      Lower.distinct_uniqueName hnode (Lower.distinct_uniqueName hout hd₁)
    have hd₄ : s₄.draft.Distinct held := Lower.distinct_addNode hadd (hd₃.of_subperm
      (List.Perm.append_right _ (List.Perm.swap node out held)).subperm (List.Subset.refl _))
    rw [hs']
    exact hd₄.congr rfl (List.Subset.refl _)

theorem distinct_declareOutputs {atoms : List Atom} (h : atoms.forM declareOutput s = .ok u s')
    (hd : s.draft.Distinct held) : s'.draft.Distinct held := by
  induction atoms generalizing s with
  | nil =>
    obtain ⟨-, rfl⟩ := Step.pure_eq_ok.1 h
    exact hd
  | cons a rest ih =>
    simp only [List.forM, Step.bind_eq_ok] at h
    obtain ⟨_, s₁, hdeclare, hrest⟩ := h
    exact ih hrest (distinct_declareOutput hdeclare hd)

/-! ## Equations -/

/-- A lowering of calls keeps names distinct. -/
def CallLowering.KeepsDistinct (program : Program) (settings : Params) (symbols : SymbolTable)
    (index : Nat) (call : CallLowering) : Prop :=
  ∀ ⦃site : Site⦄ ⦃e : Equation⦄ ⦃s s' : Lowering⦄ ⦃u : Unit⦄ ⦃held : List String⦄,
    call site e s = .ok u s' →
    e.callee? = some index → s.draft.shared.Sound program settings symbols →
    (∀ v ∈ e.outputs, s.draft.name? v.id = none) → (e.outputs.map Var.id).Nodup →
    (∀ x, x ∉ s.draft.names.used → s.draft.level.info? x = none) → s.draft.Distinct held →
    s'.draft.Distinct held

/-- All lowerings of calls do so. -/
def CallsKeepDistinct (program : Program) (settings : Params) (symbols : SymbolTable)
    (calls : List CallLowering) : Prop :=
  ∀ (index : Nat) (call : CallLowering), calls[index]? = some call →
    CallLowering.KeepsDistinct program settings symbols index call

theorem distinct_lowerPrimitive {env : Environment}
    (henv : env.handler? = Registry.builtin.handler?) {site : Site} {e : Equation}
    (h : lowerPrimitive env site e s = .ok u s')
    (hnames : ∀ v ∈ e.outputs, s.draft.name? v.id = none) (hd : s.draft.Distinct held) :
    s'.draft.Distinct held := by
  obtain ⟨op, a, b, v, s₁, x, s₂, y, s₃, z, s₄, nodeName, s₅, -, -, houtputs, hs₁, hx, hy, hz,
    hnode, hadd⟩ :=
    lowerPrimitive_cases henv h
  rw [← hs₁] at hnames hd
  have hgrows₁ := (Lower.draft_inputName hx hd.tidy).1
  have hgrows := hgrows₁.trans (Lower.draft_inputName hy hgrows₁.tidy).1
  have hv : s₃.draft.name? v.id = none := by
    rw [hgrows.name?_eq]
    exact hnames v (by simp [houtputs])
  have hd₅ : s₅.draft.Distinct (nodeName :: z :: held) :=
    Lower.distinct_uniqueName hnode (Lower.distinct_outputName hz hv (hd.grows hgrows))
  exact Lower.distinct_addNode hadd (hd₅.of_subperm
    (List.Perm.append_right _ (List.Perm.swap nodeName z held)).subperm (List.Subset.refl _))

/-- Recording the types of outputs changes nothing but records. -/
theorem exists_records_recordOutputs {env : Environment} {primitive : String} {vs : List Var}
    (h : recordOutputs env primitive vs s = .ok u s') :
    ∃ records, s'.draft = s.draft.withRecords records := by
  induction vs generalizing s with
  | nil =>
    obtain ⟨-, rfl⟩ := Step.pure_eq_ok.1 h
    exact ⟨_, rfl⟩
  | cons v rest ih =>
    rw [recordOutputs, Step.get_bind_eq_ok] at h
    cases hname : s.draft.name? v.id with
    | none =>
      rw [if_pos (by simp [Lowering.nameOf?_eq, hname])] at h
      obtain ⟨_, _, h, -⟩ := Step.bind_eq_ok.1 h
      exact (Step.throw_eq_ok.1 h).elim
    | some x =>
      rw [if_neg (by simp [Lowering.nameOf?_eq, hname]), Step.bind_eq_ok] at h
      obtain ⟨_, s₁, hrecord, hrest⟩ := h
      obtain ⟨records, hs'⟩ := ih hrest
      rcases Lower.draft_recordVar hrecord hname with ⟨-, hs₁⟩ | ⟨_, _, _, -, -, hs₁, -⟩
      · exact ⟨records, by rw [hs', hs₁]⟩
      · exact ⟨records, by rw [hs', hs₁]; rfl⟩

theorem distinct_lowerEquation {env : Environment} (henv : env.handler? = Registry.builtin.handler?)
    {calls : List CallLowering} (hcalls : CallsKeepDistinct program settings symbols calls)
    {site : Site} {e : Equation} (h : lowerEquation env calls site e s = .ok u s')
    (hs : s.draft.shared.Sound program settings symbols)
    (hnames : ∀ v ∈ e.outputs, s.draft.name? v.id = none) (hids : (e.outputs.map Var.id).Nodup)
    (hinfo : ∀ x, x ∉ s.draft.names.used → s.draft.level.info? x = none)
    (hd : s.draft.Distinct held) :
    s'.draft.Distinct held := by
  rcases lowerEquation_cases h with ⟨s₁, hcallee, hprimitive, hrecord⟩ |
    ⟨s₁, index, call, hcallee, hcall, hlower, hrecord⟩
  · obtain ⟨records, hs'⟩ := exists_records_recordOutputs hrecord
    rw [hs']
    exact (distinct_lowerPrimitive henv hprimitive hnames hd).withRecords records
  · obtain ⟨records, hs'⟩ := exists_records_recordOutputs hrecord
    rw [hs']
    exact (hcalls index call hcall hlower hcallee hs hnames hids hinfo hd).withRecords records

theorem distinct_lowerEquations {env : Environment}
    (henv : env.handler? = Registry.builtin.handler?) (hsymbols : env.symbols = symbols)
    {calls : List CallLowering} (himplement : CallsImplement program settings symbols calls)
    (hcalls : CallsKeepDistinct program settings symbols calls) {site : Site} {index : Nat}
    {vs : List Var} {cs : List (Var × Tensor)} {es before : List Equation}
    (h : lowerEquations env calls site index es s = .ok u s')
    (hs : s.draft.Lowered program settings symbols base ⟨vs, cs, before, []⟩ body [] [])
    (hids : (Trace.given ⟨vs, cs, before ++ es, []⟩ ++ madeBy (before ++ es)).Nodup)
    (hd : s.draft.Distinct held) :
    s'.draft.Distinct held := by
  induction es generalizing s before body index with
  | nil =>
    obtain ⟨-, rfl⟩ := Step.pure_eq_ok.1 h
    exact hd
  | cons e rest ih =>
    simp only [lowerEquations, Step.bind_eq_ok, Lower.locate_eq_ok] at h
    obtain ⟨_, s₁, hequation, hrest⟩ := h
    have hnames := hs.name?_eq_none_of_equation hids
    have hmade := nodup_outputs_of_nodup_madeBy hids
    obtain ⟨n, placed, hn, hagrees⟩ := places_lowerEquation henv hsymbols himplement hequation
      hs.sound hnames hmade hs.info?_eq_none
    exact ih hrest (hs.addEquation hn hagrees hnames) (by simpa using hids)
      (distinct_lowerEquation henv hcalls hequation hs.sound hnames hmade hs.info?_eq_none hd)

/-- Lowering a trace into an empty level keeps names distinct. -/
theorem distinct_lowerTrace {env : Environment} (henv : env.handler? = Registry.builtin.handler?)
    (hsymbols : env.symbols = symbols) {calls : List CallLowering}
    (himplement : CallsImplement program settings symbols calls)
    (hcalls : CallsKeepDistinct program settings symbols calls) {site : Site}
    (h : lowerTrace env calls site t s = .ok u s')
    (hs : s.draft.Lowered program settings symbols base ⟨[], [], [], []⟩ [] [] [])
    (hids : (t.given ++ madeBy t.equations).Nodup) (hd : s.draft.Distinct held) :
    s'.draft.Distinct held := by
  simp only [lowerTrace, Step.bind_eq_ok, Lower.locate_eq_ok] at h
  obtain ⟨_, s₁, hinputs, _, s₂, hconstants, _, s₃, hequations, houtputs⟩ := h
  have hgiven := (List.nodup_append.1 hids).1
  have hs₁ := lowered_lowerInputs hsymbols hinputs hs (List.nodup_append.1 hgiven).1
  have hs₂ := lowered_lowerConstants hconstants hs₁ hgiven
  have hd₁ := distinct_lowerInputs hsymbols hinputs hs (List.nodup_append.1 hgiven).1 hd
  have hd₂ := distinct_lowerConstants hconstants hd₁
  have hd₃ := distinct_lowerEquations henv hsymbols himplement hcalls hequations hs₂ hids hd₂
  exact distinct_declareOutputs houtputs hd₃

/-! ## Calls -/

/-- While a nested level is built, the names of the outer one are held. The new functions of the
nested level are held until the outer level takes them over. -/
theorem distinct_nested {env : Environment} (henv : env.handler? = Registry.builtin.handler?)
    (hsymbols : env.symbols = symbols) {calls : List CallLowering}
    (himplement : CallsImplement program settings symbols calls)
    (hcalls : CallsKeepDistinct program settings symbols calls) {name : String} {site : Site}
    {sub : Level}
    (h : Lower.nested name (do lowerTrace env calls site t; resolveOutputs env site) s = .ok sub s')
    (hs : s.draft.shared.Sound program settings symbols)
    (hids : (t.given ++ madeBy t.equations).Nodup) (hd : s.draft.Distinct held) :
    ∃ new, sub.functions = s.draft.level.functions ++ new ∧
      s'.draft.Distinct (new.map Function.name ++ held) := by
  obtain ⟨inner, hinner, rfl, hs'⟩ := Lower.draft_nested h
  simp only [Step.bind_eq_ok] at hinner
  obtain ⟨_, inner₁, htrace, hresolve⟩ := hinner
  have hempty :=
    Draft.lowered_empty (d := (s.nest name).draft) (.refl s.draft.shared) hs rfl rfl rfl rfl rfl rfl
  obtain ⟨body, tail, decls, hlowered⟩ :=
    lowered_lowerTrace henv hsymbols himplement htrace hempty hids
  obtain ⟨records, hinner, -⟩ := translates_resolveOutputs hsymbols hresolve hlowered
  have hchild : Draft.Distinct (s.draft.level.inputs ++ nodeNames s.draft.level.nodes ++ held)
      (s.nest name).draft := by
    refine hd.of_subperm (List.subperm_ext_iff.2 fun x _ => ?_) (List.Subset.refl _)
    simp only [Draft.declared, Lowering.nest, Lowering.draft, Builder.child, Level.empty, nodeNames,
      List.flatMap_nil, List.nil_append, List.count_append]
    omega
  have hinner₁ := distinct_lowerTrace henv hsymbols himplement hcalls htrace hempty hids hchild
  obtain ⟨new, hnew⟩ : s.draft.level.functions <+: inner₁.draft.level.functions :=
    hlowered.le.functions
  refine ⟨new, by rw [hinner]; exact hnew.symm, ?_⟩
  rw [hs', hinner]
  refine hinner₁.of_subperm (List.subperm_ext_iff.2 fun x _ => ?_) (List.Subset.refl _)
  simp only [Draft.declared, ← hnew, Draft.initializers_withRecords, List.map_append,
    List.count_append]
  omega

/-- The functions of a nested level are declared under held names. -/
theorem distinct_mergeFunctions {functions new : List Function}
    (h : Lower.build (Build.mergeFunctions functions) s = .ok u s')
    (hfunctions : functions = s.draft.level.functions ++ new)
    (hnodup : (functions.map Function.name).Nodup)
    (hd : s.draft.Distinct (new.map Function.name ++ held)) : s'.draft.Distinct held := by
  rw [Lower.draft_mergeFunctions h ⟨new, hfunctions.symm⟩ hnodup, hfunctions]
  refine hd.of_subperm (List.subperm_ext_iff.2 fun x _ => ?_) (List.Subset.refl _)
  simp only [Draft.declared, List.map_append, List.count_append]
  omega

/-- A new function is declared under a name that was free. -/
theorem distinct_functionFor {c : Callable} {callName x : String} {f : Function}
    (h : functionFor c callName f s = .ok x s') (hd : s.draft.Distinct held) :
    s'.draft.Distinct held := by
  rcases Lower.draft_functionFor h hd.tidy with ⟨g, -, -, -, hs'⟩ | ⟨-, hfree, pool, hpool, hs'⟩
  · rwa [hs']
  · have hheld : { s.draft with names := pool }.Distinct (x :: held) := hd.issue ⟨hfree, hpool⟩
    rw [hs']
    refine hheld.of_subperm (List.subperm_ext_iff.2 fun y _ => ?_) (List.Subset.refl _)
    simp only [Draft.declared, List.map_append, List.map_cons, List.map_nil, List.cons_append,
      List.count_append, List.count_cons, List.count_nil]
    omega

/-- The name of a call is held from its opening on. -/
theorem distinct_callOpens {c : Callable} {tracer : Tracer} {e : Equation} {callName : String}
    {data : List String} {t : Trace} (h : CallOpens c tracer e s callName data t s')
    (hs : s.draft.shared.Tidy) {held : List String} (hd : s.draft.Distinct held) :
    s'.draft.Distinct (callName :: held) := by
  cases h with
  | @intro s₁ s₂ s₃ _ _ _ _ said issued operands traced count =>
    obtain ⟨pool, hissues, hs₂⟩ := Lower.draft_instanceName issued
    rw [Lower.draft_sayHere said] at hissues hs₂
    have hgrows₂ : s.draft.Grows s₂.draft := hs₂ ▸ Draft.Grows.of_issues hs hissues
    rw [(Lower.draft_trace traced).1]
    exact (hs₂ ▸ hd.issue hissues : s₂.draft.Distinct _).grows
      (Lower.draft_inputNames operands hgrows₂.tidy).1

theorem keepsDistinct_lowerCall {env : Environment}
    (henv : env.handler? = Registry.builtin.handler?) (hsymbols : env.symbols = symbols)
    {calls : List CallLowering} (himplement : CallsImplement program settings symbols calls)
    (hcalls : CallsKeepDistinct program settings symbols calls) {index : Nat} {c : Callable} :
    CallLowering.KeepsDistinct program settings symbols index
      (lowerCall env c (c.tracer settings (Program.tracers settings (program.take index)))
        calls) := by
  intro site e s s' u held h hcallee hs hnames hids hinfo hd
  obtain ⟨callName, data, t, s₁, sub, s₂, s₃, outs, s₄, f, s₅,
    function, s₆, hopens, hnested, hs₃, hadopt, hf, hmerge, hfunction, hadd⟩ := lowerCall_cases h
  obtain ⟨hgrows₁, -, -, -, counts, counts', htrace⟩ := hopens.spec hs.toTidy
  have hd₁ := distinct_callOpens hopens hs.toTidy hd
  -- The nested level.
  have hs₁ := hs.grow hgrows₁.le hgrows₁.tidy (congrArg Level.functions hgrows₁.level)
  have hmade := (Callable.tracer_spec htrace).2.1
  obtain ⟨-, -, -, σ, -, hσ⟩ := nests_nested henv hsymbols himplement hnested hs₁ hmade
  obtain ⟨names, info, body, tail, decls, hsub⟩ := hσ.translates
  obtain ⟨new, hnew, hd₂⟩ := distinct_nested henv hsymbols himplement hcalls hnested hs₁ hmade hd₁
  have hgrows₃ : s.draft.Grows s₃.draft := hs₃ ▸ hgrows₁.trans hσ.grows
  -- The outputs of the call are held too.
  obtain ⟨hbinds₄, -, hfunctions₄, htable₄⟩ := binds_adoptOutputs_zip
    (hopens.length_outputs.symm.trans hsub.length_outputs.symm) hadopt hgrows₃.tidy
    (fun v hv => (hgrows₃.name?_eq _).trans (hnames v hv)) hids (hgrows₃.info_unused hinfo)
  have hd₄ : s₄.draft.Distinct (outs ++ (new.map Function.name ++ callName :: held)) :=
    Draft.Distinct.binds (hs₃ ▸ hd₂) hbinds₄ hfunctions₄ htable₄
  -- The functions of the nested level and its own one are declared, and then the node.
  have hfunctions : sub.functions = s₄.draft.level.functions ++ new := by
    rw [hfunctions₄, hgrows₃.level, ← hgrows₁.level, hnew]
  have hnodup : (sub.functions.map Function.name).Nodup := hσ.functions ▸ hσ.sound.functions_nodup
  have hd₅ : s₅.draft.Distinct (outs ++ callName :: held) :=
    distinct_mergeFunctions hmerge hfunctions hnodup (hd₄.of_subperm
      (by rw [← List.append_assoc, ← List.append_assoc]
          exact (List.Perm.append_right _ (List.Perm.append_right _ List.perm_append_comm)).subperm)
            (List.Subset.refl _))
  have hd₆ := distinct_functionFor hfunction hd₅
  obtain ⟨-, -, -, hnode⟩ := Lower.addCall_eq_ok.1 hadd
  exact Lower.distinct_addNode hnode hd₆

theorem callsKeepDistinct_callLowerings {env : Environment}
    (henv : env.handler? = Registry.builtin.handler?) (hsymbols : env.symbols = symbols) (n : Nat) :
    CallsKeepDistinct program settings symbols (callLowerings env settings (program.take n)) :=
  forall_callLowerings (fun index _ _ ih => keepsDistinct_lowerCall henv hsymbols
    (callsImplement_callLowerings henv hsymbols index) ih) n

/-! ## Programs -/

/-- Lowering a program declares every name once. -/
theorem distinct_lowerProgram {entry : Callable} {inputs : List InputSpec}
    {options : ConversionOptions} {name : String} {m : Model}
    (h : lowerProgram .builtin program entry inputs options (.start name) = .ok m s') :
    (m.graph.inputNames ++ nodeNames m.graph.nodes ++ m.graph.initializerNames ++
      m.functions.map Function.name).Nodup := by
  obtain ⟨settings, t, counts, said, lowered, resolved, body, tail, decls, records, -, htracer,
    hsaid, hlower, -, hresolved, htranslates, hfinish⟩ := lowerProgram_cases h
  have hsaid' : said.draft.Distinct [] := by
    rw [hsaid]
    have hnone : (Lowering.start name).draft.declared = [] := rfl
    exact ⟨by simp [hnone], by simp [hnone]⟩
  have hcalls := @callsKeepDistinct_callLowerings program settings (InputSpec.abstractAll inputs).1
    ⟨Registry.builtin.handler?, (InputSpec.abstractAll inputs).1⟩ rfl rfl program.length
  rw [List.take_length] at hcalls
  have hstart := Lowering.lowered_start program settings (InputSpec.abstractAll inputs).1 name
  rw [← hsaid] at hstart
  have hlowered :=
    distinct_lowerTrace rfl rfl
      (callsImplement_builtin program settings (InputSpec.abstractAll inputs).1) hcalls hlower
      hstart (Callable.tracer_spec htracer).2.1 hsaid'
  have hfinishes := Lower.finishes_finish hfinish htranslates.nodup_inputs_outputs
  have hdeclared : m.graph.inputNames ++ nodeNames m.graph.nodes ++ m.graph.initializerNames ++
      m.functions.map Function.name = resolved.draft.declared := by
    rw [hfinishes.inputNames_eq, hfinishes.initializerNames_eq, hfinishes.nodes,
      hfinishes.functions]
    rfl
  rw [hdeclared, hresolved]
  simpa using (hlowered.withRecords records).nodup

end

end TensorGraph
