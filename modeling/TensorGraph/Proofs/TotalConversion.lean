import TensorGraph.Proofs.Totality

/-!
# Conversion of programs that can be traced

Where a callable can be traced its calls can be lowered (`succeeds_lowerCall`) : the nested level is
that of a typed trace, its outputs have records, and its functions merge into those of the outer
level. So a program that is made of constants, literals, the arithmetic primitives and calls is
converted wherever its entry can be traced (`exists_convert_iff`).
-/

namespace TensorGraph

open Step

/-! ## Nested levels -/

section Nested

variable {program : Program} {settings : Params} {symbols : SymbolTable} {s s' : Lowering}

namespace Lower

theorem succeeds_trace {name : String} {tracer : Tracer} {args : List TraceArg} {t : Trace}
    {counts : Counts} (h : tracer (args.map TraceArg.type) s.counts = .ok (t, counts)) :
    Succeeds (trace name tracer args) s := by
  refine (succeeds_modify _).bind fun _ s₁ h₁ => (succeeds_say _ _).bind fun _ s₂ h₂ => ?_
  obtain rfl := modify_eq_ok.1 h₁
  obtain rfl := say_eq_ok.1 h₂
  rw [succeeds_get_bind]
  simp only [h]
  exact (succeeds_modify _).bind fun _ _ _ => succeeds_pure _

theorem succeeds_nested {name : String} {x : Lower Unit}
    (h : Succeeds x { s with builder := s.builder.child name, bindings := [], sources := [] }) :
    Succeeds (nested name x) s := by
  rw [nested, succeeds_get_bind]
  refine Succeeds.bind ⟨_, _, rfl⟩ fun _ s₁ h₁ => ?_
  obtain rfl := set_eq_ok.1 h₁
  exact h.bind fun _ inner _ =>
    succeeds_get_bind.2 (Succeeds.bind ⟨_, _, rfl⟩ fun _ _ _ => succeeds_pure _)

/-- The outputs of a nested level with records are taken over. -/
theorem succeeds_adoptOutputs {sub : Level} {pairs : List (Var × String)} (hs : s.draft.shared.Tidy)
    (hnames : ∀ p ∈ pairs, s.draft.name? p.1.id = none)
    (hids : ((pairs.map Prod.fst).map Var.id).Nodup)
    (hinfo : ∀ x, x ∉ s.draft.names.used → s.draft.level.info? x = none)
    (hrecords : ∀ p ∈ pairs, (sub.record? p.2).isSome) : Succeeds (adoptOutputs sub pairs) s := by
  induction pairs generalizing s with
  | nil => exact succeeds_pure []
  | cons p rest ih =>
    obtain ⟨v, inner⟩ := p
    obtain ⟨r, hr⟩ := Option.isSome_iff_exists.1 (hrecords (v, inner) (by simp))
    rw [List.map_cons, List.map_cons, List.nodup_cons] at hids
    have hv := hnames (v, inner) (by simp)
    rw [adoptOutputs]
    refine (succeeds_outputName v).bind fun x s₁ hx => ?_
    obtain ⟨hbinds₁, hlevel, -⟩ := binds_outputName hx hs hv
    simp only [hr]
    refine (succeeds_registerRecord ?_).bind fun _ s₂ hregister => ?_
    · rw [hlevel, hinfo x (hbinds₁.free x (by simp))]
      rfl
    · obtain ⟨hbinds₂, -⟩ := binds_adoptOutput hx hregister hs hv hinfo
      exact (ih hbinds₂.tidy (hbinds₂.name?_of_rest hnames hids.1) hids.2
        (hbinds₂.info_unused hinfo) fun p hp =>
          hrecords p (by simp [hp])).bind fun _ _ _ => succeeds_pure _

end Lower

/-! ## Functions -/

/-- A level whose outputs have records becomes a function. -/
theorem Level.exists_toFunction {l : Level} (name : String) (table : InitializerTable)
    (h : ∀ o ∈ l.outputs, (l.record? o).isSome) :
    ∃ f, l.toFunction name (l.referencedInitializers table) table = .ok f := by
  have hcaptured : ∀ x ∈ l.referencedInitializers table, x ∈ table.names :=
    fun x hx => (mem_referencedInitializers.1 hx).2
  obtain ⟨records, hrecords⟩ := exists_paramRecords hcaptured 0
  exact ⟨_, toFunction_eq_ok.2 ⟨h, records, hrecords, rfl⟩⟩

namespace Lower

/-- The functions that a nested level inherited are the same when they come back. -/
theorem succeeds_mergeFunctions {functions : List Function}
    (hinherits : s.draft.level.functions <+: functions)
    (hnodup : (functions.map Function.name).Nodup)
    (hsame : ∀ f ∈ s.draft.level.functions, f.sameBody f = true) :
    Succeeds (build (Build.mergeFunctions functions)) s := by
  obtain ⟨new, rfl⟩ := hinherits
  have hknown : ∀ known : List Function, (∀ f ∈ known, f ∈ s.builder.level.functions) →
      Build.mergeFunctions known s.builder = .ok () s.builder := by
    intro known hmem
    induction known with
    | nil => rfl
    | cons f rest ih =>
      have hf := hmem f (by simp)
      have hfind : s.builder.level.function? f.name = some f := by
        rw [List.map_append] at hnodup
        exact findFunction?_of_mem (List.nodup_append.1 hnodup).1 hf
      exact Build.mergeFunctions_cons_eq_ok.2
        (Or.inl ⟨f, hfind, hsame f hf, ih fun g hg => hmem g (by simp [hg])⟩)
  obtain ⟨log, hlog⟩ := Build.mergeFunctions_new hnodup
  exact succeeds_build.2 ⟨(), _, Build.mergeFunctions_append_eq_ok.2
    ⟨_, hknown _ fun f hf => hf, hlog⟩⟩

theorem succeeds_functionFor (c : Callable) (callName : String) (f : Function)
    (hs : s.draft.shared.Tidy) :
    Succeeds (functionFor c callName f) s := by
  rw [functionFor, succeeds_get_bind]
  cases s.builder.level.functionWithBody? f with
  | some known => exact (succeeds_sayHere _ _).bind fun _ _ _ => succeeds_pure known
  | none =>
    refine (succeeds_instanceName _).bind fun name s₁ hname =>
      (succeeds_say _ _).bind fun _ s₂ hsay => ?_
    obtain ⟨pool, hissues, hs₁⟩ := draft_instanceName hname
    have hlevel : s₂.builder.level = s.builder.level :=
      congrArg Draft.level ((draft_say hsay).trans hs₁)
    have hfind : s₂.builder.level.function? name = none := by
      refine findFunction?_eq_none_iff.2 fun g hg hgname => hissues.free ?_
      rw [hlevel] at hg
      exact hgname ▸ hs.functions_used g hg
    refine succeeds_build.2 ?_
    simp only [Succeeds, Build.registerFunction, hfind]
    exact ⟨_, _, rfl⟩

end Lower

/-- A call of a function of the table that passes what it takes is appended under a name that no
node has. -/
theorem Lower.succeeds_addCall {f : Function} {data params outputs : List String}
    {nodeName displayName : String} (hs : s.draft.shared.Tidy) (hf : f ∈ s.draft.level.functions)
    (hcount : (data ++ params).length = f.inputs.length)
    (hnodes : ∀ m ∈ s.draft.level.nodes, m.name ≠ nodeName) :
    Succeeds (build (Build.addCall f.name data params outputs nodeName displayName)) s := by
  obtain ⟨_, s', hs'⟩ := @succeeds_addNode s
    { Node.plain f.name nodeName (data ++ params) outputs with
      domain := functionDomain, displayName := some displayName } hnodes
  exact ⟨_, s', addCall_eq_ok.2 ⟨f, findFunction?_of_mem hs.functions_nodup hf, hcount, hs'⟩⟩

end Nested

/-! ## Calls -/

section Calls

variable {program : Program} {settings : Params} {symbols : SymbolTable} {env : Environment}
  {calls : List CallLowering} (henv : env.handler? = Registry.builtin.handler?)
  (hsymbols : env.symbols = symbols) (harith : ∀ c ∈ program, c.IsArithmetic)
  (hrepeat : program.Repeatable settings)

include henv hsymbols harith hrepeat

/-- The trace of a callable is lowered into a nested level. -/
theorem succeeds_nested_lowerTrace {before after : Program} (hprogram : program = before ++ after)
    (hcalls : CallsImplement program settings symbols calls)
    (hsucceed : CallsSucceed program settings symbols (before.tracers settings) calls)
    {name : String} {site : Site} {t : Trace} (ht : t.Typed symbols (before.tracers settings))
    (hids : (t.given ++ madeBy t.equations).Nodup) {s : Lowering}
    (hs : s.draft.shared.Sound program settings symbols) :
    Succeeds (Lower.nested name (do lowerTrace env calls site t; resolveOutputs env site)) s := by
  have hempty := Draft.lowered_empty (d := Lowering.draft { s with
    builder := s.builder.child name, bindings := [], sources :=
      [] }) (.refl s.draft.shared) hs rfl rfl rfl rfl rfl rfl
  refine Lower.succeeds_nested ?_
  refine (succeeds_lowerTrace henv hsymbols harith hrepeat hprogram hcalls hsucceed ht hempty
    hids).bind fun _ s₁ htrace => ?_
  obtain ⟨body, tail, decls, hlowered⟩ := lowered_lowerTrace henv hsymbols hcalls htrace hempty hids
  exact succeeds_resolveOutputs hsymbols hlowered ht.outputs ht.rendered

omit henv hsymbols harith hrepeat in
/-- A call is opened where its operands are bound and its callee can be traced. -/
theorem exists_callOpens {c : Callable} {tracer : Tracer} {e : Equation} {t : Trace} {s : Lowering}
    (hs : s.draft.Accepts program settings symbols e)
    (htracer : ∀ counts, ∃ counts', tracer (e.inputs.map Atom.type) counts = .ok (t, counts'))
    (hcount : t.outputs.length = e.outputs.length) :
    ∃ callName data s', CallOpens c tracer e s callName data t s' := by
  obtain ⟨_, s₁, hsay⟩ := Lower.succeeds_sayHere (s := s) .debug ("nested call to " ++ c.name)
  have htidy₁ : s₁.draft.shared.Tidy := Lower.draft_sayHere hsay ▸ hs.sound.toTidy
  obtain ⟨callName, s₂, hcall⟩ := Lower.succeeds_instanceName (s := s₁) c.baseName
  obtain ⟨pool, hissues, hs₂⟩ := Lower.draft_instanceName hcall
  have hgrows₂ : s₁.draft.Grows s₂.draft := hs₂ ▸ Draft.Grows.of_issues htidy₁ hissues
  obtain ⟨data, s₃, hdata⟩ := Lower.succeeds_inputNames hgrows₂.tidy fun v hv => by
    rw [hgrows₂.name?_eq, Lower.draft_sayHere hsay]
    exact hs.reads v hv
  obtain ⟨counts, htrace⟩ := htracer s₃.counts
  rw [← map_type_exampleArg] at htrace
  obtain ⟨t', s₄, htraced⟩ :
      Succeeds (Lower.trace c.name tracer (e.inputs.map Atom.exampleArg)) s₃ :=
    Lower.succeeds_trace htrace
  obtain ⟨-, counts', htrace'⟩ := Lower.draft_trace htraced
  obtain rfl : t = t' := (Prod.mk.inj (Except.ok.inj (htrace.symm.trans htrace'))).1
  exact ⟨callName, data, s₄, .intro hsay hcall hdata htraced hcount⟩

omit henv hsymbols harith hrepeat in
/-- Once its outputs are taken over, a call becomes a node that calls the function of its level. -/
theorem succeeds_placeCall {index : Nat} {counts counts' : Counts} {c : Callable}
    (hc : program[index]? = some c) {e : Equation} {t : Trace}
    (htrace : c.tracer settings (Program.tracers settings (program.take index))
      (e.inputs.map Atom.type) counts = .ok (t, counts')) {d opened after : Draft} {sub : Level}
    {σ : Shared} (hσ : opened.Nests program settings symbols t sub σ after) {s : Lowering}
    {outs : List String} (hadopts : d.Adopts opened e.outputs sub σ outs s.draft)
    {callName : String} {data : List String} (hnodes : ∀ m ∈ d.level.nodes, m.name ≠ callName)
    (hdata : data.length = e.inputs.length) :
    Succeeds (do
      let f ← Lower.build (Build.ofExcept
        (sub.toFunction callName (sub.referencedInitializers σ.table) s.builder.initializers))
      Lower.build (Build.mergeFunctions sub.functions)
      let function ← functionFor c callName f
      Lower.build (Build.addCall function data (sub.referencedInitializers σ.table) outs callName
        c.name)) s := by
  obtain ⟨names, info, body, tail, decls, hsub⟩ := hσ.translates
  obtain ⟨f, hf⟩ := sub.exists_toFunction callName σ.table fun o ho => hsub.isSome_record?_output ho
  have htable : s.builder.initializers = σ.table := hadopts.table
  rw [htable, hf]
  refine succeeds_bind_of_eq_ok (show Lower.build (Build.ofExcept (.ok f)) s = .ok f s from rfl) ?_
  refine (Lower.succeeds_mergeFunctions hadopts.inherits (hσ.functions ▸ hσ.sound.functions_nodup)
    fun g hg => ?_).bind fun _ s₁ hmerge => ?_
  · exact hσ.sound.sameBody_self (hσ.functions ▸ hadopts.inherits.subset hg)
  obtain ⟨hexpands₁, hle₁, hsound₁, hfunctions₁⟩ :=
    expands_mergeFunctions hmerge hσ.sound hσ.functions hadopts.inherits hadopts.table hadopts.used
      hadopts.binds.tidy
  refine (Lower.succeeds_functionFor c callName f hsound₁.toTidy).bind
    fun function s₂ hfunction => ?_
  obtain ⟨g, rfl, -, hexpands₂, hsound₂, himplements⟩ :=
    implements_functionFor hc htrace hσ.sound hsub hf hle₁ hsound₁ hfunctions₁ hfunction
  refine Lower.succeeds_addCall hsound₂.toTidy himplements.member ?_ fun m hm => hnodes m ?_
  · rw [himplements.length_inputs, List.length_append, List.length_map, hdata]
  · rwa [hexpands₂.nodes, hexpands₁.nodes, hadopts.binds.nodes] at hm

/-- A call of a callable can be lowered where the callable can be traced. -/
theorem succeeds_lowerCall {index : Nat} {c : Callable} (hc : program[index]? = some c)
    (hcalls : CallsImplement program settings symbols calls)
    (hsucceed :
      CallsSucceed program settings symbols (Program.tracers settings (program.take index)) calls) :
    CallLowering.Succeeds program settings symbols index
      (c.tracer settings (Program.tracers settings (program.take index)))
      (lowerCall env c (c.tracer settings (Program.tracers settings (program.take index)))
        calls) := by
  intro site e s counts counts' t hcallee htracer htypes hinputs hs
  have hids := (Callable.tracer_spec htracer).2.1
  have ht : t.Typed symbols (Program.tracers settings (program.take index)) :=
    Callable.typed_tracer (Program.renders_tracers fun c hc => harith c (List.mem_of_mem_take hc))
      (harith c (List.mem_of_getElem? hc)) htracer fun type htype => by
        obtain ⟨a, ha, rfl⟩ := List.mem_map.1 htype
        exact hinputs a ha
  have hcount : t.outputs.length = e.outputs.length := by
    simpa using (congrArg List.length htypes).symm
  obtain ⟨callName, data, s₁, hopens⟩ :=
    exists_callOpens (c := c) hs (hrepeat.exists_trace hc htracer) hcount
  obtain ⟨hgrows₁, hfree, -, hdata, -⟩ := hopens.spec hs.sound.toTidy
  have hsound₁ := hs.sound.grow hgrows₁.le hgrows₁.tidy (congrArg Level.functions hgrows₁.level)
  cases hopens with
  | intro said issued operands traced count =>
    rw [lowerCall]
    refine succeeds_bind_of_eq_ok said
      (succeeds_bind_of_eq_ok issued
        (succeeds_bind_of_eq_ok operands
          (succeeds_bind_of_eq_ok (Lower.issuedBy_eq_ok.2 traced) ?_)))
    rw [if_neg (not_not.2 count)]
    refine (succeeds_nested_lowerTrace henv hsymbols harith hrepeat
      (List.take_append_drop index program).symm hcalls hsucceed ht hids hsound₁).bind
      fun sub s₂ hnested => ?_
    obtain ⟨-, -, -, σ, -, hσ⟩ := nests_nested henv hsymbols hcalls hnested hsound₁ hids
    obtain ⟨names, info, body, tail, decls, hsub⟩ := hσ.translates
    have htable : s₂.builder.initializers = σ.table := hσ.table
    rw [succeeds_get_bind, htable]
    refine (Lower.succeeds_sayHere _ _).bind fun _ s₃ hsay => ?_
    rw [← Lower.draft_sayHere hsay] at hσ
    have hgrows₃ : s.draft.Grows s₃.draft := hgrows₁.trans hσ.grows
    have hfst : (e.outputs.zip sub.outputs).map Prod.fst = e.outputs :=
      List.map_fst_zip (Nat.le_of_eq (hcount.symm.trans hsub.length_outputs.symm))
    refine (Lower.succeeds_adoptOutputs hgrows₃.tidy (fun p hp => (hgrows₃.name?_eq _).trans
      (hs.names p.1 (List.of_mem_zip hp).1)) (by rw [hfst]; exact hs.nodup)
      (hgrows₃.info_unused hs.info) fun p hp =>
      hsub.isSome_record?_output (List.of_mem_zip hp).2).bind fun outs s₄ hadopt =>
        succeeds_get_bind.2 ?_
    have hadopts := hσ.adopts hgrows₁ hadopt hcount hs.names hs.nodup hs.info
    refine succeeds_placeCall hc htracer hσ hadopts
      (fun m hm hname => hfree (hname ▸ hs.nodes_used m hm)) ?_
    simpa using (congrArg List.length hdata).symm

/-- The calls of all callables of a program can be lowered where the callables can be traced. -/
theorem callsSucceed_callLowerings (n : Nat) : CallsSucceed program settings symbols
    (Program.tracers settings (program.take n)) (callLowerings env settings (program.take n)) := by
  induction n using Nat.strongRecOn with
  | ind n ih =>
    intro index name tracer h
    have hindex : index < (program.take n).length := by
      rw [← Program.length_tracers settings (program.take n)]
      exact (List.getElem?_eq_some_iff.1 h).1
    obtain ⟨c, hc⟩ : ∃ c, (program.take n)[index]? = some c := ⟨_, List.getElem?_eq_getElem hindex⟩
    rw [Program.getElem?_tracers hc] at h
    obtain ⟨rfl, rfl⟩ := Prod.mk.inj (Option.some.inj h)
    refine ⟨_, getElem?_callLowerings env settings hc, ?_⟩
    have hn : index < n := Nat.lt_of_lt_of_le hindex (List.length_take_le _ _)
    rw [List.take_take, Nat.min_eq_left (Nat.le_of_lt hn)]
    rw [List.getElem?_take_of_lt hn] at hc
    exact succeeds_lowerCall henv hsymbols harith hrepeat hc
      (callsImplement_callLowerings henv hsymbols index) (ih index hn)

end Calls

/-! ## Programs -/

/-- Names that differ are taken out if all of them have records. -/
theorem exists_takeRecords {names : List String} (hnodup : names.Nodup) {records : List ValueRecord}
    (h : ∀ x ∈ names, (findRecord? records x).isSome) :
    ∃ taken left, takeRecords names records = .ok (taken, left) := by
  have htaken : ∃ taken : List ValueRecord, taken.map some = names.map (findRecord? records) := by
    clear hnodup
    induction names with
    | nil => exact ⟨[], rfl⟩
    | cons x rest ih =>
      obtain ⟨r, hr⟩ := Option.isSome_iff_exists.1 (h x (by simp))
      obtain ⟨taken, htaken⟩ := ih fun y hy => h y (by simp [hy])
      exact ⟨r :: taken, by rw [List.map_cons, List.map_cons, htaken, hr]⟩
  obtain ⟨taken, htaken⟩ := htaken
  exact ⟨taken, _, (takeRecords_eq_ok hnodup).2 ⟨htaken, rfl⟩⟩

/-- A level whose inputs and outputs differ and have records becomes a model. -/
theorem Lower.succeeds_finish {s : Lowering} (modelName : String) (opset : Nat)
    (hnodup : (s.draft.level.inputs ++ s.draft.level.outputs).Nodup)
    (hinputs : ∀ x ∈ s.draft.level.inputs, (s.draft.level.record? x).isSome)
    (houtputs : ∀ x ∈ s.draft.level.outputs, (s.draft.level.record? x).isSome) :
    Succeeds (build (Build.finish modelName opset)) s := by
  obtain ⟨hin, hout, hdisjoint⟩ := List.nodup_append.1 hnodup
  obtain ⟨inputs, left, htake⟩ := exists_takeRecords hin hinputs
  obtain ⟨-, rfl⟩ := (takeRecords_eq_ok hin).1 htake
  have hleft : ∀ x ∈ s.draft.level.outputs, (findRecord? (s.draft.level.records.filter fun r =>
      !s.draft.level.inputs.contains r.name) x).isSome := fun x hx => by
    rw [findRecord?_filter fun r hr => ?_]
    · exact houtputs x hx
    · simpa [hr] using fun hmem => hdisjoint x hmem x hx rfl
  obtain ⟨outputs, left', htake'⟩ := exists_takeRecords hout hleft
  refine succeeds_build.2 (succeeds_get_bind.2 ?_)
  simp only [Succeeds, bind_eq_ok, Build.ofExcept_eq_ok, set_eq_ok, pure_eq_ok]
  exact ⟨_, _, (inputs, _), _, ⟨htake, rfl⟩, (outputs, left'), _, ⟨htake', rfl⟩, (), _, rfl,
    rfl, rfl⟩

/-- An arithmetic program is lowered where its entry can be traced. -/
theorem succeeds_lowerProgram {program : Program} {entry : Callable} {inputs : List InputSpec}
    {options : ConversionOptions} {settings : Params} (harith : ∀ c ∈ program, c.IsArithmetic)
    (hentry : entry.IsArithmetic) (hrepeat : program.Repeatable settings)
    (hsettings : options.params = .ok settings) {t : Trace} {counts : Counts}
    (htrace :
      entry.tracer settings (program.tracers settings) (InputSpec.abstractAll inputs).2 .start =
        .ok (t, counts)) (name : String) :
    Succeeds (lowerProgram .builtin program entry inputs options) (.start name) := by
  obtain ⟨opened, hopened, hcounts, hsteps⟩ :=
    lowerProgram_eq_ok .builtin program entry inputs options (.start name)
  have hargs : ((InputSpec.abstractAll inputs).2.map TraceArg.abstract).map TraceArg.type =
      (InputSpec.abstractAll inputs).2 := by
    rw [List.map_map]
    exact List.map_id _
  have htrace₁ : entry.tracer settings (program.tracers settings)
      (((InputSpec.abstractAll inputs).2.map TraceArg.abstract).map TraceArg.type) opened.counts =
        .ok (t, counts) := by
    rw [hargs, hcounts]
    exact htrace
  obtain ⟨t', traced, htraced⟩ := @Lower.succeeds_trace opened entry.name _ _ _ _ htrace₁
  obtain ⟨hdraft, counts', htrace₂⟩ := Lower.draft_trace htraced
  obtain rfl : t = t' := (Prod.mk.inj (Except.ok.inj (htrace₁.symm.trans htrace₂))).1
  obtain ⟨_, said, hsay⟩ := Lower.succeeds_say (s := traced) .info
    ("Building graph (" ++ toString t.equations.length ++ " equations)")
  have hids := (Callable.tracer_spec htrace).2.1
  have ht := Callable.typed_tracer (Program.renders_tracers harith) hentry htrace
    (InputSpec.isSome_renderShape?_abstractAll inputs)
  have hempty : said.draft.Lowered program settings (InputSpec.abstractAll inputs).1
      ⟨[], .empty, []⟩ ⟨[], [], [], []⟩ [] [] [] := by
    rw [(Lower.draft_say hsay).trans (hdraft.trans hopened)]
    exact Draft.lowered_empty (.refl _) (Shared.sound_empty program settings _) rfl rfl rfl rfl
      rfl rfl
  let env : Environment := ⟨Registry.builtin.handler?, (InputSpec.abstractAll inputs).1⟩
  have hcalls := callsImplement_builtin program settings (InputSpec.abstractAll inputs).1
  have hsucceed :=
    @callsSucceed_callLowerings program settings (InputSpec.abstractAll inputs).1 env rfl rfl harith
      hrepeat program.length
  rw [List.take_length] at hsucceed
  have hlowers : Succeeds (lowerTrace env (callLowerings env settings program) .top t) said :=
    succeeds_lowerTrace rfl rfl harith hrepeat (List.append_nil program).symm hcalls hsucceed ht
      hempty hids
  obtain ⟨_, lowered, hlower⟩ := hlowers
  obtain ⟨body, tail, decls, hlowered⟩ := lowered_lowerTrace rfl rfl hcalls hlower hempty hids
  have hresolves : Succeeds (resolveOutputs env .top) lowered :=
    succeeds_resolveOutputs rfl hlowered ht.outputs ht.rendered
  obtain ⟨_, resolved, hresolve⟩ := hresolves
  obtain ⟨records, -, htranslates⟩ := translates_resolveOutputs rfl hresolve hlowered
  obtain ⟨m, s', hfinish⟩ :=
    Lower.succeeds_finish options.modelName options.opset htranslates.nodup_inputs_outputs
      (fun x hx => htranslates.isSome_record?_input hx) fun x hx =>
        htranslates.isSome_record?_output hx
  exact ⟨m, s', (hsteps m s').2 ⟨settings, hsettings, t, traced, htraced, said, hsay, lowered,
    hlower, resolved, hresolve, hfinish⟩⟩

/-- A program is converted where its entry can be traced. -/
theorem exists_convert_of_tracer {program : Program} {inputs : List InputSpec}
    {options : ConversionOptions} {settings : Params} {entry : Callable} {t : Trace}
    {counts : Counts} (harith : ∀ c ∈ program, c.IsArithmetic)
    (hsettings : options.params = .ok settings) (hrepeat : program.Repeatable settings)
    (hentry : program.getLast? = some entry)
    (htrace : entry.tracer settings (Program.tracers settings program.dropLast)
      (InputSpec.abstractAll inputs).2 .start = .ok (t, counts)) (optimizer : Optimizer) :
    ∃ m, (convert .builtin optimizer program inputs options).result = .ok m := by
  obtain ⟨lowered, s, hlowered⟩ := succeeds_lowerProgram
    (fun c hc => harith c ((List.dropLast_sublist program).subset hc))
    (harith entry (List.mem_of_getLast? hentry)) hrepeat.dropLast hsettings htrace options.modelName
  exact ⟨_, convert_eq_ok.2 ⟨entry, hentry, lowered, s, hlowered, rfl⟩⟩

theorem Example.isArithmetic_program : ∀ c ∈ program, c.IsArithmetic := by
  simp [program, double, quadruple, sixfold, Statement.isArithmetic, operation?]

theorem Example.exists_convert (optimizer : Optimizer) (options : ConversionOptions)
    (hsettings : options.params = .ok []) :
    ∃ m, (convert .builtin optimizer program inputs options).result = .ok m := by
  obtain ⟨t, counts, htrace⟩ := exists_trace
  exact exists_convert_of_tracer isArithmetic_program hsettings (repeatable_program []) rfl htrace
    optimizer

/-- A program that is made of constants, literals, arithmetic and calls, and whose callables record
the same trace again, is converted exactly where its entry can be traced. -/
theorem exists_convert_iff {optimizer : Optimizer} {program : Program} {inputs : List InputSpec}
    {options : ConversionOptions} {settings : Params} (harith : ∀ c ∈ program, c.IsArithmetic)
    (hsettings : options.params = .ok settings) (hrepeat : program.Repeatable settings) :
    (∃ m, (convert .builtin optimizer program inputs options).result = .ok m) ↔
      ∃ entry t counts, program.getLast? = some entry ∧
        entry.tracer settings (Program.tracers settings program.dropLast)
          (InputSpec.abstractAll inputs).2 .start = .ok (t, counts) := by
  constructor
  · rintro ⟨m, h⟩
    obtain ⟨entry, settings', t, counts, -, hentry, hsettings', htrace, -⟩ :=
      translates_of_convert h
    obtain rfl := Except.ok.inj (hsettings.symm.trans hsettings')
    exact ⟨entry, t, counts, hentry, htrace⟩
  · rintro ⟨entry, t, counts, hentry, htrace⟩
    exact exists_convert_of_tracer harith hsettings hrepeat hentry htrace optimizer

/-- The example is converted, since its entry can be traced. -/
theorem exists_convert_example :
    ∃ m, (convert .builtin .deadNodeElimination Example.program Example.inputs .default).result =
      .ok m := by
  obtain ⟨t, counts, htrace⟩ := Example.exists_trace
  exact (exists_convert_iff Example.isArithmetic_program rfl (Example.repeatable_program [])).2
    ⟨_, t, counts, rfl, htrace⟩

end TensorGraph
