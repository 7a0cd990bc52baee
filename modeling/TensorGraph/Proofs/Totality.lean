import TensorGraph.Proofs.Conversion
import TensorGraph.Proofs.TypedRecords

/-!
# Lowering typed traces succeeds

No step of lowering fails on a typed trace. For each step a lemma says when it succeeds, and the
lemma about what it does to the draft gives what the next step needs.
-/

namespace TensorGraph

/-! ## Steps that succeed -/

/-- The step gives a result. -/
def Step.Succeeds {ε σ α : Type} (x : EStateM ε σ α) (s : σ) : Prop :=
  ∃ a s', x s = .ok a s'

namespace Step

variable {ε σ α β : Type} {s : σ} {x : EStateM ε σ α} {f : α → EStateM ε σ β}

theorem succeeds_pure (a : α) : Succeeds (pure a : EStateM ε σ α) s :=
  ⟨a, s, rfl⟩

theorem succeeds_modify (f : σ → σ) : Succeeds (modify f : EStateM ε σ PUnit) s :=
  ⟨_, _, rfl⟩

theorem succeeds_get_bind {f : σ → EStateM ε σ β} :
    Succeeds ((get : EStateM ε σ σ) >>= f) s ↔ Succeeds (f s) s :=
  Iff.rfl

/-- A step gives a result, and the next one succeeds on it. -/
theorem succeeds_bind_of_eq_ok {a : α} {s' : σ} (hx : x s = .ok a s') (hf : Succeeds (f a) s') :
    Succeeds (x >>= f) s := by
  obtain ⟨b, s'', hb⟩ := hf
  exact ⟨b, s'', bind_eq_ok.2 ⟨a, s', hx, hb⟩⟩

/-- A step succeeds, and so does the next one in whatever state it leaves. -/
theorem Succeeds.bind (hx : Succeeds x s) (hf : ∀ a s', x s = .ok a s' → Succeeds (f a) s') :
    Succeeds (x >>= f) s := by
  obtain ⟨a, s', ha⟩ := hx
  exact succeeds_bind_of_eq_ok ha (hf a s' ha)

end Step

namespace Lower

open Step

variable {α : Type} {s s' : Lowering}

theorem succeeds_locate {site : Site} {x : Lower α} :
    Succeeds (locate site x) s ↔ Succeeds x s := by
  simp only [Succeeds, locate_eq_ok]

theorem succeeds_build {x : Build α} : Succeeds (build x) s ↔ Succeeds x s.builder := by
  simp only [Succeeds, build_eq_ok]
  exact ⟨fun ⟨a, _, b, h, _⟩ => ⟨a, b, h⟩, fun ⟨a, b, h⟩ => ⟨a, _, b, h, rfl⟩⟩

theorem succeeds_say (level : LogLevel) (message : String) : Succeeds (say level message) s :=
  ⟨(), _, say_eq_ok.2 rfl⟩

theorem succeeds_sayHere (level : LogLevel) (message : String) :
    Succeeds (sayHere level message) s :=
  ⟨(), _, sayHere_eq_ok.2 rfl⟩

theorem succeeds_uniqueName (base : String) : Succeeds (build (Build.uniqueName base)) s :=
  ⟨_, _, rfl⟩

theorem succeeds_instanceName (base : String) : Succeeds (build (Build.instanceName base)) s :=
  ⟨_, _, rfl⟩

theorem succeeds_outputName (v : Var) : Succeeds (outputName v) s := by
  rw [outputName, succeeds_get_bind]
  cases s.nameOf? v with
  | some name => exact succeeds_pure name
  | none =>
    exact (succeeds_uniqueName "var").bind fun _ _ _ => (succeeds_modify _).bind fun _ _ _ =>
      succeeds_pure _

theorem succeeds_addConstant (base : String) (t : Tensor) (hs : s.draft.shared.Tidy) :
    Succeeds (build (Build.addConstant base t)) s := by
  rw [succeeds_build]
  exact Build.exists_addConstant hs.table_used base t

/-- A variable that is read has to be bound. -/
theorem succeeds_inputName {a : Atom} (hs : s.draft.shared.Tidy)
    (ha : ∀ v, a = .var v → (s.draft.name? v.id).isSome) : Succeeds (inputName a) s := by
  cases a with
  | literal t => exact succeeds_addConstant "const" t hs
  | var v =>
    obtain ⟨x, hx⟩ := Option.isSome_iff_exists.1 (ha v rfl)
    have hname : s.nameOf? v = some x := hx
    rw [inputName, succeeds_get_bind, hname]
    exact succeeds_pure x

theorem succeeds_inputNames {atoms : List Atom} (hs : s.draft.shared.Tidy)
    (hatoms : ∀ v, .var v ∈ atoms → (s.draft.name? v.id).isSome) :
    Succeeds (atoms.mapM inputName) s := by
  induction atoms generalizing s with
  | nil => exact succeeds_pure []
  | cons a rest ih =>
    rw [List.mapM_cons]
    refine (succeeds_inputName hs fun v hv => hatoms v (by simp [hv])).bind fun x s₁ hx => ?_
    obtain ⟨hgrows, -⟩ := draft_inputName hx hs
    refine (ih hgrows.tidy fun v hv => ?_).bind fun _ _ _ => succeeds_pure _
    rw [hgrows.name?_eq]
    exact hatoms v (by simp [hv])

/-- A record is taken or passed over unless it conflicts. -/
theorem succeeds_registerRecord {r : ValueRecord}
    (h : (Info.offer? (s.draft.level.info? r.name) r.info).isSome) :
    Succeeds (build (Build.registerRecord r)) s := by
  rcases Build.registerRecord_spec r s.builder with ⟨hnone, -⟩ | ⟨i, records, log, -, hok, -⟩
  · have : Info.offer? (s.draft.level.info? r.name) r.info = none := hnone
    simp [this] at h
  · exact succeeds_build.2 ⟨(), _, hok⟩

theorem succeeds_addInput {x : String} {shape : List ShapeDim} {dtype : DType}
    (h : s.draft.level.info? x = none) :
    Succeeds (build (Build.addInput x shape dtype)) s := by
  refine succeeds_build.2 ((succeeds_modify _).bind fun _ b hb => ?_)
  obtain rfl := modify_eq_ok.1 hb
  refine succeeds_build.1 (succeeds_registerRecord (s := { s with builder := _ }) ?_)
  have hinfo : { s.builder.level with inputs := s.builder.level.inputs ++ [x] }.info? x = none := h
  simp [Lowering.draft, hinfo, Info.offer?]

theorem succeeds_addNode {n : Node} (h : ∀ m ∈ s.draft.level.nodes, m.name ≠ n.name) :
    Succeeds (build (Build.addNode n)) s :=
  ⟨(), _, addNode_eq_ok.2 ⟨h, rfl⟩⟩

end Lower

/-! ## Equations -/

/-- A level can take an equation : what it reads is bound, and its outputs are not. -/
structure Draft.Accepts (program : Program) (settings : Params) (symbols : SymbolTable) (d : Draft)
    (e : Equation) :
    Prop where
  sound : d.shared.Sound program settings symbols
  reads : ∀ v, .var v ∈ e.inputs → (d.name? v.id).isSome
  names : ∀ v ∈ e.outputs, d.name? v.id = none
  nodup : (e.outputs.map Var.id).Nodup
  info : ∀ x, x ∉ d.names.used → d.level.info? x = none
  nodes_used : ∀ n ∈ d.level.nodes, n.name ∈ d.names.used

section

open Step

variable {program : Program} {settings : Params} {symbols : SymbolTable} {env : Environment}
  {s s' : Lowering}

theorem exists_handler? {primitive : String} (h : (operation? primitive).isSome) :
    ∃ handler op, Registry.builtin.handler? primitive = some handler ∧
      (handler = .binary op ∨ handler = .pow ∧ op = "Pow") := by
  obtain ⟨op, hop⟩ := Option.isSome_iff_exists.1 h
  unfold operation? at hop
  split_ifs at hop with hadd hmul hpow
  · exact ⟨.binary "Add", "Add", by rw [hadd]; rfl, Or.inl rfl⟩
  · exact ⟨.binary "Mul", "Mul", by rw [hmul]; rfl, Or.inl rfl⟩
  · exact ⟨.pow, "Pow", by rw [hpow]; rfl, Or.inr ⟨rfl, rfl⟩⟩

/-- A node with two operands is emitted. -/
theorem succeeds_emitBinary (op : String) {a b : Atom} {v : Var} (hs : s.draft.shared.Tidy)
    (hreads : ∀ w, .var w ∈ [a, b] → (s.draft.name? w.id).isSome) (hv : s.draft.name? v.id = none)
    (hnodes : ∀ n ∈ s.draft.level.nodes, n.name ∈ s.draft.names.used) :
    Succeeds (HandlerCall.emitBinary op a b v) s := by
  unfold HandlerCall.emitBinary
  refine (Lower.succeeds_inputName hs fun w hw => hreads w (by simp [hw])).bind fun x s₁ hx => ?_
  obtain ⟨hgrows₁, -⟩ := Lower.draft_inputName hx hs
  refine (Lower.succeeds_inputName hgrows₁.tidy fun w hw => ?_).bind fun y s₂ hy => ?_
  · rw [hgrows₁.name?_eq]
    exact hreads w (by simp [hw])
  obtain ⟨hgrows₂, -⟩ := Lower.draft_inputName hy hgrows₁.tidy
  have hgrows := hgrows₁.trans hgrows₂
  refine (Lower.succeeds_outputName v).bind fun z s₃ hz =>
    (Lower.succeeds_uniqueName op).bind fun nodeName s₄ hnode => ?_
  obtain ⟨hbinds, hlevel, -⟩ := Lower.binds_outputName hz hgrows.tidy (by rw [hgrows.name?_eq, hv])
  obtain ⟨pool, hissues, hs₄⟩ := Lower.draft_uniqueName hnode
  refine Lower.succeeds_addNode fun m hm hname => hissues.free (hbinds.le.used (hgrows.le.used ?_))
  rw [hs₄] at hm
  have hm : m ∈ s.draft.level.nodes := by rwa [← hgrows.level, ← hlevel]
  have hname : m.name = nodeName := hname
  rw [← hname]
  exact hnodes m hm

/-- An equation of an arithmetic primitive gets its node. -/
theorem succeeds_lowerPrimitive (henv : env.handler? = Registry.builtin.handler?) {site : Site}
    {e : Equation} (hoperation : (operation? e.primitive).isSome) {a b : Atom} {v : Var}
    (hinputs : e.inputs = [a, b]) (houtputs : e.outputs = [v])
    (hs : s.draft.Accepts program settings symbols e) :
    Succeeds (lowerPrimitive env site e) s := by
  obtain ⟨handler, op, hhandler, hkind⟩ := exists_handler? hoperation
  unfold lowerPrimitive
  rw [henv, hhandler]
  refine (Lower.succeeds_sayHere _ _).bind fun _ s₁ hsay => ?_
  have hs₁ := Lower.draft_sayHere hsay
  have hemit : ∀ op, Succeeds (HandlerCall.emitBinary op a b v) s₁ := fun op => by
    refine succeeds_emitBinary op ?_ ?_ ?_ ?_
    · rw [hs₁]
      exact hs.sound.toTidy
    · rw [hs₁, ← hinputs]
      exact hs.reads
    · rw [hs₁]
      exact hs.names v (by simp [houtputs])
    · rw [hs₁]
      exact hs.nodes_used
  rw [hinputs, houtputs]
  rcases hkind with rfl | ⟨rfl, rfl⟩
  · exact hemit op
  · exact hemit "Pow"

theorem Info.isSome_offer? {existing : Option Info} {shape : List ShapeDim} {type : AbstractValue}
    {provenance : Provenance} (hshape : symbols.renderShape? type = some shape)
    (h : ∀ i, existing = some i → i.Says symbols type) :
    (offer? existing ⟨shape, type.dtype, provenance⟩).isSome := by
  cases existing with
  | none => rfl
  | some i =>
    obtain ⟨hstated, hdtype⟩ := h i rfl
    obtain rfl := Option.some.inj (hshape.symm.trans hstated)
    simp [offer?, hdtype]

/-- The types of bound variables are offered as records that do not conflict. -/
theorem succeeds_recordOutputs {primitive : String} {vs : List Var} {outs : List String}
    (houts : vs.map (fun v => s.draft.name? v.id) = outs.map some) (hnodup : outs.Nodup)
    (hstated : List.Forall₂ (fun v i => ∀ j, i = some j → j.Says env.symbols v.type) vs
      (outs.map s.draft.level.info?)) :
    Succeeds (recordOutputs env primitive vs) s := by
  induction vs generalizing s outs with
  | nil => exact succeeds_pure ()
  | cons v rest ih =>
    cases outs with
    | nil => simp at houts
    | cons x outs =>
      simp only [List.map_cons, List.cons.injEq] at houts
      obtain ⟨hx, houts⟩ := houts
      rw [List.nodup_cons] at hnodup
      rw [List.map_cons, List.forall₂_cons] at hstated
      rw [recordOutputs, succeeds_get_bind, if_neg (by simp [Lowering.nameOf?_eq, hx])]
      have hrecord : Succeeds (Lower.recordVar env.symbols v .recovered) s := by
        refine (Lower.succeeds_outputName v).bind fun y s₁ hy => ?_
        rcases Lower.draft_outputName hy with ⟨hname, rfl⟩ | ⟨hname, -⟩
        · obtain rfl : x = y := Option.some.inj (hx.symm.trans hname)
          cases hshape : env.symbols.renderShape? v.type with
          | none => exact Lower.succeeds_sayHere _ _
          | some shape => exact Lower.succeeds_registerRecord (Info.isSome_offer? hshape hstated.1)
        · simp [hx] at hname
      refine hrecord.bind fun _ s₁ hrecord => ?_
      have hstep : s₁.draft.name? = s.draft.name? ∧
          outs.map s₁.draft.level.info? = outs.map s.draft.level.info? := by
        rcases Lower.draft_recordVar hrecord hx with ⟨-, hs₁⟩ |
          ⟨shape, i, records, -, -, hs₁, hinfo⟩
        · rw [hs₁]
          exact ⟨rfl, rfl⟩
        · refine ⟨by rw [hs₁]; rfl, List.map_congr_left fun y hy => ?_⟩
          rw [hinfo, Function.update_of_ne (ne_of_mem_of_not_mem hy hnodup.1)]
      exact ih (by rwa [hstep.1]) hnodup.2 (by rw [hstep.2]; exact hstated.2)

/-- The records that come with the node of a typed equation say the types of the outputs. -/
theorem Emits.says_of_typed {σ : Shared} {table : InitializerTable} {names : Nat → Option String}
    {before after : Program} (hprogram : program = before ++ after)
    (harith : ∀ c ∈ program, c.IsArithmetic) (hrepeat : program.Repeatable settings) {e : Equation}
    {n : Node} {placed : List (Option Info)}
    (h : Emits program (Implements program settings symbols σ) table names e n placed)
    (he : e.Typed (before.tracers settings))
    (hinputs : ∀ a ∈ e.inputs, (symbols.renderShape? a.type).isSome) :
    List.Forall₂ (fun v i => ∀ j, i = some j → j.Says symbols v.type) e.outputs placed := by
  cases h with
  | primitive callee operation inputs outputs lhs rhs out =>
    rw [outputs]
    exact .cons (by simp) .nil
  | @call index c callee _ _ _ calls known inputs outputs target count =>
    obtain ⟨d, t, counts, counts', hd, ht, hstated⟩ :=
      target.infos_of_typed harith fun type htype => by
      obtain ⟨a, ha, rfl⟩ := List.mem_map.1 htype
      exact hinputs a ha
    have htypes : e.outputs.map Var.type = t.outputs.map Atom.type := by
      obtain ⟨inner, _, _, htrace, houtputs⟩ := he.exists_trace hprogram calls hd
      rw [houtputs, hrepeat.trace_unique hd htrace ht]
    have hstated' :
        List.Forall₂ (fun type i => ∃ j, i = some j ∧ j.Says symbols type) (e.outputs.map Var.type)
        callee.infos := by
      rw [htypes, List.forall₂_map_left_iff]
      exact hstated
    rw [List.forall₂_map_left_iff] at hstated'
    refine List.forall₂_map_right_iff.2 (hstated'.imp fun v i ⟨j, hj, hstated⟩ k hk => ?_)
    subst hj
    obtain rfl : j.adopted = k := by simpa using hk
    exact hstated

end

/-- A lowering of calls succeeds where the callee can be traced. -/
def CallLowering.Succeeds (program : Program) (settings : Params) (symbols : SymbolTable)
    (index : Nat) (tracer : Tracer) (lowerCall : CallLowering) : Prop :=
  ∀ ⦃site : Site⦄ ⦃e : Equation⦄ ⦃s : Lowering⦄ ⦃counts counts' : Counts⦄ ⦃inner : Trace⦄,
    e.callee? = some index →
    tracer (e.inputs.map Atom.type) counts = .ok (inner, counts') →
    e.outputs.map Var.type = inner.outputs.map Atom.type →
    (∀ a ∈ e.inputs, (symbols.renderShape? a.type).isSome) →
    s.draft.Accepts program settings symbols e → Step.Succeeds (lowerCall site e) s

/-- All callables that are known can be lowered where they can be traced. -/
def CallsSucceed (program : Program) (settings : Params) (symbols : SymbolTable)
    (known : List (String × Tracer)) (calls : List CallLowering) : Prop :=
  ∀ ⦃index : Nat⦄ ⦃name : String⦄ ⦃tracer : Tracer⦄, known[index]? = some (name, tracer) →
    ∃ lowerCall, calls[index]? = some lowerCall ∧
      CallLowering.Succeeds program settings symbols index tracer lowerCall

/-- Every variable of a lowered part of a trace is bound. -/
theorem Translation.isSome_names {program : Program} {symbols : SymbolTable} {targets : Targets}
    {σ : Shared} {names : Nat → Option String} {info : String → Option Info} {t : Trace}
    {inputs : List String} {body tail : List Node} {decls : List Declaration}
    (h : Translation program symbols targets σ names info t inputs body tail decls) {v : Var}
    (hv : v ∈ t.vars) :
    (names v.id).isSome := by
  rcases List.mem_append.1 hv with hv | hv
  · have hid : v.id ∈ t.given := by
      have := List.mem_map_of_mem (f := Var.id) hv
      rwa [List.map_append, List.map_map] at this
    obtain ⟨x, hx, -⟩ := h.exists_name_of_given hid
    simp [hx]
  · obtain ⟨e, he, hve⟩ := List.mem_flatMap.1 hv
    obtain ⟨x, -, hx⟩ :=
      exists_name_of_madeBy h.emits (List.mem_flatMap.2 ⟨e, he, List.mem_map_of_mem hve⟩)
    simp [hx]

section Traces

open Step

variable {program before after : Program} {settings : Params} {symbols : SymbolTable}
  {env : Environment} {calls : List CallLowering} {base : Shared} {t : Trace}
  {body tail : List Node} {decls : List Declaration} {d : Draft} {s s' : Lowering}

theorem Draft.Lowered.reads (h : d.Lowered program settings symbols base t body tail decls)
    {a : Atom} (ha : a.IsOneOf t.vars) {v : Var} (hv : a = .var v) : (d.name? v.id).isSome := by
  subst hv
  exact h.translation.isSome_names ha

theorem Draft.Lowered.accepts (h : d.Lowered program settings symbols base t body tail decls)
    {e : Equation} (hinputs : ∀ a ∈ e.inputs, a.IsOneOf t.vars)
    (hnames : ∀ v ∈ e.outputs, d.name? v.id = none) (hids : (e.outputs.map Var.id).Nodup) :
    d.Accepts program settings symbols e where
  sound := h.sound
  reads _ hv := h.reads (hinputs _ hv) rfl
  names := hnames
  nodup := hids
  info := h.info?_eq_none
  nodes_used := h.nodes_used

/-! ## Inputs, constants and outputs -/

theorem succeeds_lowerInputs (hsymbols : env.symbols = symbols) {site : Site} {vs done : List Var}
    (hs : s.draft.Lowered program settings symbols base ⟨done, [], [], []⟩ [] [] [])
    (hids : ((done ++ vs).map Var.id).Nodup)
    (hrendered : ∀ v ∈ vs, (symbols.renderShape? v.type).isSome) :
    Succeeds (lowerInputs env site vs) s := by
  induction vs generalizing s done with
  | nil => exact succeeds_pure ()
  | cons v rest ih =>
    obtain ⟨shape, hshape⟩ := Option.isSome_iff_exists.1 (hrendered v (by simp))
    have hv := hs.name?_eq_none_of_input hids
    refine (Lower.succeeds_outputName v).bind fun x s₁ hx => ?_
    obtain ⟨hbinds, hlevel, -⟩ := Lower.binds_outputName hx hs.sound.toTidy hv
    simp only [hsymbols, hshape]
    refine (Lower.succeeds_addInput ?_).bind fun _ s₂ hinput => ?_
    · rw [hlevel]
      exact hs.info?_eq_none x (hbinds.free x (by simp))
    · exact ih (lowered_addInput hx hshape hinput hs hv) (by simpa using hids) fun w hw =>
        hrendered w (by simp [hw])

theorem succeeds_lowerConstants {vs : List Var} {cs done : List (Var × Tensor)}
    (hs : s.draft.Lowered program settings symbols base ⟨vs, done, [], []⟩ [] [] [])
    (hids : (vs.map Var.id ++ (done ++ cs).map fun c => c.1.id).Nodup) :
    Succeeds (lowerConstants cs) s := by
  induction cs generalizing s done with
  | nil => exact succeeds_pure ()
  | cons c rest ih =>
    refine (Lower.succeeds_addConstant "const" c.2 hs.sound.toTidy).bind fun x s₁ hx =>
      (succeeds_modify _).bind fun _ s₂ hs₂ => ?_
    obtain rfl := modify_eq_ok.1 hs₂
    exact ih (lowered_addConstant hx hs (hs.name?_eq_none_of_constant hids)) (by simpa using hids)

theorem succeeds_declareOutput {a : Atom}
    (hs : s.draft.Lowered program settings symbols base t body tail decls) (ha : a.IsOneOf t.vars) :
    Succeeds (declareOutput a) s := by
  refine (Lower.succeeds_inputName hs.sound.toTidy fun v hv => hs.reads ha hv).bind
    fun x s₁ hx => ?_
  obtain ⟨hgrows, -⟩ := Lower.draft_inputName hx hs.sound.toTidy
  have hdeclare : ∀ out s, Succeeds (do
      Lower.build (Build.addOutput out)
      modify fun s => { s with sources := s.sources ++ [(x, a.type)] } :
        Lower Unit) s := fun out s =>
    (Lower.succeeds_build.2 (succeeds_modify _)).bind fun _ _ _ => succeeds_modify _
  rw [succeeds_get_bind]
  split
  · refine (Lower.succeeds_uniqueName "out").bind fun out s₂ hout =>
      (Lower.succeeds_uniqueName "Identity").bind fun node s₃ hnode => ?_
    obtain ⟨pool₂, hissues₂, hs₂⟩ := Lower.draft_uniqueName hout
    obtain ⟨pool₃, hissues₃, hs₃⟩ := Lower.draft_uniqueName hnode
    refine (Lower.succeeds_addNode fun m hm hname => ?_).bind fun _ s₄ _ => hdeclare out s₄
    have hname : m.name = node := hname
    have hm : m ∈ s.draft.level.nodes := by
      rw [hs₃, hs₂] at hm
      rwa [← hgrows.level]
    refine hissues₃.free ?_
    rw [hs₂, ← hname]
    exact (hissues₂.used _).2 (Or.inr (hgrows.le.used (hs.nodes_used m hm)))
  · exact hdeclare x s₁

theorem succeeds_declareOutputs {atoms done : List Atom}
    (hs : s.draft.Lowered program settings symbols base { t with outputs := done } body tail decls)
    (hatoms : ∀ a ∈ atoms, a.IsOneOf t.vars) : Succeeds (atoms.forM declareOutput) s := by
  induction atoms generalizing s done tail decls with
  | nil => exact succeeds_pure ()
  | cons a rest ih =>
    refine (succeeds_declareOutput hs (hatoms a (by simp))).bind fun _ s₁ hdeclare => ?_
    obtain ⟨tail', decls', hs₁⟩ := lowered_declareOutput hdeclare hs
    exact ih hs₁ fun b hb => hatoms b (by simp [hb])

/-! ## Records of declared outputs -/

theorem Level.exists_resolve {l : Level} {decl : Declaration} {i : Info}
    (h : resolution? symbols l.info? decl = some i) :
    ∃ r, l.resolve symbols decl.name decl.source (some decl.type) = .resolved r := by
  simp only [resolution?, Level.info?] at h
  unfold Level.resolve
  cases hname : l.record? decl.name with
  | some r => exact ⟨r, rfl⟩
  | none =>
    simp only [hname, Option.map_none] at h
    cases hshape : symbols.renderShape? decl.type <;> cases hsource : l.record? decl.source <;>
      simp only [hshape, hsource, Option.map_none, Option.map_some] at h
    · simp at h
    · next r => exact ⟨{ r with name := decl.name, provenance := .repaired }, by simp [hshape]⟩
    · next shape => exact ⟨⟨decl.name, shape, decl.type.dtype, .repaired⟩, by simp [hshape]⟩
    · next shape r =>
      split_ifs at h with htype
      exact ⟨⟨decl.name, shape, decl.type.dtype, .repaired⟩,
        by simp [hshape, ValueRecord.hasType_iff.2 htype]⟩

theorem Lower.succeeds_resolve {name source : String} {value? : Option AbstractValue} :
    Succeeds (build (Build.resolve symbols name source value?)) s := by
  refine succeeds_build.2 (succeeds_get_bind.2 ?_)
  dsimp only
  split
  · exact Succeeds.bind ⟨(), _, modify_eq_ok.2 rfl⟩ fun _ _ _ => succeeds_pure _
  · exact succeeds_pure _

theorem succeeds_resolveFrom (hsymbols : env.symbols = symbols) {index : Nat}
    {info : String → Option Info} (h : Resolves symbols s.draft.level.info? decls info)
    (hsources : ∀ i, s.draft.sources[index + i]? = decls[i]?.map fun decl =>
      (decl.source, decl.type)) :
    Succeeds (resolveFrom env index (decls.map Declaration.name)) s := by
  induction decls generalizing s index with
  | nil => exact succeeds_pure ()
  | cons decl rest ih =>
    cases h with
    | @cons _ _ _ _ i found next =>
      have hsource : s.sources[index]? = some (decl.source, decl.type) := hsources 0
      obtain ⟨r, hr⟩ := Level.exists_resolve found
      obtain ⟨hresolution, hoffer⟩ := Level.resolution?_of_resolve hr
      obtain rfl : i = r.info := Option.some.inj (found.symm.trans hresolution)
      rw [List.map_cons, resolveFrom, succeeds_get_bind]
      simp only [hsource, Option.map_some, Option.getD_some, hsymbols]
      refine Lower.succeeds_resolve.bind fun resolution s₁ hresolve => ?_
      obtain ⟨hs₁, rfl⟩ := Lower.draft_resolve hresolve
      simp only [hr]
      refine (Lower.succeeds_registerRecord ?_).bind fun _ s₂ hregister => ?_
      · rw [hs₁]
        exact Option.isSome_iff_exists.2 ⟨r.info, hoffer⟩
      obtain ⟨j, records, hoffer', hs₂, hinfo⟩ := Lower.draft_registerRecord hregister
      rw [hs₁] at hoffer' hs₂ hinfo
      obtain rfl : j = r.info := Option.some.inj (hoffer'.symm.trans hoffer)
      refine ih (by rwa [hinfo]) fun i => ?_
      rw [hs₂]
      simpa [Nat.add_assoc, Nat.add_comm 1] using hsources (i + 1)

theorem succeeds_resolveOutputs (hsymbols : env.symbols = symbols) {site : Site}
    (hs : s.draft.Lowered program settings symbols base t body tail decls)
    (houtputs : ∀ a ∈ t.outputs, a.IsOneOf t.vars)
    (hrendered : ∀ v ∈ t.vars, (symbols.renderShape? v.type).isSome) :
    Succeeds (resolveOutputs env site) s := by
  obtain ⟨info, hresolves⟩ := hs.translation.exists_resolves houtputs hrendered
  rw [resolveOutputs, succeeds_get_bind, Lower.succeeds_locate]
  have hdeclared : s.builder.level.outputs = decls.map Declaration.name := hs.outputs
  rw [hdeclared]
  exact succeeds_resolveFrom hsymbols hresolves fun i => by simp [hs.sources]

/-! ## Equations and traces -/

variable (henv : env.handler? = Registry.builtin.handler?) (hsymbols : env.symbols = symbols)
  (harith : ∀ c ∈ program, c.IsArithmetic) (hrepeat : program.Repeatable settings)
  (hprogram : program = before ++ after) (hcalls : CallsImplement program settings symbols calls)
  (hsucceed : CallsSucceed program settings symbols (before.tracers settings) calls)

include henv hsymbols harith hrepeat hprogram hcalls hsucceed

theorem succeeds_lowerEquation {site : Site} {e : Equation} (he : e.Typed (before.tracers settings))
    (hinputs : ∀ a ∈ e.inputs, (symbols.renderShape? a.type).isSome)
    (hs : s.draft.Accepts program settings symbols e) :
    Succeeds (lowerEquation env calls site e) s := by
  have hrecord : ∀ {s₁ n placed},
      s.draft.Places program settings symbols e n placed placed s₁.draft →
      Succeeds (recordOutputs env e.primitive e.outputs) s₁ := fun hn => by
    refine succeeds_recordOutputs hn.binds.outs_eq hn.binds.nodup ?_
    rw [hn.infos_eq, hsymbols]
    exact hn.emits.says_of_typed hprogram harith hrepeat he hinputs
  unfold lowerEquation
  cases he with
  | primitive callee operation inputs outputs =>
    simp only [callee]
    refine (succeeds_lowerPrimitive henv operation inputs outputs hs).bind fun _ s₁ hlower => ?_
    obtain ⟨n, hn⟩ := places_lowerPrimitive hlower henv callee hs.sound hs.names hs.info
    exact hrecord hn
  | @call index _ _ _ _ _ callee target trace outputs =>
    obtain ⟨lowerCall, hcall, hlowers⟩ := hsucceed target
    simp only [callee, hcall]
    refine (hlowers callee trace outputs hinputs hs).bind fun _ s₁ hlower => ?_
    obtain ⟨n, placed, hn⟩ :=
      hcalls index lowerCall hcall hlower callee hs.sound hs.names hs.nodup hs.info
    exact hrecord hn

theorem succeeds_lowerEquations {site : Site} {index : Nat} {vs : List Var}
    {cs : List (Var × Tensor)} {es done : List Equation}
    (hs : s.draft.Lowered program settings symbols base ⟨vs, cs, done, []⟩ body [] [])
    (hes : TypedFrom (before.tracers settings) (Trace.vars ⟨vs, cs, done, []⟩) es)
    (hrendered : ∀ v ∈ Trace.vars ⟨vs, cs, done ++ es, []⟩, (symbols.renderShape? v.type).isSome)
    (hids : (Trace.given ⟨vs, cs, done ++ es, []⟩ ++ madeBy (done ++ es)).Nodup) :
    Succeeds (lowerEquations env calls site index es) s := by
  induction es generalizing s done body index with
  | nil => exact succeeds_pure ()
  | cons e rest ih =>
    obtain ⟨hinputs, he, hrest⟩ := hes
    have hnames := hs.name?_eq_none_of_equation hids
    have hnodup := nodup_outputs_of_nodup_madeBy hids
    have hvars : Trace.vars ⟨vs, cs, done, []⟩ ⊆ Trace.vars ⟨vs, cs, done ++ e :: rest, []⟩ := by
      simp only [Trace.vars, List.flatMap_append, ← List.append_assoc]
      exact List.subset_append_left _ _
    refine Succeeds.bind (Lower.succeeds_locate.2 ?_) fun _ s₁ hequation => ?_
    · exact succeeds_lowerEquation henv hsymbols harith hrepeat hprogram hcalls hsucceed he
        (fun a ha => ((hinputs a ha).mono hvars).isSome_renderShape? hrendered)
        (hs.accepts hinputs hnames hnodup)
    · obtain ⟨n, placed, hn, hagrees⟩ := places_lowerEquation henv hsymbols hcalls
        (Lower.locate_eq_ok.1 hequation) hs.sound hnames hnodup hs.info?_eq_none
      refine ih (hs.addEquation hn hagrees hnames) ?_ (by simpa using hrendered)
        (by simpa using hids)
      simpa [Trace.vars] using hrest

/-- A typed trace is lowered into an empty level. -/
theorem succeeds_lowerTrace {site : Site} (ht : t.Typed symbols (before.tracers settings))
    (hs : s.draft.Lowered program settings symbols base ⟨[], [], [], []⟩ [] [] [])
    (hids : (t.given ++ madeBy t.equations).Nodup) : Succeeds (lowerTrace env calls site t) s := by
  have hgiven := (List.nodup_append.1 hids).1
  have hinputs : ∀ v ∈ t.inputs, (symbols.renderShape? v.type).isSome := fun v hv =>
    ht.rendered v (List.mem_append_left _ (List.mem_append_left _ hv))
  refine (succeeds_lowerInputs hsymbols hs (List.nodup_append.1 hgiven).1 hinputs).bind
    fun _ s₁ h₁ => ?_
  have hs₁ := lowered_lowerInputs hsymbols h₁ hs (List.nodup_append.1 hgiven).1
  refine (succeeds_lowerConstants hs₁ hgiven).bind fun _ s₂ h₂ => ?_
  have hs₂ := lowered_lowerConstants h₂ hs₁ hgiven
  refine (succeeds_lowerEquations henv hsymbols harith hrepeat hprogram hcalls hsucceed hs₂
    (by simpa [Trace.vars] using ht.equations) ht.rendered hids).bind fun _ s₃ h₃ => ?_
  obtain ⟨body, hs₃⟩ := lowered_lowerEquations henv hsymbols hcalls h₃ hs₂ hids
  exact Lower.succeeds_locate.2 (succeeds_declareOutputs hs₃ ht.outputs)

end Traces

end TensorGraph
