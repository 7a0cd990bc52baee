import TensorGraph.Proofs.Relabeling

/-!
# Lowering with renamed symbols

Two runs of lowering are compared, the second one with all symbols renamed. They go through the same
steps : a step either succeeds in both, and leaves the second state as the first one with its
symbols renamed, or it fails in both, with one kind and at one site (`Step.Alike`). The lemmas of
the first sections say this of the operations of building and lowering, the others follow the
lowering of a trace from its inputs to its outputs and into its calls (`alike_lowerTrace`,
`alike_callLowerings`). Logs and the messages of failures are not compared, for they tell the names.
-/

namespace TensorGraph

/-! ## Steps that are alike -/

/-- Two failures are of one kind and happen at one site. -/
structure Failure.Alike (e e' : Failure) : Prop where
  kind : e'.kind = e.kind
  site : e'.site = e.site

namespace Failure.Alike

variable {e e' : Failure}

theorem refl (e : Failure) : e.Alike e := ⟨rfl, rfl⟩

theorem locate (h : e.Alike e') (site : Site) : (e.locate site).Alike (e'.locate site) := by
  have hsite := h.site
  unfold Failure.locate
  cases he : e.site with
  | none =>
    rw [he] at hsite
    rw [hsite]
    exact ⟨h.kind, rfl⟩
  | some inner =>
    rw [he] at hsite
    rw [hsite]
    exact h

theorem issuedBy (h : e.Alike e') (issuer : String) :
    (e.issuedBy issuer).Alike (e'.issuedBy issuer) :=
  ⟨h.kind, h.site⟩

end Failure.Alike

namespace Step

variable {σ α β : Type} {R : σ → σ → Prop} {Q : α → α → Prop} {P : β → β → Prop}

/-- Two runs succeed with related values in related states, or they fail alike. -/
inductive ResultsAlike (R : σ → σ → Prop) (Q : α → α → Prop) :
    EStateM.Result Failure σ α → EStateM.Result Failure σ α → Prop where
  | ok {a a' : α} {s s' : σ} (value : Q a a') (state : R s s') :
      ResultsAlike R Q (.ok a s) (.ok a' s')
  | error {e e' : Failure} {s s' : σ} (failure : e.Alike e') :
      ResultsAlike R Q (.error e s) (.error e' s')

/-- Two steps have alike results from related states. -/
def Alike (R : σ → σ → Prop) (Q : α → α → Prop) (x x' : EStateM Failure σ α) : Prop :=
  ∀ s s', R s s' → ResultsAlike R Q (x s) (x' s')

theorem alike_pure {a a' : α} (h : Q a a') : Alike R Q (pure a) (pure a') :=
  fun _ _ hs => .ok h hs

theorem alike_throw {e e' : Failure} (h : e.Alike e') : Alike R Q (throw e) (throw e') :=
  fun _ _ _ => .error h

/-- What would come after a failure does not matter. -/
theorem alike_throw_bind {e e' : Failure} {f f' : α → EStateM Failure σ β} (h : e.Alike e') :
    Alike R P (throw e >>= f) (throw e' >>= f') :=
  fun _ _ _ => .error h

theorem alike_set {t t' : σ} (h : R t t') : Alike R Eq (set t : EStateM Failure σ PUnit) (set t') :=
  fun _ _ _ => .ok rfl h

theorem alike_modify {f f' : σ → σ} (h : ∀ s s', R s s' → R (f s) (f' s')) :
    Alike R Eq (modify f : EStateM Failure σ PUnit) (modify f') :=
  fun s s' hs => .ok rfl (h s s' hs)

theorem alike_get_bind {f f' : σ → EStateM Failure σ α}
    (h : ∀ s s', R s s' → Alike R Q (f s) (f' s')) :
    Alike R Q (get >>= f) (get >>= f') :=
  fun s s' hs => h s s' hs s s' hs

theorem Alike.bind {x x' : EStateM Failure σ α} {f f' : α → EStateM Failure σ β}
    (hx : Alike R Q x x') (hf : ∀ a a', Q a a' → Alike R P (f a) (f' a')) :
    Alike R P (x >>= f) (x' >>= f') := by
  intro s s' hs
  have h := hx s s' hs
  simp only [Bind.bind, EStateM.bind]
  generalize x s = result at h ⊢
  generalize x' s' = result' at h ⊢
  cases h with
  | ok value state => exact hf _ _ value _ _ state
  | error failure => exact .error failure

/-- Where the values of the first steps are equal, one value is enough to go on with. -/
theorem Alike.bindEq {x x' : EStateM Failure σ α} {f f' : α → EStateM Failure σ β}
    (hx : Alike R Eq x x') (hf : ∀ a, Alike R P (f a) (f' a)) : Alike R P (x >>= f) (x' >>= f') :=
  hx.bind fun a _ ha => ha ▸ hf a

theorem alike_mapM {f f' : α → EStateM Failure σ β} (h : ∀ a, Alike R Eq (f a) (f' a))
    (xs : List α) :
    Alike R Eq (xs.mapM f) (xs.mapM f') := by
  induction xs with
  | nil => exact alike_pure rfl
  | cons a xs ih =>
    rw [List.mapM_cons, List.mapM_cons]
    exact (h a).bindEq fun b => ih.bindEq fun bs => alike_pure rfl

theorem alike_forM {f f' : α → EStateM Failure σ PUnit} (h : ∀ a, Alike R Eq (f a) (f' a))
    (xs : List α) :
    Alike R Eq (xs.forM f) (xs.forM f') := by
  induction xs with
  | nil => exact alike_pure rfl
  | cons a xs ih => exact (h a).bindEq fun _ => ih

end Step

open Step

/-! ## States with renamed symbols -/

/-- The second builder is the first one with its symbols renamed, up to the log. -/
structure Builder.Relabels (r : String → String) (b b' : Builder) : Prop where
  names : b'.names = b.names
  initializers : b'.initializers = b.initializers
  level : b'.level = b.level.relabel r

/-- The second state is the first one with its symbols renamed, up to the log and the counts that no
step looks at. -/
structure Lowering.Relabels (r : String → String) (s s' : Lowering) : Prop where
  builder : s.builder.Relabels r s'.builder
  bindings : s'.bindings = s.bindings
  sources : s'.sources = s.sources
  counts : s'.counts = s.counts

variable {r : String → String} {α : Type} {Q : α → α → Prop}

theorem Builder.Relabels.function?_eq {b b' : Builder} (hb : b.Relabels r b') (name : String) :
    b'.level.function? name = (b.level.function? name).map (Function.relabel r) := by
  rw [hb.level]
  exact findFunction?_relabel b.level.functions name

/-- The two steps of building are alike, the second one with renamed symbols. -/
abbrev Build.Alike (r : String → String) (Q : α → α → Prop) (x x' : Build α) : Prop :=
  Step.Alike (Builder.Relabels r) Q x x'

/-- The two steps of lowering are alike, the second one with renamed symbols. -/
abbrev Lower.Alike (r : String → String) (Q : α → α → Prop) (x x' : Lower α) : Prop :=
  Step.Alike (Lowering.Relabels r) Q x x'

/-! ## Operations of building -/

namespace Build

theorem alike_ofExcept {x x' : Except Failure α} (f : α → α) (h : x' = x.map f) :
    Build.Alike r (fun a a' => a' = f a) (ofExcept x) (ofExcept x') := by
  subst h
  cases x with
  | ok a => exact alike_pure rfl
  | error e => exact alike_throw (.refl e)

theorem alike_ofExcept_self (x : Except Failure α) :
    Build.Alike r Eq (ofExcept x) (ofExcept x) := by
  cases x with
  | ok a => exact alike_pure rfl
  | error e => exact alike_throw (.refl e)

theorem alike_say (level : LogLevel) (message message' : String) :
    Build.Alike r Eq (say level message) (say level message') :=
  alike_modify fun _ _ hb => ⟨hb.names, hb.initializers, hb.level⟩

theorem alike_sayHere (level : LogLevel) (message message' : String) :
    Build.Alike r Eq (sayHere level message) (sayHere level message') :=
  alike_modify fun _ _ hb => ⟨hb.names, hb.initializers, hb.level⟩

theorem alike_uniqueName (base : String) :
    Build.Alike r Eq (uniqueName base) (uniqueName base) := by
  intro b b' hb
  rw [uniqueName, uniqueName, hb.names]
  exact .ok rfl ⟨rfl, hb.initializers, hb.level⟩

theorem alike_instanceName (base : String) :
    Build.Alike r Eq (instanceName base) (instanceName base) := by
  intro b b' hb
  rw [instanceName, instanceName, hb.names]
  exact .ok rfl ⟨rfl, hb.initializers, hb.level⟩

theorem alike_registerRecord (hr : Function.Injective r) (v : ValueRecord) :
    Build.Alike r Eq (registerRecord v) (registerRecord (v.relabel r)) := by
  intro b b' hb
  have hrecord :
      b'.level.record? (v.relabel r).name = (b.level.record? v.name).map
        (ValueRecord.relabel r) := by
    rw [hb.level, Level.record?_relabel]
    rfl
  have hput : (b.putRecord v).level.relabel r = (b'.putRecord (v.relabel r)).level := by
    simp only [Builder.putRecord, hb.level, Level.relabel, putRecord_relabel]
  have halike := reconcile_relabel hr (b.level.record? v.name) v
  rw [← hrecord] at halike
  unfold registerRecord
  generalize reconcile (b.level.record? v.name) v = decision at halike ⊢
  generalize reconcile (b'.level.record? (v.relabel r).name) (v.relabel r) = decision' at halike ⊢
  cases halike with
  | insert => exact .ok rfl ⟨hb.names, hb.initializers, hput.symm⟩
  | keep => exact .ok rfl hb
  | keepReported detail detail' => exact .ok rfl ⟨hb.names, hb.initializers, hb.level⟩
  | upgrade => exact .ok rfl ⟨hb.names, hb.initializers, hput.symm⟩
  | upgradeReported detail detail' => exact .ok rfl ⟨hb.names, hb.initializers, hput.symm⟩
  | conflict detail detail' => exact .error ⟨rfl, rfl⟩

theorem alike_addInput (hr : Function.Injective r) (name : String) (shape : List ShapeDim)
    (dtype : DType) :
    Build.Alike r Eq (addInput name shape dtype)
      (addInput name (shape.map (ShapeDim.relabel r)) dtype) := by
  refine (alike_modify fun b b' hb => ⟨?_, hb.initializers, ?_⟩).bindEq fun _ =>
    alike_registerRecord hr ⟨name, shape, dtype, .declared⟩
  · simp only [Builder.reserve, hb.names]
  · simp only [hb.level]
    rfl

theorem alike_addOutput (name : String) : Build.Alike r Eq (addOutput name) (addOutput name) :=
  alike_modify fun _ _ hb => ⟨hb.names, hb.initializers, by simp only [hb.level]; rfl⟩

theorem alike_addNode (n : Node) : Build.Alike r Eq (addNode n) (addNode n) := by
  intro b b' hb
  have hnodes : b'.level.nodes = b.level.nodes := by rw [hb.level]; rfl
  rw [addNode, addNode, hnodes]
  split
  · exact .error (.refl _)
  · exact .ok rfl ⟨by simp only [hb.names], hb.initializers, by simp only [hb.level]; rfl⟩

theorem alike_addConstant (base : String) (tensor : Tensor) :
    Build.Alike r Eq (addConstant base tensor) (addConstant base tensor) := by
  intro b b' hb
  rw [addConstant, addConstant, hb.initializers, hb.names]
  cases b.initializers.find? tensor with
  | some name => exact .ok rfl hb
  | none =>
    dsimp only
    cases b.initializers.add (b.names.fresh base).1 tensor with
    | ok table => exact .ok rfl ⟨rfl, rfl, hb.level⟩
    | error e => exact .error (.refl e)

theorem alike_registerFunction (hr : Function.Injective r) (f : Function) :
    Build.Alike r Eq (registerFunction f) (registerFunction (f.relabel r)) := by
  intro b b' hb
  have hknown : b'.level.function? (f.relabel r).name = _ := hb.function?_eq f.name
  rw [registerFunction, registerFunction, hknown]
  cases b.level.function? f.name with
  | some known =>
    simp only [Option.map_some, Function.sameBody_relabel hr]
    split
    · exact .ok rfl hb
    · exact .error (.refl _)
  | none =>
    refine .ok rfl ⟨?_, hb.initializers, ?_⟩
    · simp only [Builder.pushFunction, Builder.sayHere, Builder.say, Builder.reserve, hb.names]
      rfl
    · simp only [Builder.pushFunction, Builder.sayHere, Builder.say, Builder.reserve, hb.level,
        Level.relabel, List.map_append]
      rfl

theorem alike_mergeFunctions (hr : Function.Injective r) (functions : List Function) :
    Build.Alike r Eq (mergeFunctions functions)
      (mergeFunctions (functions.map (Function.relabel r))) := by
  induction functions with
  | nil => exact alike_pure rfl
  | cons f rest ih =>
    refine alike_get_bind fun b b' hb => ?_
    have hknown : b'.level.function? (f.relabel r).name = _ := hb.function?_eq f.name
    rw [hknown]
    cases b.level.function? f.name with
    | some known =>
      simp only [Option.map_some, Function.sameBody_relabel hr]
      split
      · exact ih
      · exact (alike_throw (.refl _)).bindEq fun _ => ih
    | none =>
      refine (alike_modify fun b b' hb => ⟨hb.names, hb.initializers, ?_⟩).bindEq fun _ => ih
      simp only [Builder.pushFunction, Builder.sayHere, Builder.say, hb.level, Level.relabel,
        List.map_append]
      rfl

theorem alike_addCall (function : String) (data params outputs : List String)
    (nodeName displayName : String) :
    Build.Alike r Eq (addCall function data params outputs nodeName displayName)
      (addCall function data params outputs nodeName displayName) := by
  refine alike_get_bind fun b b' hb => ?_
  rw [hb.function?_eq]
  cases b.level.function? function with
  | none => exact alike_throw (.refl _)
  | some f =>
    have hinputs : (f.relabel r).inputs = f.inputs := rfl
    simp only [Option.map_some, hinputs]
    split
    · exact alike_addNode _
    · exact alike_throw (.refl _)

theorem alike_resolve (hr : Function.Injective r) (symbols : SymbolTable) (name expected : String)
    (value? : Option AbstractValue) :
    Build.Alike r (Level.ResolvesAlike r) (Build.resolve symbols name expected value?)
      (Build.resolve (symbols.relabel r) name expected value?) := by
  refine alike_get_bind fun b b' hb => ?_
  have hresolve :
      Build.Alike r (Level.ResolvesAlike r) (pure (b.level.resolve symbols name expected value?))
        (pure ((b.level.relabel r).resolve (symbols.relabel r) name expected value?)) :=
    alike_pure (b.level.resolve_relabel hr symbols name expected value?)
  simp only [hb.level, Level.borrowed?_relabel]
  cases b.level.borrowed? symbols name expected value? with
  | none => exact hresolve
  | some v => exact (alike_sayHere _ _ _).bindEq fun _ => hresolve

theorem alike_finish (modelName : String) (opset : Nat) :
    Build.Alike r (fun m m' => m' = m.relabel r) (finish modelName opset)
      (finish modelName opset) := by
  refine alike_get_bind fun b b' hb => ?_
  rw [hb.level]
  refine (alike_ofExcept _ (takeRecords_relabel b.level.inputs b.level.records)).bind ?_
  rintro ⟨inputs, records⟩ _ rfl
  refine (alike_ofExcept _ (takeRecords_relabel b.level.outputs records)).bind ?_
  rintro ⟨outputs, records'⟩ _ rfl
  refine Step.Alike.bindEq (alike_set ⟨hb.names, rfl, rfl⟩) fun _ => alike_pure ?_
  rw [hb.initializers]
  rfl

end Build

/-! ## Operations of lowering -/

namespace Lower

theorem alike_build {x x' : Build α} (h : Build.Alike r Q x x') :
    Lower.Alike r Q (build x) (build x') := by
  intro s s' hs
  have hresults := h s.builder s'.builder hs.builder
  unfold build
  generalize x s.builder = result at hresults ⊢
  generalize x' s'.builder = result' at hresults ⊢
  cases hresults with
  | ok value state => exact .ok value ⟨state, hs.bindings, hs.sources, hs.counts⟩
  | error failure => exact .error failure

theorem alike_locate {x x' : Lower α} (site : Site) (h : Lower.Alike r Q x x') :
    Lower.Alike r Q (locate site x) (locate site x') := by
  intro s s' hs
  have hresults := h s s' hs
  unfold locate
  generalize x s = result at hresults ⊢
  generalize x' s' = result' at hresults ⊢
  cases hresults with
  | ok value state => exact .ok value state
  | error failure => exact .error (failure.locate site)

theorem alike_issuedBy {x x' : Lower α} (issuer : String) (h : Lower.Alike r Q x x') :
    Lower.Alike r Q (issuedBy issuer x) (issuedBy issuer x') := by
  intro s s' hs
  have hresults := h s s' hs
  unfold issuedBy
  generalize x s = result at hresults ⊢
  generalize x' s' = result' at hresults ⊢
  cases hresults with
  | ok value state => exact .ok value state
  | error failure => exact .error (failure.issuedBy issuer)

theorem alike_say (level : LogLevel) (message message' : String) :
    Lower.Alike r Eq (say level message) (say level message') :=
  alike_build (Build.alike_say level message message')

theorem alike_sayHere (level : LogLevel) (message message' : String) :
    Lower.Alike r Eq (sayHere level message) (sayHere level message') :=
  alike_build (Build.alike_sayHere level message message')

theorem alike_bindVar (v : Var) (name : String) :
    Lower.Alike r Eq (modify fun s => s.bindVar v name) (modify fun s => s.bindVar v name) :=
  alike_modify fun _ _ hs => ⟨hs.builder, by simp only [Lowering.bindVar, hs.bindings], hs.sources,
    hs.counts⟩

theorem alike_outputName (v : Var) : Lower.Alike r Eq (outputName v) (outputName v) := by
  refine alike_get_bind fun s s' hs => ?_
  rw [Lowering.nameOf?, Lowering.nameOf?, hs.bindings]
  cases s.bindings.lookup v.id with
  | some name => exact alike_pure rfl
  | none =>
    exact (alike_build (Build.alike_uniqueName "var")).bindEq fun name =>
      (alike_bindVar v name).bindEq fun _ => alike_pure rfl

theorem alike_inputName (a : Atom) : Lower.Alike r Eq (inputName a) (inputName a) := by
  cases a with
  | literal t => exact alike_build (Build.alike_addConstant "const" t)
  | var v =>
    refine alike_get_bind fun s s' hs => ?_
    rw [Lowering.nameOf?, Lowering.nameOf?, hs.bindings]
    cases s.bindings.lookup v.id with
    | some name => exact alike_pure rfl
    | none => exact alike_throw (.refl _)

theorem alike_recordVar (hr : Function.Injective r) (symbols : SymbolTable) (v : Var)
    (provenance : Provenance) :
    Lower.Alike r Eq (recordVar symbols v provenance)
      (recordVar (symbols.relabel r) v provenance) := by
  refine (alike_outputName v).bindEq fun name => ?_
  rw [SymbolTable.renderShape?_relabel]
  cases symbols.renderShape? v.type with
  | some shape =>
    exact alike_build (Build.alike_registerRecord hr ⟨name, shape, v.type.dtype, provenance⟩)
  | none => exact alike_sayHere _ _ _

theorem alike_trace (name : String) (tracer : Tracer) (args : List TraceArg) :
    Lower.Alike r Eq (trace name tracer args) (trace name tracer args) := by
  refine (alike_modify fun s s' hs => ⟨hs.builder, hs.bindings, hs.sources, hs.counts⟩).bindEq
    fun _ => (alike_say _ _ _).bindEq fun _ => alike_get_bind fun s s' hs => ?_
  rw [hs.counts]
  cases tracer (args.map TraceArg.type) s.counts with
  | error e => exact alike_throw (.refl e)
  | ok result =>
    exact (alike_modify fun s s' hs => ⟨hs.builder, hs.bindings, hs.sources, rfl⟩).bindEq fun _ =>
      alike_pure rfl

theorem alike_nested {x x' : Lower Unit} (name : String) (h : Lower.Alike r Eq x x') :
    Lower.Alike r (fun l l' => l' = l.relabel r) (nested name x) (nested name x') := by
  refine alike_get_bind fun outer outer' houter => ?_
  refine Step.Alike.bindEq (alike_set ?_) fun _ => h.bindEq fun _ =>
    alike_get_bind fun inner inner' hinner => ?_
  · refine ⟨⟨houter.builder.names, houter.builder.initializers, ?_⟩, rfl, rfl, houter.counts⟩
    simp only [Builder.child, houter.builder.level]
    rfl
  · refine Step.Alike.bindEq (alike_set ?_) fun _ => alike_pure hinner.builder.level
    exact ⟨⟨hinner.builder.names, hinner.builder.initializers, houter.builder.level⟩,
      houter.bindings, houter.sources, hinner.counts⟩

end Lower

/-! ## Equations -/

section Lowerings

open Lower

/-- The environment with its symbols renamed. -/
def Environment.relabel (r : String → String) (env : Environment) : Environment :=
  { env with symbols := env.symbols.relabel r }

/-- Calls are lowered alike. -/
def CallsAlike (r : String → String) (calls calls' : List CallLowering) : Prop :=
  List.Forall₂ (fun call call' => ∀ site e, Lower.Alike r Eq (call site e) (call' site e)) calls
    calls'

variable {env : Environment} {calls calls' : List CallLowering}

theorem alike_recordOutputs (hr : Function.Injective r) (env : Environment) (primitive : String)
    (vs : List Var) :
    Lower.Alike r Eq (recordOutputs env primitive vs)
      (recordOutputs (env.relabel r) primitive vs) := by
  induction vs with
  | nil => exact alike_pure rfl
  | cons v vs ih =>
    refine alike_get_bind fun s s' hs => ?_
    have hrest := (alike_recordVar hr env.symbols v .recovered).bindEq fun _ => ih
    rw [Lowering.nameOf?, Lowering.nameOf?, hs.bindings]
    split
    · exact alike_throw_bind (.refl _)
    · exact hrest

theorem alike_emitBinary (op : String) (a b : Atom) (v : Var) :
    Lower.Alike r Eq (HandlerCall.emitBinary op a b v) (HandlerCall.emitBinary op a b v) :=
  (alike_inputName a).bindEq fun _ => (alike_inputName b).bindEq fun _ =>
    (alike_outputName v).bindEq fun _ =>
    (alike_build (Build.alike_uniqueName op)).bindEq fun _ => alike_build (Build.alike_addNode _)

/-- The handlers of binary operations do not look at symbols. -/
theorem Handler.alike_lower {h : Handler} (hscript : ∀ steps, h ≠ .script steps)
    {c c' : HandlerCall} (hinputs : c'.inputs = c.inputs) (houtputs : c'.outputs = c.outputs) :
    Lower.Alike r Eq (h.lower c) (h.lower c') := by
  cases h with
  | binary op =>
    rw [lower, lower, hinputs, houtputs]
    split
    · exact alike_emitBinary op _ _ _
    · exact alike_throw (.refl _)
  | pow =>
    rw [lower, lower, hinputs, houtputs]
    split
    · exact alike_emitBinary "Pow" _ _ _
    · exact alike_throw (.refl _)
    · exact alike_throw (.refl _)
  | script steps => exact absurd rfl (hscript steps)

theorem alike_lowerPrimitive (henv : env.handler? = Registry.builtin.handler?) (site : Site)
    (e : Equation) :
    Lower.Alike r Eq (lowerPrimitive env site e) (lowerPrimitive (env.relabel r) site e) := by
  have henv' : (env.relabel r).handler? = Registry.builtin.handler? := henv
  rw [lowerPrimitive, lowerPrimitive, henv, henv']
  cases hhandler : Registry.builtin.handler? e.primitive with
  | none => exact alike_throw (.refl _)
  | some h =>
    have hscript : ∀ steps, h ≠ .script steps := by
      obtain ⟨op, -, rfl | ⟨rfl, -⟩⟩ := builtin_handler?_cases hhandler <;> simp
    exact (alike_sayHere _ _ _).bindEq fun _ => Handler.alike_lower hscript rfl rfl

theorem alike_lowerEquation (hr : Function.Injective r)
    (henv : env.handler? = Registry.builtin.handler?) (hcalls : CallsAlike r calls calls')
    (site : Site) (e : Equation) :
    Lower.Alike r Eq (lowerEquation env calls site e)
      (lowerEquation (env.relabel r) calls' site e) := by
  have hrecord := alike_recordOutputs hr env e.primitive e.outputs
  rw [lowerEquation, lowerEquation]
  cases e.callee? with
  | none => exact (alike_lowerPrimitive henv site e).bindEq fun _ => hrecord
  | some index =>
    cases hcall : calls[index]? with
    | none =>
      have hcall' : calls'[index]? = none := by
        rw [List.getElem?_eq_none_iff, ← hcalls.length_eq]
        exact List.getElem?_eq_none_iff.1 hcall
      simp only [hcall, hcall']
      exact alike_throw_bind (.refl _)
    | some call =>
      obtain ⟨call', hcall', halike⟩ := exists_of_forall₂ hcalls hcall
      simp only [hcall, hcall']
      exact (halike site e).bindEq fun _ => hrecord

theorem alike_lowerEquations (hr : Function.Injective r)
    (henv : env.handler? = Registry.builtin.handler?) (hcalls : CallsAlike r calls calls')
    (site : Site) (index : Nat) (es : List Equation) :
    Lower.Alike r Eq (lowerEquations env calls site index es)
      (lowerEquations (env.relabel r) calls' site index es) := by
  induction es generalizing index with
  | nil => exact alike_pure rfl
  | cons e es ih =>
    exact (alike_locate _ (alike_lowerEquation hr henv hcalls site e)).bindEq fun _ =>
      ih (index + 1)

/-! ## Traces -/

theorem alike_lowerInputs (hr : Function.Injective r) (env : Environment) (site : Site)
    (vs : List Var) :
    Lower.Alike r Eq (lowerInputs env site vs) (lowerInputs (env.relabel r) site vs) := by
  induction vs with
  | nil => exact alike_pure rfl
  | cons v vs ih =>
    refine (alike_outputName v).bindEq fun name => ?_
    rw [Environment.relabel, SymbolTable.renderShape?_relabel]
    cases env.symbols.renderShape? v.type with
    | none => exact alike_throw_bind (.refl _)
    | some shape =>
      exact (alike_build (Build.alike_addInput hr name shape v.type.dtype)).bindEq fun _ => ih

theorem alike_lowerConstants (cs : List (Var × Tensor)) :
    Lower.Alike r Eq (lowerConstants cs) (lowerConstants cs) := by
  induction cs with
  | nil => exact alike_pure rfl
  | cons c cs ih =>
    exact (alike_build (Build.alike_addConstant "const" c.2)).bindEq fun name =>
      (alike_bindVar c.1 name).bindEq fun _ => ih

theorem alike_declareOutput (a : Atom) : Lower.Alike r Eq (declareOutput a) (declareOutput a) := by
  refine (alike_inputName a).bindEq fun source => alike_get_bind fun s s' hs => ?_
  have haliased : s'.builder.isAliased source = s.builder.isAliased source := by
    rw [Builder.isAliased, Builder.isAliased, Builder.isInitializer, Builder.isInitializer,
      hs.builder.initializers, hs.builder.level]
    rfl
  have hdeclare : ∀ name, Lower.Alike r Eq
      (do
        build (Build.addOutput name)
        modify fun s => { s with sources := s.sources ++ [(source, a.type)] })
      (do
        build (Build.addOutput name)
        modify fun s => { s with sources := s.sources ++ [(source, a.type)] }) :=
    fun name => (alike_build (Build.alike_addOutput name)).bindEq fun _ =>
      alike_modify fun s s' hs => ⟨hs.builder, hs.bindings, by simp only [hs.sources], hs.counts⟩
  rw [haliased]
  split
  · exact (alike_build (Build.alike_uniqueName "out")).bindEq fun out =>
      (alike_build (Build.alike_uniqueName "Identity")).bindEq fun _ =>
      (alike_build (Build.alike_addNode _)).bindEq fun _ => hdeclare out
  · exact hdeclare source

theorem alike_lowerTrace (hr : Function.Injective r)
    (henv : env.handler? = Registry.builtin.handler?) (hcalls : CallsAlike r calls calls')
    (site : Site) (t : Trace) :
    Lower.Alike r Eq (lowerTrace env calls site t) (lowerTrace (env.relabel r) calls' site t) :=
  (alike_lowerInputs hr env site t.inputs).bindEq fun _ =>
    (alike_lowerConstants t.constants).bindEq fun _ =>
    (alike_lowerEquations hr henv hcalls site 0 t.equations).bindEq fun _ =>
      alike_locate site (alike_forM alike_declareOutput t.outputs)

theorem alike_resolveFrom (hr : Function.Injective r) (env : Environment) (index : Nat)
    (names : List String) :
    Lower.Alike r Eq (resolveFrom env index names) (resolveFrom (env.relabel r) index names) := by
  induction names generalizing index with
  | nil => exact alike_pure rfl
  | cons name rest ih =>
    refine alike_get_bind fun s s' hs => ?_
    rw [hs.sources]
    refine (alike_build (Build.alike_resolve hr env.symbols name _ _)).bind
      fun resolution resolution' halike => ?_
    cases halike with
    | resolved v =>
      exact (alike_build (Build.alike_registerRecord hr { v with name })).bindEq fun _ =>
        ih (index + 1)
    | conflict detail detail' => exact alike_throw_bind ⟨rfl, rfl⟩
    | unresolvable detail detail' => exact alike_throw_bind ⟨rfl, rfl⟩

theorem alike_resolveOutputs (hr : Function.Injective r) (env : Environment) (site : Site) :
    Lower.Alike r Eq (resolveOutputs env site) (resolveOutputs (env.relabel r) site) := by
  refine alike_get_bind fun s s' hs => ?_
  rw [hs.builder.level]
  exact alike_locate site (alike_resolveFrom hr env 0 s.builder.level.outputs)

/-! ## Calls -/

theorem alike_adoptOutputs (hr : Function.Injective r) (sub : Level) (pairs : List (Var × String)) :
    Lower.Alike r Eq (adoptOutputs sub pairs) (adoptOutputs (sub.relabel r) pairs) := by
  induction pairs with
  | nil => exact alike_pure rfl
  | cons pair pairs ih =>
    obtain ⟨v, inner⟩ := pair
    refine (alike_outputName v).bindEq fun outer => ?_
    rw [Level.record?_relabel]
    have hrest : Lower.Alike r Eq (do return outer :: (← adoptOutputs sub pairs))
        (do return outer :: (← adoptOutputs (sub.relabel r) pairs)) :=
          ih.bindEq fun _ => alike_pure rfl
    cases sub.record? inner with
    | none => exact alike_throw_bind (.refl _)
    | some v =>
      exact (alike_build (Build.alike_registerRecord hr
        ⟨outer, v.shape, v.dtype, .subgraph⟩)).bindEq fun _ => hrest

theorem alike_functionFor (hr : Function.Injective r) (c : Callable) (callName : String)
    (f : Function) :
    Lower.Alike r Eq (functionFor c callName f) (functionFor c callName (f.relabel r)) := by
  refine alike_get_bind fun s s' hs => ?_
  rw [hs.builder.level, Level.functionWithBody?_relabel hr]
  cases s.builder.level.functionWithBody? f with
  | some known => exact (alike_sayHere _ _ _).bindEq fun _ => alike_pure rfl
  | none =>
    exact (alike_build (Build.alike_instanceName _)).bindEq fun name =>
      (alike_say _ _ _).bindEq fun _ =>
      alike_build (Build.alike_registerFunction hr { f with name })

theorem alike_lowerCall (hr : Function.Injective r)
    (henv : env.handler? = Registry.builtin.handler?) (hcalls : CallsAlike r calls calls')
    (c : Callable) (tracer : Tracer) (site : Site) (e : Equation) :
    Lower.Alike r Eq (lowerCall env c tracer calls site e)
      (lowerCall (env.relabel r) c tracer calls' site e) := by
  refine (alike_sayHere _ _ _).bindEq fun _ =>
    (alike_build (Build.alike_instanceName c.baseName)).bindEq fun callName =>
    (alike_mapM alike_inputName e.inputs).bindEq fun data =>
    (alike_issuedBy c.name (alike_trace c.name tracer _)).bindEq fun t => ?_
  split
  · exact alike_throw_bind (.refl _)
  have hinside := (alike_lowerTrace hr henv hcalls (site.inside callName) t).bindEq fun _ =>
    alike_resolveOutputs hr env (site.inside callName)
  refine (alike_nested _ hinside).bind fun sub _ hsub => ?_
  subst hsub
  refine alike_get_bind fun s s' hs => ?_
  rw [hs.builder.initializers]
  refine (alike_sayHere _ _ _).bindEq fun _ => (alike_adoptOutputs hr sub _).bindEq fun outputs =>
    alike_get_bind fun s s' hs => ?_
  rw [hs.builder.initializers]
  refine (alike_build (Build.alike_ofExcept _ (sub.toFunction_relabel callName _ _))).bind
    fun f _ hf => ?_
  subst hf
  exact (alike_build (Build.alike_mergeFunctions hr sub.functions)).bindEq fun _ =>
    (alike_functionFor hr c callName f).bindEq fun function =>
      alike_build (Build.alike_addCall function data _ outputs _ _)

/-- The calls of a program are lowered alike. -/
theorem alike_callLowerings (hr : Function.Injective r)
    (henv : env.handler? = Registry.builtin.handler?) (settings : Params) (program : Program) :
    CallsAlike r (callLowerings env settings program)
      (callLowerings (env.relabel r) settings program) := by
  induction program using List.reverseRecOn with
  | nil => exact .nil
  | append_singleton program c ih =>
    rw [callLowerings_append_singleton, callLowerings_append_singleton]
    exact forall₂_append_singleton ih fun site e => alike_lowerCall hr henv ih c _ site e

end Lowerings

end TensorGraph
