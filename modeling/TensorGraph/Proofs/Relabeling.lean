import Mathlib.Logic.Function.Basic
import TensorGraph.Proofs.Conversion
import TensorGraph.Proofs.NumberedSymbols

/-!
# Renamed symbols in records

Symbols occur by name in the records of levels, functions and models. What is decided by looking at
records compares their shapes, and it comes out the same when the symbols of both shapes are
renamed, as long as different symbols keep different names : whether a record fits a type, whether
two functions have one body, what an output resolves to. And what is made of records is made of the
renamed ones when the symbols are renamed first (`Level.toFunction_relabel`,
`Model.finished_relabel`).
-/

namespace TensorGraph

/-! ## Renaming -/

/-- The dimension with its symbol renamed. -/
def ShapeDim.relabel (r : String → String) : ShapeDim → ShapeDim
  | .fixed n => .fixed n
  | .named s => .named (r s)

/-- The record with its symbols renamed. -/
def ValueRecord.relabel (r : String → String) (v : ValueRecord) : ValueRecord :=
  { v with shape := v.shape.map (ShapeDim.relabel r) }

/-- The function with the symbols of its records renamed. -/
def Function.relabel (r : String → String) (f : Function) : Function :=
  { f with records := f.records.map (ValueRecord.relabel r) }

/-- The level with the symbols of its records and functions renamed. -/
def Level.relabel (r : String → String) (l : Level) : Level :=
  { l with records := l.records.map (ValueRecord.relabel r),
           functions := l.functions.map (Function.relabel r) }

/-- The graph with the symbols of its records renamed. -/
def Graph.relabel (r : String → String) (g : Graph) : Graph :=
  { g with
    inputs := g.inputs.map (ValueRecord.relabel r)
    outputs := g.outputs.map (ValueRecord.relabel r)
    records := g.records.map (ValueRecord.relabel r) }

/-- The model with the symbols of all its records renamed. -/
def Model.relabel (r : String → String) (m : Model) : Model :=
  { m with graph := m.graph.relabel r, functions := m.functions.map (Function.relabel r) }

variable {r : String → String}

theorem ShapeDim.relabel_injective (hr : Function.Injective r) :
    Function.Injective (relabel r) := by
  intro d e h
  cases d <;> cases e <;> simp only [relabel, fixed.injEq, named.injEq, reduceCtorEq] at h ⊢
  · exact h
  · exact hr h

theorem ValueRecord.relabel_injective (hr : Function.Injective r) :
    Function.Injective (relabel r) := by
  rintro ⟨x, shape, dtype, provenance⟩ ⟨y, shape', dtype', provenance'⟩ h
  simp only [relabel, mk.injEq, (ShapeDim.relabel_injective hr).list_map.eq_iff] at h ⊢
  exact h

/-! ## Renamed declarations -/

/-- The entry with its symbol renamed. -/
def DimSpec.relabel (r : String → String) : DimSpec → DimSpec
  | .fixed n => .fixed n
  | .symbol s => .symbol (r s)

/-- The input with its symbols renamed. -/
def InputSpec.relabel (r : String → String) (spec : InputSpec) : InputSpec :=
  { spec with shape := spec.shape.map (DimSpec.relabel r) }

/-- The table with its symbols renamed. -/
def SymbolTable.relabel (r : String → String) (table : SymbolTable) : SymbolTable :=
  ⟨table.names.map r, table.numbers.map fun entry => (r entry.1, entry.2)⟩

namespace SymbolTable

theorem lookup?_relabel (hr : Function.Injective r) (table : SymbolTable) (s : String) :
    (table.relabel r).lookup? (r s) = table.lookup? s := by
  simp only [lookup?, relabel]
  induction table.numbers with
  | nil => rfl
  | cons entry rest ih =>
    have hname : (r s == r entry.1) = (s == entry.1) :=
      Bool.eq_iff_iff.2 (by simpa using hr.eq_iff)
    rw [List.map_cons, List.lookup_cons, List.lookup_cons, hname, ih]

theorem intern_relabel (hr : Function.Injective r) (table : SymbolTable) (s : String) :
    (table.relabel r).intern (r s) = ((table.intern s).1.relabel r, (table.intern s).2) := by
  rw [intern, intern, lookup?_relabel hr]
  cases table.lookup? s with
  | none => simp [relabel, push, next]
  | some id => rfl

theorem abstractShape_relabel (hr : Function.Injective r) (table : SymbolTable)
    (shape : List DimSpec) : (table.relabel r).abstractShape (shape.map (DimSpec.relabel r)) =
      ((table.abstractShape shape).1.relabel r, (table.abstractShape shape).2) := by
  induction shape generalizing table with
  | nil => rfl
  | cons entry shape ih =>
    cases entry with
    | fixed n => simp [abstractShape, DimSpec.relabel, ih]
    | symbol s => simp [abstractShape, DimSpec.relabel, intern_relabel hr, ih]

theorem abstractSpecs_relabel (hr : Function.Injective r) (table : SymbolTable)
    (specs : List InputSpec) :
    (table.relabel r).abstractSpecs (specs.map (InputSpec.relabel r)) =
      ((table.abstractSpecs specs).1.relabel r, (table.abstractSpecs specs).2) := by
  induction specs generalizing table with
  | nil => rfl
  | cons spec specs ih => simp [abstractSpecs, InputSpec.relabel, abstractShape_relabel hr, ih]

end SymbolTable

/-- Renamed symbols get the numbers that they had. -/
theorem InputSpec.abstractAll_relabel (hr : Function.Injective r) (specs : List InputSpec) :
    abstractAll (specs.map (relabel r)) = ((abstractAll specs).1.relabel r,
      (abstractAll specs).2) :=
  SymbolTable.abstractSpecs_relabel hr .empty specs

/-! ## Rendered shapes -/

namespace SymbolTable

theorem renderDim?_relabel (table : SymbolTable) (d : Dim) :
    (table.relabel r).renderDim? d = (table.renderDim? d).map (ShapeDim.relabel r) := by
  cases d with
  | known n => rfl
  | symbolic id =>
    rw [renderDim?, renderDim?, name?, name?, relabel, List.getElem?_map, Option.map_map,
      Option.map_map]
    rfl

theorem renderShape?_relabel (table : SymbolTable) (type : AbstractValue) :
    (table.relabel r).renderShape? type = (table.renderShape? type).map
      (List.map (ShapeDim.relabel r)) := by
  obtain ⟨shape, dtype⟩ := type
  simp only [renderShape?]
  induction shape with
  | nil => rfl
  | cons d shape ih =>
    rw [List.mapM_cons, List.mapM_cons, ih, renderDim?_relabel]
    cases table.renderDim? d <;> cases shape.mapM table.renderDim? <;> rfl

end SymbolTable

/-! ## Records -/

theorem findRecord?_relabel (records : List ValueRecord) (name : String) :
    findRecord? (records.map (ValueRecord.relabel r)) name = (findRecord? records name).map
      (ValueRecord.relabel r) := by
  rw [findRecord?, findRecord?, List.find?_map]
  rfl

theorem putRecord_relabel (v : ValueRecord) (records : List ValueRecord) :
    putRecord (v.relabel r) (records.map (ValueRecord.relabel r)) = (putRecord v records).map
      (ValueRecord.relabel r) := by
  induction records with
  | nil => rfl
  | cons s rest ih =>
    have hname : ∀ w : ValueRecord, (w.relabel r).name = w.name := fun _ => rfl
    simp only [List.map_cons, putRecord, ih, hname]
    split
    · rfl
    · split <;> rfl

theorem takeRecords_relabel (names : List String) (records : List ValueRecord) :
    takeRecords names (records.map (ValueRecord.relabel r)) = (takeRecords names records).map
      (Prod.map (List.map (ValueRecord.relabel r)) (List.map (ValueRecord.relabel r))) := by
  induction names generalizing records with
  | nil => rfl
  | cons name rest ih =>
    have hfilter : (records.map (ValueRecord.relabel r)).filter (fun s => s.name != name) =
        (records.filter fun s => s.name != name).map (ValueRecord.relabel r) := List.filter_map
    rw [takeRecords, takeRecords, findRecord?_relabel, hfilter, ih]
    cases findRecord? records name with
    | none => rfl
    | some v => cases takeRecords rest (records.filter fun s => s.name != name) <;> rfl

theorem ValueRecord.hasType_relabel (hr : Function.Injective r) (v : ValueRecord)
    (shape : List ShapeDim) (dtype : DType) :
    (v.relabel r).hasType (shape.map (ShapeDim.relabel r)) dtype = v.hasType shape dtype := by
  have hshape : (v.shape.map (ShapeDim.relabel r) == shape.map (ShapeDim.relabel r)) =
      (v.shape == shape) :=
    Bool.eq_iff_iff.2 (by simpa using (ShapeDim.relabel_injective hr).list_map.eq_iff)
  rw [hasType, hasType, relabel, hshape]

/-- The same decision on an offered record, where the text of a disagreement may differ. -/
inductive Reconciled.Alike : Reconciled → Reconciled → Prop where
  | insert : Alike .insert .insert
  | keep : Alike .keep .keep
  | keepReported (detail detail' : String) : Alike (.keepReported detail) (.keepReported detail')
  | upgrade : Alike .upgrade .upgrade
  | upgradeReported (detail detail' : String) :
      Alike (.upgradeReported detail) (.upgradeReported detail')
  | conflict (detail detail' : String) : Alike (.conflict detail) (.conflict detail')

theorem reconcile_relabel (hr : Function.Injective r) (existing : Option ValueRecord)
    (offered : ValueRecord) :
    (reconcile existing offered).Alike
      (reconcile (existing.map (ValueRecord.relabel r)) (offered.relabel r)) := by
  cases existing with
  | none => exact .insert
  | some v =>
    have hfits : (v.relabel r).hasType (offered.relabel r).shape (offered.relabel r).dtype =
        v.hasType offered.shape offered.dtype := v.hasType_relabel hr offered.shape offered.dtype
    have hprovenance : ∀ w : ValueRecord, (w.relabel r).provenance = w.provenance := fun _ => rfl
    simp only [Option.map_some, reconcile, hfits, hprovenance]
    split
    · split
      · exact .upgrade
      · exact .keep
    · cases v.provenance.isPinned <;> cases offered.provenance.isPinned
      · exact .conflict _ _
      · exact .upgradeReported _ _
      · exact .keepReported _ _
      · exact .conflict _ _

/-! ## Functions -/

theorem Function.sameBody_relabel (hr : Function.Injective r) (f g : Function) :
    (f.relabel r).sameBody (g.relabel r) = f.sameBody g := by
  have hrecords : (f.records.map (ValueRecord.relabel r) == g.records.map (ValueRecord.relabel r)) =
      (f.records == g.records) :=
    Bool.eq_iff_iff.2 (by simpa using (ValueRecord.relabel_injective hr).list_map.eq_iff)
  simp only [sameBody, relabel, hrecords]

theorem findFunction?_relabel (functions : List Function) (name : String) :
    findFunction? (functions.map (Function.relabel r)) name = (findFunction? functions name).map
      (Function.relabel r) := by
  rw [findFunction?, findFunction?, List.find?_map]
  rfl

namespace Level

theorem record?_relabel (l : Level) (name : String) :
    (l.relabel r).record? name = (l.record? name).map (ValueRecord.relabel r) :=
  findRecord?_relabel l.records name

theorem functionWithBody?_relabel (hr : Function.Injective r) (l : Level) (f : Function) :
    (l.relabel r).functionWithBody? (f.relabel r) = l.functionWithBody? f := by
  have hbody : (fun g : Function => g.sameBody (f.relabel r)) ∘ Function.relabel r = fun g =>
      g.sameBody f :=
    funext fun g => Function.sameBody_relabel hr g f
  rw [functionWithBody?, functionWithBody?, relabel, List.find?_map, hbody, Option.map_map]
  rfl

/-- The records of parameters have no symbols. -/
theorem paramRecords_relabel {table : InitializerTable} {params : List String} {k : Nat}
    {records : List (LocalName × ValueRecord)} (h : paramRecords table k params = .ok records) :
    records.map (Prod.map id (ValueRecord.relabel r)) = records := by
  induction params generalizing k records with
  | nil =>
    obtain rfl := Except.ok.inj h
    rfl
  | cons param rest ih =>
    obtain ⟨tensor, others, -, hrest, rfl⟩ := paramRecords_cons_eq_ok.1 h
    have hfixed :
        (tensor.dims.map ShapeDim.fixed).map (ShapeDim.relabel r) =
          tensor.dims.map ShapeDim.fixed := by
      rw [List.map_map]
      rfl
    rw [List.map_cons, ih hrest]
    simp [ValueRecord.relabel, hfixed]

theorem renamedRecords_relabel (l : Level) (names : Renaming) :
    (l.relabel r).renamedRecords names = (l.renamedRecords names).map
      (Prod.map id (ValueRecord.relabel r)) := by
  rw [renamedRecords, renamedRecords, List.map_filterMap]
  refine List.filterMap_congr fun entry _ => ?_
  obtain ⟨name, localName⟩ := entry
  simp only [record?_relabel, Option.map_map]
  rfl

theorem functionWith_relabel (l : Level) (name : String) {params : List String}
    {records : List (LocalName × ValueRecord)}
    (hrecords : records.map (Prod.map id (ValueRecord.relabel r)) = records) :
    (l.relabel r).functionWith name params records =
      (l.functionWith name params records).relabel r := by
  have hnames : (l.relabel r).localNames params = l.localNames params := rfl
  have hall : records ++ (l.relabel r).renamedRecords (l.localNames params) =
      (records ++ l.renamedRecords (l.localNames params)).map
        (Prod.map id (ValueRecord.relabel r)) := by
    rw [List.map_append, hrecords, renamedRecords_relabel]
  have hsort : ∀ all : List (LocalName × ValueRecord),
      ((all.map (Prod.map id (ValueRecord.relabel r))).mergeSort fun a b => a.1.le b.1) =
        (all.mergeSort fun a b => a.1.le b.1).map (Prod.map id (ValueRecord.relabel r)) := fun _ =>
    (List.map_mergeSort (f := Prod.map id (ValueRecord.relabel r)) fun _ _ _ _ => rfl).symm
  rw [functionWith, functionWith, hnames, hall, hsort, List.map_map, Function.relabel, List.map_map]
  rfl

/-- A level with renamed symbols becomes the function with renamed symbols. -/
theorem toFunction_relabel (l : Level) (name : String) (params : List String)
    (table : InitializerTable) :
    (l.relabel r).toFunction name params table = (l.toFunction name params table).map
      (Function.relabel r) := by
  have hmissing : (fun o => ((l.relabel r).record? o).isNone) = fun o => (l.record? o).isNone :=
    funext fun o => by rw [record?_relabel, Option.isNone_map]
  have houtputs : (l.relabel r).outputs = l.outputs := rfl
  rw [toFunction, toFunction, hmissing, houtputs]
  cases l.outputs.find? fun o => (l.record? o).isNone with
  | some o => rfl
  | none =>
    cases hparams : paramRecords table 0 params with
    | error e => rfl
    | ok records =>
      exact congrArg Except.ok (l.functionWith_relabel name (paramRecords_relabel hparams))

/-! ## Resolved outputs -/

/-- The same resolution with symbols renamed, where the text of a fault may differ. -/
inductive ResolvesAlike (r : String → String) : Resolution → Resolution → Prop where
  | resolved (record : ValueRecord) :
      ResolvesAlike r (.resolved record) (.resolved (record.relabel r))
  | conflict (detail detail' : String) : ResolvesAlike r (.conflict detail) (.conflict detail')
  | unresolvable (detail detail' : String) :
      ResolvesAlike r (.unresolvable detail) (.unresolvable detail')

theorem resolve_relabel (hr : Function.Injective r) (l : Level) (symbols : SymbolTable)
    (name expected : String) (value? : Option AbstractValue) :
    ResolvesAlike r (l.resolve symbols name expected value?)
      ((l.relabel r).resolve (symbols.relabel r) name expected value?) := by
  have htype :
      (value?.bind fun v => ((symbols.relabel r).renderShape? v).map fun shape =>
        (shape, v.dtype)) = (value?.bind fun v => (symbols.renderShape? v).map fun shape =>
          (shape, v.dtype)).map (Prod.map (List.map (ShapeDim.relabel r)) id) := by
    cases value? with
    | none => rfl
    | some v =>
      rw [Option.bind_some, Option.bind_some, SymbolTable.renderShape?_relabel, Option.map_map,
        Option.map_map]
      rfl
  rw [resolve, resolve, record?_relabel, record?_relabel, htype]
  cases l.record? name with
  | some v => exact .resolved v
  | none =>
    cases value?.bind fun v => (symbols.renderShape? v).map fun shape => (shape, v.dtype) with
    | none =>
      cases l.record? expected with
      | none => exact .unresolvable _ _
      | some v => exact .resolved _
    | some type =>
      obtain ⟨shape, dtype⟩ := type
      cases l.record? expected with
      | none => exact .resolved ⟨name, shape, dtype, .repaired⟩
      | some v =>
        simp only [Option.map_some, Prod.map_apply, id, ValueRecord.hasType_relabel hr]
        split
        · exact .resolved ⟨name, shape, dtype, .repaired⟩
        · exact .conflict _ _

theorem borrowed?_relabel (l : Level) (symbols : SymbolTable) (name expected : String)
    (value? : Option AbstractValue) :
    (l.relabel r).borrowed? (symbols.relabel r) name expected value? =
      (l.borrowed? symbols name expected value?).map (ValueRecord.relabel r) := by
  have htype :
      (value?.bind (symbols.relabel r).renderShape?).isNone =
        (value?.bind symbols.renderShape?).isNone := by
    cases value? with
    | none => rfl
    | some v =>
      rw [Option.bind_some, Option.bind_some, SymbolTable.renderShape?_relabel, Option.isNone_map]
  rw [borrowed?, borrowed?, record?_relabel, record?_relabel, htype, Option.isNone_map]
  split <;> rfl

end Level

/-! ## Finished models -/

theorem Function.withoutDeadNodes_relabel (f : Function) :
    (f.relabel r).withoutDeadNodes = f.withoutDeadNodes.relabel r := by
  simp only [withoutDeadNodes, relabel, List.filter_map]
  rfl

theorem newlyReached_relabel (functions : List Function) (reached : List String) :
    newlyReached (functions.map (Function.relabel r)) reached = newlyReached functions reached := by
  rw [newlyReached, newlyReached, List.filter_map, List.flatMap_map]
  rfl

theorem reachFrom_relabel (functions : List Function) (rounds : Nat) (reached : List String) :
    reachFrom (functions.map (Function.relabel r)) rounds reached =
      reachFrom functions rounds reached := by
  induction rounds generalizing reached with
  | zero => rfl
  | succ rounds ih => simp only [reachFrom, newlyReached_relabel, ih]

namespace Model

theorem prune_relabel (m : Model) : (m.relabel r).prune = m.prune.relabel r := rfl

theorem withoutDeadNodes_relabel (m : Model) :
    (m.relabel r).withoutDeadNodes = m.withoutDeadNodes.relabel r := by
  have houtputs : (m.relabel r).graph.outputNames = m.graph.outputNames := by
    simp only [relabel, Graph.relabel, Graph.outputNames, List.map_map]
    rfl
  have hfunctions : (m.relabel r).functions.map Function.withoutDeadNodes =
      (m.functions.map Function.withoutDeadNodes).map (Function.relabel r) := by
    simp only [relabel, List.map_map]
    exact List.map_congr_left fun f _ => f.withoutDeadNodes_relabel
  have hreached : ∀ (functions : List Function) (start : List String),
      reachable (functions.map (Function.relabel r)) start = reachable functions start :=
        fun functions start => by
    rw [reachable, reachable, reachFrom_relabel, List.length_map]
  simp only [withoutDeadNodes, houtputs, hfunctions, hreached]
  simp only [relabel, Graph.relabel, List.filter_map]
  rfl

/-- A model with renamed symbols is finished like the model itself. -/
theorem finished_relabel (optimizer : Optimizer) (options : ConversionOptions) (m : Model) :
    (m.relabel r).finished optimizer options = (m.finished optimizer options).relabel r := by
  unfold finished
  split
  · cases optimizer with
    | noop => rfl
    | deadNodeElimination =>
      simp only [Optimizer.optimize, eliminateDead, prune_relabel, withoutDeadNodes_relabel]
  · rfl

end Model

end TensorGraph
