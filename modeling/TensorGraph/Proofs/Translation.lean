import Mathlib.Data.List.Forall2
import Mathlib.Logic.Function.Basic
import TensorGraph.Lowering.Basic
import TensorGraph.Proofs.Shared

/-!
# Levels that translate traces

Lowering threads names, constants and functions through many steps, but what it leaves behind can be
said without them : a level translates a trace if every equation has its node, in order, with the
names that its variables and literals go by, and the outputs are declared behind these nodes
(`Translation`).

A translation stays one as the names, constants and functions that all levels share grow
(`Translation.mono`).
-/

namespace TensorGraph

/-! ## Records without names -/

/-- What a record says, without the name that it is for. -/
structure Info where
  shape : List ShapeDim
  dtype : DType
  provenance : Provenance
  deriving DecidableEq

/-- What a record says. -/
def ValueRecord.info (r : ValueRecord) : Info :=
  ⟨r.shape, r.dtype, r.provenance⟩

/-- What the record of a name says. -/
def Level.info? (l : Level) (name : String) : Option Info :=
  (l.record? name).map ValueRecord.info

/-- What a caller takes over from the record of a nested level. -/
def Info.adopted (i : Info) : Info :=
  { i with provenance := .subgraph }

/-- What the record of an equation's output says, where `placed` is what the equation's node came
with. -/
def Var.info (symbols : SymbolTable) (v : Var) (placed : Option Info) : Option Info :=
  match symbols.renderShape? v.type with
  | some shape => some ⟨shape, v.type.dtype, .recovered⟩
  | none => placed

/-- The record says the type of a value. -/
def Info.Says (symbols : SymbolTable) (i : Info) (type : AbstractValue) : Prop :=
  symbols.renderShape? type = some i.shape ∧ i.dtype = type.dtype

/-- What the equation's node came with says the type of the output, if this can be rendered. -/
def Var.Agrees (symbols : SymbolTable) (v : Var) (placed : Option Info) : Prop :=
  (symbols.renderShape? v.type).isSome → ∀ i, placed = some i → i.Says symbols v.type

/-! ## Names of operands -/

/-- The name that an operand goes by. -/
def Atom.name? (table : InitializerTable) (names : Nat → Option String) : Atom → Option String
  | .var v => names v.id
  | .literal t => table.find? t

/-- Is the operand a literal or one of the given variables? -/
def Atom.IsKnown (ids : List Nat) : Atom → Prop
  | .var v => v.id ∈ ids
  | .literal _ => True

/-- Every equation reads only the given variables and those of the equations before it. -/
def ScopedFrom (ids : List Nat) : List Equation → Prop
  | [] => True
  | e :: rest => (∀ a ∈ e.inputs, a.IsKnown ids) ∧ ScopedFrom (ids ++ e.outputs.map Var.id) rest

theorem Atom.IsKnown.mono {ids ids' : List Nat} (hsub : ids ⊆ ids') {a : Atom} (h : a.IsKnown ids) :
    a.IsKnown ids' := by
  cases a with
  | var v => exact hsub h
  | literal t => trivial

/-- The variables that a trace starts with. -/
def Trace.given (t : Trace) : List Nat :=
  t.inputs.map Var.id ++ t.constants.map fun c => c.1.id

/-- The variables that equations make. -/
def madeBy (equations : List Equation) : List Nat :=
  equations.flatMap fun e => e.outputs.map Var.id

theorem ScopedFrom.isKnown {ids : List Nat} {es : List Equation} (h : ScopedFrom ids es)
    {e : Equation} (he : e ∈ es) {a : Atom} (ha : a ∈ e.inputs) : a.IsKnown (ids ++ madeBy es) := by
  induction es generalizing ids with
  | nil => simp at he
  | cons e' rest ih =>
    rcases List.mem_cons.1 he with rfl | he
    · exact (h.1 a ha).mono (List.subset_append_left _ _)
    · simpa [madeBy] using ih h.2 he

/-! ## Nodes of equations -/

/-- The operation of a built-in primitive. -/
def operation? (primitive : String) : Option String :=
  if primitive = "add" then some "Add"
  else if primitive = "mul" then some "Mul"
  else if primitive = "pow" then some "Pow"
  else none

/-- A node that calls a function for a callable. -/
def Callable.node (c : Callable) (function nodeName : String) (inputs outputs : List String) :
    Node :=
  { Node.plain function nodeName inputs outputs with
    domain := functionDomain, displayName := some c.name }

/-- What a call refers to: a function, the constants that are passed to it, and the records of its
outputs. -/
@[ext]
structure Callee where
  function : Function
  captured : List String
  infos : List (Option Info)

/-- What is known of the functions that calls refer to, by callable and argument types. -/
abbrev Targets := Nat → List AbstractValue → Callee → Prop

/-- The node of an equation, and what it says of its outputs. -/
inductive Emits (program : Program) (targets : Targets) (table : InitializerTable)
    (names : Nat → Option String) :
    Equation → Node → List (Option Info) → Prop where
  | primitive {e : Equation} {a b : Atom} {v : Var} {op x y z nodeName : String}
      (callee : e.callee? = none) (operation : operation? e.primitive = some op)
      (inputs : e.inputs = [a, b]) (outputs : e.outputs = [v]) (lhs : a.name? table names = some x)
      (rhs : b.name? table names = some y) (out : names v.id = some z) :
      Emits program targets table names e (.plain op nodeName [x, y] [z]) [none]
  | call {e : Equation} {index : Nat} {c : Callable} {callee : Callee} {data outs : List String}
      {nodeName : String} (calls : e.callee? = some index) (known : program[index]? = some c)
      (inputs : e.inputs.map (Atom.name? table names) = data.map some)
      (outputs : e.outputs.map (fun v => names v.id) = outs.map some)
      (target : targets index (e.inputs.map Atom.type) callee)
      (count : callee.infos.length = e.outputs.length) :
      Emits program targets table names e
        (c.node callee.function.name nodeName (data ++ callee.captured) outs)
        (callee.infos.map (Option.map Info.adopted))

/-- The node of an equation, with the records of its outputs. What the node came with agrees with
the types that the equation gives them. -/
def EmitsWith (program : Program) (symbols : SymbolTable) (targets : Targets)
    (table : InitializerTable) (names : Nat → Option String) (info : String → Option Info)
    (e : Equation) (n : Node) : Prop :=
  ∃ placed, Emits program targets table names e n placed ∧
    List.Forall₂ (Var.Agrees symbols) e.outputs placed ∧
    n.outputs.map info = List.zipWith (Var.info symbols) e.outputs placed

/-! ## Declared outputs -/

/-- A declared output: its name, the name that it stands for, and its type. -/
structure Declaration where
  name : String
  source : String
  type : AbstractValue

/-- The outputs `declared` come first. An output that is an input, a constant or another output too
is behind an identity node. -/
inductive Declares (table : InitializerTable) (names : Nat → Option String) (inputs : List String) :
    List String → List Atom → List Node → List Declaration → Prop where
  | nil {declared : List String} : Declares table names inputs declared [] [] []
  | own {declared : List String} {a : Atom} {x : String} {rest : List Atom} {nodes : List Node}
      {decls : List Declaration} (source : a.name? table names = some x)
      (notInput : x ∉ inputs) (notConstant : x ∉ table.names) (notDeclared : x ∉ declared)
      (next : Declares table names inputs (declared ++ [x]) rest nodes decls) :
      Declares table names inputs declared (a :: rest) nodes (⟨x, x, a.type⟩ :: decls)
  | routed {declared : List String} {a : Atom} {x out nodeName : String} {rest : List Atom}
      {nodes : List Node} {decls : List Declaration} (source : a.name? table names = some x)
      (aliased : x ∈ inputs ∨ x ∈ table.names ∨ x ∈ declared)
      (next : Declares table names inputs (declared ++ [out]) rest nodes decls) :
      Declares table names inputs declared (a :: rest)
        (.plain "Identity" nodeName [x] [out] :: nodes) (⟨out, x, a.type⟩ :: decls)

/-- What the record of an output says in the end: what it says already, or the output's type, or
what the record says of the name that the output stands for. -/
def resolution? (symbols : SymbolTable) (info : String → Option Info) (d : Declaration) :
    Option Info :=
  match info d.name with
  | some i => some i
  | none =>
    match symbols.renderShape? d.type, info d.source with
    | some shape, some i =>
      if i.shape = shape ∧ i.dtype = d.type.dtype then some ⟨shape, d.type.dtype, .repaired⟩
        else none
    | some shape, none => some ⟨shape, d.type.dtype, .repaired⟩
    | none, some i => some { i with provenance := .repaired }
    | none, none => none

/-- Outputs get their records in order. -/
inductive Resolves (symbols : SymbolTable) :
    (String → Option Info) → List Declaration → (String → Option Info) → Prop where
  | nil {info : String → Option Info} : Resolves symbols info [] info
  | cons {info info' : String → Option Info} {d : Declaration} {rest : List Declaration} {i : Info}
      (found : resolution? symbols info d = some i)
      (next : Resolves symbols (Function.update info d.name (some i)) rest info') :
      Resolves symbols info (d :: rest) info'

/-! ## Translations -/

/-- The inputs, nodes and declared outputs of a level translate a trace, where variables go by
`names` and the records before outputs are resolved say `info`. The nodes `body` are those of the
equations, `tail` the identity nodes of outputs. -/
structure Translation (program : Program) (symbols : SymbolTable) (targets : Targets) (σ : Shared)
    (names : Nat → Option String) (info : String → Option Info) (t : Trace) (inputs : List String)
    (body tail : List Node) (decls : List Declaration) : Prop where
  inputs_eq : t.inputs.map (fun v => names v.id) = inputs.map some
  inputs_info : t.inputs.map (fun v => (symbols.renderShape? v.type).map fun shape =>
    (⟨shape, v.type.dtype, .declared⟩ : Info)) = inputs.map info
  inputs_rendered : ∀ v ∈ t.inputs, (symbols.renderShape? v.type).isSome
  constants : ∀ c ∈ t.constants, ∃ x, σ.table.find? c.2 = some x ∧ names c.1.id = some x
  reads : ScopedFrom t.given t.equations
  emits : List.Forall₂ (EmitsWith program symbols targets σ.table names info) t.equations body
  results : ∀ a ∈ t.outputs, a.IsKnown (t.given ++ madeBy t.equations)
  declares : Declares σ.table names inputs [] t.outputs tail decls
  own_nodup : (inputs ++ (body ++ tail).flatMap Node.outputs).Nodup
  own_used : ∀ x ∈ inputs ++ (body ++ tail).flatMap Node.outputs, x ∈ σ.used
  own_new : ∀ x ∈ inputs ++ (body ++ tail).flatMap Node.outputs, x ∉ σ.table.names
  nodes_nodup : ((body ++ tail).map Node.name).Nodup
  info_own : ∀ x, info x ≠ none → x ∈ inputs ++ body.flatMap Node.outputs

theorem mem_own_of_mem {inputs : List String} {body : List Node} {x : String}
    (hx : x ∈ inputs ++ body.flatMap Node.outputs) (tail : List Node) :
    x ∈ inputs ++ (body ++ tail).flatMap Node.outputs := by
  rw [List.flatMap_append, ← List.append_assoc]
  exact List.mem_append_left _ hx

/-! ## Names of variables -/

section Names

variable {program : Program} {symbols : SymbolTable} {targets : Targets} {table : InitializerTable}
  {names : Nat → Option String} {info : String → Option Info}

theorem exists_of_map_eq_map_some {α β : Type} {f : α → Option β} {xs : List α} {ys : List β}
    (h : xs.map f = ys.map some) {a : α} (ha : a ∈ xs) : ∃ b ∈ ys, f a = some b := by
  have : f a ∈ ys.map some := h ▸ List.mem_map_of_mem ha
  obtain ⟨b, hb, hfb⟩ := List.mem_map.1 this
  exact ⟨b, hb, hfb.symm⟩

theorem mem_of_forall₂ {α β : Type} {R : α → β → Prop} {as : List α} {bs : List β}
    (h : List.Forall₂ R as bs) {b : β} (hb : b ∈ bs) : ∃ a ∈ as, R a b := by
  induction h with
  | nil => simp at hb
  | @cons a b' as bs hab _ ih =>
    rcases List.mem_cons.1 hb with rfl | hb
    · exact ⟨a, by simp, hab⟩
    · obtain ⟨a, ha, hab⟩ := ih hb
      exact ⟨a, by simp [ha], hab⟩

theorem exists_of_forall₂ {α β : Type} {R : α → β → Prop} {as : List α} {bs : List β}
    (h : List.Forall₂ R as bs) {i : Nat} {a : α} (ha : as[i]? = some a) :
    ∃ b, bs[i]? = some b ∧ R a b := by
  induction h generalizing i with
  | nil => simp at ha
  | @cons a' b as bs hab _ ih =>
    cases i with
    | zero =>
      obtain rfl : a' = a := by simpa using ha
      exact ⟨b, by simp, hab⟩
    | succ i => simpa using ih (by simpa using ha)

/-- The outputs of a node are what the outputs of its equation go by. -/
theorem Emits.outputs_eq {e : Equation} {n : Node} {placed : List (Option Info)}
    (h : Emits program targets table names e n placed) :
    e.outputs.map (fun v => names v.id) = n.outputs.map some := by
  cases h with
  | primitive callee operation inputs outputs lhs rhs out => simp [outputs, Node.plain, out]
  | call calls known inputs outputs target count => exact outputs

/-- A variable that equations make goes by an output of their nodes. -/
theorem exists_name_of_madeBy {es : List Equation} {nodes : List Node}
    (h : List.Forall₂ (EmitsWith program symbols targets table names info) es nodes) {id : Nat}
    (hid : id ∈ madeBy es) : ∃ x ∈ nodes.flatMap Node.outputs, names id = some x := by
  induction h with
  | nil => simp [madeBy] at hid
  | @cons e n es nodes hen _ ih =>
    obtain ⟨placed, hemits, -⟩ := hen
    rw [madeBy, List.flatMap_cons, List.mem_append] at hid
    rcases hid with hid | hid
    · obtain ⟨v, hv, rfl⟩ := List.mem_map.1 hid
      obtain ⟨x, hx, hname⟩ := exists_of_map_eq_map_some hemits.outputs_eq hv
      exact ⟨x, by simp [hx], hname⟩
    · obtain ⟨x, hx, hname⟩ := ih hid
      exact ⟨x, by rw [List.flatMap_cons]; exact List.mem_append_right _ hx, hname⟩

end Names

namespace Translation

variable {program : Program} {symbols : SymbolTable} {targets : Targets} {σ : Shared}
  {names : Nat → Option String} {info : String → Option Info} {t : Trace} {inputs : List String}
  {body tail : List Node} {decls : List Declaration}

/-- A variable that the trace starts with goes by an input or a constant. -/
theorem exists_name_of_given
    (h : Translation program symbols targets σ names info t inputs body tail decls) {id : Nat}
    (hid : id ∈ t.given) : ∃ x, names id = some x ∧ (x ∈ inputs ∨ x ∈ σ.table.names) := by
  rcases List.mem_append.1 hid with hid | hid
  · obtain ⟨v, hv, rfl⟩ := List.mem_map.1 hid
    obtain ⟨x, hx, hname⟩ := exists_of_map_eq_map_some h.inputs_eq hv
    exact ⟨x, hname, Or.inl hx⟩
  · obtain ⟨c, hc, rfl⟩ := List.mem_map.1 hid
    obtain ⟨x, hx, hname⟩ := h.constants c hc
    exact ⟨x, hname, Or.inr (InitializerTable.mem_names_of_find? hx)⟩

/-- An operand goes by an input, a constant or an output of a node. -/
theorem mem_of_name? (h : Translation program symbols targets σ names info t inputs body tail decls)
    {a : Atom} (ha : a.IsKnown (t.given ++ madeBy t.equations)) {x : String}
    (hx : a.name? σ.table names = some x) :
    x ∈ inputs ++ body.flatMap Node.outputs ∨ x ∈ σ.table.names := by
  cases a with
  | literal t => exact Or.inr (InitializerTable.mem_names_of_find? hx)
  | var v =>
    rcases List.mem_append.1 ha with hid | hid
    · obtain ⟨y, hy, hmem⟩ := h.exists_name_of_given hid
      obtain rfl : y = x := Option.some.inj (hy.symm.trans hx)
      exact hmem.imp_left (List.mem_append_left _)
    · obtain ⟨y, hmem, hy⟩ := exists_name_of_madeBy h.emits hid
      obtain rfl : y = x := Option.some.inj (hy.symm.trans hx)
      exact Or.inl (List.mem_append_right _ hmem)

/-- A constant has no record. -/
theorem info_eq_none_of_mem_names
    (h : Translation program symbols targets σ names info t inputs body tail decls) {x : String}
    (hx : x ∈ σ.table.names) : info x = none := by
  by_contra hne
  exact h.own_new x (mem_own_of_mem (h.info_own x hne) tail) hx

end Translation

/-! ## Growing -/

section Mono

variable {program : Program} {settings : Params} {symbols : SymbolTable}
  {targets targets' : Targets} {σ τ : Shared} {names names' : Nat → Option String}
  {info : String → Option Info}

theorem map_eq_map_some_mono {α β : Type} {f g : α → Option β}
    (h : ∀ a b, f a = some b → g a = some b) :
    ∀ {xs : List α} {ys : List β}, xs.map f = ys.map some → xs.map g = ys.map some
  | [], [], _ => rfl
  | [], _ :: _, hxy => by simp at hxy
  | _ :: _, [], hxy => by simp at hxy
  | a :: xs, b :: ys, hxy => by
    simp only [List.map_cons, List.cons.injEq] at hxy
    rw [List.map_cons, List.map_cons, h a b hxy.1, map_eq_map_some_mono h hxy.2]

theorem Atom.name?_mono (hle : σ.Le τ) (hnames : ∀ id x, names id = some x → names' id = some x)
    (a : Atom) (x : String) (h : a.name? σ.table names = some x) :
    a.name? τ.table names' = some x := by
  cases a with
  | var v => exact hnames _ _ h
  | literal t => exact hle.find? h

theorem Emits.mono (hle : σ.Le τ) (hnames : ∀ id x, names id = some x → names' id = some x)
    (htargets : ∀ i ts g, targets i ts g → targets' i ts g) {e : Equation} {n : Node}
    {placed : List (Option Info)} (h : Emits program targets σ.table names e n placed) :
    Emits program targets' τ.table names' e n placed := by
  cases h with
  | primitive callee operation inputs outputs lhs rhs out =>
    exact .primitive callee operation inputs outputs (Atom.name?_mono hle hnames _ _ lhs)
      (Atom.name?_mono hle hnames _ _ rhs) (hnames _ _ out)
  | call calls known inputs outputs target count =>
    exact .call calls known (map_eq_map_some_mono (Atom.name?_mono hle hnames) inputs)
      (map_eq_map_some_mono (fun v : Var => hnames v.id) outputs) (htargets _ _ _ target) count

theorem Declares.mono (hle : σ.Le τ) (hnames : ∀ id x, names id = some x → names' id = some x)
    {inputs : List String} {declared : List String} {atoms : List Atom} {nodes : List Node}
    {decls : List Declaration} (h : Declares σ.table names inputs declared atoms nodes decls)
    (hused : ∀ a ∈ atoms, ∀ x, a.name? σ.table names = some x → x ∈ σ.used) :
    Declares τ.table names' inputs declared atoms nodes decls := by
  induction h with
  | nil => exact .nil
  | @own declared a x rest nodes decls source notInput notConstant notDeclared next ih =>
    exact .own (a.name?_mono hle hnames _ source) notInput
      (hle.not_mem_names (hused a (by simp) _ source) notConstant) notDeclared
      (ih fun a ha => hused a (by simp [ha]))
  | @routed declared a x out nodeName rest nodes decls source aliased next ih =>
    exact .routed (a.name?_mono hle hnames _ source) (aliased.imp_right (Or.imp_left hle.mem_names))
      (ih fun a ha => hused a (by simp [ha]))

/-- What an output of the trace goes by is a taken name. -/
theorem Translation.mem_used {t : Trace} {inputs : List String} {body tail : List Node}
    {decls : List Declaration}
    (h : Translation program symbols targets σ names info t inputs body tail decls)
    (htable : σ.table.names ⊆ σ.used) {a : Atom} (ha : a ∈ t.outputs) {x : String}
    (hx : a.name? σ.table names = some x) : x ∈ σ.used := by
  rcases h.mem_of_name? (h.results a ha) hx with hmem | hmem
  · exact h.own_used x (mem_own_of_mem hmem tail)
  · exact htable hmem

theorem Translation.mono {t : Trace} {inputs : List String} {body tail : List Node}
    {decls : List Declaration}
    (h : Translation program symbols targets σ names info t inputs body tail decls) (hle : σ.Le τ)
    (htable : σ.table.names ⊆ σ.used) (htargets : ∀ i ts g, targets i ts g → targets' i ts g) :
    Translation program symbols targets' τ names info t inputs body tail decls where
  inputs_eq := h.inputs_eq
  inputs_info := h.inputs_info
  inputs_rendered := h.inputs_rendered
  constants c hc := by
    obtain ⟨x, hx, hname⟩ := h.constants c hc
    exact ⟨x, hle.find? hx, hname⟩
  reads := h.reads
  emits := h.emits.imp fun _ _ ⟨placed, hemits, hinfo⟩ =>
    ⟨placed, hemits.mono hle (fun _ _ => id) htargets, hinfo⟩
  results := h.results
  declares := h.declares.mono hle (fun _ _ => id) fun _ ha _ => h.mem_used htable ha
  own_nodup := h.own_nodup
  own_used x hx := hle.used (h.own_used x hx)
  own_new x hx := hle.not_mem_names (h.own_used x hx) (h.own_new x hx)
  nodes_nodup := h.nodes_nodup
  info_own := h.info_own

end Mono

/-! ## Steps -/

section Steps

variable {program : Program} {symbols : SymbolTable} {targets targets' : Targets} {σ τ : Shared}
  {names names' : Nat → Option String} {info info' : String → Option Info}

/-- The shared state, the names of variables and the records of a level grow, and nothing changes
for names that were taken. -/
structure Grown (targets targets' : Targets) (σ τ : Shared) (names names' : Nat → Option String)
    (info info' : String → Option Info) : Prop where
  le : σ.Le τ
  table_used : σ.table.names ⊆ σ.used
  targets : ∀ i ts g, targets i ts g → targets' i ts g
  names : ∀ id x, names id = some x → names' id = some x
  info : ∀ x ∈ σ.used, info' x = info x

theorem Grown.emits (hg : Grown targets targets' σ τ names names' info info') {es : List Equation}
    {nodes : List Node}
    (h : List.Forall₂ (EmitsWith program symbols targets σ.table names info) es nodes)
    (hused : ∀ x ∈ nodes.flatMap Node.outputs, x ∈ σ.used) :
    List.Forall₂ (EmitsWith program symbols targets' τ.table names' info') es nodes := by
  induction h with
  | nil => exact .nil
  | @cons e n es nodes hen _ ih =>
    obtain ⟨placed, hemits, hagrees, hinfo⟩ := hen
    rw [List.flatMap_cons] at hused
    refine .cons ⟨placed, hemits.mono hg.le hg.names hg.targets, hagrees, ?_⟩
      (ih fun x hx => hused x (List.mem_append_right _ hx))
    rw [← hinfo]
    exact List.map_congr_left fun x hx => hg.info x (hused x (List.mem_append_left _ hx))

theorem scopedFrom_append_singleton {ids : List Nat} {es : List Equation} {e : Equation} :
    ScopedFrom ids (es ++ [e]) ↔ ScopedFrom ids es ∧ ∀ a ∈ e.inputs,
      a.IsKnown (ids ++ madeBy es) := by
  induction es generalizing ids with
  | nil => simp [ScopedFrom, madeBy]
  | cons e' rest ih => simp [ScopedFrom, ih, madeBy, and_assoc]

theorem forall₂_append_singleton {α β : Type} {R : α → β → Prop} {as : List α} {bs : List β}
    (h : List.Forall₂ R as bs) {a : α} {b : β} (hab : R a b) :
    List.Forall₂ R (as ++ [a]) (bs ++ [b]) :=
  List.rel_append h (.cons hab .nil)

namespace Translation

/-- An input is added to a level that has nothing but inputs. -/
theorem addInput {inputs : List String} {vs : List Var}
    (h : Translation program symbols targets σ names info ⟨vs, [], [], []⟩ inputs [] [] [])
    (hg : Grown targets targets' σ τ names names' info info') {v : Var} {x : String}
    {shape : List ShapeDim} (hshape : symbols.renderShape? v.type = some shape)
    (hname : names' v.id = some x) (hinfo : info' x = some ⟨shape, v.type.dtype, .declared⟩)
    (hother : ∀ y, y ≠ x → info' y = info y) (hfree : x ∉ σ.used) (hused : x ∈ τ.used)
    (hnew : x ∉ τ.table.names) :
    Translation program symbols targets' τ names' info' ⟨vs ++ [v], [], [], []⟩ (inputs ++ [x]) []
      [] [] where
  inputs_eq := by
    rw [List.map_append, List.map_append,
      map_eq_map_some_mono (fun w : Var => hg.names w.id) h.inputs_eq]
    simp [hname]
  inputs_info := by
    have hold : inputs.map info' = inputs.map info :=
      List.map_congr_left fun y hy => hg.info y (h.own_used y (List.mem_append_left _ hy))
    rw [List.map_append, List.map_append, hold, h.inputs_info]
    simp [hshape, hinfo]
  inputs_rendered w hw := by
    rcases List.mem_append.1 hw with hw | hw
    · exact h.inputs_rendered w hw
    · obtain rfl : w = v := by simpa using hw
      simp [hshape]
  constants := by simp
  reads := trivial
  emits := .nil
  results := by simp
  declares := .nil
  own_nodup := by
    have hnodup : inputs.Nodup := by simpa using h.own_nodup
    have hx : x ∉ inputs := fun hx => hfree (h.own_used x (List.mem_append_left _ hx))
    simpa [List.nodup_append, hnodup] using fun y hy => ne_of_mem_of_not_mem hy hx
  own_used y hy := by
    have hy' : y ∈ inputs ∨ y = x := by simpa using hy
    rcases hy' with hy | rfl
    · exact hg.le.used (h.own_used y (List.mem_append_left _ hy))
    · exact hused
  own_new y hy := by
    have hy' : y ∈ inputs ∨ y = x := by simpa using hy
    rcases hy' with hy | rfl
    · exact hg.le.not_mem_names (h.own_used y (List.mem_append_left _ hy))
        (h.own_new y (List.mem_append_left _ hy))
    · exact hnew
  nodes_nodup := by simp
  info_own y hy := by
    by_cases hyx : y = x
    · simp [hyx]
    · have := h.info_own y (hother y hyx ▸ hy)
      simpa using Or.inl (by simpa using this)

/-- A constant is added to a level that has only inputs and constants. -/
theorem addConstant {inputs : List String} {vs : List Var} {cs : List (Var × Tensor)}
    (h : Translation program symbols targets σ names info ⟨vs, cs, [], []⟩ inputs [] [] [])
    (hg : Grown targets targets' σ τ names names' info info) {v : Var} {t : Tensor} {x : String}
    (hfind : τ.table.find? t = some x) (hname : names' v.id = some x) :
    Translation program symbols targets' τ names' info
      ⟨vs, cs ++ [(v, t)], [], []⟩ inputs [] [] [] where
  inputs_eq := map_eq_map_some_mono (fun w : Var => hg.names w.id) h.inputs_eq
  inputs_info := h.inputs_info
  inputs_rendered := h.inputs_rendered
  constants c hc := by
    rcases List.mem_append.1 hc with hc | hc
    · obtain ⟨y, hy, hcy⟩ := h.constants c hc
      exact ⟨y, hg.le.find? hy, hg.names _ _ hcy⟩
    · obtain rfl : c = (v, t) := by simpa using hc
      exact ⟨x, hfind, hname⟩
  reads := trivial
  emits := .nil
  results := by simp
  declares := .nil
  own_nodup := h.own_nodup
  own_used y hy := hg.le.used (h.own_used y hy)
  own_new y hy := hg.le.not_mem_names (h.own_used y hy) (h.own_new y hy)
  nodes_nodup := by simp
  info_own := h.info_own

/-- The node of an equation is added behind those of the equations before it. -/
theorem addEquation {inputs : List String} {vs : List Var} {cs : List (Var × Tensor)}
    {es : List Equation} {body : List Node}
    (h : Translation program symbols targets σ names info ⟨vs, cs, es, []⟩ inputs body [] [])
    (hg : Grown targets targets' σ τ names names' info info') {e : Equation} {n : Node}
    (hread : ∀ a ∈ e.inputs, a.IsKnown (Trace.given ⟨vs, cs, es, []⟩ ++ madeBy es))
    (hemits : EmitsWith program symbols targets' τ.table names' info' e n)
    (hother : ∀ x, x ∉ n.outputs → info' x = info x) (hnodup : n.outputs.Nodup)
    (hfree : ∀ x ∈ n.outputs, x ∉ σ.used) (hused : ∀ x ∈ n.outputs, x ∈ τ.used)
    (hnew : ∀ x ∈ n.outputs, x ∉ τ.table.names) (hnode : ∀ m ∈ body, m.name ≠ n.name) :
    Translation program symbols targets' τ names' info' ⟨vs, cs, es ++ [e], []⟩ inputs (body ++ [n])
      [] [] := by
  have hown : inputs ++ ((body ++ [n]) ++ []).flatMap Node.outputs =
      (inputs ++ (body ++ []).flatMap Node.outputs) ++ n.outputs := by simp
  have hbody : ∀ x ∈ inputs ++ body.flatMap Node.outputs, x ∈ σ.used := by simpa using h.own_used
  exact
    { inputs_eq := map_eq_map_some_mono (fun w : Var => hg.names w.id) h.inputs_eq
      inputs_info := by
        rw [h.inputs_info]
        exact List.map_congr_left fun y hy => (hg.info y (hbody y (List.mem_append_left _ hy))).symm
      inputs_rendered := h.inputs_rendered
      constants := fun c hc => by
        obtain ⟨y, hy, hcy⟩ := h.constants c hc
        exact ⟨y, hg.le.find? hy, hg.names _ _ hcy⟩
      reads := scopedFrom_append_singleton.2 ⟨h.reads, hread⟩
      emits :=
        forall₂_append_singleton (hg.emits h.emits fun x hx => hbody x (List.mem_append_right _ hx))
          hemits
      results := by simp
      declares := .nil
      own_nodup := by
        rw [hown]
        refine List.nodup_append.2 ⟨h.own_nodup, hnodup, ?_⟩
        rintro x hx _ hxn rfl
        exact hfree x hxn (h.own_used x hx)
      own_used := fun x hx => by
        rcases List.mem_append.1 (hown ▸ hx) with hx | hx
        · exact hg.le.used (h.own_used x hx)
        · exact hused x hx
      own_new := fun x hx => by
        rcases List.mem_append.1 (hown ▸ hx) with hx | hx
        · exact hg.le.not_mem_names (h.own_used x hx) (h.own_new x hx)
        · exact hnew x hx
      nodes_nodup := by
        have hnames : (body.map Node.name).Nodup := by simpa using h.nodes_nodup
        simpa [List.nodup_append, hnames] using hnode
      info_own := fun x hx => by
        by_cases hxn : x ∈ n.outputs
        · simp [hxn]
        · have := h.info_own x (hother x hxn ▸ hx)
          rw [List.flatMap_append, ← List.append_assoc]
          exact List.mem_append_left _ this }

/-- An output is declared, behind the nodes `new`. -/
theorem addOutput {t : Trace} {inputs : List String} {body tail new : List Node}
    {decls : List Declaration} {d : Declaration}
    (h : Translation program symbols targets σ names info t inputs body tail decls)
    (hg : Grown targets targets' σ τ names names info info) {a : Atom}
    (ha : a.IsKnown (t.given ++ madeBy t.equations))
    (hdeclares : Declares τ.table names inputs [] (t.outputs ++ [a]) (tail ++ new) (decls ++ [d]))
    (hnodup : (new.flatMap Node.outputs).Nodup) (hfree : ∀ x ∈ new.flatMap Node.outputs, x ∉ σ.used)
    (hused : ∀ x ∈ new.flatMap Node.outputs, x ∈ τ.used)
    (hnew : ∀ x ∈ new.flatMap Node.outputs, x ∉ τ.table.names)
    (hnodes : ((body ++ tail ++ new).map Node.name).Nodup) :
    Translation program symbols targets' τ names info
      { t with outputs := t.outputs ++ [a] } inputs body (tail ++ new) (decls ++ [d]) := by
  have hown : inputs ++ (body ++ (tail ++ new)).flatMap Node.outputs =
      (inputs ++ (body ++ tail).flatMap Node.outputs) ++ new.flatMap Node.outputs := by simp
  have hmono := h.mono hg.le hg.table_used hg.targets
  exact
    { inputs_eq := h.inputs_eq
      inputs_info := h.inputs_info
      inputs_rendered := h.inputs_rendered
      constants := hmono.constants
      reads := h.reads
      emits := hmono.emits
      results := fun b hb => by
        rcases List.mem_append.1 hb with hb | hb
        · exact h.results b hb
        · obtain rfl : b = a := by simpa using hb
          exact ha
      declares := hdeclares
      own_nodup := by
        rw [hown]
        refine List.nodup_append.2 ⟨h.own_nodup, hnodup, ?_⟩
        rintro x hx _ hxn rfl
        exact hfree x hxn (h.own_used x hx)
      own_used := fun x hx => by
        rcases List.mem_append.1 (hown ▸ hx) with hx | hx
        · exact hmono.own_used x hx
        · exact hused x hx
      own_new := fun x hx => by
        rcases List.mem_append.1 (hown ▸ hx) with hx | hx
        · exact hmono.own_new x hx
        · exact hnew x hx
      nodes_nodup := by rwa [← List.append_assoc]
      info_own := h.info_own }

end Translation

theorem Declares.append_own {table : InitializerTable} {inputs declared : List String}
    {atoms : List Atom} {nodes : List Node} {decls : List Declaration}
    (h : Declares table names inputs declared atoms nodes decls) {a : Atom} {x : String}
    (source : a.name? table names = some x) (notInput : x ∉ inputs) (notConstant : x ∉ table.names)
    (notDeclared : x ∉ declared ++ decls.map Declaration.name) :
    Declares table names inputs declared (atoms ++ [a]) nodes (decls ++ [⟨x, x, a.type⟩]) := by
  induction h with
  | nil => exact .own source notInput notConstant (by simpa using notDeclared) .nil
  | own source' notInput' notConstant' notDeclared' next ih =>
    exact .own source' notInput' notConstant' notDeclared' (ih (by simpa using notDeclared))
  | routed source' aliased next ih =>
    exact .routed source' aliased (ih (by simpa using notDeclared))

theorem Declares.append_routed {table : InitializerTable} {inputs declared : List String}
    {atoms : List Atom} {nodes : List Node} {decls : List Declaration}
    (h : Declares table names inputs declared atoms nodes decls) {a : Atom} {x : String}
    (source : a.name? table names = some x)
    (aliased : x ∈ inputs ∨ x ∈ table.names ∨ x ∈ declared ++ decls.map Declaration.name)
    (out nodeName : String) :
    Declares table names inputs declared (atoms ++ [a])
      (nodes ++ [.plain "Identity" nodeName [x] [out]]) (decls ++ [⟨out, x, a.type⟩]) := by
  induction h with
  | nil => exact .routed source (by simpa using aliased) .nil
  | own source' notInput' notConstant' notDeclared' next ih =>
    exact .own source' notInput' notConstant' notDeclared' (ih (by simpa using aliased))
  | routed source' aliased' next ih => exact .routed source' aliased' (ih (by simpa using aliased))

end Steps

end TensorGraph
