import TensorGraph.Proofs.DeadNodes
import TensorGraph.Proofs.TotalConversion
import TensorGraph.Proofs.UniqueFunctions

/-!
# The functions of a converted model

In a converted model functions have different names and call only functions before them, also after
dead nodes are removed (`Model.Layered`). Before that, no two functions have the same body, and
calls of one callable on the same argument types refer to one function, however deep inside other
calls they are (`functions_of_convert`). Calls inside calls are found by their places, in the trace
(`Program.callAt?`) and in the model (`Model.nodeAt?`).
-/

namespace TensorGraph

/-! ## Callees first -/

/-- Every call of a function refers to one at an earlier place. -/
theorem CalleesFirst.exists_lt {known : List String} {functions : List Function}
    (h : CalleesFirst known functions) {i : Nat} {f : Function} (hf : functions[i]? = some f)
    {n : Node} (hn : n ∈ f.nodes) (hcall : n.isCall = true) :
    n.opType ∈ known ∨ ∃ j < i, ∃ g, functions[j]? = some g ∧ g.name = n.opType := by
  induction functions generalizing known i with
  | nil => simp at hf
  | cons f' rest ih =>
    cases i with
    | zero =>
      obtain rfl : f' = f := by simpa using hf
      exact Or.inl (h.1 n hn hcall)
    | succ i =>
      rcases ih h.2 (by simpa using hf) with hknown | ⟨j, hj, g, hg, hname⟩
      · rcases List.mem_append.1 hknown with hknown | hname
        · exact Or.inl hknown
        · exact Or.inr ⟨0, Nat.succ_pos i, f', rfl, (List.mem_singleton.1 hname).symm⟩
      · exact Or.inr ⟨j + 1, Nat.succ_lt_succ hj, g, by simpa using hg, hname⟩

/-- Removing dead nodes and functions that are not reached keeps callees first. -/
theorem CalleesFirst.kept {known known' reached : List String} {functions : List Function}
    (h : CalleesFirst known functions) (hknown : ∀ x ∈ known, x ∈ reached → x ∈ known')
    (hclosed : ∀ f ∈ functions, f.name ∈ reached → ∀ n ∈ f.withoutDeadNodes.nodes, n.isCall = true →
      n.opType ∈ reached) : CalleesFirst known' (keptFunctions functions reached) := by
  induction functions generalizing known known' with
  | nil => trivial
  | cons f rest ih =>
    rw [List.forall_mem_cons] at hclosed
    by_cases hf : f.name ∈ reached
    · have hkept :
        keptFunctions (f :: rest) reached = f.withoutDeadNodes :: keptFunctions rest reached := by
        simp [keptFunctions, Function.withoutDeadNodes, hf]
      rw [hkept]
      refine ⟨fun n hn hcall => ?_, ih h.2 (fun x hx hreached => ?_) hclosed.2⟩
      · have hmem : n ∈ f.nodes := (liveNodes_sublist f.outputs f.nodes).subset hn
        exact hknown _ (h.1 n hmem hcall) (hclosed.1 hf n hn hcall)
      · rcases List.mem_append.1 hx with hx | hx
        · exact List.mem_append_left _ (hknown x hx hreached)
        · exact List.mem_append_right _ hx
    · have hkept : keptFunctions (f :: rest) reached = keptFunctions rest reached := by
        simp [keptFunctions, Function.withoutDeadNodes, hf]
      rw [hkept]
      refine ih h.2 (fun x hx hreached => ?_) hclosed.2
      rcases List.mem_append.1 hx with hx | hx
      · exact hknown x hx hreached
      · exact absurd (List.mem_singleton.1 hx ▸ hreached) hf

/-- The functions of a model have different names and call only functions before them. -/
structure Model.Layered (m : Model) : Prop where
  nodup : (m.functions.map Function.name).Nodup
  ordered : CalleesFirst [] m.functions

namespace Model.Layered

variable {m : Model}

theorem prune (h : m.Layered) : m.prune.Layered :=
  ⟨h.nodup, h.ordered⟩

theorem withoutDeadNodes (h : m.Layered) : m.withoutDeadNodes.Layered where
  nodup := by
    have hnames : (m.functions.map Function.withoutDeadNodes).map Function.name =
        m.functions.map Function.name := by
      rw [List.map_map]
      rfl
    rw [Model.functions_withoutDeadNodes, keptFunctions]
    exact (hnames ▸ h.nodup).sublist (List.filter_sublist.map Function.name)
  ordered := by
    rw [Model.functions_withoutDeadNodes]
    exact h.ordered.kept (by simp) fun f hf hreached n => Model.mem_reached_of_call hf hreached

/-- A finished model is layered like the lowered one. -/
theorem finished (h : m.Layered) (optimizer : Optimizer) (options : ConversionOptions) :
    (m.finished optimizer options).Layered :=
  Model.finished_of_steps (fun _ h => prune h) (fun _ h => withoutDeadNodes h) h optimizer options

end Model.Layered

/-! ## Calls inside calls -/

/-- The trace inside calls, which are given by their places from the outermost on. -/
def Program.traceAt? (settings : Params) (program : Program) : List Nat → Trace → Option Trace
  | [], t => some t
  | place :: path, t => do
    let e ← t.equations[place]?
    let index ← e.callee?
    let c ← program[index]?
    match c.tracer settings (tracers settings (program.take index)) (e.inputs.map Atom.type)
      .start with
    | .ok (inner, _) => traceAt? settings program path inner
    | .error _ => none

/-- The callable that an equation inside calls calls, and the types of the arguments. -/
def Program.callAt? (settings : Params) (program : Program) (path : List Nat) (place : Nat)
    (t : Trace) :
    Option (Nat × List AbstractValue) := do
  let inner ← traceAt? settings program path t
  let e ← inner.equations[place]?
  let index ← e.callee?
  return (index, e.inputs.map Atom.type)

/-- The nodes inside calls, which are given by their places from the outermost on. -/
def nodesAt? (functions : List Function) : List Nat → List Node → Option (List Node)
  | [], nodes => some nodes
  | place :: path, nodes => do
    let n ← nodes[place]?
    let f ← findFunction? functions n.opType
    nodesAt? functions path f.nodes

/-- A node of a model inside calls. -/
def Model.nodeAt? (m : Model) (path : List Nat) (place : Nat) : Option Node := do
  let nodes ← nodesAt? m.functions path m.graph.nodes
  nodes[place]?

section

variable {program : Program} {settings : Params} {symbols : SymbolTable} {σ : Shared} {t : Trace}

/-- The calls of a trace have their nodes at the places of the equations, and refer to functions
that implement what they call. -/
def CallsAt (program : Program) (settings : Params) (symbols : SymbolTable) (σ : Shared) (t : Trace)
    (nodes : List Node) : Prop :=
  ∀ (place : Nat) (e : Equation) (index : Nat), t.equations[place]? = some e →
    e.callee? = some index →
    ∃ (n : Node) (callee : Callee), nodes[place]? = some n ∧ n.isCall = true ∧
      n.opType = callee.function.name ∧
      Implements program settings symbols σ index (e.inputs.map Atom.type) callee

theorem Level.Translates.callsAt {targets : Targets} {names : Nat → Option String}
    {info : String → Option Info} {l : Level} {body tail : List Node} {decls : List Declaration}
    (h : l.Translates program symbols targets σ names info t body tail decls)
    (inner : ∀ i ts g, targets i ts g → Implements program settings symbols σ i ts g) :
    CallsAt program settings symbols σ t l.nodes := by
  intro place e index he hindex
  obtain ⟨n, hn, placed, hemits, -⟩ := exists_of_forall₂ h.translation.emits he
  have hplace : l.nodes[place]? = some n := by
    rw [h.nodes, List.getElem?_append_left (List.getElem?_eq_some_iff.1 hn).1, hn]
  cases hemits with
  | primitive callee operation inputs outputs lhs rhs out => simp [callee] at hindex
  | @call index' c callee data outs nodeName calls known inputs outputs target count =>
    obtain rfl : index' = index := Option.some.inj (calls.symm.trans hindex)
    exact ⟨_, callee, hplace, by simp [Callable.node, Node.isCall], rfl, inner _ _ _ target⟩

/-- So do the calls of a callable's trace in the function that implements it. -/
theorem Implements.callsAt {index : Nat} {types : List AbstractValue} {callee : Callee}
    (h : Implements program settings symbols σ index types callee) :
    ∃ c t counts counts', program[index]? = some c ∧
      c.tracer settings (Program.tracers settings (program.take index)) types counts =
        .ok (t, counts') ∧
      CallsAt program settings symbols σ t callee.function.nodes := by
  cases h with
  | @intro _ counts counts' c _ t l _ _ _ _ _ _ _ f known trace inner translates
    function same member captured infos =>
    refine ⟨c, t, counts, counts', known, trace, fun place e index he hindex => ?_⟩
    obtain ⟨n, g, hn, hcall, hname, hg⟩ := translates.callsAt inner place e index he hindex
    rw [captured] at function
    have hlocal := translates.localizes (captureFrom_of_inner inner) function
    refine ⟨n.localized (l.localNames (l.referencedInitializers σ.table)) place, g, ?_, hcall,
      hname, hg⟩
    rw [same, hlocal.nodes, List.getElem?_map, List.getElem?_zipIdx, hn]
    simp

/-- Calls inside calls have their nodes too. -/
theorem exists_nodesAt? (hσ : σ.Sound program settings symbols)
    (hrepeat : program.Repeatable settings) {path : List Nat} {nodes : List Node} {inner : Trace}
    (hcalls : CallsAt program settings symbols σ t nodes)
    (h : Program.traceAt? settings program path t = some inner) :
    ∃ innerNodes, nodesAt? σ.functions path nodes = some innerNodes ∧
      CallsAt program settings symbols σ inner innerNodes := by
  induction path generalizing t nodes with
  | nil =>
    obtain rfl : t = inner := by simpa [Program.traceAt?] using h
    exact ⟨nodes, rfl, hcalls⟩
  | cons place path ih =>
    simp only [Program.traceAt?, Option.bind_eq_bind, Option.bind_eq_some_iff] at h
    obtain ⟨e, he, index, hindex, c, hc, h⟩ := h
    obtain ⟨n, callee, hn, -, hname, hcallee⟩ := hcalls place e index he hindex
    have hfind : findFunction? σ.functions n.opType = some callee.function := by
      rw [hname]
      exact findFunction?_of_mem hσ.functions_nodup hcallee.member
    cases htrace : c.tracer settings (Program.tracers settings (program.take index))
        (e.inputs.map Atom.type) .start with
    | error failure => simp [htrace] at h
    | ok result =>
      obtain ⟨body, counts⟩ := result
      obtain ⟨c', t', counts', _, hc', htrace', hcalls'⟩ := hcallee.callsAt
      obtain rfl : c = c' := Option.some.inj (hc.symm.trans hc')
      obtain rfl : body = t' := hrepeat.trace_unique hc htrace htrace'
      obtain ⟨innerNodes, hnodes, hinner⟩ := ih hcalls' (by simpa [htrace] using h)
      exact ⟨innerNodes, by simp [nodesAt?, hn, hfind, hnodes], hinner⟩

end

/-! ## Lowered models -/

namespace Model.Translates

variable {program : Program} {settings : Params} {symbols : SymbolTable} {t : Trace} {m : Model}

theorem layered (h : m.Translates program settings symbols t) : m.Layered := by
  obtain ⟨σ, l, names, info, body, tail, decls, hσ, -, hm⟩ := h
  exact ⟨hm.functions ▸ hσ.functions_nodup, hm.functions ▸ hσ.ordered⟩

/-- No two functions of a lowered model have the same body. -/
theorem eq_of_sameBody (h : m.Translates program settings symbols t) {i j : Nat} {f g : Function}
    (hf : m.functions[i]? = some f) (hg : m.functions[j]? = some g) (hsame : f.sameBody g = true) :
    i = j := by
  have hnodup := h.layered.nodup
  obtain ⟨σ, l, names, info, body, tail, decls, hσ, -, hm⟩ := h
  have hmem : ∀ {k : Nat} {a : Function}, m.functions[k]? = some a → a ∈ σ.functions := fun ha =>
    hm.functions ▸ List.mem_of_getElem? ha
  obtain rfl := hσ.eq_of_sameBody (hmem hf) (hmem hg) hsame
  exact (List.getElem?_inj (List.getElem?_eq_some_iff.1 hf).1 hnodup.of_map).1 (hf.trans hg.symm)

/-- Calls of one callable on the same argument types refer to one function, wherever they are. -/
theorem nodeAt?_of_callAt? (h : m.Translates program settings symbols t)
    (hrepeat : program.Repeatable settings) {path path' : List Nat} {place place' : Nat}
    {call : Nat × List AbstractValue} (hcall : program.callAt? settings path place t = some call)
    (hcall' : program.callAt? settings path' place' t = some call) :
    ∃ n n', m.nodeAt? path place = some n ∧ m.nodeAt? path' place' = some n' ∧ n.isCall = true ∧
      n'.isCall = true ∧
      n.opType = n'.opType := by
  obtain ⟨σ, l, names, info, body, tail, decls, hσ, htranslates, hm⟩ := h
  have hnode : ∀ {path : List Nat} {place : Nat},
      program.callAt? settings path place t = some call →
      ∃ n callee, m.nodeAt? path place = some n ∧ n.isCall = true ∧
        n.opType = callee.function.name ∧
        Implements program settings symbols σ call.1 call.2 callee := by
    intro path place hcall
    simp only [Program.callAt?, Option.bind_eq_bind, Option.bind_eq_some_iff, pure,
      Option.some.injEq] at hcall
    obtain ⟨inner, hinner, e, he, index, hindex, rfl⟩ := hcall
    obtain ⟨nodes, hnodes, hcalls⟩ :=
      exists_nodesAt? hσ hrepeat (htranslates.callsAt fun _ _ _ => id) hinner
    obtain ⟨n, callee, hn, hisCall, hname, hcallee⟩ := hcalls place e index he hindex
    exact ⟨n, callee, by simp [Model.nodeAt?, hm.functions, hm.nodes, hnodes, hn], hisCall, hname,
      hcallee⟩
  obtain ⟨n, callee, hn, hisCall, hname, hcallee⟩ := hnode hcall
  obtain ⟨n', callee', hn', hisCall', hname', hcallee'⟩ := hnode hcall'
  rw [← hcallee.unique hσ hrepeat hcallee'] at hname'
  exact ⟨n, n', hn, hn', hisCall, hisCall', hname.trans hname'.symm⟩

end Model.Translates

/-! ## Conversions -/

/-- A conversion of callables with repeatable traces gives a model whose functions have different
names and call only functions before them. If it does not optimize, their bodies differ too, and
calls of one callable on the same argument types refer to one function, wherever they are inside
calls. -/
theorem functions_of_convert {optimizer : Optimizer} {program : Program} {inputs : List InputSpec}
    {options : ConversionOptions} {settings : Params} {m : Model}
    (hsettings : options.params = .ok settings) (hrepeat : program.Repeatable settings)
    (h : (convert .builtin optimizer program inputs options).result = .ok m) :
    (m.functions.map Function.name).Nodup ∧
    (∀ (i : Nat) (f : Function), m.functions[i]? = some f → ∀ n ∈ f.nodes, n.isCall = true →
      ∃ j < i, ∃ g : Function, m.functions[j]? = some g ∧ g.name = n.opType) ∧
    (options.optimize = false →
      (∀ (i j : Nat) (f g : Function), m.functions[i]? = some f → m.functions[j]? = some g →
        f.sameBody g = true →
        i = j) ∧
      ∃ entry t counts, program.getLast? = some entry ∧
        entry.tracer settings (Program.tracers settings program.dropLast)
          (InputSpec.abstractAll inputs).2 .start = .ok (t, counts) ∧
        ∀ path place path' place' call,
          Program.callAt? settings program.dropLast path place t = some call →
          Program.callAt? settings program.dropLast path' place' t = some call →
          ∃ n n', m.nodeAt? path place = some n ∧ m.nodeAt? path' place' = some n' ∧
            n.isCall = true ∧
            n'.isCall = true ∧ n.opType = n'.opType) := by
  obtain ⟨entry, settings', t, counts, lowered, hentry, hsettings', htrace, htranslates, rfl⟩ :=
    translates_of_convert h
  obtain rfl : settings = settings' := Except.ok.inj (hsettings.symm.trans hsettings')
  have hlayered := htranslates.layered.finished optimizer options
  refine ⟨hlayered.nodup, fun i f hf n hn hcall => ?_, fun hoptimize => ?_⟩
  · exact (hlayered.ordered.exists_lt hf hn hcall).resolve_left (by simp)
  · have hfinished : lowered.finished optimizer options = lowered.prune := by
      simp [Model.finished, hoptimize]
    rw [hfinished]
    refine ⟨fun i j f g hf hg => htranslates.eq_of_sameBody hf hg, entry, t, counts, hentry,
      htrace, ?_⟩
    intro path place path' place' call hcall hcall'
    exact htranslates.nodeAt?_of_callAt? hrepeat.dropLast hcall hcall'

/-- The calls of one callable on the same types in the example, one in the entry and one inside a
call. -/
theorem Example.callAt?_eq {t : Trace} {counts : Counts}
    (h : sixfold.tracer [] (Program.tracers [] program.dropLast) (InputSpec.abstractAll inputs).2
      .start = .ok (t, counts)) :
    Program.callAt? [] program.dropLast [] 1 t = some (0, (InputSpec.abstractAll inputs).2) ∧
      Program.callAt? [] program.dropLast [0] 1 t = some (0, (InputSpec.abstractAll inputs).2) := by
  have hcalls : (match sixfold.tracer [] (Program.tracers [] program.dropLast)
        (InputSpec.abstractAll inputs).2 .start with
      | .ok (t, _) =>
        decide (Program.callAt? [] program.dropLast [] 1 t =
          some (0, (InputSpec.abstractAll inputs).2) ∧
        Program.callAt? [] program.dropLast [0] 1 t = some (0, (InputSpec.abstractAll inputs).2))
      | .error _ => false) = true := by decide +kernel
  rw [h] at hcalls
  exact of_decide_eq_true hcalls

/-- In the converted example, a call in the graph and one inside a function refer to one
function. -/
theorem functions_of_convert_example : ∃ m n n',
    (convert .builtin .noop Example.program Example.inputs { ConversionOptions.default with
      optimize := false }).result = .ok m ∧ (m.functions.map Function.name).Nodup ∧
      m.nodeAt? [] 1 = some n ∧ m.nodeAt? [0] 1 = some n' ∧
      n.isCall = true ∧ n.opType = n'.opType := by
  obtain ⟨m, h⟩ :=
    Example.exists_convert .noop { ConversionOptions.default with optimize := false } rfl
  obtain ⟨hnodup, -, hshared⟩ := functions_of_convert rfl (Example.repeatable_program []) h
  obtain ⟨-, entry, t, counts, hentry, htrace, hcalls⟩ := hshared rfl
  obtain rfl : Example.sixfold = entry := Option.some.inj hentry
  obtain ⟨hcall, hcall'⟩ := Example.callAt?_eq htrace
  obtain ⟨n, n', hn, hn', hisCall, -, hname⟩ := hcalls [] 1 [0] 1 _ hcall hcall'
  exact ⟨m, n, n', h, hnodup, hn, hn', hisCall, hname⟩

end TensorGraph
