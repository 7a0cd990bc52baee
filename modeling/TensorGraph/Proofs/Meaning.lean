import TensorGraph.Proofs.ModelEvaluation
import TensorGraph.Proofs.ProgramEvaluation

/-!
# Conversion keeps the meaning of programs

Whatever addition, multiplication and power mean, a converted model computes what its program
computes. The proof goes through the static description of levels : where a trace holds of the
values of its variables, the nodes of a level that translates it compute these values
(`Translation.exists_runs`), a function computes what its level does under other names
(`Runs.localized`), and so every function that implements a callable computes what evaluating the
callable gives (`Implements.computes`).
-/

namespace TensorGraph

variable {V : Type}

/-! ## The meaning of nodes -/

/-- The operations of nodes mean what the primitives do, and an identity means its input. -/
def Arithmetic.interpretation (A : Arithmetic V) : Interpretation V where
  constant := A.constant
  apply op domain attributes args :=
    if domain = "" ∧ attributes = [] then
      match args with
      | [x] => if op = "Identity" then some [x] else none
      | [x, y] => (A.operation? op).map fun f => [f x y]
      | _ => none
    else none

namespace Runs

variable {A : Arithmetic V} {functions : List Function} {env env' : Env V} {rest : List Node}
  {x y out nodeName : String} {a b : V}

theorem binary {op : String} {f : V → V → V} (hop : A.operation? op = some f) (hx : env x = some a)
    (hy : env y = some b)
    (hrest : Runs A.interpretation functions (env.define [out] [f a b]) rest env') :
    Runs A.interpretation functions env (.plain op nodeName [x, y] [out] :: rest) env' :=
  @plain _ _ _ _ _ _ _ [a, b] [f a b] rfl (by simp [Node.plain, hx, hy])
    (by simp [Node.plain, Arithmetic.interpretation, hop]) rfl hrest

theorem identity (hx : env x = some a)
    (hrest : Runs A.interpretation functions (env.define [out] [a]) rest env') :
    Runs A.interpretation functions env (.plain "Identity" nodeName [x] [out] :: rest) env' :=
  @plain _ _ _ _ _ _ _ [a] [a] rfl (by simp [Node.plain, hx])
    (by simp [Node.plain, Arithmetic.interpretation]) rfl hrest

theorem trans {I : Interpretation V} {nodes more : List Node} {env'' : Env V}
    (h : Runs I functions env nodes env') (h' : Runs I functions env' more env'') :
    Runs I functions env (nodes ++ more) env'' := by
  induction h with
  | nil => exact h'
  | plain isCall inputs result count next ih => exact .plain isCall inputs result count (ih h')
  | call isCall target inputs arity body result count next _ ih =>
    exact .call isCall target inputs arity body result count (ih h')

end Runs

/-! ## Levels -/

theorem length_eq_of_map_eq_map_some {α β : Type} {f : α → Option β} {as : List α} {bs : List β}
    (h : as.map f = bs.map some) : bs.length = as.length := by
  simpa using (congrArg List.length h).symm

theorem getElem?_of_map_eq_map_some {α β : Type} {f : α → Option β} {as : List α} {bs : List β}
    (h : as.map f = bs.map some) {i : Nat} {a : α} (ha : as[i]? = some a) :
    ∃ b, bs[i]? = some b ∧ f a = some b := by
  have hi : (as.map f)[i]? = (bs.map some)[i]? := by rw [h]
  rw [List.getElem?_map, List.getElem?_map, ha, Option.map_some] at hi
  obtain ⟨b, hb, hab⟩ := Option.map_eq_some_iff.1 hi.symm
  exact ⟨b, hb, hab.symm⟩

/-- The values of constants. -/
def constantEnv (A : Arithmetic V) (table : InitializerTable) : Env V :=
  fun x => (table.get? x).map A.constant

theorem constantEnv_of_find? {A : Arithmetic V} {table : InitializerTable}
    (hnodup : table.names.Nodup) {t : Tensor} {x : String} (h : table.find? t = some x) :
    constantEnv A table x = some (A.constant t) := by
  rw [constantEnv, InitializerTable.get?_of_mem hnodup (InitializerTable.mem_of_find? h),
    Option.map_some]

/-- A function computes what evaluating a callable on arguments of the given types gives, where the
values of the captured constants are passed behind the arguments. -/
def Callee.Computes (A : Arithmetic V) (known : List (Evaluator V)) (σ : Shared) (index : Nat)
    (types : List AbstractValue) (callee : Callee) : Prop :=
  ∀ ⦃eval⦄, known[index]? = some eval → ∀ ⦃args counts results counts'⦄,
    args.map TypedValue.type = types →
    eval args counts = some (results, counts') → ∃ constants inner,
      callee.captured.map (constantEnv A σ.table) = constants.map some ∧
      Runs A.interpretation σ.functions
        (Env.empty.define callee.function.inputs (args.map TypedValue.value ++ constants))
          callee.function.nodes inner ∧
      callee.function.outputs.map inner = (results.map TypedValue.value).map some

/-- The names of known variables and of constants have their values. -/
structure Env.Carries (A : Arithmetic V) (table : InitializerTable) (names : Nat → Option String)
    (ν : Nat → Option V) (ids : List Nat) (defined : List String) (env : Env V) : Prop where
  vars : ∀ id ∈ ids, ∃ x ∈ defined, names id = some x ∧ env x = ν id
  constants : ∀ x ∈ table.names, x ∈ defined ∧ env x = constantEnv A table x

namespace Env.Carries

variable {A : Arithmetic V} {table : InitializerTable} {names : Nat → Option String}
  {ν : Nat → Option V} {ids : List Nat} {defined : List String} {env : Env V}

theorem value_eq (h : env.Carries A table names ν ids defined) (hnodup : table.names.Nodup)
    {a : Atom} (ha : a.IsKnown ids) {x : String} (hx : a.name? table names = some x) :
    env x = a.value? A ν := by
  cases a with
  | var v =>
    obtain ⟨y, -, hy, hvalue⟩ := h.vars v.id ha
    obtain rfl : y = x := Option.some.inj (hy.symm.trans hx)
    exact hvalue
  | literal t =>
    rw [(h.constants x (InitializerTable.mem_names_of_find? hx)).2,
      constantEnv_of_find? hnodup hx]
    rfl

/-- New names keep the values of the others. -/
theorem define (h : env.Carries A table names ν ids defined) {new : List Nat} {outs : List String}
    {values : List V} (hout : ∀ x ∈ defined, x ∉ outs) (houts : outs.Nodup)
    (hnames : new.map names = outs.map some) (hvalues : new.map ν = values.map some) :
    (env.define outs values).Carries A table names ν (ids ++ new) (defined ++ outs) where
  vars id hid := by
    rcases List.mem_append.1 hid with hid | hid
    · obtain ⟨x, hx, hname, hvalue⟩ := h.vars id hid
      exact ⟨x, List.mem_append_left _ hx, hname, by rw [define_of_not_mem (hout x hx), hvalue]⟩
    · obtain ⟨i, hi⟩ := List.mem_iff_getElem?.1 hid
      obtain ⟨x, hx, hname⟩ := getElem?_of_map_eq_map_some hnames hi
      obtain ⟨v, hv, hvalue⟩ := getElem?_of_map_eq_map_some hvalues hi
      have hlength : values.length = outs.length := by
        rw [length_eq_of_map_eq_map_some hvalues, length_eq_of_map_eq_map_some hnames]
      obtain ⟨w, hw, hdefine⟩ := getElem?_of_map_eq_map_some (map_define houts hlength) hx
      obtain rfl : v = w := Option.some.inj (hv.symm.trans hw)
      exact ⟨x, List.mem_append_right _ (List.mem_of_getElem? hx), hname, hdefine.trans hvalue.symm⟩
  constants x hx := by
    obtain ⟨hdefined, hvalue⟩ := h.constants x hx
    exact ⟨List.mem_append_left _ hdefined, by rw [define_of_not_mem (hout x hdefined), hvalue]⟩

theorem mono (h : env.Carries A table names ν ids defined) {ids' : List Nat}
    {defined' : List String} (hids : ids' ⊆ ids) (hdefined : defined ⊆ defined') :
    env.Carries A table names ν ids' defined' where
  vars id hid := by
    obtain ⟨x, hx, hname, hvalue⟩ := h.vars id (hids hid)
    exact ⟨x, hdefined hx, hname, hvalue⟩
  constants x hx := ⟨hdefined (h.constants x hx).1, (h.constants x hx).2⟩

end Env.Carries

section Levels

variable {A : Arithmetic V} {known : List (Evaluator V)} {program : Program} {settings : Params}
  {symbols : SymbolTable} {targets : Targets} {σ : Shared} {names : Nat → Option String}
  {info : String → Option Info} {ν : Nat → Option V} {ids : List Nat} {defined : List String}
  {env : Env V}

theorem map_eq_map_of_named {f : Atom → Option String} {g : Atom → Option V} {atoms : List Atom}
    {data : List String} (h : atoms.map f = data.map some)
    (hnamed : ∀ a ∈ atoms, ∀ x, f a = some x → env x = g a) :
    data.map env = atoms.map g := by
  induction atoms generalizing data with
  | nil =>
    obtain rfl : data = [] := by simpa using h.symm
    rfl
  | cons a atoms ih =>
    cases data with
    | nil => simp at h
    | cons x data =>
      simp only [List.map_cons, List.cons.injEq] at h
      rw [List.map_cons, List.map_cons, hnamed a (by simp) x h.1,
        ih h.2 fun b hb => hnamed b (by simp [hb])]

/-- The node of an equation that holds computes the values of the equation's outputs. -/
theorem Emits.exists_values (hσ : σ.Tidy)
    (inner : ∀ i ts g, targets i ts g → Implements program settings symbols σ i ts g)
    (hcomputes : ∀ i ts g, targets i ts g → g.Computes A known σ i ts) {e : Equation} {n : Node}
    {placed : List (Option Info)} (h : Emits program targets σ.table names e n placed)
    (hholds : e.Holds A known ν) (hknown : ∀ a ∈ e.inputs, a.IsKnown ids)
    (henv : env.Carries A σ.table names ν ids defined) :
    ∃ values, (e.outputs.map Var.id).map ν = values.map some ∧ ∀ {rest env'},
      Runs A.interpretation σ.functions (env.define n.outputs values) rest env' →
        Runs A.interpretation σ.functions env (n :: rest) env' := by
  have hatoms : ∀ a ∈ e.inputs, ∀ x, a.name? σ.table names = some x → env x = a.value? A ν :=
    fun a ha x hx =>
    henv.value_eq hσ.table_nodup (hknown a ha) hx
  cases h with
  | @primitive a b v op x y z nodeName callee operation inputs outputs lhs rhs out =>
    cases hholds with
    | @primitive a' b' v' f p q callee' operation' inputs' outputs' lhs' rhs' out' =>
      obtain ⟨rfl, rfl⟩ : a = a' ∧ b = b' := by simpa using inputs.symm.trans inputs'
      obtain rfl : v = v' := by simpa using outputs.symm.trans outputs'
      obtain ⟨g, hg, hop⟩ := A.exists_of_operation? operation
      obtain rfl : f = g := Option.some.inj (operation'.symm.trans hg)
      rw [inputs] at hatoms
      exact ⟨[f p q], by simp [outputs, out'], fun hrest =>
        Runs.binary hop ((hatoms a (by simp) x lhs).trans lhs')
          ((hatoms b (by simp) y rhs).trans rhs') hrest⟩
    | call callee' => simp [callee] at callee'
  | @call index c g data outs nodeName calls known' inputs outputs target count =>
    cases hholds with
    | primitive callee' => simp [calls] at callee'
    | @call index' counts counts' eval args results callee' evaluator types inputs' result
      outputs' =>
      obtain rfl : index = index' := Option.some.inj (calls.symm.trans callee')
      obtain ⟨constants, inner', hcaptured, hrun, hresults⟩ :=
        hcomputes _ _ _ target evaluator types result
      have himplements := inner _ _ _ target
      have hdata : data.map env = (args.map TypedValue.value).map some := by
        rw [← inputs']
        exact map_eq_map_of_named inputs hatoms
      have hconstants : g.captured.map env = constants.map some := by
        rw [← hcaptured]
        exact List.map_congr_left fun x hx =>
          (henv.constants x (Implements.captureFrom _ _ _ himplements x hx)).2
      have harity : (args.map TypedValue.value ++ constants).length = g.function.inputs.length := by
        rw [himplements.length_inputs, ← types, List.length_append, List.length_map,
          List.length_map, length_eq_of_map_eq_map_some hcaptured]
      have hcount : (results.map TypedValue.value).length = outs.length := by
        rw [length_eq_of_map_eq_map_some outputs', length_eq_of_map_eq_map_some outputs]
      refine ⟨results.map TypedValue.value, by rw [List.map_map]; exact outputs', fun hrest => ?_⟩
      refine .call (by simp [Callable.node, Node.isCall])
        (findFunction?_of_mem hσ.functions_nodup himplements.member) ?_ harity hrun hresults
        hcount hrest
      simpa [Callable.node, Node.plain, hdata] using hconstants

/-- The nodes of equations that hold compute the values of the variables that the equations make. -/
theorem exists_runs_of_emits (hσ : σ.Tidy)
    (inner : ∀ i ts g, targets i ts g → Implements program settings symbols σ i ts g)
    (hcomputes : ∀ i ts g, targets i ts g → g.Computes A known σ i ts) {es : List Equation}
    {nodes : List Node}
    (h : List.Forall₂ (EmitsWith program symbols targets σ.table names info) es nodes)
    (hholds : ∀ e ∈ es, e.Holds A known ν) (hreads : ScopedFrom ids es)
    (henv : env.Carries A σ.table names ν ids defined) (hnodup : (nodes.flatMap Node.outputs).Nodup)
    (hnew : ∀ x ∈ defined, x ∉ nodes.flatMap Node.outputs) :
    ∃ env', Runs A.interpretation σ.functions env nodes env' ∧
      env'.Carries A σ.table names ν (ids ++ madeBy es)
        (defined ++ nodes.flatMap Node.outputs) := by
  induction h generalizing ids defined env with
  | nil => exact ⟨env, .nil, by simpa [madeBy] using henv⟩
  | @cons e n es nodes hen _ ih =>
    obtain ⟨placed, hemits, -⟩ := hen
    rw [List.flatMap_cons, List.nodup_append] at hnodup
    simp only [List.flatMap_cons, List.mem_append, not_or] at hnew
    obtain ⟨values, hvalues, hstep⟩ :=
      hemits.exists_values hσ inner hcomputes (hholds e (by simp)) hreads.1 henv
    have hnames : (e.outputs.map Var.id).map names = n.outputs.map some := by
      rw [List.map_map]
      exact hemits.outputs_eq
    have henv₁ := henv.define (fun x hx => (hnew x hx).1) hnodup.1 hnames hvalues
    obtain ⟨env', hrun, henv'⟩ :=
      ih (fun e he => hholds e (by simp [he])) hreads.2 henv₁ hnodup.2.1 fun x hx => by
      rcases List.mem_append.1 hx with hx | hx
      · exact (hnew x hx).2
      · exact fun hmem => hnodup.2.2 x hx x hmem rfl
    refine ⟨env', hstep hrun, ?_⟩
    simpa [madeBy] using henv'

/-- The identity nodes of outputs keep the values of other names and compute those of the
outputs. -/
theorem Declares.exists_runs {table : InitializerTable} {inputs declared : List String}
    {atoms : List Atom} {nodes : List Node} {decls : List Declaration}
    (h : Declares table names inputs declared atoms nodes decls) (functions : List Function)
    (env : Env V)
    (hatoms : ∀ a ∈ atoms, ∃ v, a.value? A ν = some v ∧ ∀ x, a.name? table names = some x →
      env x = some v ∧ x ∉ nodes.flatMap Node.outputs)
    (hnodup : (nodes.flatMap Node.outputs).Nodup) :
    ∃ env', Runs A.interpretation functions env nodes env' ∧
      (∀ x, x ∉ nodes.flatMap Node.outputs → env' x = env x) ∧
      decls.map (fun d => env' d.name) = atoms.map (Atom.value? A ν) := by
  induction h generalizing env with
  | nil => exact ⟨env, .nil, fun _ _ => rfl, rfl⟩
  | @own declared a x rest nodes decls source notInput notConstant notDeclared next ih =>
    obtain ⟨env', hrun, hkeep, hdecls⟩ := ih env (fun b hb => hatoms b (by simp [hb])) hnodup
    obtain ⟨v, hv, hx⟩ := hatoms a (by simp)
    refine ⟨env', hrun, hkeep, ?_⟩
    rw [List.map_cons, List.map_cons, hdecls, hv, hkeep x (hx x source).2, (hx x source).1]
  | @routed declared a x out nodeName rest nodes decls source aliased next ih =>
    have hflat : (Node.plain "Identity" nodeName [x] [out] :: nodes).flatMap Node.outputs =
        out :: nodes.flatMap Node.outputs := by simp [Node.plain]
    rw [hflat, List.nodup_cons] at hnodup
    simp only [hflat, List.mem_cons, not_or] at hatoms ⊢
    obtain ⟨v, hv, hx⟩ := hatoms a (by simp)
    obtain ⟨env', hrun, hkeep, hdecls⟩ := ih (env.define [out] [v]) (fun b hb => by
      obtain ⟨w, hw, hy⟩ := hatoms b (by simp [hb])
      refine ⟨w, hw, fun y hname => ⟨?_, (hy y hname).2.2⟩⟩
      rw [Env.define_of_not_mem (by simpa using (hy y hname).2.1), (hy y hname).1]) hnodup.2
    refine ⟨env', Runs.identity (hx x source).1 hrun, fun y hy => ?_, ?_⟩
    · rw [hkeep y hy.2, Env.define_of_not_mem (by simpa using hy.1)]
    · rw [List.map_cons, List.map_cons, hdecls, hv, hkeep out hnodup.1]
      simp [Env.define]

variable {t : Trace} {l : Level} {body tail : List Node} {decls : List Declaration}
  {values results : List V}

/-- The nodes of a level that translates a trace compute the values of which the trace holds. -/
theorem Level.Translates.exists_runs (hσ : σ.Tidy)
    (inner : ∀ i ts g, targets i ts g → Implements program settings symbols σ i ts g)
    (hcomputes : ∀ i ts g, targets i ts g → g.Computes A known σ i ts)
    (h : l.Translates program symbols targets σ names info t body tail decls)
    (hholds : t.Holds A known ν values results) :
    ∃ env', Runs A.interpretation σ.functions ((constantEnv A σ.table).define l.inputs values)
      l.nodes env' ∧
      l.outputs.map env' = results.map some := by
  have hown := h.translation.own_nodup
  rw [List.flatMap_append, List.nodup_append, List.nodup_append] at hown
  obtain ⟨hinputs, ⟨hbody, htail, hbodytail⟩, hdisjoint⟩ := hown
  have hconstants :
      (constantEnv A σ.table).Carries A σ.table names ν (t.constants.map fun c => c.1.id)
        σ.table.names :=
    { vars := fun id hid => by
        obtain ⟨c, hc, rfl⟩ := List.mem_map.1 hid
        obtain ⟨x, hx, hname⟩ := h.translation.constants c hc
        exact ⟨x, InitializerTable.mem_names_of_find? hx, hname, by
          rw [constantEnv_of_find? hσ.table_nodup hx, hholds.constants c hc]⟩
      constants := fun x hx => ⟨hx, rfl⟩ }
  have hinputNames : (t.inputs.map Var.id).map names = l.inputs.map some := by
    rw [List.map_map]
    exact h.translation.inputs_eq
  have hinputValues : (t.inputs.map Var.id).map ν = values.map some := by
    rw [List.map_map]
    exact hholds.inputs
  have hgiven : ((constantEnv A σ.table).define l.inputs values).Carries A σ.table names ν t.given
      (σ.table.names ++ l.inputs) :=
    (hconstants.define (fun x hx hmem => h.translation.own_new x (List.mem_append_left _ hmem) hx)
      hinputs hinputNames hinputValues).mono List.perm_append_comm.subset (List.Subset.refl _)
  obtain ⟨env₁, hrun₁, henv₁⟩ :=
    exists_runs_of_emits hσ inner hcomputes h.translation.emits hholds.equations h.translation.reads
      hgiven hbody fun x hx hmem => by
      rcases List.mem_append.1 hx with hx | hx
      · exact h.translation.own_new x (by simp [hmem]) hx
      · exact hdisjoint x hx x (by simp [hmem]) rfl
  obtain ⟨env', hrun', -, hdecls⟩ := h.translation.declares.exists_runs σ.functions env₁
    (fun a ha => by
      obtain ⟨v, -, hv⟩ := exists_of_map_eq_map_some hholds.outputs ha
      refine ⟨v, hv, fun x hx => ⟨?_, fun hmem => ?_⟩⟩
      · rw [henv₁.value_eq hσ.table_nodup (h.translation.results a ha) hx, hv]
      · rcases h.translation.mem_of_name? (h.translation.results a ha) hx with hx | hx
        · rcases List.mem_append.1 hx with hx | hx
          · exact hdisjoint x hx x (List.mem_append_right _ hmem) rfl
          · exact hbodytail x hx x hmem rfl
        · exact h.translation.own_new x (by simp [hmem]) hx) htail
  refine ⟨env', by rw [h.nodes]; exact hrun₁.trans hrun', ?_⟩
  rw [h.outputs, List.map_map, ← hholds.outputs, ← hdecls]
  rfl

end Levels

/-! ## Functions -/

theorem Env.define_map {r : String → String} {env env₁ : Env V} {names : List String}
    {values : List V} {x : String} (hinj : ∀ y ∈ names, r x = r y → x = y)
    (h : env₁ (r x) = env x) :
    env₁.define (names.map r) values (r x) = env.define names values x := by
  induction names generalizing env env₁ values with
  | nil => exact h
  | cons y ys ih =>
    cases values with
    | nil => exact h
    | cons v vs =>
      rw [List.map_cons, define, define]
      refine ih (fun z hz => hinj z (by simp [hz])) ?_
      by_cases hxy : x = y
      · simp [hxy]
      · rw [Function.update_of_ne hxy, Function.update_of_ne fun hr => hxy (hinj y (by simp) hr), h]

theorem Env.define_append {env : Env V} {names more : List String} {values constants : List V}
    (hlength : values.length = names.length) :
    env.define (names ++ more) (values ++ constants) =
      (env.define names values).define more constants := by
  induction names generalizing env values with
  | nil =>
    obtain rfl : values = [] := by simpa using hlength
    rfl
  | cons y ys ih =>
    cases values with
    | nil => simp at hlength
    | cons v vs => exact ih (by simpa using hlength)

/-- Nodes under local names compute the same values. -/
theorem Runs.localized {I : Interpretation V} {functions : List Function} {env env' env₁ : Env V}
    {nodes : List Node} {r : Renaming} {scope : List String} (h : Runs I functions env nodes env')
    (hinj : ∀ x ∈ scope, ∀ y ∈ scope, r.apply x = r.apply y → x = y)
    (hread : ∀ x ∈ nodes.flatMap Node.inputs, x ∈ scope)
    (hmade : ∀ x ∈ nodes.flatMap Node.outputs, x ∈ scope)
    (hagree : ∀ x ∈ scope, env₁ (r.apply x) = env x) (k : Nat) :
    ∃ env₁', Runs I functions env₁ ((nodes.zipIdx k).map fun p => p.1.localized r p.2) env₁' ∧
      ∀ x ∈ scope, env₁' (r.apply x) = env' x := by
  induction h generalizing env₁ k with
  | nil => exact ⟨env₁, .nil, hagree⟩
  | @plain env env' n rest args outs isCall inputs result count next ih =>
    simp only [List.flatMap_cons, List.forall_mem_append] at hread hmade
    have hinputs : (n.inputs.map r.apply).map env₁ = args.map some := by
      rw [List.map_map, ← inputs]
      exact List.map_congr_left fun x hx => hagree x (hread.1 x hx)
    obtain ⟨env₁', hrun, hagree'⟩ := ih hread.2 hmade.2 (fun x hx =>
      Env.define_map (fun y hy => hinj x hx y (hmade.1 y hy)) (hagree x hx)) (k + 1)
    exact ⟨env₁', .plain isCall hinputs result (by simpa [Node.localized] using count) hrun,
      hagree'⟩
  | @call env inner env' n rest f args outs isCall target inputs arity body result count
    next _ ih =>
    simp only [List.flatMap_cons, List.forall_mem_append] at hread hmade
    have hinputs : (n.inputs.map r.apply).map env₁ = args.map some := by
      rw [List.map_map, ← inputs]
      exact List.map_congr_left fun x hx => hagree x (hread.1 x hx)
    obtain ⟨env₁', hrun, hagree'⟩ := ih hread.2 hmade.2 (fun x hx =>
      Env.define_map (fun y hy => hinj x hx y (hmade.1 y hy)) (hagree x hx)) (k + 1)
    exact ⟨env₁',
      .call isCall target hinputs arity body result (by simpa [Node.localized] using count) hrun,
      hagree'⟩

section Functions

variable {A : Arithmetic V} {program : Program} {settings : Params} {symbols : SymbolTable}
  {targets : Targets} {σ : Shared} {names : Nat → Option String} {info : String → Option Info}
  {t : Trace} {l : Level} {body tail : List Node} {decls : List Declaration}
  {values constants : List V}

/-- A function starts with the values that its level starts with, as far as the level's nodes go. -/
theorem Level.Translates.initial_eq
    (h : l.Translates program symbols targets σ names info t body tail decls)
    (hvalues : values.length = l.inputs.length)
    (hconstants : (l.referencedInitializers σ.table).map (constantEnv A σ.table) =
      constants.map some) {x : String}
    (hx : x ∈ l.inputs ++ l.referencedInitializers σ.table ++ l.nodes.flatMap Node.outputs) :
    Env.empty.define (l.inputs ++ l.referencedInitializers σ.table) (values ++ constants) x =
      (constantEnv A σ.table).define l.inputs values x := by
  have hnodup := h.nodup_inputs_captured
  rw [List.nodup_append] at hnodup
  rw [Env.define_append hvalues]
  rcases List.mem_append.1 hx with hx | hx
  · rcases List.mem_append.1 hx with hx | hx
    · rw [Env.define_of_not_mem fun hmem => hnodup.2.2 x hx x hmem rfl]
      exact Env.define_congr hvalues (Or.inr hx)
    · have hdefine := @Env.map_define _ (Env.empty.define l.inputs values) _ _ hnodup.2.1
        (length_eq_of_map_eq_map_some hconstants)
      rw [Env.define_of_not_mem fun hmem => hnodup.2.2 x hmem x hx rfl]
      exact List.map_inj_left.1 (hdefine.trans hconstants.symm) x hx
  · have hown := h.translation.own_nodup
    rw [← h.nodes, List.nodup_append] at hown
    have hinput : x ∉ l.inputs := fun hmem => hown.2.2 x hmem x hx rfl
    have htable : x ∉ σ.table.names :=
      h.translation.own_new x (by rw [← h.nodes]; exact List.mem_append_right _ hx)
    rw [Env.define_of_not_mem fun hmem => htable (Level.mem_referencedInitializers.1 hmem).2,
      Env.define_of_not_mem hinput, Env.define_of_not_mem hinput, constantEnv,
      InitializerTable.get?_eq_none_iff.2 htable]
    rfl

theorem exists_constants (A : Arithmetic V) {table : InitializerTable} {captured : List String}
    (h : ∀ x ∈ captured, x ∈ table.names) :
    ∃ constants : List V, captured.map (constantEnv A table) = constants.map some := by
  induction captured with
  | nil => exact ⟨[], rfl⟩
  | cons x captured ih =>
    obtain ⟨constants, hconstants⟩ := ih fun y hy => h y (by simp [hy])
    have hx : table.get? x ≠ none :=
      fun hnone => InitializerTable.get?_eq_none_iff.1 hnone (h x (by simp))
    obtain ⟨tensor, htensor⟩ := Option.ne_none_iff_exists'.1 hx
    exact ⟨A.constant tensor :: constants, by simp [constantEnv, htensor, ← hconstants]⟩

/-- A function computes what its level does. -/
theorem Level.Translates.exists_runs_function
    (h : l.Translates program symbols targets σ names info t body tail decls)
    (htargets : targets.CaptureFrom σ.table) {name : String} {f : Function}
    (hf : l.toFunction name (l.referencedInitializers σ.table) σ.table = .ok f)
    (hvalues : values.length = l.inputs.length)
    (hconstants : (l.referencedInitializers σ.table).map (constantEnv A σ.table) =
      constants.map some) {env' : Env V}
    (hrun : Runs A.interpretation σ.functions ((constantEnv A σ.table).define l.inputs values)
      l.nodes env') :
    ∃ inner, Runs A.interpretation σ.functions
        (Env.empty.define f.inputs (values ++ constants)) f.nodes inner ∧
      f.outputs.map inner = l.outputs.map env' := by
  have hlocal := h.localizes htargets hf
  have hreads := h.readsFrom_captured htargets
  have hinj : ∀ x ∈ l.inputs ++ l.referencedInitializers σ.table ++ l.nodes.flatMap Node.outputs,
      ∀ y ∈ l.inputs ++ l.referencedInitializers σ.table ++ l.nodes.flatMap Node.outputs,
      (l.localNames (l.referencedInitializers σ.table)).apply x =
        (l.localNames (l.referencedInitializers σ.table)).apply y → x = y := fun x hx y hy =>
    hlocal.injective.eq_of_apply_eq (hlocal.named x (List.mem_append_left _ hx))
      (hlocal.named y (List.mem_append_left _ hy))
  obtain ⟨inner, hinner, hagree⟩ := hrun.localized hinj
    (fun x hx => by
      obtain ⟨n, hn, hxn⟩ := List.mem_flatMap.1 hx
      exact hreads.mem_of_mem_inputs hn hxn)
    (fun x hx => List.mem_append_right _ hx)
    (fun x hx => by
      have hempty :
          (Env.empty : Env V) ((l.localNames (l.referencedInitializers σ.table)).apply x) =
            Env.empty x := rfl
      rw [← h.initial_eq hvalues hconstants hx]
      exact Env.define_map (fun y hy => hinj x hx y (List.mem_append_left _ hy)) hempty) 0
  rw [← hlocal.inputs, ← hlocal.nodes] at hinner
  refine ⟨inner, hinner, ?_⟩
  rw [hlocal.outputs, List.map_map]
  exact List.map_congr_left fun x hx => hagree x (List.mem_append_right _ (h.outputs_spec.2 x hx))

/-- A function that implements a callable computes what evaluating the callable gives. -/
theorem Implements.computes (hσ : σ.Tidy) (harith : ∀ c ∈ program, c.IsArithmetic)
    (hrepeat : program.Repeatable settings) {index : Nat} {types : List AbstractValue}
    {callee : Callee} (h : Implements program settings symbols σ index types callee) :
    callee.Computes A (program.evaluators A settings) σ index types := by
  induction h with
  | @intro index counts counts' c types t l targets names info body tail decls callee f known trace
    inner translates function same member captured infos ih =>
    intro eval heval args counts₁ results counts₁' hargs hresult
    rw [captured] at function
    obtain rfl := Option.some.inj (heval.symm.trans (Program.getElem?_evaluators A settings known))
    -- the callable records the same trace from the count at which it is evaluated
    obtain ⟨other, htrace⟩ := hrepeat.exists_trace known trace counts₁
    have htake : ∀ c ∈ program.take index, c.IsArithmetic :=
      fun c hc => harith c (List.mem_of_mem_take hc)
    obtain ⟨results', ν, heval', -, hholds⟩ := Callable.exists_eval (A := A)
      (Program.evaluators_follow A settings htake) (harith c (List.mem_of_getElem? known))
      htrace hargs
    obtain rfl : results = results' := by
      simpa using congrArg (Option.map Prod.fst) (hresult.symm.trans heval')
    obtain ⟨env', hrun, hresults⟩ := translates.exists_runs hσ inner ih (hholds.mono
      (Program.evaluators_take_isPrefix_self A settings program index))
    obtain ⟨constants, hconstants⟩ :=
      exists_constants A fun x (hx : x ∈ l.referencedInitializers σ.table) =>
      (Level.mem_referencedInitializers.1 hx).2
    have hvalues : (args.map TypedValue.value).length = l.inputs.length := by
      rw [length_eq_of_map_eq_map_some hholds.inputs,
        length_eq_of_map_eq_map_some translates.translation.inputs_eq]
    obtain ⟨inner', hinner, houtputs⟩ :=
      translates.exists_runs_function (captureFrom_of_inner inner) function hvalues hconstants hrun
    refine ⟨constants, inner', by rw [captured]; exact hconstants, ?_, ?_⟩
    · rw [same]
      exact hinner
    · rw [same, ← hresults]
      exact houtputs

end Functions

/-! ## Models -/

theorem define_entries (A : Arithmetic V) {table : InitializerTable} (hnodup : table.names.Nodup) :
    Env.empty.define table.names (table.entries.map fun i => A.constant i.tensor) =
      constantEnv A table := by
  funext x
  by_cases hx : x ∈ table.names
  · obtain ⟨i, hi, rfl⟩ := List.mem_map.1 hx
    have hdefine :=
      @Env.map_define _ Env.empty _ (table.entries.map fun i => A.constant i.tensor) hnodup
        (by simp [InitializerTable.names])
    rw [InitializerTable.names, List.map_map, List.map_map] at hdefine
    have hvalue := List.map_inj_left.1 hdefine i hi
    rw [constantEnv, InitializerTable.get?_of_mem hnodup hi, Option.map_some]
    exact hvalue
  · rw [Env.define_of_not_mem hx, constantEnv, InitializerTable.get?_eq_none_iff.2 hx]
    rfl

/-- A model that translates a trace computes the values of which the trace holds. -/
theorem Model.Translates.evaluates {A : Arithmetic V} {program : Program} {settings : Params}
    {symbols : SymbolTable} {t : Trace} {m : Model} {ν : Nat → Option V} {values results : List V}
    (h : m.Translates program settings symbols t) (harith : ∀ c ∈ program, c.IsArithmetic)
    (hrepeat : program.Repeatable settings)
    (hholds : t.Holds A (program.evaluators A settings) ν values results) :
    m.Evaluates A.interpretation values results := by
  obtain ⟨σ, l, names, info, body, tail, decls, hσ, htranslates, hm⟩ := h
  obtain ⟨env', hrun, hresults⟩ := htranslates.exists_runs hσ.toTidy (fun _ _ _ => id)
    (fun _ _ _ hg => hg.computes hσ.toTidy harith hrepeat) hholds
  have hinitial :
      m.initialEnv A.interpretation values = (constantEnv A σ.table).define l.inputs values := by
    rw [initialEnv, hm.inputNames_eq, hm.initializerNames_eq, hm.initializers,
      ← define_entries A hσ.table_nodup]
    rfl
  refine ⟨?_, env', ?_, ?_⟩
  · have hlength := congrArg List.length hm.inputs
    rw [List.length_map, List.length_map] at hlength
    rw [hlength, length_eq_of_map_eq_map_some hholds.inputs,
      length_eq_of_map_eq_map_some htranslates.translation.inputs_eq]
  · rwa [hm.functions, hinitial, hm.nodes]
  · rwa [hm.outputNames_eq]

theorem SymbolTable.length_abstractSpecs (table : SymbolTable) (specs : List InputSpec) :
    (table.abstractSpecs specs).2.length = specs.length := by
  induction specs generalizing table with
  | nil => rfl
  | cons spec specs ih => simp [abstractSpecs, ih]

theorem InputSpec.length_abstractAll (specs : List InputSpec) :
    (abstractAll specs).2.length = specs.length :=
  SymbolTable.length_abstractSpecs .empty specs

theorem map_type_zipWith {values : List V} {types : List AbstractValue}
    (h : values.length = types.length) :
    (List.zipWith TypedValue.mk values types).map TypedValue.type = types ∧
      (List.zipWith TypedValue.mk values types).map TypedValue.value = values := by
  induction values generalizing types with
  | nil =>
    obtain rfl : types = [] := by simpa using h.symm
    exact ⟨rfl, rfl⟩
  | cons v values ih =>
    cases types with
    | nil => simp at h
    | cons type types =>
      obtain ⟨htypes, hvalues⟩ := ih (by simpa using h)
      exact ⟨by simp [htypes], by simp [hvalues]⟩

/-- A conversion keeps the meaning of its program: for every meaning of the primitives and all
values of the inputs, the program has results, and the converted model has these results and no
others. -/
theorem evaluates_iff_of_convert (A : Arithmetic V) {optimizer : Optimizer} {program : Program}
    {inputs : List InputSpec} {options : ConversionOptions} {settings : Params} {m : Model}
    {values : List V} (harith : ∀ c ∈ program, c.IsArithmetic)
    (hsettings : options.params = .ok settings) (hrepeat : program.Repeatable settings)
    (h : (convert .builtin optimizer program inputs options).result = .ok m)
    (hvalues : values.length = inputs.length) :
    ∃ results, program.evaluate A settings inputs values = some results ∧
      ∀ outputs, m.Evaluates A.interpretation values outputs ↔ outputs = results := by
  obtain ⟨entry, settings', t, counts, lowered, hentry, hsettings', htrace, htranslates, rfl⟩ :=
    translates_of_convert h
  obtain rfl : settings = settings' := Except.ok.inj (hsettings.symm.trans hsettings')
  have hdrop : ∀ c ∈ program.dropLast, c.IsArithmetic :=
    fun c hc => harith c ((List.dropLast_sublist program).subset hc)
  obtain ⟨htypes, hargs⟩ :=
    map_type_zipWith (hvalues.trans (InputSpec.length_abstractAll inputs).symm)
  obtain ⟨results, ν, heval, -, hholds⟩ := Callable.exists_eval (A := A)
    (Program.evaluators_follow A settings hdrop) (harith entry (List.mem_of_getLast? hentry)) htrace
    htypes
  rw [hargs] at hholds
  have hevaluates :=
    (htranslates.evaluates hdrop hrepeat.dropLast hholds).finished htranslates.proper optimizer
      options
  refine ⟨results.map TypedValue.value, ?_,
    fun outputs => ⟨fun houtputs => houtputs.unique hevaluates, ?_⟩⟩
  · simp only [Program.evaluate, hentry, heval, Option.bind_eq_bind, Option.bind_some]
  · rintro rfl
    exact hevaluates

/-- Whole numbers, with every constant read as two. -/
def Example.wholeNumbers : Arithmetic Int :=
  ⟨fun _ => 2, Int.add, Int.mul, fun a b => Int.pow a b.toNat⟩

/-- In whole numbers the converted example makes eighteen, three and eighteen of three, and nothing
else. -/
theorem evaluates_iff_of_convert_example :
    ∃ m, (convert .builtin .deadNodeElimination Example.program Example.inputs .default).result =
      .ok m ∧
      ∀ outputs, m.Evaluates Example.wholeNumbers.interpretation [3] outputs ↔
        outputs = [18, 3, 18] := by
  obtain ⟨m, h⟩ := Example.exists_convert .deadNodeElimination .default rfl
  obtain ⟨results, hresults, hiff⟩ := evaluates_iff_of_convert Example.wholeNumbers
    Example.isArithmetic_program rfl (Example.repeatable_program []) h
    (show [(3 : Int)].length = Example.inputs.length from rfl)
  have hvalue : Example.program.evaluate Example.wholeNumbers [] Example.inputs [3] =
      some [18, 3, 18] := by
    decide +kernel
  obtain rfl := Option.some.inj (hvalue.symm.trans hresults)
  exact ⟨m, h, hiff⟩

end TensorGraph
