import TensorGraph.Proofs.RenamedLevels
import TensorGraph.Proofs.TypedRecords
import TensorGraph.Proofs.ValueTypes

/-!
# Types of names in levels

Where a level translates a typed trace, a name has the type of the operand that goes by it, rendered
with the names of symbols (`Level.Translates.type?_of_name?`). A level's function gives the local
name of a name the same type (`Level.Translates.type?_toFunction`), and so does the model that is
made of the first level (`Model.Finishes.type?_eq`).
-/

namespace TensorGraph

/-! ## Rendered types -/

section Rendered

variable {symbols : SymbolTable}

/-- The type of a traced value as a type of the model. -/
def SymbolTable.renderType? (symbols : SymbolTable) (type : AbstractValue) : Option ValueType :=
  (symbols.renderShape? type).map (⟨·, type.dtype⟩)

theorem SymbolTable.renderType?_known (symbols : SymbolTable) (dims : List Nat) (dtype : DType) :
    symbols.renderType? (.known dims dtype) = some ⟨dims.map .fixed, dtype⟩ := by
  have hdims : (dims.map Dim.known).mapM symbols.renderDim? = some (dims.map .fixed) := by
    induction dims with
    | nil => rfl
    | cons d dims ih => simp [renderDim?, ih]
  simp [renderType?, renderShape?, AbstractValue.known, hdims]

theorem Tensor.renderType?_type (t : Tensor) : symbols.renderType? t.type = some t.valueType :=
  symbols.renderType?_known t.dims t.dtype

/-- Rendered dimensions join as the dimensions do. -/
theorem joins_of_join? {a b d : Dim} {x y z : ShapeDim} (h : Dim.join? a b = some d)
    (hx : symbols.renderDim? a = some x) (hy : symbols.renderDim? b = some y)
    (hz : symbols.renderDim? d = some z) : x.Joins y z := by
  unfold Dim.join? at h
  split_ifs at h with hsame hleft hright
  · obtain rfl := Option.some.inj h
    obtain rfl := Option.some.inj (hx.symm.trans hz)
    obtain rfl := Option.some.inj (hx.symm.trans (hsame ▸ hy))
    exact .same x
  · obtain rfl := Option.some.inj h
    obtain rfl := Option.some.inj (hy.symm.trans hz)
    obtain rfl : .fixed 1 = x := by simpa [hleft, SymbolTable.renderDim?] using hx
    exact .oneLeft y
  · obtain rfl := Option.some.inj h
    obtain rfl := Option.some.inj (hx.symm.trans hz)
    obtain rfl : .fixed 1 = y := by simpa [hright, SymbolTable.renderDim?] using hy
    exact .oneRight x

theorem joins_of_broadcastBack? {lhs rhs back : List Dim} {xs ys zs : List ShapeDim}
    (h : broadcastBack? lhs rhs = some back)
    (hx : List.Forall₂ (fun d s => symbols.renderDim? d = some s) lhs xs)
    (hy : List.Forall₂ (fun d s => symbols.renderDim? d = some s) rhs ys)
    (hz : List.Forall₂ (fun d s => symbols.renderDim? d = some s) back zs) :
    zs.length = max xs.length ys.length ∧
      ∀ i, (xs.getD i (.fixed 1)).Joins (ys.getD i (.fixed 1)) (zs.getD i (.fixed 1)) := by
  have hunique : Relator.RightUnique fun d s => symbols.renderDim? d = some s :=
    fun d s s' hs hs' =>
    Option.some.inj (hs.symm.trans hs')
  fun_induction broadcastBack? lhs rhs generalizing back xs ys zs with
  | case1 rhs =>
    obtain rfl := Option.some.inj h
    obtain rfl := hunique.forall₂ hy hz
    cases hx
    exact ⟨by simp, fun i => by simpa using ShapeDim.Joins.oneLeft _⟩
  | case2 lhs =>
    obtain rfl := Option.some.inj h
    obtain rfl := hunique.forall₂ hx hz
    cases hy
    exact ⟨by simp, fun i => by simpa using ShapeDim.Joins.oneRight _⟩
  | case3 a lhs b rhs joined rest hrest hjoined ih =>
    obtain rfl := Option.some.inj h
    obtain ⟨x, xs, ha, hlhs, rfl⟩ := List.forall₂_cons_left_iff.1 hx
    obtain ⟨y, ys, hb, hrhs, rfl⟩ := List.forall₂_cons_left_iff.1 hy
    obtain ⟨z, zs, hd, hback, rfl⟩ := List.forall₂_cons_left_iff.1 hz
    obtain ⟨hlength, hjoins⟩ := ih hrest hlhs hrhs hback
    refine ⟨by simp [hlength, Nat.add_max_add_right], fun i => ?_⟩
    cases i with
    | zero => exact joins_of_join? hjoined ha hb hd
    | succ i => exact hjoins i
  | case4 => simp at h

/-- Rendered shapes broadcast as the shapes do. -/
theorem broadcastsTo_of_broadcast? {lhs rhs result : AbstractValue} {xs ys zs : List ShapeDim}
    (h : broadcast? lhs.shape rhs.shape = some result.shape)
    (hx : symbols.renderShape? lhs = some xs) (hy : symbols.renderShape? rhs = some ys)
    (hz : symbols.renderShape? result = some zs) : BroadcastsTo xs ys zs := by
  obtain ⟨back, hback, hshape⟩ := Option.map_eq_some_iff.1 h
  have hz := List.rel_reverse (SymbolTable.forall₂_of_renderShape? hz)
  rw [← hshape, List.reverse_reverse] at hz
  obtain ⟨hlength, hjoins⟩ :=
    joins_of_broadcastBack? hback (List.rel_reverse (SymbolTable.forall₂_of_renderShape? hx))
      (List.rel_reverse (SymbolTable.forall₂_of_renderShape? hy)) hz
  exact ⟨by simpa using hlength, hjoins⟩

end Rendered

/-! ## Types of names -/

/-- The type that a record without name says. -/
def Info.type (i : Info) : ValueType :=
  ⟨i.shape, i.dtype⟩

/-- The type of a name in a level. -/
def Level.type? (l : Level) (table : InitializerTable) (name : String) : Option ValueType :=
  match l.info? name with
  | some i => some i.type
  | none => (table.get? name).map Tensor.valueType

theorem Info.Says.renderType?_eq {symbols : SymbolTable} {i : Info} {type : AbstractValue}
    (h : i.Says symbols type) :
    symbols.renderType? type = some i.type := by
  rw [SymbolTable.renderType?, h.1, Option.map_some, ← h.2]
  rfl

section

variable {program : Program} {symbols : SymbolTable} {targets : Targets} {σ : Shared}
  {names : Nat → Option String} {info : String → Option Info} {t : Trace} {l : Level}
  {body tail : List Node} {decls : List Declaration}

namespace Level.Translates

/-- A constant has the type of its tensor. -/
theorem type?_of_mem_names (h : l.Translates program symbols targets σ names info t body tail decls)
    {x : String} (hx : x ∈ σ.table.names) :
    l.type? σ.table x = (σ.table.get? x).map Tensor.valueType := by
  rw [type?, h.info?_eq_none_of_mem_names hx]

/-- A name has the type of the operand that goes by it. -/
theorem type?_of_name? (h : l.Translates program symbols targets σ names info t body tail decls)
    (hnodup : σ.table.names.Nodup) (hrendered : ∀ v ∈ t.vars, (symbols.renderShape? v.type).isSome)
    (hconstants : ∀ c ∈ t.constants, c.1.type = c.2.type) {a : Atom} (ha : a.IsOneOf t.vars)
    {x : String} (hx : a.name? σ.table names = some x) :
    l.type? σ.table x = symbols.renderType? a.type := by
  have hconstant : ∀ tensor, σ.table.find? tensor = some x →
      l.type? σ.table x = symbols.renderType? tensor.type :=
    fun tensor hfind => by
      rw [h.type?_of_mem_names (InitializerTable.mem_names_of_find? hfind),
        InitializerTable.get?_of_mem hnodup (InitializerTable.mem_of_find? hfind),
        tensor.renderType?_type, Option.map_some]
  have hrecord : ∀ i, info x = some i → i.Says symbols a.type →
      l.type? σ.table x = symbols.renderType? a.type :=
    fun i hi hstated => by rw [type?, h.resolves.eq_of_some hi, hstated.renderType?_eq]
  cases a with
  | literal value => exact hconstant value hx
  | var v =>
    have hv : v ∈ t.inputs ∨ v ∈ t.constants.map Prod.fst ∨
        v ∈ t.equations.flatMap Equation.outputs := by
      simpa only [Atom.IsOneOf, Trace.vars, List.mem_append, or_assoc] using ha
    have hfound : ∀ y, names v.id = some y → y = x := fun y hy => Option.some.inj (hy.symm.trans hx)
    rcases hv with hv | hv | hv
    · obtain ⟨y, i, hy, hi, hstated⟩ := h.translation.exists_info_of_input hv
      exact hrecord i (hfound y hy ▸ hi) hstated
    · obtain ⟨c, hc, rfl⟩ := List.mem_map.1 hv
      obtain ⟨y, hfind, hy⟩ := h.translation.constants c hc
      rw [hconstant c.2 (hfound y hy ▸ hfind), Atom.type, hconstants c hc]
    · obtain ⟨y, i, hy, hi, hstated⟩ := exists_info_of_emits h.translation.emits hv (hrendered v ha)
      exact hrecord i (hfound y hy ▸ hi) hstated

end Level.Translates

/-! ## Functions of levels -/

/-- Where local names differ, a record is found by its own. -/
theorem findRecord?_of_mem {records : List (LocalName × ValueRecord)}
    (hnodup : (records.map Prod.fst).Nodup) (hnames : ∀ p ∈ records, p.2.name = p.1.text)
    {n : LocalName} {s : ValueRecord} (h : (n, s) ∈ records) :
    findRecord? ((records.mergeSort fun a b => a.1.le b.1).map Prod.snd) n.text = some s := by
  have hmem : ∀ r, r ∈ (records.mergeSort fun a b => a.1.le b.1).map Prod.snd ↔ ∃ m,
      (m, r) ∈ records := by simp
  cases hfind : findRecord? ((records.mergeSort fun a b => a.1.le b.1).map Prod.snd) n.text with
  | none =>
    exact absurd (beq_iff_eq.2 (hnames _ h)) (List.find?_eq_none.1 hfind s ((hmem s).2 ⟨n, h⟩))
  | some r =>
    obtain ⟨m, hm⟩ := (hmem r).1 (List.mem_of_find?_eq_some hfind)
    obtain rfl : m = n :=
      LocalName.text_injective ((hnames _ hm).symm.trans (name_of_findRecord? hfind))
    have hsame : (m, r) = (m, s) := List.inj_on_of_nodup_map hnodup hm h rfl
    rw [(Prod.mk.inj hsame).2]

namespace Level

/-- A name that has a type in a level has this type in the level's function, under its local
name. -/
theorem Translates.type?_toFunction
    (h : l.Translates program symbols targets σ names info t body tail decls)
    (htargets : targets.CaptureFrom σ.table) {name : String} {f : Function}
    (hf : l.toFunction name (l.referencedInitializers σ.table) σ.table = .ok f) {x : String}
    (hx : x ∈ l.inputs ++ l.referencedInitializers σ.table ++ l.nodes.flatMap Node.outputs)
    (htyped : (l.type? σ.table x).isSome) :
    f.type? ((l.localNames (l.referencedInitializers σ.table)).apply x) = l.type? σ.table x := by
  have hlocal := h.localizes htargets hf
  obtain ⟨-, records, hrecords, rfl⟩ := toFunction_eq_ok.1 hf
  have hnodup := h.nodup_inputs_captured
  have hreads := h.readsFrom_captured htargets
  have hsorted := l.sorted_localNames (l.referencedInitializers σ.table)
  have hkeys := nodup_records hnodup hreads hsorted hrecords fun y hy =>
    h.info?_eq_none_of_mem_names (mem_referencedInitializers.1 hy).2
  have hnames : ∀ p ∈ records ++ l.renamedRecords (l.localNames (l.referencedInitializers σ.table)),
      p.2.name = p.1.text :=
        fun p hp => (List.mem_append.1 hp).elim (name_of_mem_paramRecords hrecords p)
    fun hp => ((mem_renamedRecords hsorted).1 hp).1
  cases hinfo : l.info? x with
  | some i =>
    obtain ⟨n, hn⟩ := Option.isSome_iff_exists.1 (hlocal.named x (List.mem_append_left _ hx))
    have hmem : (n, (⟨n.text, i.shape, i.dtype, i.provenance⟩ : ValueRecord)) ∈
        l.renamedRecords (l.localNames (l.referencedInitializers σ.table)) :=
      (mem_renamedRecords hsorted).2 ⟨rfl, x, hn, hinfo⟩
    rw [Renaming.apply_of_lookup hn, Function.type?, Function.record?, functionWith,
      findRecord?_of_mem hkeys hnames (List.mem_append_right _ hmem), type?, hinfo]
    rfl
  | none =>
    -- Inputs and outputs of nodes are no constants, so the name is one of the parameters.
    have hconstant : x ∈ σ.table.names := by
      rw [type?, hinfo, Option.isSome_map, Option.isSome_iff_ne_none, ne_eq,
        InitializerTable.get?_eq_none_iff, not_not] at htyped
      exact htyped
    have hparam : x ∈ l.referencedInitializers σ.table := by
      have hnew := fun hown => h.translation.own_new x hown hconstant
      rw [← h.nodes] at hnew
      rcases List.mem_append.1 hx with hx | hx
      · exact (List.mem_append.1 hx).resolve_left fun hx => hnew (List.mem_append_left _ hx)
      · exact absurd (List.mem_append_right _ hx) hnew
    obtain ⟨i, hi⟩ := List.mem_iff_getElem?.1 hparam
    obtain ⟨-, -, -, hlookup, -⟩ := interfaceNames_spec hnodup
    obtain ⟨tensor, hget, hmem⟩ := mem_paramRecords hrecords hi
    rw [Nat.zero_add] at hmem
    rw [Renaming.apply_of_lookup ((localNames_spec hnodup hreads).1 _ _ (hlookup i x hi)),
      Function.type?, Function.record?, functionWith,
      findRecord?_of_mem hkeys hnames (List.mem_append_left _ hmem),
      h.type?_of_mem_names hconstant, hget]
    rfl

end Level

/-! ## Models of levels -/

/-- Records that were taken out by name are found by these names. -/
theorem findRecord?_taken {names : List String} {records taken : List ValueRecord}
    (h : taken.map some = names.map (findRecord? records)) (x : String) :
    findRecord? taken x = if x ∈ names then findRecord? records x else none := by
  induction names generalizing taken with
  | nil =>
    obtain rfl : taken = [] := by simpa using h
    rfl
  | cons name rest ih =>
    cases taken with
    | nil => simp at h
    | cons r taken =>
      simp only [List.map_cons, List.cons.injEq] at h
      have hname := name_of_findRecord? h.1.symm
      by_cases hx : x = name
      · subst hx
        rw [if_pos List.mem_cons_self, ← h.1, findRecord?,
          List.find?_cons_of_pos (by simpa using hname)]
      · have hskip := ih h.2
        rw [findRecord?] at hskip
        rw [findRecord?, List.find?_cons_of_neg (by simpa [hname] using Ne.symm hx), hskip]
        simp [hx]

/-- Records of the names that were taken out are not left. -/
theorem findRecord?_left (names : List String) (records : List ValueRecord) (x : String) :
    findRecord? (records.filter fun r => !names.contains r.name) x =
      if x ∈ names then none else findRecord? records x := by
  split
  · next hx =>
    rw [findRecord?, List.find?_eq_none]
    intro r hr hname
    rw [beq_iff_eq] at hname
    simp [hname, hx] at hr
  · next hx => exact findRecord?_filter (fun r hr => by simpa [hr] using hx) records

namespace Model.Finishes

variable {m : Model}

/-- The records of a level are those of its model. -/
theorem record?_eq (h : m.Finishes l σ) (x : String) : m.graph.record? x = l.record? x := by
  rw [Graph.record?_eq, findRecord?_taken h.inputs, findRecord?_taken h.outputs, h.records,
    findRecord?_left, findRecord?_left]
  by_cases hin : x ∈ l.inputs <;> by_cases hout : x ∈ l.outputs <;> simp [hin, hout, Level.record?]

/-- The types of a level are those of its model. -/
theorem type?_eq (h : m.Finishes l σ) : m.graph.type? = l.type? σ.table := by
  funext x
  have hconstant : (m.graph.initializer? x).map (fun i => i.tensor.valueType) =
      (σ.table.get? x).map Tensor.valueType := by
    rw [Graph.initializer?, h.initializers, InitializerTable.get?, Option.map_map]
    rfl
  rw [Graph.type?, Level.type?, Level.info?, h.record?_eq, hconstant]
  cases l.record? x <;> rfl

end Model.Finishes

end

end TensorGraph
