import TensorGraph.Proofs.Implements
import TensorGraph.Proofs.TypedTraces

/-!
# Records of typed traces

Where a level translates a trace whose outputs are its own variables, the record of a name says the
type of the variable that goes by it, and a constant has no record at all
(`Translation.info_of_rendered`). What records say in the end are the types of the outputs, as far
as these can be rendered (`Level.Translates.infos_of_rendered`). In typed traces all of them can :
the records of outputs can be resolved (`Translation.exists_resolves`) and say their types
(`Level.Translates.infos_of_typed`). This holds of the functions that implement callables too
(`Implements.infos_of_typed`).
-/

namespace TensorGraph

section

variable {program : Program} {settings : Params} {symbols : SymbolTable} {targets : Targets}
  {σ : Shared} {names : Nat → Option String} {info : String → Option Info} {t : Trace}
  {inputs : List String} {body tail : List Node} {decls : List Declaration}

theorem Var.exists_info_of_rendered {v : Var} (hv : (symbols.renderShape? v.type).isSome)
    (placed : Option Info) :
    ∃ i, Var.info symbols v placed = some i ∧ i.Says symbols v.type := by
  obtain ⟨shape, hshape⟩ := Option.isSome_iff_exists.1 hv
  exact ⟨⟨shape, v.type.dtype, .recovered⟩, by simp [Var.info, hshape], hshape, rfl⟩

/-- The output of an equation goes by a name whose record says its type. -/
theorem exists_info_of_emits {table : InitializerTable} {es : List Equation} {nodes : List Node}
    (h : List.Forall₂ (EmitsWith program symbols targets table names info) es nodes) {v : Var}
    (hv : v ∈ es.flatMap Equation.outputs) (hrendered : (symbols.renderShape? v.type).isSome) :
    ∃ x i, names v.id = some x ∧ info x = some i ∧ i.Says symbols v.type := by
  induction h with
  | nil => simp at hv
  | @cons e n es nodes hen _ ih =>
    rw [List.flatMap_cons] at hv
    rcases List.mem_append.1 hv with hv | hv
    · obtain ⟨placed, hemits, -, hinfo⟩ := hen
      obtain ⟨k, hk⟩ := List.getElem?_of_mem hv
      have hname := congrArg (·[k]?) hemits.outputs_eq
      have hrecord := congrArg (·[k]?) hinfo
      simp only [List.getElem?_map, hk, Option.map_some, List.getElem?_zipWith] at hname hrecord
      obtain ⟨x, hx, hxname⟩ := Option.map_eq_some_iff.1 hname.symm
      rw [hx] at hrecord
      cases hplaced : placed[k]? with
      | none => simp [hplaced] at hrecord
      | some p =>
        obtain ⟨i, hi, hstated⟩ := Var.exists_info_of_rendered hrendered p
        exact ⟨x, i, hxname.symm, by simpa [hplaced, hi] using hrecord, hstated⟩
    · exact ih hv

namespace Translation

/-- An input goes by a name whose record says its type. -/
theorem exists_info_of_input
    (h : Translation program symbols targets σ names info t inputs body tail decls) {v : Var}
    (hv : v ∈ t.inputs) : ∃ x i, names v.id = some x ∧ info x = some i ∧ i.Says symbols v.type := by
  obtain ⟨k, hk⟩ := List.getElem?_of_mem hv
  obtain ⟨shape, hshape⟩ := Option.isSome_iff_exists.1 (h.inputs_rendered v hv)
  have hname := congrArg (·[k]?) h.inputs_eq
  have hrecord := congrArg (·[k]?) h.inputs_info
  simp only [List.getElem?_map, hk, Option.map_some, hshape] at hname hrecord
  obtain ⟨x, hx, hxname⟩ := Option.map_eq_some_iff.1 hname.symm
  rw [hx] at hrecord
  exact ⟨x, _, hxname.symm, (Option.some.inj hrecord).symm, hshape, rfl⟩

/-- The record of a name says the type of what goes by it, unless it is a constant. -/
theorem info_of_rendered
    (h : Translation program symbols targets σ names info t inputs body tail decls) {a : Atom}
    (ha : a.IsOneOf t.vars) (hrendered : (symbols.renderShape? a.type).isSome) {x : String}
    (hx : a.name? σ.table names = some x) :
    (x ∈ σ.table.names ∧ info x = none) ∨ ∃ i, info x = some i ∧ i.Says symbols a.type := by
  cases a with
  | literal value =>
    have hmem := InitializerTable.mem_names_of_find? hx
    exact Or.inl ⟨hmem, h.info_eq_none_of_mem_names hmem⟩
  | var v =>
    have hv : v ∈ t.inputs ∨ v ∈ t.constants.map Prod.fst ∨
        v ∈ t.equations.flatMap Equation.outputs := by
      simpa only [Atom.IsOneOf, Trace.vars, List.mem_append, or_assoc] using ha
    have hfound : ∀ y, names v.id = some y → y = x := fun y hy => Option.some.inj (hy.symm.trans hx)
    rcases hv with hv | hv | hv
    · obtain ⟨y, i, hy, hi, hstated⟩ := h.exists_info_of_input hv
      obtain rfl := hfound y hy
      exact Or.inr ⟨i, hi, hstated⟩
    · obtain ⟨c, hc, rfl⟩ := List.mem_map.1 hv
      obtain ⟨y, hy, hname⟩ := h.constants c hc
      obtain rfl := hfound y hname
      have hmem := InitializerTable.mem_names_of_find? hy
      exact Or.inl ⟨hmem, h.info_eq_none_of_mem_names hmem⟩
    · obtain ⟨y, i, hy, hi, hstated⟩ := exists_info_of_emits h.emits hv hrendered
      obtain rfl := hfound y hy
      exact Or.inr ⟨i, hi, hstated⟩

/-- The identity nodes of outputs make names that have no record yet. -/
theorem info_eq_none_of_tail
    (h : Translation program symbols targets σ names info t inputs body tail decls) {x : String}
    (hx : x ∈ tail.flatMap Node.outputs) : info x = none := by
  have hown := h.own_nodup
  rw [List.flatMap_append, ← List.append_assoc, List.nodup_append] at hown
  by_contra hne
  exact hown.2.2 x (h.info_own x hne) x hx rfl

end Translation

/-! ## Declared outputs -/

/-- An identity node's output gets the type of what it stands for. -/
theorem resolution?_of_routed {d : Declaration} (hname : info d.name = none)
    (hrendered : (symbols.renderShape? d.type).isSome)
    (hsource : info d.source = none ∨ ∃ i, info d.source = some i ∧ i.Says symbols d.type) :
    ∃ i, resolution? symbols info d = some i := by
  obtain ⟨shape, hshape⟩ := Option.isSome_iff_exists.1 hrendered
  refine ⟨⟨shape, d.type.dtype, .repaired⟩, ?_⟩
  rcases hsource with hsource | ⟨i, hsource, hstated, hdtype⟩
  · simp [resolution?, hname, hshape, hsource]
  · obtain rfl : shape = i.shape := Option.some.inj (hshape.symm.trans hstated)
    simp [resolution?, hname, hshape, hsource, hdtype]

/-- The records of declared outputs can be resolved. -/
theorem Declares.exists_resolves {table : InitializerTable} {declared : List String}
    {atoms : List Atom} {nodes : List Node}
    (h : Declares table names inputs declared atoms nodes decls)
    (hatoms : ∀ a ∈ atoms, ∀ x, a.name? table names = some x → (x ∈ table.names ∧ info x = none) ∨
      ∃ i, info x = some i ∧ i.Says symbols a.type)
    (hrendered : ∀ a ∈ atoms, (symbols.renderShape? a.type).isSome)
    (hsources : ∀ a ∈ atoms, ∀ x, a.name? table names = some x → x ∉ nodes.flatMap Node.outputs)
    (hnew : ∀ x ∈ nodes.flatMap Node.outputs, info x = none)
    (hnodup : (nodes.flatMap Node.outputs).Nodup) :
    ∃ info', Resolves symbols info decls info' := by
  induction h generalizing info with
  | nil => exact ⟨info, .nil⟩
  | @own declared a x rest nodes decls source notInput notConstant notDeclared next ih =>
    obtain ⟨i, hi, -⟩ := (hatoms a (by simp) x source).resolve_left fun h => notConstant h.1
    obtain ⟨info', hresolves⟩ :=
      ih (fun b hb => hatoms b (by simp [hb])) (fun b hb => hrendered b (by simp [hb]))
        (fun b hb => hsources b (by simp [hb])) hnew hnodup
    have hsame : Function.update info x (some i) = info := by rw [← hi, Function.update_eq_self]
    exact ⟨info', .cons (i := i) (by simp [resolution?, hi]) (by rwa [hsame])⟩
  | @routed declared a x out nodeName rest nodes decls source aliased next ih =>
    have hflat : (Node.plain "Identity" nodeName [x] [out] :: nodes).flatMap Node.outputs =
        out :: nodes.flatMap Node.outputs := by simp [Node.plain]
    rw [hflat] at hsources hnew hnodup
    rw [List.nodup_cons] at hnodup
    obtain ⟨i, hi⟩ :=
      resolution?_of_routed (d := ⟨out, x, a.type⟩) (hnew out (by simp)) (hrendered a (by simp))
        ((hatoms a (by simp) x source).imp_left And.right)
    have hother : ∀ y, y ≠ out → Function.update info out (some i) y = info y :=
      fun y hy => Function.update_of_ne hy _ _
    obtain ⟨info', hresolves⟩ := @ih (Function.update info out (some i))
      (fun b hb y hy => by
        rw [hother y fun hyo => hsources b (by simp [hb]) y hy (by simp [hyo])]
        exact hatoms b (by simp [hb]) y hy)
      (fun b hb => hrendered b (by simp [hb]))
      (fun b hb y hy hmem => hsources b (by simp [hb]) y hy (by simp [hmem]))
      (fun y hy => by
        rw [hother y fun hyo => hnodup.1 (hyo ▸ hy)]
        exact hnew y (by simp [hy]))
      hnodup.2
    exact ⟨info', .cons hi hresolves⟩

/-- The records of the outputs of a typed trace can be resolved. -/
theorem Translation.exists_resolves
    (h : Translation program symbols targets σ names info t inputs body tail decls)
    (houtputs : ∀ a ∈ t.outputs, a.IsOneOf t.vars)
    (hrendered : ∀ v ∈ t.vars, (symbols.renderShape? v.type).isSome) :
    ∃ info', Resolves symbols info decls info' := by
  have hown := h.own_nodup
  rw [List.flatMap_append, ← List.append_assoc, List.nodup_append] at hown
  obtain ⟨-, htail, hdisjoint⟩ := hown
  have hnew : ∀ x ∈ tail.flatMap Node.outputs, x ∉ σ.table.names := fun x hx => h.own_new x (by
    rw [List.flatMap_append]
    exact List.mem_append_right _ (List.mem_append_right _ hx))
  have hrendered' : ∀ a ∈ t.outputs, (symbols.renderShape? a.type).isSome :=
    fun a ha => (houtputs a ha).isSome_renderShape? hrendered
  refine h.declares.exists_resolves
    (fun a ha x hx => h.info_of_rendered (houtputs a ha) (hrendered' a ha) hx) hrendered'
    (fun a ha x hx hmem => ?_) (fun x => h.info_eq_none_of_tail) htail
  rcases h.mem_of_name? (h.results a ha) hx with hx | hx
  · exact hdisjoint x hx x hmem rfl
  · exact hnew x hmem hx

/-- An output without a record gets one that says its type, if that can be rendered. -/
theorem Info.says_of_resolution? {d : Declaration} {i : Info}
    (h : resolution? symbols info d = some i) (hrendered : (symbols.renderShape? d.type).isSome)
    (hstated : ∀ j, info d.name = some j → j.Says symbols d.type) :
    i.Says symbols d.type := by
  obtain ⟨shape, hshape⟩ := Option.isSome_iff_exists.1 hrendered
  cases hname : info d.name with
  | some j =>
    obtain rfl : j = i := by simpa [resolution?, hname] using h
    exact hstated j hname
  | none =>
    cases hsource : info d.source with
    | none =>
      obtain rfl : _ = i := by simpa [resolution?, hname, hshape, hsource] using h
      exact ⟨hshape, rfl⟩
    | some j =>
      simp only [resolution?, hname, hshape, hsource, Option.ite_none_right_eq_some,
        Option.some.injEq] at h
      obtain ⟨-, rfl⟩ := h
      exact ⟨hshape, rfl⟩

/-- Resolved records say the types of outputs, if these can be rendered and no record said
otherwise. -/
theorem Resolves.exists_stated {info' : String → Option Info}
    (h : Resolves symbols info decls info') (hnodup : (decls.map Declaration.name).Nodup)
    {d : Declaration} (hd : d ∈ decls) (hrendered : (symbols.renderShape? d.type).isSome)
    (hstated : ∀ i, info d.name = some i → i.Says symbols d.type) :
    ∃ i, info' d.name = some i ∧ i.Says symbols d.type := by
  induction h with
  | nil => simp at hd
  | @cons info info' other rest i found next ih =>
    rw [List.map_cons, List.nodup_cons] at hnodup
    rcases List.mem_cons.1 hd with rfl | hd
    · exact ⟨i, next.eq_of_some (Function.update_self _ _ _),
        Info.says_of_resolution? found hrendered hstated⟩
    · have hne : d.name ≠ other.name := ne_of_mem_of_not_mem (List.mem_map_of_mem hd) hnodup.1
      exact ih hnodup.2 hd fun j hj => hstated j (by rwa [Function.update_of_ne hne] at hj)

/-- A declared output has the type of the operand that it stands for. It goes by the operand's name,
or an identity node makes it. -/
theorem Declares.forall₂ {table : InitializerTable} {declared : List String} {atoms : List Atom}
    {nodes : List Node} (h : Declares table names inputs declared atoms nodes decls) :
    List.Forall₂ (fun a d => d.type = a.type ∧
      (a.name? table names = some d.name ∧ d.name ∉ table.names ∨
      d.name ∈ nodes.flatMap Node.outputs)) atoms decls := by
  induction h with
  | nil => exact .nil
  | own source notInput notConstant notDeclared next ih =>
    exact .cons ⟨rfl, Or.inl ⟨source, notConstant⟩⟩ ih
  | routed source aliased next ih =>
    refine .cons ⟨rfl, Or.inr (by simp [Node.plain])⟩
      (ih.imp fun a d had => ⟨had.1, had.2.imp_right fun hd => ?_⟩)
    rw [List.flatMap_cons]
    exact List.mem_append_right _ hd

/-- The records of a finished level's outputs say their types, if these can be rendered. -/
theorem Level.Translates.infos_of_rendered {l : Level}
    (h : l.Translates program symbols targets σ names info t body tail decls)
    (houtputs : ∀ a ∈ t.outputs, a.IsOneOf t.vars) :
    List.Forall₂ (fun a i => (symbols.renderShape? a.type).isSome → ∃ j, i = some j ∧
      j.Says symbols a.type) t.outputs (l.outputs.map l.info?) := by
  have hnodup := h.outputs_spec.1
  rw [h.outputs] at hnodup
  rw [h.outputs, List.map_map, List.forall₂_map_right_iff]
  obtain ⟨hlength, hpairs⟩ := List.forall₂_iff_zip.1 h.translation.declares.forall₂
  refine List.forall₂_iff_zip.2 ⟨hlength, fun {a d} had hrendered => ?_⟩
  obtain ⟨ha, hd⟩ := List.of_mem_zip had
  obtain ⟨htype, hname⟩ := hpairs had
  rw [← htype] at hrendered ⊢
  refine h.resolves.exists_stated hnodup hd hrendered fun i hi => ?_
  rcases hname with ⟨hname, hconstant⟩ | hname
  · rw [htype] at hrendered ⊢
    obtain ⟨j, hj, hstated⟩ :=
      (h.translation.info_of_rendered (houtputs a ha) hrendered hname).resolve_left fun hmem =>
        hconstant hmem.1
    exact Option.some.inj (hj.symm.trans hi) ▸ hstated
  · rw [h.translation.info_eq_none_of_tail hname] at hi
    cases hi

/-- The records of a finished level's outputs say their types. -/
theorem Level.Translates.infos_of_typed {l : Level}
    (h : l.Translates program symbols targets σ names info t body tail decls)
    (houtputs : ∀ a ∈ t.outputs, a.IsOneOf t.vars)
    (hrendered : ∀ v ∈ t.vars, (symbols.renderShape? v.type).isSome) :
    List.Forall₂ (fun a i => ∃ j, i = some j ∧ j.Says symbols a.type) t.outputs
      (l.outputs.map l.info?) := by
  have hrendered' : ∀ a ∈ t.outputs, (symbols.renderShape? a.type).isSome :=
    fun a ha => (houtputs a ha).isSome_renderShape? hrendered
  exact ((List.forall₂_and_left _ _).2 ⟨hrendered', h.infos_of_rendered houtputs⟩).imp
    fun a i hai => hai.2 hai.1

/-- The records of the outputs of a function that implements an arithmetic callable say the types of
its trace. -/
theorem Implements.infos_of_typed {index : Nat} {types : List AbstractValue} {callee : Callee}
    (h : Implements program settings symbols σ index types callee)
    (harith : ∀ c ∈ program, c.IsArithmetic)
    (htypes : ∀ type ∈ types, (symbols.renderShape? type).isSome) :
    ∃ c t counts counts', program[index]? = some c ∧
      c.tracer settings (Program.tracers settings (program.take index)) types counts =
        .ok (t, counts') ∧
      List.Forall₂ (fun a i => ∃ j, i = some j ∧ j.Says symbols a.type) t.outputs callee.infos := by
  cases h with
  | @intro _ counts counts' c _ t _ _ _ _ _ _ _ _ _ known trace inner translates
    function same member captured infos =>
    have ht :=
      Callable.typed_tracer (Program.renders_tracers fun c hc => harith c (List.mem_of_mem_take hc))
        (harith c (List.mem_of_getElem? known)) trace htypes
    exact ⟨c, t, counts, counts', known, trace,
      infos ▸ translates.infos_of_typed ht.outputs ht.rendered⟩

end

end TensorGraph
