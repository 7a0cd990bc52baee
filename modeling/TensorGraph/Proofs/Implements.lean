import TensorGraph.Proofs.LocalNames
import TensorGraph.Proofs.Translation

/-!
# Functions that implement callables

A function implements a callable on argument types if it is what a level becomes that translates the
callable's trace on these types, and the functions that it calls do so too (`Implements`). This
stays true as the names, constants and functions that all levels share grow (`Implements.mono`) :
the constants that a level reads stay the same ones.
-/

namespace TensorGraph

/-! ## What the nodes of a translation read -/

section Reads

variable {program : Program} {symbols : SymbolTable} {targets : Targets} {table : InitializerTable}
  {names : Nat → Option String} {info : String → Option Info}

/-- The functions that calls refer to are passed constants only. -/
def Targets.CaptureFrom (targets : Targets) (table : InitializerTable) : Prop :=
  ∀ i ts g, targets i ts g → ∀ x ∈ g.captured, x ∈ table.names

theorem Emits.mem_inputs (htargets : targets.CaptureFrom table) {e : Equation} {n : Node}
    {placed : List (Option Info)} (h : Emits program targets table names e n placed) {x : String}
    (hx : x ∈ n.inputs) :
    (∃ a ∈ e.inputs, a.name? table names = some x) ∨ x ∈ table.names := by
  cases h with
  | primitive callee operation inputs outputs lhs rhs out =>
    left
    simp only [Node.plain, List.mem_cons, List.not_mem_nil, or_false] at hx
    rcases hx with rfl | rfl
    · exact ⟨_, by simp [inputs], lhs⟩
    · exact ⟨_, by simp [inputs], rhs⟩
  | call calls known inputs outputs target count =>
    rcases List.mem_append.1 hx with hx | hx
    · left
      have : some x ∈ e.inputs.map (Atom.name? table names) := inputs ▸ List.mem_map_of_mem hx
      obtain ⟨a, ha, hname⟩ := List.mem_map.1 this
      exact ⟨a, ha, hname⟩
    · exact Or.inr (htargets _ _ _ target x hx)

theorem Atom.mem_of_name? {ids : List Nat} {defined : List String}
    (hids : ∀ id ∈ ids, ∃ x ∈ defined, names id = some x) (htable : table.names ⊆ defined)
    {a : Atom} (ha : a.IsKnown ids) {x : String} (hx : a.name? table names = some x) :
    x ∈ defined := by
  cases a with
  | literal t => exact htable (InitializerTable.mem_names_of_find? hx)
  | var v =>
    obtain ⟨y, hy, hname⟩ := hids _ ha
    obtain rfl : y = x := Option.some.inj (hname.symm.trans hx)
    exact hy

/-- The nodes of equations read in order. -/
theorem readsFrom_of_emits (htargets : targets.CaptureFrom table) {es : List Equation}
    {nodes : List Node}
    (h : List.Forall₂ (EmitsWith program symbols targets table names info) es nodes)
    {ids : List Nat} {defined : List String} (hreads : ScopedFrom ids es)
    (hids : ∀ id ∈ ids, ∃ x ∈ defined, names id = some x) (htable : table.names ⊆ defined) :
    ReadsFrom defined nodes := by
  induction h generalizing ids defined with
  | nil => trivial
  | @cons e n es nodes hen _ ih =>
    obtain ⟨placed, hemits, -⟩ := hen
    refine ⟨fun x hx => ?_,
      ih hreads.2 (fun id hid => ?_) (List.subset_append_of_subset_left _ htable)⟩
    · rcases hemits.mem_inputs htargets hx with ⟨a, ha, hname⟩ | hx
      · exact Atom.mem_of_name? hids htable (hreads.1 a ha) hname
      · exact htable hx
    · rcases List.mem_append.1 hid with hid | hid
      · obtain ⟨x, hx, hname⟩ := hids id hid
        exact ⟨x, List.mem_append_left _ hx, hname⟩
      · obtain ⟨v, hv, rfl⟩ := List.mem_map.1 hid
        obtain ⟨x, hx, hname⟩ := exists_of_map_eq_map_some hemits.outputs_eq hv
        exact ⟨x, List.mem_append_right _ hx, hname⟩

/-- The identity nodes of outputs read in order. -/
theorem readsFrom_of_declares {inputs declared defined : List String} {atoms : List Atom}
    {nodes : List Node} {decls : List Declaration}
    (h : Declares table names inputs declared atoms nodes decls)
    (hatoms : ∀ a ∈ atoms, ∀ x, a.name? table names = some x → x ∈ defined) :
    ReadsFrom defined nodes := by
  induction h generalizing defined with
  | nil => trivial
  | @own declared a x rest nodes decls source notInput notConstant notDeclared next ih =>
    exact ih fun a ha => hatoms a (by simp [ha])
  | @routed declared a x out nodeName rest nodes decls source aliased next ih =>
    refine ⟨fun y hy => ?_, ih fun a ha z hz => ?_⟩
    · obtain rfl : y = x := by simpa [Node.plain] using hy
      exact hatoms a (by simp) y source
    · exact List.mem_append_left _ (hatoms a (by simp [ha]) z hz)

end Reads

namespace Translation

variable {program : Program} {symbols : SymbolTable} {targets : Targets} {σ : Shared}
  {names : Nat → Option String} {info : String → Option Info} {t : Trace} {inputs : List String}
  {body tail : List Node} {decls : List Declaration}

/-- The nodes of a translation read inputs, constants and outputs of nodes before them. -/
theorem readsFrom (h : Translation program symbols targets σ names info t inputs body tail decls)
    (htargets : targets.CaptureFrom σ.table) :
    ReadsFrom (inputs ++ σ.table.names) (body ++ tail) := by
  refine ReadsFrom.append_iff.2 ⟨readsFrom_of_emits htargets h.emits h.reads (fun id hid => ?_)
    (List.subset_append_right _ _), readsFrom_of_declares h.declares fun a ha x hx => ?_⟩
  · obtain ⟨x, hname, hx⟩ := h.exists_name_of_given hid
    exact ⟨x, List.mem_append.2 hx, hname⟩
  · rcases h.mem_of_name? (h.results a ha) hx with hx | hx
    · rcases List.mem_append.1 hx with hx | hx
      · exact List.mem_append_left _ (List.mem_append_left _ hx)
      · exact List.mem_append_right _ hx
    · exact List.mem_append_left _ (List.mem_append_right _ hx)

end Translation

/-! ## Finished levels -/

/-- A finished level translates a trace : its outputs have their records too. -/
structure Level.Translates (program : Program) (symbols : SymbolTable) (targets : Targets)
    (σ : Shared) (names : Nat → Option String) (info : String → Option Info) (t : Trace) (l : Level)
    (body tail : List Node) (decls : List Declaration) : Prop where
  translation : Translation program symbols targets σ names info t l.inputs body tail decls
  nodes : l.nodes = body ++ tail
  outputs : l.outputs = decls.map Declaration.name
  resolves : Resolves symbols info decls l.info?

namespace Level

/-- The constants that a level reads, as often as it does and in the order of its nodes. -/
def constantReads (l : Level) (table : InitializerTable) : List String :=
  (l.nodes.flatMap Node.inputs).filter table.contains

theorem mem_constantReads {l : Level} {table : InitializerTable} {x : String} :
    x ∈ l.constantReads table ↔ x ∈ l.nodes.flatMap Node.inputs ∧ x ∈ table.names := by
  rw [constantReads, List.mem_filter, InitializerTable.contains_iff]

theorem mem_referencedInitializers {l : Level} {table : InitializerTable} {x : String} :
    x ∈ l.referencedInitializers table ↔ x ∈ l.nodes.flatMap Node.inputs ∧ x ∈ table.names := by
  simp only [referencedInitializers, List.mem_mergeSort, List.mem_eraseDups, List.mem_filter,
    InitializerTable.contains_iff]

theorem nodup_referencedInitializers (l : Level) (table : InitializerTable) :
    (l.referencedInitializers table).Nodup :=
  (List.mergeSort_perm _ _).nodup_iff.2 (nodup_eraseDups _)

theorem exists_paramRecords {table : InitializerTable} {params : List String}
    (h : ∀ x ∈ params, x ∈ table.names) (k : Nat) :
    ∃ records, paramRecords table k params = .ok records := by
  induction params generalizing k with
  | nil => exact ⟨[], rfl⟩
  | cons x rest ih =>
    obtain ⟨records, hrecords⟩ := ih (fun y hy => h y (by simp [hy])) (k + 1)
    cases hget : table.get? x with
    | none => exact absurd (h x (by simp)) (InitializerTable.get?_eq_none_iff.1 hget)
    | some tensor => exact ⟨_, by simp only [paramRecords, hget, hrecords]; rfl⟩

theorem paramRecords_mono {σ τ : Shared} (hle : σ.Le τ) (params : List String) {k : Nat}
    {records : List (LocalName × ValueRecord)} (h : paramRecords σ.table k params = .ok records) :
    paramRecords τ.table k params = .ok records := by
  induction params generalizing k records with
  | nil => exact h
  | cons param rest ih =>
    obtain ⟨tensor, others, hget, hrest, rfl⟩ := paramRecords_cons_eq_ok.1 h
    exact paramRecords_cons_eq_ok.2 ⟨tensor, others, hle.get? hget, ih hrest, rfl⟩

theorem toFunction_mono {σ τ : Shared} (hle : σ.Le τ) {l : Level} {name : String}
    {params : List String} {f : Function} (h : l.toFunction name params σ.table = .ok f) :
    l.toFunction name params τ.table = .ok f := by
  obtain ⟨houtputs, records, hrecords, hf⟩ := toFunction_eq_ok.1 h
  exact toFunction_eq_ok.2 ⟨houtputs, records, paramRecords_mono hle params hrecords, hf⟩

namespace Translates

variable {program : Program} {symbols : SymbolTable} {targets targets' : Targets} {σ τ : Shared}
  {names : Nat → Option String} {info : String → Option Info} {t : Trace} {l : Level}
  {body tail : List Node} {decls : List Declaration}

theorem mono (h : l.Translates program symbols targets σ names info t body tail decls)
    (hle : σ.Le τ) (htable : σ.table.names ⊆ σ.used)
    (htargets : ∀ i ts g, targets i ts g → targets' i ts g) :
    l.Translates program symbols targets' τ names info t body tail decls :=
  ⟨h.translation.mono hle htable htargets, h.nodes, h.outputs, h.resolves⟩

/-- The nodes of a finished level read inputs, constants and outputs of nodes before them. -/
theorem readsFrom (h : l.Translates program symbols targets σ names info t body tail decls)
    (htargets : targets.CaptureFrom σ.table) : ReadsFrom (l.inputs ++ σ.table.names) l.nodes := by
  rw [h.nodes]
  exact h.translation.readsFrom htargets

/-- What a level reads of the constants stays the same. -/
theorem constantReads_mono (h : l.Translates program symbols targets σ names info t body tail decls)
    (htargets : targets.CaptureFrom σ.table) (hle : σ.Le τ) :
    l.constantReads τ.table = l.constantReads σ.table := by
  refine List.filter_congr fun x hx => Bool.eq_iff_iff.2 ?_
  rw [InitializerTable.contains_iff, InitializerTable.contains_iff]
  refine ⟨fun hnew => ?_, hle.mem_names⟩
  by_contra hold
  obtain ⟨n, hn, hxn⟩ := List.mem_flatMap.1 hx
  have hdef := (h.readsFrom htargets).mem_of_mem_inputs hn hxn
  have hown : x ∈ l.inputs ++ (body ++ tail).flatMap Node.outputs := by
    rw [h.nodes] at hdef
    rcases List.mem_append.1 hdef with hdef | hdef
    · rcases List.mem_append.1 hdef with hdef | hdef
      · exact List.mem_append_left _ hdef
      · exact absurd hdef hold
    · exact List.mem_append_right _ hdef
  exact hle.not_mem_names (h.translation.own_used x hown) hold hnew

/-- The constants that a level reads stay the same ones. -/
theorem referencedInitializers_mono
    (h : l.Translates program symbols targets σ names info t body tail decls)
    (htargets : targets.CaptureFrom σ.table) (hle : σ.Le τ) :
    l.referencedInitializers τ.table = l.referencedInitializers σ.table :=
  congrArg (fun reads => reads.eraseDups.mergeSort nameLe) (h.constantReads_mono htargets hle)

/-- The inputs of a level and the constants that it reads are different names. -/
theorem nodup_inputs_captured
    (h : l.Translates program symbols targets σ names info t body tail decls) :
    (l.inputs ++ l.referencedInitializers σ.table).Nodup := by
  refine List.nodup_append.2 ⟨(List.nodup_append.1 h.translation.own_nodup).1,
    l.nodup_referencedInitializers σ.table, ?_⟩
  rintro x hx _ hcaptured rfl
  exact h.translation.own_new x (List.mem_append_left _ hx)
    (mem_referencedInitializers.1 hcaptured).2

/-- Inputs and the constants that a level reads are enough for its nodes. -/
theorem readsFrom_captured (h : l.Translates program symbols targets σ names info t body tail decls)
    (htargets : targets.CaptureFrom σ.table) :
    ReadsFrom (l.inputs ++ l.referencedInitializers σ.table) l.nodes := by
  refine (h.readsFrom htargets).restrict fun x hx hread => ?_
  rcases List.mem_append.1 hx with hx | hx
  · exact List.mem_append_left _ hx
  · exact List.mem_append_right _ (mem_referencedInitializers.2 ⟨hread, hx⟩)

end Translates

end Level

/-! ## Outputs of finished levels -/

/-- Declared outputs are different outputs of nodes, where `made` are the outputs of the nodes
before. -/
theorem Declares.names_spec {table : InitializerTable} {names : Nat → Option String}
    {inputs declared : List String} {atoms : List Atom} {nodes : List Node}
    {decls : List Declaration} (h : Declares table names inputs declared atoms nodes decls)
    {made : List String}
    (hatoms : ∀ a ∈ atoms, ∀ x, a.name? table names = some x → x ∈ inputs ++ made ∨ x ∈ table.names)
    (hnodup : (made ++ nodes.flatMap Node.outputs).Nodup) (hdeclared : declared.Nodup)
    (hdisjoint : ∀ x ∈ declared, x ∉ nodes.flatMap Node.outputs) :
    (declared ++ decls.map Declaration.name).Nodup ∧
      ∀ d ∈ decls, d.name ∈ made ++ nodes.flatMap Node.outputs := by
  induction h generalizing made with
  | nil => exact ⟨by simpa using hdeclared, by simp⟩
  | @own declared a x rest nodes decls source notInput notConstant notDeclared next ih =>
    have hx : x ∈ made := by
      rcases hatoms a (by simp) x source with hx | hx
      · exact (List.mem_append.1 hx).resolve_left notInput
      · exact absurd hx notConstant
    have hxnodes : x ∉ nodes.flatMap Node.outputs :=
      fun hmem => (List.nodup_append.1 hnodup).2.2 x hx x hmem rfl
    obtain ⟨hnodup', hmem⟩ := ih (fun b hb => hatoms b (by simp [hb])) hnodup
      (by simpa [List.nodup_append, hdeclared] using
        fun y hy => ne_of_mem_of_not_mem hy notDeclared)
      (fun y hy => by
        rcases List.mem_append.1 hy with hy | hy
        · exact hdisjoint y hy
        · obtain rfl : y = x := by simpa using hy
          exact hxnodes)
    refine ⟨by simpa using hnodup', fun d hd => ?_⟩
    rcases List.mem_cons.1 hd with rfl | hd
    · exact List.mem_append_left _ hx
    · exact hmem d hd
  | @routed declared a x out nodeName rest nodes decls source aliased next ih =>
    have hflat : (Node.plain "Identity" nodeName [x] [out] :: nodes).flatMap Node.outputs =
        out :: nodes.flatMap Node.outputs := by simp [Node.plain]
    rw [hflat] at hnodup hdisjoint ⊢
    have hsplit : ((made ++ [out]) ++ nodes.flatMap Node.outputs).Nodup := by simpa using hnodup
    have hout : out ∉ declared := fun hmem => hdisjoint out hmem (by simp)
    obtain ⟨hnodup', hmem⟩ := @ih (made ++ [out]) (fun b hb y hy =>
        (hatoms b (by simp [hb]) y hy).imp_left fun h => by
          simpa using Or.imp_right Or.inl (List.mem_append.1 h)) hsplit
      (by simpa [List.nodup_append, hdeclared] using fun y hy => ne_of_mem_of_not_mem hy hout)
      (fun y hy => by
        rcases List.mem_append.1 hy with hy | hy
        · exact fun hmem => hdisjoint y hy (by simp [hmem])
        · obtain rfl : y = out := by simpa using hy
          exact fun hmem => (List.nodup_append.1 hsplit).2.2 y (by simp) y hmem rfl)
    refine ⟨by simpa using hnodup', fun d hd => ?_⟩
    rcases List.mem_cons.1 hd with rfl | hd
    · simp
    · simpa using hmem d hd

namespace Level.Translates

variable {program : Program} {symbols : SymbolTable} {targets : Targets} {σ : Shared}
  {names : Nat → Option String} {info : String → Option Info} {t : Trace} {l : Level}
  {body tail : List Node} {decls : List Declaration}

/-- The outputs of a finished level are different outputs of its nodes. -/
theorem outputs_spec (h : l.Translates program symbols targets σ names info t body tail decls) :
    l.outputs.Nodup ∧ ∀ x ∈ l.outputs, x ∈ l.nodes.flatMap Node.outputs := by
  have hnodup := (List.nodup_append.1 h.translation.own_nodup).2.1
  rw [List.flatMap_append] at hnodup
  obtain ⟨houtputs, hmem⟩ := h.translation.declares.names_spec
    (fun a ha x hx => h.translation.mem_of_name? (h.translation.results a ha) hx) hnodup .nil
    (by simp)
  rw [h.outputs, h.nodes, List.flatMap_append]
  refine ⟨by simpa using houtputs, fun x hx => ?_⟩
  obtain ⟨d, hd, rfl⟩ := List.mem_map.1 hx
  exact hmem d hd

theorem nodup_inputs_outputs
    (h : l.Translates program symbols targets σ names info t body tail decls) :
    (l.inputs ++ l.outputs).Nodup := by
  obtain ⟨hinputs, -, hdisjoint⟩ := List.nodup_append.1 h.translation.own_nodup
  refine List.nodup_append.2 ⟨hinputs, h.outputs_spec.1, fun x hx y hy => hdisjoint x hx y ?_⟩
  rw [← h.nodes]
  exact h.outputs_spec.2 y hy

end Level.Translates

/-! ## Records of finished levels -/

namespace Resolves

variable {symbols : SymbolTable} {info info' : String → Option Info} {decls : List Declaration}

/-- A record that is there stays while outputs are resolved. -/
theorem eq_of_some (h : Resolves symbols info decls info') {x : String} {i : Info}
    (hx : info x = some i) :
    info' x = some i := by
  induction h with
  | nil => exact hx
  | @cons info info' d rest j found next ih =>
    refine ih ?_
    by_cases hd : x = d.name
    · subst hd
      obtain rfl : i = j := by simpa [resolution?, hx] using found
      exact Function.update_self _ _ _
    · rwa [Function.update_of_ne hd]

theorem isSome (h : Resolves symbols info decls info') {x : String} (hx : (info x).isSome) :
    (info' x).isSome := by
  obtain ⟨i, hi⟩ := Option.isSome_iff_exists.1 hx
  rw [h.eq_of_some hi]
  rfl

/-- Every declared output has a record when outputs are resolved. -/
theorem isSome_of_mem (h : Resolves symbols info decls info') {d : Declaration} (hd : d ∈ decls) :
    (info' d.name).isSome := by
  induction h with
  | nil => simp at hd
  | cons found next ih =>
    rcases List.mem_cons.1 hd with rfl | hd
    · exact next.isSome (by simp)
    · exact ih hd

/-- Resolving outputs leaves the records of other names as they are. -/
theorem eq_of_not_mem (h : Resolves symbols info decls info') {x : String}
    (hx : x ∉ decls.map Declaration.name) :
    info' x = info x := by
  induction h with
  | nil => rfl
  | @cons info info' d rest i found next ih =>
    rw [List.map_cons, List.mem_cons, not_or] at hx
    rw [ih hx.2, Function.update_of_ne hx.1]

end Resolves

namespace Level.Translates

variable {program : Program} {symbols : SymbolTable} {targets : Targets} {σ : Shared}
  {names : Nat → Option String} {info : String → Option Info} {t : Trace} {l : Level}
  {body tail : List Node} {decls : List Declaration}

theorem isSome_record?_input
    (h : l.Translates program symbols targets σ names info t body tail decls) {x : String}
    (hx : x ∈ l.inputs) : (l.record? x).isSome := by
  have hmem : info x ∈ l.inputs.map info := List.mem_map_of_mem hx
  rw [← h.translation.inputs_info] at hmem
  obtain ⟨v, hv, hinfo⟩ := List.mem_map.1 hmem
  have hsome : (info x).isSome := by
    rw [← hinfo, Option.isSome_map]
    exact h.translation.inputs_rendered v hv
  have := h.resolves.isSome hsome
  rwa [Level.info?, Option.isSome_map] at this

theorem isSome_record?_output
    (h : l.Translates program symbols targets σ names info t body tail decls) {x : String}
    (hx : x ∈ l.outputs) : (l.record? x).isSome := by
  rw [h.outputs] at hx
  obtain ⟨d, hd, rfl⟩ := List.mem_map.1 hx
  have := h.resolves.isSome_of_mem hd
  rwa [Level.info?, Option.isSome_map] at this

/-- A constant has no record in a finished level. -/
theorem info?_eq_none_of_mem_names
    (h : l.Translates program symbols targets σ names info t body tail decls) {x : String}
    (hx : x ∈ σ.table.names) : l.info? x = none := by
  rw [h.resolves.eq_of_not_mem, h.translation.info_eq_none_of_mem_names hx]
  intro hmem
  rw [← h.outputs] at hmem
  have hmade := h.outputs_spec.2 x hmem
  rw [h.nodes] at hmade
  exact h.translation.own_new x (List.mem_append_right _ hmade) hx

end Level.Translates

/-! ## Implementations -/

/-- A function implements a callable on argument types: it is what a level becomes that translates
the callable's trace, and so are the functions that it calls. -/
inductive Implements (program : Program) (settings : Params) (symbols : SymbolTable) (σ : Shared) :
    Targets where
  | intro {index : Nat} {counts counts' : Counts} {c : Callable} {types : List AbstractValue}
      {t : Trace} {l : Level} {targets : Targets} {names : Nat → Option String}
      {info : String → Option Info} {body tail : List Node} {decls : List Declaration}
      {callee : Callee} {f : Function} (known : program[index]? = some c)
      (trace : c.tracer settings (Program.tracers settings (program.take index)) types counts =
        .ok (t, counts'))
      (inner : ∀ i ts g, targets i ts g → Implements program settings symbols σ i ts g)
      (translates : l.Translates program symbols targets σ names info t body tail decls)
      (function : l.toFunction f.name callee.captured σ.table = .ok f)
      (same : callee.function = { f with name := callee.function.name })
      (member : callee.function ∈ σ.functions)
      (captured : callee.captured = l.referencedInitializers σ.table)
      (infos : callee.infos = l.outputs.map l.info?) :
      Implements program settings symbols σ index types callee

namespace Implements

variable {program : Program} {settings : Params} {symbols : SymbolTable} {σ τ : Shared}
  {index : Nat} {types : List AbstractValue} {callee : Callee}

theorem captureFrom : Targets.CaptureFrom (Implements program settings symbols σ) σ.table := by
  rintro i ts g ⟨⟩ x hx
  next captured _ =>
    rw [captured] at hx
    exact (Level.mem_referencedInitializers.1 hx).2

theorem captureFrom_of_inner {targets : Targets}
    (inner : ∀ i ts g, targets i ts g → Implements program settings symbols σ i ts g) :
    targets.CaptureFrom σ.table :=
  fun i ts g hg => captureFrom i ts g (inner i ts g hg)

/-- An implementation stays one as the conversion goes on. -/
theorem mono (h : Implements program settings symbols σ index types callee) (hle : σ.Le τ)
    (htable : σ.table.names ⊆ σ.used) :
    Implements program settings symbols τ index types callee := by
  induction h with
  | intro known trace inner translates function same member captured infos ih =>
    refine .intro known trace (fun _ _ _ => id)
      (translates.mono hle htable ih) (Level.toFunction_mono hle function) same
      (hle.functions.subset member) ?_ infos
    rw [captured, translates.referencedInitializers_mono (captureFrom_of_inner inner) hle]

end Implements

end TensorGraph
