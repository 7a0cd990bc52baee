import TensorGraph.Lowering.Registry
import TensorGraph.Proofs.Draft
import TensorGraph.Proofs.FunctionTable

/-!
# Lowering builds translations

What a level has built after some inputs, constants, equations and outputs of a trace were lowered
translates the part of the trace that these make up (`Draft.Lowered`).
-/

namespace TensorGraph

/-! ## Nodes of equations -/

/-- The node of an equation is appended, with new names for the outputs; `infos` is what the records
of these names say. -/
structure Draft.Places (program : Program) (settings : Params) (symbols : SymbolTable) (d : Draft)
    (e : Equation) (n : Node) (placed infos : List (Option Info)) (d' : Draft) : Prop where
  nodes : d'.level.nodes = d.level.nodes ++ [n]
  binds : d.Binds e.outputs n.outputs { d' with level := { d'.level with nodes := d.level.nodes } }
  emits : Emits program (Implements program settings symbols d'.shared) d'.initializers d'.name? e n
    placed
  reads : ∀ v, .var v ∈ e.inputs → (d.name? v.id).isSome
  name_free : n.name ∉ d.names.used
  name_used : n.name ∈ d'.names.used
  sound : d'.shared.Sound program settings symbols
  infos_eq : n.outputs.map d'.level.info? = infos

section

variable {program : Program} {settings : Params} {symbols : SymbolTable} {s s' : Lowering}
  {u : Unit}

theorem Draft.Binds.names_mono {d d' : Draft} {vs : List Var} {outs : List String}
    (h : d.Binds vs outs d') (hvs : ∀ v ∈ vs, d.name? v.id = none) (id : Nat) (x : String)
    (hx : d.name? id = some x) : d'.name? id = some x := by
  rw [h.names id ?_, hx]
  intro hid
  obtain ⟨v, hv, rfl⟩ := List.mem_map.1 hid
  simp [hvs v hv] at hx

/-- The records of the bound names change. -/
theorem Draft.Binds.withRecords {d d' : Draft} {vs : List Var} {outs : List String}
    (h : d.Binds vs outs d') {records : List ValueRecord}
    (hinfo : ∀ x, x ∉ outs → (d'.withRecords records).level.info? x = d'.level.info? x) :
    d.Binds vs outs (d'.withRecords records) :=
  { h with info := fun x hx => (hinfo x hx).trans (h.info x hx) }

theorem Draft.Expands.of_used {d : Draft} (hd : d.shared.Tidy) {pool : NamePool}
    (h : ∀ x, x ∈ pool.used ↔ x ∈ d.names.used) : d.Expands { d with names := pool } :=
  ⟨rfl, rfl, rfl, rfl, rfl, rfl, Shared.le_of_used fun x hx => (h x).2 hx,
    hd.of_used fun x hx => (h x).2 hx⟩

/-- A node is appended after its outputs were bound. -/
theorem Lower.binds_addNode {d : Draft} {vs : List Var} {n : Node}
    (h : build (Build.addNode n) s = .ok u s') (hb : d.Binds vs n.outputs s.draft)
    (hname : n.name ∈ s.draft.names.used) :
    s'.draft.level.nodes = d.level.nodes ++ [n] ∧
      d.Binds vs n.outputs { s'.draft with
        level := { s'.draft.level with nodes := d.level.nodes } } ∧
      ∃ pool, (∀ x, x ∈ pool.used ↔ x ∈ s.draft.names.used) ∧ s'.draft = { s.draft with
        names := pool, level := { s.draft.level with nodes := d.level.nodes ++ [n] } } := by
  obtain ⟨-, pool, hpool, hs'⟩ := draft_addNode h hname hb.used
  rw [hs', hb.nodes]
  refine ⟨rfl, ?_, pool, hpool, rfl⟩
  have := hb.expands (.of_used hb.tidy hpool)
  rw [← hb.nodes]
  exact this

/-- The built-in handlers emit one node of the primitive's operation. -/
theorem builtin_handler?_cases {primitive : String} {h : Handler}
    (hh : Registry.builtin.handler? primitive = some h) :
    ∃ op, operation? primitive = some op ∧ (h = .binary op ∨ h = .pow ∧ op = "Pow") := by
  simp only [Registry.handler?, Registry.builtin, List.find?_cons, Registry.powMeta,
    Registry.addMeta, Registry.mulMeta, List.find?_nil] at hh
  split at hh
  · next hp =>
    obtain rfl : "pow" = primitive := by simpa using hp
    exact ⟨"Pow", by simp [operation?], Or.inr ⟨(Option.some.inj hh).symm, rfl⟩⟩
  · split at hh
    · next hp =>
      obtain rfl : "add" = primitive := by simpa using hp
      exact ⟨"Add", by simp [operation?], Or.inl (Option.some.inj hh).symm⟩
    · split at hh
      · next hp =>
        obtain rfl : "mul" = primitive := by simpa using hp
        exact ⟨"Mul", by simp [operation?], Or.inl (Option.some.inj hh).symm⟩
      · simp at hh

/-- A built-in handler lowers an equation with two operands and one output. -/
theorem Handler.lower_builtin {h : Handler} {op : String} {c : HandlerCall}
    (hh : h = .binary op ∨ h = .pow ∧ op = "Pow") (hlower : h.lower c s = .ok u s') :
    ∃ a b v, c.inputs = [a, b] ∧ c.outputs = [v] ∧
      HandlerCall.emitBinary op a b v s = .ok u s' := by
  obtain ⟨symbols, site, primitive, inputs, outputs, params⟩ := c
  rcases hh with rfl | ⟨rfl, rfl⟩
  · simp only [Handler.lower] at hlower
    split at hlower
    · next a b v => exact ⟨a, b, v, rfl, rfl, hlower⟩
    · exact (Step.throw_eq_ok.1 hlower).elim
  · simp only [Handler.lower] at hlower
    split at hlower
    · next a b v => exact ⟨a, b, v, rfl, rfl, hlower⟩
    · exact (Step.throw_eq_ok.1 hlower).elim
    · exact (Step.throw_eq_ok.1 hlower).elim

theorem Atom.isSome_of_name? {table : InitializerTable} {names : Nat → Option String} {a : Atom}
    {x : String} (h : a.name? table names = some x) {v : Var} (ha : .var v = a) :
    (names v.id).isSome := by
  subst ha
  have : names v.id = some x := h
  simp [this]

/-- The steps of an equation of a built-in primitive that is lowered. -/
theorem lowerPrimitive_cases {env : Environment} (henv : env.handler? = Registry.builtin.handler?)
    {site : Site} {e : Equation} (h : lowerPrimitive env site e s = .ok u s') :
    ∃ op a b v s₁ x s₂ y s₃ z s₄ nodeName s₅, operation? e.primitive = some op ∧ e.inputs = [a, b] ∧
      e.outputs = [v] ∧
      s₁.draft = s.draft ∧ Lower.inputName a s₁ = .ok x s₂ ∧ Lower.inputName b s₂ = .ok y s₃ ∧
      Lower.outputName v s₃ = .ok z s₄ ∧ Lower.build (Build.uniqueName op) s₄ = .ok nodeName s₅ ∧
      Lower.build (Build.addNode (.plain op nodeName [x, y] [z])) s₅ = .ok u s' := by
  unfold lowerPrimitive at h
  rw [henv] at h
  cases hhandler : Registry.builtin.handler? e.primitive with
  | none => simp [hhandler, Step.throw_eq_ok] at h
  | some handler =>
    simp only [hhandler, Step.bind_eq_ok] at h
    obtain ⟨_, s₁, hsay, h⟩ := h
    obtain ⟨op, hop, hkind⟩ := builtin_handler?_cases hhandler
    obtain ⟨a, b, v, hinputs, houtputs, h⟩ := Handler.lower_builtin hkind h
    simp only [HandlerCall.emitBinary, Step.bind_eq_ok] at h
    obtain ⟨x, s₂, hx, y, s₃, hy, z, s₄, hz, nodeName, s₅, hnode, hadd⟩ := h
    exact ⟨op, a, b, v, s₁, x, s₂, y, s₃, z, s₄, nodeName, s₅, hop, hinputs, houtputs,
      Lower.draft_sayHere hsay, hx, hy, hz, hnode, hadd⟩

/-- An equation of a built-in primitive gets its node. -/
theorem places_lowerPrimitive {env : Environment} {site : Site} {e : Equation}
    (h : lowerPrimitive env site e s = .ok u s') (henv : env.handler? = Registry.builtin.handler?)
    (hcallee : e.callee? = none) (hs : s.draft.shared.Sound program settings symbols)
    (hnames : ∀ v ∈ e.outputs, s.draft.name? v.id = none)
    (hinfo : ∀ x, x ∉ s.draft.names.used → s.draft.level.info? x = none) :
    ∃ n, s.draft.Places program settings symbols e n [none] [none] s'.draft := by
  obtain ⟨op, a, b, v, s₁, x, s₂, y, s₃, z, s₄, nodeName, s₅, hop, hinputs, houtputs, hs₁, hx, hy,
    hz, hnode, h⟩ :=
    lowerPrimitive_cases henv h
  rw [← hs₁] at hs hnames hinfo ⊢
  obtain ⟨hgrows₁, hxname⟩ := Lower.draft_inputName hx hs.toTidy
  obtain ⟨hgrows₂, hyname⟩ := Lower.draft_inputName hy hgrows₁.tidy
  have hgrows := hgrows₁.trans hgrows₂
  have hv : s₃.draft.name? v.id = none := by
    rw [hgrows.name?_eq]
    exact hnames v (by simp [houtputs])
  obtain ⟨hbinds, hlevel, -⟩ := Lower.binds_outputName hz hgrows.tidy hv
  obtain ⟨pool, hissues, hs₅⟩ := Lower.draft_uniqueName hnode
  have hgrows₅ : s₄.draft.Grows s₅.draft := hs₅ ▸ Draft.Grows.of_issues hbinds.tidy hissues
  have hbinds₅ := (Draft.Binds.of_expands (.of_grows hgrows) hbinds).expands (.of_grows hgrows₅)
  have hnodeName : nodeName ∈ s₅.draft.names.used := by
    rw [hs₅]
    exact (hissues.used nodeName).2 (Or.inl rfl)
  obtain ⟨hnodes, hbinds', pool', hpool', hs'⟩ := Lower.binds_addNode h hbinds₅ hnodeName
  have hle₅ : s₅.draft.shared.Le s'.draft.shared :=
    hs' ▸ Shared.le_of_used fun w hw => (hpool' w).2 hw
  have hle₃ := (hbinds.le.trans hgrows₅.le).trans hle₅
  have hmono := hbinds'.names_mono (houtputs ▸ hnames)
  have hz' : s'.draft.name? v.id = some z := List.head_eq_of_cons_eq hbinds'.outs_eq
  have hlevel₅ : s₅.draft.level = s₁.draft.level := hgrows₅.level.trans (hlevel.trans hgrows.level)
  refine ⟨.plain op nodeName [x, y] [z], ?_⟩
  exact
    { nodes := hnodes
      binds := by rwa [houtputs]
      emits := by
        refine .primitive hcallee hop hinputs houtputs ?_ ?_ hz'
        · exact a.name?_mono (hgrows₂.le.trans hle₃)
            (fun id w hw => hmono id w (hgrows₁.name?_eq id ▸ hw)) x hxname
        · exact b.name?_mono hle₃ (fun id w hw => hmono id w (hgrows.name?_eq id ▸ hw)) y hyname
      reads := fun w hw => by
        have hw : .var w = a ∨ .var w = b := by simpa [hinputs] using hw
        rcases hw with hw | hw
        · exact hgrows₁.name?_eq w.id ▸ Atom.isSome_of_name? hxname hw
        · exact hgrows.name?_eq w.id ▸ Atom.isSome_of_name? hyname hw
      name_free := fun hu => hissues.free (hbinds.le.used (hgrows.le.used hu))
      name_used := by
        rw [hs']
        exact (hpool' nodeName).2 hnodeName
      sound := hs.grow hbinds'.le hbinds'.tidy (by rw [hs']; exact congrArg Level.functions hlevel₅)
      infos_eq := by
        have hinfo' : s'.draft.level.info? z = s₁.draft.level.info? z := by
          rw [hs', ← hlevel₅]
          rfl
        simp [Node.plain, hinfo', hinfo z (hbinds'.free z (by simp [Node.plain]))] }

/-! ## Records of outputs -/

theorem Lower.draft_recordVar {v : Var} {provenance : Provenance}
    (h : recordVar symbols v provenance s = .ok u s') {x : String}
    (hx : s.draft.name? v.id = some x) :
    (symbols.renderShape? v.type = none ∧ s'.draft = s.draft) ∨
      ∃ shape i records, symbols.renderShape? v.type = some shape ∧
        Info.offer? (s.draft.level.info? x) ⟨shape, v.type.dtype, provenance⟩ = some i ∧
        s'.draft = s.draft.withRecords records ∧
        s'.draft.level.info? = Function.update s.draft.level.info? x (some i) := by
  simp only [recordVar, Step.bind_eq_ok] at h
  obtain ⟨y, s₁, hy, h⟩ := h
  rcases draft_outputName hy with ⟨hname, rfl⟩ | ⟨hname, -⟩
  · obtain rfl : x = y := Option.some.inj (hx.symm.trans hname)
    cases hshape : symbols.renderShape? v.type with
    | none =>
      simp only [hshape] at h
      exact Or.inl ⟨rfl, draft_sayHere h⟩
    | some shape =>
      simp only [hshape] at h
      obtain ⟨i, records, hoffer, hs', hinfo⟩ := draft_registerRecord h
      exact Or.inr ⟨shape, i, records, rfl, hoffer, hs', hinfo⟩
  · simp [hx] at hname

/-- A recovered record takes the place of one that was taken over from a nested level, and must
agree with it : neither of them is pinned. -/
theorem Info.offer?_recovered {existing : Option Info} {shape : List ShapeDim} {dtype : DType}
    {i : Info} (h : offer? existing ⟨shape, dtype, .recovered⟩ = some i)
    (hsub : ∀ j, existing = some j → j.provenance = .subgraph) :
    i = ⟨shape, dtype, .recovered⟩ ∧ ∀ j, existing = some j → j.shape = shape ∧
      j.dtype = dtype := by
  cases existing with
  | none => exact ⟨(Option.some.inj h).symm, by simp⟩
  | some j =>
    have hj := hsub j rfl
    simp only [offer?] at h
    split at h
    · next hsame =>
      refine ⟨by simpa [hj, Provenance.confidence] using h.symm, fun k hk => ?_⟩
      obtain rfl := Option.some.inj hk
      exact hsame
    · simp [hj, Provenance.isPinned] at h

/-- Every output gets the record that its type gives, or keeps the one it has. A record that it has
agrees with its type. -/
theorem draft_recordOutputs {env : Environment} {primitive : String} {vs : List Var}
    (h : recordOutputs env primitive vs s = .ok u s') {outs : List String}
    (houts : vs.map (fun v => s.draft.name? v.id) = outs.map some) (hnodup : outs.Nodup)
    (hsub : ∀ x ∈ outs, ∀ i, s.draft.level.info? x = some i → i.provenance = .subgraph) :
    ∃ records, s'.draft = s.draft.withRecords records ∧
      (∀ x, x ∉ outs → s'.draft.level.info? x = s.draft.level.info? x) ∧
      List.Forall₂ (Var.Agrees env.symbols) vs (outs.map s.draft.level.info?) ∧
      outs.map s'.draft.level.info? = List.zipWith (Var.info env.symbols) vs
        (outs.map s.draft.level.info?) := by
  induction vs generalizing s outs with
  | nil =>
    obtain ⟨-, rfl⟩ := Step.pure_eq_ok.1 h
    obtain rfl : outs = [] := by simpa using houts.symm
    exact ⟨_, rfl, fun _ _ => rfl, .nil, rfl⟩
  | cons v rest ih =>
    cases outs with
    | nil => simp at houts
    | cons x outs =>
      simp only [List.map_cons, List.cons.injEq] at houts
      obtain ⟨hx, houts⟩ := houts
      rw [List.nodup_cons] at hnodup
      rw [recordOutputs, Step.get_bind_eq_ok, if_neg (by simp [Lowering.nameOf?_eq, hx]),
        Step.bind_eq_ok] at h
      obtain ⟨_, s₁, hrecord, hrest⟩ := h
      have hstep : ∃ records, s₁.draft = s.draft.withRecords records ∧
          Var.Agrees env.symbols v (s.draft.level.info? x) ∧
          s₁.draft.level.info? = Function.update s.draft.level.info? x
            (Var.info env.symbols v (s.draft.level.info? x)) := by
        rcases Lower.draft_recordVar hrecord hx with
          ⟨hshape, hs₁⟩ | ⟨shape, i, records, hshape, hoffer, hs₁, hinfo⟩
        · refine ⟨s.draft.level.records, hs₁, fun hrendered => by simp [hshape] at hrendered, ?_⟩
          rw [hs₁, Var.info, hshape, Function.update_eq_self]
        · obtain ⟨rfl, hagrees⟩ := Info.offer?_recovered hoffer (hsub x (by simp))
          refine ⟨records, hs₁, fun _ j hj => ?_, by rw [hinfo, Var.info, hshape]⟩
          exact ⟨hshape.trans (congrArg some (hagrees j hj).1.symm), (hagrees j hj).2⟩
      obtain ⟨records₁, hs₁, hagrees, hinfo₁⟩ := hstep
      have hold : ∀ y ∈ outs, s₁.draft.level.info? y = s.draft.level.info? y := fun y hy => by
        rw [hinfo₁, Function.update_of_ne (ne_of_mem_of_not_mem hy hnodup.1)]
      obtain ⟨records, hs', hother, hrest, hinfos⟩ := ih hrest (by simpa [hs₁] using houts) hnodup.2
        fun y hy i hi => hsub y (by simp [hy]) i (hold y hy ▸ hi)
      rw [List.map_congr_left hold] at hrest
      refine ⟨records, by rw [hs', hs₁]; rfl, fun y hy => ?_, .cons hagrees hrest, ?_⟩
      · rw [List.mem_cons, not_or] at hy
        rw [hother y hy.2, hinfo₁, Function.update_of_ne hy.1]
      · rw [List.map_cons, List.map_cons, List.zipWith_cons_cons, hinfos, List.map_congr_left hold,
          hother x hnodup.1, hinfo₁, Function.update_self]

end

/-! ## Parts of traces -/

/-- What a level has built so far translates a part of a trace, where `base` was shared at the
start. -/
structure Draft.Lowered (program : Program) (settings : Params) (symbols : SymbolTable)
    (base : Shared) (d : Draft) (t : Trace) (body tail : List Node) (decls : List Declaration) :
    Prop where
  le : base.Le d.shared
  translation :
    Translation program symbols (Implements program settings symbols d.shared) d.shared d.name?
      d.level.info? t d.level.inputs body tail decls
  nodes : d.level.nodes = body ++ tail
  outputs : d.level.outputs = decls.map Declaration.name
  sources : d.sources = decls.map fun decl => (decl.source, decl.type)
  bound : ∀ id, (d.name? id).isSome → id ∈ t.given ++ madeBy t.equations
  nodes_used : ∀ n ∈ d.level.nodes, n.name ∈ d.names.used
  sound : d.shared.Sound program settings symbols

section

variable {program : Program} {settings : Params} {symbols : SymbolTable} {base : Shared}
  {d d' : Draft} {t : Trace} {body tail : List Node} {decls : List Declaration} {s s' : Lowering}
  {u : Unit}

namespace Draft.Lowered

theorem info?_eq_none (h : d.Lowered program settings symbols base t body tail decls) (x : String)
    (hx : x ∉ d.names.used) : d.level.info? x = none := by
  by_contra hne
  refine hx (h.translation.own_used x ?_)
  rw [List.flatMap_append, ← List.append_assoc]
  exact List.mem_append_left _ (h.translation.info_own x hne)

theorem name?_eq_none (h : d.Lowered program settings symbols base t body tail decls) {id : Nat}
    (hid : id ∉ t.given ++ madeBy t.equations) : d.name? id = none := by
  by_contra hne
  exact hid (h.bound id (Option.isSome_iff_ne_none.2 hne))

/-- What is lowered so far can be taken as the start. -/
theorem rebase (h : d.Lowered program settings symbols base t body tail decls) :
    d.Lowered program settings symbols d.shared t body tail decls :=
  { h with le := .refl _ }

end Draft.Lowered

/-- A draft grows, and nothing changes for names that were taken. -/
abbrev Draft.Grown (program : Program) (settings : Params) (symbols : SymbolTable) (d d' : Draft) :
    Prop :=
  TensorGraph.Grown (Implements program settings symbols d.shared)
    (Implements program settings symbols d'.shared) d.shared d'.shared d.name? d'.name?
    d.level.info? d'.level.info?

/-- The functions that implement a callee still do when what the levels share grows. -/
theorem Draft.grown_of_le (hle : d.shared.Le d'.shared) (hd : d.shared.Tidy)
    (hnames : ∀ id x, d.name? id = some x → d'.name? id = some x)
    (hinfo : ∀ x ∈ d.names.used, d'.level.info? x = d.level.info? x) :
    d.Grown program settings symbols d' where
  le := hle
  table_used := hd.table_used
  targets _ _ _ hg := hg.mono hle hd.table_used
  names := hnames
  info := hinfo

/-- Binding new names leaves what was there. -/
theorem Draft.Binds.grown {vs : List Var} {outs : List String} (h : d.Binds vs outs d')
    (hvs : ∀ v ∈ vs, d.name? v.id = none) (hd : d.shared.Tidy) :
    d.Grown program settings symbols d' :=
  Draft.grown_of_le h.le hd (h.names_mono hvs) fun x hx => h.info x fun hout => h.free x hout hx

/-- An input is declared under a new name. -/
theorem lowered_addInput {vs : List Var} {v : Var} {x : String} {shape : List ShapeDim}
    {s₁ s₂ : Lowering} (hx : Lower.outputName v s = .ok x s₁)
    (hshape : symbols.renderShape? v.type = some shape)
    (hinput : Lower.build (Build.addInput x shape v.type.dtype) s₁ = .ok u s₂)
    (hs : s.draft.Lowered program settings symbols base ⟨vs, [], [], []⟩ [] [] [])
    (hv : s.draft.name? v.id = none) :
    s₂.draft.Lowered program settings symbols base ⟨vs ++ [v], [], [], []⟩ [] [] [] := by
  obtain ⟨hbinds, hlevel, -⟩ := Lower.binds_outputName hx hs.sound.toTidy hv
  obtain ⟨i, records, hoffer, hs₂, hinfo⟩ := Lower.draft_addInput hinput
  have hxfree : x ∉ s.draft.names.used := hbinds.free x (by simp)
  have hxused : x ∈ s₁.draft.names.used := hbinds.used x (by simp)
  have hpool : ∀ y, y ∈ (s₁.draft.names.reserve x).used ↔ y ∈ s₁.draft.names.used := by
    intro y
    rw [NamePool.mem_used_reserve]
    exact ⟨fun hy => hy.elim (fun hyx => hyx ▸ hxused) id, Or.inr⟩
  have hi : i = ⟨shape, v.type.dtype, .declared⟩ := by
    rw [hlevel, hs.info?_eq_none x hxfree] at hoffer
    exact (Option.some.inj hoffer).symm
  have hinfo₂ : s₂.draft.level.info? = Function.update s.draft.level.info? x
      (some ⟨shape, v.type.dtype, .declared⟩) := by rw [hinfo, hi, hlevel]
  have hother : ∀ y, y ≠ x → s₂.draft.level.info? y = s.draft.level.info? y := fun y hy => by
    rw [hinfo₂, Function.update_of_ne hy]
  have hbinds₂ : s.draft.Binds [v] [x]
      (Draft.withRecords { s₁.draft with names := s₁.draft.names.reserve x } records) := by
    refine (hbinds.expands (.of_used hbinds.tidy hpool)).withRecords fun y hy => ?_
    have := hother y (by simpa using hy)
    rw [hs₂] at this
    rw [hlevel]
    exact this
  have hgrown : s.draft.Grown program settings symbols s₂.draft :=
    hs₂ ▸ hbinds₂.grown (by simpa using hv) hs.sound.toTidy
  have hname : s₂.draft.name? v.id = some x := hs₂ ▸ List.head_eq_of_cons_eq hbinds.outs_eq
  exact
    { le := hs.le.trans hgrown.le
      translation := by
        have := hs.translation.addInput hgrown hshape hname (by simp [hinfo₂]) hother hxfree
          (hs₂ ▸ hbinds₂.used x (by simp)) (hs₂ ▸ hbinds₂.new x (by simp))
        have hinputs : s₂.draft.level.inputs = s.draft.level.inputs ++ [x] := by rw [hs₂, hlevel]
        rwa [hinputs]
      nodes := by rw [hs₂]; exact hbinds₂.nodes.trans hs.nodes
      outputs := by rw [hs₂]; exact hbinds₂.outputs.trans hs.outputs
      sources := by rw [hs₂]; exact hbinds₂.sources.trans hs.sources
      bound := fun id hid => by
        by_cases hidv : id = v.id
        · simp [Trace.given, hidv]
        · have hid : (s.draft.name? id).isSome := by
            rw [hs₂] at hid
            rwa [← hbinds₂.names id (by simpa using hidv)]
          have hid : id ∈ vs.map Var.id := by simpa [Trace.given, madeBy] using hs.bound id hid
          simpa [Trace.given, madeBy] using Or.inl (List.mem_map.1 hid)
      nodes_used := by
        have hnone : s₂.draft.level.nodes = [] := by rw [hs₂]; exact hbinds₂.nodes.trans hs.nodes
        simp [hnone]
      sound :=
        hs.sound.grow hgrown.le (hs₂ ▸ hbinds₂.tidy)
          (by rw [hs₂]; exact congrArg Level.functions hlevel) }

theorem Draft.Lowered.name?_eq_none_of_input {vs rest : List Var} {v : Var}
    (h : d.Lowered program settings symbols base ⟨vs, [], [], []⟩ [] [] [])
    (hids : ((vs ++ v :: rest).map Var.id).Nodup) : d.name? v.id = none := by
  refine h.name?_eq_none ?_
  rw [List.map_append, List.nodup_append] at hids
  simpa [Trace.given, madeBy] using fun w hw hwv =>
    hids.2.2 _ (List.mem_map_of_mem hw) v.id (by simp) hwv

/-- Inputs are declared one after the other. -/
theorem lowered_lowerInputs {env : Environment} (hsymbols : env.symbols = symbols) {site : Site}
    {vs before : List Var} (h : lowerInputs env site vs s = .ok u s')
    (hs : s.draft.Lowered program settings symbols base ⟨before, [], [], []⟩ [] [] [])
    (hids : ((before ++ vs).map Var.id).Nodup) :
    s'.draft.Lowered program settings symbols base ⟨before ++ vs, [], [], []⟩ [] [] [] := by
  induction vs generalizing s before with
  | nil =>
    obtain ⟨-, rfl⟩ := Step.pure_eq_ok.1 h
    simpa using hs
  | cons v rest ih =>
    simp only [lowerInputs, Step.bind_eq_ok] at h
    obtain ⟨x, s₁, hx, h⟩ := h
    cases hshape : env.symbols.renderShape? v.type with
    | none =>
      simp only [hshape] at h
      obtain ⟨_, _, h, -⟩ := Step.bind_eq_ok.1 h
      exact (Step.throw_eq_ok.1 h).elim
    | some shape =>
      simp only [hshape, Step.bind_eq_ok] at h
      obtain ⟨_, s₂, hinput, hrest⟩ := h
      have hstep :=
        lowered_addInput hx (hsymbols ▸ hshape) hinput hs (hs.name?_eq_none_of_input hids)
      simpa using ih hrest hstep (by simpa using hids)

/-- A constant is bound to the name that holds its tensor. -/
theorem lowered_addConstant {vs : List Var} {cs : List (Var × Tensor)} {v : Var} {value : Tensor}
    {x : String} (hx : Lower.build (Build.addConstant "const" value) s = .ok x s')
    (hs : s.draft.Lowered program settings symbols base ⟨vs, cs, [], []⟩ [] [] [])
    (hv : s.draft.name? v.id = none) :
    (s'.bindVar v x).draft.Lowered program settings symbols base
      ⟨vs, cs ++ [(v, value)], [], []⟩ [] [] [] := by
  obtain ⟨hgrows, hfind⟩ := Lower.draft_addConstant hx hs.sound.toTidy
  have hname : ∀ id, (s'.draft.bind v.id x).name? id = if id = v.id then some x
      else s.draft.name? id := fun id => by
    rw [Draft.name?_bind, hgrows.name?_eq]
  have hgrown : s.draft.Grown program settings symbols (s'.draft.bind v.id x) := by
    refine Draft.grown_of_le hgrows.le hs.sound.toTidy (fun id y hy => ?_)
      fun y _ => congrFun (congrArg Level.info? hgrows.level) y
    rw [hname, if_neg ?_, hy]
    rintro rfl
    simp [hv] at hy
  rw [Lowering.draft_bindVar]
  have hlevel : (s'.draft.bind v.id x).level = s.draft.level := hgrows.level
  exact
    { le := hs.le.trans hgrows.le
      translation := by
        unfold Draft.Grown at hgrown
        rw [hlevel] at hgrown ⊢
        exact hs.translation.addConstant hgrown hfind (by simp [hname])
      nodes := hlevel ▸ hs.nodes
      outputs := hlevel ▸ hs.outputs
      sources := hgrows.sources.trans hs.sources
      bound := fun id hid => by
        rw [hname] at hid
        split at hid
        · next hidv => simp [Trace.given, hidv]
        · rcases List.mem_append.1 (hs.bound id hid) with hid | hid
          · refine List.mem_append_left _ ?_
            rw [Trace.given, List.map_append, ← List.append_assoc]
            exact List.mem_append_left _ hid
          · simp [madeBy] at hid
      nodes_used := by
        rw [hlevel, hs.nodes]
        simp
      sound := hs.sound.grow hgrows.le hgrows.tidy (congrArg Level.functions hlevel) }

theorem Draft.Lowered.name?_eq_none_of_constant {vs : List Var} {cs rest : List (Var × Tensor)}
    {c : Var × Tensor} (h : d.Lowered program settings symbols base ⟨vs, cs, [], []⟩ [] [] [])
    (hids : (vs.map Var.id ++ (cs ++ c :: rest).map fun c => c.1.id).Nodup) :
    d.name? c.1.id = none := by
  refine h.name?_eq_none ?_
  rw [List.map_append, ← List.append_assoc, List.nodup_append] at hids
  simpa [Trace.given, madeBy] using fun hmem => hids.2.2 c.1.id hmem c.1.id (by simp) rfl

/-- Constants are bound one after the other. -/
theorem lowered_lowerConstants {vs : List Var} {cs before : List (Var × Tensor)}
    (h : lowerConstants cs s = .ok u s')
    (hs : s.draft.Lowered program settings symbols base ⟨vs, before, [], []⟩ [] [] [])
    (hids : (vs.map Var.id ++ (before ++ cs).map fun c => c.1.id).Nodup) :
    s'.draft.Lowered program settings symbols base ⟨vs, before ++ cs, [], []⟩ [] [] [] := by
  induction cs generalizing s before with
  | nil =>
    obtain ⟨-, rfl⟩ := Step.pure_eq_ok.1 h
    simpa using hs
  | cons c rest ih =>
    simp only [lowerConstants, Step.bind_eq_ok, Step.modify_eq_ok] at h
    obtain ⟨x, s₁, hx, _, s₂, rfl, hrest⟩ := h
    have hstep := lowered_addConstant hx hs (hs.name?_eq_none_of_constant hids)
    simpa using ih hrest hstep (by simpa using hids)

/-! ## Equations -/

/-- A lowering of calls appends a node that calls a function which implements the callee. -/
def CallLowering.Implements (program : Program) (settings : Params) (symbols : SymbolTable)
    (index : Nat) (lowerCall : CallLowering) : Prop :=
  ∀ ⦃site : Site⦄ ⦃e : Equation⦄ ⦃s s' : Lowering⦄ ⦃u : Unit⦄, lowerCall site e s = .ok u s' →
    e.callee? = some index →
    s.draft.shared.Sound program settings symbols → (∀ v ∈ e.outputs, s.draft.name? v.id = none) →
    (e.outputs.map Var.id).Nodup → (∀ x, x ∉ s.draft.names.used → s.draft.level.info? x = none) →
    ∃ n placed, s.draft.Places program settings symbols e n placed placed s'.draft

/-- All lowerings of calls do so. -/
def CallsImplement (program : Program) (settings : Params) (symbols : SymbolTable)
    (calls : List CallLowering) : Prop :=
  ∀ (index : Nat) (lowerCall : CallLowering), calls[index]? = some lowerCall →
    CallLowering.Implements program settings symbols index lowerCall

theorem Emits.provenance_placed {targets : Targets} {table : InitializerTable}
    {names : Nat → Option String} {e : Equation} {n : Node} {placed : List (Option Info)}
    (h : Emits program targets table names e n placed) {i : Info} (hi : some i ∈ placed) :
    i.provenance = .subgraph := by
  cases h with
  | primitive callee operation inputs outputs lhs rhs out => simp at hi
  | call calls known inputs outputs target count =>
    obtain ⟨j, -, hj⟩ := List.mem_map.1 hi
    obtain ⟨j, rfl, rfl⟩ := Option.map_eq_some_iff.1 hj
    rfl

/-- The steps of an equation that is lowered. -/
theorem lowerEquation_cases {env : Environment} {calls : List CallLowering} {site : Site}
    {e : Equation} (h : lowerEquation env calls site e s = .ok u s') :
    (∃ s₁, e.callee? = none ∧ lowerPrimitive env site e s = .ok () s₁ ∧
      recordOutputs env e.primitive e.outputs s₁ = .ok u s') ∨
    ∃ s₁ index call, e.callee? = some index ∧ calls[index]? = some call ∧
      call site e s = .ok () s₁ ∧
      recordOutputs env e.primitive e.outputs s₁ = .ok u s' := by
  unfold lowerEquation at h
  cases hcallee : e.callee? with
  | none =>
    simp only [hcallee, Step.bind_eq_ok] at h
    obtain ⟨_, s₁, hprimitive, hrecord⟩ := h
    exact Or.inl ⟨s₁, rfl, hprimitive, hrecord⟩
  | some index =>
    cases hcall : calls[index]? with
    | none =>
      simp only [hcallee, hcall, Step.bind_eq_ok] at h
      obtain ⟨_, _, hthrow, -⟩ := h
      exact (Step.throw_eq_ok.1 hthrow).elim
    | some call =>
      simp only [hcallee, hcall, Step.bind_eq_ok] at h
      obtain ⟨_, s₁, hlower, hrecord⟩ := h
      exact Or.inr ⟨s₁, index, call, rfl, hcall, hlower, hrecord⟩

/-- The outputs of a node that was appended get their records, which agree with those that it came
with. -/
theorem Draft.Places.recorded {env : Environment} (hsymbols : env.symbols = symbols) {e : Equation}
    {n : Node} {placed : List (Option Info)}
    (hn : d.Places program settings symbols e n placed placed s.draft)
    (h : recordOutputs env e.primitive e.outputs s = .ok u s') :
    (∃ records, s'.draft = s.draft.withRecords records) ∧
      d.Places program settings symbols e n placed
        (List.zipWith (Var.info symbols) e.outputs placed) s'.draft ∧
      List.Forall₂ (Var.Agrees symbols) e.outputs placed := by
  obtain ⟨records, hs', hother, hagrees, hinfos⟩ :=
    draft_recordOutputs h hn.binds.outs_eq hn.binds.nodup fun x hx i hi =>
      hn.emits.provenance_placed (by rw [← hn.infos_eq, ← hi]; exact List.mem_map_of_mem hx)
  rw [hn.infos_eq, hsymbols] at hinfos hagrees
  refine ⟨⟨records, hs'⟩, ?_, hagrees⟩
  rw [hs'] at hinfos hother ⊢
  exact
    { hn with
      binds := hn.binds.withRecords hother
      infos_eq := hinfos }

/-- The node of an equation is appended, and its outputs get their records. -/
theorem places_lowerEquation {env : Environment} (henv : env.handler? = Registry.builtin.handler?)
    (hsymbols : env.symbols = symbols) {calls : List CallLowering}
    (hcalls : CallsImplement program settings symbols calls) {site : Site} {e : Equation}
    (h : lowerEquation env calls site e s = .ok u s')
    (hs : s.draft.shared.Sound program settings symbols)
    (hnames : ∀ v ∈ e.outputs, s.draft.name? v.id = none) (hids : (e.outputs.map Var.id).Nodup)
    (hinfo : ∀ x, x ∉ s.draft.names.used → s.draft.level.info? x = none) :
    ∃ n placed, s.draft.Places program settings symbols e n placed
      (List.zipWith (Var.info symbols) e.outputs placed) s'.draft ∧
      List.Forall₂ (Var.Agrees symbols) e.outputs placed := by
  rcases lowerEquation_cases h with ⟨s₁, hcallee, hprimitive, hrecord⟩ |
    ⟨s₁, index, call, hcallee, hcall, hlower, hrecord⟩
  · obtain ⟨n, hn⟩ := places_lowerPrimitive hprimitive henv hcallee hs hnames hinfo
    exact ⟨n, _, (hn.recorded hsymbols hrecord).2⟩
  · obtain ⟨n, placed, hn⟩ := hcalls index call hcall hlower hcallee hs hnames hids hinfo
    exact ⟨n, placed, (hn.recorded hsymbols hrecord).2⟩

theorem Draft.Lowered.addEquation {vs : List Var} {cs : List (Var × Tensor)} {es : List Equation}
    {e : Equation} {n : Node} {placed : List (Option Info)}
    (h : d.Lowered program settings symbols base ⟨vs, cs, es, []⟩ body [] [])
    (hn : d.Places program settings symbols e n placed
      (List.zipWith (Var.info symbols) e.outputs placed) d')
    (hagrees : List.Forall₂ (Var.Agrees symbols) e.outputs placed)
    (hnames : ∀ v ∈ e.outputs, d.name? v.id = none) :
    d'.Lowered program settings symbols base ⟨vs, cs, es ++ [e], []⟩ (body ++ [n]) [] [] := by
  have hgrown : d.Grown program settings symbols d' := hn.binds.grown hnames h.sound.toTidy
  have hinputs : d'.level.inputs = d.level.inputs := hn.binds.inputs
  have hreads : ∀ a ∈ e.inputs, a.IsKnown (Trace.given ⟨vs, cs, es, []⟩ ++ madeBy es) := by
    intro a ha
    cases a with
    | literal t => trivial
    | var v => exact h.bound v.id (hn.reads v ha)
  have hname : ∀ m ∈ body, m.name ≠ n.name := fun m hm hmn =>
    hn.name_free (hmn ▸ h.nodes_used m (by simp [h.nodes, hm]))
  exact
    { le := h.le.trans hgrown.le
      translation := by
        rw [hinputs]
        exact h.translation.addEquation hgrown hreads ⟨placed, hn.emits, hagrees, hn.infos_eq⟩
          hn.binds.info hn.binds.nodup hn.binds.free hn.binds.used hn.binds.new hname
      nodes := by rw [hn.nodes, h.nodes, List.append_nil, List.append_nil]
      outputs := hn.binds.outputs.trans h.outputs
      sources := hn.binds.sources.trans h.sources
      bound := fun id hid => by
        by_cases hout : id ∈ e.outputs.map Var.id
        · simp [madeBy, hout]
        · have hid : (d.name? id).isSome := hn.binds.names id hout ▸ hid
          rcases List.mem_append.1 (h.bound id hid) with hid | hid
          · exact List.mem_append_left _ hid
          · exact List.mem_append_right _
              (by simpa [madeBy] using Or.inl (by simpa [madeBy] using hid))
      nodes_used := fun m hm => by
        rw [hn.nodes] at hm
        rcases List.mem_append.1 hm with hm | hm
        · exact hgrown.le.used (h.nodes_used m hm)
        · obtain rfl : m = n := by simpa using hm
          exact hn.name_used
      sound := hn.sound }

theorem nodup_outputs_of_nodup_madeBy {ids : List Nat} {es rest : List Equation} {e : Equation}
    (h : (ids ++ madeBy (es ++ e :: rest)).Nodup) : (e.outputs.map Var.id).Nodup := by
  have hmade : madeBy (es ++ e :: rest) = madeBy es ++ (e.outputs.map Var.id ++ madeBy rest) := by
    simp [madeBy]
  rw [hmade, List.nodup_append] at h
  exact (List.nodup_append.1 (List.nodup_append.1 h.2.1).2.1).1

theorem Draft.Lowered.name?_eq_none_of_equation {vs : List Var} {cs : List (Var × Tensor)}
    {es rest : List Equation} {e : Equation}
    (h : d.Lowered program settings symbols base ⟨vs, cs, es, []⟩ body [] [])
    (hids : (Trace.given ⟨vs, cs, es ++ e :: rest, []⟩ ++ madeBy (es ++ e :: rest)).Nodup) :
    ∀ v ∈ e.outputs, d.name? v.id = none := by
  intro v hv
  have hmade : madeBy (es ++ e :: rest) = madeBy es ++ (e.outputs.map Var.id ++ madeBy rest) := by
    simp [madeBy]
  rw [hmade, ← List.append_assoc, List.nodup_append] at hids
  exact h.name?_eq_none fun hid =>
    hids.2.2 v.id hid v.id (List.mem_append_left _ (List.mem_map_of_mem hv)) rfl

/-- Equations get their nodes one after the other. -/
theorem lowered_lowerEquations {env : Environment} (henv : env.handler? = Registry.builtin.handler?)
    (hsymbols : env.symbols = symbols) {calls : List CallLowering}
    (hcalls : CallsImplement program settings symbols calls) {site : Site} {index : Nat}
    {vs : List Var} {cs : List (Var × Tensor)} {es before : List Equation}
    (h : lowerEquations env calls site index es s = .ok u s')
    (hs : s.draft.Lowered program settings symbols base ⟨vs, cs, before, []⟩ body [] [])
    (hids : (Trace.given ⟨vs, cs, before ++ es, []⟩ ++ madeBy (before ++ es)).Nodup) :
    ∃ new, s'.draft.Lowered program settings symbols base ⟨vs, cs, before ++ es, []⟩ (body ++ new)
      [] [] := by
  induction es generalizing s before body index with
  | nil =>
    obtain ⟨-, rfl⟩ := Step.pure_eq_ok.1 h
    exact ⟨[], by simpa using hs⟩
  | cons e rest ih =>
    simp only [lowerEquations, Step.bind_eq_ok, Lower.locate_eq_ok] at h
    obtain ⟨_, s₁, hequation, hrest⟩ := h
    have hnames := hs.name?_eq_none_of_equation hids
    obtain ⟨n, placed, hn, hagrees⟩ :=
      places_lowerEquation henv hsymbols hcalls hequation hs.sound hnames
        (nodup_outputs_of_nodup_madeBy hids) hs.info?_eq_none
    obtain ⟨new, hs'⟩ := ih hrest (hs.addEquation hn hagrees hnames) (by simpa using hids)
    exact ⟨n :: new, by simpa using hs'⟩

/-! ## Outputs -/

theorem Builder.isAliased_iff {b : Builder} {x : String} : b.isAliased x = true ↔
    x ∈ b.level.inputs ∨ x ∈ b.initializers.names ∨ x ∈ b.level.outputs := by
  simp [isAliased, Level.isInput, isInitializer, InitializerTable.contains_iff, or_assoc]

/-- An output is declared, behind the nodes `new`. -/
theorem Draft.Lowered.addOutput (h : d.Lowered program settings symbols base t body tail decls)
    {a : Atom} {new : List Node} {decl : Declaration} (hle : d.shared.Le d'.shared)
    (htidy : d'.shared.Tidy)
    (hlevel : d'.level = { d.level with nodes := d.level.nodes ++ new,
                                        outputs := d.level.outputs ++ [decl.name] })
    (hbindings : d'.bindings = d.bindings)
    (hsources : d'.sources = d.sources ++ [(decl.source, decl.type)])
    (ha : a.IsKnown (t.given ++ madeBy t.equations))
    (hdeclares : Declares d'.initializers d'.name? d.level.inputs [] (t.outputs ++ [a])
      (tail ++ new) (decls ++ [decl])) (hnodup : (new.flatMap Node.outputs).Nodup)
    (hfree : ∀ x ∈ new.flatMap Node.outputs, x ∉ d.names.used)
    (hused : ∀ x ∈ new.flatMap Node.outputs, x ∈ d'.names.used)
    (hnew : ∀ x ∈ new.flatMap Node.outputs, x ∉ d'.initializers.names)
    (hnames : (new.map Node.name).Nodup) (hnames_free : ∀ n ∈ new, n.name ∉ d.names.used)
    (hnames_used : ∀ n ∈ new, n.name ∈ d'.names.used) :
    d'.Lowered program settings symbols base { t with outputs := t.outputs ++ [a] } body
      (tail ++ new) (decls ++ [decl]) := by
  have hname? : d'.name? = d.name? := by
    funext id
    rw [Draft.name?, Draft.name?, hbindings]
  have hinfo : d'.level.info? = d.level.info? := by
    rw [hlevel]
    rfl
  have hgrown : d.Grown program settings symbols d' :=
    Draft.grown_of_le hle h.sound.toTidy (fun id x hx => by rw [hname?, hx]) fun x _ =>
      congrFun hinfo x
  have hnodes : ((body ++ tail ++ new).map Node.name).Nodup := by
    rw [List.map_append]
    refine List.nodup_append.2 ⟨h.translation.nodes_nodup, hnames, ?_⟩
    rintro x hx _ hxn rfl
    obtain ⟨m, hm, rfl⟩ := List.mem_map.1 hx
    obtain ⟨n, hn, hmn⟩ := List.mem_map.1 hxn
    exact hnames_free n hn (hmn ▸ h.nodes_used m (h.nodes ▸ hm))
  exact
    { le := h.le.trans hle
      translation := by
        unfold Draft.Grown at hgrown
        have hinputs : d'.level.inputs = d.level.inputs := by rw [hlevel]
        rw [hname?] at hdeclares
        rw [hname?, hinfo] at hgrown ⊢
        rw [hinputs]
        exact h.translation.addOutput hgrown ha hdeclares hnodup hfree hused hnew hnodes
      nodes := by rw [hlevel, ← List.append_assoc, ← h.nodes]
      outputs := by rw [hlevel, h.outputs, List.map_append, List.map_singleton]
      sources := by rw [hsources, h.sources, List.map_append, List.map_singleton]
      bound := fun id hid => h.bound id (hname? ▸ hid)
      nodes_used := fun n hn => by
        rw [hlevel] at hn
        rcases List.mem_append.1 hn with hn | hn
        · exact hle.used (h.nodes_used n hn)
        · exact hnames_used n hn
      sound := h.sound.grow hle htidy (by rw [Draft.shared, hlevel]; rfl) }

/-- An output is declared under the name that was found for it, or behind an identity node. -/
theorem declareOutput_cases {a : Atom} (h : declareOutput a s = .ok u s') :
    ∃ x s₁, Lower.inputName a s = .ok x s₁ ∧
      ((s₁.builder.isAliased x = false ∧ s'.draft = { s₁.draft with
          level := { s₁.draft.level with outputs := s₁.draft.level.outputs ++ [x] }
          sources := s₁.draft.sources ++ [(x, a.type)] }) ∨
        s₁.builder.isAliased x = true ∧ ∃ out s₂ node s₃ s₄,
          Lower.build (Build.uniqueName "out") s₁ = .ok out s₂ ∧
          Lower.build (Build.uniqueName "Identity") s₂ = .ok node s₃ ∧
          Lower.build (Build.addNode (.plain "Identity" node [x] [out])) s₃ = .ok () s₄ ∧
          s'.draft = { s₄.draft with
            level := { s₄.draft.level with outputs := s₄.draft.level.outputs ++ [out] }
            sources := s₄.draft.sources ++ [(x, a.type)] }) := by
  simp only [declareOutput, Step.bind_eq_ok] at h
  obtain ⟨x, s₁, hx, _, _, hget, h⟩ := h
  obtain ⟨rfl, rfl⟩ := Step.get_eq_ok.1 hget
  refine ⟨x, _, hx, ?_⟩
  split at h
  · next haliased =>
    simp only [Step.bind_eq_ok, Step.pure_eq_ok, Step.modify_eq_ok] at h
    obtain ⟨out, s₂, hout, node, s₃, hnode, _, s₄, hadd, _, _, ⟨rfl, rfl⟩, _, s₅, hdeclare,
      rfl⟩ := h
    have hs₅ := Lower.draft_addOutput hdeclare
    refine Or.inr ⟨haliased, _, s₂, node, s₃, _, hout, hnode, hadd, ?_⟩
    simp only [Lowering.draft] at hs₅ ⊢
    simp_all
  · next haliased =>
    simp only [Step.bind_eq_ok, Step.pure_eq_ok, Step.modify_eq_ok] at h
    obtain ⟨_, _, ⟨rfl, rfl⟩, _, s₅, hdeclare, rfl⟩ := h
    have hs₅ := Lower.draft_addOutput hdeclare
    refine Or.inl ⟨by simpa using haliased, ?_⟩
    simp only [Lowering.draft] at hs₅ ⊢
    simp_all

/-- A declared output keeps its name, or it gets one behind an identity node. -/
theorem lowered_declareOutput {a : Atom} (h : declareOutput a s = .ok u s')
    (hs : s.draft.Lowered program settings symbols base t body tail decls) :
    ∃ tail' decls', s'.draft.Lowered program settings symbols base
      { t with outputs := t.outputs ++ [a] } body tail' decls' := by
  obtain ⟨x, s₁, hx, hcases⟩ := declareOutput_cases h
  obtain ⟨hgrows, hname⟩ := Lower.draft_inputName hx hs.sound.toTidy
  have hknown : a.IsKnown (t.given ++ madeBy t.equations) := by
    cases a with
    | literal value => trivial
    | var v => exact hs.bound v.id (hgrows.name?_eq v.id ▸ Atom.isSome_of_name? hname rfl)
  have hmono : ∀ id y, s.draft.name? id = some y → s₁.draft.name? id = some y := fun id y hy => by
    rw [hgrows.name?_eq, hy]
  have hdeclares := hs.translation.declares.mono hgrows.le hmono fun b hb y =>
    hs.translation.mem_used hs.sound.table_used hb
  have haliased_iff : s₁.builder.isAliased x = true ↔
      x ∈ s.draft.level.inputs ∨ x ∈ s₁.draft.initializers.names ∨
      x ∈ [] ++ decls.map Declaration.name := by
    rw [Builder.isAliased_iff, List.nil_append, ← hs.outputs, ← hgrows.level]
    rfl
  rcases hcases with ⟨haliased, hs'⟩ | ⟨haliased, out, s₂, node, s₃, s₄, hout, hnode, hadd, hs'⟩
  · have hnot := mt haliased_iff.2 (by simp [haliased])
    rw [not_or, not_or] at hnot
    refine ⟨tail ++ [], decls ++ [⟨x, x, a.type⟩], ?_⟩
    refine hs.addOutput (by rw [hs']; exact hgrows.le) (by rw [hs']; exact hgrows.tidy)
      (by rw [hs', hgrows.level]; simp) (by rw [hs']; exact hgrows.bindings)
      (by rw [hs', hgrows.sources]) hknown ?_ (by simp) (by simp) (by simp) (by simp) (by simp)
      (by simp) (by simp)
    rw [hs', List.append_nil]
    exact hdeclares.append_own hname hnot.1 hnot.2.1 hnot.2.2
  · obtain ⟨pool₂, hissues₂, hs₂⟩ := Lower.draft_uniqueName hout
    obtain ⟨pool₃, hissues₃, hs₃⟩ := Lower.draft_uniqueName hnode
    have hgrows₂ : s₁.draft.Grows s₂.draft := hs₂ ▸ Draft.Grows.of_issues hgrows.tidy hissues₂
    have hgrows₃ : s₂.draft.Grows s₃.draft := hs₃ ▸ Draft.Grows.of_issues hgrows₂.tidy hissues₃
    have hgrows' := hgrows.trans (hgrows₂.trans hgrows₃)
    have hout_used : out ∈ s₃.draft.names.used :=
      hgrows₃.le.used (hs₂ ▸ (hissues₂.used out).2 (Or.inl rfl))
    have hnode_used : node ∈ s₃.draft.names.used := hs₃ ▸ (hissues₃.used node).2 (Or.inl rfl)
    obtain ⟨-, pool₄, hpool₄, hs₄⟩ :=
      Lower.draft_addNode hadd hnode_used (by simpa [Node.plain] using hout_used)
    have hexpands := Draft.Expands.of_used hgrows'.tidy hpool₄
    refine ⟨tail ++ [.plain "Identity" node [x] [out]], decls ++ [⟨out, x, a.type⟩], ?_⟩
    refine hs.addOutput (by rw [hs', hs₄]; exact hgrows'.le.trans hexpands.le)
      (by rw [hs', hs₄]; exact hexpands.tidy) (by rw [hs', hs₄, hgrows'.level])
      (by rw [hs', hs₄]; exact hgrows'.bindings) (by rw [hs', hs₄, hgrows'.sources]) hknown ?_
      (by simp [Node.plain]) ?_ ?_ ?_ (by simp) ?_ ?_
    · rw [hs', hs₄, hs₃, hs₂]
      exact hdeclares.append_routed hname (haliased_iff.1 haliased) out node
    · have hfree : out ∉ s.draft.names.used := fun hu => hissues₂.free (hgrows.le.used hu)
      simpa [Node.plain] using hfree
    · simpa [Node.plain, hs', hs₄] using (hpool₄ out).2 hout_used
    · have hnew : out ∉ s₁.draft.initializers.names :=
        fun hx => hissues₂.free (hgrows.tidy.table_used hx)
      simpa [Node.plain, hs', hs₄, hs₃, hs₂] using hnew
    · have hfree : node ∉ s.draft.names.used :=
        fun hu => hissues₃.free (hgrows₂.le.used (hgrows.le.used hu))
      simpa [Node.plain] using hfree
    · simpa [Node.plain, hs', hs₄] using (hpool₄ node).2 hnode_used

/-- Outputs are declared one after the other. -/
theorem lowered_declareOutputs {atoms before : List Atom}
    (h : atoms.forM declareOutput s = .ok u s')
    (hs : s.draft.Lowered program settings symbols base
      { t with outputs := before } body tail decls) :
    ∃ tail' decls',
      s'.draft.Lowered program settings symbols base
        { t with outputs := before ++ atoms } body tail' decls' := by
  induction atoms generalizing s before tail decls with
  | nil =>
    obtain ⟨-, rfl⟩ := Step.pure_eq_ok.1 h
    exact ⟨tail, decls, by simpa using hs⟩
  | cons a rest ih =>
    simp only [List.forM, Step.bind_eq_ok] at h
    obtain ⟨_, s₁, hdeclare, hrest⟩ := h
    obtain ⟨tail', decls', hs₁⟩ := lowered_declareOutput hdeclare hs
    simpa using ih hrest hs₁

/-! ## Whole traces -/

/-- Before anything of a trace is lowered. -/
theorem Draft.lowered_empty (hle : base.Le d.shared) (hd : d.shared.Sound program settings symbols)
    (hinputs : d.level.inputs = []) (houtputs : d.level.outputs = []) (hnodes : d.level.nodes = [])
    (hrecords : d.level.records = []) (hbindings : d.bindings = []) (hsources : d.sources = []) :
    d.Lowered program settings symbols base ⟨[], [], [], []⟩ [] [] [] := by
  have hname : ∀ id, d.name? id = none := fun id => by simp [Draft.name?, hbindings]
  have hinfo : ∀ x, d.level.info? x = none := fun x => by
    simp [Level.info?, Level.record?, hrecords, findRecord?]
  exact
    { le := hle
      translation :=
        { inputs_eq := by simp [hinputs]
          inputs_info := by simp [hinputs]
          inputs_rendered := by simp
          constants := by simp
          reads := trivial
          emits := .nil
          results := by simp
          declares := .nil
          own_nodup := by simp [hinputs]
          own_used := by simp [hinputs]
          own_new := by simp [hinputs]
          nodes_nodup := by simp
          info_own := fun x hx => absurd (hinfo x) hx }
      nodes := hnodes
      outputs := houtputs
      sources := hsources
      bound := fun id hid => by simp [hname] at hid
      nodes_used := by simp [hnodes]
      sound := hd }

/-- Lowering a trace into an empty level translates it. -/
theorem lowered_lowerTrace {env : Environment} (henv : env.handler? = Registry.builtin.handler?)
    (hsymbols : env.symbols = symbols) {calls : List CallLowering}
    (hcalls : CallsImplement program settings symbols calls) {site : Site}
    (h : lowerTrace env calls site t s = .ok u s')
    (hs : s.draft.Lowered program settings symbols base ⟨[], [], [], []⟩ [] [] [])
    (hids : (t.given ++ madeBy t.equations).Nodup) :
    ∃ body tail decls, s'.draft.Lowered program settings symbols base t body tail decls := by
  simp only [lowerTrace, Step.bind_eq_ok, Lower.locate_eq_ok] at h
  obtain ⟨_, s₁, hinputs, _, s₂, hconstants, _, s₃, hequations, houtputs⟩ := h
  have hgiven := (List.nodup_append.1 hids).1
  have hs₁ := lowered_lowerInputs hsymbols hinputs hs (List.nodup_append.1 hgiven).1
  have hs₂ := lowered_lowerConstants hconstants hs₁ hgiven
  obtain ⟨body, hs₃⟩ := lowered_lowerEquations henv hsymbols hcalls hequations hs₂ hids
  obtain ⟨tail, decls, hs'⟩ := lowered_declareOutputs houtputs hs₃
  exact ⟨body, tail, decls, hs'⟩

/-! ## Records of declared outputs -/

theorem Info.offer?_self (i : Info) : offer? (some i) i = some i := by
  simp [offer?]

/-- What is found for an output agrees with `resolution?`. -/
theorem Level.resolution?_of_resolve {l : Level} {name source : String} {type : AbstractValue}
    {r : ValueRecord} (h : l.resolve symbols name source (some type) = .resolved r) :
    resolution? symbols l.info? ⟨name, source, type⟩ = some r.info ∧
      Info.offer? (l.info? name) r.info = some r.info := by
  unfold Level.resolve at h
  cases hname : l.record? name with
  | some old =>
    simp only [hname, Resolution.resolved.injEq] at h
    subst h
    simp [resolution?, Level.info?, hname, Info.offer?_self]
  | none =>
    simp only [hname, Option.bind_some] at h
    cases hshape : symbols.renderShape? type with
    | none =>
      cases hsource : l.record? source with
      | none => simp [hshape, hsource] at h
      | some old =>
        simp only [hshape, hsource, Option.map_none, Resolution.resolved.injEq] at h
        subst h
        simp [resolution?, Level.info?, hname, hsource, hshape, ValueRecord.info, Info.offer?]
    | some shape =>
      cases hsource : l.record? source with
      | none =>
        simp only [hshape, hsource, Option.map_some, Resolution.resolved.injEq] at h
        subst h
        simp [resolution?, Level.info?, hname, hsource, hshape, ValueRecord.info, Info.offer?]
      | some old =>
        simp only [hshape, hsource, Option.map_some] at h
        split at h
        · next htype =>
          have htype := ValueRecord.hasType_iff.1 htype
          simp only [Resolution.resolved.injEq] at h
          subst h
          simp [resolution?, Level.info?, hname, hsource, hshape, ValueRecord.info, Info.offer?,
            htype]
        · simp at h

theorem Lower.draft_resolve {name source : String} {value? : Option AbstractValue} {r : Resolution}
    (h : build (Build.resolve symbols name source value?) s = .ok r s') :
    s'.draft = s.draft ∧ r = s.draft.level.resolve symbols name source value? := by
  simp only [build_eq_ok, Build.resolve, Step.get_bind_eq_ok] at h
  obtain ⟨b, hb, rfl⟩ := h
  cases hborrowed : s.builder.level.borrowed? symbols name source value? with
  | none =>
    simp only [hborrowed, Step.pure_eq_ok] at hb
    obtain ⟨rfl, rfl⟩ := hb
    exact ⟨rfl, rfl⟩
  | some record =>
    simp only [hborrowed, Step.bind_eq_ok, Step.pure_eq_ok, Build.sayHere, Step.modify_eq_ok] at hb
    obtain ⟨_, _, rfl, rfl, rfl⟩ := hb
    exact ⟨rfl, rfl⟩

/-- Declared outputs get their records in order. -/
theorem resolves_resolveFrom {env : Environment} (hsymbols : env.symbols = symbols) {index : Nat}
    (h : resolveFrom env index (decls.map Declaration.name) s = .ok u s')
    (hsources : ∀ i, s.draft.sources[index + i]? = decls[i]?.map fun decl =>
      (decl.source, decl.type)) :
    ∃ records, s'.draft = s.draft.withRecords records ∧
      Resolves symbols s.draft.level.info? decls s'.draft.level.info? := by
  induction decls generalizing s index with
  | nil =>
    obtain ⟨-, rfl⟩ := Step.pure_eq_ok.1 h
    exact ⟨_, rfl, .nil⟩
  | cons decl rest ih =>
    have hsource : s.sources[index]? = some (decl.source, decl.type) := hsources 0
    rw [List.map_cons, resolveFrom, Step.get_bind_eq_ok, Step.bind_eq_ok] at h
    simp only [hsource, Option.map_some, Option.getD_some] at h
    obtain ⟨resolution, s₁, hresolve, h⟩ := h
    obtain ⟨hs₁, rfl⟩ := Lower.draft_resolve hresolve
    cases hfound : s.draft.level.resolve env.symbols decl.name decl.source (some decl.type) with
    | conflict detail =>
      simp only [hfound] at h
      obtain ⟨_, _, h, -⟩ := Step.bind_eq_ok.1 h
      exact (Step.throw_eq_ok.1 h).elim
    | unresolvable detail =>
      simp only [hfound] at h
      obtain ⟨_, _, h, -⟩ := Step.bind_eq_ok.1 h
      exact (Step.throw_eq_ok.1 h).elim
    | resolved r =>
      simp only [hfound, Step.bind_eq_ok] at h
      obtain ⟨_, s₂, hregister, hrest⟩ := h
      obtain ⟨i, records, hoffer, hs₂, hinfo⟩ := Lower.draft_registerRecord hregister
      obtain ⟨hresolution, hoffer'⟩ := Level.resolution?_of_resolve (hsymbols ▸ hfound)
      rw [hs₁] at hoffer hs₂ hinfo
      obtain rfl : i = r.info := Option.some.inj (hoffer.symm.trans hoffer')
      obtain ⟨records', hs', hresolves⟩ := ih hrest fun i => by
        rw [hs₂]
        simpa [Nat.add_assoc, Nat.add_comm 1] using hsources (i + 1)
      refine ⟨records', by rw [hs', hs₂]; rfl, .cons hresolution ?_⟩
      rwa [hinfo] at hresolves

/-- When the outputs of a lowered trace have their records, the level is finished. -/
theorem translates_resolveOutputs {env : Environment} (hsymbols : env.symbols = symbols)
    {site : Site} (h : resolveOutputs env site s = .ok u s')
    (hs : s.draft.Lowered program settings symbols base t body tail decls) :
    ∃ records, s'.draft = s.draft.withRecords records ∧
      s'.draft.level.Translates program symbols (Implements program settings symbols s.draft.shared)
      s.draft.shared s.draft.name? s.draft.level.info? t body tail decls := by
  simp only [resolveOutputs, Step.get_bind_eq_ok, Lower.locate_eq_ok] at h
  have houtputs : s.builder.level.outputs = decls.map Declaration.name := hs.outputs
  rw [houtputs] at h
  obtain ⟨records, hs', hresolves⟩ := resolves_resolveFrom hsymbols h fun i => by simp [hs.sources]
  refine ⟨records, hs', ?_⟩
  rw [hs'] at hresolves ⊢
  exact ⟨hs.translation, hs.nodes, hs.outputs, hresolves⟩

end

end TensorGraph
