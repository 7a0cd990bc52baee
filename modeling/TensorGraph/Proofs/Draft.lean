import TensorGraph.Proofs.Translation

/-!
# What the steps of lowering do

A step of lowering either fails or gives a result and a new state. The lemmas of the first section
open a successful sequence of steps into successful steps, and put one together from them.

The log and the counts of a state do not matter to the model. What matters is its `Draft`, and for
each operation of building and lowering a lemma says how a successful run changes the draft.
-/

namespace TensorGraph

/-! ## Successful steps -/

namespace Step

variable {ε σ α β : Type} {s s' : σ}

theorem bind_eq_ok {x : EStateM ε σ α} {f : α → EStateM ε σ β} {b : β} :
    (x >>= f) s = .ok b s' ↔ ∃ a r, x s = .ok a r ∧ f a r = .ok b s' := by
  simp only [bind, EStateM.bind]
  cases x s with
  | ok a r =>
    constructor
    · exact fun h => ⟨a, r, rfl, h⟩
    · rintro ⟨a, r, h, hf⟩
      cases h
      exact hf
  | error e r => simp

theorem pure_eq_ok {a b : α} : (pure a : EStateM ε σ α) s = .ok b s' ↔ b = a ∧ s' = s := by
  simp only [pure, EStateM.pure, EStateM.Result.ok.injEq]
  constructor <;> rintro ⟨rfl, rfl⟩ <;> exact ⟨rfl, rfl⟩

theorem get_eq_ok {a : σ} : (get : EStateM ε σ σ) s = .ok a s' ↔ a = s ∧ s' = s := by
  change EStateM.Result.ok s s = .ok a s' ↔ a = s ∧ s' = s
  rw [EStateM.Result.ok.injEq]
  constructor <;> rintro ⟨rfl, rfl⟩ <;> exact ⟨rfl, rfl⟩

theorem get_bind_eq_ok {f : σ → EStateM ε σ β} {b : β} :
    ((get : EStateM ε σ σ) >>= f) s = .ok b s' ↔
      f s s = .ok b s' := Iff.rfl

theorem set_eq_ok {r : σ} {u : PUnit} : (set r : EStateM ε σ PUnit) s = .ok u s' ↔ s' = r := by
  change EStateM.Result.ok u r = .ok u s' ↔ s' = r
  simp only [EStateM.Result.ok.injEq, true_and]
  exact eq_comm

theorem modify_eq_ok {f : σ → σ} {u : PUnit} :
    (modify f : EStateM ε σ PUnit) s = .ok u s' ↔ s' = f s := by
  change EStateM.Result.ok u (f s) = .ok u s' ↔ s' = f s
  simp only [EStateM.Result.ok.injEq, true_and]
  exact eq_comm

theorem throw_eq_ok {e : ε} {a : α} : (throw e : EStateM ε σ α) s = .ok a s' ↔ False := by
  change EStateM.Result.error e s = .ok a s' ↔ False
  simp

end Step

namespace Lower

variable {α : Type} {a : α} {s s' : Lowering}

theorem build_eq_ok {x : Build α} :
    build x s = .ok a s' ↔ ∃ b, x s.builder = .ok a b ∧ s' = { s with builder := b } := by
  unfold build
  cases x s.builder with
  | ok a b =>
    simp only [EStateM.Result.ok.injEq]
    constructor
    · rintro ⟨rfl, rfl⟩
      exact ⟨b, ⟨rfl, rfl⟩, rfl⟩
    · rintro ⟨b, ⟨rfl, rfl⟩, rfl⟩
      exact ⟨rfl, rfl⟩
  | error e b => simp

theorem locate_eq_ok {x : Lower α} {site : Site} : locate site x s = .ok a s' ↔ x s = .ok a s' := by
  unfold locate
  cases x s <;> simp

theorem issuedBy_eq_ok {x : Lower α} {issuer : String} :
    issuedBy issuer x s = .ok a s' ↔ x s = .ok a s' := by
  unfold issuedBy
  cases x s <;> simp

end Lower

theorem Build.ofExcept_eq_ok {α : Type} {x : Except Failure α} {a : α} {b b' : Builder} :
    Build.ofExcept x b = .ok a b' ↔ x = .ok a ∧ b' = b := by
  cases x with
  | ok c =>
    simp only [Build.ofExcept, Step.pure_eq_ok, Except.ok.injEq]
    constructor <;> rintro ⟨rfl, rfl⟩ <;> exact ⟨rfl, rfl⟩
  | error e => simp [Build.ofExcept, Step.throw_eq_ok]

/-! ## Drafts -/

/-- What a lowering has built so far, without its log and its counts. -/
structure Draft where
  names : NamePool
  initializers : InitializerTable
  level : Level
  bindings : List (Nat × String)
  sources : List (String × AbstractValue)

/-- What a lowering has built so far. -/
def Lowering.draft (s : Lowering) : Draft :=
  ⟨s.builder.names, s.builder.initializers, s.builder.level, s.bindings, s.sources⟩

namespace Draft

/-- The name that a variable is bound to. -/
def name? (d : Draft) (id : Nat) : Option String :=
  d.bindings.lookup id

/-- What the draft shares with other levels. -/
def shared (d : Draft) : Shared :=
  ⟨d.names.used, d.initializers, d.level.functions⟩

/-- Bind a variable to a name. -/
def bind (d : Draft) (id : Nat) (name : String) : Draft :=
  { d with bindings := (id, name) :: d.bindings.filter fun entry => entry.1 != id }

theorem name?_bind (d : Draft) (id other : Nat) (name : String) :
    (d.bind id name).name? other = if other = id then some name else d.name? other := by
  unfold name? bind
  by_cases h : other = id
  · simp [h]
  · have ho : (other == id) = false := by simpa using h
    simp [List.lookup_cons, ho, h, Keyed.lookup_filter_ne h]

/-- Change the records of the level. -/
def withRecords (d : Draft) (records : List ValueRecord) : Draft :=
  { d with level := { d.level with records } }

section

variable (d : Draft) (records : List ValueRecord)

@[simp] theorem names_withRecords : (d.withRecords records).names = d.names := rfl
@[simp] theorem initializers_withRecords :
    (d.withRecords records).initializers = d.initializers := rfl
@[simp] theorem sources_withRecords : (d.withRecords records).sources = d.sources := rfl
@[simp] theorem name?_withRecords : (d.withRecords records).name? = d.name? := rfl
@[simp] theorem shared_withRecords : (d.withRecords records).shared = d.shared := rfl
@[simp] theorem inputs_withRecords : (d.withRecords records).level.inputs = d.level.inputs := rfl
@[simp] theorem outputs_withRecords : (d.withRecords records).level.outputs = d.level.outputs := rfl
@[simp] theorem nodes_withRecords : (d.withRecords records).level.nodes = d.level.nodes := rfl

end

end Draft

section

variable {s s' : Lowering}

theorem Lowering.nameOf?_eq (s : Lowering) (v : Var) : s.nameOf? v = s.draft.name? v.id := rfl

theorem Lowering.draft_bindVar (s : Lowering) (v : Var) (name : String) :
    (s.bindVar v name).draft = s.draft.bind v.id name := rfl

namespace Lower

theorem say_eq_ok {level : LogLevel} {message : String} {u : Unit} :
    say level message s = .ok u s' ↔ s' = { s with builder := s.builder.say level message } := by
  simp only [say, Build.say, build_eq_ok, Step.modify_eq_ok, exists_eq_left]

theorem sayHere_eq_ok {level : LogLevel} {message : String} {u : Unit} :
    sayHere level message s = .ok u s' ↔
      s' = { s with builder := s.builder.sayHere level message } := by
  simp only [sayHere, Build.sayHere, build_eq_ok, Step.modify_eq_ok, exists_eq_left]

theorem draft_say {level : LogLevel} {message : String} {u : Unit}
    (h : say level message s = .ok u s') : s'.draft = s.draft := by
  obtain rfl := say_eq_ok.1 h
  rfl

theorem draft_sayHere {level : LogLevel} {message : String} {u : Unit}
    (h : sayHere level message s = .ok u s') : s'.draft = s.draft := by
  obtain rfl := sayHere_eq_ok.1 h
  rfl

theorem draft_uniqueName {base x : String} (h : build (Build.uniqueName base) s = .ok x s') :
    ∃ pool, s.draft.names.Issues x pool ∧ s'.draft = { s.draft with names := pool } := by
  rw [build_eq_ok] at h
  obtain ⟨b, hb, rfl⟩ := h
  simp only [Build.uniqueName, EStateM.Result.ok.injEq] at hb
  obtain ⟨rfl, rfl⟩ := hb
  exact ⟨_, NamePool.issues_fresh _ base, rfl⟩

theorem draft_instanceName {base x : String} (h : build (Build.instanceName base) s = .ok x s') :
    ∃ pool, s.draft.names.Issues x pool ∧ s'.draft = { s.draft with names := pool } := by
  rw [build_eq_ok] at h
  obtain ⟨b, hb, rfl⟩ := h
  simp only [Build.instanceName, EStateM.Result.ok.injEq] at hb
  obtain ⟨rfl, rfl⟩ := hb
  exact ⟨_, NamePool.issues_freshInstance _ base, rfl⟩

theorem draft_outputName {v : Var} {x : String} (h : outputName v s = .ok x s') :
    (s.draft.name? v.id = some x ∧ s' = s) ∨
      s.draft.name? v.id = none ∧ ∃ pool, s.draft.names.Issues x pool ∧
        s'.draft = { s.draft with names := pool }.bind v.id x := by
  simp only [outputName, Step.get_bind_eq_ok] at h
  rw [← Lowering.nameOf?_eq]
  cases hname : s.nameOf? v with
  | some name =>
    simp only [hname, Step.pure_eq_ok] at h
    obtain ⟨rfl, rfl⟩ := h
    exact Or.inl ⟨rfl, rfl⟩
  | none =>
    simp only [hname, Step.bind_eq_ok, Step.modify_eq_ok, Step.pure_eq_ok] at h
    obtain ⟨x, r, hx, _, _, rfl, rfl, rfl⟩ := h
    obtain ⟨pool, hpool, hr⟩ := draft_uniqueName hx
    refine Or.inr ⟨rfl, pool, hpool, ?_⟩
    rw [Lowering.draft_bindVar, hr]

end Lower

end

/-! ## Growing -/

/-- Names are taken and constants added, and nothing else changes. -/
structure Draft.Grows (d d' : Draft) : Prop where
  level : d'.level = d.level
  bindings : d'.bindings = d.bindings
  sources : d'.sources = d.sources
  le : d.shared.Le d'.shared
  tidy : d'.shared.Tidy

namespace Draft.Grows

variable {d d' d'' : Draft}

theorem refl (h : d.shared.Tidy) : d.Grows d :=
  ⟨rfl, rfl, rfl, .refl _, h⟩

theorem trans (h : d.Grows d') (h' : d'.Grows d'') : d.Grows d'' :=
  ⟨h'.level.trans h.level, h'.bindings.trans h.bindings, h'.sources.trans h.sources,
    h.le.trans h'.le, h'.tidy⟩

theorem name?_eq (h : d.Grows d') (id : Nat) : d'.name? id = d.name? id := by
  rw [name?, name?, h.bindings]

theorem of_issues (hd : d.shared.Tidy) {x : String} {pool : NamePool} (h : d.names.Issues x pool) :
    d.Grows { d with names := pool } :=
  ⟨rfl, rfl, rfl, Shared.le_of_used fun y hy => (h.used y).2 (Or.inr hy),
    hd.of_used fun y hy => (h.used y).2 (Or.inr hy)⟩

/-- A name that is not taken has no record after others were taken. -/
theorem info_unused (h : d.Grows d') (hinfo : ∀ x, x ∉ d.names.used → d.level.info? x = none)
    (x : String) (hx : x ∉ d'.names.used) : d'.level.info? x = none := by
  rw [h.level]
  exact hinfo x fun hu => hx (h.le.used hu)

end Draft.Grows

/-- Names are taken, constants and functions added, and nothing else changes. -/
structure Draft.Expands (d d' : Draft) : Prop where
  inputs : d'.level.inputs = d.level.inputs
  outputs : d'.level.outputs = d.level.outputs
  nodes : d'.level.nodes = d.level.nodes
  info : d'.level.info? = d.level.info?
  bindings : d'.bindings = d.bindings
  sources : d'.sources = d.sources
  le : d.shared.Le d'.shared
  tidy : d'.shared.Tidy

namespace Draft.Expands

variable {d d' : Draft}

theorem of_grows (h : d.Grows d') : d.Expands d' :=
  ⟨by rw [h.level], by rw [h.level], by rw [h.level], by rw [h.level], h.bindings, h.sources, h.le,
    h.tidy⟩

theorem name?_eq (h : d.Expands d') (id : Nat) : d'.name? id = d.name? id := by
  rw [name?, name?, h.bindings]

end Draft.Expands

/-- Variables are bound to new names, and nothing else changes but what all levels share and the
records of these names. -/
structure Draft.Binds (d : Draft) (vs : List Var) (outs : List String) (d' : Draft) : Prop where
  inputs : d'.level.inputs = d.level.inputs
  outputs : d'.level.outputs = d.level.outputs
  nodes : d'.level.nodes = d.level.nodes
  sources : d'.sources = d.sources
  le : d.shared.Le d'.shared
  tidy : d'.shared.Tidy
  names : ∀ id, id ∉ vs.map Var.id → d'.name? id = d.name? id
  outs_eq : vs.map (fun v => d'.name? v.id) = outs.map some
  nodup : outs.Nodup
  free : ∀ x ∈ outs, x ∉ d.names.used
  used : ∀ x ∈ outs, x ∈ d'.names.used
  new : ∀ x ∈ outs, x ∉ d'.initializers.names
  info : ∀ x, x ∉ outs → d'.level.info? x = d.level.info? x

namespace Draft.Binds

variable {d d' d'' : Draft} {vs : List Var} {outs : List String}

theorem of_expands (h : d.Expands d') (h' : d'.Binds vs outs d'') : d.Binds vs outs d'' where
  inputs := h'.inputs.trans h.inputs
  outputs := h'.outputs.trans h.outputs
  nodes := h'.nodes.trans h.nodes
  sources := h'.sources.trans h.sources
  le := h.le.trans h'.le
  tidy := h'.tidy
  names id hid := (h'.names id hid).trans (h.name?_eq id)
  outs_eq := h'.outs_eq
  nodup := h'.nodup
  free x hx hu := h'.free x hx (h.le.used hu)
  used := h'.used
  new := h'.new
  info x hx := (h'.info x hx).trans (congrFun h.info x)

theorem expands (h : d.Binds vs outs d') (h' : d'.Expands d'') : d.Binds vs outs d'' where
  inputs := h'.inputs.trans h.inputs
  outputs := h'.outputs.trans h.outputs
  nodes := h'.nodes.trans h.nodes
  sources := h'.sources.trans h.sources
  le := h.le.trans h'.le
  tidy := h'.tidy
  names id hid := (h'.name?_eq id).trans (h.names id hid)
  outs_eq := by simpa only [h'.name?_eq] using h.outs_eq
  nodup := h.nodup
  free := h.free
  used x hx := h'.le.used (h.used x hx)
  new x hx := h'.le.not_mem_names (h.used x hx) (h.new x hx)
  info x hx := (congrFun h'.info x).trans (h.info x hx)

/-- Variables that are bound one after the other. -/
theorem cons {v : Var} {x : String} (h : d.Binds [v] [x] d') (h' : d'.Binds vs outs d'')
    (hv : v.id ∉ vs.map Var.id) : d.Binds (v :: vs) (x :: outs) d'' where
  inputs := h'.inputs.trans h.inputs
  outputs := h'.outputs.trans h.outputs
  nodes := h'.nodes.trans h.nodes
  sources := h'.sources.trans h.sources
  le := h.le.trans h'.le
  tidy := h'.tidy
  names id hid := by
    rw [List.map_cons, List.mem_cons, not_or] at hid
    rw [h'.names id hid.2, h.names id (by simpa using hid.1)]
  outs_eq := by
    have hx : d'.name? v.id = some x := by simpa using h.outs_eq
    rw [List.map_cons, List.map_cons, h'.outs_eq, h'.names _ hv, hx]
  nodup := List.nodup_cons.2 ⟨fun hx => h'.free x hx (h.used x (by simp)), h'.nodup⟩
  free y hy := by
    rcases List.mem_cons.1 hy with rfl | hy
    · exact h.free y (by simp)
    · exact fun hu => h'.free y hy (h.le.used hu)
  used y hy := by
    rcases List.mem_cons.1 hy with rfl | hy
    · exact h'.le.used (h.used y (by simp))
    · exact h'.used y hy
  new y hy := by
    rcases List.mem_cons.1 hy with rfl | hy
    · exact h'.le.not_mem_names (h.used y (by simp)) (h.new y (by simp))
    · exact h'.new y hy
  info y hy := by
    rw [List.mem_cons, not_or] at hy
    rw [h'.info y hy.2, h.info y (by simpa using hy.1)]

end Draft.Binds

section

variable {s s' : Lowering}

theorem Build.addConstant_of_some {b : Builder} {x : String} {t : Tensor}
    (h : b.initializers.find? t = some x) (base : String) : addConstant base t b = .ok x b := by
  simp only [addConstant, h]

/-- Where the names of constants are taken, a constant that no name holds gets a fresh one. -/
theorem Build.addConstant_of_none {b : Builder} {t : Tensor} (h : b.initializers.find? t = none)
    (htable : b.initializers.names ⊆ b.names.used) (base : String) :
    addConstant base t b = .ok (b.names.fresh base).1 { b with
      names := (b.names.fresh base).2
      initializers := ⟨b.initializers.entries ++ [⟨(b.names.fresh base).1, t⟩]⟩ } := by
  have hget : b.initializers.get? (b.names.fresh base).1 = none :=
    InitializerTable.get?_eq_none_iff.2 fun hmem => (b.names.issues_fresh base).free (htable hmem)
  simp only [addConstant, h, InitializerTable.add, hget]

/-- Where the names of constants are taken, a constant always gets a name. -/
theorem Build.exists_addConstant {b : Builder} (htable : b.initializers.names ⊆ b.names.used)
    (base : String) (tensor : Tensor) : ∃ x b', addConstant base tensor b = .ok x b' := by
  cases hfind : b.initializers.find? tensor with
  | some x => exact ⟨x, b, addConstant_of_some hfind base⟩
  | none => exact ⟨_, _, addConstant_of_none hfind htable base⟩

/-- The name that an added constant goes by holds its tensor. -/
theorem Lower.draft_addConstant {base x : String} {t : Tensor}
    (h : build (Build.addConstant base t) s = .ok x s') (hs : s.draft.shared.Tidy) :
    s.draft.Grows s'.draft ∧ s'.draft.initializers.find? t = some x := by
  rw [build_eq_ok] at h
  obtain ⟨b, hb, rfl⟩ := h
  cases hfind : s.builder.initializers.find? t with
  | some name =>
    rw [Build.addConstant_of_some hfind, EStateM.Result.ok.injEq] at hb
    obtain ⟨rfl, rfl⟩ := hb
    exact ⟨.refl hs, hfind⟩
  | none =>
    have hissues := NamePool.issues_fresh s.builder.names base
    rw [Build.addConstant_of_none hfind hs.table_used, EStateM.Result.ok.injEq] at hb
    obtain ⟨rfl, rfl⟩ := hb
    have hsub : s.draft.shared.used ⊆ (s.builder.names.fresh base).2.used :=
      fun y hy => (hissues.used y).2 (Or.inr hy)
    refine ⟨⟨rfl, rfl, rfl, Shared.le_of_constant hissues.free hsub t,
      hs.of_constant hissues.free hsub ((hissues.used _).2 (Or.inl rfl)) t⟩, ?_⟩
    have hnone : s.builder.initializers.entries.find? (fun i => i.tensor == t) = none := by
      simpa [InitializerTable.find?] using hfind
    simp [Lowering.draft, InitializerTable.find?, List.find?_append, hnone]

/-- An operand goes by the name that was found for it. -/
theorem Lower.draft_inputName {a : Atom} {x : String} (h : inputName a s = .ok x s')
    (hs : s.draft.shared.Tidy) :
    s.draft.Grows s'.draft ∧ a.name? s'.draft.initializers s'.draft.name? = some x := by
  cases a with
  | var v =>
    simp only [inputName, Step.get_bind_eq_ok] at h
    cases hname : s.nameOf? v with
    | none => simp [hname, Step.throw_eq_ok] at h
    | some name =>
      simp only [hname, Step.pure_eq_ok] at h
      obtain ⟨rfl, rfl⟩ := h
      exact ⟨.refl hs, hname⟩
  | literal t => exact draft_addConstant h hs

theorem Lower.draft_inputNames {atoms : List Atom} {xs : List String}
    (h : atoms.mapM inputName s = .ok xs s') (hs : s.draft.shared.Tidy) :
    s.draft.Grows s'.draft ∧ atoms.map (Atom.name? s'.draft.initializers s'.draft.name?) =
      xs.map some := by
  induction atoms generalizing s xs with
  | nil =>
    simp only [List.mapM_nil, Step.pure_eq_ok] at h
    obtain ⟨rfl, rfl⟩ := h
    exact ⟨.refl hs, rfl⟩
  | cons a rest ih =>
    simp only [List.mapM_cons, Step.bind_eq_ok, Step.pure_eq_ok] at h
    obtain ⟨x, r, hx, xs, r', hxs, rfl, rfl⟩ := h
    obtain ⟨hgrows, hname⟩ := draft_inputName hx hs
    obtain ⟨hgrows', hnames⟩ := ih hxs hgrows.tidy
    refine ⟨hgrows.trans hgrows', ?_⟩
    rw [List.map_cons, List.map_cons, hnames]
    exact congrArg (· :: _)
      (a.name?_mono hgrows'.le (fun id y hy => by rw [hgrows'.name?_eq, hy]) x hname)

/-- A variable without a name is bound to a new one. -/
theorem Lower.binds_outputName {v : Var} {x : String} (h : outputName v s = .ok x s')
    (hs : s.draft.shared.Tidy) (hv : s.draft.name? v.id = none) :
    s.draft.Binds [v] [x] s'.draft ∧ s'.draft.level = s.draft.level ∧
      s'.draft.initializers = s.draft.initializers := by
  rcases draft_outputName h with ⟨hname, -⟩ | ⟨-, pool, hissues, hs'⟩
  · simp [hv] at hname
  · have hgrows := Draft.Grows.of_issues hs hissues
    rw [hs']
    refine ⟨?_, rfl, rfl⟩
    exact
      { inputs := rfl, outputs := rfl, nodes := rfl, sources := rfl
        le := hgrows.le
        tidy := hgrows.tidy
        names := fun id hid => by
          rw [Draft.name?_bind, if_neg (by simpa using hid)]
          rfl
        outs_eq := by simp [Draft.name?_bind]
        nodup := by simp
        free := List.forall_mem_singleton.2 hissues.free
        used := List.forall_mem_singleton.2 ((hissues.used x).2 (Or.inl rfl))
        new := List.forall_mem_singleton.2 fun hx => hissues.free (hs.table_used hx)
        info := fun _ _ => rfl }

end

/-! ## Records -/

/-- What the record of a name says after one is offered that says `offered`, unless the two
conflict. -/
def Info.offer? (existing : Option Info) (offered : Info) : Option Info :=
  match existing with
  | none => some offered
  | some i =>
    if i.shape = offered.shape ∧ i.dtype = offered.dtype then
      some (if i.provenance.confidence < offered.provenance.confidence then offered else i)
    else
      match i.provenance.isPinned, offered.provenance.isPinned with
      | true, false => some i
      | false, true => some offered
      | _, _ => none

theorem Level.info?_putRecord (l : Level) (r : ValueRecord) :
    { l with records := putRecord r l.records }.info? = Function.update l.info? r.name
      (some r.info) := by
  funext x
  by_cases hx : x = r.name
  · subst hx
    simp [info?, record?, findRecord?_putRecord_self]
  · simp [info?, record?, findRecord?_putRecord_of_ne (Ne.symm hx), hx]

theorem ValueRecord.hasType_iff {r : ValueRecord} {shape : List ShapeDim} {dtype : DType} :
    r.hasType shape dtype = true ↔ r.shape = shape ∧ r.dtype = dtype := by
  simp [hasType]

/-- An offered record is taken or passed over as `Info.offer?` says. -/
theorem Build.registerRecord_spec (r : ValueRecord) (b : Builder) :
    (Info.offer? (b.level.info? r.name) r.info = none ∧ ∀ b', registerRecord r b ≠ .ok () b') ∨
      ∃ i records log, Info.offer? (b.level.info? r.name) r.info = some i ∧
        registerRecord r b = .ok () { b with level := { b.level with records }, log } ∧
        { b.level with records }.info? = Function.update b.level.info? r.name (some i) := by
  cases hrec : b.level.record? r.name with
  | none =>
    refine Or.inr ⟨r.info, putRecord r b.level.records, b.log, ?_, ?_, b.level.info?_putRecord r⟩
    · simp [Level.info?, hrec, Info.offer?]
    · simp [registerRecord, hrec, reconcile, Builder.putRecord]
  | some old =>
    have hinfo : b.level.info? r.name = some old.info := by simp [Level.info?, hrec]
    have hkeep : { b.level with records := b.level.records }.info? =
        Function.update b.level.info? r.name (some old.info) := by
      rw [← hinfo, Function.update_eq_self]
    by_cases htype : old.hasType r.shape r.dtype = true
    · have hsame : old.info.shape = r.info.shape ∧ old.info.dtype = r.info.dtype :=
        ValueRecord.hasType_iff.1 htype
      by_cases hconf : old.provenance.confidence < r.provenance.confidence
      · refine Or.inr ⟨r.info, putRecord r b.level.records, b.log, ?_, ?_,
          b.level.info?_putRecord r⟩
        · simp only [hinfo, Info.offer?, hsame, and_self, if_true]
          exact congrArg some (if_pos hconf)
        · simp [registerRecord, hrec, reconcile, htype, hconf, Builder.putRecord]
      · refine Or.inr ⟨old.info, b.level.records, b.log, ?_, ?_, hkeep⟩
        · simp only [hinfo, Info.offer?, hsame, and_self, if_true]
          exact congrArg some (if_neg hconf)
        · simp [registerRecord, hrec, reconcile, htype, hconf]
    · have hdiff : ¬(old.info.shape = r.info.shape ∧ old.info.dtype = r.info.dtype) :=
        fun h => htype (ValueRecord.hasType_iff.2 h)
      simp only [hinfo, Info.offer?, if_neg hdiff, registerRecord, hrec, reconcile, htype,
        Bool.false_eq_true, if_false]
      cases hold : old.provenance.isPinned <;> cases hnew : r.provenance.isPinned
      · simp [ValueRecord.info, hold, hnew]
      · right
        exact ⟨r.info, putRecord r b.level.records, _, by simp [ValueRecord.info, hold, hnew], rfl,
          b.level.info?_putRecord r⟩
      · right
        exact ⟨old.info, b.level.records, _, by simp [ValueRecord.info, hold, hnew], rfl, hkeep⟩
      · simp [ValueRecord.info, hold, hnew]

/-! ## Building levels -/

namespace Lower

variable {s s' : Lowering} {u : Unit}

theorem draft_registerRecord {r : ValueRecord} (h : build (Build.registerRecord r) s = .ok u s') :
    ∃ i records, Info.offer? (s.draft.level.info? r.name) r.info = some i ∧
      s'.draft = s.draft.withRecords records ∧
      s'.draft.level.info? = Function.update s.draft.level.info? r.name (some i) := by
  rw [build_eq_ok] at h
  obtain ⟨b, hb, rfl⟩ := h
  rcases Build.registerRecord_spec r s.builder with ⟨-, hfail⟩ |
    ⟨i, records, log, hoffer, hok, hinfo⟩
  · exact absurd hb (hfail b)
  · obtain rfl : { s.builder with level := { s.builder.level with records }, log } = b := by
      simpa [hok] using hb
    exact ⟨i, records, hoffer, rfl, hinfo⟩

theorem draft_addInput {x : String} {shape : List ShapeDim} {dtype : DType}
    (h : build (Build.addInput x shape dtype) s = .ok u s') :
    ∃ i records, Info.offer? (s.draft.level.info? x) ⟨shape, dtype, .declared⟩ = some i ∧
      s'.draft = { s.draft with
        names := s.draft.names.reserve x
        level := { s.draft.level with inputs := s.draft.level.inputs ++ [x], records } } ∧
      s'.draft.level.info? = Function.update s.draft.level.info? x (some i) := by
  simp only [build_eq_ok, Build.addInput, Step.bind_eq_ok, Step.modify_eq_ok] at h
  obtain ⟨b, ⟨_, _, rfl, hb⟩, rfl⟩ := h
  exact draft_registerRecord (s := { s with builder := _ }) (build_eq_ok.2 ⟨b, hb, rfl⟩)

theorem draft_addOutput {x : String} (h : build (Build.addOutput x) s = .ok u s') :
    s'.draft = { s.draft with
      level := { s.draft.level with outputs := s.draft.level.outputs ++ [x] } } := by
  simp only [build_eq_ok, Build.addOutput, Step.modify_eq_ok] at h
  obtain ⟨b, rfl, rfl⟩ := h
  rfl

/-- A node with a name of its own is appended. -/
theorem addNode_eq_ok {n : Node} : build (Build.addNode n) s = .ok u s' ↔
    (∀ m ∈ s.draft.level.nodes, m.name ≠ n.name) ∧
      s' = { s with builder := { s.builder with
        names := n.outputs.foldl NamePool.reserve (s.builder.names.reserve n.name)
        level := { s.builder.level with nodes := s.builder.level.nodes ++ [n] } } } := by
  have hany : s.builder.level.nodes.any (fun m => m.name == n.name) = false ↔
      ∀ m ∈ s.draft.level.nodes, m.name ≠ n.name := by
    simp [Lowering.draft]
  rw [build_eq_ok, ← hany, Build.addNode]
  cases s.builder.level.nodes.any fun m => m.name == n.name with
  | true => simp
  | false =>
    simp only [Bool.false_eq_true, if_false, EStateM.Result.ok.injEq, true_and]
    constructor
    · rintro ⟨b, rfl, rfl⟩
      rfl
    · rintro rfl
      exact ⟨_, rfl, rfl⟩

/-- A node is appended whose own names are taken already. -/
theorem draft_addNode {n : Node} (h : build (Build.addNode n) s = .ok u s')
    (hname : n.name ∈ s.draft.names.used) (houtputs : ∀ x ∈ n.outputs, x ∈ s.draft.names.used) :
    (∀ m ∈ s.draft.level.nodes, m.name ≠ n.name) ∧
      ∃ pool, (∀ x, x ∈ pool.used ↔ x ∈ s.draft.names.used) ∧
        s'.draft = { s.draft with
          names := pool, level := { s.draft.level with nodes := s.draft.level.nodes ++ [n] } } := by
  obtain ⟨hnames, rfl⟩ := addNode_eq_ok.1 h
  refine ⟨hnames, _, fun x => ?_, rfl⟩
  rw [NamePool.mem_used_foldl_reserve, NamePool.mem_used_reserve]
  constructor
  · rintro (hx | rfl | hx)
    · exact houtputs x hx
    · exact hname
    · exact hx
  · exact fun hx => Or.inr (Or.inr hx)

end Lower

/-! ## Functions -/

theorem findFunction?_eq_none_iff {functions : List Function} {name : String} :
    findFunction? functions name = none ↔ ∀ f ∈ functions, f.name ≠ name := by
  simp [findFunction?]

/-- Where names differ, a function is found by its name. -/
theorem findFunction?_of_mem {functions : List Function}
    (hnodup : (functions.map Function.name).Nodup) {f : Function} (hf : f ∈ functions) :
    findFunction? functions f.name = some f := by
  cases h : findFunction? functions f.name with
  | none => exact absurd rfl (findFunction?_eq_none_iff.1 h f hf)
  | some g =>
    have hname : g.name = f.name := by simpa using List.find?_some h
    rw [List.inj_on_of_nodup_map hnodup (List.mem_of_find?_eq_some h) hf hname]

namespace Build

variable {b b' : Builder} {u : Unit}

/-- A known function is compared, a new one appended. -/
theorem mergeFunctions_cons_eq_ok {f : Function} {rest : List Function} :
    mergeFunctions (f :: rest) b = .ok u b' ↔
      (∃ known, b.level.function? f.name = some known ∧ known.sameBody f = true ∧
        mergeFunctions rest b = .ok u b') ∨
        b.level.function? f.name = none ∧ mergeFunctions rest
          ((b.sayHere .debug ("propagated nested function " ++ f.name)).pushFunction f) =
            .ok u b' := by
  simp only [mergeFunctions, Step.get_bind_eq_ok]
  constructor
  · intro h
    cases hfind : b.level.function? f.name with
    | none =>
      simp only [hfind, Step.bind_eq_ok, Step.modify_eq_ok] at h
      obtain ⟨_, _, rfl, h⟩ := h
      exact Or.inr ⟨rfl, h⟩
    | some known =>
      simp only [hfind] at h
      split at h
      · next hsame => exact Or.inl ⟨known, rfl, hsame, h⟩
      · obtain ⟨_, _, hthrow, -⟩ := Step.bind_eq_ok.1 h
        exact (Step.throw_eq_ok.1 hthrow).elim
  · rintro (⟨known, hfind, hsame, h⟩ | ⟨hfind, h⟩)
    · simpa only [hfind, hsame, if_true] using h
    · simp only [hfind, Step.bind_eq_ok, Step.modify_eq_ok]
      exact ⟨(), _, rfl, h⟩

theorem mergeFunctions_append_eq_ok {known new : List Function} :
    mergeFunctions (known ++ new) b = .ok u b' ↔
      ∃ c, mergeFunctions known b = .ok u c ∧ mergeFunctions new c = .ok u b' := by
  induction known generalizing b with
  | nil => simp [mergeFunctions, Step.pure_eq_ok]
  | cons f rest ih =>
    simp only [List.cons_append, mergeFunctions_cons_eq_ok, ih]
    constructor
    · rintro (⟨g, hfind, hsame, c, hc, h⟩ | ⟨hfind, c, hc, h⟩)
      · exact ⟨c, Or.inl ⟨g, hfind, hsame, hc⟩, h⟩
      · exact ⟨c, Or.inr ⟨hfind, hc⟩, h⟩
    · rintro ⟨c, ⟨g, hfind, hsame, hc⟩ | ⟨hfind, hc⟩, h⟩
      · exact Or.inl ⟨g, hfind, hsame, c, hc, h⟩
      · exact Or.inr ⟨hfind, c, hc, h⟩

/-- Functions with known names are not appended again. -/
theorem mergeFunctions_known {functions : List Function} (h : mergeFunctions functions b = .ok u b')
    (hknown : ∀ f ∈ functions, f.name ∈ b.level.functions.map Function.name) : b' = b := by
  induction functions with
  | nil => exact (Step.pure_eq_ok.1 h).2
  | cons f rest ih =>
    rcases mergeFunctions_cons_eq_ok.1 h with ⟨g, -, -, h⟩ | ⟨hfind, -⟩
    · exact ih h fun f hf => hknown f (List.mem_cons_of_mem _ hf)
    · obtain ⟨g, hg, hname⟩ := List.mem_map.1 (hknown f List.mem_cons_self)
      exact absurd hname (findFunction?_eq_none_iff.1 hfind g hg)

/-- Functions with new names are appended in order. -/
theorem mergeFunctions_new {functions : List Function}
    (hnodup : ((b.level.functions ++ functions).map Function.name).Nodup) :
    ∃ log, mergeFunctions functions b =
      .ok () { b with level := { b.level with functions := b.level.functions ++ functions },
                      log } := by
  induction functions generalizing b with
  | nil => exact ⟨b.log, by simp [mergeFunctions, pure, EStateM.pure]⟩
  | cons f rest ih =>
    have hfind : b.level.function? f.name = none := by
      rw [List.map_append, List.nodup_append] at hnodup
      refine findFunction?_eq_none_iff.2 fun g hg hname => ?_
      exact hnodup.2.2 _ (List.mem_map_of_mem hg) f.name (by simp) hname
    obtain ⟨log, hrest⟩ :=
      @ih ((b.sayHere .debug ("propagated nested function " ++ f.name)).pushFunction f)
        (by simpa [Builder.pushFunction, Builder.sayHere, Builder.say] using hnodup)
    refine ⟨log, mergeFunctions_cons_eq_ok.2 (Or.inr ⟨hfind, hrest.trans ?_⟩)⟩
    simp [Builder.pushFunction, Builder.sayHere, Builder.say]

/-- Merging the functions of a nested level takes them all over. -/
theorem mergeFunctions_inherited {functions : List Function}
    (h : mergeFunctions functions b = .ok u b') (hinherits : b.level.functions <+: functions)
    (hnodup : (functions.map Function.name).Nodup) :
    ∃ log, b' = { b with level := { b.level with functions }, log } := by
  obtain ⟨new, rfl⟩ := hinherits
  obtain ⟨c, hc, hnew⟩ := mergeFunctions_append_eq_ok.1 h
  obtain rfl := mergeFunctions_known hc fun f hf => List.mem_map_of_mem hf
  obtain ⟨log, hlog⟩ := mergeFunctions_new hnodup
  refine ⟨log, ?_⟩
  simpa [hlog] using hnew.symm

end Build

namespace Lower

variable {s s' : Lowering} {u : Unit}

theorem draft_mergeFunctions {functions : List Function}
    (h : build (Build.mergeFunctions functions) s = .ok u s')
    (hinherits : s.draft.level.functions <+: functions)
    (hnodup : (functions.map Function.name).Nodup) :
    s'.draft = { s.draft with level := { s.draft.level with functions } } := by
  obtain ⟨b, hb, rfl⟩ := build_eq_ok.1 h
  obtain ⟨log, rfl⟩ := Build.mergeFunctions_inherited hb hinherits hnodup
  rfl

/-- The function of a nested level is one with the same body, or it is appended under a name that
was free. -/
theorem draft_functionFor {c : Callable} {callName x : String} {f : Function}
    (h : functionFor c callName f s = .ok x s') (hs : s.draft.shared.Tidy) :
    (∃ g ∈ s.draft.level.functions, g.sameBody f = true ∧ g.name = x ∧ s'.draft = s.draft) ∨
      (∀ g ∈ s.draft.level.functions, g.sameBody f = false) ∧ x ∉ s.draft.names.used ∧
        ∃ pool, (∀ y, y ∈ pool.used ↔ y = x ∨ y ∈ s.draft.names.used) ∧
          s'.draft = { s.draft with names := pool, level := { s.draft.level with
            functions := s.draft.level.functions ++ [{ f with name := x }] } } := by
  simp only [functionFor, Step.get_bind_eq_ok] at h
  cases hbody : s.builder.level.functionWithBody? f with
  | some known =>
    simp only [hbody, Step.bind_eq_ok, Step.pure_eq_ok] at h
    obtain ⟨_, _, hsay, rfl, rfl⟩ := h
    obtain ⟨g, hg, rfl⟩ := Option.map_eq_some_iff.1 hbody
    exact Or.inl ⟨g, List.mem_of_find?_eq_some hg, by simpa using List.find?_some hg, rfl,
      draft_sayHere hsay⟩
  | none =>
    simp only [hbody, Step.bind_eq_ok] at h
    obtain ⟨name, r₁, hname, _, r₂, hsay, h⟩ := h
    obtain ⟨pool, hissues, hr₁⟩ := draft_instanceName hname
    have hr₂ : r₂.draft = { s.draft with names := pool } := (draft_say hsay).trans hr₁
    have hnew : ∀ g ∈ r₂.builder.level.functions, g.name ≠ name := by
      intro g hg hgname
      have hlevel : r₂.builder.level = s.builder.level := congrArg Draft.level hr₂
      rw [hlevel] at hg
      exact hissues.free (hgname ▸ hs.functions_used g hg)
    have hfind : r₂.builder.level.function? name = none := findFunction?_eq_none_iff.2 hnew
    simp only [build_eq_ok, Build.registerFunction, hfind, EStateM.Result.ok.injEq] at h
    obtain ⟨b, ⟨rfl, rfl⟩, rfl⟩ := h
    have hnames : r₂.builder.names = pool := congrArg Draft.names hr₂
    refine Or.inr ⟨fun g hg => ?_, hissues.free, pool.reserve name, fun y => ?_, ?_⟩
    · have hnone : s.builder.level.functions.find? (fun g => g.sameBody f) = none := by
        simpa [Level.functionWithBody?] using hbody
      simpa using List.find?_eq_none.1 hnone g hg
    · rw [NamePool.mem_used_reserve, hissues.used y]
      simp
    · have hlevel : r₂.builder.level = s.builder.level := congrArg Draft.level hr₂
      have hinit : r₂.builder.initializers = s.builder.initializers :=
        congrArg Draft.initializers hr₂
      have hbind : r₂.bindings = s.bindings := congrArg Draft.bindings hr₂
      have hsources : r₂.sources = s.sources := congrArg Draft.sources hr₂
      simp [Lowering.draft, Builder.pushFunction, Builder.sayHere, Builder.say, Builder.reserve,
        hnames, hlevel, hinit, hbind, hsources]

/-- A call passes as many inputs as its function takes. -/
theorem addCall_eq_ok {function nodeName displayName : String} {data params outputs : List String} :
    build (Build.addCall function data params outputs nodeName displayName) s = .ok u s' ↔
      ∃ f, s.draft.level.function? function = some f ∧ (data ++ params).length = f.inputs.length ∧
        build (Build.addNode { Node.plain function nodeName (data ++ params) outputs with
          domain := functionDomain, displayName := some displayName }) s = .ok u s' := by
  simp only [build_eq_ok, Build.addCall, Step.get_bind_eq_ok]
  constructor
  · rintro ⟨b, h, rfl⟩
    cases hfind : s.builder.level.function? function with
    | none => simp [hfind, Step.throw_eq_ok] at h
    | some f =>
      simp only [hfind] at h
      split at h
      · next hcount => exact ⟨f, hfind, hcount, b, h, rfl⟩
      · exact (Step.throw_eq_ok.1 h).elim
  · rintro ⟨f, hfind, hcount, b, h, rfl⟩
    have hfind' : s.builder.level.function? function = some f := hfind
    exact ⟨b, by simpa only [hfind', if_pos hcount] using h, rfl⟩

end Lower

end TensorGraph
