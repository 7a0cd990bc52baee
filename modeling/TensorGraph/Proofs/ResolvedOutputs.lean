import TensorGraph.Proofs.FailedSteps
import TensorGraph.Proofs.Implements

/-!
# Records that outputs get

When a trace is lowered, declared outputs without records get them in order, and an output can be
given the record that an earlier one has just got. What is done for one output is
`Lowering.Settles`, and why it cannot be done is `Lowering.Refuses`. From any state it is one of the
two (`resolveFrom_cons`), so whatever records handlers have left, no record is changed, and the
records that are added are those of declared outputs without one (`left_resolveOutputs`). The record
of an output is offered as any other one is, but it never meets another record : it is either the
one that the output has, or there is none.
-/

namespace TensorGraph

/-! ## Records that are put -/

theorem sublist_putRecord {r : ValueRecord} {records : List ValueRecord}
    (h : findRecord? records r.name = none) :
    records.Sublist (putRecord r records) := by
  induction records with
  | nil => exact List.nil_sublist _
  | cons s rest ih =>
    obtain ⟨hne, hrest⟩ : s.name ≠ r.name ∧ findRecord? rest r.name = none := by
      simpa [findRecord?] using h
    rw [putRecord, if_neg (by simpa using Ne.symm hne)]
    split_ifs
    · exact List.sublist_cons_self _ _
    · exact (ih hrest).cons_cons s

theorem mem_putRecord {r p : ValueRecord} {records : List ValueRecord}
    (h : p ∈ putRecord r records) :
    p = r ∨ p ∈ records := by
  induction records with
  | nil => exact Or.inl (by simpa [putRecord] using h)
  | cons s rest ih =>
    rw [putRecord] at h
    split_ifs at h
    · exact (List.mem_cons.1 h).imp_right (List.mem_cons_of_mem s)
    · exact List.mem_cons.1 h
    · rcases List.mem_cons.1 h with rfl | h
      · exact Or.inr List.mem_cons_self
      · exact (ih h).imp_right (List.mem_cons_of_mem s)

/-- The type in the record of a name. -/
def Level.recordedType? (l : Level) (name : String) : Option (List ShapeDim × DType) :=
  (l.record? name).map fun r => (r.shape, r.dtype)

namespace Lowering

/-! ## One output -/

/-- The type of the value that the output at a place stood for, if it can be rendered. -/
def sourceType? (s : Lowering) (symbols : SymbolTable) (place : Nat) :
    Option (List ShapeDim × DType) :=
  s.sources[place]?.bind fun source => (symbols.renderShape? source.2).map fun shape =>
    (shape, source.2.dtype)

/-- The type in the record of the name that the output `x` at a place stood for. -/
def positionalType? (s : Lowering) (place : Nat) (x : String) : Option (List ShapeDim × DType) :=
  s.builder.level.recordedType? ((s.sources[place]?.map Prod.fst).getD x)

/-- The state with other records and another log. -/
def withRecords (s : Lowering) (records : List ValueRecord) (log : Log) : Lowering :=
  { s with builder := { s.builder with level := { s.builder.level with records }, log } }

/-- The output `x` at a place has no record and gets one of this type : that of its source, or else
that of the name it stood for, and the two agree if there are both. -/
structure Repairs (symbols : SymbolTable) (place : Nat) (x : String) (s : Lowering)
    (type : List ShapeDim × DType) :
    Prop where
  unrecorded : s.builder.level.record? x = none
  found : (s.sourceType? symbols place).or (s.positionalType? place x) = some type
  agrees : ∀ type', s.positionalType? place x = some type' → type' = type

/-- What is done for the output `x` at a place. -/
inductive Settles (symbols : SymbolTable) (place : Nat) (x : String) (s : Lowering) :
    Lowering → Prop where
  | kept (h : (s.builder.level.record? x).isSome) : Settles symbols place x s s
  | repaired {type : List ShapeDim × DType} (h : s.Repairs symbols place x type) (log : Log) :
      Settles symbols place x s
        (s.withRecords (putRecord ⟨x, type.1, type.2, .repaired⟩ s.builder.level.records) log)

/-- Why the output `x` at a place, which has no record, gets none. -/
inductive Refuses (symbols : SymbolTable) (place : Nat) (x : String) (s : Lowering) :
    Failure → Prop where
  | conflict {type type' : List ShapeDim × DType} (hnone : s.builder.level.record? x = none)
      (hsource : s.sourceType? symbols place = some type)
      (hpositional : s.positionalType? place x = some type') (hne : type ≠ type')
      (detail : String) : Refuses symbols place x s (.conflict x detail)
  | unresolved (hnone : s.builder.level.record? x = none)
      (hsource : s.sourceType? symbols place = none)
      (hpositional : s.positionalType? place x = none) (detail : String) :
      Refuses symbols place x s (.unresolvedOutput x detail)

end Lowering

/-- Only a borrowed record is reported. -/
theorem Build.resolve_eq (symbols : SymbolTable) (name expected : String)
    (value? : Option AbstractValue) (b : Builder) :
    ∃ log, resolve symbols name expected value? b =
      .ok (b.level.resolve symbols name expected value?) { b with log } ∧
      (b.level.borrowed? symbols name expected value? = none → log = b.log) := by
  unfold Build.resolve
  cases hborrowed : b.level.borrowed? symbols name expected value? with
  | none =>
    refine ⟨b.log, ?_, fun _ => rfl⟩
    rw [Step.get_bind_eq_ok]
    simp only [hborrowed]
    rfl
  | some r =>
    refine ⟨(b.sayHere .warn ("output '" ++ name ++ "' typed from positional output '" ++
      expected ++ "' (" ++ r.text ++ ")")).log, ?_, fun h => by simp at h⟩
    rw [Step.get_bind_eq_ok]
    simp only [hborrowed]
    rfl

/-- A record that is offered for a name without one is put. -/
theorem Build.registerRecord_of_unrecorded {r : ValueRecord} {b : Builder}
    (h : b.level.record? r.name = none) :
    registerRecord r b = .ok () (b.putRecord r) := by
  simp [registerRecord, h, reconcile]

/-- The record that a name has changes nothing when it is offered again. -/
theorem Build.registerRecord_of_recorded {r : ValueRecord} {name : String} {b : Builder}
    (h : b.level.record? name = some r) : registerRecord { r with name } b = .ok () b := by
  simp [registerRecord, h, reconcile, ValueRecord.hasType_iff]

/-- What is found for a name without a record. Nothing is borrowed if nothing is found. -/
theorem Level.resolve_cases {l : Level} {name : String} (hnone : l.record? name = none)
    (symbols : SymbolTable) (expected : String) (value? : Option AbstractValue) :
    let source? := value?.bind fun v => (symbols.renderShape? v).map fun shape => (shape, v.dtype)
    (∃ type, l.resolve symbols name expected value? = .resolved ⟨name, type.1, type.2, .repaired⟩ ∧
        source?.or (l.recordedType? expected) = some type ∧ ∀ type',
        l.recordedType? expected = some type' → type' = type) ∨
      (∃ type type' detail, l.resolve symbols name expected value? = .conflict detail ∧
        source? = some type ∧
        l.recordedType? expected = some type' ∧ type ≠ type' ∧
        l.borrowed? symbols name expected value? = none) ∨
      ∃ detail, l.resolve symbols name expected value? = .unresolvable detail ∧ source? = none ∧
        l.recordedType? expected = none ∧ l.borrowed? symbols name expected value? = none := by
  intro source?
  cases hexpected : l.record? expected with
  | none =>
    have hrecorded : l.recordedType? expected = none := by simp [recordedType?, hexpected]
    cases hsource : source? with
    | none =>
      have hborrowed : l.borrowed? symbols name expected value? = none := by
        simp [borrowed?, hexpected]
      refine Or.inr (Or.inr ⟨?lack, ?unresolvable, rfl, hrecorded, hborrowed⟩)
      case unresolvable =>
        simp only [resolve, hnone, hexpected, show value?.bind _ = none from hsource]
        rfl
    | some type =>
      refine Or.inl ⟨type, ?_, rfl, fun type' h => by simp [hrecorded] at h⟩
      simp only [resolve, hnone, hexpected, show value?.bind _ = some type from hsource]
  | some r =>
    have hrecorded : l.recordedType? expected = some (r.shape, r.dtype) := by
      simp [recordedType?, hexpected]
    cases hsource : source? with
    | none =>
      refine Or.inl ⟨(r.shape, r.dtype), ?_, hrecorded,
        fun type' h => Option.some.inj (h.symm.trans hrecorded)⟩
      simp only [resolve, hnone, hexpected, show value?.bind _ = none from hsource]
    | some type =>
      by_cases htype : r.hasType type.1 type.2 = true
      · have heq : (r.shape, r.dtype) = type := Prod.ext_iff.2 (ValueRecord.hasType_iff.1 htype)
        refine Or.inl ⟨type, ?_, rfl,
          fun type' h => (Option.some.inj (h.symm.trans hrecorded)).trans heq⟩
        simp only [resolve, hnone, hexpected, show value?.bind _ = some type from hsource, htype,
          if_true]
      · have hne : type ≠ (r.shape, r.dtype) := by
          rintro rfl
          exact htype (ValueRecord.hasType_iff.2 ⟨rfl, rfl⟩)
        have hborrowed : l.borrowed? symbols name expected value? = none := by
          obtain ⟨v, rfl, hv⟩ := Option.bind_eq_some_iff.1 hsource
          obtain ⟨shape, hshape, -⟩ := Option.map_eq_some_iff.1 hv
          simp [borrowed?, hshape]
        refine Or.inr (Or.inl ⟨type, _, ?clash, ?conflict, rfl, hrecorded, hne, hborrowed⟩)
        case conflict =>
          simp only [resolve, hnone, hexpected, show value?.bind _ = some type from hsource, htype,
            Bool.false_eq_true, if_false]
          rfl

theorem resolveFrom_cons_of_resolved {env : Environment} {place : Nat} {x : String}
    {s s₁ s₂ : Lowering} {r : ValueRecord}
    (hresolve :
      Lower.build (Build.resolve env.symbols x ((s.sources[place]?.map Prod.fst).getD x)
        (s.sources[place]?.map Prod.snd)) s = .ok (.resolved r) s₁)
    (hregister : Lower.build (Build.registerRecord { r with name := x }) s₁ = .ok () s₂)
    (rest : List String) :
    resolveFrom env place (x :: rest) s = resolveFrom env (place + 1) rest s₂ := by
  refine (Step.bind_of_ok hresolve : _ = _).trans ?_
  exact Step.bind_of_ok hregister

/-- The next output is settled or refused. -/
theorem resolveFrom_cons (env : Environment) (place : Nat) (x : String) (s : Lowering) :
    (∃ s₁, s.Settles env.symbols place x s₁ ∧
        ∀ rest, resolveFrom env place (x :: rest) s = resolveFrom env (place + 1) rest s₁) ∨
      ∃ e, s.Refuses env.symbols place x e ∧ ∀ rest,
        resolveFrom env place (x :: rest) s = .error e s := by
  obtain ⟨log, hresolve, hlog⟩ :=
    Build.resolve_eq env.symbols x ((s.sources[place]?.map Prod.fst).getD x)
      (s.sources[place]?.map Prod.snd) s.builder
  have hbuild := Lower.build_eq_ok.2 ⟨_, hresolve, rfl⟩
  cases hx : s.builder.level.record? x with
  | some r =>
    obtain rfl := hlog (by simp [Level.borrowed?, hx])
    have hfound : s.builder.level.resolve env.symbols x ((s.sources[place]?.map Prod.fst).getD x)
        (s.sources[place]?.map Prod.snd) = .resolved r := by simp [Level.resolve, hx]
    rw [hfound] at hbuild
    have hregister := Lower.build_eq_ok.2 ⟨_, Build.registerRecord_of_recorded hx, rfl⟩
    exact Or.inl ⟨s, .kept (by simp [hx]),
      fun rest => resolveFrom_cons_of_resolved hbuild hregister rest⟩
  | none =>
    have hsource : s.sourceType? env.symbols place = (s.sources[place]?.map Prod.snd).bind fun v =>
        (env.symbols.renderShape? v).map fun shape => (shape, v.dtype) := by
      rw [Option.bind_map]
      rfl
    rcases Level.resolve_cases hx env.symbols ((s.sources[place]?.map Prod.fst).getD x)
      (s.sources[place]?.map Prod.snd) with
      ⟨type, hfound, htype, hagrees⟩ |
      ⟨type, type', detail, hfound, htype, htype', hne, hborrowed⟩ |
      ⟨detail, hfound, htype, htype', hborrowed⟩
    · rw [hfound] at hbuild
      rw [← hsource] at htype
      have hregister : Lower.build (Build.registerRecord ⟨x, type.1, type.2, .repaired⟩)
          { s with builder := { s.builder with log } } =
          .ok () (s.withRecords
            (putRecord ⟨x, type.1, type.2, .repaired⟩ s.builder.level.records) log) :=
        Lower.build_eq_ok.2 ⟨_, Build.registerRecord_of_unrecorded hx, rfl⟩
      exact Or.inl ⟨_, .repaired ⟨hx, htype, hagrees⟩ log,
        fun rest => resolveFrom_cons_of_resolved hbuild hregister rest⟩
    · obtain rfl := hlog hborrowed
      rw [hfound] at hbuild
      rw [← hsource] at htype
      exact Or.inr ⟨_, .conflict hx htype htype' hne detail, fun rest => Step.bind_of_ok hbuild⟩
    · obtain rfl := hlog hborrowed
      rw [hfound] at hbuild
      rw [← hsource] at htype
      exact Or.inr ⟨_, .unresolved hx htype htype' detail, fun rest => Step.bind_of_ok hbuild⟩

/-! ## All outputs -/

namespace Lowering

/-- The records of a state stay, others of a kind are added, and only the log changes beside. -/
structure Grows (Added : ValueRecord → Prop) (s s' : Lowering) : Prop where
  frame : ∃ records log, s' = s.withRecords records log
  sublist : s.builder.level.records.Sublist s'.builder.level.records
  kept : ∀ x r, s.builder.level.record? x = some r → s'.builder.level.record? x = some r
  added : ∀ r ∈ s'.builder.level.records, r ∈ s.builder.level.records ∨ Added r

namespace Grows

variable {Added Added' : ValueRecord → Prop} {s s₁ s' : Lowering} {x : String}

theorem refl (s : Lowering) : s.Grows Added s :=
  ⟨⟨_, _, rfl⟩, List.Sublist.refl _, fun _ _ => id, fun _ => Or.inl⟩

theorem trans (h : s.Grows Added s₁) (h' : s₁.Grows Added s') : s.Grows Added s' where
  frame := by
    obtain ⟨records, log, rfl⟩ := h.frame
    obtain ⟨records', log', rfl⟩ := h'.frame
    exact ⟨records', log', rfl⟩
  sublist := h.sublist.trans h'.sublist
  kept x r hx := h'.kept x r (h.kept x r hx)
  added r hr := (h'.added r hr).elim (h.added r) Or.inr

theorem imp (h : s.Grows Added s') (himp : ∀ r, Added r → Added' r) : s.Grows Added' s' :=
  { h with added := fun r hr => (h.added r hr).imp_right (himp r) }

theorem isSome_record? (h : s.Grows Added s') (hx : (s.builder.level.record? x).isSome) :
    (s'.builder.level.record? x).isSome := by
  obtain ⟨r, hr⟩ := Option.isSome_iff_exists.1 hx
  rw [h.kept x r hr]
  rfl

theorem record?_eq_none (h : s.Grows Added s') (hx : s'.builder.level.record? x = none) :
    s.builder.level.record? x = none := by
  by_contra hne
  have hsome := h.isSome_record? (Option.isSome_iff_ne_none.2 hne)
  simp [hx] at hsome

end Grows

variable {symbols : SymbolTable} {place : Nat} {x : String} {s s₁ : Lowering}

theorem Settles.grows (h : s.Settles symbols place x s₁) :
    s.Grows (fun r => ∃ type, s.Repairs symbols place x type ∧
      r = ⟨x, type.1, type.2, .repaired⟩) s₁ := by
  cases h with
  | kept => exact Grows.refl s
  | @repaired type h log =>
    refine ⟨⟨_, log, rfl⟩, sublist_putRecord h.unrecorded, fun y r hy => ?_, fun r hr => ?_⟩
    · have hne : x ≠ y := by
        rintro rfl
        simp [h.unrecorded] at hy
      exact (findRecord?_putRecord_of_ne hne _).trans hy
    · rcases mem_putRecord hr with rfl | hr
      · exact Or.inr ⟨type, h, rfl⟩
      · exact Or.inl hr

theorem Settles.isSome_record? (h : s.Settles symbols place x s₁) :
    (s₁.builder.level.record? x).isSome := by
  cases h with
  | kept h => exact h
  | @repaired type h log =>
    have hfind := findRecord?_putRecord_self ⟨x, type.1, type.2, .repaired⟩ s.builder.level.records
    exact Option.isSome_iff_exists.2 ⟨_, hfind⟩

theorem Refuses.unrecorded {e : Failure} (h : s.Refuses symbols place x e) :
    s.builder.level.record? x = none := by
  cases h with
  | conflict hnone => exact hnone
  | unresolved hnone => exact hnone

/-- The record is one that an output without a record gets after the outputs before it are
settled. -/
def Supplies (env : Environment) (place : Nat) (outputs : List String) (s : Lowering)
    (r : ValueRecord) : Prop :=
  ∃ before x after mid type, outputs = before ++ x :: after ∧
    resolveFrom env place before s = .ok () mid ∧
    mid.Repairs env.symbols (place + before.length) x type ∧ r = ⟨x, type.1, type.2, .repaired⟩

theorem Supplies.cons {env : Environment} {rest : List String} {r : ValueRecord}
    (hstep : ∀ rest, resolveFrom env place (x :: rest) s = resolveFrom env (place + 1) rest s₁)
    (h : s₁.Supplies env (place + 1) rest r) : s.Supplies env place (x :: rest) r := by
  obtain ⟨before, y, after, mid, type, rfl, hmid, hrepairs, rfl⟩ := h
  refine ⟨x :: before, y, after, mid, type, rfl, (hstep before).trans hmid, ?_, rfl⟩
  rwa [List.length_cons, ← Nat.add_assoc, Nat.add_right_comm]

end Lowering

/-- Outputs are settled in order, up to the first that is refused. -/
theorem resolveFrom_spec (env : Environment) (place : Nat) (outputs : List String) (s : Lowering) :
    ∃ s', s.Grows (s.Supplies env place outputs) s' ∧
      ((resolveFrom env place outputs s = .ok () s' ∧ ∀ x ∈ outputs,
        (s'.builder.level.record? x).isSome) ∨
        ∃ e before x after, resolveFrom env place outputs s = .error e s' ∧
          outputs = before ++ x :: after ∧
          resolveFrom env place before s = .ok () s' ∧
          s'.Refuses env.symbols (place + before.length) x e) := by
  induction outputs generalizing place s with
  | nil => exact ⟨s, .refl s, Or.inl ⟨rfl, by simp⟩⟩
  | cons x rest ih =>
    rcases resolveFrom_cons env place x s with ⟨s₁, hsettles, hstep⟩ | ⟨e, hrefuses, hstep⟩
    · obtain ⟨s', hgrows, hcases⟩ := ih (place + 1) s₁
      have hfirst : s.Grows (s.Supplies env place (x :: rest)) s₁ := by
        refine hsettles.grows.imp ?_
        rintro r ⟨type, hrepairs, rfl⟩
        exact ⟨[], x, rest, s, type, rfl, rfl, hrepairs, rfl⟩
      have hrest := hgrows.imp fun r => Lowering.Supplies.cons hstep
      refine ⟨s', hfirst.trans hrest, ?_⟩
      rcases hcases with ⟨hok, hall⟩ | ⟨e, before, y, after, herror, rfl, hbefore, hrefuses⟩
      · refine Or.inl ⟨(hstep rest).trans hok, fun y hy => ?_⟩
        rcases List.mem_cons.1 hy with rfl | hy
        · exact hgrows.isSome_record? hsettles.isSome_record?
        · exact hall y hy
      · refine Or.inr ⟨e, x :: before, y, after, (hstep _).trans herror, rfl,
          (hstep before).trans hbefore, ?_⟩
        rwa [List.length_cons, ← Nat.add_assoc, Nat.add_right_comm]
    · exact ⟨s, .refl s, Or.inr ⟨e, [], x, rest, hstep rest, rfl, rfl, hrefuses⟩⟩

theorem grows_of_resolveFrom {env : Environment} {place : Nat} {outputs : List String}
    {s s' : Lowering} (h : resolveFrom env place outputs s = .ok () s') :
    s.Grows (s.Supplies env place outputs) s' := by
  obtain ⟨r, hgrows, ⟨hok, -⟩ | ⟨e, -, -, -, herror, -⟩⟩ := resolveFrom_spec env place outputs s
  · obtain ⟨-, rfl⟩ := EStateM.Result.ok.inj (h.symm.trans hok)
    exact hgrows
  · cases h.symm.trans herror

/-- From any state, giving outputs their records changes nothing but the records and the log. Every
record stays, and those that are added are of outputs without one, with the type of the source, or
else that of the name it stood for. If all outputs get theirs, the level becomes a function with any
constants as parameters. Otherwise an output without a record has a source that disagrees with the
record of the name it stood for, or there is neither. -/
theorem left_resolveOutputs (env : Environment) (site : Site) (s : Lowering) :
    let outputs := s.builder.level.outputs
    let s' := Step.left (resolveOutputs env site) s
    (∃ records log, s' = s.withRecords records log) ∧
      s.builder.level.records.Sublist s'.builder.level.records ∧
      (∀ x r, s.builder.level.record? x = some r → s'.builder.level.record? x = some r) ∧
      (∀ r ∈ s'.builder.level.records, r ∈ s.builder.level.records ∨
        ∃ before x after mid type, outputs = before ++ x :: after ∧
          s.builder.level.record? x = none ∧
          resolveFrom env 0 before s = .ok () mid ∧ mid.Repairs env.symbols before.length x type ∧
          r = ⟨x, type.1, type.2, .repaired⟩) ∧
      ((resolveOutputs env site s = .ok () s' ∧
        (∀ x ∈ outputs, (s'.builder.level.record? x).isSome) ∧
          ∀ name params, (∀ x ∈ params, x ∈ s'.builder.initializers.names) →
            ∃ f, s'.builder.level.toFunction name params s'.builder.initializers = .ok f) ∨
        ∃ e before x after, resolveOutputs env site s = .error (e.locate site) s' ∧
          outputs = before ++ x :: after ∧
          s.builder.level.record? x = none ∧ resolveFrom env 0 before s = .ok () s' ∧
          s'.Refuses env.symbols before.length x e) := by
  intro outputs s'
  obtain ⟨left, hgrows, hcases⟩ := resolveFrom_spec env 0 outputs s
  -- The site of a failure aside, the outputs of the state are resolved from the first one on.
  have hleft : s' = left := by
    rcases hcases with ⟨hok, -⟩ | ⟨e, -, -, -, herror, -⟩
    · exact Step.left_of_ok (Lower.locate_eq_ok.2 hok : resolveOutputs env site s = _)
    · exact Step.left_of_error (Lower.locate_eq_error.2 ⟨e, herror, rfl⟩ :
        resolveOutputs env site s = _)
  rw [hleft]
  refine ⟨hgrows.frame, hgrows.sublist, hgrows.kept,
    fun r hr => (hgrows.added r hr).imp_right ?_, ?_⟩
  · rintro ⟨before, x, after, mid, type, houtputs, hmid, hrepairs, rfl⟩
    rw [Nat.zero_add] at hrepairs
    exact ⟨before, x, after, mid, type, houtputs,
      (grows_of_resolveFrom hmid).record?_eq_none hrepairs.unrecorded, hmid, hrepairs, rfl⟩
  · rcases hcases with ⟨hok, hall⟩ | ⟨e, before, x, after, herror, houtputs, hbefore, hrefuses⟩
    · refine Or.inl ⟨Lower.locate_eq_ok.2 hok, hall, fun name params hparams => ?_⟩
      obtain ⟨records, hrecords⟩ := Level.exists_paramRecords hparams 0
      refine ⟨_, Level.toFunction_eq_ok.2 ⟨fun x hx => hall x ?_, records, hrecords, rfl⟩⟩
      obtain ⟨records, log, rfl⟩ := hgrows.frame
      exact hx
    · rw [Nat.zero_add] at hrefuses
      exact Or.inr ⟨e, before, x, after, Lower.locate_eq_error.2 ⟨e, herror, rfl⟩, houtputs,
        hgrows.record?_eq_none hrefuses.unrecorded, hbefore, hrefuses⟩

/-- The second output takes the record that the first one has just got, and the source of the third
one disagrees with it. -/
example :
    let level := { Level.empty "main" with outputs := ["a", "b", "c"] }
    let s := { Lowering.start "main" with
      builder := (Builder.start "main").resume level
      sources :=
  [("v", ⟨[.known 2], .f32⟩), ("a", ⟨[.symbolic 0], .f32⟩), ("b", ⟨[.known 3], .f32⟩)] }
    (Step.left (resolveOutputs ⟨fun _ => none, .empty⟩ .top) s).builder.level.records =
        [⟨"a", [.fixed 2], .f32, .repaired⟩, ⟨"b", [.fixed 2], .f32, .repaired⟩] ∧
      Step.result? (resolveOutputs ⟨fun _ => none, .empty⟩ .top) s = none := by
  decide

end TensorGraph
