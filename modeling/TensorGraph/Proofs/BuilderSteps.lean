import TensorGraph.Proofs.FailedSteps

/-!
# Steps of building

An operation of building takes names and appends to what is declared : to the inputs, nodes and
functions of the level, and to the constants (`Builder.Adds`). What an operation appends is said
once, with the builder that it leaves when it fails, and the invariants of histories follow from
that. Most operations do all or nothing (`Build.AllOrNothing`). An input whose record is refused
stays declared, and constants write before the table can refuse them.

All actions take what they declare (`Action.declares_leave`). To merge functions takes nothing,
and appends the new ones up to the first that clashes with a known one
(`Build.mergeFunctions_spec`).
-/

namespace TensorGraph

/-! ## Operations -/

/-- An operation on one level. -/
inductive Action where
  | uniqueName (base : String)
  | instanceName (base : String)
  | addInput (name : String) (shape : List ShapeDim) (dtype : DType)
  | addOutput (name : String)
  | addNode (n : Node)
  | addInitializer (name : String) (tensor : Tensor)
  | addConstant (base : String) (tensor : Tensor)
  | registerRecord (r : ValueRecord)
  | registerFunction (f : Function)
  | addFunction (name : String) (sub : Level) (params : List String)
  | addCall (function : String) (data params outputs : List String) (nodeName displayName : String)

namespace Action

/-- The builder that an action leaves, whether it succeeds or fails. -/
def leave (b : Builder) : Action → Builder
  | .uniqueName base => Step.left (Build.uniqueName base) b
  | .instanceName base => Step.left (Build.instanceName base) b
  | .addInput name shape dtype => Step.left (Build.addInput name shape dtype) b
  | .addOutput name => Step.left (Build.addOutput name) b
  | .addNode n => Step.left (Build.addNode n) b
  | .addInitializer name tensor => Step.left (Build.addInitializer name tensor) b
  | .addConstant base tensor => Step.left (Build.addConstant base tensor) b
  | .registerRecord r => Step.left (Build.registerRecord r) b
  | .registerFunction f => Step.left (Build.registerFunction f) b
  | .addFunction name sub params => Step.left (Build.addFunction name sub params) b
  | .addCall function data params outputs nodeName displayName =>
    Step.left (Build.addCall function data params outputs nodeName displayName) b

/-- The name that an action issues. A constant gets a new name if none holds its tensor. -/
def issued? (b : Builder) : Action → Option String
  | .uniqueName base => Step.result? (Build.uniqueName base) b
  | .instanceName base => Step.result? (Build.instanceName base) b
  | .addConstant base tensor =>
    if (b.initializers.find? tensor).isSome then none
    else Step.result? (Build.addConstant base tensor) b
  | _ => none

/-- May the action add a constant? -/
def addsConstant : Action → Bool
  | .addInitializer _ _ => true
  | .addConstant _ _ => true
  | _ => false

/-- A name that is issued was free, and is taken. -/
theorem issues_of_issued? {action : Action} {b : Builder}
    (htable : b.initializers.names ⊆ b.names.used) {x : String} (h : action.issued? b = some x) :
    b.names.Issues x (action.leave b).names := by
  cases action with
  | uniqueName base =>
    obtain rfl : (b.names.fresh base).1 = x := Option.some.inj h
    exact b.names.issues_fresh base
  | instanceName base =>
    obtain rfl : (b.names.freshInstance base).1 = x := Option.some.inj h
    exact b.names.issues_freshInstance base
  | addConstant base tensor =>
    simp only [issued?] at h
    split_ifs at h with hfind
    rw [Option.not_isSome_iff_eq_none] at hfind
    have hok := Build.addConstant_of_none hfind htable base
    obtain ⟨b', hb'⟩ := Step.result?_eq_some_iff.1 h
    obtain ⟨rfl, -⟩ := EStateM.Result.ok.inj (hok.symm.trans hb')
    rw [leave, Step.left_of_ok hok]
    exact b.names.issues_fresh base
  | _ => cases h

end Action

/-! ## What an operation adds -/

/-- What an operation appends to the level and to the constants. -/
structure Additions where
  inputs : List String := []
  nodes : List Node := []
  functions : List Function := []
  constants : List Initializer := []

/-- The names that are declared by what is added. -/
def Additions.declared (a : Additions) : List String :=
  a.inputs ++ (a.nodes.flatMap fun n => n.name :: n.outputs) ++ a.functions.map Function.name ++
    a.constants.map Initializer.name

/-- The names that a level declares. -/
def Level.declared (l : Level) : List String :=
  l.inputs ++ (l.nodes.flatMap fun n => n.name :: n.outputs) ++ l.functions.map Function.name

/-- A step only appends to what is declared, and keeps the names of functions distinct. -/
structure Builder.Adds (b : Builder) (a : Additions) (b' : Builder) : Prop where
  used : b.names.used ⊆ b'.names.used
  inputs : b'.level.inputs = b.level.inputs ++ a.inputs
  nodes : b'.level.nodes = b.level.nodes ++ a.nodes
  functions : b'.level.functions = b.level.functions ++ a.functions
  constants : b'.initializers.entries = b.initializers.entries ++ a.constants
  distinct : (b.level.functions.map Function.name).Nodup →
    (b'.level.functions.map Function.name).Nodup

/-- A step takes what it adds. -/
structure Builder.Declares (b : Builder) (a : Additions) (b' : Builder) : Prop
    extends b.Adds a b' where
  taken : a.declared ⊆ b'.names.used

namespace Builder.Declares

variable {b b' : Builder} {a : Additions} {x : String}

/-- At most names are taken. -/
theorem nothing (hused : b.names.used ⊆ b'.names.used) (hinputs : b'.level.inputs = b.level.inputs)
    (hnodes : b'.level.nodes = b.level.nodes) (hfunctions : b'.level.functions = b.level.functions)
    (hconstants : b'.initializers = b.initializers) : b.Declares {} b' where
  used := hused
  inputs := by rw [hinputs, List.append_nil]
  nodes := by rw [hnodes, List.append_nil]
  functions := by rw [hfunctions, List.append_nil]
  constants := by rw [hconstants, List.append_nil]
  distinct := by rw [hfunctions]; exact id
  taken := List.nil_subset _

theorem refl (b : Builder) : b.Declares {} b :=
  nothing (List.Subset.refl _) rfl rfl rfl rfl

theorem mem_level (h : b.Declares a b') (hx : x ∈ b'.level.declared) :
    x ∈ b.level.declared ∨ x ∈ b'.names.used := by
  have hadded : x ∈ b.level.declared ∨ x ∈ a.declared := by
    simp only [Level.declared, Additions.declared, h.inputs, h.nodes, h.functions,
      List.flatMap_append, List.map_append, List.mem_append] at hx ⊢
    tauto
  exact hadded.imp_right fun hx => h.taken hx

theorem mem_constants (h : b.Declares a b') (hx : x ∈ b'.initializers.names) :
    x ∈ b.initializers.names ∨ x ∈ b'.names.used := by
  rw [InitializerTable.names, h.constants, List.map_append, List.mem_append] at hx
  exact hx.imp_right fun hx => h.taken (List.mem_append_right _ hx)

end Builder.Declares

/-- The names of functions stay distinct if one with a new name is appended. -/
theorem nodup_names_concat {functions : List Function} {f : Function}
    (hnodup : (functions.map Function.name).Nodup) (hnew : findFunction? functions f.name = none) :
    ((functions ++ [f]).map Function.name).Nodup := by
  rw [List.map_append, List.map_singleton]
  refine hnodup.append (List.nodup_singleton _) (List.disjoint_singleton.2 fun hmem => ?_)
  obtain ⟨g, hg, hname⟩ := List.mem_map.1 hmem
  exact findFunction?_eq_none_iff.1 hnew g hg hname

/-! ## Operations that do all or nothing -/

namespace Build

variable {α : Type} {b : Builder}

/-- The step declares something, which is no constant, or fails and leaves the builder as it was. -/
def AllOrNothing (x : Build α) (b : Builder) : Prop :=
  (∃ e, x b = .error e b) ∨ ∃ r b' a, x b = .ok r b' ∧ b.Declares a b' ∧ a.constants = []

theorem AllOrNothing.left {x : Build α} (h : AllOrNothing x b) :
    ∃ a, b.Declares a (Step.left x b) ∧ a.constants = [] := by
  rcases h with ⟨e, herror⟩ | ⟨r, b', a, hok, hdeclares, hconstants⟩
  · rw [Step.left_of_error herror]
    exact ⟨{}, .refl b, rfl⟩
  · rw [Step.left_of_ok hok]
    exact ⟨a, hdeclares, hconstants⟩

variable (b)

/-- A record is refused, or only the records and the log change. -/
theorem registerRecord_cases (r : ValueRecord) : (∃ e, registerRecord r b = .error e b) ∨
    ∃ records log,
      registerRecord r b = .ok () { b with level := { b.level with records }, log } := by
  unfold registerRecord
  cases reconcile (b.level.record? r.name) r with
  | conflict detail => exact Or.inl ⟨_, rfl⟩
  | _ => exact Or.inr ⟨_, _, rfl⟩

theorem allOrNothing_registerRecord (r : ValueRecord) : AllOrNothing (registerRecord r) b :=
  (registerRecord_cases b r).imp_right fun ⟨_, _, hok⟩ =>
    ⟨_, _, {}, hok, .nothing (List.Subset.refl _) rfl rfl rfl rfl, rfl⟩

theorem allOrNothing_addNode (n : Node) : AllOrNothing (addNode n) b := by
  unfold AllOrNothing addNode
  split_ifs
  · exact Or.inl ⟨_, rfl⟩
  · have hused : ∀ x, x ∈ (n.outputs.foldl NamePool.reserve (b.names.reserve n.name)).used ↔
        x ∈ n.outputs ∨ x = n.name ∨ x ∈ b.names.used := fun x => by
      rw [NamePool.mem_used_foldl_reserve, NamePool.mem_used_reserve]
    refine Or.inr ⟨(), _, { nodes := [n] }, rfl, ⟨⟨fun x hx => (hused x).2 (Or.inr (Or.inr hx)),
      (List.append_nil _).symm, rfl, (List.append_nil _).symm, (List.append_nil _).symm, id⟩,
      fun x hx => (hused x).2 ?_⟩, rfl⟩
    have hname : x = n.name ∨ x ∈ n.outputs := by simpa [Additions.declared] using hx
    exact hname.symm.imp_right Or.inl

theorem allOrNothing_registerFunction (f : Function) : AllOrNothing (registerFunction f) b := by
  unfold AllOrNothing registerFunction
  cases hfind : b.level.function? f.name with
  | some known =>
    dsimp only
    split_ifs
    · exact Or.inr ⟨_, b, {}, rfl, .refl b, rfl⟩
    · exact Or.inl ⟨_, rfl⟩
  | none =>
    refine Or.inr ⟨_, _, { functions := [f] }, rfl,
      ⟨⟨fun x hx => (NamePool.mem_used_reserve _ _ _).2 (Or.inr hx), (List.append_nil _).symm,
        (List.append_nil _).symm, rfl, (List.append_nil _).symm,
        fun hnodup => nodup_names_concat hnodup hfind⟩,
      fun x hx => (NamePool.mem_used_reserve _ _ _).2 (Or.inl ?_)⟩, rfl⟩
    simpa [Additions.declared] using hx

theorem allOrNothing_addFunction (name : String) (sub : Level) (params : List String) :
    AllOrNothing (addFunction name sub params) b := by
  cases hfunction : sub.toFunction name params b.initializers with
  | error e =>
    refine Or.inl ⟨e, ?_⟩
    rw [addFunction, Step.get_bind_eq_error, hfunction]
    rfl
  | ok f =>
    have hregister : addFunction name sub params b = registerFunction f b := by
      rw [addFunction, Step.bind_of_ok (Step.get_eq_ok.2 ⟨rfl, rfl⟩), hfunction]
      rfl
    unfold AllOrNothing
    rw [hregister]
    exact allOrNothing_registerFunction b f

theorem allOrNothing_addCall (function : String) (data params outputs : List String)
    (nodeName displayName : String) :
    AllOrNothing (addCall function data params outputs nodeName displayName) b := by
  unfold AllOrNothing
  rw [addCall, Step.bind_of_ok (Step.get_eq_ok.2 ⟨rfl, rfl⟩)]
  cases b.level.function? function with
  | none => exact Or.inl ⟨_, rfl⟩
  | some f =>
    dsimp only
    split_ifs
    · exact allOrNothing_addNode b _
    · exact Or.inl ⟨_, rfl⟩

/-! ## Operations that write before they fail -/

theorem declares_uniqueName (base : String) : b.Declares {} (Step.left (uniqueName base) b) :=
  .nothing (fun x hx => ((b.names.issues_fresh base).used x).2 (Or.inr hx)) rfl rfl rfl rfl

theorem declares_instanceName (base : String) : b.Declares {} (Step.left (instanceName base) b) :=
  .nothing (fun x hx => ((b.names.issues_freshInstance base).used x).2 (Or.inr hx)) rfl rfl rfl rfl

/-- The input is declared, and then its record is refused or only the records and the log change. -/
theorem addInput_cases (name : String) (shape : List ShapeDim) (dtype : DType) :
    (∃ e, addInput name shape dtype b = .error e { b.reserve name with
      level := { b.level with inputs := b.level.inputs ++ [name] } }) ∨
    ∃ records log, addInput name shape dtype b = .ok () { b.reserve name with
      level := { b.level with inputs := b.level.inputs ++ [name], records }, log } := by
  exact registerRecord_cases
    { b.reserve name with level := { b.level with inputs := b.level.inputs ++ [name] } } _

theorem declares_addInput (name : String) (shape : List ShapeDim) (dtype : DType) :
    b.Declares { inputs := [name] } (Step.left (addInput name shape dtype) b) := by
  have hdeclares : ∀ records log, b.Declares { inputs := [name] } { b.reserve name with
      level := { b.level with inputs := b.level.inputs ++ [name], records }, log } := fun _ _ =>
    ⟨⟨fun x hx => (NamePool.mem_used_reserve _ _ _).2 (Or.inr hx), rfl, (List.append_nil _).symm,
      (List.append_nil _).symm, (List.append_nil _).symm, id⟩,
      fun x hx => (NamePool.mem_used_reserve _ _ _).2 (Or.inl (List.mem_singleton.1 hx))⟩
  rcases addInput_cases b name shape dtype with ⟨e, herror⟩ | ⟨records, log, hok⟩
  · exact Step.left_of_error herror ▸ hdeclares b.level.records b.log
  · exact Step.left_of_ok hok ▸ hdeclares records log

end Build

/-- A name that the table does not have is appended, and one that it has keeps its tensor. -/
theorem InitializerTable.add_cases (table : InitializerTable) (name : String) (tensor : Tensor) :
    table.add name tensor = .ok ⟨table.entries ++ [⟨name, tensor⟩]⟩ ∨
      name ∈ table.names ∧ (table.add name tensor = .ok table ∨
        ∃ e, table.add name tensor = .error e) := by
  unfold add
  cases hget : table.get? name with
  | none => exact Or.inl rfl
  | some old =>
    have hname : name ∈ table.names := by
      by_contra habsent
      cases hget.symm.trans (get?_eq_none_iff.2 habsent)
    dsimp only
    split_ifs
    · exact Or.inr ⟨hname, Or.inl rfl⟩
    · exact Or.inr ⟨hname, Or.inr ⟨_, rfl⟩⟩

namespace Build

variable (b : Builder)

/-- A constant whose name is taken is declared, or the table refuses it. -/
theorem declares_add {pool : NamePool} {name : String} (hused : b.names.used ⊆ pool.used)
    (hname : name ∈ pool.used) (tensor : Tensor) :
    (∃ table a, b.initializers.add name tensor = .ok table ∧
      b.Declares a { b with names := pool, initializers := table }) ∨
    ∃ e, b.initializers.add name tensor = .error e := by
  rcases b.initializers.add_cases name tensor with hadd | ⟨-, hadd | hadd⟩
  · refine Or.inl ⟨_, { constants := [⟨name, tensor⟩] }, hadd, ⟨⟨hused, (List.append_nil _).symm,
      (List.append_nil _).symm, (List.append_nil _).symm, rfl, id⟩, fun x hx => ?_⟩⟩
    exact List.mem_singleton.1 hx ▸ hname
  · exact Or.inl ⟨_, {}, hadd, .nothing hused rfl rfl rfl rfl⟩
  · exact Or.inr hadd

theorem declares_addInitializer (name : String) (tensor : Tensor) :
    ∃ a, b.Declares a (Step.left (addInitializer name tensor) b) := by
  have hused : b.names.used ⊆ (b.names.reserve name).used := fun x hx =>
    (NamePool.mem_used_reserve _ _ _).2 (Or.inr hx)
  have hname : name ∈ (b.names.reserve name).used :=
    (NamePool.mem_used_reserve _ _ _).2 (Or.inl rfl)
  unfold Step.left addInitializer
  dsimp only [Builder.reserve]
  rcases declares_add b hused hname tensor with ⟨table, a, hadd, hdeclares⟩ | ⟨e, hadd⟩
  · rw [hadd]
    exact ⟨a, hdeclares⟩
  · rw [hadd]
    exact ⟨{}, .nothing hused rfl rfl rfl rfl⟩

theorem declares_addConstant (base : String) (tensor : Tensor) :
    ∃ a, b.Declares a (Step.left (addConstant base tensor) b) := by
  have hissues := b.names.issues_fresh base
  have hused : b.names.used ⊆ (b.names.fresh base).2.used := fun x hx =>
    (hissues.used x).2 (Or.inr hx)
  have hname : (b.names.fresh base).1 ∈ (b.names.fresh base).2.used :=
    (hissues.used _).2 (Or.inl rfl)
  unfold Step.left addConstant
  cases b.initializers.find? tensor with
  | some name => exact ⟨{}, .refl b⟩
  | none =>
    dsimp only
    rcases declares_add b hused hname tensor with ⟨table, a, hadd, hdeclares⟩ | ⟨e, hadd⟩
    · rw [hadd]
      exact ⟨a, hdeclares⟩
    · rw [hadd]
      exact ⟨{}, .nothing hused rfl rfl rfl rfl⟩

end Build

/-- An action takes what it declares, and only two actions add constants. -/
theorem Action.declares_leave (action : Action) (b : Builder) :
    ∃ a, b.Declares a (action.leave b) ∧ (action.addsConstant = false → a.constants = []) := by
  have hkeeps : ∀ {α : Type} {x : Build α}, Build.AllOrNothing x b →
      ∃ a, b.Declares a (Step.left x b) ∧ (action.addsConstant = false → a.constants = []) :=
    fun h => h.left.imp fun _ h => ⟨h.1, fun _ => h.2⟩
  cases action with
  | uniqueName base => exact ⟨_, Build.declares_uniqueName b base, fun _ => rfl⟩
  | instanceName base => exact ⟨_, Build.declares_instanceName b base, fun _ => rfl⟩
  | addInput name shape dtype => exact ⟨_, Build.declares_addInput b name shape dtype, fun _ => rfl⟩
  | addOutput name => exact ⟨{}, .nothing (List.Subset.refl _) rfl rfl rfl rfl, fun _ => rfl⟩
  | addNode n => exact hkeeps (Build.allOrNothing_addNode b n)
  | addInitializer name tensor =>
    exact (Build.declares_addInitializer b name tensor).imp fun _ h => ⟨h, nofun⟩
  | addConstant base tensor =>
    exact (Build.declares_addConstant b base tensor).imp fun _ h => ⟨h, nofun⟩
  | registerRecord r => exact hkeeps (Build.allOrNothing_registerRecord b r)
  | registerFunction f => exact hkeeps (Build.allOrNothing_registerFunction b f)
  | addFunction name sub params => exact hkeeps (Build.allOrNothing_addFunction b name sub params)
  | addCall function data params outputs nodeName displayName =>
    exact hkeeps (Build.allOrNothing_addCall b function data params outputs nodeName displayName)

/-! ## Merging functions -/

/-- Does a known function with the name of this one have another body? -/
def Function.Clashes (known : List Function) (f : Function) : Prop :=
  ∃ g, findFunction? known f.name = some g ∧ g.sameBody f = false

/-- No function clashes with the known ones or with those before it. -/
def ClashFree (known functions : List Function) : Prop :=
  ∀ before f after, functions = before ++ f :: after → ¬f.Clashes (known ++ before)

/-- The functions whose names are not known, each name once. -/
def newFunctions (known functions : List Function) : List Function :=
  (functions.filter fun f => (findFunction? known f.name).isNone).eraseDupsBy
    fun f g => f.name == g.name

/-- The builder after merging functions that do not clash. -/
def Builder.merged (b : Builder) (functions : List Function) : Builder :=
  let new := newFunctions b.level.functions functions
  { b with
    level := { b.level with functions := b.level.functions ++ new }
    log := b.log ++ new.map fun f =>
      ⟨.debug, b.level.name ++ ": " ++ ("propagated nested function " ++ f.name)⟩ }

section Merging

variable {known rest : List Function} {f g : Function}

theorem newFunctions_cons_of_known (h : findFunction? known f.name = some g) :
    newFunctions known (f :: rest) = newFunctions known rest := by
  simp [newFunctions, h]

theorem newFunctions_cons_of_new (h : findFunction? known f.name = none) :
    newFunctions known (f :: rest) = f :: newFunctions (known ++ [f]) rest := by
  have habsent : ∀ g : Function, (findFunction? (known ++ [f]) g.name).isNone =
      (decide ((g.name == f.name) = false) && (findFunction? known g.name).isNone) := fun g => by
    rw [findFunction?, List.find?_append, ← findFunction?]
    by_cases hname : g.name = f.name
    · simp [hname]
    · have hne : (f.name == g.name) = false := by simpa using Ne.symm hname
      simp [hname, hne]
  rw [newFunctions, List.filter_cons_of_pos (by simp [h]), List.eraseDupsBy_cons,
    List.filter_filter, newFunctions]
  simp only [habsent]

/-- The new functions are some of the given ones, and names stay distinct with them. -/
theorem newFunctions_spec (known functions : List Function) :
    newFunctions known functions ⊆ functions ∧ ((known.map Function.name).Nodup →
      ((known ++ newFunctions known functions).map Function.name).Nodup) := by
  induction functions generalizing known with
  | nil => simp [newFunctions]
  | cons f rest ih =>
    cases hfind : findFunction? known f.name with
    | some g =>
      rw [newFunctions_cons_of_known hfind]
      exact ⟨List.subset_cons_of_subset f (ih known).1, (ih known).2⟩
    | none =>
      obtain ⟨hsubset, hdistinct⟩ := ih (known ++ [f])
      rw [newFunctions_cons_of_new hfind]
      refine ⟨List.cons_subset_cons f hsubset, fun hnodup => ?_⟩
      simpa using hdistinct (nodup_names_concat hnodup hfind)

/-- A function behind a known one with its name is never found. -/
theorem clashes_append_cons_of_known (h : findFunction? known f.name = some g) {x : Function} :
    x.Clashes (known ++ f :: rest) ↔ x.Clashes (known ++ rest) := by
  have hfind : findFunction? (known ++ f :: rest) x.name =
      findFunction? (known ++ rest) x.name := by
    simp only [findFunction?, List.find?_append, List.find?_cons] at h ⊢
    by_cases hname : f.name = x.name
    · rw [← hname, h, Option.some_or, Option.some_or]
    · have hne : (f.name == x.name) = false := by simpa using hname
      rw [hne]
  rw [Function.Clashes, Function.Clashes, hfind]

theorem ClashFree.cons (hf : ¬f.Clashes known) (h : ClashFree (known ++ [f]) rest) :
    ClashFree known (f :: rest) := by
  intro before x after heq
  cases before with
  | nil =>
    obtain ⟨rfl, -⟩ := List.cons.inj heq
    simpa using hf
  | cons y before =>
    obtain ⟨rfl, hrest⟩ := List.cons.inj heq
    simpa using h before x after hrest

theorem clashFree_nil : ClashFree known [] := by
  intro before x after heq
  simp at heq

/-- A known function with the same body does not count. -/
theorem ClashFree.cons_of_known (h : findFunction? known f.name = some g)
    (hsame : g.sameBody f = true) (hrest : ClashFree known rest) : ClashFree known (f :: rest) := by
  refine .cons ?_ fun before x after heq => ?_
  · rintro ⟨g', hg', hdiffers⟩
    obtain rfl := Option.some.inj (h.symm.trans hg')
    simp [hsame] at hdiffers
  · rw [List.append_assoc, List.singleton_append, clashes_append_cons_of_known h]
    exact hrest before x after heq

theorem Builder.merged_nil (b : Builder) : b.merged [] = b := by
  simp [merged, newFunctions]

theorem Builder.merged_cons_of_known {b : Builder} (h : b.level.function? f.name = some g) :
    b.merged (f :: rest) = b.merged rest := by
  rw [merged, newFunctions_cons_of_known h, merged]

theorem Builder.merged_cons_of_new {b : Builder} (h : b.level.function? f.name = none) :
    b.merged (f :: rest) = ((b.sayHere .debug
      ("propagated nested function " ++ f.name)).pushFunction f).merged rest := by
  rw [merged, newFunctions_cons_of_new h]
  simp [merged, sayHere, say, pushFunction]

/-- Merging adds functions only. -/
theorem Builder.adds_merged (b : Builder) (functions : List Function) :
    b.Adds { functions := newFunctions b.level.functions functions } (b.merged functions) where
  used := List.Subset.refl _
  inputs := (List.append_nil _).symm
  nodes := (List.append_nil _).symm
  functions := rfl
  constants := (List.append_nil _).symm
  distinct := (newFunctions_spec b.level.functions functions).2

end Merging

namespace Build

variable {b : Builder} {f : Function}

theorem mergeFunctions_cons_of_known {known : Function} (rest : List Function)
    (h : b.level.function? f.name = some known) : mergeFunctions (f :: rest) b =
      if known.sameBody f then mergeFunctions rest b
      else .error (.duplicate "function" f.name) b := by
  rw [mergeFunctions, Step.bind_of_ok (Step.get_eq_ok.2 ⟨rfl, rfl⟩), h]
  dsimp only
  split_ifs <;> rfl

theorem mergeFunctions_cons_of_new (rest : List Function) (h : b.level.function? f.name = none) :
    mergeFunctions (f :: rest) b = mergeFunctions rest
      ((b.sayHere .debug ("propagated nested function " ++ f.name)).pushFunction f) := by
  rw [mergeFunctions, Step.bind_of_ok (Step.get_eq_ok.2 ⟨rfl, rfl⟩), h]
  rfl

/-- Merging appends the new functions up to the first one that clashes, where it fails. -/
theorem mergeFunctions_spec (functions : List Function) (b : Builder) :
    ∃ before, ClashFree b.level.functions before ∧
      (functions = before ∧ mergeFunctions functions b = .ok () (b.merged before) ∨
        ∃ f after, functions = before ++ f :: after ∧ f.Clashes (b.level.functions ++ before) ∧
          mergeFunctions functions b =
            .error (.duplicate "function" f.name) (b.merged before)) := by
  induction functions generalizing b with
  | nil => exact ⟨[], clashFree_nil, Or.inl ⟨rfl, by rw [b.merged_nil]; rfl⟩⟩
  | cons f rest ih =>
    cases hfind : b.level.function? f.name with
    | some known =>
      rw [mergeFunctions_cons_of_known rest hfind]
      split_ifs with hsame
      · obtain ⟨before, hfree, hmerge⟩ := ih b
        refine ⟨f :: before, hfree.cons_of_known hfind hsame, ?_⟩
        rw [Builder.merged_cons_of_known hfind]
        refine hmerge.imp (And.imp_left fun heq => by rw [heq]) ?_
        rintro ⟨g, after, rfl, hclash, herror⟩
        exact ⟨g, after, rfl, (clashes_append_cons_of_known hfind).2 hclash, herror⟩
      · have hclash : f.Clashes (b.level.functions ++ []) := by
          rw [List.append_nil]
          exact ⟨known, hfind, by simpa using hsame⟩
        exact ⟨[], clashFree_nil, Or.inr ⟨f, rest, rfl, hclash, by rw [b.merged_nil]⟩⟩
    | none =>
      obtain ⟨before, hfree, hmerge⟩ :=
        ih ((b.sayHere .debug ("propagated nested function " ++ f.name)).pushFunction f)
      have hnew : ¬f.Clashes b.level.functions := by
        rintro ⟨g, hg, -⟩
        cases hfind.symm.trans hg
      refine ⟨f :: before, .cons hnew hfree, ?_⟩
      rw [mergeFunctions_cons_of_new rest hfind, Builder.merged_cons_of_new hfind]
      refine hmerge.imp (And.imp_left fun heq => by rw [heq]) ?_
      rintro ⟨g, after, rfl, hclash, herror⟩
      refine ⟨g, after, rfl, ?_, herror⟩
      simpa [Builder.pushFunction, Builder.sayHere, Builder.say] using hclash

/-- Merging adds some of the functions and nothing else, whether it succeeds or fails. -/
theorem adds_mergeFunctions (functions : List Function) (b : Builder) :
    ∃ new, new ⊆ functions ∧
      b.Adds { functions := new } (Step.left (mergeFunctions functions) b) := by
  obtain ⟨before, -, hmerge⟩ := mergeFunctions_spec functions b
  have hadds := b.adds_merged before
  have hsubset := (newFunctions_spec b.level.functions before).1
  rcases hmerge with ⟨rfl, hok⟩ | ⟨f, after, rfl, -, herror⟩
  · rw [Step.left_of_ok hok]
    exact ⟨_, hsubset, hadds⟩
  · rw [Step.left_of_error herror]
    exact ⟨_, List.Subset.trans hsubset (List.subset_append_left _ _), hadds⟩

/-- Functions with names that are taken are declared by merging them. -/
theorem declares_mergeFunctions {functions : List Function} {b : Builder}
    (h : ∀ f ∈ functions, f.name ∈ b.names.used) :
    ∃ a, b.Declares a (Step.left (mergeFunctions functions) b) := by
  obtain ⟨new, hnew, hadds⟩ := adds_mergeFunctions functions b
  refine ⟨_, hadds, fun x hx => ?_⟩
  obtain ⟨f, hf, rfl⟩ : ∃ f ∈ new, f.name = x := by simpa [Additions.declared] using hx
  exact hadds.used (h f (hnew hf))

end Build

end TensorGraph
