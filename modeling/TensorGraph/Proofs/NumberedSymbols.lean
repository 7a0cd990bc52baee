import Mathlib.Data.List.Forall2
import Mathlib.Data.List.Nodup
import TensorGraph.Proofs.Shared
import TensorGraph.Shape.Spec

/-!
# Numbers of symbols and their names

The symbols of declared inputs are numbered in the order of their first occurrence, and the index
beside the names says where a search through them ends (`SymbolTable.Lists`). So the types of inputs
are the declared shapes with the place of each name in place of the name
(`InputSpec.types_abstractAll`).

A place is kept as a 32-bit word. The word of a place is a place too, so the shapes of inputs can
always be rendered (`InputSpec.isSome_renderShape?_abstractAll`). Up to `2 ^ 32` names no word wraps
around, and then rendering undoes numbering (`InputSpec.numbers_abstractAll`).
-/

namespace TensorGraph

/-! ## Shapes that can be rendered -/

namespace SymbolTable

variable {symbols : SymbolTable}

theorem isSome_renderShape?_iff {type : AbstractValue} :
    (symbols.renderShape? type).isSome ↔ ∀ d ∈ type.shape, (symbols.renderDim? d).isSome := by
  obtain ⟨shape, dtype⟩ := type
  simp only [renderShape?]
  induction shape with
  | nil => simp
  | cons d shape ih =>
    rw [List.forall_mem_cons, ← ih, List.mapM_cons]
    cases symbols.renderDim? d <;> cases shape.mapM symbols.renderDim? <;> simp

theorem forall₂_of_renderShape? {type : AbstractValue} {shape : List ShapeDim}
    (h : symbols.renderShape? type = some shape) :
    List.Forall₂ (fun d s => symbols.renderDim? d = some s) type.shape shape := by
  obtain ⟨dims, dtype⟩ := type
  simp only [renderShape?] at h
  induction dims generalizing shape with
  | nil =>
    obtain rfl : shape = [] := by simpa [eq_comm] using h
    exact .nil
  | cons d dims ih =>
    simp only [List.mapM_cons, Option.bind_eq_bind, Option.pure_def, Option.bind_eq_some_iff,
      Option.some.injEq] at h
    obtain ⟨x, hx, rest, hrest, rfl⟩ := h
    exact .cons hx (ih hrest)

theorem renderShape?_of_forall {shape : List DimSpec} {dtype : DType} {f : DimSpec → Dim}
    {g : DimSpec → ShapeDim} (h : ∀ d ∈ shape, symbols.renderDim? (f d) = some (g d)) :
    symbols.renderShape? ⟨shape.map f, dtype⟩ = some (shape.map g) := by
  induction shape with
  | nil => rfl
  | cons d shape ih =>
    rw [List.forall_mem_cons] at h
    have hrest := ih h.2
    simp only [renderShape?] at hrest
    simp [renderShape?, h.1, hrest]

theorem renderDim?_symbolic_eq_none_iff {id : UInt32} :
    symbols.renderDim? (.symbolic id) = none ↔ symbols.names.length ≤ id.toNat := by
  simp [renderDim?, name?]

end SymbolTable

/-! ## Numbering -/

/-- The name of an entry that is a symbol. -/
def DimSpec.symbol? : DimSpec → Option String
  | .fixed _ => none
  | .symbol name => some name

/-- All occurrences of symbols in declared inputs, from the first to the last. -/
def InputSpec.occurrences (specs : List InputSpec) : List String :=
  specs.flatMap fun spec => spec.shape.filterMap DimSpec.symbol?

namespace SymbolTable

variable {table table' : SymbolTable} {seen : List String}

/-- The table has the names that were seen, in the order of their first occurrence, and the number
of a name is its place as a word. -/
structure Lists (table : SymbolTable) (seen : List String) : Prop where
  names : table.names = seen.eraseDups
  lookup?_eq : ∀ s, table.lookup? s =
    if s ∈ table.names then some (.ofNat (table.names.idxOf s)) else none

/-- The dimension of a declared entry, with the place of its name as its number. -/
def dimOf (table : SymbolTable) : DimSpec → Dim
  | .fixed n => .known n
  | .symbol s => .symbolic (.ofNat (table.names.idxOf s))

theorem dimOf_mono (h : table.names <+: table'.names) {s : String} (hs : s ∈ table.names) :
    table'.dimOf (.symbol s) = table.dimOf (.symbol s) := by
  obtain ⟨more, hmore⟩ := h
  rw [dimOf, dimOf, ← hmore, List.idxOf_append_of_mem hs]

namespace Lists

theorem empty : SymbolTable.empty.Lists [] :=
  ⟨rfl, fun _ => rfl⟩

theorem mem_names (h : table.Lists seen) {s : String} : s ∈ table.names ↔ s ∈ seen := by
  rw [h.names, List.mem_eraseDups]

/-- A name that goes on keeps its place. -/
theorem names_isPrefix (h : table.Lists seen) {more : List String}
    (h' : table'.Lists (seen ++ more)) :
    table.names <+: table'.names := by
  rw [h.names, h'.names, List.eraseDups_append]
  exact List.prefix_append _ _

theorem push (h : table.Lists seen) {s : String} (hs : s ∉ table.names) :
    (table.push s).Lists (seen ++ [s]) where
  names := by
    rw [eraseDups_concat, if_neg (h.mem_names.not.1 hs), ← h.names]
    rfl
  lookup?_eq x := by
    have hpush : (table.push s).lookup? x =
        if x = s then some table.next else table.lookup? x := by
      simp only [lookup?, SymbolTable.push, List.lookup_cons]
      by_cases hx : x = s
      · simp [hx]
      · have hne : (x == s) = false := by simpa using hx
        simp [hx, hne]
    have hnames : (table.push s).names = table.names ++ [s] := rfl
    rw [hpush, hnames]
    by_cases hx : x = s
    · subst hx
      simp [next, List.idxOf_append_of_notMem hs]
    · rw [if_neg hx, h.lookup?_eq x]
      by_cases hmem : x ∈ table.names
      · simp [hmem, List.idxOf_append_of_mem hmem]
      · simp [hmem, hx]

/-- To number a name adds it if it is new, and gives the word of its place. -/
theorem intern (h : table.Lists seen) (s : String) : (table.intern s).1.Lists (seen ++ [s]) ∧
    .symbolic (table.intern s).2 = (table.intern s).1.dimOf (.symbol s) := by
  unfold SymbolTable.intern
  rw [h.lookup?_eq s]
  by_cases hs : s ∈ table.names
  · rw [if_pos hs]
    refine ⟨⟨?_, h.lookup?_eq⟩, rfl⟩
    rw [eraseDups_concat, if_pos (h.mem_names.1 hs), h.names]
  · rw [if_neg hs]
    refine ⟨h.push hs, ?_⟩
    simp [dimOf, next, SymbolTable.push, List.idxOf_append_of_notMem hs]

/-- To number the symbols of a shape gives the places of their names, which any table that goes on
from there has. -/
theorem abstractShape (h : table.Lists seen) (shape : List DimSpec) :
    (table.abstractShape shape).1.Lists (seen ++ shape.filterMap DimSpec.symbol?) ∧
      ∀ table' : SymbolTable, (table.abstractShape shape).1.names <+: table'.names →
        (table.abstractShape shape).2 = shape.map table'.dimOf := by
  induction shape generalizing table seen with
  | nil => exact ⟨by simpa [SymbolTable.abstractShape] using h, fun _ _ => rfl⟩
  | cons entry shape ih =>
    cases entry with
    | fixed n =>
      obtain ⟨hlists, hdims⟩ := ih h
      exact ⟨hlists, fun table' h' => congrArg (Dim.known n :: ·) (hdims table' h')⟩
    | symbol s =>
      obtain ⟨hintern, hnumber⟩ := h.intern s
      obtain ⟨hlists, hdims⟩ := ih hintern
      refine ⟨by simpa [DimSpec.symbol?, SymbolTable.abstractShape] using hlists,
        fun table' h' => ?_⟩
      have hs : s ∈ (table.intern s).1.names := hintern.mem_names.2 (by simp)
      have hnumber' : .symbolic (table.intern s).2 = table'.dimOf (.symbol s) :=
        hnumber.trans (dimOf_mono ((hintern.names_isPrefix hlists).trans h') hs).symm
      rw [List.map_cons, ← hnumber', ← hdims table' h']
      rfl

theorem abstractSpecs (h : table.Lists seen) (specs : List InputSpec) :
    (table.abstractSpecs specs).1.Lists (seen ++ InputSpec.occurrences specs) ∧
      ∀ table' : SymbolTable, (table.abstractSpecs specs).1.names <+: table'.names →
        (table.abstractSpecs specs).2 =
          specs.map fun spec => ⟨spec.shape.map table'.dimOf, spec.dtype⟩ := by
  induction specs generalizing table seen with
  | nil =>
    exact ⟨by simpa [SymbolTable.abstractSpecs, InputSpec.occurrences] using h, fun _ _ => rfl⟩
  | cons spec specs ih =>
    obtain ⟨hshape, hdims⟩ := h.abstractShape spec.shape
    obtain ⟨hlists, htypes⟩ := ih hshape
    refine ⟨?_, fun table' h' => ?_⟩
    · rw [InputSpec.occurrences, List.flatMap_cons, ← List.append_assoc]
      exact hlists
    · rw [List.map_cons, ← hdims table' ((hshape.names_isPrefix hlists).trans h'),
        ← htypes table' h']
      rfl

/-- The word of a place is a place, if not the same one. -/
theorem isSome_renderDim?_dimOf {d : DimSpec} (hd : ∀ s, d = .symbol s → s ∈ table.names) :
    (table.renderDim? (table.dimOf d)).isSome := by
  cases d with
  | fixed n => rfl
  | symbol s =>
    have hplace := List.idxOf_lt_length_iff.2 (hd s rfl)
    rw [Option.isSome_iff_ne_none, dimOf, ne_eq, renderDim?_symbolic_eq_none_iff, Nat.not_le,
      UInt32.toNat_ofNat']
    exact Nat.lt_of_le_of_lt (Nat.mod_le _ _) hplace

end Lists

end SymbolTable

namespace InputSpec

variable {specs : List InputSpec}

/-- Is the name one of the symbols that the inputs are declared with? -/
def IsDeclared (specs : List InputSpec) (s : String) : Prop :=
  ∃ spec ∈ specs, .symbol s ∈ spec.shape

theorem mem_occurrences {s : String} : s ∈ occurrences specs ↔ IsDeclared specs s := by
  have hsymbol : ∀ d : DimSpec, d.symbol? = some s ↔ d = .symbol s := fun d => by
    cases d <;> simp [DimSpec.symbol?]
  simp [occurrences, IsDeclared, hsymbol]

theorem lists_abstractAll (specs : List InputSpec) :
    (abstractAll specs).1.Lists (occurrences specs) :=
  (SymbolTable.Lists.empty.abstractSpecs specs).1

/-- The types of inputs are the declared shapes with names replaced by their places. -/
theorem types_abstractAll (specs : List InputSpec) : (abstractAll specs).2 =
    specs.map fun spec => ⟨spec.shape.map (abstractAll specs).1.dimOf, spec.dtype⟩ :=
  (SymbolTable.Lists.empty.abstractSpecs specs).2 _ (List.prefix_refl _)

theorem nodup_names_abstractAll (specs : List InputSpec) : (abstractAll specs).1.names.Nodup :=
  (lists_abstractAll specs).names ▸ nodup_eraseDups _

theorem mem_names_abstractAll {s : String} :
    s ∈ (abstractAll specs).1.names ↔ IsDeclared specs s := by
  rw [(lists_abstractAll specs).mem_names, mem_occurrences]

/-- The shapes of declared inputs can be rendered. -/
theorem isSome_renderShape?_abstractAll (specs : List InputSpec) :
    ∀ type ∈ (abstractAll specs).2, ((abstractAll specs).1.renderShape? type).isSome := by
  intro type htype
  rw [types_abstractAll] at htype
  obtain ⟨spec, hspec, rfl⟩ := List.mem_map.1 htype
  refine SymbolTable.isSome_renderShape?_iff.2 fun d hd => ?_
  obtain ⟨entry, hentry, rfl⟩ := List.mem_map.1 hd
  refine SymbolTable.Lists.isSome_renderDim?_dimOf fun s hs => ?_
  exact mem_names_abstractAll.2 ⟨spec, hspec, hs ▸ hentry⟩

end InputSpec

/-! ## Numbers that do not wrap around -/

/-- A declared entry as a dimension of the graph. -/
def DimSpec.rendered : DimSpec → ShapeDim
  | .fixed n => .fixed n
  | .symbol s => .named s

namespace SymbolTable

variable {table : SymbolTable} (hfew : table.names.length ≤ Nat.pow 2 32) {s : String}
include hfew

theorem toNat_ofNat_idxOf (hs : s ∈ table.names) :
    (UInt32.ofNat (table.names.idxOf s)).toNat = table.names.idxOf s :=
  UInt32.toNat_ofNat_of_lt' (Nat.lt_of_lt_of_le (List.idxOf_lt_length_iff.2 hs) hfew)

theorem name?_ofNat_idxOf (hs : s ∈ table.names) :
    table.name? (.ofNat (table.names.idxOf s)) = some s := by
  rw [name?, toNat_ofNat_idxOf hfew hs, List.getElem?_eq_getElem (List.idxOf_lt_length_iff.2 hs),
    List.getElem_idxOf]

theorem renderDim?_dimOf {d : DimSpec} (hd : ∀ s, d = .symbol s → s ∈ table.names) :
    table.renderDim? (table.dimOf d) = some d.rendered := by
  cases d with
  | fixed n => rfl
  | symbol s => rw [dimOf, renderDim?, name?_ofNat_idxOf hfew (hd s rfl)]; rfl

/-- The name of a symbol is the one whose place is its number. -/
theorem name?_eq_some_iff (hnodup : table.names.Nodup) {id : UInt32} :
    table.name? id = some s ↔ s ∈ table.names ∧ id = .ofNat (table.names.idxOf s) := by
  constructor
  · intro h
    obtain ⟨hid, rfl⟩ := List.getElem?_eq_some_iff.1 h
    exact ⟨List.getElem_mem hid, by rw [hnodup.idxOf_getElem, UInt32.ofNat_toNat]⟩
  · rintro ⟨hs, rfl⟩
    exact name?_ofNat_idxOf hfew hs

end SymbolTable

namespace InputSpec

/-- The entry at place `j` of input `i`. -/
def entryAt? (specs : List InputSpec) (i j : Nat) : Option DimSpec :=
  specs[i]?.bind (·.shape[j]?)

end InputSpec

/-- The dimension at place `j` of value `i`. -/
def AbstractValue.dimAt? (values : List AbstractValue) (i j : Nat) : Option Dim :=
  values[i]?.bind (·.shape[j]?)

/-- The types `values` are those of the inputs `specs`, with symbols numbered by the table. -/
structure SymbolTable.Numbers (table : SymbolTable) (specs : List InputSpec)
    (values : List AbstractValue) : Prop where
  /-- One type for each input, of its element type and rank, and rendered as declared. -/
  types : List.Forall₂ (fun spec value => value.dtype = spec.dtype ∧
    value.shape.length = spec.shape.length ∧
    table.renderShape? value = some (spec.shape.map DimSpec.rendered)) specs values
  /-- Wherever two names are declared, there are two symbols, the same one for the same name
  only. -/
  same_iff : ∀ i j i' j' s s', InputSpec.entryAt? specs i j = some (.symbol s) →
    InputSpec.entryAt? specs i' j' = some (.symbol s') →
    ∃ id id', AbstractValue.dimAt? values i j = some (.symbolic id) ∧
      AbstractValue.dimAt? values i' j' = some (.symbolic id') ∧ (id = id' ↔ s = s')
  /-- The names stand in the order of their first occurrence. -/
  names_eq : table.names = (InputSpec.occurrences specs).eraseDups
  /-- The numbers are those of the places in the table. -/
  issued_iff : ∀ id, (∃ value ∈ values, .symbolic id ∈ value.shape) ↔
    id.toNat < table.names.length
  /-- A name is that of the symbol it is found as. -/
  name_iff_lookup : ∀ id s, table.name? id = some s ↔ table.lookup? s = some id
  /-- Only what no type has cannot be rendered. -/
  unnamed_iff : ∀ id, table.renderDim? (.symbolic id) = none ↔
    ∀ value ∈ values, .symbolic id ∉ value.shape

namespace InputSpec

variable {specs : List InputSpec}

/-- Where a name is declared, there is the symbol with the place of the name. -/
theorem dimAt?_of_symbol {i j : Nat} {s : String} (h : entryAt? specs i j = some (.symbol s)) :
    AbstractValue.dimAt? (abstractAll specs).2 i j =
      some (.symbolic (.ofNat ((abstractAll specs).1.names.idxOf s))) := by
  obtain ⟨spec, hspec, hentry⟩ := Option.bind_eq_some_iff.1 h
  rw [types_abstractAll, AbstractValue.dimAt?, List.getElem?_map, hspec, Option.map_some,
    Option.bind_some, List.getElem?_map, hentry]
  rfl

theorem mem_names_of_entryAt? {i j : Nat} {s : String}
    (h : entryAt? specs i j = some (.symbol s)) : s ∈ (abstractAll specs).1.names := by
  obtain ⟨spec, hspec, hentry⟩ := Option.bind_eq_some_iff.1 h
  exact mem_names_abstractAll.2
    ⟨spec, List.mem_of_getElem? hspec, List.mem_of_getElem? hentry⟩

theorem length_names_abstractAll (hfew : (occurrences specs).eraseDups.length ≤ Nat.pow 2 32) :
    (abstractAll specs).1.names.length ≤ Nat.pow 2 32 :=
  (lists_abstractAll specs).names ▸ hfew

/-- The types of inputs are rendered as they were declared. -/
theorem renders_abstractAll (hfew : (occurrences specs).eraseDups.length ≤ Nat.pow 2 32) :
    List.Forall₂ (fun spec type => (abstractAll specs).1.renderShape? type =
      some (spec.shape.map DimSpec.rendered) ∧ type.dtype = spec.dtype)
      specs (abstractAll specs).2 := by
  rw [types_abstractAll, List.forall₂_map_right_iff, List.forall₂_same]
  refine fun spec hspec => ⟨SymbolTable.renderShape?_of_forall fun d hd => ?_, rfl⟩
  exact SymbolTable.renderDim?_dimOf (length_names_abstractAll hfew) fun s hs =>
    mem_names_abstractAll.2 ⟨spec, hspec, hs ▸ hd⟩

theorem issued_abstractAll (hfew : (occurrences specs).eraseDups.length ≤ Nat.pow 2 32)
    (id : UInt32) : (∃ value ∈ (abstractAll specs).2, .symbolic id ∈ value.shape) ↔
      id.toNat < (abstractAll specs).1.names.length := by
  constructor
  · rintro ⟨value, hvalue, hid⟩
    have hrender := SymbolTable.isSome_renderShape?_iff.1
      (isSome_renderShape?_abstractAll specs value hvalue) _ hid
    simpa [SymbolTable.renderDim?, SymbolTable.name?] using hrender
  · intro hid
    -- The name in this place is declared somewhere, and is numbered there by its place.
    have hname := (SymbolTable.name?_eq_some_iff (length_names_abstractAll hfew)
      (nodup_names_abstractAll specs)).1 (List.getElem?_eq_getElem hid)
    obtain ⟨spec, hspec, hentry⟩ := mem_names_abstractAll.1 hname.1
    rw [types_abstractAll]
    refine ⟨_, List.mem_map_of_mem hspec, List.mem_map.2 ⟨_, hentry, ?_⟩⟩
    exact congrArg Dim.symbolic hname.2.symm

/-- Rendering undoes numbering. Inputs with at most `2 ^ 32` names are numbered in the order of
their first occurrence, one number for each name, and are rendered as they were declared. -/
theorem numbers_abstractAll (hfew : (occurrences specs).eraseDups.length ≤ Nat.pow 2 32) :
    (abstractAll specs).1.Numbers specs (abstractAll specs).2 := by
  have hlength := length_names_abstractAll hfew
  have hnodup := nodup_names_abstractAll specs
  constructor
  case types =>
    refine (renders_abstractAll hfew).imp fun spec value hvalue => ⟨hvalue.2, ?_, hvalue.1⟩
    rw [(SymbolTable.forall₂_of_renderShape? hvalue.1).length_eq, List.length_map]
  case same_iff =>
    intro i j i' j' s s' hs hs'
    refine ⟨_, _, dimAt?_of_symbol hs, dimAt?_of_symbol hs', fun h => ?_, fun h => by rw [h]⟩
    have hname := SymbolTable.name?_ofNat_idxOf hlength (mem_names_of_entryAt? hs)
    have hname' := SymbolTable.name?_ofNat_idxOf hlength (mem_names_of_entryAt? hs')
    exact Option.some.inj (hname.symm.trans (h ▸ hname'))
  case names_eq => exact (lists_abstractAll specs).names
  case issued_iff => exact issued_abstractAll hfew
  case name_iff_lookup =>
    intro id s
    rw [SymbolTable.name?_eq_some_iff hlength hnodup, (lists_abstractAll specs).lookup?_eq]
    by_cases hs : s ∈ (abstractAll specs).1.names
    · simp [hs, eq_comm]
    · simp [hs]
  case unnamed_iff =>
    intro id
    rw [SymbolTable.renderDim?_symbolic_eq_none_iff, ← Nat.not_lt, ← issued_abstractAll hfew]
    simp only [not_exists, not_and]

end InputSpec

/-- Two inputs that share two of their three symbols. -/
def Example.sharedSymbols : List InputSpec :=
  [⟨[.symbol "B", .fixed 4, .symbol "N"], .f32⟩,
    ⟨[.symbol "N", .symbol "M", .symbol "B"], .i64⟩]

theorem numbers_abstractAll_sharedSymbols :
    (InputSpec.occurrences Example.sharedSymbols).eraseDups.length ≤ Nat.pow 2 32 ∧
      (InputSpec.abstractAll Example.sharedSymbols).1.Numbers Example.sharedSymbols
        [⟨[.symbolic 0, .known 4, .symbolic 1], .f32⟩,
          ⟨[.symbolic 1, .symbolic 2, .symbolic 0], .i64⟩] := by
  have hfew : (InputSpec.occurrences Example.sharedSymbols).eraseDups.length ≤ Nat.pow 2 32 := by
    decide
  exact ⟨hfew, InputSpec.numbers_abstractAll hfew⟩

end TensorGraph
