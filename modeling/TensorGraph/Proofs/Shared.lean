import Mathlib.Data.List.Nodup
import TensorGraph.Builder.Level

/-!
# What the levels of a conversion share

All levels draw on one set of taken names, one table of constants and one list of functions. These
only grow (`Shared.Le`) : constants and functions stay at their places, and a name that is taken
never becomes the name of a new constant (`Shared.Le.not_mem_names`).
-/

namespace TensorGraph

/-! ## Names in the order of their first occurrence -/

theorem nodup_eraseDups : ∀ names : List String, names.eraseDups.Nodup
  | [] => by simp
  | x :: rest => by
    rw [List.eraseDups_cons, List.nodup_cons]
    exact ⟨by simp, nodup_eraseDups (rest.filter fun y => !y == x)⟩
  termination_by names => names.length
  decreasing_by exact Nat.lt_succ_of_le (List.length_filter_le _ _)

theorem eraseDups_concat (names : List String) (x : String) :
    (names ++ [x]).eraseDups = if x ∈ names then names.eraseDups else names.eraseDups ++ [x] := by
  rw [List.eraseDups_append]
  by_cases hx : x ∈ names
  · simp [hx, List.removeAll]
  · simp [hx, List.removeAll, List.eraseDups_cons]

/-! ## Tables of constants -/

namespace InitializerTable

variable {table : InitializerTable} {x : String} {t : Tensor}

/-- The names of the constants. -/
def names (table : InitializerTable) : List String :=
  table.entries.map Initializer.name

theorem get?_eq_none_iff : table.get? x = none ↔ x ∉ table.names := by
  simp [get?, names]

theorem contains_iff : table.contains x = true ↔ x ∈ table.names := by
  rw [contains, Option.isSome_iff_ne_none, ne_eq, get?_eq_none_iff, not_not]

theorem mem_of_find? (h : table.find? t = some x) : ⟨x, t⟩ ∈ table.entries := by
  obtain ⟨i, hi, rfl⟩ := Option.map_eq_some_iff.1 h
  have ht : i.tensor = t := by simpa using List.find?_some hi
  rw [← ht]
  exact List.mem_of_find?_eq_some hi

theorem mem_names_of_find? (h : table.find? t = some x) : x ∈ table.names :=
  List.mem_map_of_mem (mem_of_find? h)

/-- Where names differ, the tensor of a name is the one of its entry. -/
theorem get?_of_mem (hnodup : table.names.Nodup) (h : ⟨x, t⟩ ∈ table.entries) :
    table.get? x = some t := by
  cases hget : table.get? x with
  | none => exact absurd (List.mem_map_of_mem h) (get?_eq_none_iff.1 hget)
  | some t' =>
    obtain ⟨i, hi, rfl⟩ := Option.map_eq_some_iff.1 hget
    have hx : i.name = x := by simpa using List.find?_some hi
    have hii : i = ⟨x, t⟩ := List.inj_on_of_nodup_map hnodup (List.mem_of_find?_eq_some hi) h hx
    rw [hii]

theorem find?_append_of_some (h : table.find? t = some x) (new : List Initializer) :
    find? ⟨table.entries ++ new⟩ t = some x := by
  obtain ⟨i, hi, rfl⟩ := Option.map_eq_some_iff.1 h
  simp [find?, List.find?_append, hi]

theorem get?_append_of_some (h : table.get? x = some t) (new : List Initializer) :
    get? ⟨table.entries ++ new⟩ x = some t := by
  obtain ⟨i, hi, rfl⟩ := Option.map_eq_some_iff.1 h
  simp [get?, List.find?_append, hi]

end InitializerTable

/-! ## What all levels share -/

/-- The names that are taken, the constants and the functions of a conversion. -/
structure Shared where
  used : List String
  table : InitializerTable
  functions : List Function

namespace Shared

/-- Nothing is lost, and new constants have names that were not taken. -/
structure Le (σ τ : Shared) : Prop where
  used : σ.used ⊆ τ.used
  table : ∃ new, τ.table.entries = σ.table.entries ++ new ∧ ∀ i ∈ new, i.name ∉ σ.used
  functions : σ.functions <+: τ.functions

variable {σ τ υ : Shared}

theorem Le.refl (σ : Shared) : σ.Le σ :=
  ⟨List.Subset.refl _, ⟨[], by simp⟩, List.prefix_refl _⟩

theorem Le.trans (h : σ.Le τ) (h' : τ.Le υ) : σ.Le υ := by
  obtain ⟨new, hnew, hfresh⟩ := h.table
  obtain ⟨new', hnew', hfresh'⟩ := h'.table
  refine ⟨List.Subset.trans h.used h'.used,
    ⟨new ++ new', by rw [hnew', hnew, List.append_assoc], fun i hi => ?_⟩,
    h.functions.trans h'.functions⟩
  rcases List.mem_append.1 hi with hi | hi
  · exact hfresh i hi
  · exact fun hu => hfresh' i hi (h.used hu)

theorem Le.table_eq (h : σ.Le τ) : ∃ new, τ.table = ⟨σ.table.entries ++ new⟩ := by
  obtain ⟨new, hnew, -⟩ := h.table
  exact ⟨new, by rw [← hnew]⟩

theorem Le.find? (h : σ.Le τ) {t : Tensor} {x : String} (hx : σ.table.find? t = some x) :
    τ.table.find? t = some x := by
  obtain ⟨new, hnew⟩ := h.table_eq
  rw [hnew]
  exact InitializerTable.find?_append_of_some hx new

theorem Le.get? (h : σ.Le τ) {x : String} {t : Tensor} (hx : σ.table.get? x = some t) :
    τ.table.get? x = some t := by
  obtain ⟨new, hnew⟩ := h.table_eq
  rw [hnew]
  exact InitializerTable.get?_append_of_some hx new

theorem Le.mem_names (h : σ.Le τ) {x : String} (hx : x ∈ σ.table.names) : x ∈ τ.table.names := by
  obtain ⟨new, hnew, -⟩ := h.table
  simp only [InitializerTable.names, hnew, List.map_append, List.mem_append]
  exact Or.inl hx

/-- A name that is taken does not become the name of a constant. -/
theorem Le.not_mem_names (h : σ.Le τ) {x : String} (hused : x ∈ σ.used) (hx : x ∉ σ.table.names) :
    x ∉ τ.table.names := by
  obtain ⟨new, hnew, hfresh⟩ := h.table
  simp only [InitializerTable.names, hnew, List.map_append, List.mem_append, not_or]
  refine ⟨hx, fun hmem => ?_⟩
  obtain ⟨i, hi, rfl⟩ := List.mem_map.1 hmem
  exact hfresh i hi hused

/-- Constants and functions have names of their own, which are taken. -/
structure Tidy (σ : Shared) : Prop where
  table_used : σ.table.names ⊆ σ.used
  table_nodup : σ.table.names.Nodup
  functions_used : ∀ f ∈ σ.functions, f.name ∈ σ.used
  functions_nodup : (σ.functions.map Function.name).Nodup

/-- More names are taken. -/
theorem le_of_used {used : List String} (h : σ.used ⊆ used) : σ.Le { σ with used } :=
  ⟨h, ⟨[], by simp⟩, List.prefix_refl _⟩

theorem Tidy.of_used (h : σ.Tidy) {used : List String} (hsub : σ.used ⊆ used) :
    Tidy { σ with used } :=
  ⟨fun _ hx => hsub (h.table_used hx), h.table_nodup, fun f hf => hsub (h.functions_used f hf),
    h.functions_nodup⟩

/-- A constant with a name that was free is added. -/
theorem le_of_constant {used : List String} {x : String} (hfree : x ∉ σ.used) (h : σ.used ⊆ used)
    (t : Tensor) :
    σ.Le { σ with used, table := ⟨σ.table.entries ++ [⟨x, t⟩]⟩ } :=
  ⟨h, ⟨[⟨x, t⟩], rfl, by simpa using hfree⟩, List.prefix_refl _⟩

theorem Tidy.of_constant (hσ : σ.Tidy) {used : List String} {x : String} (hfree : x ∉ σ.used)
    (h : σ.used ⊆ used) (hx : x ∈ used) (t : Tensor) :
    Tidy { σ with used, table := ⟨σ.table.entries ++ [⟨x, t⟩]⟩ } := by
  have hnames : InitializerTable.names ⟨σ.table.entries ++ [⟨x, t⟩]⟩ = σ.table.names ++ [x] := by
    simp [InitializerTable.names]
  refine ⟨?_, ?_, fun f hf => h (hσ.functions_used f hf), hσ.functions_nodup⟩
  · simp only [hnames]
    exact List.append_subset.2 ⟨fun _ hy => h (hσ.table_used hy), by simpa using hx⟩
  · simp only [hnames]
    refine List.nodup_append.2 ⟨hσ.table_nodup, by simp, ?_⟩
    rintro y hy _ hyx rfl
    obtain rfl : y = x := by simpa using hyx
    exact hfree (hσ.table_used hy)

/-- A function with a name that was free is added. -/
theorem Tidy.of_function (hσ : σ.Tidy) {used : List String} {f : Function} (hfree : f.name ∉ σ.used)
    (h : σ.used ⊆ used) (hf : f.name ∈ used) :
    Tidy { σ with used, functions := σ.functions ++ [f] } := by
  refine ⟨fun _ hy => h (hσ.table_used hy), hσ.table_nodup, fun g hg => ?_, ?_⟩
  · rcases List.mem_append.1 hg with hg | hg
    · exact h (hσ.functions_used g hg)
    · obtain rfl : g = f := by simpa using hg
      exact hf
  · rw [List.map_append]
    refine List.nodup_append.2 ⟨hσ.functions_nodup, by simp, ?_⟩
    rintro y hy _ hyf rfl
    obtain ⟨g, hg, rfl⟩ := List.mem_map.1 hy
    obtain hname : g.name = f.name := by simpa using hyf
    exact hfree (hname ▸ hσ.functions_used g hg)

end Shared

end TensorGraph
