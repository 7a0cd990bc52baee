import Mathlib.Data.List.Induction
import TensorGraph.Builder.IndexedTable
import TensorGraph.Proofs.FailedOperations

/-!
# Constants are stored once

A table of constants is asked for names and for tensors. An `IndexedTable` answers from its indices,
and these say where a search through its entries would end (`IndexedTable.Consistent`), whatever is
added or refused. So the table is the plain `InitializerTable` after every history
(`IndexedTable.plain_after`), and both hold for each name the tensor that was first added under it
(`IndexedTable.holds_after`). A tensor may stand under several names there, of which the earliest is
found.

The levels of a conversion share one table. Where constants are not given their names but asked for
by their tensors, a tensor is added only if no name holds it, under a name that was free at all
levels. So each is stored once (`StoresOnce`), and what a request was answered stays the answer
(`Family.Stores`).
-/

namespace TensorGraph

/-! ## The indices of a table -/

namespace IndexedTable

variable {t : IndexedTable}

/-- The constants without the indices. -/
def plain (t : IndexedTable) : InitializerTable :=
  ⟨t.entries⟩

/-- The indices give the places where a search through the entries ends. -/
structure Consistent (t : IndexedTable) : Prop where
  byName : ∀ name, t.byName.lookup name = t.entries.findIdx? fun i => i.name == name
  byContent : ∀ tensor, t.byContent.lookup tensor = t.entries.findIdx? fun i => i.tensor == tensor

theorem consistent_empty : empty.Consistent :=
  ⟨fun _ => rfl, fun _ => rfl⟩

/-- A new key goes to the end. -/
theorem findIdx?_push {κ : Type} [DecidableEq κ] (key : Initializer → κ)
    (entries : List Initializer) (i : Initializer) (k : κ) :
    (entries ++ [i]).findIdx? (fun j => key j == k) =
      (entries.findIdx? fun j => key j == k).or
        (if k = key i then some entries.length else none) := by
  rw [List.findIdx?_append]
  by_cases h : k = key i
  · simp [h]
  · simp [h, Ne.symm h]

theorem Consistent.push (h : t.Consistent) {name : String} (hnew : t.byName.lookup name = none)
    (tensor : Tensor) :
    (t.push name tensor).Consistent where
  byName x := by
    simp only [IndexedTable.push]
    rw [findIdx?_push Initializer.name, ← h.byName, List.lookup_cons]
    by_cases hx : x = name
    · simp [hx, hnew, length]
    · have hne : (x == name) = false := by simpa using hx
      simp [hx, hne]
  byContent x := by
    simp only [IndexedTable.push]
    rw [findIdx?_push Initializer.tensor, ← h.byContent]
    cases hlookup : t.byContent.lookup tensor with
    | some place =>
      by_cases hx : x = tensor
      · simp [hx, hlookup]
      · simp [hx]
    | none =>
      rw [List.lookup_cons]
      by_cases hx : x = tensor
      · simp [hx, hlookup, length]
      · have hne : (x == tensor) = false := by simpa using hx
        simp [hx, hne]

namespace Consistent

variable (h : t.Consistent)
include h

theorem get?_eq (name : String) : t.get? name = t.plain.get? name := by
  rw [get?, h.byName, InitializerTable.get?, plain, List.find?_eq_bind_findIdx?_getElem?,
    Option.map_bind]
  rfl

theorem contains_eq (name : String) : t.contains name = t.plain.contains name := by
  rw [contains, h.byName, InitializerTable.contains, InitializerTable.get?, Option.isSome_map,
    plain, List.findIdx?_isSome, List.isSome_find?]

theorem find?_eq (tensor : Tensor) : t.find? tensor = t.plain.find? tensor := by
  rw [find?, h.byContent, InitializerTable.find?, plain, List.find?_eq_bind_findIdx?_getElem?,
    Option.map_bind]
  rfl

/-- A new name is appended. The tensor of a name that is there is compared. -/
theorem add_cases (name : String) (tensor : Tensor) :
    (t.get? name = none ∧ t.byName.lookup name = none ∧
      add name tensor t = .ok () (t.push name tensor)) ∨
      ∃ old, t.get? name = some old ∧
        add name tensor t = if old = tensor then .ok () t
          else .error (.duplicate "initializer" name) t := by
  cases hlookup : t.byName.lookup name with
  | none => exact Or.inl ⟨by rw [get?, hlookup, Option.bind_none], rfl, by rw [add, hlookup]⟩
  | some place =>
    right
    obtain ⟨hplace, -⟩ := List.findIdx?_eq_some_iff_getElem.1 ((h.byName name).symm.trans hlookup)
    have htensor : t.tensorAt? place = some (t.entries.get ⟨place, hplace⟩).tensor := by
      simp [tensorAt?, List.getElem?_eq_getElem hplace]
    refine ⟨_, by rw [get?, hlookup, Option.bind_some, htensor], ?_⟩
    simp only [add, hlookup, htensor, Option.some.injEq]

/-- A step of adding does to the table what it does to the plain one, or fails alike. -/
theorem plain_add (name : String) (tensor : Tensor) : t.plain.add name tensor =
    match add name tensor t with
    | .ok _ t' => .ok t'.plain
    | .error e _ => .error e := by
  rcases h.add_cases name tensor with ⟨hget, -, hadd⟩ | ⟨old, hget, hadd⟩
  · rw [hadd, InitializerTable.add, ← h.get?_eq, hget]
    rfl
  · rw [hadd, InitializerTable.add, ← h.get?_eq, hget]
    dsimp only
    split_ifs <;> rfl

theorem atomic_add (name : String) (tensor : Tensor) : Step.Atomic (add name tensor) t := by
  intro e t' herror
  rcases h.add_cases name tensor with ⟨-, -, hadd⟩ | ⟨old, -, hadd⟩
  · cases hadd.symm.trans herror
  · rw [hadd] at herror
    split_ifs at herror
    exact (EStateM.Result.error.inj herror).2.symm

/-- The table that is left, whether the constant is taken or refused. -/
theorem left_add_eq (name : String) (tensor : Tensor) :
    Step.left (add name tensor) t = if t.get? name = none then t.push name tensor else t := by
  rcases h.add_cases name tensor with ⟨hget, -, hadd⟩ | ⟨old, hget, hadd⟩
  · rw [Step.left_of_ok hadd, if_pos hget]
  · rw [if_neg (by simp [hget]), Step.left, hadd]
    split_ifs <;> rfl

theorem left_add (name : String) (tensor : Tensor) :
    (Step.left (add name tensor) t).Consistent := by
  rw [h.left_add_eq]
  split_ifs with hget
  · rcases h.add_cases name tensor with ⟨-, hlookup, -⟩ | ⟨old, hold, -⟩
    · exact h.push hlookup tensor
    · cases hget.symm.trans hold
  · exact h

/-- A name that has a tensor keeps it. -/
theorem get?_left_add (name : String) (tensor : Tensor) (x : String) :
    (Step.left (add name tensor) t).get? x =
      (t.get? x).or (if x = name then some tensor else none) := by
  rw [(h.left_add name tensor).get?_eq, h.left_add_eq, h.get?_eq x]
  by_cases hget : t.get? name = none
  · rw [if_pos hget]
    simp only [InitializerTable.get?, plain, IndexedTable.push, List.find?_append, Option.map_or]
    congr 1
    by_cases hx : x = name
    · simp [hx]
    · simp [hx, Ne.symm hx]
  · rw [if_neg hget]
    by_cases hx : x = name
    · rw [hx, ← h.get?_eq, Option.or_of_isSome (Option.isSome_iff_ne_none.2 hget)]
    · rw [if_neg hx, Option.or_none]

end Consistent

/-! ## Histories of a table -/

/-- The table after a history of adding constants, some of which may be refused. -/
def after (history : List (String × Tensor)) : IndexedTable :=
  history.foldl (fun t a => Step.left (add a.1 a.2) t) empty

theorem after_append_singleton (history : List (String × Tensor)) (a : String × Tensor) :
    after (history ++ [a]) = Step.left (add a.1 a.2) (after history) := by
  simp [after]

theorem consistent_after (history : List (String × Tensor)) : (after history).Consistent := by
  induction history using List.reverseRecOn with
  | nil => exact consistent_empty
  | append_singleton history a ih =>
    rw [after_append_singleton]
    exact ih.left_add a.1 a.2

/-- A name has the tensor that was first added under it. -/
theorem get?_after (history : List (String × Tensor)) (name : String) :
    (after history).get? name = (history.find? fun a => a.1 == name).map Prod.snd := by
  induction history using List.reverseRecOn with
  | nil => rfl
  | append_singleton history a ih =>
    rw [after_append_singleton, (consistent_after history).get?_left_add, ih, List.find?_append,
      Option.map_or]
    by_cases hname : name = a.1
    · simp [hname]
    · simp [hname, Ne.symm hname]

/-- The entries stand in the order in which their names were first added. -/
theorem names_after (history : List (String × Tensor)) :
    (after history).plain.names = (history.map Prod.fst).eraseDups := by
  induction history using List.reverseRecOn with
  | nil => rfl
  | append_singleton history a ih =>
    have hmem : a.1 ∈ history.map Prod.fst ↔ (after history).get? a.1 ≠ none := by
      rw [(consistent_after history).get?_eq, ne_eq, InitializerTable.get?_eq_none_iff, not_not, ih,
        List.mem_eraseDups]
    rw [after_append_singleton, List.map_append, List.map_singleton, eraseDups_concat, ← ih,
      (consistent_after history).left_add_eq]
    by_cases hget : (after history).get? a.1 = none
    · rw [if_pos hget, if_neg (by simp [hmem, hget])]
      simp [plain, InitializerTable.names, push]
    · rw [if_neg hget, if_pos (hmem.2 hget)]

end IndexedTable

/-- The plain table after a history of adding constants, some of which may be refused. -/
def InitializerTable.after (history : List (String × Tensor)) : InitializerTable :=
  history.foldl (fun table a => ((table.add a.1 a.2).toOption).getD table) .empty

theorem IndexedTable.plain_after (history : List (String × Tensor)) :
    (after history).plain = InitializerTable.after history := by
  induction history using List.reverseRecOn with
  | nil => rfl
  | append_singleton history a ih =>
    rw [after_append_singleton, InitializerTable.after, List.foldl_append, List.foldl_cons,
      List.foldl_nil, ← InitializerTable.after, ← ih, (consistent_after history).plain_add]
    cases hadd : add a.1 a.2 (after history) with
    | ok u t' => rw [Step.left_of_ok hadd]; rfl
    | error e t' =>
      rw [Step.left_of_error hadd, (consistent_after history).atomic_add a.1 a.2 e t' hadd]
      rfl

/-! ## Constants of all levels -/

/-- Each constant has a name of its own, which is taken, and a tensor of its own. -/
structure StoresOnce (pool : NamePool) (table : InitializerTable) : Prop where
  taken : table.names ⊆ pool.used
  names : table.names.Nodup
  tensors : (table.entries.map Initializer.tensor).Nodup

theorem InitializerTable.find?_of_prefix {table table' : InitializerTable}
    (h : table.entries <+: table'.entries) {t : Tensor} {x : String} (hx : table.find? t = some x) :
    table'.find? t = some x := by
  obtain ⟨new, hnew⟩ := h
  have htable : table' = ⟨table.entries ++ new⟩ := by rw [hnew]
  rw [htable]
  exact find?_append_of_some hx new

theorem InitializerTable.find?_eq_none_iff {table : InitializerTable} {t : Tensor} :
    table.find? t = none ↔ t ∉ table.entries.map Initializer.tensor := by
  simp [find?]

/-- A new constant with a name that was free is stored once too. -/
theorem StoresOnce.push {pool next : NamePool} {table : InitializerTable}
    (h : StoresOnce pool table) {x : String} (hissues : pool.Issues x next) {t : Tensor}
    (ht : table.find? t = none) :
    StoresOnce next ⟨table.entries ++ [⟨x, t⟩]⟩ := by
  have hnames : InitializerTable.names ⟨table.entries ++ [⟨x, t⟩]⟩ = table.names ++ [x] := by
    simp [InitializerTable.names]
  refine ⟨?_, ?_, ?_⟩
  · rw [hnames]
    refine List.append_subset.2 ⟨fun y hy => (hissues.used y).2 (Or.inr (h.taken hy)), ?_⟩
    simpa using (hissues.used x).2 (Or.inl rfl)
  · rw [hnames]
    exact h.names.append (List.nodup_singleton x) (List.disjoint_singleton.2 fun hx =>
      hissues.free (h.taken hx))
  · rw [List.map_append, List.map_singleton]
    exact h.tensors.append (List.nodup_singleton t)
      (List.disjoint_singleton.2 (InitializerTable.find?_eq_none_iff.1 ht))

/-- A constant gets the name that holds its tensor, and from then on one does. -/
theorem StoresOnce.exists_addConstant {b : Builder} (h : StoresOnce b.names b.initializers)
    (base : String) (tensor : Tensor) :
    ∃ x b', Build.addConstant base tensor b = .ok x b' ∧ StoresOnce b'.names b'.initializers ∧
      b.initializers.entries <+: b'.initializers.entries ∧
      b'.initializers.find? tensor = some x := by
  cases hfind : b.initializers.find? tensor with
  | some x => exact ⟨x, b, Build.addConstant_of_some hfind base, h, List.prefix_refl _, hfind⟩
  | none =>
    refine ⟨_, _, Build.addConstant_of_none hfind h.taken base,
      h.push (b.names.issues_fresh base) hfind, List.prefix_append _ _, ?_⟩
    have hnone : b.initializers.entries.find? (fun i => i.tensor == tensor) = none := by
      simpa [InitializerTable.find?] using hfind
    simp [InitializerTable.find?, List.find?_append, hnone]

namespace Family

variable {s : Family}

/-- The tensor of a constant that is asked for, and the name that it gets. -/
def constant? (s : Family) : Turn → Option (Tensor × String)
  | .act place (.addConstant base tensor) =>
    s.levels[place]?.bind fun l =>
      (Step.result? (Build.addConstant base tensor) (s.builder l)).map fun x => (tensor, x)
  | _ => none

/-- The constants that are asked for in a history, at any level, with the names that they get. -/
def constants (s : Family) : List Turn → List (Tensor × String)
  | [] => []
  | turn :: rest => (s.constant? turn).toList ++ (s.perform turn).constants rest

/-- A turn keeps constants stored once and in their places, and the constant that it asks for is
stored. -/
structure Stores (s s' : Family) (asked : List (Tensor × String)) : Prop where
  once : StoresOnce s'.names s'.initializers
  entries : s.initializers.entries <+: s'.initializers.entries
  found : ∀ c ∈ asked, s'.initializers.find? c.1 = some c.2

theorem Stores.trans {s' s'' : Family} {asked asked' : List (Tensor × String)}
    (h : s.Stores s' asked) (h' : s'.Stores s'' asked') : s.Stores s'' (asked ++ asked') where
  once := h'.once
  entries := h.entries.trans h'.entries
  found c hc := (List.mem_append.1 hc).elim
    (fun hc => InitializerTable.find?_of_prefix h'.entries (h.found c hc)) (h'.found c)

/-- A change by which no constants are added. -/
theorem stores_change (hs : StoresOnce s.names s.initializers) (place : Nat) {f : Builder → Builder}
    (hf : ∀ b : Builder, ∃ a, b.Adds a (f b) ∧ a.constants = []) :
    s.Stores (s.change place f) [] := by
  cases hl : s.levels[place]? with
  | none =>
    rw [change_of_none hl]
    exact ⟨hs, List.prefix_refl _, by simp⟩
  | some l =>
    obtain ⟨a, hadds, hnone⟩ := hf (s.builder l)
    have htable : (f (s.builder l)).initializers = s.initializers := by
      rw [InitializerTable.mk.injEq, hadds.constants, hnone, List.append_nil]
      rfl
    rw [change_of_some hl, htable]
    exact ⟨⟨List.Subset.trans hs.taken hadds.used, hs.names, hs.tensors⟩, List.prefix_refl _,
      by simp⟩

theorem stores_addConstant (hs : StoresOnce s.names s.initializers) (place : Nat) (base : String)
    (tensor : Tensor) :
    s.Stores (s.perform (.act place (.addConstant base tensor)))
      (s.constant? (.act place (.addConstant base tensor))).toList := by
  cases hl : s.levels[place]? with
  | none =>
    rw [perform, change_of_none hl, constant?, hl]
    exact ⟨hs, List.prefix_refl _, by simp⟩
  | some l =>
    obtain ⟨x, b', hadd, honce, hentries, hfind⟩ :=
      StoresOnce.exists_addConstant (b := s.builder l) hs base tensor
    have hresult : Step.result? (Build.addConstant base tensor) (s.builder l) = some x :=
      Step.result?_eq_some_iff.2 ⟨b', hadd⟩
    rw [perform, change_of_some hl, constant?, hl, Option.bind_some, hresult, Action.leave,
      Step.left_of_ok hadd]
    exact ⟨honce, hentries, by simpa using hfind⟩

/-- One turn, by which no constant is added under a given name. -/
theorem stores_perform (hs : StoresOnce s.names s.initializers) {turn : Turn}
    (hturn : ∀ place name tensor, turn ≠ .act place (.addInitializer name tensor)) :
    s.Stores (s.perform turn) (s.constant? turn).toList := by
  cases turn with
  | act place action =>
    have hkeeps : action.addsConstant = false → s.Stores (s.change place action.leave) [] :=
      fun hnone => stores_change hs place fun b =>
        (action.declares_leave b).imp fun _ h => ⟨h.1.toAdds, h.2 hnone⟩
    cases action with
    | addConstant base tensor => exact stores_addConstant hs place base tensor
    | addInitializer name tensor => exact absurd rfl (hturn place name tensor)
    | _ => exact hkeeps rfl
  | mergeFunctions place functions =>
    refine stores_change hs place fun b => ?_
    obtain ⟨new, -, hadds⟩ := Build.adds_mergeFunctions functions b
    exact ⟨_, hadds, rfl⟩
  | openChild place name =>
    simp only [perform]
    cases s.levels[place]? <;> exact ⟨hs, List.prefix_refl _, by simp [constant?]⟩

/-- A whole history, in which no constant is added under a given name. -/
theorem stores_foldl (hs : StoresOnce s.names s.initializers) {history : List Turn}
    (hhistory : ∀ place name tensor, .act place (.addInitializer name tensor) ∉ history) :
    s.Stores (history.foldl perform s) (s.constants history) := by
  induction history generalizing s with
  | nil => exact ⟨hs, List.prefix_refl _, by simp [constants]⟩
  | cons turn rest ih =>
    have hturn : s.Stores (s.perform turn) (s.constant? turn).toList :=
      stores_perform hs fun place name tensor heq =>
      hhistory place name tensor (heq ▸ List.mem_cons_self)
    exact hturn.trans (ih hturn.once fun place name tensor hmem =>
      hhistory place name tensor (List.mem_cons_of_mem _ hmem))

/-- The constants that are asked for from the start of a conversion on are stored, and nothing else
is. -/
theorem stores_after (name : String) {history : List Turn}
    (hhistory : ∀ place x tensor, .act place (.addInitializer x tensor) ∉ history) :
    (single (.start name)).Stores (after (.start name) history)
      ((single (.start name)).constants history) := by
  have hstart : StoresOnce (single (.start name)).names (single (.start name)).initializers :=
    ⟨List.nil_subset _, List.nodup_nil, List.nodup_nil⟩
  exact stores_foldl hstart hhistory

end Family

/-- In a table that stores constants once, a name and its tensor determine each other. -/
theorem StoresOnce.name_eq_iff {pool : NamePool} {table : InitializerTable}
    (h : StoresOnce pool table) {t t' : Tensor} {x x' : String} (hx : table.find? t = some x)
    (hx' : table.find? t' = some x') : x = x' ↔ t = t' := by
  constructor
  · rintro rfl
    have hget := InitializerTable.get?_of_mem h.names (InitializerTable.mem_of_find? hx)
    exact Option.some.inj
      (hget.symm.trans (InitializerTable.get?_of_mem h.names (InitializerTable.mem_of_find? hx')))
  · rintro rfl
    exact Option.some.inj (hx.symm.trans hx')

/-- The table has the entries of a plain one, answers as it does, and takes or refuses what it
does. -/
structure IndexedTable.Refines (t : IndexedTable) (table : InitializerTable) : Prop where
  entries : t.entries = table.entries
  get? : ∀ name, t.get? name = table.get? name
  find? : ∀ tensor, t.find? tensor = table.find? tensor
  contains : ∀ name, t.contains name = table.contains name
  taken : ∀ name tensor t', add name tensor t = .ok () t' → table.add name tensor = .ok t'.plain
  refused : ∀ name tensor e t', add name tensor t = .error e t' →
    table.add name tensor = .error e ∧ t' = t

theorem IndexedTable.Consistent.refines {t : IndexedTable} (h : t.Consistent) :
    t.Refines t.plain where
  entries := rfl
  get? := h.get?_eq
  find? := h.find?_eq
  contains := h.contains_eq
  taken name tensor t' hadd := by rw [h.plain_add, hadd]
  refused name tensor e t' hadd := ⟨by rw [h.plain_add, hadd], h.atomic_add name tensor e t' hadd⟩

/-- The table holds each name with the tensor that it was first added with, in the order of the
first additions, and answers from these entries. -/
structure IndexedTable.Holds (t : IndexedTable) (history : List (String × Tensor)) : Prop where
  names : t.entries.map Initializer.name = (history.map Prod.fst).eraseDups
  distinct : (t.entries.map Initializer.name).Nodup
  get? : ∀ name, t.get? name = (history.find? fun a => a.1 == name).map Prod.snd
  find? : ∀ tensor,
    t.find? tensor = (t.entries.find? fun i => i.tensor == tensor).map Initializer.name
  contains : ∀ name, t.contains name = true ↔ name ∈ t.entries.map Initializer.name
  length : t.length = (history.map Prod.fst).eraseDups.length
  isEmpty : t.isEmpty = true ↔ history = []

theorem IndexedTable.holds_after (history : List (String × Tensor)) :
    (after history).Holds history := by
  have hconsistent := consistent_after history
  have hnames : (after history).entries.map Initializer.name = (history.map Prod.fst).eraseDups :=
    names_after history
  refine ⟨hnames, hnames ▸ nodup_eraseDups _, get?_after history, hconsistent.find?_eq,
    fun name => ?_, ?_, ?_⟩
  · rw [hconsistent.contains_eq]
    exact InitializerTable.contains_iff
  · rw [← hnames, List.length_map, length]
  · rw [isEmpty, List.isEmpty_iff, ← List.map_eq_nil_iff, hnames]
    cases history <;> simp [List.eraseDups_cons]

/-- After every history of adding constants, some of which may be refused, the table with its
indices is the plain one : it holds the first tensor of each name, which the name keeps whatever is
added later. What is asked for as a constant at any level of a conversion is stored once, and gets
the same name exactly if it is the same tensor. -/
theorem constants_stored_once :
    (∀ history : List (String × Tensor),
      (IndexedTable.after history).Refines (.after history) ∧
      (IndexedTable.after history).Holds history ∧
      ∀ later name tensor, (IndexedTable.after history).get? name = some tensor →
        (IndexedTable.after (history ++ later)).get? name = some tensor) ∧
    ∀ (name : String) (history : List Family.Turn),
      (∀ place x tensor, .act place (.addInitializer x tensor) ∉ history) →
      ((Family.after (.start name) history).initializers.entries.map Initializer.tensor).Nodup ∧
      (∀ c ∈ (Family.single (.start name)).constants history,
        ∀ c' ∈ (Family.single (.start name)).constants history, c.2 = c'.2 ↔ c.1 = c'.1) ∧
      ∀ l ∈ (Family.after (.start name) history).levels, ∀ base tensor,
        ∃ x b, Build.addConstant base tensor ((Family.after (.start name) history).builder l) =
          .ok x b := by
  constructor
  · intro history
    refine ⟨IndexedTable.plain_after history ▸ (IndexedTable.consistent_after history).refines,
      IndexedTable.holds_after history, fun later name tensor hget => ?_⟩
    rw [IndexedTable.get?_after] at hget ⊢
    rw [List.find?_append, Option.map_or, hget, Option.some_or]
  · intro name history hhistory
    have hstores := Family.stores_after name hhistory
    refine ⟨hstores.once.tensors, fun c hc c' hc' => ?_, fun l _ base tensor => ?_⟩
    · exact hstores.once.name_eq_iff (hstores.found c hc) (hstores.found c' hc')
    · exact Build.exists_addConstant hstores.once.taken base tensor

namespace Example

/-- A byte as a constant. -/
def byte (value : UInt8) : Tensor :=
  ⟨.u8, [], [value]⟩

/-- Constants at two levels, of which two hold the same byte and one asks for a name that is drawn
before. -/
def mixed : List Family.Turn :=
  [.act 0 (.addConstant "const" (byte 1)), .openChild 0 "inner",
    .act 1 (.addConstant "weight" (byte 1)), .act 1 (.uniqueName "const"),
    .act 1 (.addConstant "weight" (byte 2)), .act 0 (.addConstant "const" (byte 3))]

end Example

/-- The byte of the first level is found inside, and the other ones get names of their own. A table
that is given two tensors for one name keeps the first, and finds a tensor under the earlier of two
names. -/
theorem constants_stored_once_mixed :
    ((IndexedTable.after [("w", Example.byte 1), ("v", Example.byte 1),
      ("w", Example.byte 2)]).get? "w" = some (Example.byte 1) ∧
      (IndexedTable.after [("w", Example.byte 1), ("v", Example.byte 1),
        ("w", Example.byte 2)]).find? (Example.byte 1) = some "w") ∧
    (Family.single (.start "main")).constants Example.mixed =
      [(Example.byte 1, "const_0"), (Example.byte 1, "const_0"), (Example.byte 2, "weight_0"),
        (Example.byte 3, "const_2")] ∧
    ((Family.after (.start "main") Example.mixed).initializers.entries.map
      Initializer.tensor).Nodup := by
  refine ⟨⟨?_, ?_⟩, by decide +kernel, ?_⟩
  · rw [(constants_stored_once.1 _).2.1.get?]
    decide
  · rw [(constants_stored_once.1 _).2.1.find?]
    decide +kernel
  · exact (constants_stored_once.2 "main" Example.mixed (by simp [Example.mixed])).1

end TensorGraph
