import TensorGraph.Proofs.BuilderSteps

/-!
# Names over histories of building

The levels of a conversion form a `Family` : they share one pool of names, one table of constants
and one log, and they are opened and operated on in any order. A history is a list of operations.
One that fails leaves what it has done, and the history goes on from there. A level that is finished
is one on which nothing more is done, and its functions can be merged into others.

Whatever is declared at any level is taken (`Family.Reserved`), as long as functions are merged only
from levels (`Family.MergesOwn`) : an action takes what it declares, and merged functions were
declared before. So a name that is issued differs from all that were issued or declared before
(`issued_fresh`), also from names that were chosen to look like issued ones.
-/

namespace TensorGraph

/-! ## Levels that are built side by side -/

/-- Levels under construction, and what they share. -/
structure Family where
  names : NamePool
  initializers : InitializerTable
  log : Log
  levels : List Level

namespace Family

/-- One operation at a level, which is given by its place. -/
inductive Turn where
  | act (place : Nat) (action : Action)
  | mergeFunctions (place : Nat) (functions : List Function)
  | openChild (place : Nat) (name : String)

/-- A family of one level. -/
def single (b : Builder) : Family :=
  ⟨b.names, b.initializers, b.log, [b.level]⟩

/-- The builder of a level that shares with the family. -/
def builder (s : Family) (l : Level) : Builder :=
  ⟨s.names, s.initializers, l, s.log⟩

/-- Change the builder of the level at a place. Where there is none, nothing changes. -/
def change (s : Family) (place : Nat) (f : Builder → Builder) : Family :=
  match s.levels[place]? with
  | some l =>
    let b := f (s.builder l)
    ⟨b.names, b.initializers, b.log, s.levels.set place b.level⟩
  | none => s

/-- Perform an operation. The levels that are opened come last. -/
def perform (s : Family) : Turn → Family
  | .act place action => s.change place action.leave
  | .mergeFunctions place functions => s.change place (Step.left (Build.mergeFunctions functions))
  | .openChild place name =>
    match s.levels[place]? with
    | some l => { s with levels := s.levels ++ [((s.builder l).child name).level] }
    | none => s

/-- The family of a level after a history, whether the operations succeed or fail. -/
def after (b : Builder) (history : List Turn) : Family :=
  history.foldl perform (single b)

/-- The name that an operation issues. -/
def issued? (s : Family) : Turn → Option String
  | .act place action => s.levels[place]?.bind fun l => action.issued? (s.builder l)
  | _ => none

/-- The names that are declared at any level, and those of constants. -/
def declared (s : Family) : List String :=
  s.initializers.names ++ s.levels.flatMap Level.declared

/-- The functions that an operation merges. -/
def Turn.merged : Turn → List Function
  | .mergeFunctions _ functions => functions
  | _ => []

/-- Each function that a history merges is one that some level has at that time. -/
def MergesOwn (s : Family) : List Turn → Prop
  | [] => True
  | turn :: rest =>
    (∀ f ∈ turn.merged, ∃ l ∈ s.levels, f ∈ l.functions) ∧ (s.perform turn).MergesOwn rest

/-- A history can be checked. -/
def decidableMergesOwn : (s : Family) → (history : List Turn) → Decidable (s.MergesOwn history)
  | _, [] => .isTrue trivial
  | s, turn :: rest =>
    have := decidableMergesOwn (s.perform turn) rest
    inferInstanceAs (Decidable (_ ∧ _))

instance (s : Family) (history : List Turn) : Decidable (s.MergesOwn history) :=
  decidableMergesOwn s history

variable {s : Family} {place : Nat} {l : Level} {x : String}

theorem change_of_none (h : s.levels[place]? = none) (f : Builder → Builder) :
    s.change place f = s := by
  rw [change, h]

theorem change_of_some (h : s.levels[place]? = some l) (f : Builder → Builder) :
    s.change place f = ⟨(f (s.builder l)).names, (f (s.builder l)).initializers,
      (f (s.builder l)).log, s.levels.set place (f (s.builder l)).level⟩ := by
  rw [change, h]

theorem mergesOwn_append {earlier later : List Turn} : s.MergesOwn (earlier ++ later) ↔
    s.MergesOwn earlier ∧ (earlier.foldl perform s).MergesOwn later := by
  induction earlier generalizing s with
  | nil => simp [MergesOwn]
  | cons turn rest ih => simp [MergesOwn, ih, and_assoc]

theorem mem_declared :
    x ∈ s.declared ↔ x ∈ s.initializers.names ∨ ∃ l ∈ s.levels, x ∈ l.declared := by
  simp [declared]

/-! ## Whatever is declared is taken -/

/-- Whatever is declared is taken. -/
def Reserved (s : Family) : Prop :=
  s.declared ⊆ s.names.used

namespace Reserved

theorem constants (h : s.Reserved) : s.initializers.names ⊆ s.names.used :=
  fun _ hx => h (mem_declared.2 (Or.inl hx))

theorem level (h : s.Reserved) (hl : l ∈ s.levels) : l.declared ⊆ s.names.used :=
  fun _ hx => h (mem_declared.2 (Or.inr ⟨l, hl, hx⟩))

theorem function (h : s.Reserved) (hl : l ∈ s.levels) {f : Function} (hf : f ∈ l.functions) :
    f.name ∈ s.names.used :=
  h.level hl (List.mem_append_right _ (List.mem_map_of_mem hf))

/-- A step at one level that takes what it declares keeps all that is declared taken. -/
theorem change (h : s.Reserved) (place : Nat) {f : Builder → Builder}
    (hf : ∀ b : Builder, b.names = s.names → ∃ a, b.Declares a (f b)) :
    (s.change place f).Reserved ∧ s.names.used ⊆ (s.change place f).names.used := by
  cases hl : s.levels[place]? with
  | none =>
    rw [change_of_none hl]
    exact ⟨h, List.Subset.refl _⟩
  | some l =>
    obtain ⟨a, hdeclares⟩ := hf (s.builder l) rfl
    have hused : s.names.used ⊆ (f (s.builder l)).names.used := hdeclares.used
    rw [change_of_some hl]
    refine ⟨fun x hx => ?_, hused⟩
    rcases mem_declared.1 hx with hx | ⟨m, hm, hx⟩
    · exact (hdeclares.mem_constants hx).elim (fun hx => hused (h.constants hx)) id
    · rcases List.mem_or_eq_of_mem_set hm with hm | rfl
      · exact hused (h.level hm hx)
      · refine (hdeclares.mem_level hx).elim (fun hx => hused ?_) id
        exact h.level (List.mem_of_getElem? hl) hx

/-- An operation keeps all that is declared taken, and what is taken. -/
theorem perform (h : s.Reserved) {turn : Turn}
    (hmerged : ∀ f ∈ turn.merged, ∃ l ∈ s.levels, f ∈ l.functions) :
    (s.perform turn).Reserved ∧ s.names.used ⊆ (s.perform turn).names.used := by
  cases turn with
  | act place action =>
    exact h.change place fun b _ => (action.declares_leave b).imp fun _ hb => hb.1
  | mergeFunctions place functions =>
    refine h.change place fun b hb => Build.declares_mergeFunctions fun f hf => ?_
    obtain ⟨l, hl, hfl⟩ := hmerged f hf
    rw [hb]
    exact h.function hl hfl
  | openChild place name =>
    simp only [Family.perform]
    cases hl : s.levels[place]? with
    | none => exact ⟨h, List.Subset.refl _⟩
    | some l =>
      refine ⟨fun x hx => ?_, List.Subset.refl _⟩
      rcases mem_declared.1 hx with hx | ⟨m, hm, hx⟩
      · exact h.constants hx
      · rcases List.mem_append.1 hm with hm | hm
        · exact h.level hm hx
        · -- The new level has nothing but the functions of the level around it.
          obtain rfl := List.mem_singleton.1 hm
          exact h.level (List.mem_of_getElem? hl) (List.mem_append_right _ hx)

/-- A history that merges functions of levels keeps all that is declared taken. -/
theorem foldl (h : s.Reserved) {history : List Turn} (hmerges : s.MergesOwn history) :
    (history.foldl Family.perform s).Reserved ∧
      s.names.used ⊆ (history.foldl Family.perform s).names.used := by
  induction history generalizing s with
  | nil => exact ⟨h, List.Subset.refl _⟩
  | cons turn rest ih =>
    obtain ⟨hturn, hrest⟩ := hmerges
    obtain ⟨hperform, hused⟩ := h.perform hturn
    exact (ih hperform hrest).imp_right (List.Subset.trans hused)

/-- A name that is issued was free, and is taken. -/
theorem issues (h : s.Reserved) {turn : Turn} (hx : s.issued? turn = some x) :
    s.names.Issues x (s.perform turn).names := by
  cases turn with
  | act place action =>
    obtain ⟨l, hl, hissued⟩ := Option.bind_eq_some_iff.1 hx
    rw [Family.perform, change_of_some hl]
    exact Action.issues_of_issued? (b := s.builder l) h.constants hissued
  | _ => cases hx

end Reserved

theorem reserved_start (name : String) : (single (.start name)).Reserved := by
  intro x hx
  simp [declared, single, Builder.start, InitializerTable.empty, InitializerTable.names,
    Level.empty, Level.declared] at hx

end Family

/-- After every history of building at any levels, in which functions of levels are merged, a name
that is issued differs from those that were issued before, and from those of inputs, nodes, outputs
of nodes, functions and constants that were declared before at any level. A constant always gets a
name. -/
theorem issued_fresh (name : String) (history : List Family.Turn)
    (hmerges : (Family.single (.start name)).MergesOwn history) :
    (∀ turn x, (Family.after (.start name) history).issued? turn = some x →
      (∀ earlier turn' y, earlier ++ [turn'] <+: history →
        (Family.after (.start name) earlier).issued? turn' = some y → y ≠ x) ∧
      ∀ earlier, earlier <+: history → x ∉ (Family.after (.start name) earlier).declared) ∧
    ∀ l ∈ (Family.after (.start name) history).levels, ∀ base tensor,
      ∃ x b, Build.addConstant base tensor ((Family.after (.start name) history).builder l) =
        .ok x b := by
  have hstart := Family.reserved_start name
  -- What is declared after a part of the history is taken, and stays so up to the end.
  have hearlier : ∀ earlier, earlier <+: history → (Family.after (.start name) earlier).Reserved ∧
      (Family.after (.start name) earlier).names.used ⊆
        (Family.after (.start name) history).names.used := by
    rintro earlier ⟨later, rfl⟩
    obtain ⟨hbefore, hafter⟩ := Family.mergesOwn_append.1 hmerges
    have hreserved := (hstart.foldl hbefore).1
    refine ⟨hreserved, ?_⟩
    rw [Family.after, Family.after, List.foldl_append]
    exact (hreserved.foldl hafter).2
  have hreserved := (hearlier history (List.prefix_refl _)).1
  refine ⟨fun turn x hx => ⟨fun earlier turn' y hprefix hy => ?_, fun earlier hprefix hmem => ?_⟩,
    fun l _ base tensor => Build.exists_addConstant hreserved.constants base tensor⟩
  · have hissues := (hearlier earlier ((List.prefix_append _ _).trans hprefix)).1.issues hy
    have htaken : y ∈ (Family.after (.start name) (earlier ++ [turn'])).names.used := by
      rw [Family.after, List.foldl_append]
      exact (hissues.used y).2 (Or.inl rfl)
    exact ne_of_mem_of_not_mem ((hearlier _ hprefix).2 htaken) (hreserved.issues hx).free
  · obtain ⟨hdeclared, hused⟩ := hearlier earlier hprefix
    exact (hreserved.issues hx).free (hused (hdeclared hmem))

namespace Example

/-- A function without nodes. -/
def idle (name : String) : Function :=
  ⟨name, functionDomain, [], 0, [], [], []⟩

/-- Names that look like issued ones are declared : an input, then an output of a node and a
function of a nested level, whose functions are merged. A node with the name of another one is
refused. -/
def imitating : List Family.Turn :=
  [.act 0 (.addInput "var_0" [] .f32), .openChild 0 "inner",
    .act 1 (.addNode (.plain "Add" "Block" ["var_0", "var_0"] ["var_1"])),
    .act 1 (.addNode (.plain "Mul" "Block" ["var_0", "var_0"] ["var_3"])),
    .act 1 (.registerFunction (idle "var_2")), .mergeFunctions 0 [idle "var_2"]]

end Example

/-- After this history the next names are new ones. -/
theorem issued_fresh_imitating :
    (Family.single (.start "main")).MergesOwn Example.imitating ∧
    (Family.after (.start "main") Example.imitating).issued? (.act 0 (.uniqueName "var")) =
      some "var_3" ∧
    "var_3" ∉ (Family.after (.start "main") Example.imitating).declared ∧
    (Family.after (.start "main") Example.imitating).issued? (.act 1 (.instanceName "Block")) =
      some "Block_2" ∧
    "Block_2" ∉ (Family.after (.start "main") Example.imitating).declared := by
  have hmerges : (Family.single (.start "main")).MergesOwn Example.imitating := by decide +kernel
  have hvar : (Family.after (.start "main") Example.imitating).issued?
      (.act 0 (.uniqueName "var")) = some "var_3" := by decide +kernel
  have hblock : (Family.after (.start "main") Example.imitating).issued?
      (.act 1 (.instanceName "Block")) = some "Block_2" := by decide +kernel
  have hfresh := (issued_fresh "main" Example.imitating hmerges).1
  exact ⟨hmerges, hvar, (hfresh _ _ hvar).2 _ (List.prefix_refl _), hblock,
    (hfresh _ _ hblock).2 _ (List.prefix_refl _)⟩

end TensorGraph
