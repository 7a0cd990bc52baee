import TensorGraph.Proofs.BuilderHistories

/-!
# Merging a nested level into the level around it

A nested level starts with the functions of the level around it, and these come back when its own
are merged. They are recognised by comparing bodies, where numbers are compared as numbers : a
function with an attribute that is not a number differs from itself (`Function.sameBody_self_iff`).

The nested level is the first of a `Family` of levels. It only ever appends functions with new names
(`Family.exists_level_perform`), whatever is done to it or to the others. So merging its functions
appends those that it added, unless the level around it has a function that is not recognised. Then
the first one is reported as declared twice, and nothing is appended (`mergeFunctions_after_child`).
-/

namespace TensorGraph

/-! ## Functions that differ from themselves -/

/-- Is the attribute a floating-point value that is not a number? -/
def Attribute.isNaN : Attribute → Bool
  | .float x => x.isNaN
  | _ => false

/-- Does a node of the function have an attribute that is not a number? -/
def Function.holdsNaN (f : Function) : Bool :=
  f.nodes.any fun n => n.attributes.any fun a => a.2.isNaN

theorem Attribute.same_self_iff {a : Attribute} : a.same a = true ↔ a.isNaN = false := by
  cases a <;> simp [same, isNaN, Binary64.same]

theorem isEqv_self_iff {α : Type} {r : α → α → Bool} {as : List α} :
    as.isEqv as r = true ↔ ∀ a ∈ as, r a a = true := by
  induction as with
  | nil => simp
  | cons a rest ih => simp [List.isEqv, ih]

theorem Node.same_self_iff {n : Node} :
    n.same n = true ↔ ∀ a ∈ n.attributes, a.2.isNaN = false := by
  simp only [same, BEq.rfl, Bool.true_and, Bool.and_true, isEqv_self_iff, Attribute.same_self_iff]

/-- A function is recognised exactly if all its attributes are numbers or no floating-point
values. -/
theorem Function.sameBody_self_iff {f : Function} : f.sameBody f = true ↔ f.holdsNaN = false := by
  simp only [sameBody, BEq.rfl, Bool.true_and, Bool.and_true, isEqv_self_iff, Node.same_self_iff,
    holdsNaN, List.any_eq_false, Bool.not_eq_true]

/-! ## Levels only get functions with new names -/

/-- The functions of a level stay in place, and their names distinct. -/
structure Level.Extends (l l' : Level) : Prop where
  functions : l.functions <+: l'.functions
  distinct : (l.functions.map Function.name).Nodup → (l'.functions.map Function.name).Nodup

theorem Level.Extends.refl (l : Level) : l.Extends l :=
  ⟨List.prefix_refl _, id⟩

theorem Level.Extends.trans {l₁ l₂ l₃ : Level} (h : l₁.Extends l₂) (h' : l₂.Extends l₃) :
    l₁.Extends l₃ :=
  ⟨h.functions.trans h'.functions, fun hnodup => h'.distinct (h.distinct hnodup)⟩

theorem Builder.Adds.extends {b b' : Builder} {a : Additions} (h : b.Adds a b') :
    b.level.Extends b'.level :=
  ⟨h.functions ▸ List.prefix_append _ _, h.distinct⟩

namespace Family

variable {s : Family} {place : Nat} {l : Level}

theorem exists_level_change (h : s.levels[place]? = some l) (p : Nat) {f : Builder → Builder}
    (hf : ∀ b : Builder, ∃ a, b.Adds a (f b)) :
    ∃ l', (s.change p f).levels[place]? = some l' ∧ l.Extends l' := by
  cases hp : s.levels[p]? with
  | none =>
    rw [change_of_none hp]
    exact ⟨l, h, .refl l⟩
  | some m =>
    rw [change_of_some hp]
    by_cases hplace : p = place
    · subst hplace
      obtain rfl : l = m := Option.some.inj (h.symm.trans hp)
      obtain ⟨hlt, -⟩ := List.getElem?_eq_some_iff.1 h
      obtain ⟨a, hadds⟩ := hf (s.builder l)
      exact ⟨(f (s.builder l)).level, List.getElem?_set_self hlt, hadds.extends⟩
    · exact ⟨l, (List.getElem?_set_ne hplace).trans h, .refl l⟩

/-- An operation at any level keeps every level, which at most gets functions with new names. -/
theorem exists_level_perform (h : s.levels[place]? = some l) (turn : Turn) :
    ∃ l', (s.perform turn).levels[place]? = some l' ∧ l.Extends l' := by
  cases turn with
  | act p action =>
    refine exists_level_change h p fun b => ?_
    obtain ⟨a, hdeclares, -⟩ := action.declares_leave b
    exact ⟨a, hdeclares.toAdds⟩
  | mergeFunctions p functions =>
    refine exists_level_change h p fun b => ?_
    obtain ⟨new, -, hadds⟩ := Build.adds_mergeFunctions functions b
    exact ⟨_, hadds⟩
  | openChild p name =>
    simp only [perform]
    cases s.levels[p]? with
    | none => exact ⟨l, h, .refl l⟩
    | some m =>
      obtain ⟨hlt, -⟩ := List.getElem?_eq_some_iff.1 h
      exact ⟨l, (List.getElem?_append_left hlt).trans h, .refl l⟩

theorem exists_level_foldl (h : s.levels[place]? = some l) (history : List Turn) :
    ∃ l', (history.foldl perform s).levels[place]? = some l' ∧ l.Extends l' := by
  induction history generalizing s l with
  | nil => exact ⟨l, h, .refl l⟩
  | cons turn rest ih =>
    obtain ⟨l₁, h₁, hstep⟩ := exists_level_perform h turn
    obtain ⟨l', h', hrest⟩ := ih h₁
    exact ⟨l', h', hstep.trans hrest⟩

theorem exists_first_after (b : Builder) (history : List Turn) :
    ∃ l, (after b history).levels[0]? = some l ∧ b.level.Extends l :=
  @exists_level_foldl (single b) 0 b.level rfl history

/-- The functions that the first level has at some time stay in their places. -/
theorem functions_kept_of_earlier {b : Builder} {earlier history : List Turn}
    (h : earlier <+: history) {l₀ l : Level} (hl₀ : (after b earlier).levels[0]? = some l₀)
    (hl : (after b history).levels[0]? = some l) : l₀.functions <+: l.functions := by
  obtain ⟨later, rfl⟩ := h
  obtain ⟨l', hl', hextends⟩ := exists_level_foldl hl₀ later
  rw [after, List.foldl_append] at hl
  obtain rfl : l = l' := Option.some.inj (hl.symm.trans hl')
  exact hextends.functions

end Family

/-! ## Merging -/

namespace Build

variable {b : Builder}

/-- Functions that come back are passed over up to the first one that is not recognised. -/
theorem mergeFunctions_known_append (hnodup : (b.level.functions.map Function.name).Nodup)
    {known : List Function} (hknown : ∀ f ∈ known, f ∈ b.level.functions) (new : List Function) :
    mergeFunctions (known ++ new) b =
      match known.find? Function.holdsNaN with
      | none => mergeFunctions new b
      | some f => .error (.duplicate "function" f.name) b := by
  induction known with
  | nil => rfl
  | cons f rest ih =>
    rw [List.forall_mem_cons] at hknown
    rw [List.cons_append, mergeFunctions_cons_of_known _ (findFunction?_of_mem hnodup hknown.1),
      ih hknown.2, List.find?_cons]
    cases hnan : f.holdsNaN with
    | false => rw [if_pos (Function.sameBody_self_iff.2 hnan)]
    | true =>
      have hdiffers : ¬f.sameBody f = true := fun hsame => by
        simp [Function.sameBody_self_iff.1 hsame] at hnan
      rw [if_neg hdiffers]

/-- Merging the functions of the level itself and then new ones appends these, if all of the level
are recognised. -/
theorem mergeFunctions_extended {added : List Function}
    (hdistinct : ((b.level.functions ++ added).map Function.name).Nodup) :
    (b.level.functions.find? Function.holdsNaN = none →
      ∃ log, mergeFunctions (b.level.functions ++ added) b =
        .ok () { b with level := { b.level with functions := b.level.functions ++ added }, log }) ∧
    ∀ f, b.level.functions.find? Function.holdsNaN = some f →
      mergeFunctions (b.level.functions ++ added) b =
        .error (.duplicate "function" f.name) b := by
  have hnodup : (b.level.functions.map Function.name).Nodup := by
    rw [List.map_append] at hdistinct
    exact (List.nodup_append.1 hdistinct).1
  have hmerge := mergeFunctions_known_append hnodup (fun f hf => hf) added
  constructor
  · intro hfind
    rw [hmerge, hfind]
    exact mergeFunctions_new hdistinct
  · intro f hfind
    rw [hmerge, hfind]

end Build

/-- After every history of a nested level and of levels inside it, its functions are those of the
level around it and then those that it added, under distinct names, and none that it had at any
time is lost. Merging them appends those that it added if no function of the level around it has an
attribute that is not a number. Otherwise it reports the first one that has as declared twice and
changes nothing. -/
theorem mergeFunctions_after_child {b : Builder}
    (hnodup : (b.level.functions.map Function.name).Nodup) (name : String)
    (history : List Family.Turn) :
    ∃ l added, (Family.after (b.child name) history).levels[0]? = some l ∧
      l.functions = b.level.functions ++ added ∧
      ((b.level.functions ++ added).map Function.name).Nodup ∧
      (∀ earlier, earlier <+: history →
        ∃ l₀, (Family.after (b.child name) earlier).levels[0]? = some l₀ ∧
          l₀.functions <+: b.level.functions ++ added) ∧
      (b.level.functions.find? Function.holdsNaN = none →
        ∃ log, Build.mergeFunctions l.functions
            ((Family.after (b.child name) history).builder b.level) =
          .ok () { names := (Family.after (b.child name) history).names,
                   initializers := (Family.after (b.child name) history).initializers,
                   level := { b.level with functions := b.level.functions ++ added }, log }) ∧
      ∀ f, b.level.functions.find? Function.holdsNaN = some f →
        Build.mergeFunctions l.functions
            ((Family.after (b.child name) history).builder b.level) =
          .error (.duplicate "function" f.name)
            ((Family.after (b.child name) history).builder b.level) := by
  obtain ⟨l, hl, hextends⟩ := Family.exists_first_after (b.child name) history
  obtain ⟨added, hadded⟩ := hextends.functions
  have hfunctions : l.functions = b.level.functions ++ added := hadded.symm
  have hdistinct : ((b.level.functions ++ added).map Function.name).Nodup :=
    hfunctions ▸ hextends.distinct hnodup
  refine ⟨l, added, hl, hfunctions, hdistinct, ?_, ?_⟩
  · intro earlier hearlier
    obtain ⟨l₀, hl₀, -⟩ := Family.exists_first_after (b.child name) earlier
    exact ⟨l₀, hl₀, hfunctions ▸ Family.functions_kept_of_earlier hearlier hl₀ hl⟩
  · rw [hfunctions]
    exact @Build.mergeFunctions_extended
      ((Family.after (b.child name) history).builder b.level) added hdistinct

namespace Example

/-- A function of one node, with an attribute. -/
def scaling (name : String) (factor : Binary64) : Function :=
  ⟨name, functionDomain, ["in_0"], 0, ["out_0"],
    [{ Node.plain "Scale" "Scale_0" ["in_0"] ["out_0"] with
      attributes := [("factor", .float factor)] }], []⟩

/-- A level that knows one function. -/
def scaled (factor : Binary64) : Builder :=
  (Builder.start "main").pushFunction (scaling "Outer" factor)

end Example

-- A level that merges its own function finds it again exactly if it scales by a number.
example : Step.result? (Build.mergeFunctions [Example.scaling "Outer" .zero])
      (Example.scaled .zero) = some () ∧
    Step.result? (Build.mergeFunctions [Example.scaling "Outer" .nan])
      (Example.scaled .nan) = none := by
  decide +kernel

end TensorGraph
