import Mathlib.Data.List.Induction
import TensorGraph.Proofs.MergedLevels

/-!
# What failed operations leave

Operations of building write before they can fail : the name of a constant is taken before the table
refuses its tensor, and a constant draws a fresh name before it is added. The early writes cannot be
seen after a failure, because building only reaches states in which the names of all constants are
taken (`Family.Reachable.constantsTaken`). The table refuses a name that it has, so the name was
taken before, and it never refuses a fresh name.

Two operations fail half done. Merging has appended what it met before the first function that
clashes with a known one, and an input whose record is refused stays declared.
-/

namespace TensorGraph

namespace Step

variable {ε σ α β : Type} {s : σ}

/-- If the step fails at this state, it leaves the state as it was. -/
def Atomic (x : EStateM ε σ α) (s : σ) : Prop :=
  ∀ e s', x s = .error e s' → s' = s

/-- What single steps keep, a sequence of two keeps. -/
theorem left_bind_of_keeps {I : σ → Prop} {x : EStateM ε σ α} {f : α → EStateM ε σ β} (hs : I s)
    (hx : I s → I (left x s)) (hf : ∀ a r, I r → I (left (f a) r)) : I (left (x >>= f) s) :=
  left_bind (R := fun r r' => I r → I r') (fun _ _ _ h h' ha => h' (h ha)) hx
    (fun a r _ => hf a r) hs

theorem result?_eq_none_iff {x : EStateM ε σ α} :
    result? x s = none ↔ ∃ e s', x s = .error e s' := by
  unfold result?
  cases x s with
  | ok a r => simp
  | error e r => simp

end Step

theorem Build.AllOrNothing.atomic {α : Type} {x : Build α} {b : Builder} (h : AllOrNothing x b) :
    Step.Atomic x b := by
  intro e b' herror
  rcases h with ⟨e', h⟩ | ⟨r, b'', a, h, -⟩
  · exact (EStateM.Result.error.inj (herror.symm.trans h)).2
  · cases h.symm.trans herror

theorem NamePool.reserve_of_mem {pool : NamePool} {name : String} (h : name ∈ pool.used) :
    pool.reserve name = pool := by
  simp [reserve, isUsed, h]

/-- Where the names of constants are taken, the name of a refused tensor was taken before. -/
theorem Build.atomic_addInitializer {b : Builder}
    (htable : b.initializers.names ⊆ b.names.used) (name : String) (tensor : Tensor) :
    Step.Atomic (addInitializer name tensor) b := by
  intro e b' h
  unfold addInitializer at h
  dsimp only [Builder.reserve] at h
  rcases b.initializers.add_cases name tensor with hadd | ⟨hname, hadd | ⟨e', hadd⟩⟩
  · rw [hadd] at h
    cases h
  · rw [hadd] at h
    cases h
  · rw [hadd, NamePool.reserve_of_mem (htable hname)] at h
    exact (EStateM.Result.error.inj h).2.symm

/-! ## Reachable states -/

/-- The names of all constants are taken. -/
def Builder.ConstantsTaken (b : Builder) : Prop :=
  b.initializers.names ⊆ b.names.used

theorem Builder.Declares.constantsTaken {b b' : Builder} {a : Additions} (h : b.Declares a b')
    (hb : b.ConstantsTaken) : b'.ConstantsTaken :=
  fun _ hx => (h.mem_constants hx).elim (fun hx => h.used (hb hx)) id

/-- What adds no constants keeps their names taken. -/
theorem Builder.Adds.constantsTaken {b b' : Builder} {a : Additions} (h : b.Adds a b')
    (ha : a.constants = []) (hb : b.ConstantsTaken) : b'.ConstantsTaken := by
  intro x hx
  rw [InitializerTable.names, h.constants, ha, List.append_nil] at hx
  exact h.used (hb hx)

/-- A model that is finished takes all constants away, and one that cannot be finished takes
none. -/
theorem Build.constantsTaken_finish {b : Builder} (hb : b.ConstantsTaken) (modelName : String)
    (opset : Nat) : (Step.left (finish modelName opset) b).ConstantsTaken := by
  have hexcept : ∀ {α : Type} (x : Except Failure α) {b : Builder}, b.ConstantsTaken →
      (Step.left (ofExcept x) b).ConstantsTaken := fun x => by
    cases x <;> exact id
  refine Step.left_bind_of_keeps hb id fun b₁ r hr => ?_
  refine Step.left_bind_of_keeps hr (hexcept _) fun inputs r₁ hr₁ => ?_
  refine Step.left_bind_of_keeps hr₁ (hexcept _) fun outputs r₂ _ => ?_
  exact List.nil_subset _

namespace Family

/-- What building reaches from an empty pool and no constants. Levels are opened and operated on in
any order, and one that is finished as a model takes the constants away from the others. -/
inductive Reachable : Family → Prop
  | start (name : String) : Reachable (single (.start name))
  | perform {s : Family} (reachable : Reachable s) (turn : Turn) : Reachable (s.perform turn)
  | finish {s : Family} (reachable : Reachable s) (place : Nat) (modelName : String) (opset : Nat) :
    Reachable (s.change place (Step.left (Build.finish modelName opset)))

theorem reachable_after (name : String) (history : List Turn) :
    (after (.start name) history).Reachable := by
  induction history using List.reverseRecOn with
  | nil => exact .start name
  | append_singleton history turn ih =>
    rw [after, List.foldl_append]
    exact ih.perform turn

/-- A change keeps the names of constants taken if it does so for builders. -/
theorem constantsTaken_change {s : Family} (hs : ∀ l, (s.builder l).ConstantsTaken) (place : Nat)
    {f : Builder → Builder} (hf : ∀ b : Builder, b.ConstantsTaken → (f b).ConstantsTaken)
    (l : Level) : ((s.change place f).builder l).ConstantsTaken := by
  cases hm : s.levels[place]? with
  | none =>
    rw [change_of_none hm]
    exact hs l
  | some m =>
    rw [change_of_some hm]
    exact hf (s.builder m) (hs m)

theorem Reachable.constantsTaken {s : Family} (h : s.Reachable) (l : Level) :
    (s.builder l).ConstantsTaken := by
  induction h generalizing l with
  | start name => exact List.nil_subset _
  | @perform s _ turn ih =>
    cases turn with
    | act place action =>
      refine constantsTaken_change ih place (fun b hb => ?_) l
      obtain ⟨a, hdeclares, -⟩ := action.declares_leave b
      exact hdeclares.constantsTaken hb
    | mergeFunctions place functions =>
      refine constantsTaken_change ih place (fun b hb => ?_) l
      obtain ⟨new, -, hadds⟩ := Build.adds_mergeFunctions functions b
      exact hadds.constantsTaken rfl hb
    | openChild place name =>
      simp only [Family.perform]
      cases s.levels[place]? <;> exact ih l
  | finish _ place modelName opset ih =>
    refine constantsTaken_change ih place (fun b hb => ?_) l
    exact Build.constantsTaken_finish hb modelName opset

end Family

/-- What operations leave when they fail at this state : everything as it was, or what they did
before. -/
structure Builder.FailsCleanly (b : Builder) : Prop where
  addNode : ∀ n, Step.Atomic (Build.addNode n) b
  addInitializer : ∀ name tensor, Step.Atomic (Build.addInitializer name tensor) b
  registerRecord : ∀ r, Step.Atomic (Build.registerRecord r) b
  registerFunction : ∀ f, Step.Atomic (Build.registerFunction f) b
  addFunction : ∀ name sub params, Step.Atomic (Build.addFunction name sub params) b
  addCall : ∀ function data params outputs nodeName displayName,
    Step.Atomic (Build.addCall function data params outputs nodeName displayName) b
  /-- A constant is never refused. -/
  addConstant : ∀ base tensor, ∃ x b', Build.addConstant base tensor b = .ok x b'
  /-- The functions before the first one that clashes are merged. -/
  mergeFunctions : ∀ functions e b', Build.mergeFunctions functions b = .error e b' →
    ∃ before f after, functions = before ++ f :: after ∧ ClashFree b.level.functions before ∧
      f.Clashes (b.level.functions ++ before) ∧ b' = b.merged before
  /-- The input is declared, and its name taken. -/
  addInput : ∀ name shape dtype e b', Build.addInput name shape dtype b = .error e b' →
    b' = { b.reserve name with level := { b.level with inputs := b.level.inputs ++ [name] } }

theorem Builder.ConstantsTaken.clean {b : Builder} (h : b.ConstantsTaken) : b.FailsCleanly where
  addNode n := (Build.allOrNothing_addNode b n).atomic
  addInitializer := Build.atomic_addInitializer h
  registerRecord r := (Build.allOrNothing_registerRecord b r).atomic
  registerFunction f := (Build.allOrNothing_registerFunction b f).atomic
  addFunction name sub params := (Build.allOrNothing_addFunction b name sub params).atomic
  addCall function data params outputs nodeName displayName :=
    (Build.allOrNothing_addCall b function data params outputs nodeName displayName).atomic
  addConstant := Build.exists_addConstant h
  mergeFunctions functions e b' herror := by
    obtain ⟨before, hfree, ⟨-, hok⟩ | ⟨f, after, heq, hclash, herror'⟩⟩ :=
      Build.mergeFunctions_spec functions b
    · cases hok.symm.trans herror
    · obtain ⟨-, rfl⟩ := EStateM.Result.error.inj (herror.symm.trans herror')
      exact ⟨before, f, after, heq, hfree, hclash, rfl⟩
  addInput name shape dtype e b' herror := by
    rcases Build.addInput_cases b name shape dtype with ⟨e', h⟩ | ⟨records, log, h⟩
    · exact (EStateM.Result.error.inj (herror.symm.trans h)).2
    · cases h.symm.trans herror

/-- At every level that building reaches, an operation that fails leaves everything as it was, but
for merging, which has appended the functions before the first one that clashes, and for inputs,
which stay declared. Constants never fail. -/
theorem Family.Reachable.failsCleanly {s : Family} (hs : s.Reachable) :
    ∀ l ∈ s.levels, (s.builder l).FailsCleanly :=
  fun l _ => (hs.constantsTaken l).clean

namespace Example

/-- The first level has a constant and a function, and the level inside it a node and a record. -/
def contested : Family :=
  .after (.start "main") [.act 0 (.addInitializer "w" ⟨.u8, [1], [0]⟩),
    .act 0 (.registerFunction (scaling "Outer" .zero)), .openChild 0 "inner",
    .act 1 (.addNode (.plain "Neg" "negation" ["w"] ["y"])),
    .act 1 (.registerRecord ⟨"y", [.fixed 1], .u8, .declared⟩)]

/-- The level inside. -/
def contestedInner : Builder :=
  contested.builder (contested.levels.getLastD (.empty "inner"))

end Example

/-- Four operations fail inside : a constant with the name of another one, a node with the name of
another one, a function that clashes with one of the level around, and an input whose record is
refused. -/
theorem failsCleanly_contested :
    (∃ e, Build.addInitializer "w" ⟨.u8, [1], [1]⟩ Example.contestedInner =
      .error e Example.contestedInner) ∧
    (∃ e, Build.addNode (.plain "Abs" "negation" ["w"] ["z"]) Example.contestedInner =
      .error e Example.contestedInner) ∧
    (∃ e before, Build.mergeFunctions
        [Example.scaling "New" .zero, Example.scaling "Outer" .one,
          Example.scaling "Late" .zero] Example.contestedInner =
          .error e (Example.contestedInner.merged before) ∧
      (Example.contestedInner.merged before).level.functions.map Function.name = ["Outer", "New"]) ∧
    ∃ e, Build.addInput "y" [.fixed 2] .u8 Example.contestedInner =
      .error e { Example.contestedInner.reserve "y" with
        level := { Example.contestedInner.level with inputs := ["y"] } } := by
  have hclean : Example.contestedInner.FailsCleanly :=
    Family.Reachable.failsCleanly (Family.reachable_after "main" _) _ (by decide +kernel)
  have hconstant : Step.result? (Build.addInitializer "w" ⟨.u8, [1], [1]⟩) Example.contestedInner =
      none := by
    decide +kernel
  have hnode :
      Step.result? (Build.addNode (.plain "Abs" "negation" ["w"] ["z"])) Example.contestedInner =
        none := by
    decide +kernel
  have hmerge : Step.result? (Build.mergeFunctions
      [Example.scaling "New" .zero, Example.scaling "Outer" .one, Example.scaling "Late" .zero])
      Example.contestedInner = none := by decide +kernel
  have hnames : (Step.left (Build.mergeFunctions
      [Example.scaling "New" .zero, Example.scaling "Outer" .one, Example.scaling "Late" .zero])
      Example.contestedInner).level.functions.map Function.name =
      ["Outer", "New"] := by decide +kernel
  have hinput : Step.result? (Build.addInput "y" [.fixed 2] .u8) Example.contestedInner = none := by
    decide +kernel
  refine ⟨?_, ?_, ?_, ?_⟩
  · obtain ⟨e, b, h⟩ := Step.result?_eq_none_iff.1 hconstant
    exact ⟨e, hclean.addInitializer _ _ e b h ▸ h⟩
  · obtain ⟨e, b, h⟩ := Step.result?_eq_none_iff.1 hnode
    exact ⟨e, hclean.addNode _ e b h ▸ h⟩
  · obtain ⟨e, b, h⟩ := Step.result?_eq_none_iff.1 hmerge
    obtain ⟨before, f, after, -, -, -, rfl⟩ := hclean.mergeFunctions _ e b h
    exact ⟨e, before, h, Step.left_of_error h ▸ hnames⟩
  · obtain ⟨e, b, h⟩ := Step.result?_eq_none_iff.1 hinput
    exact ⟨e, hclean.addInput _ _ _ e b h ▸ h⟩

end TensorGraph
