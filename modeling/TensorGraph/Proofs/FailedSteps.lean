import TensorGraph.Proofs.Draft

/-!
# Steps that fail

A sequence of steps fails where its first failing step does. The lemmas of the first section open a
failed sequence of steps into those that succeeded and the one that failed. A failed step leaves a
state behind too (`Step.left`).
-/

namespace TensorGraph

namespace Step

variable {ε σ α β : Type} {s s' : σ} {e e' : ε}

/-- A step that succeeds goes on with what it gives. -/
theorem bind_of_ok {x : EStateM ε σ α} {f : α → EStateM ε σ β} {r : σ} {a : α} (h : x s = .ok a r) :
    (x >>= f) s = f a r := by
  simp only [bind, EStateM.bind, h]

/-! ## Failures -/

theorem bind_eq_error {x : EStateM ε σ α} {f : α → EStateM ε σ β} :
    (x >>= f) s = .error e s' ↔ x s = .error e s' ∨ ∃ a r, x s = .ok a r ∧ f a r = .error e s' := by
  simp only [bind, EStateM.bind]
  cases x s with
  | ok a r => simp
  | error e r => simp

theorem get_bind_eq_error {f : σ → EStateM ε σ β} : ((get : EStateM ε σ σ) >>= f) s = .error e s' ↔
    f s s = .error e s' := Iff.rfl

/-- The state that a step leaves, whether it succeeds or fails. -/
def left (x : EStateM ε σ α) (s : σ) : σ :=
  match x s with
  | .ok _ s' => s'
  | .error _ s' => s'

/-- What a step gives if it succeeds. -/
def result? (x : EStateM ε σ α) (s : σ) : Option α :=
  match x s with
  | .ok a _ => some a
  | .error _ _ => none

theorem left_of_ok {x : EStateM ε σ α} {a : α} (h : x s = .ok a s') : left x s = s' := by
  rw [left, h]

theorem left_of_error {x : EStateM ε σ α} (h : x s = .error e s') : left x s = s' := by
  rw [left, h]

theorem result?_eq_some_iff {x : EStateM ε σ α} {a : α} :
    result? x s = some a ↔ ∃ s', x s = .ok a s' := by
  unfold result?
  cases x s with
  | ok b r => simp
  | error e r => simp

/-- A relation that holds between the states before and after single steps holds for a sequence of
two. -/
theorem left_bind {R : σ → σ → Prop} (htrans : ∀ a b c, R a b → R b c → R a c) {x : EStateM ε σ α}
    {f : α → EStateM ε σ β} (hx : R s (left x s)) (hf : ∀ a r, x s = .ok a r → R r (left (f a) r)) :
    R s (left (x >>= f) s) := by
  cases h : x s with
  | ok a r =>
    have hbind : left (x >>= f) s = left (f a) r := by
      cases hf : f a r with
      | ok b s' => rw [left_of_ok hf, left_of_ok (bind_eq_ok.2 ⟨a, r, h, hf⟩)]
      | error e s' => rw [left_of_error hf, left_of_error (bind_eq_error.2 (Or.inr ⟨a, r, h, hf⟩))]
    rw [left_of_ok h] at hx
    rw [hbind]
    exact htrans _ _ _ hx (hf a r h)
  | error e r =>
    rw [left_of_error h] at hx
    rwa [left_of_error (bind_eq_error.2 (Or.inl h))]

end Step

namespace Lower

variable {α : Type} {e : Failure} {s s' : Lowering}

theorem locate_eq_error {x : Lower α} {site : Site} :
    locate site x s = .error e s' ↔ ∃ e', x s = .error e' s' ∧ e = e'.locate site := by
  unfold locate
  cases x s with
  | ok a s => simp
  | error e' s =>
    simp only [EStateM.Result.error.injEq]
    constructor
    · rintro ⟨rfl, rfl⟩
      exact ⟨e', ⟨rfl, rfl⟩, rfl⟩
    · rintro ⟨e', ⟨rfl, rfl⟩, rfl⟩
      exact ⟨rfl, rfl⟩

end Lower

end TensorGraph
