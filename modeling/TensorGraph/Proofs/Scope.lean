import Mathlib.Data.List.Basic
import TensorGraph.Model.Basic

/-!
# Names in bodies of nodes

A body reads its names in order : every node reads only names that are defined before the body or by
an earlier node (`ReadsFrom`).
-/

namespace TensorGraph

/-- Every node reads only the names `defined` and outputs of nodes before it. -/
def ReadsFrom (defined : List String) : List Node → Prop
  | [] => True
  | n :: rest => (∀ x ∈ n.inputs, x ∈ defined) ∧ ReadsFrom (defined ++ n.outputs) rest

namespace ReadsFrom

variable {defined defined' : List String} {nodes more : List Node}

theorem append_iff : ReadsFrom defined (nodes ++ more) ↔
    ReadsFrom defined nodes ∧ ReadsFrom (defined ++ nodes.flatMap Node.outputs) more := by
  induction nodes generalizing defined with
  | nil => simp [ReadsFrom]
  | cons n rest ih => simp [ReadsFrom, ih, and_assoc]

/-- Of the names defined before a body only those count that are read. -/
theorem restrict (h : ReadsFrom defined nodes)
    (hsub : ∀ x ∈ defined, x ∈ nodes.flatMap Node.inputs → x ∈ defined') :
    ReadsFrom defined' nodes := by
  induction nodes generalizing defined defined' with
  | nil => trivial
  | cons n rest ih =>
    refine ⟨fun x hx => hsub x (h.1 x hx) (List.mem_append_left _ hx), ih h.2 fun x hx hread => ?_⟩
    rcases List.mem_append.1 hx with hx | hx
    · exact List.mem_append_left _ (hsub x hx (List.mem_append_right _ hread))
    · exact List.mem_append_right _ hx

/-- A name that a node reads is defined before the body or by some node. -/
theorem mem_of_mem_inputs (h : ReadsFrom defined nodes) {n : Node} (hn : n ∈ nodes) {x : String}
    (hx : x ∈ n.inputs) : x ∈ defined ++ nodes.flatMap Node.outputs := by
  induction nodes generalizing defined with
  | nil => simp at hn
  | cons m rest ih =>
    rw [List.flatMap_cons, ← List.append_assoc]
    rcases List.mem_cons.1 hn with rfl | hn
    · exact List.mem_append_left _ (List.mem_append_left _ (h.1 x hx))
    · exact ih h.2 hn

end ReadsFrom

end TensorGraph
