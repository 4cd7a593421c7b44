import Mathlib.Tactic

/-!
# Explicit-stack traversal of a finite tree

A loop keeps a stack of nodes. Each iteration pops one node, collects what the node emits and pushes
its children. A rank that falls from a node to its children makes the tree below every node finite.
The loop then needs as many iterations as there are nodes below its stack, and it collects what all
these nodes emit, each once, in some order.
-/

namespace Wispr.Foundation.Worklist

variable {σ ο : Type}

structure Tree (σ ο : Type) where
  emit : σ → List ο
  children : σ → List σ
  rank : σ → ℕ
  rank_lt : ∀ node, ∀ child ∈ children node, rank child < rank node

namespace Tree

variable (tree : Tree σ ο)

/-- The loop; `none` when `fuel` iterations have not emptied the stack. -/
def loop : ℕ → List σ → List ο → Option (List ο)
  | _, [], found => some found
  | 0, _ :: _, _ => none
  | fuel + 1, node :: stack, found =>
      loop fuel ((tree.children node).reverse ++ stack) (found ++ tree.emit node)

/-- Everything emitted at a node and below it. -/
def outputs (node : σ) : List ο :=
  tree.emit node ++ (tree.children node).attach.flatMap fun child ↦ outputs child.1
termination_by tree.rank node
decreasing_by exact tree.rank_lt node child.1 child.2

/-- The number of nodes at and below a node. -/
def size (node : σ) : ℕ :=
  1 + ((tree.children node).attach.map fun child ↦ size child.1).sum
termination_by tree.rank node
decreasing_by exact tree.rank_lt node child.1 child.2

theorem outputs_eq (node : σ) :
    tree.outputs node = tree.emit node ++ (tree.children node).flatMap tree.outputs := by
  rw [outputs, List.flatMap_subtype (fun _ _ ↦ rfl), List.unattach_attach]

theorem size_eq (node : σ) :
    tree.size node = 1 + ((tree.children node).map tree.size).sum := by
  rw [size, List.map_attach_eq_pmap, List.pmap_eq_map]

/-- Every property of nodes that passes from all children to their parent holds of every node. -/
theorem induction {motive : σ → Prop}
    (step : ∀ node, (∀ child ∈ tree.children node, motive child) → motive node) (node : σ) :
    motive node := by
  induction hrank : tree.rank node using Nat.strong_induction_on generalizing node with
  | _ rank ih =>
    apply step
    intro child hchild
    exact ih (tree.rank child) (hrank ▸ tree.rank_lt node child hchild) child rfl

/-- Further iterations change nothing once the stack is empty. -/
theorem loop_mono {fuel : ℕ} {stack : List σ} {found result : List ο}
    (h : tree.loop fuel stack found = some result) {fuel' : ℕ} (hfuel : fuel ≤ fuel') :
    tree.loop fuel' stack found = some result := by
  induction fuel generalizing stack found fuel' with
  | zero =>
    cases stack with
    | nil => simpa [loop] using h
    | cons node stack => cases h
  | succ fuel ih =>
    obtain ⟨more, rfl⟩ : ∃ more, fuel' = more + 1 := ⟨fuel' - 1, by omega⟩
    cases stack with
    | nil => exact h
    | cons node stack => exact ih h (by omega)

/-- With one iteration for each node below the stack the loop ends, and it has then collected the
outputs of these nodes. -/
theorem loop_perm {fuel : ℕ} (stack : List σ) (found : List ο)
    (hfuel : (stack.map tree.size).sum ≤ fuel) :
    ∃ result, tree.loop fuel stack found = some result ∧
      result.Perm (found ++ stack.flatMap tree.outputs) := by
  induction fuel generalizing stack found with
  | zero =>
    cases stack with
    | nil => exact ⟨found, rfl, by simp⟩
    | cons node stack =>
      rw [List.map_cons, List.sum_cons, size_eq] at hfuel
      omega
  | succ fuel ih =>
    cases stack with
    | nil => exact ⟨found, rfl, by simp⟩
    | cons node stack =>
      have hrest : (((tree.children node).reverse ++ stack).map tree.size).sum ≤ fuel := by
        rw [List.map_cons, List.sum_cons, size_eq] at hfuel
        rw [List.map_append, List.sum_append, List.map_reverse, List.sum_reverse]
        omega
      obtain ⟨result, hresult, hperm⟩ := ih _ (found ++ tree.emit node) hrest
      refine ⟨result, hresult, hperm.trans ?_⟩
      have hchildren : ((tree.children node).reverse.flatMap tree.outputs).Perm
          ((tree.children node).flatMap tree.outputs) :=
        List.Perm.flatMap_right _ (List.reverse_perm _)
      rw [List.flatMap_append, List.flatMap_cons, tree.outputs_eq node]
      simp only [List.append_assoc]
      exact (hchildren.append_right _).append_left _ |>.append_left _

end Tree

end Wispr.Foundation.Worklist
