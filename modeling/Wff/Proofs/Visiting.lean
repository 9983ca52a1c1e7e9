import Wff.Formula.Written
import Wff.Proofs.Accounting
import Wff.Proofs.Bytes

/-!
# Wff.Proofs.Visiting — loops over pending nodes do what recursion does

The loop that writes a formula ends because the weight of the pending pieces falls (`weight_pieces`), and
what is written and what is pending always make up the text (`writeFrom_eq`).  A loop that visits the nodes
keeps pending nodes, takes one of them, and puts its children among the others.  `Visiting` lets it take
any.

* What is visited and what is under the pending nodes are the nodes of the formula, each once
  (`Visiting.perm`, by one step and then by induction on the run).  So the loop ends after as many visits
  as there are nodes.
* Depth and names are read off the nodes visited, in whatever order these come (`depth_eq_foldl`,
  `mem_names_iff_of_perm`); the depth is the `height` by recursion (`depth_eq_height`), and the names are
  those of the leaves.
-/

namespace Wff

namespace Formula

/-- The number of nodes from the root to the deepest leaf, by recursion on the formula. -/
def height : Formula → Nat
  | var _ | const _ => 1
  | not operand => 1 + operand.height
  | binary _ left right => 1 + max left.height right.height

/-- After these visits these nodes are pending, each with its distance from the root; the next one to be
visited may be any of them. -/
inductive Visiting (f : Formula) : List (Nat × Formula) → List (Nat × Formula) → Prop
  | start : Visiting f [] [(0, f)]
  | visit {visited pending rest : List (Nat × Formula)} {level : Nat} {node : Formula}
      (before : Visiting f visited pending) (taken : pending.Perm ((level, node) :: rest)) :
      Visiting f (visited ++ [(level, node)])
        (node.children.map (fun child => (level + 1, child)) ++ rest)

/-! ### All nodes are visited -/

theorem preorder_eq (f : Formula) (level : Nat) :
    f.preorder level =
      (level, f) :: (f.children.map fun child => (level + 1, child)).flatMap fun p => p.2.preorder p.1 := by
  cases f <;> simp [preorder, children]

theorem length_flatMap_preorder (pending : List (Nat × Formula)) :
    (pending.flatMap fun p => p.2.preorder p.1).length = totalWeight (fun p => p.2.size) pending := by
  induction pending with
  | nil => rfl
  | cons p pending ih => rw [List.flatMap_cons, List.length_append, length_preorder, ih, totalWeight_cons]

namespace Visiting

variable {f : Formula} {visited pending : List (Nat × Formula)}

/-- The nodes visited and those under the pending ones are all nodes, each once. -/
theorem perm (h : Visiting f visited pending) :
    (visited ++ pending.flatMap fun p => p.2.preorder p.1).Perm f.walk := by
  induction h with
  | start => simp [walk_eq_preorder]
  | @visit visited pending rest level node before taken ih =>
    -- the node and what is under its children are what is under the node
    have hunder : (level, node) :: (node.children.map (fun child => (level + 1, child)) ++ rest).flatMap
        (fun p => p.2.preorder p.1) = ((level, node) :: rest).flatMap fun p => p.2.preorder p.1 := by
      rw [List.flatMap_append, ← List.cons_append, ← preorder_eq, List.flatMap_cons]
    rw [List.append_assoc, List.singleton_append, hunder]
    exact ((taken.flatMap_right _).symm.append_left visited).trans ih

/-- Every visit takes one from the nodes that are left. -/
theorem length_add_weight (h : Visiting f visited pending) :
    visited.length + totalWeight (fun p => p.2.size) pending = f.size := by
  have hlength := h.perm.length_eq
  rwa [List.length_append, length_flatMap_preorder, walk_eq_preorder, length_preorder] at hlength

theorem perm_walk (h : Visiting f visited []) : visited.Perm f.walk := by
  simpa using h.perm

/-- The loop that goes in preorder is one of them. -/
theorem goes_on (h : Visiting f visited.reverse pending) : Visiting f (walkFrom visited pending) [] := by
  fun_induction walkFrom visited pending with
  | case1 => exact h
  | case2 visited level node pending ih =>
    apply ih
    rw [List.reverse_cons]
    exact .visit h (List.Perm.refl _)

end Visiting

theorem visiting_walk (f : Formula) : Visiting f f.walk [] := by
  have hstart : Visiting f ([] : List (Nat × Formula)).reverse [(0, f)] := .start
  exact hstart.goes_on

/-! ### What the visits find -/

theorem foldl_preorder (f : Formula) (level deepest : Nat) :
    (f.preorder level).foldl (fun deepest p => max deepest (p.1 + 1)) deepest =
      max deepest (level + f.height) := by
  induction f generalizing level deepest with
  | var | const => rfl
  | not operand ih =>
    rw [preorder, List.foldl_cons, ih, height]
    omega
  | binary c left right ihLeft ihRight =>
    rw [preorder, List.foldl_cons, List.foldl_append, ihLeft, ihRight, height]
    omega

theorem depth_eq_height (f : Formula) : f.depth = f.height := by
  rw [depth, walk_eq_preorder, foldl_preorder, Nat.zero_add, Nat.zero_max]

theorem depth_eq_foldl {f : Formula} {visited : List (Nat × Formula)} (h : visited.Perm f.walk) :
    f.depth = visited.foldl (fun deepest p => max deepest (p.1 + 1)) 0 := by
  refine (h.foldl_eq' ?_ 0).symm
  intro p _ q _ deepest
  exact Nat.max_right_comm deepest (p.1 + 1) (q.1 + 1)

theorem mem_names_iff {f : Formula} {name : Text} : name ∈ f.names ↔ name ∈ f.leafNames :=
  (f.names_spec.2 name).trans var_mem_heads_iff

theorem mem_names_iff_of_perm {f : Formula} {visited : List (Nat × Formula)} (h : visited.Perm f.walk)
    (name : Text) : name ∈ f.names ↔ ∃ p ∈ visited, p.2.name? = some name := by
  rw [f.names_spec.2, heads, List.mem_map]
  simp only [h.mem_iff, name?_eq_some_iff]

/-- The names are in the order of their bytes, each once. -/
theorem names_ascending (f : Formula) : f.names.Pairwise fun a b => a.bytes < b.bytes :=
  f.names_spec.1.imp Text.bytes_lt_iff.mpr

/-- **The loops give what recursion gives.**  The text is the one by recursion, the depth is the height, and
the names are those of the leaves, in order and each once.  The loop that lists the nodes may take any
pending node next: it ends when as many nodes are visited as there are, and depth and names are those of
the nodes in the order visited. -/
theorem loops_agree_with_recursion (f : Formula) :
    f.written = f.text ∧ f.depth = f.height ∧
    (f.names.Pairwise (fun a b => a.bytes < b.bytes) ∧
      ∀ name, name ∈ f.names ↔ name ∈ f.leafNames) ∧
    Visiting f f.walk [] ∧
    ∀ visited pending, Visiting f visited pending →
      visited.length + totalWeight (fun p => p.2.size) pending = f.size ∧
      (pending = [] →
        f.depth = visited.foldl (fun deepest p => max deepest (p.1 + 1)) 0 ∧
        ∀ name, name ∈ f.names ↔ ∃ p ∈ visited, p.2.name? = some name) := by
  refine ⟨f.written_eq_text, f.depth_eq_height, ⟨f.names_ascending, fun name => mem_names_iff⟩,
    f.visiting_walk, fun visited pending h => ⟨h.length_add_weight, ?_⟩⟩
  rintro rfl
  exact ⟨depth_eq_foldl h.perm_walk, mem_names_iff_of_perm h.perm_walk⟩

end Formula

end Wff
