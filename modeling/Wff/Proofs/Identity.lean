import Mathlib.Logic.Basic
import Wff.Formula.Traversal

/-!
# Wff.Proofs.Identity — formulas told apart by comparing and by hashing

Two formulas are the same if they have the same heads at the same paths from the root
(`Formula.eq_of_headAt?`), and this is what the loop over pending pairs decides.  What a node feeds to a
hasher can be told from what comes after it (`Head.fed_append_inj`), as its tag says what it holds; and
its head says how many children follow.  So the loop over pairs decides equality of what is fed as well
(`Formula.flatMap_fed_eq_iff`): no two formulas feed a hasher the same values.
-/

namespace Wff

/-- What one node feeds ends where it ends, whatever comes after. -/
theorem Head.fed_append_inj {head head' : Head} {rest rest' : List Fed}
    (h : head.fed ++ rest = head'.fed ++ rest') : head = head' ∧ rest = rest' := by
  cases head <;> cases head' <;> simp_all [fed]

namespace Formula

/-! ### Heads at paths -/

/-- The head of the node that a path leads to, child by child from the root, if there is one. -/
def headAt? (f : Formula) : List Nat → Option Head
  | [] => some f.head
  | i :: path => f.children[i]?.bind fun child => child.headAt? path

/-- Equal heads at equal paths make equal formulas. -/
theorem eq_of_headAt? {f g : Formula} (h : ∀ path, f.headAt? path = g.headAt? path) : f = g := by
  have hhead : f.head = g.head := Option.some.inj (h [])
  induction f generalizing g with
  | var | const =>
    cases g <;> cases hhead
    rfl
  | not operand ih =>
    cases g <;> cases hhead
    rename_i operand'
    have hoperand : ∀ path, operand.headAt? path = operand'.headAt? path := fun path => h (0 :: path)
    rw [ih hoperand (Option.some.inj (hoperand []))]
  | binary c left right ihLeft ihRight =>
    cases g <;> cases hhead
    rename_i left' right'
    have hleft : ∀ path, left.headAt? path = left'.headAt? path := fun path => h (0 :: path)
    have hright : ∀ path, right.headAt? path = right'.headAt? path := fun path => h (1 :: path)
    rw [ihLeft hleft (Option.some.inj (hleft [])), ihRight hright (Option.some.inj (hright []))]

theorem same_eq_false_iff {f g : Formula} :
    f.same g = false ↔ ∃ path, f.headAt? path ≠ g.headAt? path := by
  rw [← Bool.not_eq_true, same_iff, ← not_forall]
  exact not_congr ⟨fun h path => by rw [h], eq_of_headAt?⟩

/-- Formulas whose leaves are the same from left to right are told apart by where they are joined. -/
example :
    (binary .or (binary .or (var ['a']) (var ['b'])) (var ['c'])).same
      (binary .or (var ['a']) (binary .or (var ['b']) (var ['c']))) = false := by
  cbv

/-! ### Values fed -/

theorem fed_eq (f : Formula) : f.fed = f.head.fed ++ f.children.flatMap fed := by
  cases f <;> simp [fed, head, children]

theorem flatMap_zip_children {α : Type} {f g : Formula} (h : f.head = g.head)
    (values : Formula → List α) :
    (f.children.zip g.children).flatMap (fun p => values p.1) = f.children.flatMap values ∧
      (f.children.zip g.children).flatMap (fun p => values p.2) = g.children.flatMap values := by
  cases f <;> cases g <;> cases h <;> simp [children]

/-- The formulas on the left of the pending pairs feed the same as those on the right just if the loop
finds all pairs equal. -/
theorem flatMap_fed_eq_iff (pending : List (Formula × Formula)) :
    pending.flatMap (fun p => p.1.fed) = pending.flatMap (fun p => p.2.fed) ↔
      sameFrom pending = true := by
  fun_induction sameFrom pending with
  | case1 => simp
  | case2 f g pending h ih =>
    obtain ⟨hleft, hright⟩ := flatMap_zip_children h fed
    rw [← ih, List.flatMap_append, List.flatMap_append, hleft, hright, List.flatMap_cons,
      List.flatMap_cons, f.fed_eq, g.fed_eq, h, List.append_assoc, List.append_assoc,
      List.append_right_inj]
  | case3 f g pending h =>
    refine iff_of_false (fun hfed => h ?_) (by simp)
    rw [List.flatMap_cons, List.flatMap_cons, f.fed_eq, g.fed_eq, List.append_assoc,
      List.append_assoc] at hfed
    exact (Head.fed_append_inj hfed).1

theorem fed_eq_iff {f g : Formula} : f.fed = g.fed ↔ f.same g = true := by
  simpa [same] using flatMap_fed_eq_iff [(f, g)]

/-- **Comparing and hashing decide identity**: the loop over pending pairs answers yes just for one and
the same formula, so it is an equivalence, and no just if the heads at some path differ; and the loop that
feeds a hasher gives it the nodes in preorder, values that are the same for two formulas just if the loop
over pairs finds them the same. -/
theorem same_decides_identity :
    (∀ f g : Formula, f.same g = true ↔ f = g) ∧
    Equivalence (fun f g : Formula => f.same g = true) ∧
    (∀ f g : Formula, f.same g = false ↔ ∃ path, f.headAt? path ≠ g.headAt? path) ∧
    (∀ (f : Formula) {σ : Type} (take : σ → Fed → σ) (state : σ),
      f.feed take state = f.fed.foldl take state) ∧
    ∀ f g : Formula, f.fed = g.fed ↔ f.same g = true := by
  refine ⟨fun f g => same_iff, ⟨fun f => same_iff.mpr rfl, ?_, ?_⟩, fun f g => same_eq_false_iff,
    fun f _ take state => f.feed_eq take state, fun f g => fed_eq_iff⟩
  · intro f g h
    exact same_iff.mpr (same_iff.mp h).symm
  · intro f g k hfg hgk
    exact same_iff.mpr ((same_iff.mp hfg).trans (same_iff.mp hgk))

end Formula

end Wff
