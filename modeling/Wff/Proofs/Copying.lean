import Wff.Formula.Traversal

/-!
# Wff.Proofs.Copying — a copy is built of all nodes, and no child is ever missing

Copying keeps two stacks: the steps pending and the copies built.  `Copying f n built pending` says
that after `n` steps of copying `f` the stacks are these.

* Whatever root is to be built next finds copies of its own children on top, the last one first (`Ready`,
  kept by every step: `Copying.ready`).
* Every step takes one from the work that is left, though entering a formula makes more steps pending
  (`Copying.steps`); so the loop ends after two steps for each node.
-/

namespace Wff

namespace Formula

/-- After `n` steps of copying the formula, these copies are built and these steps are pending. -/
inductive Copying (f : Formula) : Nat → List Formula → List CopyStep → Prop
  | start : Copying f 0 [] [.enter f]
  | enter {n : Nat} {g : Formula} {built : List Formula} {pending : List CopyStep}
      (before : Copying f n built (.enter g :: pending)) :
      Copying f (n + 1) built (g.children.map .enter ++ .build g :: pending)
  | build {n : Nat} {g : Formula} {built built' : List Formula} {pending : List CopyStep}
      (before : Copying f n built (.build g :: pending)) (root : buildRoot g built = some built') :
      Copying f (n + 1) built' pending

/-- The pending steps find what they need among the copies built, and in the end there is the formula
alone. -/
inductive Ready (f : Formula) : List Formula → List CopyStep → Prop
  | done : Ready f [f] []
  | enter {g : Formula} {built : List Formula} {pending : List CopyStep}
      (after : Ready f (g :: built) pending) : Ready f built (.enter g :: pending)
  /-- the children of a root that is built are on top, the last one first -/
  | build {g : Formula} {below : List Formula} {pending : List CopyStep}
      (after : Ready f (g :: below) pending) :
      Ready f (g.children.reverse ++ below) (.build g :: pending)

/-! ### One step -/

/-- A root takes its children off the copies built and is put there instead. -/
theorem buildRoot_children (g : Formula) (below : List Formula) :
    buildRoot g (g.children.reverse ++ below) = some (g :: below) := by
  cases g <;> rfl

theorem Ready.enter_all {f : Formula} {gs built : List Formula} {pending : List CopyStep}
    (h : Ready f (gs.reverse ++ built) pending) : Ready f built (gs.map .enter ++ pending) := by
  induction gs generalizing built with
  | nil => exact h
  | cons g gs ih =>
    rw [List.reverse_cons, List.append_assoc] at h
    exact .enter (ih h)

theorem Ready.entered {f g : Formula} {built : List Formula} {pending : List CopyStep}
    (h : Ready f built (.enter g :: pending)) :
    Ready f built (g.children.map .enter ++ .build g :: pending) := by
  cases h with
  | enter after => exact .enter_all (.build after)

theorem Ready.exists_below {f g : Formula} {built : List Formula} {pending : List CopyStep}
    (h : Ready f built (.build g :: pending)) :
    ∃ below, built = g.children.reverse ++ below ∧ Ready f (g :: below) pending := by
  cases h with
  | build after => exact ⟨_, rfl, after⟩

/-! ### All steps -/

namespace Copying

variable {f : Formula} {n : Nat} {built : List Formula} {pending : List CopyStep}

theorem ready (h : Copying f n built pending) : Ready f built pending := by
  induction h with
  | start => exact .enter .done
  | enter before ih => exact ih.entered
  | build before root ih =>
    obtain ⟨below, rfl, hafter⟩ := ih.exists_below
    rw [buildRoot_children] at root
    exact Option.some.inj root ▸ hafter

/-- The steps done and the work left are two steps for each node. -/
theorem steps (h : Copying f n built pending) :
    n + totalWeight CopyStep.weight pending = 2 * f.size := by
  induction h with
  | start => simp [CopyStep.weight]
  | @enter n g built pending before ih =>
    have hsize := g.size_eq
    have hchildren := totalWeight_enter g.children
    simp only [totalWeight_append, totalWeight_cons, CopyStep.weight] at ih ⊢
    omega
  | build before root ih =>
    simp only [totalWeight_cons, CopyStep.weight] at ih
    omega

theorem exists_next (h : Copying f n built pending) (hpending : pending ≠ []) :
    ∃ built' pending', Copying f (n + 1) built' pending' := by
  cases pending with
  | nil => exact absurd rfl hpending
  | cons step pending =>
    cases step with
    | enter g => exact ⟨_, _, .enter h⟩
    | build g =>
      obtain ⟨below, rfl, -⟩ := h.ready.exists_below
      exact ⟨_, _, .build h (buildRoot_children g below)⟩

/-- The loop of the copy comes through all these stacks. -/
theorem copyFrom_eq (h : Copying f n built pending) :
    copyFrom [] [.enter f] = copyFrom built pending := by
  induction h with
  | start => rfl
  | enter before ih => rw [ih, copyFrom]
  | build before root ih => rw [ih, copyFrom, root]

theorem eq_nil_of_weight (h : totalWeight CopyStep.weight pending = 0) : pending = [] := by
  cases pending with
  | nil => rfl
  | cons step pending =>
    cases step with
    | enter g =>
      have hsize := g.size_eq
      rw [totalWeight_cons, CopyStep.weight] at h
      omega
    | build g =>
      rw [totalWeight_cons, CopyStep.weight] at h
      omega

theorem exists_iff : (∃ built pending, Copying f n built pending) ↔ n ≤ 2 * f.size := by
  constructor
  · rintro ⟨built, pending, h⟩
    have hsteps := h.steps
    omega
  · intro hle
    induction n with
    | zero => exact ⟨_, _, .start⟩
    | succ n ih =>
      obtain ⟨built, pending, h⟩ := ih (by omega)
      refine h.exists_next fun hnil => ?_
      have hsteps := h.steps
      rw [hnil, totalWeight_nil] at hsteps
      omega

end Copying

/-- **A copy is the formula itself, and none is ever missing.**  The loop ends after two steps for each
node, with the formula as the only copy built.  At every step before, a root that is to be built finds
its own children on top of the copies built, the last one first, and is put there instead of them. -/
theorem copied_exactly (f : Formula) :
    copyFrom [] [.enter f] = some [f] ∧ f.copy? = some f ∧
    (∀ n, (∃ built pending, Copying f n built pending) ↔ n ≤ 2 * f.size) ∧
    ∀ n built pending, Copying f n built pending →
      copyFrom [] [.enter f] = copyFrom built pending ∧
      (pending = [] ↔ n = 2 * f.size) ∧
      (pending = [] → built = [f]) ∧
      ∀ g later, pending = .build g :: later →
        ∃ below, built = g.children.reverse ++ below ∧ buildRoot g built = some (g :: below) := by
  have hcopied : copyFrom [] [.enter f] = some [f] := by
    rw [copyFrom_enter, copyFrom]
  refine ⟨hcopied, by rw [copy?, hcopied]; rfl, fun n => Copying.exists_iff, ?_⟩
  intro n built pending h
  have hsteps := h.steps
  refine ⟨h.copyFrom_eq, ⟨?_, ?_⟩, ?_, ?_⟩
  · rintro rfl
    simpa using hsteps
  · intro hn
    exact Copying.eq_nil_of_weight (by omega)
  · rintro rfl
    cases h.ready with
    | done => rfl
  · rintro g later rfl
    obtain ⟨below, rfl, -⟩ := h.ready.exists_below
    exact ⟨below, rfl, buildRoot_children g below⟩

end Formula

end Wff
