import Wff.Formula.Basic

/-!
# Wff.Formula.Traversal — visiting a formula with a list of pending work

Formulas of any depth are visited by loops over a list of pending nodes, so that depth costs no
recursion.  `walk` lists the nodes in preorder with their distance from the root; depth, names and
node list are read off that list.  `same` compares two formulas pair by pair, `feed` gives the nodes to
a hasher, and `copy?` rebuilds a formula from its leaves.  Each loop has an equation that says what it
does with any pending work.
-/

namespace Wff

namespace Formula

/-! ### Preorder -/

/-- Visit the pending nodes, each with its distance from the root, children before later nodes. -/
def walkFrom (visited : List (Nat × Formula)) : List (Nat × Formula) → List (Nat × Formula)
  | [] => visited.reverse
  | (level, f) :: pending =>
    walkFrom ((level, f) :: visited) (f.children.map (fun child => (level + 1, child)) ++ pending)
termination_by pending => totalWeight (fun p => p.2.size) pending
decreasing_by
  have : totalWeight (fun child => child.size) f.children < f.size := f.totalWeight_children
  simp only [totalWeight_append, totalWeight_map, totalWeight_cons]
  omega

/-- The nodes in preorder, each with its distance from the root. -/
def walk (f : Formula) : List (Nat × Formula) := walkFrom [] [(0, f)]

/-- The nodes in preorder by recursion on the formula, whose root is `level` steps down. -/
def preorder (level : Nat) : Formula → List (Nat × Formula)
  | var name => [(level, var name)]
  | const value => [(level, const value)]
  | not operand => (level, not operand) :: operand.preorder (level + 1)
  | binary c left right =>
    (level, binary c left right) :: (left.preorder (level + 1) ++ right.preorder (level + 1))

theorem walkFrom_eq (visited pending : List (Nat × Formula)) :
    walkFrom visited pending = visited.reverse ++ pending.flatMap fun p => p.2.preorder p.1 := by
  fun_induction walkFrom visited pending with
  | case1 => simp
  | case2 visited level f pending ih =>
    rw [ih]
    cases f <;> simp [children, preorder]

theorem walk_eq_preorder (f : Formula) : f.walk = f.preorder 0 := by
  simp [walk, walkFrom_eq]

theorem length_preorder (f : Formula) (level : Nat) : (f.preorder level).length = f.size := by
  induction f generalizing level with
  | var | const => rfl
  | not operand ih => rw [preorder, List.length_cons, ih, size, Nat.add_comm]
  | binary c left right ihLeft ihRight =>
    rw [preorder, List.length_cons, List.length_append, ihLeft, ihRight, size]
    omega

/-- The heads of all nodes in preorder. -/
def heads (f : Formula) : List Head := f.walk.map fun p => p.2.head

/-- The number of nodes from the root to the deepest leaf. -/
def depth (f : Formula) : Nat := f.walk.foldl (fun deepest p => max deepest (p.1 + 1)) 0

/-- The names that occur, each once, in order of code points. -/
def names (f : Formula) : List Text :=
  let occurrences := f.walk.filterMap fun p => p.2.name?
  (occurrences.mergeSort fun a b => !Text.precedes a b).foldl
    (fun kept name => if kept.head? = some name then kept else name :: kept) []

/-! ### Equality -/

theorem totalWeight_zip_le (fs gs : List Formula) :
    totalWeight (fun p => p.1.size) (fs.zip gs) ≤ totalWeight size fs := by
  induction fs generalizing gs with
  | nil => simp
  | cons f fs ih =>
    cases gs with
    | nil => simp
    | cons g gs => simpa using ih gs

/-- Do all pending pairs consist of equal formulas? -/
def sameFrom : List (Formula × Formula) → Bool
  | [] => true
  | (f, g) :: pending =>
    if f.head = g.head then sameFrom (f.children.zip g.children ++ pending) else false
termination_by pending => totalWeight (fun p => p.1.size) pending
decreasing_by
  have := totalWeight_zip_le f.children g.children
  have := f.totalWeight_children
  simp only [totalWeight_append, totalWeight_cons]
  omega

def same (f g : Formula) : Bool := sameFrom [(f, g)]

theorem eq_iff_of_head_eq {f g : Formula} (h : f.head = g.head) :
    f = g ↔ ∀ p ∈ f.children.zip g.children, p.1 = p.2 := by
  cases f <;> cases g <;> simp_all [head, children]

theorem sameFrom_iff (pending : List (Formula × Formula)) :
    sameFrom pending = true ↔ ∀ p ∈ pending, p.1 = p.2 := by
  fun_induction sameFrom pending with
  | case1 => simp
  | case2 f g pending h ih =>
    rw [ih, List.forall_mem_append, List.forall_mem_cons, eq_iff_of_head_eq h]
  | case3 f g pending h =>
    have : f ≠ g := fun heq => h (heq ▸ rfl)
    simp [this]

theorem same_iff {f g : Formula} : f.same g = true ↔ f = g := by
  simp [same, sameFrom_iff]

instance : BEq Formula := ⟨same⟩

instance : LawfulBEq Formula where
  eq_of_beq h := same_iff.1 h
  rfl := same_iff.2 rfl

instance : DecidableEq Formula := fun _ _ => decidable_of_iff _ same_iff

/-! ### Hashing -/

/-- Feed the pending formulas to a hasher, children before later nodes. -/
def feedFrom {σ : Type} (take : σ → Fed → σ) (state : σ) : List Formula → σ
  | [] => state
  | f :: pending => feedFrom take (f.head.fed.foldl take state) (f.children ++ pending)
termination_by pending => totalWeight size pending
decreasing_by
  have := f.totalWeight_children
  simp only [totalWeight_append, totalWeight_cons]
  omega

def feed {σ : Type} (take : σ → Fed → σ) (state : σ) (f : Formula) : σ := feedFrom take state [f]

/-- What the nodes feed to a hasher, in preorder, by recursion on the formula. -/
def fed : Formula → List Fed
  | var name => (Head.var name).fed
  | const value => (Head.const value).fed
  | not operand => Head.not.fed ++ operand.fed
  | binary c left right => (Head.binary c).fed ++ (left.fed ++ right.fed)

theorem feedFrom_eq {σ : Type} (take : σ → Fed → σ) (state : σ) (pending : List Formula) :
    feedFrom take state pending = (pending.flatMap fed).foldl take state := by
  fun_induction feedFrom take state pending with
  | case1 => rfl
  | case2 state f pending ih =>
    rw [ih]
    cases f <;> simp [head, children, fed, List.foldl_append]

theorem feed_eq {σ : Type} (take : σ → Fed → σ) (state : σ) (f : Formula) :
    f.feed take state = f.fed.foldl take state := by
  simp [feed, feedFrom_eq]

instance : Hashable Formula := ⟨feed (fun h value => mixHash h (hash value)) 7⟩

/-! ### Copies -/

/-- A step of copying: enter a formula, or build its root from copies of its children. -/
inductive CopyStep
  | enter (f : Formula)
  | build (f : Formula)

/-- A bound on the number of steps that a pending step gives rise to. -/
def CopyStep.weight : CopyStep → Nat
  | enter f => 2 * f.size
  | build _ => 1

theorem totalWeight_enter (fs : List Formula) :
    totalWeight CopyStep.weight (fs.map CopyStep.enter) = 2 * totalWeight size fs := by
  induction fs with
  | nil => rfl
  | cons f fs ih =>
    rw [List.map_cons, totalWeight_cons, totalWeight_cons, ih, CopyStep.weight]
    omega

/-- Put a root like that of the formula on the copies built; the right operand was built last. -/
def buildRoot : Formula → List Formula → Option (List Formula)
  | var name, built => some (var name :: built)
  | const value, built => some (const value :: built)
  | not _, operand :: built => some (not operand :: built)
  | binary c _ _, right :: left :: built => some (binary c left right :: built)
  | _, _ => none

/-- Carry out the pending steps on the copies built so far; none if a copy is missing. -/
def copyFrom (built : List Formula) : List CopyStep → Option (List Formula)
  | [] => some built
  | .enter f :: pending => copyFrom built (f.children.map .enter ++ .build f :: pending)
  | .build f :: pending =>
    match buildRoot f built with
    | some built => copyFrom built pending
    | none => none
termination_by pending => totalWeight CopyStep.weight pending
decreasing_by
  · have := f.totalWeight_children
    have := totalWeight_enter f.children
    simp only [totalWeight_append, totalWeight_cons, CopyStep.weight]
    omega
  · simp [CopyStep.weight]

def copy? (f : Formula) : Option Formula := (copyFrom [] [.enter f]).bind List.head?

/-- Entering a formula ends with its copy on top of those built before. -/
theorem copyFrom_enter (f : Formula) (built : List Formula) (pending : List CopyStep) :
    copyFrom built (.enter f :: pending) = copyFrom (f :: built) pending := by
  induction f generalizing built pending with
  | var | const => simp [copyFrom, children, buildRoot]
  | not operand ih =>
    rw [copyFrom]
    simp [children, ih, copyFrom, buildRoot]
  | binary c left right ihl ihr =>
    rw [copyFrom]
    simp [children, ihl, ihr, copyFrom, buildRoot]

end Formula

end Wff
