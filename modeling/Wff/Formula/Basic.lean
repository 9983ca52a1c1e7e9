import Wff.Connective

/-!
# Wff.Formula.Basic — propositional formulas

A formula is a variable, a truth constant, a negation or two formulas under a connective.
`Formula.head` is what a node holds besides its children; `Formula.children` are those, in order.
-/

namespace Wff

inductive Formula
  | var (name : Text)
  | const (value : Bool)
  | not (operand : Formula)
  | binary (connective : Connective) (left right : Formula)

/-- What a node of a formula holds, its children left out. -/
inductive Head
  | var (name : Text)
  | const (value : Bool)
  | not
  | binary (connective : Connective)
  deriving DecidableEq, Repr

inductive Fed
  | tag (n : Nat)
  | name (letters : Text)
  | value (value : Bool)
  | connective (c : Connective)
  deriving DecidableEq, Repr

instance : Hashable Fed where
  hash
    | .tag n => mixHash 3 (hash n)
    | .name letters => letters.foldl (fun h c => mixHash h (hash c.toNat)) 5
    | .value value => mixHash 7 (hash value)
    | .connective c => mixHash 11 (hash c)

/-- What a node feeds to a hasher: its case, and then what it holds. -/
def Head.fed : Head → List Fed
  | .var name => [.tag 0, .name name]
  | .const value => [.tag 1, .value value]
  | .not => [.tag 2]
  | .binary c => [.tag 3, .connective c]

def Head.kind : Head → Kind
  | .var _ => .var
  | .const value => .ofBool value
  | .not => .not
  | .binary c => c.kind

/-- How a node is written on its own: a variable's name, or the kind's glyph. -/
def Head.label : Head → Text
  | .var name => name
  | head => head.kind.glyph

/-- The sum of the weights of pending work. -/
def totalWeight {α : Type} (weight : α → Nat) : List α → Nat
  | [] => 0
  | x :: pending => weight x + totalWeight weight pending

section Weights

variable {α β : Type} (weight : α → Nat)

@[simp] theorem totalWeight_nil : totalWeight weight [] = 0 := rfl

@[simp] theorem totalWeight_cons (x : α) (pending : List α) :
    totalWeight weight (x :: pending) = weight x + totalWeight weight pending := rfl

@[simp] theorem totalWeight_append (a b : List α) :
    totalWeight weight (a ++ b) = totalWeight weight a + totalWeight weight b := by
  induction a with
  | nil => simp
  | cons x a ih => simp [ih, Nat.add_assoc]

theorem totalWeight_map (f : β → α) (pending : List β) :
    totalWeight weight (pending.map f) = totalWeight (fun x => weight (f x)) pending := by
  induction pending with
  | nil => rfl
  | cons x pending ih => simp [ih]

end Weights

namespace Formula

def size : Formula → Nat
  | var _ | const _ => 1
  | not operand => 1 + operand.size
  | binary _ left right => 1 + left.size + right.size

def head : Formula → Head
  | var name => .var name
  | const value => .const value
  | not _ => .not
  | binary c _ _ => .binary c

/-- The formulas directly under the root, from left to right. -/
def children : Formula → List Formula
  | var _ | const _ => []
  | not operand => [operand]
  | binary _ left right => [left, right]

def kind (f : Formula) : Kind := f.head.kind

def isVar : Formula → Bool
  | var _ => true
  | _ => false

def isConst : Formula → Bool
  | const _ => true
  | _ => false

def isNot : Formula → Bool
  | not _ => true
  | _ => false

def isBinary : Formula → Bool
  | binary .. => true
  | _ => false

/-- Does the root join two formulas by a connective of this kind? -/
def isBinaryOf (f : Formula) (k : Kind) : Bool := f.isBinary && f.kind == k

def name? : Formula → Option Text
  | var name => some name
  | _ => none

def value? : Formula → Option Bool
  | const value => some value
  | _ => none

/-- The formula under `n` further negations. -/
def negated : Nat → Formula → Formula
  | 0, f => f
  | n + 1, f => negated n (.not f)

theorem size_eq (f : Formula) : f.size = totalWeight size f.children + 1 := by
  cases f <;> simp only [children, size, totalWeight_cons, totalWeight_nil] <;> omega

theorem totalWeight_children (f : Formula) : totalWeight size f.children < f.size := by
  rw [f.size_eq]
  exact Nat.lt_succ_self _

theorem negated_add (m n : Nat) (f : Formula) : negated (m + n) f = negated m (negated n f) := by
  induction n generalizing f with
  | zero => rfl
  | succ n ih => exact ih (.not f)

theorem negated_succ (n : Nat) (f : Formula) : negated (n + 1) f = .not (negated n f) := by
  rw [Nat.add_comm, negated_add]
  rfl

end Formula

end Wff
