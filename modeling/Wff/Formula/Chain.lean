import Wff.Formula.Basic

/-!
# Wff.Formula.Chain — joining operands

Each binary kind makes one formula of two operands.  The converse kinds exchange the operands, the
kinds named `non…` negate the result; so eight connectives serve twelve kinds.  A chain of operands
is joined from left to right, every link by its own kind.
-/

namespace Wff

/-- The formula that a kind makes of two operands; a kind that is not binary makes none. -/
def Kind.join? : Kind → Formula → Formula → Option Formula
  | .and, l, r => some (.binary .and l r)
  | .nand, l, r => some (.binary .nand l r)
  | .or, l, r => some (.binary .or l r)
  | .nor, l, r => some (.binary .nor l r)
  | .xor, l, r => some (.binary .xor l r)
  | .xnor, l, r => some (.binary .xnor l r)
  | .implies, l, r => some (.binary .implies l r)
  | .converse, l, r => some (.binary .implies r l)
  | .nonImplication, l, r => some (.not (.binary .implies l r))
  | .nonConverse, l, r => some (.not (.binary .implies r l))
  | .iff, l, r => some (.binary .iff l r)
  | .nonIff, l, r => some (.not (.binary .iff l r))
  | .not, _, _ | .var, _, _ | .verum, _, _ | .falsum, _, _ => none

/-- Join the links to the first operand from left to right.  The error is the first kind that joins
nothing. -/
def Formula.chain (first : Formula) : List (Kind × Formula) → Except Kind Formula
  | [] => .ok first
  | (k, operand) :: links =>
    match k.join? first operand with
    | some joined => joined.chain links
    | none => .error k

theorem Kind.join?_isSome (k : Kind) (l r : Formula) : (k.join? l r).isSome = k.isBinary := by
  cases k <;> rfl

end Wff
