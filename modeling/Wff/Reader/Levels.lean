import Wff.Reader.Basic

/-!
# Wff.Reader.Levels — the levels of the grammar

Negations bind tightest; then come conjunctions, disjunctions, implications and biconditionals, each
level a chain of operands of the next tighter one.  Brackets lead from the tightest level back to
the loosest, so a reader is given the number of brackets that may be open at once.
-/

namespace Wff

/-- The levels at which a formula can be read, from the loosest on. -/
inductive Level
  | biconditional | implication | disjunction | conjunction | negation | primary
  deriving DecidableEq, Repr

namespace Reader

def conjunctions (operand : Reader) : Reader := chain .conjunction (negations operand)

def disjunctions (operand : Reader) : Reader := chain .disjunction (conjunctions operand)

def implications (operand : Reader) : Reader := chain .implication (disjunctions operand)

def biconditionals (operand : Reader) : Reader := chain .biconditional (implications operand)

def ofLevel (operand : Reader) : Level → Reader
  | .biconditional => biconditionals operand
  | .implication => implications operand
  | .disjunction => disjunctions operand
  | .conjunction => conjunctions operand
  | .negation => negations operand
  | .primary => operand

/-- The reader of formulas with at most `depth` brackets open at once.

The next smaller reader is built only when a bracket is met, so a generous `depth` costs nothing. -/
def expression : (depth : Nat) → Reader
  | 0 => biconditionals (primary none)
  | depth + 1 =>
    { run := fun tokens => (biconditionals (primary (some (expression depth)))).run tokens
      rest_suffix :=
        fun tokens => (biconditionals (primary (some (expression depth)))).rest_suffix tokens }

/-- The reader of operands with at most `depth` brackets open at once. -/
def operand : (depth : Nat) → Reader
  | 0 => primary none
  | depth + 1 => primary (some (expression depth))

theorem expression_eq (depth : Nat) : expression depth = biconditionals (operand depth) := by
  cases depth <;> rfl

def atLevel (depth : Nat) (level : Level) : Reader := ofLevel (operand depth) level

end Reader

end Wff
