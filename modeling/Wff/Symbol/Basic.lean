import Wff.Connective

/-!
# Wff.Symbol.Basic — what an alias can stand for
-/

namespace Wff

/-- What an alias stands for in a formula's text. -/
inductive Symbol
  | operator (kind : Kind)
  | constant (value : Bool)
  | negationBefore
  | negationAfter
  | opening
  | closing
  deriving DecidableEq, Repr

/-- The kind of operator or operand that a symbol denotes; brackets denote none. -/
def Symbol.kind? : Symbol → Option Kind
  | operator kind => some kind
  | constant value => some (.ofBool value)
  | negationBefore | negationAfter => some .not
  | opening | closing => none

end Wff
