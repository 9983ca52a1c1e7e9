import Wff.Connective

/-!
# Wff.Fault.Basic — what can be wrong with a text, a table or a chain

Every fault of a text carries the byte offset at which it lies.  `Fault.message` words it.
-/

namespace Wff

/-- Why a text, a list of tokens, a table of aliases or a chain of operands is refused. -/
inductive Fault
  | unrecognized (found : Char) (offset : Nat)
  | unmatched (found : Char) (offset : Nat)
  | missingOperand (offset : Nat)
  | trailing (found : Text) (offset : Nat)
  | tooDeep (limit : Nat) (offset : Nat)
  | ambiguousAlias (literal : Text)
  | notBinary (kind : Kind)
  deriving DecidableEq, Repr

namespace Fault

def offset? : Fault → Option Nat
  | unrecognized _ offset | unmatched _ offset | missingOperand offset | trailing _ offset
  | tooDeep _ offset => some offset
  | ambiguousAlias _ | notBinary _ => none

def mapOffset (move : Nat → Nat) : Fault → Fault
  | unrecognized found offset => unrecognized found (move offset)
  | unmatched found offset => unmatched found (move offset)
  | missingOperand offset => missingOperand (move offset)
  | trailing found offset => trailing found (move offset)
  | tooDeep limit offset => tooDeep limit (move offset)
  | ambiguousAlias literal => ambiguousAlias literal
  | notBinary kind => notBinary kind

/-- The fault in words.  What was found is quoted as it stands. -/
def message : Fault → Text
  | unrecognized found offset =>
    "unrecognized character '".toList ++ found :: "' at offset ".toList ++ Text.ofNat offset
  | unmatched found offset =>
    "unmatched delimiter '".toList ++ found :: "' at offset ".toList ++ Text.ofNat offset
  | missingOperand offset => "expected an operand at offset ".toList ++ Text.ofNat offset
  | trailing found offset =>
    "unexpected '".toList ++ found ++ "' at offset ".toList ++ Text.ofNat offset ++
      " after a complete expression".toList
  | tooDeep limit offset =>
    "brackets nested deeper than ".toList ++ Text.ofNat limit ++ " levels at offset ".toList ++
      Text.ofNat offset
  | ambiguousAlias literal =>
    "alias '".toList ++ literal ++ "' is claimed by more than one symbol".toList
  | notBinary kind => kind.name.toList ++ " is not a binary connective".toList

@[simp] theorem offset?_mapOffset (move : Nat → Nat) (fault : Fault) :
    (fault.mapOffset move).offset? = fault.offset?.map move := by
  cases fault <;> rfl

end Fault

end Wff
