import Wff.Text

/-!
# Wff.Connective — kinds of operator, their binding strength and their glyphs

`Kind` names everything that an operator symbol or the head of a formula can be.  `Connective` is
the smaller set that a formula is built from: the other four binary kinds are abbreviations, spelled
out when operands are joined.
-/

namespace Wff

/-- What a symbol or the head of a formula is. -/
inductive Kind
  | and | nand
  | or | nor | xor | xnor
  | implies | converse | nonImplication | nonConverse
  | iff | nonIff
  | not
  | var
  | verum | falsum
  deriving DecidableEq, Repr

/-- How tightly an operator binds, from the tightest band to the loosest. -/
inductive Band
  | negation | conjunction | disjunction | implication | biconditional
  deriving DecidableEq, Repr

inductive Connective
  | and | nand | or | nor | xor | xnor | implies | iff
  deriving DecidableEq, Repr, Hashable

namespace Kind

def all : List Kind :=
  [.and, .nand, .or, .nor, .xor, .xnor, .implies, .converse, .nonImplication, .nonConverse,
   .iff, .nonIff, .not, .var, .verum, .falsum]

/-- The band of an operator; operands have none. -/
def band? : Kind → Option Band
  | .not => some .negation
  | .and | .nand => some .conjunction
  | .or | .nor | .xor | .xnor => some .disjunction
  | .implies | .converse | .nonImplication | .nonConverse => some .implication
  | .iff | .nonIff => some .biconditional
  | .var | .verum | .falsum => none

/-- Does the kind stand between two operands?  So do all bands but that of negation. -/
def isBinary (k : Kind) : Bool :=
  match k.band? with
  | none | some .negation => false
  | some _ => true

def ofBool : Bool → Kind
  | true => .verum
  | false => .falsum

def name : Kind → String
  | .and => "And"
  | .nand => "Nand"
  | .or => "Or"
  | .nor => "Nor"
  | .xor => "Xor"
  | .xnor => "Xnor"
  | .implies => "Implies"
  | .converse => "Converse"
  | .nonImplication => "NonImplication"
  | .nonConverse => "NonConverse"
  | .iff => "Iff"
  | .nonIff => "NonIff"
  | .not => "Not"
  | .var => "Variable"
  | .verum => "True"
  | .falsum => "False"

/-- The glyph that stands for the kind in written formulas; a variable has only its name. -/
def glyph : Kind → Text
  | .and => ['∧']
  | .nand => ['↑']
  | .or => ['∨']
  | .nor => ['↓']
  | .xor => ['⊕']
  | .xnor => ['⊙']
  | .implies => ['→']
  | .converse => ['←']
  | .nonImplication => ['↛']
  | .nonConverse => ['↚']
  | .iff => ['↔']
  | .nonIff => ['↮']
  | .not => ['¬']
  | .var => []
  | .verum => ['⊤']
  | .falsum => ['⊥']

theorem mem_all (k : Kind) : k ∈ all := by cases k <;> decide

end Kind

def Connective.kind : Connective → Kind
  | .and => .and
  | .nand => .nand
  | .or => .or
  | .nor => .nor
  | .xor => .xor
  | .xnor => .xnor
  | .implies => .implies
  | .iff => .iff

end Wff
