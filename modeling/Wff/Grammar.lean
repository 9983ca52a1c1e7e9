import Wff.Juxtaposition
import Wff.Reader.Cursor
import Wff.Token.Brackets

/-!
# Wff.Grammar — from texts to tokens and formulas

A table of aliases makes a grammar.  With `implicit` set, conjunctions may be left out between
operands; all offsets, of tokens as of faults, are those of the text as it was given.
-/

namespace Wff

def Token.mapOffset (move : Nat → Nat) (token : Token) : Token :=
  { token with offset := move token.offset }

namespace Table

/-- The tokens of a text.  A conjunction that was left out has the offset of the operand after it. -/
def tokenize (table : Table) (implicit : Bool) (text : Text) : Except Fault (List Token) :=
  if implicit then
    let revealed := table.reveal text
    match table.tokens revealed.text with
    | .ok tokens => .ok (tokens.map (Token.mapOffset revealed.givenOffset))
    | .error fault => .error (fault.mapOffset revealed.givenOffset)
  else table.tokens text

/-- The formula of a text in which every operator is written. -/
def parseExplicit (table : Table) (text : Text) : Except Fault Formula :=
  match table.tokens text with
  | .ok tokens => Formula.ofTokens tokens
  | .error fault => .error fault

def parse (table : Table) (implicit : Bool) (text : Text) : Except Fault Formula :=
  if implicit then
    let revealed := table.reveal text
    (table.parseExplicit revealed.text).mapError (Fault.mapOffset revealed.givenOffset)
  else table.parseExplicit text

end Table

end Wff
