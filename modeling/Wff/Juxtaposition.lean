import Wff.Character.Classes
import Wff.Symbol.Table

/-!
# Wff.Juxtaposition — conjunctions left out between operands

Where one operand ends and the next begins with no operator between them, a conjunction is meant.
`Table.reveal` writes a mark there and records where, so that positions in the new text can be
traced back: a mark stands for the place of the operand after it.
-/

namespace Wff

open Character

/-- The mark of a conjunction that was left out. -/
def conjunctionMark : Char := '.'

namespace Table

def endsOperand (table : Table) (c : Char) : Bool :=
  isAlphanumeric c || table.glyph? c == some .negationAfter || table.glyph? c == some .closing

def startsOperand (table : Table) (c : Char) : Bool :=
  isAlphanumeric c || table.glyph? c == some .negationBefore || table.glyph? c == some .opening

end Table

/-- A text with marks for the conjunctions left out, and their byte offsets in ascending order. -/
structure Revealed where
  text : Text
  marks : Array Nat
  deriving DecidableEq, Repr

/-- A text revealed up to some character: the last one that is not blank, the byte length of the new
text, the new text with the last character first, and the byte offsets of its marks. -/
structure Revealing where
  previous : Option Char
  here : Nat
  written : Text
  marks : Array Nat

namespace Revealing

def begin : Revealing := ⟨none, 0, [], #[]⟩

def mark (revealing : Revealing) : Revealing :=
  { revealing with
    here := revealing.here + conjunctionMark.utf8Size
    written := conjunctionMark :: revealing.written
    marks := revealing.marks.push revealing.here }

def copy (revealing : Revealing) (c : Char) : Revealing :=
  { revealing with here := revealing.here + c.utf8Size, written := c :: revealing.written }

/-- Take one character; blanks between operands make no difference. -/
def step (table : Table) (revealing : Revealing) (c : Char) : Revealing :=
  if isBlank c then revealing.copy c
  else
    let marked :=
      if revealing.previous.any table.endsOperand && table.startsOperand c then revealing.mark
      else revealing
    { marked.copy c with previous := some c }

end Revealing

/-- The text with a mark wherever a conjunction was left out. -/
def Table.reveal (table : Table) (text : Text) : Revealed :=
  let revealing := text.foldl (Revealing.step table) .begin
  ⟨revealing.written.reverse, revealing.marks⟩

namespace Revealed

/-- Of the ascending numbers from index `low` on and before `high`, the index of the first that is
not below `n`. -/
def rankFrom (numbers : Array Nat) (n low high : Nat) : Nat :=
  if low < high then
    let middle := (low + high) / 2
    if numbers.getD middle n < n then rankFrom numbers n (middle + 1) high
    else rankFrom numbers n low middle
  else low
termination_by high - low

/-- How many of the ascending numbers are below `n`. -/
def rank (numbers : Array Nat) (n : Nat) : Nat := rankFrom numbers n 0 numbers.size

/-- The byte offset in the text as given, for an offset in the text with marks. -/
def givenOffset (revealed : Revealed) (offset : Nat) : Nat :=
  offset - rank revealed.marks offset

end Revealed

end Wff
