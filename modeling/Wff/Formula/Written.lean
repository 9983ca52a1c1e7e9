import Wff.Formula.Basic

/-!
# Wff.Formula.Written — formulas as text

Leaves are written bare, a negation as `¬` before its operand, two formulas under a connective with
the connective's glyph between blanks.  An operand is in parentheses exactly when it joins two
formulas itself; the whole formula never is.  `text` says this by recursion; `written` produces it
piece by piece, without recursion on depth (`written_eq_text`).
-/

namespace Wff

/-- A part of a text still to be written: characters, or a formula to take apart. -/
inductive Piece
  | text (t : Text)
  | formula (f : Formula)

namespace Formula

def operandPieces (f : Formula) : List Piece :=
  if f.isBinary then [.text ['('], .formula f, .text [')']] else [.formula f]

def pieces : Formula → List Piece
  | var name => [.text name]
  | const value => [.text (Kind.ofBool value).glyph]
  | not operand => .text Kind.not.glyph :: operand.operandPieces
  | binary c left right =>
    left.operandPieces ++ .text (' ' :: (c.kind.glyph ++ [' '])) :: right.operandPieces

/-- A bound on the number of pieces that a piece gives rise to. -/
def pieceWeight : Piece → Nat
  | .text _ => 1
  | .formula f => 6 * f.size

theorem weight_operandPieces (f : Formula) :
    totalWeight pieceWeight f.operandPieces ≤ 2 + 6 * f.size := by
  unfold operandPieces
  split
  · simp [pieceWeight]
    omega
  · simp [pieceWeight]

theorem weight_pieces (f : Formula) : totalWeight pieceWeight f.pieces < 6 * f.size := by
  cases f with
  | var | const => simp [pieces, pieceWeight, size]
  | not operand =>
    have := operand.weight_operandPieces
    simp [pieces, pieceWeight, size]
    omega
  | binary c left right =>
    have := left.weight_operandPieces
    have := right.weight_operandPieces
    simp [pieces, pieceWeight, size]
    omega

/-- Write the pending pieces after the text already written, which is kept last character first. -/
def writeFrom (written : Text) : List Piece → Text
  | [] => written.reverse
  | .text t :: pending => writeFrom (t.reverseAux written) pending
  | .formula f :: pending => writeFrom written (f.pieces ++ pending)
termination_by pending => totalWeight pieceWeight pending
decreasing_by
  · simp [pieceWeight]
  · have := f.weight_pieces
    simp [pieceWeight]
    omega

def written (f : Formula) : Text := writeFrom [] [.formula f]

/-! ### The text by recursion -/

/-- An operand, given its text: in parentheses if it joins two formulas. -/
def parenthesized (f : Formula) (text : Text) : Text :=
  if f.isBinary then '(' :: (text ++ [')']) else text

/-- The text by recursion on the formula. -/
def text : Formula → Text
  | var name => name
  | const value => (Kind.ofBool value).glyph
  | not operand => Kind.not.glyph ++ operand.parenthesized operand.text
  | binary c left right =>
    left.parenthesized left.text ++ (' ' :: (c.kind.glyph ++ [' '])) ++
      right.parenthesized right.text

def pieceText : Piece → Text
  | .text t => t
  | .formula f => f.text

theorem flatMap_operandPieces (f : Formula) :
    f.operandPieces.flatMap pieceText = f.parenthesized f.text := by
  unfold operandPieces parenthesized
  split <;> simp [pieceText]

theorem flatMap_pieces (f : Formula) : f.pieces.flatMap pieceText = f.text := by
  cases f <;> simp [pieces, text, pieceText, flatMap_operandPieces]

theorem writeFrom_eq (written : Text) (pending : List Piece) :
    writeFrom written pending = written.reverse ++ pending.flatMap pieceText := by
  fun_induction writeFrom written pending with
  | case1 => simp
  | case2 written t pending ih =>
    rw [ih]
    simp [pieceText]
  | case3 written f pending ih => simp [ih, flatMap_pieces, pieceText]

theorem written_eq_text (f : Formula) : f.written = f.text := by
  simp [written, writeFrom_eq, pieceText]

end Formula

end Wff
