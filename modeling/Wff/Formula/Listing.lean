import Wff.Formula.Traversal
import Wff.Quoted

/-!
# Wff.Formula.Listing — formulas spelled out

`listing` shows the tree, one node a line, each indented by two blanks for every step from the root.
`spelled` writes a formula out by the names of its parts.
-/

namespace Wff.Formula

/-- A line for every node in preorder: twice as many blanks as steps from the root, and the label. -/
def listing (f : Formula) : List Text :=
  f.walk.map fun p => Text.blanks (2 * p.1) ++ p.2.head.label

/-- The formula by the names of its parts, followed by `rest`. -/
def spelledOn : Formula → Text → Text
  | var name, rest => "Variable(".toList ++ Quoted.encode name ++ ')' :: rest
  | const true, rest => "Constant(true)".toList ++ rest
  | const false, rest => "Constant(false)".toList ++ rest
  | not operand, rest => "Not(".toList ++ operand.spelledOn (')' :: rest)
  | binary c left right, rest =>
    "Binary(BinaryExpr \x7b left: ".toList ++
      left.spelledOn (", op: ".toList ++ c.kind.name.toList ++ ", right: ".toList ++
        right.spelledOn (" \x7d)".toList ++ rest))

def spelled (f : Formula) : Text := f.spelledOn []

end Wff.Formula
