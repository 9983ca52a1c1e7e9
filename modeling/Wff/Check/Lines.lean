import Wff.Character.Classes
import Wff.Text

/-!
# Wff.Check.Lines — lines of standard input

Lines end with a line feed, or with a carriage return and a line feed; the end of the last line may
be missing.  A line is a text if its bytes are UTF-8.
-/

namespace Wff.Check

def lineFeed : UInt8 := 10

def carriageReturn : UInt8 := 13

/-- A complete line, last byte first, without a carriage return at its end. -/
def dropCarriageReturn : List UInt8 → List UInt8
  | [] => []
  | byte :: rest => if byte = carriageReturn then rest else byte :: rest

/-- Cut bytes into lines, with the line begun, last byte first, and the complete lines, the last one
first. -/
def linesFrom (line : List UInt8) (complete : List (List UInt8)) : List UInt8 → List (List UInt8)
  | [] => (if line.isEmpty then complete else line.reverse :: complete).reverse
  | byte :: rest =>
    if byte = lineFeed then linesFrom [] ((dropCarriageReturn line).reverse :: complete) rest
    else linesFrom (byte :: line) complete rest

def lines (input : List UInt8) : List (List UInt8) := linesFrom [] [] input

/-- The text that the bytes encode, if they are UTF-8. -/
def decode? (bytes : List UInt8) : Option Text :=
  (String.fromUTF8? ⟨bytes.toArray⟩).map String.toList

def isBlankLine (line : Text) : Bool := line.all Character.isBlank

end Wff.Check
