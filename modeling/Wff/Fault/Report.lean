import Wff.Fault.Basic

/-!
# Wff.Fault.Report — showing a fault in its text

A report names the line and the column of the fault and shows the line with a caret under the
character.  Offsets count bytes, columns count characters; an offset past the end of the text, or
inside a character, is moved back to where a character begins or the text ends.
-/

namespace Wff

/-- A place in a text: how many line breaks come before it, how many characters come before it on its
line, and that line. -/
structure Place where
  linesBefore : Nat
  column : Nat
  line : Text

namespace Text

/-- Move characters that end within `room` bytes to the part already passed, which is kept last
character first. -/
def cutFrom (passed : Text) (room : Nat) : Text → Text × Text
  | [] => (passed, [])
  | c :: rest =>
    if c.utf8Size ≤ room then cutFrom (c :: passed) (room - c.utf8Size) rest
    else (passed, c :: rest)

/-- The characters that end at or before the byte offset, last one first, and those after them. -/
def cut (text : Text) (offset : Nat) : Text × Text := cutFrom [] offset text

def place (text : Text) (offset : Nat) : Place :=
  let (passed, rest) := text.cut offset
  let inLine := passed.takeWhile (· != '\n')
  { linesBefore := passed.count '\n'
    column := inLine.length
    line := inLine.reverse ++ rest.takeWhile (· != '\n') }

end Text

/-- The fault in words, and for a fault of a text its place in the text called `name`. -/
def Fault.report (fault : Fault) (text name : Text) : Text :=
  let headline := "error: ".toList ++ fault.message
  match fault.offset? with
  | none => headline
  | some offset =>
    let place := text.place offset
    let number := Text.ofNat (place.linesBefore + 1)
    let margin := Text.blanks number.length
    headline ++ '\n' ::
      margin ++ "--> ".toList ++ name ++ ':' :: number ++ ':' :: Text.ofNat (place.column + 1) ++
      '\n' :: margin ++ " |".toList ++
      '\n' :: number ++ " | ".toList ++ place.line ++
      '\n' :: margin ++ " | ".toList ++ Text.blanks place.column ++ ['^']

end Wff
