import Wff.Character.Classes
import Wff.Text

/-!
# Wff.Token.Lexeme — cutting a text into words and glyphs

A word begins with a letter or an underscore and runs as far as letters, numbers and underscores
go.  Blanks separate and are dropped.  Every other character is a glyph on its own; so a number is a
glyph unless it stands inside a word.
-/

namespace Wff

open Character

/-- A piece of text that is not blank, with its byte offset. -/
inductive Lexeme
  | word (letters : Text) (offset : Nat)
  | glyph (c : Char) (offset : Nat)
  deriving DecidableEq, Repr

namespace Lexeme

def literal : Lexeme → Text
  | word letters _ => letters
  | glyph c _ => [c]

def offset : Lexeme → Nat
  | word _ offset | glyph _ offset => offset

end Lexeme

/-- A text cut up to some character: the byte offsets of the next character and of the word not yet
ended, that word, last character first, and the pieces before it, last one first. -/
structure Cutting where
  here : Nat
  start : Nat
  word : Text
  pieces : List Lexeme

namespace Cutting

def begin : Cutting := ⟨0, 0, [], []⟩

/-- End the word, if one is open. -/
def endWord (cutting : Cutting) : Cutting :=
  if cutting.word.isEmpty then cutting
  else
    { cutting with
      word := []
      pieces := .word cutting.word.reverse cutting.start :: cutting.pieces }

/-- Take a character that does not continue an open word. -/
def fresh (cutting : Cutting) (c : Char) : Cutting :=
  let next := cutting.here + c.utf8Size
  if isBlank c then { cutting with here := next }
  else if startsWord c then { cutting with here := next, start := cutting.here, word := [c] }
  else { cutting with here := next, pieces := .glyph c cutting.here :: cutting.pieces }

def step (cutting : Cutting) (c : Char) : Cutting :=
  if !cutting.word.isEmpty && continuesWord c then
    { cutting with here := cutting.here + c.utf8Size, word := c :: cutting.word }
  else cutting.endWord.fresh c

end Cutting

/-- The words and glyphs of a text, in order. -/
def Text.lexemes (text : Text) : List Lexeme :=
  (text.foldl Cutting.step .begin).endWord.pieces.reverse

end Wff
