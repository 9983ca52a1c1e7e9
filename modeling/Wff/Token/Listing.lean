import Wff.Quoted
import Wff.Token.Basic

/-!
# Wff.Token.Listing — tokens, one a line

A line holds the byte offset, the meaning and the literal in quotes, in columns.
-/

namespace Wff

def Meaning.label : Meaning → Text
  | .var name => "Variable(".toList ++ Quoted.encode name ++ [')']
  | .symbol (.constant true) => "Constant(true)".toList
  | .symbol (.constant false) => "Constant(false)".toList
  | .symbol .negationBefore => "PrefixNegation".toList
  | .symbol .negationAfter => "PostfixNegation".toList
  | .symbol (.operator kind) => "Operator(".toList ++ kind.name.toList ++ [')']
  | .symbol .opening => "OpenDelimiter".toList
  | .symbol .closing => "CloseDelimiter".toList
  | .stop => "Eof".toList

/-- Blanks before the text up to a width; a longer text stays whole. -/
def Text.alignRight (width : Nat) (text : Text) : Text :=
  Text.blanks (width - text.length) ++ text

/-- Blanks after the text up to a width; a longer text stays whole. -/
def Text.alignLeft (width : Nat) (text : Text) : Text :=
  text ++ Text.blanks (width - text.length)

def Token.line (token : Token) : Text :=
  Text.alignRight 4 (Text.ofNat token.offset) ++ Text.blanks 2 ++
    Text.alignLeft 16 token.meaning.label ++ Text.blanks 1 ++ Quoted.encode token.literal

end Wff
