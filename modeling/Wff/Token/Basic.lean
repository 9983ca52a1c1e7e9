import Wff.Fault.Basic
import Wff.Symbol.Table
import Wff.Token.Lexeme

/-!
# Wff.Token.Basic — tokens

A token is a lexeme with its meaning: a symbol if the table knows the literal, else a variable if it
is a word.  A glyph that the table does not know is a fault.
-/

namespace Wff

inductive Meaning
  | symbol (s : Symbol)
  | var (name : Text)
  | stop
  deriving DecidableEq, Repr

/-- A lexeme with its meaning and its byte offset in the text. -/
structure Token where
  meaning : Meaning
  literal : Text
  offset : Nat
  deriving DecidableEq, Repr

namespace Token

def isStop (token : Token) : Bool := token.meaning == .stop

def isMarkBefore (token : Token) : Bool := token.meaning == .symbol .negationBefore

def isMarkAfter (token : Token) : Bool := token.meaning == .symbol .negationAfter

def isOpening (token : Token) : Bool := token.meaning == .symbol .opening

def isClosing (token : Token) : Bool := token.meaning == .symbol .closing

/-- The operator's kind, if the token is an operator of the band. -/
def operatorOf? (token : Token) (band : Band) : Option Kind :=
  match token.meaning with
  | .symbol (.operator kind) => if kind.band? = some band then some kind else none
  | _ => none

def stopAt (offset : Nat) : Token := ⟨.stop, [], offset⟩

def endOffset (token : Token) : Nat := token.offset + Text.byteLength token.literal

end Token

def Table.token? (table : Table) : Lexeme → Except Fault Token
  | .word letters offset =>
    match table.lookup? letters with
    | some s => .ok ⟨.symbol s, letters, offset⟩
    | none => .ok ⟨.var letters, letters, offset⟩
  | .glyph c offset =>
    match table.glyph? c with
    | some s => .ok ⟨.symbol s, [c], offset⟩
    | none => .error (.unrecognized c offset)

/-- The tokens of a text; the fault is the first glyph that the table does not know. -/
def Table.scan (table : Table) (text : Text) : Except Fault (List Token) :=
  text.lexemes.mapM table.token?

end Wff
