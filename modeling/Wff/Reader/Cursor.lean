import Wff.Reader.Levels

/-!
# Wff.Reader.Cursor — a place in a list of tokens

A cursor stands before the tokens not yet read; the first token that ends the list is never passed.
Reading moves the cursor behind the formula read, or, if none can be read, to the token that is at
fault.
-/

namespace Wff

/-- The fault that a cause amounts to when `token` is the first token left. -/
def Cause.fault (depth : Nat) (token : Token) : Cause → Fault
  | missingOperand => .missingOperand token.offset
  | trailing => .trailing token.literal token.offset
  | unclosed opening => .unmatched (opening.literal.headD '(') opening.offset
  | tooDeep => .tooDeep depth token.offset
  | notBinary kind => .notBinary kind

/-- A place in a list of tokens: those from there on, and the one that ends the list behind them. -/
structure Cursor where
  ahead : List Token
  stop : Token
  deriving DecidableEq, Repr

namespace Cursor

/-- Before the first token.  A list that nothing ends is ended right after its last token. -/
def ofTokens (tokens : List Token) : Cursor :=
  { ahead := tokens.takeWhile (!·.isStop)
    stop := (tokens.find? (·.isStop)).getD (.stopAt ((tokens.getLast?.map Token.endOffset).getD 0)) }

def current (cursor : Cursor) : Token := cursor.ahead.headD cursor.stop

def atEnd (cursor : Cursor) : Bool := cursor.ahead.isEmpty

/-- One token further, unless the cursor is at the end. -/
def advance (cursor : Cursor) : Cursor := { cursor with ahead := cursor.ahead.tail }

def check (cursor : Cursor) (meaning : Meaning) : Bool := cursor.current.meaning == meaning

def accept (cursor : Cursor) (meaning : Meaning) : Bool × Cursor :=
  if cursor.check meaning then (true, cursor.advance) else (false, cursor)

/-- Pass the current token if it is an operator of the band, and tell its kind. -/
def acceptOperator (cursor : Cursor) (band : Band) : Option Kind × Cursor :=
  match cursor.current.operatorOf? band with
  | some kind => (some kind, cursor.advance)
  | none => (none, cursor)

def missingOperand (cursor : Cursor) : Fault := .missingOperand cursor.current.offset

def trailing (cursor : Cursor) : Fault := .trailing cursor.current.literal cursor.current.offset

/-- Read a formula of a level with at most `depth` brackets open at once. -/
def readWithin (cursor : Cursor) (depth : Nat) (level : Level) : Except Fault Formula × Cursor :=
  let reading := (Reader.atLevel depth level).run cursor.ahead
  let after := { cursor with ahead := reading.2 }
  (reading.1.mapError (Cause.fault depth after.current), after)

/-- Read a formula of a level.  No more brackets can be open than there are tokens. -/
def read (cursor : Cursor) (level : Level) : Except Fault Formula × Cursor :=
  cursor.readWithin cursor.ahead.length level

end Cursor

/-- The formula that the tokens up to the first that ends them make up, with at most `depth`
brackets open at once. -/
def Formula.ofTokensWithin (depth : Nat) (tokens : List Token) : Except Fault Formula :=
  match (Cursor.ofTokens tokens).readWithin depth .biconditional with
  | (.error fault, _) => .error fault
  | (.ok f, after) => if after.atEnd then .ok f else .error after.trailing

def Formula.ofTokens (tokens : List Token) : Except Fault Formula :=
  Formula.ofTokensWithin tokens.length tokens

end Wff
