import Wff.Token.Basic

/-!
# Wff.Token.Brackets — bracket matching

A closing bracket matches the last opening one still open, of whatever style.  At most
`nestingLimit` brackets may be open at a time.
-/

namespace Wff

/-- How many brackets may be open at once. -/
def nestingLimit : Nat := 128

/-- The token as a bracket without its partner. -/
def Token.unmatched (token : Token) : Fault :=
  .unmatched (token.literal.headD '\x00') token.offset

/-- Match the brackets of the tokens, given those already open, the last one first. -/
def matchBrackets (opened : List Token) : List Token → Except Fault Unit
  | [] =>
    match opened with
    | [] => .ok ()
    | last :: _ => .error last.unmatched
  | token :: rest =>
    if token.isOpening then
      if opened.length < nestingLimit then matchBrackets (token :: opened) rest
      else .error (.tooDeep nestingLimit token.offset)
    else if token.isClosing then
      match opened with
      | [] => .error token.unmatched
      | _ :: opened => matchBrackets opened rest
    else matchBrackets opened rest

/-- The first bracket without a partner or nested too deep; else, of the brackets never closed, the
last. -/
def checkBrackets (tokens : List Token) : Except Fault Unit := matchBrackets [] tokens

/-- The tokens of a text with matched brackets, and the token that ends them. -/
def Table.tokens (table : Table) (text : Text) : Except Fault (List Token) := do
  let tokens := (← table.scan text) ++ [.stopAt (Text.byteLength text)]
  checkBrackets tokens
  return tokens

end Wff
