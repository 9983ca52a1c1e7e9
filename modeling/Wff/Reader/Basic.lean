import Wff.Formula.Chain
import Wff.Token.Basic

/-!
# Wff.Reader.Basic — reading a formula off a list of tokens

A reader takes a formula off the front of a list of tokens, or finds the cause why there is none;
either way it says which tokens it left.  What it leaves is a suffix of what it was given, which is
why loops of readers end.  The three ways to build one reader from another are `primary` (an operand
or a formula in brackets), `negations` (negation marks around it) and `chain` (operands with
operators of one band between them).
-/

namespace Wff

/-- Why a reader stops.  The cause concerns the first token that the reader left. -/
inductive Cause
  | missingOperand
  | trailing
  | unclosed (opening : Token)
  | tooDeep
  | notBinary (kind : Kind)
  deriving DecidableEq, Repr

/-- What was read, or why nothing was, and the tokens left. -/
abbrev Reading (α : Type) := Except Cause α × List Token

/-- A function that reads a formula off the front of a list of tokens. -/
@[ext]
structure Reader where
  run : List Token → Reading Formula
  rest_suffix : ∀ tokens, (run tokens).2 <:+ tokens

namespace Reader

theorem length_rest_le (reader : Reader) (tokens : List Token) :
    (reader.run tokens).2.length ≤ tokens.length :=
  (reader.rest_suffix tokens).length_le

/-! ### Operands -/

/-- Finish a bracket opened by `opening`, after its content was read. -/
def closeBracket (opening : Token) : Reading Formula → Reading Formula
  | (.error cause, rest) => (.error cause, rest)
  | (.ok _, []) => (.error (.unclosed opening), [])
  | (.ok f, token :: rest) =>
    if token.isClosing then (.ok f, rest) else (.error .trailing, token :: rest)

theorem closeBracket_suffix (opening : Token) (reading : Reading Formula) :
    (closeBracket opening reading).2 <:+ reading.2 := by
  unfold closeBracket
  split
  · exact List.suffix_refl _
  · exact List.suffix_refl _
  · split
    · exact List.suffix_cons _ _
    · exact List.suffix_refl _

/-- Read a variable, a constant or a formula in brackets. -/
def primaryRun (inner : Option Reader) : List Token → Reading Formula
  | [] => (.error .missingOperand, [])
  | token :: rest =>
    match token.meaning with
    | .var name => (.ok (.var name), rest)
    | .symbol (.constant value) => (.ok (.const value), rest)
    | .symbol .opening =>
      match inner with
      | some reader => closeBracket token (reader.run rest)
      | none => (.error .tooDeep, token :: rest)
    | _ => (.error .missingOperand, token :: rest)

/-- The reader of operands; `inner` reads what brackets hold, and without it there are none. -/
def primary (inner : Option Reader) : Reader where
  run := primaryRun inner
  rest_suffix tokens := by
    unfold primaryRun
    split
    · exact List.suffix_refl _
    · split
      · exact List.suffix_cons _ _
      · exact List.suffix_cons _ _
      · split
        · rename_i token rest _ _ _ reader
          exact ((closeBracket_suffix token _).trans (reader.rest_suffix rest)).trans
            (List.suffix_cons _ _)
        · exact List.suffix_refl _
      · exact List.suffix_refl _

/-! ### Negations -/

/-- Read negation marks, an operand and more negation marks; every mark negates once. -/
def negations (operand : Reader) : Reader where
  run tokens :=
    match operand.run (tokens.dropWhile Token.isMarkBefore) with
    | (.error cause, rest) => (.error cause, rest)
    | (.ok f, rest) =>
      let marks := (tokens.takeWhile Token.isMarkBefore).length +
        (rest.takeWhile Token.isMarkAfter).length
      (.ok (f.negated marks), rest.dropWhile Token.isMarkAfter)
  rest_suffix tokens := by
    have := (operand.rest_suffix (tokens.dropWhile Token.isMarkBefore)).trans
      (List.dropWhile_suffix _)
    split
    · rename_i h
      rwa [h] at this
    · rename_i h
      rw [h] at this
      exact (List.dropWhile_suffix _).trans this

/-! ### Chains -/

/-- Read operators of the band, each with the operand after it, as long as there are any. -/
def links (band : Band) (operand : Reader) (found : List (Kind × Formula)) :
    List Token → Reading (List (Kind × Formula))
  | [] => (.ok found.reverse, [])
  | token :: rest =>
    match token.operatorOf? band with
    | none => (.ok found.reverse, token :: rest)
    | some kind =>
      let reading := operand.run rest
      match reading.1 with
      | .error cause => (.error cause, reading.2)
      | .ok f => links band operand ((kind, f) :: found) reading.2
termination_by tokens => tokens.length
decreasing_by exact Nat.lt_succ_of_le (operand.length_rest_le rest)

theorem links_suffix (band : Band) (operand : Reader) (found : List (Kind × Formula))
    (tokens : List Token) : (links band operand found tokens).2 <:+ tokens := by
  fun_induction links band operand found tokens with
  | case1 => exact List.suffix_refl _
  | case2 => exact List.suffix_refl _
  | case3 found token rest => exact (operand.rest_suffix rest).trans (List.suffix_cons _ _)
  | case4 found token rest kind hk reading f hf ih =>
    exact (ih.trans (operand.rest_suffix rest)).trans (List.suffix_cons _ _)

/-- Read operands with operators of the band between them, and join them from left to right. -/
def chain (band : Band) (operand : Reader) : Reader where
  run tokens :=
    match operand.run tokens with
    | (.error cause, rest) => (.error cause, rest)
    | (.ok first, rest) =>
      match links band operand [] rest with
      | (.error cause, rest) => (.error cause, rest)
      | (.ok more, rest) =>
        match first.chain more with
        | .ok f => (.ok f, rest)
        | .error kind => (.error (.notBinary kind), rest)
  rest_suffix tokens := by
    have begun := operand.rest_suffix tokens
    split
    · rename_i h
      rwa [h] at begun
    · rename_i first rest h
      rw [h] at begun
      have linked := (links_suffix band operand [] rest).trans begun
      split
      · rename_i h
        rwa [h] at linked
      · rename_i h
        rw [h] at linked
        split <;> exact linked

end Reader

end Wff
