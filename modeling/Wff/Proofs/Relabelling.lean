import Wff.Grammar
import Wff.Proofs.Alike

/-!
# Wff.Proofs.Relabelling — offsets moved before reading, or after

Moving offsets is one way to make tokens alike, so it makes no difference whether tokens are moved
before they are read or the fault is moved afterwards (`Formula.ofTokens_mapOffset`).  No law is asked of
the move, so it may send two offsets to one.
-/

namespace Wff

section Moved

variable {move : Nat → Nat}

theorem Fault.Alike.eq_mapOffset {fault fault' : Fault}
    (h : Fault.Alike Eq (fun o o' => move o = o') fault fault') : fault.mapOffset move = fault' := by
  cases h with
  | unrecognized chars places | unmatched chars places => rw [Fault.mapOffset, chars, places]
  | missingOperand places | tooDeep limit places => rw [Fault.mapOffset, places]
  | trailing chars places =>
    rw [List.forall₂_eq_eq_eq] at chars
    rw [Fault.mapOffset, chars, places]

theorem Token.Alike.eq_mapOffset {token token' : Token}
    (h : Token.Alike Eq (fun o o' => move o = o') token token') : token.mapOffset move = token' := by
  obtain ⟨meaning, literal, offset⟩ := token
  obtain ⟨hmeaning, hliteral, hplace⟩ := h
  rw [List.forall₂_eq_eq_eq] at hliteral
  rw [mapOffset, hmeaning, hliteral, hplace]

theorem Alike.eq_mapError {α : Type} {x x' : Except Fault α}
    (h : Alike Eq (fun o o' => move o = o') Eq x x') : x.mapError (Fault.mapOffset move) = x' := by
  cases h with
  | ok agree =>
    rw [← agree]
    rfl
  | error alike => exact congrArg Except.error alike.eq_mapOffset

end Moved

theorem Formula.ofTokens_mapOffset (move : Nat → Nat) {tokens : List Token}
    (hstop : ∃ token ∈ tokens, token.isStop = true) :
    Formula.ofTokens (tokens.map (Token.mapOffset move)) =
      (Formula.ofTokens tokens).mapError (Fault.mapOffset move) := by
  have hmoved : List.Forall₂ (Token.Alike Eq fun o o' => move o = o') tokens
      (tokens.map (Token.mapOffset move)) :=
    List.forall₂_map_right_iff.mpr
      (List.forall₂_same.mpr fun _ _ => ⟨rfl, List.forall₂_same.mpr fun _ _ => rfl, rfl⟩)
  exact (ofTokens_alike (fun _ => rfl) hmoved hstop).eq_mapError.symm

/-- **Both ways from a text to a formula agree**: the formula or fault of a text is that of its
tokens, whose offsets were moved to the text as given before they were read. -/
theorem Table.parse_eq_tokenize_bind (table : Table) (implicit : Bool) (text : Text) :
    table.parse implicit text = (table.tokenize implicit text).bind Formula.ofTokens := by
  cases implicit with
  | false =>
    show table.parseExplicit text = (table.tokens text).bind Formula.ofTokens
    unfold parseExplicit
    cases table.tokens text <;> rfl
  | true =>
    simp only [parse, tokenize, parseExplicit, if_true]
    cases htokens : table.tokens (table.reveal text).text with
    | error fault => rfl
    | ok tokens =>
      dsimp only [Except.bind]
      rw [Formula.ofTokens_mapOffset _ (exists_isStop_of_tokens htokens)]

end Wff
