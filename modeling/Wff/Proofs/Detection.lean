import Wff.Formula.Traversal
import Wff.Proofs.Reaching

/-!
# Wff.Proofs.Detection — faults are found as early as they can be

A list of tokens is `Completable` if more tokens behind it make it a formula.  A missing operand and a
token too many are found at the first token that makes the list incompletable, or at the end; an open
bracket is found at the end only, and closing brackets are all that is missing
(`Formula.earliest_of_ofTokens`).
-/

namespace Wff

open Pending

/-- More tokens behind these make them a formula. -/
def Completable (tokens : List Token) : Prop :=
  ∃ more f, Formula.ofTokens (tokens ++ more) = .ok f

/-- What a fault says about the tokens passed before it, and about the place where reading ended. -/
def Fault.Earliest (passed : List Token) (place : Cursor) : Fault → Prop
  | .missingOperand offset =>
    offset = place.current.offset ∧ Completable passed ∧
      ∀ next ∈ place.ahead.head?, ¬ Completable (passed ++ [next])
  | .trailing found offset =>
    found = place.current.literal ∧ offset = place.current.offset ∧ Completable passed ∧
      ∃ next ∈ place.ahead.head?, ¬ Completable (passed ++ [next])
  | .unmatched _ _ =>
    place.atEnd = true ∧
      ∃ n, ∀ closings : List Token, closings.length = n →
        (∀ token ∈ closings, token.meaning = .symbol .closing) →
        ∃ f, Formula.ofTokens (passed ++ closings) = .ok f
  | .unrecognized _ _ | .tooDeep _ _ | .ambiguousAlias _ | .notBinary _ => False

/-! ### Tokens that can be gone on with -/

section Reached

variable {passed : List Token} {pending : Pending} (h : Reaches (awaiting []) passed pending)
include h

theorem Pending.Reaches.exists_ofTokens {more : List Token}
    (hstops : ∀ token ∈ more, token.isStop = false) (hmore : pending.walk more = (none, [])) :
    ∃ f, Formula.ofTokens (passed ++ more) = .ok f := by
  have hall : ∀ token ∈ passed ++ more, token.isStop = false := by
    intro token htoken
    rcases List.mem_append.mp htoken with hpassed | hmore
    · exact h.isStop_eq_false token hpassed
    · exact hstops token hmore
  have hahead : (Cursor.ofTokens (passed ++ more)).ahead = passed ++ more :=
    List.takeWhile_eq_self_iff.mpr (by simpa using hall)
  have hread := Formula.ofTokens_of_walk (passed ++ more)
  rw [hahead, h.walk_append, hmore] at hread
  exact hread

theorem Pending.Reaches.completable : Completable passed := by
  obtain ⟨more, hstops, hmore⟩ := exists_walk_eq_none pending
  obtain ⟨f, hf⟩ := h.exists_ofTokens hstops hmore
  exact ⟨more, f, hf⟩

/-- After a token that cannot come, it makes no difference what comes. -/
theorem Pending.Reaches.not_completable {next : Token} {cause : Cause}
    (hnext : next.isStop = false) (hstep : pending.step next = .error cause) :
    ¬ Completable (passed ++ [next]) := by
  rintro ⟨more, f, hf⟩
  have hall : ∀ token ∈ passed ++ [next], token.isStop = false := by
    intro token htoken
    rcases List.mem_append.mp htoken with hpassed | hlast
    · exact h.isStop_eq_false token hpassed
    · rw [List.mem_singleton.mp hlast]
      exact hnext
  have hread := Formula.ofTokens_of_walk (passed ++ [next] ++ more)
  rw [Cursor.ahead_ofTokens hall, List.append_assoc, h.walk_append, List.singleton_append,
    walk_cons_of_error hstep] at hread
  have hfault := hread.1
  rw [hf] at hfault
  cases hfault

theorem Pending.Reaches.earliest_at_end {place : Cursor} (hahead : place.ahead = []) {cause : Cause}
    (hfinish : pending.finish? = some cause) (depth : Nat) :
    (cause.fault depth place.current).Earliest passed place := by
  -- at the end, what is pending tells what is missing: an operand, or closing brackets
  cases pending with
  | awaiting opened =>
    have hmissing : cause = .missingOperand := (Option.some.inj hfinish).symm
    rw [hmissing]
    refine ⟨rfl, h.completable, ?_⟩
    rw [hahead]
    simp
  | complete opened =>
    cases opened with
    | nil => cases hfinish
    | cons opening opened =>
      have hunclosed : cause = .unclosed opening := (Option.some.inj hfinish).symm
      rw [hunclosed]
      refine ⟨by rw [Cursor.atEnd, hahead]; rfl, (opening :: opened).length, ?_⟩
      intro closings hlength hclosings
      refine h.exists_ofTokens ?_ (walk_closings hlength hclosings)
      intro token htoken
      simp [Token.isStop, hclosings token htoken]

theorem Pending.Reaches.earliest_at_token {place : Cursor} {next : Token} {rest : List Token}
    (hahead : place.ahead = next :: rest) (hnext : next.isStop = false) {cause : Cause}
    (hstep : pending.step next = .error cause) (depth : Nat) :
    (cause.fault depth place.current).Earliest passed place := by
  have hdoomed : ¬ Completable (passed ++ [next]) := h.not_completable hnext hstep
  have hhead : place.ahead.head? = some next := by
    rw [hahead]
    rfl
  rcases step_eq_error hstep with ⟨_, -, hmissing, -⟩ | ⟨_, -, htrailing, -, -⟩
  · rw [hmissing]
    refine ⟨rfl, h.completable, ?_⟩
    intro other hother
    rw [hhead] at hother
    rw [← Option.some.inj hother]
    exact hdoomed
  · rw [htrailing]
    exact ⟨rfl, rfl, h.completable, next, hhead, hdoomed⟩

end Reached

/-- **Faults are found as early as they can be.**  Where a list of tokens is found at fault, the
tokens before can be completed.  If an operand is missing or a token is too many there, no tokens
complete those up to this one; if a bracket is open, the end is reached, and closing brackets complete
the list. -/
theorem Formula.earliest_of_ofTokens (tokens : List Token) (fault : Fault)
    (h : Formula.ofTokens tokens = .error fault) :
    ∃ passed, (Cursor.ofTokens tokens).ahead = passed ++ (Cursor.afterReading tokens).ahead ∧
      fault.Earliest passed (Cursor.afterReading tokens) := by
  obtain ⟨passed, pending, cause, hsplit, hreaches, hhalts, rfl⟩ := exists_reaches_of_ofTokens h
  refine ⟨passed, hsplit, ?_⟩
  cases hahead : (Cursor.afterReading tokens).ahead with
  | nil =>
    rw [hahead] at hhalts
    exact hreaches.earliest_at_end hahead hhalts _
  | cons next rest =>
    rw [hahead] at hhalts
    obtain ⟨_, hcause, hstep⟩ := hhalts
    have hmem : next ∈ (Cursor.ofTokens tokens).ahead := by
      rw [hsplit, hahead]
      simp
    have hnext : next.isStop = false := by
      have hnot := List.mem_takeWhile_imp hmem
      simpa using hnot
    rw [Option.some.inj hcause]
    exact hreaches.earliest_at_token hahead hnext hstep _

/-- In `( p q )` the second variable is too many, and the bracket before it stays to be closed; in
`( [ p` both brackets do. -/
theorem Formula.earliest_in_brackets :
    let opening : Token := ⟨.symbol .opening, ['('], 0⟩
    let second : Token := ⟨.symbol .opening, ['['], 1⟩
    let p : Token := ⟨.var ['p'], ['p'], 2⟩
    let q : Token := ⟨.var ['q'], ['q'], 4⟩
    let closing : Token := ⟨.symbol .closing, [')'], 5⟩
    (Formula.ofTokens [opening, p, q, closing] = .error (.trailing ['q'] 4) ∧
      Completable [opening, p] ∧ ¬ Completable [opening, p, q]) ∧
    Formula.ofTokens [opening, second, p] = .error (.unmatched '[' 1) ∧
      ∃ n, ∀ closings : List Token, closings.length = n →
        (∀ token ∈ closings, token.meaning = .symbol .closing) →
        ∃ f, Formula.ofTokens ([opening, second, p] ++ closings) = .ok f := by
  intro opening second p q closing
  have htrailing : Formula.ofTokens [opening, p, q, closing] = .error (.trailing ['q'] 4) := by
    decide +kernel
  have hunmatched : Formula.ofTokens [opening, second, p] = .error (.unmatched '[' 1) := by
    decide +kernel
  have hplace : (Cursor.afterReading [opening, p, q, closing]).ahead = [q, closing] := by
    decide +kernel
  have hend : (Cursor.afterReading [opening, second, p]).ahead = [] := by
    decide +kernel
  constructor
  · obtain ⟨passed, hpassed, -, -, hcompletable, next, hnext, hdoomed⟩ :=
      earliest_of_ofTokens _ _ htrailing
    rw [hplace] at hpassed hnext
    have hsplit : [opening, p] ++ [q, closing] = passed ++ [q, closing] := hpassed
    have hbefore : [opening, p] = passed := List.append_cancel_right hsplit
    rw [← hbefore] at hcompletable hdoomed
    rw [← Option.some.inj hnext] at hdoomed
    exact ⟨htrailing, hcompletable, hdoomed⟩
  · obtain ⟨passed, hpassed, -, hclosings⟩ := earliest_of_ofTokens _ _ hunmatched
    rw [hend, List.append_nil] at hpassed
    have hall : [opening, second, p] = passed := hpassed
    rw [← hall] at hclosings
    exact ⟨hunmatched, hclosings⟩

end Wff
