import Wff.Formula.Traversal
import Wff.Proofs.Reaching

/-!
# Wff.Proofs.Agreement — bracket matching and reading agree

Brackets are matched over the flat list of tokens, with a stack; formulas are read by recursion, and
reading may stop early.  Both go over the tokens that have been passed with the same brackets open
(`Pending.Reaches.matchBrackets_append`), so what is still open where reading ends decides what
matching says of the whole list, unless too many brackets are open at once.

The main statement is `Formula.reading_agrees_with_matching`: no list that is read is refused for
its brackets, no brackets are at fault in reading where they match, and a bracket that reading finds
open at the end is the one that matching finds.
-/

namespace Wff

open Pending

/-! ### The end of the tokens -/

theorem matchBrackets_stop {stop : Token} (hstop : stop.isStop = true) (opened : List Token) :
    matchBrackets opened [stop] = matchBrackets opened [] := by
  have hmeaning : stop.meaning = .stop := by simpa [Token.isStop] using hstop
  exact matchBrackets_other (by simp [hmeaning]) (by simp [hmeaning])

/-- Whatever is pending at the end, matching finds the last bracket still open, if there is one. -/
theorem Pending.Reaches.checkBrackets_concat {tokens : List Token} {pending : Pending}
    (h : Reaches (awaiting []) tokens pending) {stop : Token} (hstop : stop.isStop = true) :
    checkBrackets (tokens ++ [stop]) = matchBrackets pending.opened [] ∨
      ∃ offset, checkBrackets (tokens ++ [stop]) = .error (.tooDeep nestingLimit offset) := by
  rw [← matchBrackets_stop hstop]
  exact (h.matchBrackets_append [stop]).imp_left And.left

/-! ### The outcomes of reading -/

section Ended

variable {tokens : List Token} {stop : Token} (htokens : ∀ token ∈ tokens, token.isStop = false)
  (hstop : stop.isStop = true)
include htokens hstop

theorem checkBrackets_of_ofTokens {f : Formula} (h : Formula.ofTokens (tokens ++ [stop]) = .ok f) :
    checkBrackets (tokens ++ [stop]) = .ok () ∨
      ∃ offset, checkBrackets (tokens ++ [stop]) = .error (.tooDeep nestingLimit offset) := by
  have hreaches := Formula.reaches_of_ofTokens h
  rw [Cursor.ahead_concat htokens hstop] at hreaches
  exact hreaches.checkBrackets_concat hstop

/-- A bracket that reading finds open at the end is the one that matching finds. -/
theorem checkBrackets_of_unmatched
    (hwritten : ∀ token ∈ tokens, token.isOpening = true → token.literal ≠ [])
    {found : Char} {offset : Nat}
    (h : Formula.ofTokens (tokens ++ [stop]) = .error (.unmatched found offset)) :
    checkBrackets (tokens ++ [stop]) = .error (.unmatched found offset) ∨
      ∃ deep, checkBrackets (tokens ++ [stop]) = .error (.tooDeep nestingLimit deep) := by
  rcases Formula.fault_cases h with hfault | ⟨_, _, _, _, -, -, -, -, -, hfault⟩ |
    ⟨opening, opened, hreaches, hfault⟩
  · cases hfault
  · cases hfault
  · rw [Cursor.ahead_concat htokens hstop] at hreaches
    -- the two defaults for an empty literal differ, but brackets are written
    have hsame : opening.unmatched = .unmatched found offset := by
      rcases hreaches.mem_opened List.mem_cons_self with hbefore | ⟨hmem, hopening⟩
      · cases hbefore
      · have hliteral := hwritten opening hmem (by simp [Token.isOpening, hopening])
        rw [hfault, Token.unmatched]
        cases hl : opening.literal with
        | nil => exact absurd hl hliteral
        | cons c more => rfl
    rw [← hsame]
    exact hreaches.checkBrackets_concat hstop

theorem fault_of_checkBrackets (hmatch : checkBrackets (tokens ++ [stop]) = .ok ()) {fault : Fault}
    (h : Formula.ofTokens (tokens ++ [stop]) = .error fault) :
    (∃ offset, fault = .missingOperand offset) ∨ ∃ found offset, fault = .trailing found offset := by
  rcases Formula.fault_cases h with hfault | ⟨_, _, _, _, -, -, -, -, -, hfault⟩ |
    ⟨opening, opened, hreaches, -⟩
  · exact Or.inl ⟨_, hfault⟩
  · exact Or.inr ⟨_, _, hfault⟩
  · rw [Cursor.ahead_concat htokens hstop] at hreaches
    rcases hreaches.checkBrackets_concat hstop with hopen | ⟨_, hdeep⟩
    · rw [hmatch] at hopen
      cases hopen
    · rw [hmatch] at hdeep
      cases hdeep

/-- A token too many is one of the list, no complete formula goes on with it, and it closes no
bracket where brackets match. -/
theorem exists_mem_of_trailing {found : Text} {offset : Nat}
    (h : Formula.ofTokens (tokens ++ [stop]) = .error (.trailing found offset)) :
    ∃ token ∈ tokens, token = (Cursor.afterReading (tokens ++ [stop])).current ∧
      found = token.literal ∧ offset = token.offset ∧
      token.meaning ≠ .stop ∧ token.meaning ≠ .symbol .negationAfter ∧
      (∀ kind, token.meaning = .symbol (.operator kind) → kind.isBinary = false) ∧
      (checkBrackets (tokens ++ [stop]) = .ok () → token.meaning ≠ .symbol .closing) := by
  obtain ⟨used, opened, next, rest, hsplit, hcurrent, hreaches, hgoesOn, hopened, hfound, hoffset⟩ :=
    Formula.exists_reaches_of_trailing h
  rw [Cursor.ahead_concat htokens hstop] at hsplit
  have hmem : next ∈ tokens := by
    rw [hsplit]
    simp
  refine ⟨next, hmem, hcurrent.symm, hfound, hoffset, ?_, ?_, ?_, ?_⟩
  · simpa [Token.isStop] using htokens next hmem
  · intro hmark
    rw [hmark] at hgoesOn
    cases hgoesOn
  · intro kind hkind
    rwa [hkind, goesOn_biconditional_operator] at hgoesOn
  · intro hmatch
    rw [hsplit, List.append_assoc] at hmatch
    exact hreaches.ne_closing hopened hmatch

end Ended

/-- **Bracket matching and reading agree** on every list that one token ends and whose brackets are
written.  Where reading succeeds, matching does as well, unless brackets are nested too deep.  Where
matching succeeds, reading only fails for an operand that is missing or a token too many.  A bracket
that reading finds without its partner is the one that matching finds, unless brackets are nested too
deep.  A token too many is one of the list on which no complete formula goes on, and closes no
bracket if brackets match. -/
theorem Formula.reading_agrees_with_matching {tokens : List Token} {stop : Token}
    (hstop : stop.isStop = true) (htokens : ∀ token ∈ tokens, token.isStop = false)
    (hwritten : ∀ token ∈ tokens, token.isOpening = true → token.literal ≠ []) :
    (∀ f, Formula.ofTokens (tokens ++ [stop]) = .ok f →
      checkBrackets (tokens ++ [stop]) = .ok () ∨
        ∃ deep, checkBrackets (tokens ++ [stop]) = .error (.tooDeep nestingLimit deep)) ∧
    (∀ fault, checkBrackets (tokens ++ [stop]) = .ok () →
      Formula.ofTokens (tokens ++ [stop]) = .error fault →
      (∃ offset, fault = .missingOperand offset) ∨ ∃ found offset, fault = .trailing found offset) ∧
    (∀ found offset, Formula.ofTokens (tokens ++ [stop]) = .error (.unmatched found offset) →
      checkBrackets (tokens ++ [stop]) = .error (.unmatched found offset) ∨
        ∃ deep, checkBrackets (tokens ++ [stop]) = .error (.tooDeep nestingLimit deep)) ∧
    ∀ found offset, Formula.ofTokens (tokens ++ [stop]) = .error (.trailing found offset) →
      ∃ token ∈ tokens, token = (Cursor.afterReading (tokens ++ [stop])).current ∧
        found = token.literal ∧ offset = token.offset ∧
        token.meaning ≠ .stop ∧ token.meaning ≠ .symbol .negationAfter ∧
        (∀ kind, token.meaning = .symbol (.operator kind) → kind.isBinary = false) ∧
        (checkBrackets (tokens ++ [stop]) = .ok () → token.meaning ≠ .symbol .closing) := by
  refine ⟨fun f hf => ?_, fun fault hmatch hfault => ?_, fun found offset hopen => ?_,
    fun found offset htrailing => ?_⟩
  · exact checkBrackets_of_ofTokens htokens hstop hf
  · exact fault_of_checkBrackets htokens hstop hmatch hfault
  · exact checkBrackets_of_unmatched htokens hstop hwritten hopen
  · exact exists_mem_of_trailing htokens hstop htrailing

/-- `( [ p` ends in two open brackets, and both find the inner one; in `( p q )` brackets match, and
`q` is too many; in `p )` the closing bracket itself is, because brackets do not match. -/
theorem Formula.reading_agrees_with_matching_unclosed :
    let opening : Token := ⟨.symbol .opening, ['('], 0⟩
    let second : Token := ⟨.symbol .opening, ['['], 1⟩
    let p : Token := ⟨.var ['p'], ['p'], 2⟩
    let q : Token := ⟨.var ['q'], ['q'], 4⟩
    let closing : Token := ⟨.symbol .closing, [')'], 5⟩
    let stop : Token := .stopAt 6
    (Formula.ofTokens [opening, second, p, stop] = .error (.unmatched '[' 1) ∧
      checkBrackets [opening, second, p, stop] = .error (.unmatched '[' 1)) ∧
    (checkBrackets [opening, p, q, closing, stop] = .ok () ∧
      Formula.ofTokens [opening, p, q, closing, stop] = .error (.trailing ['q'] 4) ∧
      q.meaning ≠ .symbol .closing) ∧
    Formula.ofTokens [p, closing, stop] = .error (.trailing [')'] 5) ∧
      checkBrackets [p, closing, stop] = .error (.unmatched ')' 5) := by
  intro opening second p q closing stop
  have hunmatched : Formula.ofTokens ([opening, second, p] ++ [stop]) =
      .error (.unmatched '[' 1) := by decide +kernel
  have htrailing : Formula.ofTokens ([opening, p, q, closing] ++ [stop]) =
      .error (.trailing ['q'] 4) := by decide +kernel
  have hmatch : checkBrackets ([opening, p, q, closing] ++ [stop]) = .ok () := by decide +kernel
  refine ⟨⟨hunmatched, ?_⟩, ⟨hmatch, htrailing, ?_⟩, by decide +kernel, by decide +kernel⟩
  · obtain ⟨-, -, hagrees, -⟩ :=
      @reading_agrees_with_matching [opening, second, p] stop rfl (by decide) (by decide)
    rcases hagrees _ _ hunmatched with hsame | ⟨deep, hdeep⟩
    · exact hsame
    · have hfault : checkBrackets ([opening, second, p] ++ [stop]) = .error second.unmatched := rfl
      rw [hfault] at hdeep
      cases hdeep
  · obtain ⟨-, -, -, hagrees⟩ :=
      @reading_agrees_with_matching [opening, p, q, closing] stop rfl (by decide) (by decide)
    obtain ⟨token, hmem, hcurrent, -, hoffset, -, -, -, hclosing⟩ := hagrees _ _ htrailing
    have hq : token = q := by
      rw [hcurrent]
      decide +kernel
    exact hq ▸ hclosing hmatch

end Wff
