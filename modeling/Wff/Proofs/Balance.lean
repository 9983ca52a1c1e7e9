import Mathlib.Data.List.Induction
import Mathlib.Data.List.Infix
import Wff.Proofs.Nesting

/-!
# Wff.Proofs.Balance — bracket matching by counting

`balance` is the number of opening brackets less that of closing ones.  Matching keeps a stack of the
brackets still open; as long as the balance of what has been passed is neither negative nor beyond the
limit, the stack is `leftOpen`, and the balance is its height (`checkBrackets_append`).  So counting tells
all that matching says: `Verdict` lists the outcomes by balances alone, and `checkBrackets_eq_iff` says
that matching comes to these.

The bracket reported at the end is the top of the stack.  It is the last one after which the balance
never falls below what it was there (`Unclosed.Last`), whatever groups are complete before or after it.
-/

namespace Wff

/-! ### Balances -/

/-- Opening brackets less closing brackets. -/
def balance (meanings : List Meaning) : Int :=
  meanings.count (.symbol .opening) - meanings.count (.symbol .closing)

def Meaning.rise (m : Meaning) : Int :=
  if m = .symbol .opening then 1 else if m = .symbol .closing then -1 else 0

@[simp] theorem balance_nil : balance [] = 0 := rfl

@[simp] theorem balance_cons (m : Meaning) (meanings : List Meaning) :
    balance (m :: meanings) = m.rise + balance meanings := by
  unfold balance Meaning.rise
  by_cases hopening : m = .symbol .opening
  · subst hopening
    rw [List.count_cons_self, List.count_cons_of_ne (by simp), if_pos rfl]
    push_cast
    omega
  · rw [List.count_cons_of_ne hopening, if_neg hopening]
    by_cases hclosing : m = .symbol .closing
    · subst hclosing
      rw [List.count_cons_self, if_pos rfl]
      push_cast
      omega
    · rw [List.count_cons_of_ne hclosing, if_neg hclosing, Int.zero_add]

@[simp] theorem balance_append (a b : List Meaning) : balance (a ++ b) = balance a + balance b := by
  unfold balance
  rw [List.count_append, List.count_append]
  push_cast
  omega

def depth (tokens : List Token) : Int := balance (tokens.map Token.meaning)

@[simp] theorem depth_nil : depth [] = 0 := rfl

@[simp] theorem depth_cons (token : Token) (tokens : List Token) :
    depth (token :: tokens) = token.meaning.rise + depth tokens := by
  simp [depth]

@[simp] theorem depth_append (a b : List Token) : depth (a ++ b) = depth a + depth b := by
  simp [depth]

theorem depth_concat (tokens : List Token) (token : Token) :
    depth (tokens ++ [token]) = depth tokens + token.meaning.rise := by
  simp

theorem Token.rise_of_isOpening {token : Token} (h : token.isOpening = true) :
    token.meaning.rise = 1 := by
  rw [Meaning.rise, if_pos (by simpa [isOpening] using h)]

theorem Token.rise_of_isClosing {token : Token} (h : token.isClosing = true) :
    token.meaning.rise = -1 := by
  have hmeaning : token.meaning = .symbol .closing := by simpa [isClosing] using h
  rw [Meaning.rise, hmeaning, if_neg (by simp), if_pos rfl]

theorem Token.rise_of_neither {token : Token} (hopening : token.isOpening = false)
    (hclosing : token.isClosing = false) : token.meaning.rise = 0 := by
  rw [Meaning.rise, if_neg (by simpa [isOpening] using hopening),
    if_neg (by simpa [isClosing] using hclosing)]

/-- On every front part, neither more brackets are closed than opened nor more open than the limit. -/
def StaysWithin (tokens : List Token) : Prop :=
  ∀ used, used <+: tokens → 0 ≤ depth used ∧ depth used ≤ nestingLimit

theorem StaysWithin.of_append {a b : List Token} (h : StaysWithin (a ++ b)) : StaysWithin a :=
  fun used hused => h used (hused.trans (List.prefix_append a b))

theorem StaysWithin.whole {tokens : List Token} (h : StaysWithin tokens) :
    0 ≤ depth tokens ∧ depth tokens ≤ nestingLimit :=
  h tokens List.prefix_rfl

theorem staysWithin_nil : StaysWithin [] := by
  intro used hused
  rw [List.prefix_nil.mp hused]
  decide

theorem staysWithin_concat_iff {tokens : List Token} {token : Token} :
    StaysWithin (tokens ++ [token]) ↔ StaysWithin tokens ∧
      0 ≤ depth (tokens ++ [token]) ∧ depth (tokens ++ [token]) ≤ nestingLimit := by
  refine ⟨fun h => ⟨h.of_append, h.whole⟩, fun ⟨htokens, hlast⟩ used hused => ?_⟩
  rcases List.prefix_concat_iff.mp hused with rfl | hused
  · exact hlast
  · exact htokens used hused

/-! ### The stack -/

/-- The brackets that the tokens leave open, the last one first. -/
def leftOpen (tokens : List Token) : List Token :=
  tokens.foldl (fun opened token =>
    if token.isOpening then token :: opened
    else if token.isClosing then opened.tail
    else opened) []

section LeftOpen

variable {tokens : List Token} {token : Token}

theorem leftOpen_opening (h : token.isOpening = true) :
    leftOpen (tokens ++ [token]) = token :: leftOpen tokens := by
  simp [leftOpen, h]

theorem leftOpen_closing (hopening : token.isOpening = false) (h : token.isClosing = true) :
    leftOpen (tokens ++ [token]) = (leftOpen tokens).tail := by
  simp [leftOpen, hopening, h]

theorem leftOpen_other (hopening : token.isOpening = false) (h : token.isClosing = false) :
    leftOpen (tokens ++ [token]) = leftOpen tokens := by
  simp [leftOpen, hopening, h]

/-- **Where the balance stays within bounds, it is the height of the stack**, and matching goes on with
that stack. -/
theorem checkBrackets_append (h : StaysWithin tokens) :
    ((leftOpen tokens).length : Int) = depth tokens ∧
      ∀ rest, checkBrackets (tokens ++ rest) = matchBrackets (leftOpen tokens) rest := by
  -- from the end of the tokens, for the stack is the one that the tokens before have left
  induction tokens using List.reverseRecOn with
  | nil => exact ⟨rfl, fun rest => rfl⟩
  | append_singleton tokens token ih =>
    obtain ⟨hbefore, hlow, hhigh⟩ := staysWithin_concat_iff.mp h
    obtain ⟨hheight, hmatch⟩ := ih hbefore
    rw [depth_concat] at hlow hhigh ⊢
    simp only [List.append_assoc, List.singleton_append, hmatch]
    cases hopening : token.isOpening with
    | true =>
      have hrise := Token.rise_of_isOpening hopening
      have hroom : (leftOpen tokens).length < nestingLimit := by omega
      rw [leftOpen_opening hopening]
      refine ⟨by rw [List.length_cons]; push_cast; omega, fun rest => ?_⟩
      rw [matchBrackets_opening (by simpa [Token.isOpening] using hopening), if_pos hroom]
    | false =>
      cases hclosing : token.isClosing with
      | true =>
        have hrise := Token.rise_of_isClosing hclosing
        rw [leftOpen_closing hopening hclosing]
        cases hstack : leftOpen tokens with
        | nil =>
          -- closing a bracket where none is open takes the balance below zero
          rw [hstack, List.length_nil] at hheight
          omega
        | cons top others =>
          rw [hstack, List.length_cons] at hheight
          push_cast at hheight
          refine ⟨by rw [List.tail_cons]; omega, fun rest => ?_⟩
          exact matchBrackets_closing (by simpa [Token.isClosing] using hclosing) top
      | false =>
        have hrise := Token.rise_of_neither hopening hclosing
        rw [leftOpen_other hopening hclosing]
        refine ⟨by omega, fun rest => ?_⟩
        exact matchBrackets_other (by simpa [Token.isOpening] using hopening)
          (by simpa [Token.isClosing] using hclosing)

end LeftOpen

/-! ### Brackets never closed -/

/-- The bracket between the two parts of the tokens is never closed: after it the balance never falls
below what it is there. -/
structure Unclosed (tokens before : List Token) (bracket : Token) (after : List Token) : Prop where
  split : tokens = before ++ bracket :: after
  opening : bracket.isOpening = true
  /-- nothing closes it -/
  kept : ∀ used, used <+: after → 0 ≤ depth used

structure Unclosed.Last (tokens before : List Token) (bracket : Token) (after : List Token) : Prop
    extends Unclosed tokens before bracket after where
  /-- no other one stands further on -/
  last : ∀ before' bracket' after', Unclosed tokens before' bracket' after' →
    before'.length ≤ before.length

/-- Every bracket of the stack is never closed, and those above it are what is open after it. -/
theorem exists_unclosed_of_leftOpen {tokens above others : List Token} {bracket : Token}
    (h : leftOpen tokens = above ++ bracket :: others) :
    ∃ before after, Unclosed tokens before bracket after ∧ depth after = above.length := by
  induction tokens using List.reverseRecOn generalizing above with
  | nil => simp [leftOpen] at h
  | append_singleton tokens token ih =>
    -- what holds with the token left out holds with it, if the balance after the bracket allows it
    have hmore : ∀ above' : List Token, leftOpen tokens = above' ++ bracket :: others →
        (above'.length : Int) + token.meaning.rise = above.length →
        ∃ before after, Unclosed (tokens ++ [token]) before bracket after ∧
          depth after = above.length := by
      intro above' hstack hlength
      obtain ⟨before, after, hunclosed, hdepth⟩ := ih hstack
      have hafter : depth (after ++ [token]) = above.length := by
        rw [depth_concat]
        omega
      refine ⟨before, after ++ [token], ⟨by simp [hunclosed.split], hunclosed.opening, ?_⟩, hafter⟩
      intro used hused
      rcases List.prefix_concat_iff.mp hused with rfl | hused
      · rw [hafter]
        exact Int.natCast_nonneg _
      · exact hunclosed.kept used hused
    cases hopening : token.isOpening with
    | true =>
      have hrise := Token.rise_of_isOpening hopening
      rw [leftOpen_opening hopening] at h
      cases above with
      | nil =>
        obtain ⟨rfl, -⟩ := List.cons_eq_cons.mp h
        refine ⟨tokens, [], ⟨rfl, hopening, fun used hused => ?_⟩, rfl⟩
        rw [List.prefix_nil.mp hused]
        exact Int.le_refl 0
      | cons top above =>
        obtain ⟨-, hstack⟩ := List.cons_eq_cons.mp h
        refine hmore above hstack ?_
        rw [hrise, List.length_cons]
        push_cast
        rfl
    | false =>
      cases hclosing : token.isClosing with
      | true =>
        have hrise := Token.rise_of_isClosing hclosing
        rw [leftOpen_closing hopening hclosing] at h
        cases hstack : leftOpen tokens with
        | nil =>
          rw [hstack] at h
          simp at h
        | cons top rest =>
          rw [hstack, List.tail_cons] at h
          refine hmore (top :: above) (by rw [hstack, h]; rfl) ?_
          rw [hrise, List.length_cons]
          push_cast
          omega
      | false =>
        have hrise := Token.rise_of_neither hopening hclosing
        rw [leftOpen_other hopening hclosing] at h
        exact hmore above h (by rw [hrise, Int.add_zero])

theorem exists_last_of_leftOpen {tokens others : List Token} {bracket : Token}
    (h : leftOpen tokens = bracket :: others) :
    ∃ before after, Unclosed.Last tokens before bracket after := by
  have hstack : leftOpen tokens = [] ++ bracket :: others := h
  obtain ⟨before, after, hunclosed, hdepth⟩ := exists_unclosed_of_leftOpen hstack
  refine ⟨before, after, hunclosed, ?_⟩
  intro before' bracket' after' hother
  have hsplit := hunclosed.split
  rw [hother.split] at hsplit
  rcases List.append_eq_append_iff.mp hsplit with ⟨_, hlonger, -⟩ | ⟨between, hshorter, hrest⟩
  · rw [hlonger, List.length_append]
    exact Nat.le_add_right _ _
  · cases between with
    | nil => rw [hshorter, List.append_nil]
    | cons first between =>
      -- a bracket further on that is never closed would still be open at the end
      exfalso
      have hafter : after = between ++ bracket' :: after' := (List.cons_eq_cons.mp hrest).2
      have hbetween := hunclosed.kept between (hafter ▸ List.prefix_append _ _)
      have hend := hother.kept after' List.prefix_rfl
      have hrise := Token.rise_of_isOpening hother.opening
      rw [hafter, depth_append, depth_cons, List.length_nil] at hdepth
      omega

theorem Unclosed.Last.unique {tokens before before' after after' : List Token}
    {bracket bracket' : Token} (h : Unclosed.Last tokens before bracket after)
    (h' : Unclosed.Last tokens before' bracket' after') : bracket = bracket' := by
  have hlength : before.length = before'.length :=
    Nat.le_antisymm (h'.last _ _ _ h.toUnclosed) (h.last _ _ _ h'.toUnclosed)
  have hsplit := h.split
  rw [h'.split] at hsplit
  obtain ⟨-, hrest⟩ := List.append_inj hsplit hlength.symm
  exact (List.cons_eq_cons.mp hrest).1.symm

/-! ### All outcomes -/

/-- What is to be said of the brackets of tokens, by their balances. -/
inductive Verdict (tokens : List Token) : Except Fault Unit → Prop
  | matched (within : StaysWithin tokens) (closed : depth tokens = 0) : Verdict tokens (.ok ())
  /-- the first token that takes the balance out of bounds opens one bracket too many -/
  | tooDeep {before after : List Token} {token : Token} (split : tokens = before ++ token :: after)
      (within : StaysWithin before) (opening : token.isOpening = true)
      (excess : depth (before ++ [token]) = nestingLimit + 1) :
      Verdict tokens (.error (.tooDeep nestingLimit token.offset))
  /-- the first token that takes the balance out of bounds closes what was never opened -/
  | unopened {before after : List Token} {token : Token} (split : tokens = before ++ token :: after)
      (within : StaysWithin before) (closing : token.isClosing = true)
      (below : depth (before ++ [token]) = -1) : Verdict tokens (.error token.unmatched)
  | unclosed {before after : List Token} {bracket : Token} (within : StaysWithin tokens)
      (above : 0 < depth tokens) (last : Unclosed.Last tokens before bracket after) :
      Verdict tokens (.error bracket.unmatched)

/-- Where the balance does not stay within bounds, some token is the first to take it out of them. -/
theorem exists_first_of_not_staysWithin {tokens : List Token} (h : ¬ StaysWithin tokens) :
    ∃ before token after, tokens = before ++ token :: after ∧ StaysWithin before ∧
      (token.isOpening = true ∧ depth (before ++ [token]) = nestingLimit + 1 ∨
        token.isClosing = true ∧ depth (before ++ [token]) = -1) := by
  -- the last token is the first to leave the bounds, or an earlier one is
  induction tokens using List.reverseRecOn with
  | nil => exact absurd staysWithin_nil h
  | append_singleton tokens token ih =>
    by_cases hbefore : StaysWithin tokens
    · refine ⟨tokens, token, [], rfl, hbefore, ?_⟩
      have hout : ¬ (0 ≤ depth (tokens ++ [token]) ∧ depth (tokens ++ [token]) ≤ nestingLimit) :=
        fun hin => h (staysWithin_concat_iff.mpr ⟨hbefore, hin⟩)
      have hwhole := hbefore.whole
      rw [depth_concat] at hout ⊢
      cases hopening : token.isOpening with
      | true =>
        have hrise := Token.rise_of_isOpening hopening
        exact Or.inl ⟨rfl, by omega⟩
      | false =>
        cases hclosing : token.isClosing with
        | true =>
          have hrise := Token.rise_of_isClosing hclosing
          exact Or.inr ⟨rfl, by omega⟩
        | false =>
          have hrise := Token.rise_of_neither hopening hclosing
          omega
    · obtain ⟨before, first, after, rfl, hfirst⟩ := ih hbefore
      exact ⟨before, first, after ++ [token], by simp, hfirst⟩

theorem Verdict.checkBrackets_eq {tokens : List Token} {result : Except Fault Unit}
    (h : Verdict tokens result) : checkBrackets tokens = result := by
  cases h with
  | matched within closed =>
    obtain ⟨hheight, hmatch⟩ := checkBrackets_append within
    have hnone : leftOpen tokens = [] := List.eq_nil_of_length_eq_zero (by omega)
    rw [← List.append_nil tokens, hmatch, hnone]
    rfl
  | tooDeep split within opening excess =>
    obtain ⟨hheight, hmatch⟩ := checkBrackets_append within
    rw [depth_concat, Token.rise_of_isOpening opening] at excess
    rw [split, hmatch, matchBrackets_opening (by simpa [Token.isOpening] using opening),
      if_neg (by omega)]
  | @unopened before after token split within closing below =>
    obtain ⟨hheight, hmatch⟩ := checkBrackets_append within
    rw [depth_concat, Token.rise_of_isClosing closing] at below
    have hnone : leftOpen before = [] := List.eq_nil_of_length_eq_zero (by omega)
    rw [split, hmatch, hnone, matchBrackets_unopened (by simpa [Token.isClosing] using closing)]
  | unclosed within above last =>
    -- matching reports the top of the stack, which is the last bracket never closed
    obtain ⟨hheight, hmatch⟩ := checkBrackets_append within
    cases hstack : leftOpen tokens with
    | nil =>
      rw [hstack, List.length_nil] at hheight
      omega
    | cons top others =>
      obtain ⟨_, _, htop⟩ := exists_last_of_leftOpen hstack
      rw [← List.append_nil tokens, hmatch, hstack, last.unique htop]
      rfl

theorem exists_verdict (tokens : List Token) : ∃ result, Verdict tokens result := by
  by_cases hwithin : StaysWithin tokens
  · by_cases hclosed : depth tokens = 0
    · exact ⟨_, .matched hwithin hclosed⟩
    · have habove : 0 < depth tokens := by
        have hlow := hwithin.whole.1
        omega
      obtain ⟨hheight, -⟩ := checkBrackets_append hwithin
      cases hstack : leftOpen tokens with
      | nil =>
        rw [hstack, List.length_nil] at hheight
        omega
      | cons top others =>
        obtain ⟨_, _, hlast⟩ := exists_last_of_leftOpen hstack
        exact ⟨_, .unclosed hwithin habove hlast⟩
  · obtain ⟨before, token, after, hsplit, hbefore, ⟨hopening, hexcess⟩ | ⟨hclosing, hbelow⟩⟩ :=
      exists_first_of_not_staysWithin hwithin
    · exact ⟨_, .tooDeep hsplit hbefore hopening hexcess⟩
    · exact ⟨_, .unopened hsplit hbefore hclosing hbelow⟩

/-- **Matching is counting.**  Brackets match just if the balance is never negative, never beyond the
limit, and zero at the end.  Else the first token that takes the balance out of these bounds is at fault;
and if none does, the last bracket is that is never closed. -/
theorem checkBrackets_eq_iff (tokens : List Token) (result : Except Fault Unit) :
    checkBrackets tokens = result ↔ Verdict tokens result := by
  constructor
  · rintro rfl
    obtain ⟨result, hverdict⟩ := exists_verdict tokens
    rw [hverdict.checkBrackets_eq]
    exact hverdict
  · exact Verdict.checkBrackets_eq

/-- `([(p)`: the last bracket that opens is closed again, so the one before it is reported. -/
example : checkBrackets [⟨.symbol .opening, ['('], 0⟩, ⟨.symbol .opening, ['['], 1⟩,
    ⟨.symbol .opening, ['('], 2⟩, ⟨.var ['p'], ['p'], 3⟩, ⟨.symbol .closing, [')'], 4⟩] =
      .error (.unmatched '[' 1) := by
  decide

end Wff
