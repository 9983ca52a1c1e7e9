import Mathlib.Data.List.Infix
import Wff.Token.Brackets

/-!
# Wff.Proofs.Nesting — how many brackets are open at once

`Spans height meanings`: the brackets among tokens of these meanings match each other, and at most
`height` of them are open at once.  So bracket matching passes them, unless the brackets open before
and these together are more than the limit; then it stops inside them.  The empty list, a token that
is no bracket, lists one after the other and a list in brackets give all cases.

`NestsWithin limit meanings` counts brackets instead: on no prefix are more than `limit` open.  Where
the brackets match, their height is no more than that (`Spans.le_of_nestsWithin`).
-/

namespace Wff

/-! ### One token -/

section Step

variable {token : Token} {opened rest : List Token}

theorem matchBrackets_opening (h : token.meaning = .symbol .opening) :
    matchBrackets opened (token :: rest) =
      if opened.length < nestingLimit then matchBrackets (token :: opened) rest
      else .error (.tooDeep nestingLimit token.offset) := by
  rw [matchBrackets.eq_def]
  exact if_pos (by simp [Token.isOpening, h])

theorem matchBrackets_closing (h : token.meaning = .symbol .closing) (last : Token) :
    matchBrackets (last :: opened) (token :: rest) = matchBrackets opened rest := by
  rw [matchBrackets.eq_def]
  dsimp only
  rw [if_neg (by simp [Token.isOpening, h]), if_pos (by simp [Token.isClosing, h])]

theorem matchBrackets_unopened (h : token.meaning = .symbol .closing) :
    matchBrackets [] (token :: rest) = .error token.unmatched := by
  rw [matchBrackets.eq_def]
  dsimp only
  rw [if_neg (by simp [Token.isOpening, h]), if_pos (by simp [Token.isClosing, h])]

theorem matchBrackets_other (hopening : token.meaning ≠ .symbol .opening)
    (hclosing : token.meaning ≠ .symbol .closing) :
    matchBrackets opened (token :: rest) = matchBrackets opened rest := by
  rw [matchBrackets.eq_def]
  dsimp only
  rw [if_neg (by simp [Token.isOpening, hopening]), if_neg (by simp [Token.isClosing, hclosing])]

end Step

/-! ### Lists of tokens -/

/-- Brackets are at fault for two causes only. -/
theorem matchBrackets_error_cases {opened tokens : List Token} {fault : Fault}
    (h : matchBrackets opened tokens = .error fault) :
    (∃ bracket : Token, fault = bracket.unmatched) ∨
      ∃ bracket : Token, fault = .tooDeep nestingLimit bracket.offset := by
  fun_induction matchBrackets opened tokens with
  | case1 => cases h
  | case2 last others => exact Or.inl ⟨last, (Except.error.inj h).symm⟩
  | case3 opened token rest hopening hroom ih => exact ih h
  | case4 opened token rest hopening hroom => exact Or.inr ⟨token, (Except.error.inj h).symm⟩
  | case5 token rest hopening hclosing => exact Or.inl ⟨token, (Except.error.inj h).symm⟩
  | case6 token rest hopening hclosing last opened ih => exact ih h
  | case7 opened token rest hopening hclosing ih => exact ih h

/-- Tokens of these meanings match each other's brackets, with at most `height` of them open. -/
def Spans (height : Nat) (meanings : List Meaning) : Prop :=
  ∀ tokens : List Token, tokens.map Token.meaning = meanings →
    ∀ opened rest : List Token, opened.length ≤ nestingLimit →
      (opened.length + height ≤ nestingLimit →
        matchBrackets opened (tokens ++ rest) = matchBrackets opened rest) ∧
      (nestingLimit < opened.length + height →
        ∃ offset, matchBrackets opened (tokens ++ rest) = .error (.tooDeep nestingLimit offset))

namespace Spans

theorem nil : Spans 0 [] := by
  rintro tokens htokens opened rest hopened
  rw [List.map_eq_nil_iff.mp htokens]
  exact ⟨fun _ => rfl, fun hover => absurd hover (Nat.not_lt.mpr hopened)⟩

theorem cons {m : Meaning} (hopening : m ≠ .symbol .opening) (hclosing : m ≠ .symbol .closing)
    {height : Nat} {meanings : List Meaning} (h : Spans height meanings) :
    Spans height (m :: meanings) := by
  intro tokens htokens opened rest hopened
  obtain ⟨token, tail, rfl, rfl, htail⟩ := List.map_eq_cons_iff.mp htokens
  rw [List.cons_append, matchBrackets_other hopening hclosing]
  exact h tail htail opened rest hopened

theorem replicate {m : Meaning} (hopening : m ≠ .symbol .opening) (hclosing : m ≠ .symbol .closing)
    (n : Nat) : Spans 0 (List.replicate n m) := by
  induction n with
  | zero => exact nil
  | succ n ih => exact ih.cons hopening hclosing

theorem append {height height' : Nat} {meanings meanings' : List Meaning}
    (h : Spans height meanings) (h' : Spans height' meanings') :
    Spans (max height height') (meanings ++ meanings') := by
  intro tokens htokens opened rest hopened
  obtain ⟨front, back, rfl, hfront, hback⟩ := List.map_eq_append_iff.mp htokens
  rw [List.append_assoc]
  obtain ⟨hfits, hover⟩ := h front hfront opened (back ++ rest) hopened
  obtain ⟨hfits', hover'⟩ := h' back hback opened rest hopened
  constructor
  · intro hboth
    rw [hfits (by omega), hfits' (by omega)]
  · intro heither
    -- the first of the two that does not fit stops the matching
    by_cases hfirst : opened.length + height ≤ nestingLimit
    · rw [hfits hfirst]
      exact hover' (by omega)
    · exact hover (by omega)

theorem brackets {height : Nat} {meanings : List Meaning} (h : Spans height meanings) :
    Spans (height + 1) (.symbol .opening :: (meanings ++ [.symbol .closing])) := by
  intro tokens htokens opened rest hopened
  obtain ⟨opening, tail, rfl, hopening, htail⟩ := List.map_eq_cons_iff.mp htokens
  obtain ⟨inside, last, rfl, hinside, hlast⟩ := List.map_eq_append_iff.mp htail
  obtain ⟨closing, rfl, hclosing⟩ := List.map_eq_singleton_iff.mp hlast
  rw [List.cons_append, matchBrackets_opening hopening]
  by_cases hroom : opened.length < nestingLimit
  · rw [if_pos hroom, List.append_assoc]
    obtain ⟨hfits, hover⟩ := h inside hinside (opening :: opened) ([closing] ++ rest) hroom
    rw [List.length_cons] at hfits hover
    constructor
    · intro hheight
      rw [hfits (by omega), List.singleton_append, matchBrackets_closing hclosing]
    · intro hheight
      exact hover (by omega)
  · rw [if_neg hroom]
    exact ⟨fun hheight => by omega, fun _ => ⟨opening.offset, rfl⟩⟩

end Spans

/-! ### Counting brackets -/

def NestsWithin (limit : Nat) (meanings : List Meaning) : Prop :=
  ∀ used, used <+: meanings → used.count (.symbol .opening) ≤ used.count (.symbol .closing) + limit

instance (limit : Nat) (meanings : List Meaning) : Decidable (NestsWithin limit meanings) :=
  decidable_of_iff (∀ used ∈ meanings.inits, used.count (.symbol .opening) ≤
    used.count (.symbol .closing) + limit) (by simp [NestsWithin])

theorem NestsWithin.of_append {limit : Nat} {front back : List Meaning}
    (h : NestsWithin limit (front ++ back)) : NestsWithin limit front :=
  fun used hbefore => h used (hbefore.trans (List.prefix_append front back))

/-- Where brackets are nested too deep, the opening ones so far are more than the closing ones and
the limit. -/
theorem exists_prefix_of_tooDeep {opened tokens : List Token} {limit offset : Nat}
    (h : matchBrackets opened tokens = .error (.tooDeep limit offset)) :
    ∃ used, used <+: tokens.map Token.meaning ∧
      used.count (.symbol .closing) + nestingLimit <
        opened.length + used.count (.symbol .opening) := by
  fun_induction matchBrackets opened tokens with
  | case1 => cases h
  | case2 last others => cases h
  | case3 opened token rest hopening hroom ih =>
    obtain ⟨used, hbefore, hdeep⟩ := ih h
    have hmeaning : token.meaning = .symbol .opening := by simpa [Token.isOpening] using hopening
    refine ⟨token.meaning :: used, List.cons_prefix_cons.mpr ⟨rfl, hbefore⟩, ?_⟩
    rw [List.length_cons] at hdeep
    rw [hmeaning, List.count_cons_self, List.count_cons_of_ne (by simp)]
    omega
  | case4 opened token rest hopening hroom =>
    -- this bracket is the one too many
    have hmeaning : token.meaning = .symbol .opening := by simpa [Token.isOpening] using hopening
    refine ⟨[token.meaning], List.cons_prefix_cons.mpr ⟨rfl, List.nil_prefix⟩, ?_⟩
    rw [hmeaning, List.count_cons_self, List.count_cons_of_ne (by simp), List.count_nil,
      List.count_nil]
    omega
  | case5 token rest hopening hclosing => cases h
  | case6 token rest hopening hclosing last opened ih =>
    obtain ⟨used, hbefore, hdeep⟩ := ih h
    have hmeaning : token.meaning = .symbol .closing := by simpa [Token.isClosing] using hclosing
    refine ⟨token.meaning :: used, List.cons_prefix_cons.mpr ⟨rfl, hbefore⟩, ?_⟩
    rw [hmeaning, List.count_cons_self, List.count_cons_of_ne (by simp), List.length_cons]
    omega
  | case7 opened token rest hopening hclosing ih =>
    obtain ⟨used, hbefore, hdeep⟩ := ih h
    refine ⟨token.meaning :: used, List.cons_prefix_cons.mpr ⟨rfl, hbefore⟩, ?_⟩
    rw [List.count_cons_of_ne (by simpa [Token.isClosing] using hclosing),
      List.count_cons_of_ne (by simpa [Token.isOpening] using hopening)]
    exact hdeep

/-- Brackets that match are as many at once as are open on some prefix. -/
theorem Spans.le_of_nestsWithin {height limit : Nat} {meanings : List Meaning}
    (h : Spans height meanings) (hwithin : NestsWithin limit meanings)
    (hlimit : limit ≤ nestingLimit) : height ≤ limit := by
  rw [← Nat.not_lt]
  intro hover
  -- with all other brackets open, one more than the limit is too many
  let opened : List Token := List.replicate (nestingLimit - limit) (.stopAt 0)
  have hlength : opened.length = nestingLimit - limit := List.length_replicate
  let tokens : List Token := meanings.map fun m => ⟨m, [], 0⟩
  have htokens : tokens.map Token.meaning = meanings := by
    simp [tokens, Function.comp_def]
  obtain ⟨offset, hdeep⟩ := (h tokens htokens opened [] (by omega)).2 (by omega)
  rw [List.append_nil] at hdeep
  obtain ⟨used, hbefore, hcount⟩ := exists_prefix_of_tooDeep hdeep
  have hcount' := hwithin used (htokens ▸ hbefore)
  omega

end Wff
