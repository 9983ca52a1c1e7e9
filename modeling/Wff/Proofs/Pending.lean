import Wff.Proofs.Blame

/-!
# Wff.Proofs.Pending — what some tokens leave pending

Reading a formula nests chains, marks and brackets.  All that is pending after some of the tokens is
whether an operand has to come, and which brackets are still open: `Pending`.  `Pending.walk` goes
over the tokens with this alone and makes no formula.

* `Reader.follows_of_run`: readers of all levels go on and stop where the walk does, for the same
  cause.
* `Formula.ofTokens_of_walk`: so a list of tokens is read as a formula if nothing is pending at its
  end, and else its fault is that of the walk.
-/

namespace Wff

/-- What some tokens leave pending: an operand has to come or is complete.  The brackets still open come
with the last one first. -/
inductive Pending
  | awaiting (opened : List Token)
  | complete (opened : List Token)

namespace Pending

def opened : Pending → List Token
  | awaiting opened | complete opened => opened

/-- Take one token, or find the cause why it cannot come here. -/
def step (token : Token) : Pending → Except Cause Pending
  | awaiting opened =>
    match token.meaning with
    | .var _ | .symbol (.constant _) => .ok (complete opened)
    | .symbol .negationBefore => .ok (awaiting opened)
    | .symbol .opening => .ok (awaiting (token :: opened))
    | _ => .error .missingOperand
  | complete opened =>
    match token.meaning, opened with
    | .symbol .negationAfter, opened => .ok (complete opened)
    | .symbol (.operator kind), opened =>
      if kind.isBinary then .ok (awaiting opened) else .error .trailing
    | .symbol .closing, _ :: opened => .ok (complete opened)
    | _, _ => .error .trailing

/-- The cause why the tokens cannot end here, if there is one. -/
def finish? : Pending → Option Cause
  | awaiting _ => some .missingOperand
  | complete [] => none
  | complete (opening :: _) => some (.unclosed opening)

/-- The cause why the tokens make up no formula, if there is one, and the tokens from the one at
fault on. -/
def walk : Pending → List Token → Option Cause × List Token
  | pending, [] => (pending.finish?, [])
  | pending, token :: rest =>
    match pending.step token with
    | .ok next => next.walk rest
    | .error cause => (some cause, token :: rest)

/-! ### One token -/

section Step

variable {token : Token} {opened : List Token}

theorem step_markBefore (h : token.isMarkBefore = true) :
    (awaiting opened).step token = .ok (awaiting opened) := by
  have hmeaning : token.meaning = .symbol .negationBefore := by simpa [Token.isMarkBefore] using h
  simp only [step, hmeaning]

theorem step_opening (h : token.meaning = .symbol .opening) :
    (awaiting opened).step token = .ok (awaiting (token :: opened)) := by
  simp only [step, h]

theorem step_missingOperand (h : token.meaning.begins = false) :
    (awaiting opened).step token = .error .missingOperand := by
  unfold step
  dsimp only
  split
  · simp [Meaning.begins, *] at h
  · simp [Meaning.begins, *] at h
  · simp [Meaning.begins, *] at h
  · simp [Meaning.begins, *] at h
  · rfl

theorem step_markAfter (h : token.isMarkAfter = true) :
    (complete opened).step token = .ok (complete opened) := by
  have hmeaning : token.meaning = .symbol .negationAfter := by simpa [Token.isMarkAfter] using h
  simp only [step, hmeaning]

theorem step_operator {kind : Kind} (h : token.meaning = .symbol (.operator kind))
    (hbinary : kind.isBinary = true) :
    (complete opened).step token = .ok (awaiting opened) := by
  simp only [step, h, hbinary, if_pos]

theorem step_closing (h : token.meaning = .symbol .closing) (opening : Token) :
    (complete (opening :: opened)).step token = .ok (complete opened) := by
  simp only [step, h]

theorem goesOn_biconditional_operator (kind : Kind) :
    Level.biconditional.goesOn (.symbol (.operator kind)) = kind.isBinary := by
  cases kind <;> rfl

theorem goesOn_biconditional_cases {m : Meaning} (h : Level.biconditional.goesOn m = true) :
    m = .symbol .negationAfter ∨ ∃ kind, m = .symbol (.operator kind) ∧ kind.isBinary = true := by
  cases m with
  | var name => cases h
  | stop => cases h
  | symbol s =>
    cases s with
    | negationAfter => exact Or.inl rfl
    | operator kind =>
      rw [goesOn_biconditional_operator] at h
      exact Or.inr ⟨kind, rfl, h⟩
    | constant | negationBefore | opening | closing => cases h

theorem step_trailing (h : Level.biconditional.goesOn token.meaning = false)
    (hclosing : token.meaning = .symbol .closing → opened = []) :
    (complete opened).step token = .error .trailing := by
  unfold step
  dsimp only
  split
  · rename_i hmeaning
    rw [hmeaning] at h
    simp [Level.goesOn] at h
  · rename_i kind hmeaning
    rw [hmeaning, goesOn_biconditional_operator] at h
    rw [h]
    rfl
  · rename_i hmeaning
    have hnil := hclosing hmeaning
    simp at hnil
  · rfl

end Step

/-! ### Many tokens -/

@[simp] theorem walk_nil (pending : Pending) : pending.walk [] = (pending.finish?, []) := rfl

theorem walk_cons_of_ok {pending next : Pending} {token : Token} (h : pending.step token = .ok next)
    (rest : List Token) : pending.walk (token :: rest) = next.walk rest := by
  rw [walk, h]

theorem walk_cons_of_error {pending : Pending} {token : Token} {cause : Cause}
    (h : pending.step token = .error cause) (rest : List Token) :
    pending.walk (token :: rest) = (some cause, token :: rest) := by
  rw [walk, h]

/-- Tokens that leave everything as it is make no difference to the walk. -/
theorem walk_dropWhile {pending : Pending} {p : Token → Bool}
    (h : ∀ token, p token = true → pending.step token = .ok pending) (tokens : List Token) :
    pending.walk (tokens.dropWhile p) = pending.walk tokens := by
  induction tokens with
  | nil => rfl
  | cons token rest ih =>
    by_cases htoken : p token = true
    · rw [List.dropWhile_cons_of_pos htoken, walk_cons_of_ok (h token htoken), ih]
    · rw [List.dropWhile_cons_of_neg htoken]

/-- The rest of the walk, after a reader that was to read an operand. -/
def resume (opened : List Token) : Reading Formula → Option Cause × List Token
  | (.ok _, rest) => (complete opened).walk rest
  | (.error cause, rest) => (some cause, rest)

end Pending

/-! ### Readers -/

open Pending

/-- The walk over at most `depth` tokens, from where an operand has to come, goes on after what the
reader took, and ends where the reader stops for a cause. -/
def Reader.Follows (depth : Nat) (level : Level) (reader : Reader) : Prop :=
  ∀ tokens : List Token, tokens.length ≤ depth →
    (level = .primary → Stops Token.isMarkBefore tokens) →
    ∀ opened, (awaiting opened).walk tokens = resume opened (reader.run tokens)

namespace Reader

theorem follows_closeBracket {depth : Nat} {reader : Reader} (hsound : Sound .biconditional reader)
    (h : Follows depth .biconditional reader) {tokens : List Token} (hlength : tokens.length ≤ depth)
    (opening : Token) (opened : List Token) :
    (awaiting (opening :: opened)).walk tokens =
      resume opened (closeBracket opening (reader.run tokens)) := by
  have hinside := h tokens hlength (by simp) (opening :: opened)
  rw [hinside]
  -- the walk goes on inside the bracket with it open, and closes it where the reader does
  rcases hrun : reader.run tokens with ⟨cause | f, rest⟩
  · rfl
  · have hfollow : Stops (Level.biconditional.goesOn ·.meaning) rest := (hsound tokens f rest hrun).2
    cases rest with
    | nil => rfl
    | cons token rest =>
      by_cases hclosing : token.isClosing = true
      · have hmeaning : token.meaning = .symbol .closing := by
          simpa [Token.isClosing] using hclosing
        have hclosed : closeBracket opening (.ok f, token :: rest) = (.ok f, rest) := if_pos hclosing
        rw [hclosed]
        exact walk_cons_of_ok (step_closing hmeaning opening) rest
      · have hmeaning : token.meaning ≠ .symbol .closing := by
          simpa [Token.isClosing] using hclosing
        have hopen : closeBracket opening (.ok f, token :: rest) = (.error .trailing, token :: rest) :=
          if_neg hclosing
        rw [hopen]
        exact walk_cons_of_error
          (step_trailing (hfollow token rfl) fun hm => absurd hm hmeaning) rest

theorem follows_primary_zero : Follows 0 .primary (primary none) := by
  intro tokens hlength _ opened
  have hnil : tokens = [] := List.eq_nil_of_length_eq_zero (Nat.le_zero.mp hlength)
  rw [hnil]
  rfl

theorem follows_primary_succ {depth : Nat} {reader : Reader} (hsound : Sound .biconditional reader)
    (h : Follows depth .biconditional reader) :
    Follows (depth + 1) .primary (primary (some reader)) := by
  intro tokens hlength hmarks opened
  show _ = resume opened (primaryRun (some reader) tokens)
  cases tokens with
  | nil => rfl
  | cons token rest =>
    have hrest : rest.length ≤ depth := Nat.le_of_succ_le_succ hlength
    -- marks are passed before operands are read
    have hmark : token.isMarkBefore = false := stops_cons.mp (hmarks rfl)
    cases hbegins : token.meaning.begins with
    | false =>
      rw [primaryRun_missing hbegins]
      exact walk_cons_of_error (step_missingOperand hbegins) rest
    | true =>
      rcases Meaning.begins_cases hbegins with ⟨name, hname⟩ | ⟨value, hvalue⟩ | hopening | hbefore
      · have hstep : (awaiting opened).step token = .ok (complete opened) := by
          simp only [step, hname]
        rw [primaryRun_var hname]
        exact walk_cons_of_ok hstep rest
      · have hstep : (awaiting opened).step token = .ok (complete opened) := by
          simp only [step, hvalue]
        rw [primaryRun_const hvalue]
        exact walk_cons_of_ok hstep rest
      · rw [primaryRun_opening hopening, walk_cons_of_ok (step_opening hopening)]
        exact follows_closeBracket hsound h hrest token opened
      · simp [Token.isMarkBefore, hbefore] at hmark

theorem follows_negations {depth : Nat} {operand : Reader}
    (hoperand : Follows depth .primary operand) : Follows depth .negation (negations operand) := by
  intro tokens hlength _ opened
  have hshorter : (tokens.dropWhile Token.isMarkBefore).length ≤ depth :=
    (List.dropWhile_suffix _).length_le.trans hlength
  have hread := hoperand _ hshorter (fun _ => stops_dropWhile _ _) opened
  rw [walk_dropWhile fun _ => step_markBefore] at hread
  rw [hread]
  dsimp only [negations]
  rcases operand.run (tokens.dropWhile Token.isMarkBefore) with ⟨cause | f, rest⟩
  · rfl
  · exact (walk_dropWhile (fun _ => step_markAfter) rest).symm

/-- After an operand, the walk goes on as the chain grows. -/
theorem follows_grow {depth : Nat} {level next : Level} {band : Band}
    (hchain : level.chain? = some (band, next)) {operand : Reader}
    (hoperand : Follows depth next operand) (f : Formula) (tokens : List Token)
    (hlength : tokens.length ≤ depth) (opened : List Token) :
    (complete opened).walk tokens = resume opened (grow band operand f tokens) := by
  have hnext := Level.next_ne_primary hchain
  -- an operator of the band is binary, so an operand has to come after it
  have hstep : ∀ {token : Token} {kind : Kind}, token.operatorOf? band = some kind →
      ∀ rest, (complete opened).walk (token :: rest) = (awaiting opened).walk rest := by
    intro token kind hkind rest
    obtain ⟨hmeaning, hband⟩ := Token.operatorOf?_eq_some_iff.mp hkind
    have hbinary := Kind.isBinary_of_band (Level.band_ne_negation hchain) hband
    exact walk_cons_of_ok (step_operator hmeaning hbinary) rest
  fun_induction grow band operand f tokens with
  | case1 | case2 => rfl
  | case3 f token rest kind hkind reading cause hcause =>
    have hrest : rest.length ≤ depth := (Nat.le_succ _).trans hlength
    rw [hstep hkind, hoperand rest hrest (fun h => absurd h hnext) opened]
    show resume opened (reading.1, reading.2) = _
    rw [hcause]
  | case4 f token rest kind hkind reading g hg both hboth ih =>
    have hrest : rest.length ≤ depth := (Nat.le_succ _).trans hlength
    have hafter : reading.2.length ≤ depth := (operand.length_rest_le rest).trans hrest
    rw [hstep hkind, hoperand rest hrest (fun h => absurd h hnext) opened, ← ih hafter]
    show resume opened (reading.1, reading.2) = _
    rw [hg]
    rfl
  | case5 f token rest kind hkind reading g hg hnone =>
    obtain ⟨both, hboth⟩ := Kind.exists_join? (Level.band_ne_negation hchain)
      (Token.operatorOf?_eq_some_iff.mp hkind).2 f g
    rw [hboth] at hnone
    cases hnone

theorem follows_chain {depth : Nat} {level next : Level} {band : Band}
    (hchain : level.chain? = some (band, next)) {operand : Reader}
    (hoperand : Follows depth next operand) : Follows depth level (chain band operand) := by
  intro tokens hlength _ opened
  have hnext := Level.next_ne_primary hchain
  rw [chain_run hchain, hoperand tokens hlength (fun h => absurd h hnext) opened]
  rcases hrun : operand.run tokens with ⟨cause | first, rest⟩
  · rfl
  · have hrest : rest.length ≤ depth := by
      have hle := operand.length_rest_le tokens
      rw [hrun] at hle
      exact hle.trans hlength
    exact follows_grow hchain hoperand first rest hrest opened

/-- **Readers of all levels follow the walk.** -/
theorem follows_of_run (depth : Nat) (level : Level) : Follows depth level (atLevel depth level) := by
  have hboth : Sound level (atLevel depth level) ∧ Follows depth level (atLevel depth level) := by
    refine atLevel_induction
      (P := fun depth level reader => Sound level reader ∧ Follows depth level reader)
      ?_ ?_ ?_ ?_ depth level
    · exact ⟨sound_primary (by simp), follows_primary_zero⟩
    · rintro depth reader ⟨hsound, hfollows⟩
      exact ⟨sound_primary fun _ heq => Option.some.inj heq ▸ hsound,
        follows_primary_succ hsound hfollows⟩
    · rintro depth reader ⟨hsound, hfollows⟩
      exact ⟨sound_negations hsound, follows_negations hfollows⟩
    · rintro depth level band next hchain reader ⟨hsound, hfollows⟩
      exact ⟨sound_chain hchain hsound, follows_chain hchain hfollows⟩
  exact hboth.2

end Reader

/-! ### Whole lists -/

/-- The cursor where reading a list ends: behind the formula, or at the token at fault. -/
def Cursor.afterReading (tokens : List Token) : Cursor :=
  ((Cursor.ofTokens tokens).readWithin tokens.length .biconditional).2

theorem Cursor.ahead_ofTokens {tokens : List Token} (h : ∀ token ∈ tokens, token.isStop = false)
    (more : List Token) :
    (Cursor.ofTokens (tokens ++ more)).ahead = tokens ++ (Cursor.ofTokens more).ahead :=
  List.takeWhile_append_of_pos (by simpa using h)

/-- **Reading a list is walking over it**: it is read as a formula if nothing is pending at its end,
and else its fault is that of the walk, and the cursor is left where the walk ends. -/
theorem Formula.ofTokens_of_walk (tokens : List Token) :
    match (awaiting []).walk (Cursor.ofTokens tokens).ahead with
    | (none, _) => ∃ f, Formula.ofTokens tokens = .ok f
    | (some cause, rest) =>
      Formula.ofTokens tokens = .error (cause.fault tokens.length (Cursor.afterReading tokens).current) ∧
        (Cursor.afterReading tokens).ahead = rest := by
  have hlength : (Cursor.ofTokens tokens).ahead.length ≤ tokens.length :=
    (List.takeWhile_prefix _).length_le
  have hwalk : (awaiting []).walk (Cursor.ofTokens tokens).ahead =
      resume [] ((Reader.atLevel tokens.length .biconditional).run (tokens.takeWhile (!·.isStop))) :=
    Reader.follows_of_run tokens.length .biconditional _ hlength (by simp) []
  have hcursor : Cursor.afterReading tokens =
      ⟨((Reader.atLevel tokens.length .biconditional).run (tokens.takeWhile (!·.isStop))).2,
        (Cursor.ofTokens tokens).stop⟩ := rfl
  rw [hwalk, hcursor, Formula.ofTokens_eq]
  rcases hrun : (Reader.atLevel tokens.length .biconditional).run (tokens.takeWhile (!·.isStop)) with
    ⟨cause | f, rest⟩
  · exact ⟨rfl, rfl⟩
  · cases rest with
    | nil => exact ⟨f, rfl⟩
    | cons token rest =>
      obtain ⟨-, hfollow⟩ := Reader.derives_of_run _ _ _ _ _ hrun
      have hstep : (complete []).step token = .error .trailing :=
        step_trailing (hfollow token rfl) fun _ => rfl
      have hresume : resume [] (.ok f, token :: rest) = (some .trailing, token :: rest) :=
        walk_cons_of_error hstep rest
      rw [hresume]
      exact ⟨rfl, rfl⟩

theorem Formula.walk_of_ofTokens {tokens : List Token} {stop : Token} {f : Formula}
    (hstop : stop.isStop = true) (htokens : ∀ token ∈ tokens, token.isStop = false)
    (h : Formula.ofTokens (tokens ++ [stop]) = .ok f) : ((awaiting []).walk tokens).1 = none := by
  have hread := Formula.ofTokens_of_walk (tokens ++ [stop])
  rw [Cursor.ahead_concat htokens hstop] at hread
  rcases hwalk : (awaiting []).walk tokens with ⟨_ | cause, rest⟩
  · rfl
  · rw [hwalk, h] at hread
    cases hread.1

end Wff
