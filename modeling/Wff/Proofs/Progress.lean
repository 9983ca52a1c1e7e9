import Wff.Proofs.Moves
import Wff.Proofs.Recursion

/-!
# Wff.Proofs.Progress — readings end, and move on

A reading begins only readings of fewer tokens, or of the same ones at a tighter level
(`Call.Begins.later`), so none begins others forever (`Call.begins_wellFounded`).  What is read
depends on nothing but the readings begun (`Reader.body_run`); hence the readers without a limit are
the only ones that read as their bodies say (`Reader.eq_unlimited_iff`), and counting brackets only
puts this recursion into a form that is seen to end.

A reading that succeeds takes a token at least, and leaves none that it would go on with
(`Cursor.StandsAt.moves_on_of_read`).
-/

namespace Wff

/-! ### Readings that a reading begins -/

theorem Level.chain?_cases (level : Level) :
    (∃ band next, level.chain? = some (band, next)) ∨ level = .negation ∨ level = .primary := by
  cases level with
  | negation => exact Or.inr (Or.inl rfl)
  | primary => exact Or.inr (Or.inr rfl)
  | biconditional | implication | disjunction | conjunction => exact Or.inl ⟨_, _, rfl⟩

theorem Turn.later {band : Band} {next : Level} {tokens there : List Token}
    (h : Turn band next tokens there) :
    there <:+ tokens ∧ (there = tokens ∨ there.length < tokens.length) := by
  induction h with
  | first tokens => exact ⟨List.suffix_refl _, Or.inl rfl⟩
  | again read operator others ih =>
    rename_i tokens rest there f token kind
    have hsuffix : token :: rest <:+ tokens := by
      have hrest := (Reader.atLevel tokens.length next).rest_suffix tokens
      rwa [read] at hrest
    refine ⟨ih.1.trans ((List.suffix_cons token rest).trans hsuffix), Or.inr ?_⟩
    exact ih.1.length_le.trans_lt hsuffix.length_le

namespace Call

variable {caller callee : Call}

/-- A reading is begun behind where its caller began, or there at a tighter level. -/
theorem Begins.later (h : caller.Begins callee) :
    callee.tokens <:+ caller.tokens ∧
      (callee.tokens.length < caller.tokens.length ∨
        callee.tokens = caller.tokens ∧ caller.level.tightness < callee.level.tightness) := by
  cases h with
  | operand chain turn =>
    obtain ⟨hsuffix, hsame | hshorter⟩ := turn.later
    · have htight := Level.tightness_of_chain? chain
      exact ⟨hsuffix, Or.inr ⟨hsame, htight ▸ Nat.lt_succ_self _⟩⟩
    · exact ⟨hsuffix, Or.inl hshorter⟩
  | marked tokens =>
    have hsuffix := List.dropWhile_suffix (l := tokens) Token.isMarkBefore
    refine ⟨hsuffix, ?_⟩
    rcases Nat.lt_or_eq_of_le hsuffix.length_le with hshorter | hsame
    · exact Or.inl hshorter
    · exact Or.inr ⟨hsuffix.eq_of_length hsame, Nat.lt_succ_self 5⟩
  | inside bracket rest => exact ⟨List.suffix_cons _ _, Or.inl (Nat.lt_succ_self _)⟩

/-- Seven for each token, and one for each level that is tighter. -/
def rank (call : Call) : Nat := 7 * call.tokens.length + (6 - call.level.tightness)

theorem Begins.rank_lt (h : caller.Begins callee) : callee.rank < caller.rank := by
  have htight : callee.level.tightness ≤ 6 := by cases callee.level <;> decide
  unfold rank
  rcases h.later with ⟨-, hshorter | ⟨hsame, htighter⟩⟩
  · omega
  · rw [hsame]
    omega

/-- **No reading begins readings forever.** -/
theorem begins_wellFounded : WellFounded fun callee caller : Call => caller.Begins callee :=
  Subrelation.wf (fun h => Begins.rank_lt h) (measure rank).wf

end Call

/-! ### What is read depends on what is begun -/

namespace Reader

def unlimited (level : Level) : Reader where
  run tokens := (atLevel tokens.length level).run tokens
  rest_suffix tokens := (atLevel tokens.length level).rest_suffix tokens

/-- The reader of a level that uses `reader` for all the readings it begins. -/
def body (reader : Level → Reader) : Level → Reader
  | .biconditional => chain .biconditional (reader .implication)
  | .implication => chain .implication (reader .disjunction)
  | .disjunction => chain .disjunction (reader .conjunction)
  | .conjunction => chain .conjunction (reader .negation)
  | .negation => negations (reader .primary)
  | .primary => primary (some (reader .biconditional))

theorem body_of_chain? {level next : Level} {band : Band} (h : level.chain? = some (band, next))
    (reader : Level → Reader) : body reader level = chain band (reader next) := by
  cases level <;> cases h <;> rfl

theorem atLevel_run {depth : Nat} {level : Level} {tokens : List Token} (h : tokens.length ≤ depth) :
    (atLevel depth level).run tokens = (unlimited level).run tokens :=
  Level.run_eq_of_length_le h

/-- A chain that grows depends only on its operands. -/
theorem grow_eq {band : Band} {next : Level} {operand : Reader} {depth : Nat} (f : Formula)
    (tokens : List Token) (hdepth : tokens.length ≤ depth)
    (h : ∀ token rest kind there, tokens = token :: rest → token.operatorOf? band = some kind →
      Turn band next rest there → operand.run there = (unlimited next).run there) :
    grow band operand f tokens = grow band (atLevel depth next) f tokens := by
  fun_induction grow band operand f tokens with
  | case1 f => rw [grow]
  | case2 f token rest hnone => rw [grow, hnone]
  | case3 f token rest kind hkind reading cause hcause =>
    have hrest : rest.length ≤ depth := (Nat.le_succ _).trans hdepth
    have hoperand : (atLevel depth next).run rest = reading :=
      (atLevel_run hrest).trans (h token rest kind rest rfl hkind (.first rest)).symm
    rw [grow, hkind]
    simp only [hoperand, hcause]
  | case4 f token rest kind hkind reading g hg both hboth ih =>
    have hrest : rest.length ≤ depth := (Nat.le_succ _).trans hdepth
    have hread : (unlimited next).run rest = reading :=
      (h token rest kind rest rfl hkind (.first rest)).symm
    have hoperand : (atLevel depth next).run rest = reading := (atLevel_run hrest).trans hread
    rw [grow, hkind]
    simp only [hoperand, hg, hboth]
    refine ih ((operand.length_rest_le rest).trans hrest) ?_
    -- the operands that follow are read in turn, behind this one
    intro token' rest' kind' there hleft hkind' hturn
    have hfirst : (unlimited next).run rest = (.ok g, token' :: rest') := by
      rw [hread, ← hleft, ← hg]
    exact h token rest kind there rfl hkind (.again hfirst hkind' hturn)
  | case5 f token rest kind hkind reading g hg hnone =>
    have hrest : rest.length ≤ depth := (Nat.le_succ _).trans hdepth
    have hoperand : (atLevel depth next).run rest = reading :=
      (atLevel_run hrest).trans (h token rest kind rest rfl hkind (.first rest)).symm
    rw [grow, hkind]
    simp only [hoperand, hg, hnone]

/-- **A reading depends only on the readings that it begins.** -/
theorem body_run {reader : Level → Reader} {level : Level} {tokens : List Token}
    (h : ∀ callee : Call, Call.Begins ⟨level, tokens⟩ callee →
      (reader callee.level).run callee.tokens = (unlimited callee.level).run callee.tokens) :
    (body reader level).run tokens = (unlimited level).run tokens := by
  -- without a limit, as many brackets as there are tokens may be open
  show _ = (atLevel tokens.length level).run tokens
  rcases level.chain?_cases with ⟨band, next, hchain⟩ | rfl | rfl
  · have hturn : ∀ there, Turn band next tokens there →
        (reader next).run there = (unlimited next).run there :=
      fun there turn => h ⟨next, there⟩ (.operand hchain turn)
    rw [body_of_chain? hchain, atLevel_of_chain? hchain, chain_run hchain, chain_run hchain,
      hturn tokens (.first tokens), atLevel_run (Nat.le_refl _)]
    rcases hrun : (unlimited next).run tokens with ⟨cause | first, rest⟩
    · rfl
    · have hle : rest.length ≤ tokens.length := by
        have hlength := (unlimited next).length_rest_le tokens
        rwa [hrun] at hlength
      refine grow_eq first rest hle ?_
      rintro token more kind there rfl hkind hmore
      exact hturn there (.again hrun hkind hmore)
  · have hmarked := h _ (.marked tokens)
    have hle : (tokens.dropWhile Token.isMarkBefore).length ≤ tokens.length :=
      (List.dropWhile_suffix _).length_le
    show (negations (reader .primary)).run tokens =
      (negations (atLevel tokens.length .primary)).run tokens
    dsimp only [negations]
    rw [hmarked, atLevel_run hle]
  · cases tokens with
    | nil => rfl
    | cons token rest =>
      rw [List.length_cons, atLevel_primary_succ]
      show primaryRun (some (reader .biconditional)) (token :: rest) =
        primaryRun (some (atLevel rest.length .biconditional)) (token :: rest)
      unfold primaryRun
      dsimp only
      split
      · rfl
      · rfl
      · rename_i hopening
        exact congrArg (closeBracket token) (h _ (.inside hopening rest))
      · rfl

/-- **The readers without a limit are the only ones that read as their bodies say.** -/
theorem eq_unlimited_iff {reader : Level → Reader} :
    reader = unlimited ↔
      ∀ level tokens, (reader level).run tokens = (body reader level).run tokens := by
  constructor
  · rintro rfl level tokens
    exact (body_run fun callee _ => rfl).symm
  · intro h
    have hrun : ∀ call : Call,
        (reader call.level).run call.tokens = (unlimited call.level).run call.tokens := by
      intro call
      induction call using Call.begins_wellFounded.induction with
      | _ call ih => exact (h call.level call.tokens).trans (body_run ih)
    funext level
    exact Reader.ext (funext fun tokens => hrun ⟨level, tokens⟩)

end Reader

/-! ### Cursors -/

/-- Reading at the level, from this place of the list, ends and moves on. -/
structure Cursor.MovesOn (list : List Token) (place : Nat) (cursor : Cursor) (level : Level) : Prop where
  unlimited : (cursor.read level).2.ahead = ((Reader.unlimited level).run cursor.ahead).2 ∧
    ∀ f, (cursor.read level).1 = .ok f ↔ ((Reader.unlimited level).run cursor.ahead).1 = .ok f
  enough : ∀ depth, cursor.ahead.length ≤ depth → cursor.readWithin depth level = cursor.read level
  room : ∀ limit offset, (cursor.read level).1 ≠ .error (.tooDeep limit offset)
  /-- a formula is read off a token at least, and does not go on with the token after it -/
  reads : ∀ f after, cursor.read level = (.ok f, after) →
    ∃ later, place < later ∧ after.StandsAt list later ∧
      (level ≠ .primary → after.current.meaning ≠ .symbol .negationAfter) ∧
      ∀ kind, after.current.meaning = .symbol (.operator kind) →
        ∀ band ∈ level.bands, kind.band? ≠ some band
  /-- the readings begun are further on, or there at a tighter level -/
  begins : ∀ callee : Call, Call.Begins ⟨level, cursor.ahead⟩ callee →
    ∃ later, StandsAt list later { cursor with ahead := callee.tokens } ∧
      (place < later ∨ later = place ∧ level.tightness < callee.level.tightness)

namespace Cursor

namespace StandsAt

variable {list : List Token} {place : Nat} {cursor : Cursor} (h : cursor.StandsAt list place)
include h

theorem moves_on_of_read {level : Level} {f : Formula} {after : Cursor}
    (hread : cursor.read level = (.ok f, after)) :
    ∃ later, place < later ∧ after.StandsAt list later ∧
      level.goesOn after.current.meaning = false := by
  unfold read readWithin at hread
  rcases hrun : (Reader.atLevel cursor.ahead.length level).run cursor.ahead with ⟨cause | g, rest⟩
  · rw [hrun] at hread
    cases hread
  · rw [hrun] at hread
    obtain ⟨-, rfl⟩ := Prod.mk.inj hread
    obtain ⟨⟨used, hsplit, hderives⟩, hfollow⟩ := Reader.derives_of_run _ _ _ _ _ hrun
    have hused : 0 < used.length :=
      List.length_pos_iff.mpr fun hnil => hderives.ne_nil (by rw [hnil]; rfl)
    have hmoved := h.of_suffix (hsplit ▸ List.suffix_append used rest)
    have hlength := congrArg List.length hsplit
    rw [List.length_append] at hlength
    refine ⟨_, by omega, hmoved, ?_⟩
    cases rest with
    | cons token rest => exact hfollow token rfl
    | nil =>
      -- nothing goes on at the end
      have hstop : cursor.stop.isStop = true :=
        hmoved.isStop_current_iff.mpr (hmoved.atEnd_iff.mp rfl)
      have hmeaning : cursor.stop.meaning = .stop := by simpa [Token.isStop] using hstop
      show level.goesOn cursor.stop.meaning = false
      rw [hmeaning]
      exact Level.goesOn_eq_false_iff.mpr ⟨by simp, by simp⟩

theorem begins {level : Level} {callee : Call} (hbegins : Call.Begins ⟨level, cursor.ahead⟩ callee) :
    ∃ later, StandsAt list later { cursor with ahead := callee.tokens } ∧
      (place < later ∨ later = place ∧ level.tightness < callee.level.tightness) := by
  obtain ⟨hsuffix, hlater⟩ := hbegins.later
  refine ⟨_, h.of_suffix hsuffix, ?_⟩
  rcases hlater with hshorter | ⟨hsame, htighter⟩
  · have hlt : callee.tokens.length < cursor.ahead.length := hshorter
    exact Or.inl (by omega)
  · exact Or.inr ⟨by rw [hsame, Nat.sub_self, Nat.add_zero], htighter⟩

theorem movesOn (level : Level) : cursor.MovesOn list place level where
  unlimited := by
    refine ⟨rfl, fun f => ?_⟩
    show ((Reader.unlimited level).run cursor.ahead).1.mapError _ = .ok f ↔ _
    cases ((Reader.unlimited level).run cursor.ahead).1 <;> simp [Except.mapError]
  enough depth hdepth := readWithin_eq_read hdepth
  room limit offset hdeep := by
    rcases fault_cases hdeep with ⟨_, hfault⟩ | ⟨_, _, hfault⟩ | ⟨_, -, -, hfault⟩ <;> cases hfault
  reads f after hread := by
    obtain ⟨later, hlater, hafter, hfollow⟩ := h.moves_on_of_read hread
    exact ⟨later, hlater, hafter, Level.goesOn_eq_false_iff.mp hfollow⟩
  begins callee hbegins := h.begins hbegins

end StandsAt

/-- **Reading ends, and moves on.**  No reading begins readings forever: each is behind its caller, or
at the same place at a tighter level.  Nothing else is used, so what is read is settled by the bodies of
the readers alone, without a limit.  From every place of a list, and at every level, a reading that
succeeds takes a token at least, and the token after it is no negation mark that the formula would take
and no operator of a band that it would go on with. -/
theorem reading_ends_and_moves_on :
    (WellFounded fun callee caller : Call => caller.Begins callee) ∧
    (∀ (reader : Level → Reader) (level : Level) (tokens : List Token),
      (∀ callee : Call, Call.Begins ⟨level, tokens⟩ callee →
        (reader callee.level).run callee.tokens = (Reader.unlimited callee.level).run callee.tokens) →
      (Reader.body reader level).run tokens = (Reader.unlimited level).run tokens) ∧
    (∀ reader : Level → Reader, reader = Reader.unlimited ↔
      ∀ level tokens, (reader level).run tokens = (Reader.body reader level).run tokens) ∧
    ∀ (tokens : List Token) (place : Nat) (cursor : Cursor),
      cursor.StandsAt (Token.ended tokens) place →
      ∀ level, cursor.MovesOn (Token.ended tokens) place level :=
  ⟨Call.begins_wellFounded, fun _ _ _ h => Reader.body_run h, fun _ => Reader.eq_unlimited_iff,
    fun _ _ _ h level => h.movesOn level⟩

/-- `p' ∧ q)`: a conjunction is read up to the bracket, which is not closed here. -/
theorem reading_ends_and_moves_on_to_closing :
    let tokens : List Token := [⟨.var ['p'], ['p'], 0⟩, ⟨.symbol .negationAfter, ['\x27'], 1⟩,
      ⟨.symbol (.operator .and), ['∧'], 2⟩, ⟨.var ['q'], ['q'], 5⟩, ⟨.symbol .closing, [')'], 6⟩]
    let f : Formula := .binary .and (.not (.var ['p'])) (.var ['q'])
    ∃ after later, (ofTokens tokens).read .conjunction = (.ok f, after) ∧ 0 < later ∧
      after.StandsAt (Token.ended tokens) later ∧ after.current.meaning = .symbol .closing ∧
      (Reader.body Reader.unlimited .conjunction).run tokens =
        (Reader.unlimited .conjunction).run tokens := by
  intro tokens f
  obtain ⟨-, hbody, -, hmoves⟩ := reading_ends_and_moves_on
  have hread : (ofTokens tokens).read .conjunction =
      (.ok f, ⟨[⟨.symbol .closing, [')'], 6⟩], .stopAt 7⟩) := by decide +kernel
  have hbegin := hmoves tokens 0 (ofTokens tokens) (standsAt_ofTokens tokens) .conjunction
  obtain ⟨later, hlater, hafter, -⟩ := hbegin.reads _ _ hread
  exact ⟨_, later, hread, hlater, hafter, rfl, hbody _ _ _ fun _ _ => rfl⟩

end Cursor

end Wff
