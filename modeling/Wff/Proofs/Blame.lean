import Wff.Proofs.Derivation
import Wff.Proofs.Nesting

/-!
# Wff.Proofs.Blame — which token a fault is about

A reader that stops for a cause has taken some tokens and left others; `Cause.Blames` says what the
cause promises about the two.  Above all, an operand is only missing where one is awaited: at the
beginning, or after an operator, a negation mark or an opening bracket.  `Blamed` says the same of
the faults of a whole list of tokens.

The readers are gone through level by level (`Reader.blames_of_run`); a reader that goes on after
others keeps their promises because what it takes itself is never empty when an operand is missing
(`Cause.Blames.prepend`).
-/

namespace Wff

/-- Can an operand begin with a token of this meaning? -/
def Meaning.begins : Meaning → Bool
  | .var _ | .symbol (.constant _) | .symbol .opening | .symbol .negationBefore => true
  | _ => false

/-- Has an operand to follow a token of this meaning? -/
def Meaning.awaits : Meaning → Bool
  | .symbol (.operator _) | .symbol .opening | .symbol .negationBefore => true
  | _ => false

theorem Meaning.begins_cases {m : Meaning} (h : m.begins = true) :
    (∃ name, m = .var name) ∨ (∃ value, m = .symbol (.constant value)) ∨ m = .symbol .opening ∨
      m = .symbol .negationBefore := by
  unfold begins at h
  split at h
  · exact Or.inl ⟨_, rfl⟩
  · exact Or.inr (Or.inl ⟨_, rfl⟩)
  · exact Or.inr (Or.inr (Or.inl rfl))
  · exact Or.inr (Or.inr (Or.inr rfl))
  · cases h

theorem Reader.primaryRun_missing {token : Token} (h : token.meaning.begins = false)
    (inner : Option Reader) (rest : List Token) :
    primaryRun inner (token :: rest) = (.error .missingOperand, token :: rest) := by
  unfold primaryRun
  dsimp only
  split
  · simp [Meaning.begins, *] at h
  · simp [Meaning.begins, *] at h
  · simp [Meaning.begins, *] at h
  · rfl

theorem Reader.run_of_mark {depth : Nat} {level : Level} {tokens : List Token}
    (h : ¬ (level = .primary → Stops Token.isMarkBefore tokens)) :
    (atLevel depth level).run tokens = (.error .missingOperand, tokens) := by
  obtain ⟨rfl, hmark⟩ := Classical.not_imp.mp h
  cases tokens with
  | nil => exact absurd (stops_nil _) hmark
  | cons token rest =>
    rw [stops_cons, Bool.not_eq_false] at hmark
    have hmeaning : token.meaning = .symbol .negationBefore := by
      simpa [Token.isMarkBefore] using hmark
    obtain ⟨inner, hinner⟩ := exists_atLevel_primary depth
    rw [hinner]
    show primaryRun inner (token :: rest) = _
    simp only [primaryRun, hmeaning]

/-- What a cause promises about the tokens taken before it was met, and about those left. -/
def Cause.Blames (used rest : List Token) : Cause → Prop
  | .missingOperand =>
    (∀ last ∈ used.getLast?, last.meaning.awaits = true) ∧
    ∀ next ∈ rest.head?, next.meaning.begins = false
  | .trailing => ∃ next ∈ rest.head?, Level.biconditional.goesOn next.meaning = false
  | .unclosed opening => opening ∈ used ∧ opening.meaning = .symbol .opening
  | .tooDeep => ∃ next ∈ rest.head?, next.meaning = .symbol .opening
  | .notBinary _ => False

/-- The promise stands with more tokens taken before, if an operand may follow them. -/
theorem Cause.Blames.prepend {used rest : List Token} {cause : Cause} (h : cause.Blames used rest)
    {before : List Token}
    (hbefore : used = [] → ∀ last ∈ before.getLast?, last.meaning.awaits = true) :
    cause.Blames (before ++ used) rest := by
  cases cause with
  | missingOperand =>
    refine ⟨?_, h.2⟩
    intro last hlast
    rw [List.getLast?_append] at hlast
    cases hused : used.getLast? with
    | none =>
      rw [hused, Option.none_or] at hlast
      exact hbefore (List.getLast?_eq_none_iff.mp hused) last hlast
    | some last' =>
      rw [hused, Option.some_or] at hlast
      exact h.1 last (hused.trans hlast)
  | trailing => exact h
  | unclosed opening => exact ⟨List.mem_append_right _ h.1, h.2⟩
  | tooDeep => exact h
  | notBinary kind => exact h

theorem Cause.Blames.cons {token : Token} (htoken : token.meaning.awaits = true)
    {used rest : List Token} {cause : Cause} (h : cause.Blames used rest) :
    cause.Blames (token :: used) rest := by
  show cause.Blames ([token] ++ used) rest
  apply h.prepend
  rintro - last hlast
  obtain rfl := Option.some.inj hlast
  exact htoken

/-! ### Readers -/

/-- A reader of the level keeps the promises of causes; operands are read after all marks. -/
def Reader.Blaming (level : Level) (reader : Reader) : Prop :=
  ∀ tokens cause rest, (level = .primary → Stops Token.isMarkBefore tokens) →
    reader.run tokens = (.error cause, rest) →
    ∃ used, tokens = used ++ rest ∧ cause.Blames used rest

namespace Reader

theorem blaming_closeBracket {opening : Token} (hopening : opening.meaning = .symbol .opening)
    {reader : Reader} (hsound : Sound .biconditional reader) (h : Blaming .biconditional reader)
    {tokens rest : List Token} {cause : Cause}
    (hrun : closeBracket opening (reader.run tokens) = (.error cause, rest)) :
    ∃ used, opening :: tokens = used ++ rest ∧ cause.Blames used rest := by
  -- the fault lies inside the brackets, at their end, or at a token before the closing one
  rcases hinside : reader.run tokens with ⟨cause' | f, left⟩
  · rw [hinside] at hrun
    cases hrun
    obtain ⟨used, rfl, hblames⟩ := h tokens cause _ (by simp) hinside
    have hawaits : opening.meaning.awaits = true := by simp [Meaning.awaits, hopening]
    exact ⟨opening :: used, rfl, hblames.cons hawaits⟩
  · rw [hinside] at hrun
    obtain ⟨⟨used, rfl, -⟩, hfollow⟩ := hsound tokens f left hinside
    rcases left with _ | ⟨token, left⟩
    · cases hrun
      exact ⟨opening :: used, by simp, List.mem_cons_self, hopening⟩
    · unfold closeBracket at hrun
      dsimp only at hrun
      by_cases hclosing : token.isClosing = true
      · rw [if_pos hclosing] at hrun
        cases hrun
      · rw [if_neg hclosing] at hrun
        cases hrun
        exact ⟨opening :: used, rfl, token, rfl, hfollow token rfl⟩

theorem blaming_primary {inner : Option Reader}
    (hinner : ∀ reader, inner = some reader →
      Sound .biconditional reader ∧ Blaming .biconditional reader) :
    Blaming .primary (primary inner) := by
  intro tokens cause rest hmarks hrun
  change primaryRun inner tokens = _ at hrun
  unfold primaryRun at hrun
  split at hrun
  · cases hrun
    exact ⟨[], rfl, by simp [Cause.Blames]⟩
  · rename_i token tail
    split at hrun
    · cases hrun
    · cases hrun
    · rename_i hopening
      split at hrun
      · rename_i reader
        exact blaming_closeBracket hopening (hinner reader rfl).1 (hinner reader rfl).2 hrun
      · cases hrun
        exact ⟨[], rfl, token, rfl, hopening⟩
    · rename_i hvar hconst hopening
      cases hrun
      -- a negation mark begins an operand as well, but marks are passed before operands are read
      have hmark : token.isMarkBefore = false := stops_cons.mp (hmarks rfl)
      have hbegins : token.meaning.begins = false := by
        unfold Meaning.begins
        split
        · exact absurd ‹_› (hvar _)
        · exact absurd ‹_› (hconst _)
        · exact absurd ‹_› hopening
        · simp [Token.isMarkBefore, *] at hmark
        · rfl
      refine ⟨[], rfl, by simp, ?_⟩
      intro next hnext
      obtain rfl := Option.some.inj hnext
      exact hbegins

theorem blaming_negations {operand : Reader} (hoperand : Blaming .primary operand) :
    Blaming .negation (negations operand) := by
  intro tokens cause rest _ hrun
  dsimp only [negations] at hrun
  split at hrun
  · rename_i cause' rest' hread
    cases hrun
    obtain ⟨used, hused, hblames⟩ :=
      hoperand _ cause rest (fun _ => stops_dropWhile _ _) hread
    refine ⟨tokens.takeWhile Token.isMarkBefore ++ used, ?_, hblames.prepend ?_⟩
    · rw [List.append_assoc, ← hused, List.takeWhile_append_dropWhile]
    · rintro - last hlast
      have hmark := List.mem_takeWhile_imp (List.mem_of_getLast? hlast)
      have hmeaning : last.meaning = .symbol .negationBefore := by
        simpa [Token.isMarkBefore] using hmark
      simp [Meaning.awaits, hmeaning]
  · cases hrun

/-- A chain that stops growing has taken an operator at least. -/
theorem blaming_grow {level next : Level} {band : Band} (hchain : level.chain? = some (band, next))
    {operand : Reader} (hoperand : Blaming next operand) {f : Formula} {tokens rest : List Token}
    {cause : Cause} (hrun : grow band operand f tokens = (.error cause, rest)) :
    ∃ used, used ≠ [] ∧ tokens = used ++ rest ∧ cause.Blames used rest := by
  have hnext := Level.next_ne_primary hchain
  fun_induction grow band operand f tokens with
  | case1 | case2 => cases hrun
  | case3 f token tail kind hkind reading cause' hcause =>
    cases hrun
    obtain ⟨used, htail, hblames⟩ :=
      hoperand tail cause reading.2 (fun h => absurd h hnext) (by rw [← hcause])
    have hawaits : token.meaning.awaits = true := by
      simp [Meaning.awaits, (Token.operatorOf?_eq_some_iff.mp hkind).1]
    exact ⟨token :: used, by simp, congrArg (token :: ·) htail, hblames.cons hawaits⟩
  | case4 f token tail kind hkind reading g hg both hboth ih =>
    obtain ⟨used, hne, hused, hblames⟩ := ih hrun
    obtain ⟨taken, htaken⟩ := operand.rest_suffix tail
    -- the operand just read awaits nothing, but the chain has taken an operator after it
    refine ⟨token :: taken ++ used, by simp, ?_, hblames.prepend fun h => absurd h hne⟩
    rw [List.append_assoc, ← hused]
    exact congrArg (token :: ·) htaken.symm
  | case5 f token tail kind hkind reading g hg hnone =>
    obtain ⟨both, hboth⟩ := Kind.exists_join? (Level.band_ne_negation hchain)
      (Token.operatorOf?_eq_some_iff.mp hkind).2 f g
    rw [hboth] at hnone
    cases hnone

theorem blaming_chain {level next : Level} {band : Band} (hchain : level.chain? = some (band, next))
    {operand : Reader} (hoperand : Blaming next operand) : Blaming level (chain band operand) := by
  intro tokens cause rest _ hrun
  have hnext := Level.next_ne_primary hchain
  rw [chain_run hchain] at hrun
  split at hrun
  · rename_i hread
    cases hrun
    exact hoperand tokens cause rest (fun h => absurd h hnext) hread
  · rename_i first mid hread
    obtain ⟨taken, htaken⟩ := operand.rest_suffix tokens
    rw [hread] at htaken
    obtain ⟨used, hne, rfl, hblames⟩ := blaming_grow hchain hoperand hrun
    refine ⟨taken ++ used, ?_, hblames.prepend fun h => absurd h hne⟩
    rw [List.append_assoc]
    exact htaken.symm

/-- **What readers of all levels are blamed for.** -/
theorem blames_of_run (depth : Nat) (level : Level) : Blaming level (atLevel depth level) := by
  have hboth : Sound level (atLevel depth level) ∧ Blaming level (atLevel depth level) := by
    refine atLevel_induction (P := fun _ level reader => Sound level reader ∧ Blaming level reader)
      ?_ ?_ ?_ ?_ depth level
    · exact ⟨sound_primary (by simp), blaming_primary (by simp)⟩
    · rintro depth reader h
      exact ⟨sound_primary fun _ heq => Option.some.inj heq ▸ h.1,
        blaming_primary fun _ heq => Option.some.inj heq ▸ h⟩
    · rintro depth reader ⟨hsound, hblaming⟩
      exact ⟨sound_negations hsound, blaming_negations hblaming⟩
    · rintro depth level band next hchain reader ⟨hsound, hblaming⟩
      exact ⟨sound_chain hchain hsound, blaming_chain hchain hblaming⟩
  exact hboth.2

end Reader

/-! ### Whole lists -/

/-- Which of the tokens a fault is about, `stop` being the token that ends them. -/
inductive Blamed (tokens : List Token) (stop : Token) : Fault → Prop
  | unmatched {token : Token} (default : Char) (mem : token ∈ tokens)
      (bracket : token.meaning = .symbol .opening ∨ token.meaning = .symbol .closing) :
      Blamed tokens stop (.unmatched (token.literal.headD default) token.offset)
  | tooDeep {token : Token} (limit : Nat) (mem : token ∈ tokens)
      (opening : token.meaning = .symbol .opening) :
      Blamed tokens stop (.tooDeep limit token.offset)
  | trailing {token : Token} (mem : token ∈ tokens)
      (complete : Level.biconditional.goesOn token.meaning = false) :
      Blamed tokens stop (.trailing token.literal token.offset)
  /-- a token that begins no operand, where one is awaited -/
  | missingOperand {used rest : List Token} {next : Token} (split : tokens = used ++ next :: rest)
      (awaited : ∀ last ∈ used.getLast?, last.meaning.awaits = true)
      (begins : next.meaning.begins = false) :
      Blamed tokens stop (.missingOperand next.offset)
  /-- the end of the tokens, where an operand is awaited -/
  | missingAtEnd : Blamed tokens stop (.missingOperand stop.offset)

theorem blamed_of_matchBrackets {all : List Token} {stop : Token} {fault : Fault}
    {opened tokens : List Token} (h : matchBrackets opened tokens = .error fault)
    (hopened : ∀ token ∈ opened, token ∈ all ∧ token.meaning = .symbol .opening)
    (htokens : ∀ token ∈ tokens, token.isStop = false → token ∈ all) : Blamed all stop fault := by
  -- every bracket on the stack came from the list, and so does the next one
  induction tokens generalizing opened with
  | nil =>
    cases opened with
    | nil => cases h
    | cons last opened =>
      cases h
      obtain ⟨hmem, hopening⟩ := hopened last List.mem_cons_self
      exact .unmatched _ hmem (Or.inl hopening)
  | cons token tail ih =>
    have htail : ∀ t ∈ tail, t.isStop = false → t ∈ all :=
      fun t ht => htokens t (List.mem_cons_of_mem _ ht)
    have hmem : token.isStop = false → token ∈ all := htokens token List.mem_cons_self
    by_cases hopening : token.meaning = .symbol .opening
    · have hall := hmem (by simp [Token.isStop, hopening])
      rw [matchBrackets_opening hopening] at h
      by_cases hroom : opened.length < nestingLimit
      · rw [if_pos hroom] at h
        refine ih h ?_ htail
        intro t ht
        rcases List.mem_cons.mp ht with rfl | ht
        · exact ⟨hall, hopening⟩
        · exact hopened t ht
      · rw [if_neg hroom] at h
        cases h
        exact .tooDeep _ hall hopening
    · by_cases hclosing : token.meaning = .symbol .closing
      · cases opened with
        | nil =>
          rw [matchBrackets_unopened hclosing] at h
          cases h
          exact .unmatched _ (hmem (by simp [Token.isStop, hclosing])) (Or.inr hclosing)
        | cons last opened =>
          rw [matchBrackets_closing hclosing] at h
          exact ih h (fun t ht => hopened t (List.mem_cons_of_mem _ ht)) htail
      · rw [matchBrackets_other hopening hclosing] at h
        exact ih h hopened htail

theorem Cause.Blames.blamed {used rest : List Token} {cause : Cause} (h : cause.Blames used rest)
    (depth : Nat) (stop : Token) :
    Blamed (used ++ rest) stop (cause.fault depth (rest.headD stop)) := by
  cases cause with
  | missingOperand =>
    cases rest with
    | nil => exact .missingAtEnd
    | cons next rest => exact .missingOperand rfl h.1 (h.2 next rfl)
  | trailing =>
    obtain ⟨next, hnext, hcomplete⟩ := h
    rw [List.headD_eq_head?_getD, hnext]
    exact .trailing (List.mem_append_right _ (List.mem_of_head? hnext)) hcomplete
  | unclosed opening =>
    exact .unmatched _ (List.mem_append_left _ h.1) (Or.inl h.2)
  | tooDeep =>
    obtain ⟨next, hnext, hopening⟩ := h
    rw [List.headD_eq_head?_getD, hnext]
    exact .tooDeep _ (List.mem_append_right _ (List.mem_of_head? hnext)) hopening
  | notBinary kind => exact h.elim

/-- The fault of a list that `stop` ends is about one of the tokens before it, or about `stop`. -/
theorem blamed_of_ofTokens {tokens : List Token} {stop : Token} {fault : Fault}
    (hstop : stop.isStop = true) (htokens : ∀ token ∈ tokens, token.isStop = false)
    (h : Formula.ofTokens (tokens ++ [stop]) = .error fault) : Blamed tokens stop fault := by
  rw [Formula.ofTokens_eq, takeWhile_isStop htokens hstop, Cursor.stop_ofTokens htokens hstop] at h
  split at h
  · rename_i cause rest hrun
    cases h
    obtain ⟨used, rfl, hblames⟩ := Reader.blames_of_run _ _ _ _ _ (by simp) hrun
    exact hblames.blamed _ stop
  · cases h
  · rename_i f token rest hrun
    cases h
    obtain ⟨⟨used, rfl, -⟩, hfollow⟩ := Reader.derives_of_run _ _ _ _ _ hrun
    exact .trailing (by simp) (hfollow token rfl)

end Wff
