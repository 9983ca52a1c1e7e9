import Wff.Proofs.Reaching

/-!
# Wff.Proofs.Limit — reading with a limit on brackets

A reader is given the number of brackets that may be open at once, and stops where there is one too
many.  `Level.Exhausts` says that it does; with more brackets the same is read, unless there were too
few (`Reader.extends_of_le`).  So two limits that are both high enough make no difference, and as many
brackets as there are tokens are always enough (`Formula.ofTokensWithin_of_length_le`).
-/

namespace Wff

/-! ### Levels -/

namespace Reader

theorem atLevel_of_chain? {level next : Level} {band : Band}
    (hchain : level.chain? = some (band, next)) (depth : Nat) :
    atLevel depth level = chain band (atLevel depth next) := by
  cases level <;> simp only [Level.chain?, Option.some.injEq, Prod.mk.injEq, reduceCtorEq] at hchain
  all_goals
    obtain ⟨rfl, rfl⟩ := hchain
    rfl

theorem atLevel_primary_succ (depth : Nat) :
    atLevel (depth + 1) .primary = primary (some (atLevel depth .biconditional)) :=
  congrArg (fun reader => primary (some reader)) (expression_eq depth)

end Reader

/-- What holds of operands where no bracket may be open, and carries over from whole formulas to
operands, from operands to negations and from each level to the chains of the level before it, holds
at all levels. -/
theorem Level.induction {P : Nat → Level → Prop} (zero : P 0 .primary)
    (succ : ∀ depth, P depth .biconditional → P (depth + 1) .primary)
    (marked : ∀ depth, P depth .primary → P depth .negation)
    (chained : ∀ depth level band next, level.chain? = some (band, next) →
      P depth next → P depth level) (depth : Nat) (level : Level) : P depth level :=
  Reader.atLevel_induction (P := fun depth level _ => P depth level) zero
    (fun depth _ => succ depth) (fun depth _ => marked depth)
    (fun depth level band next hchain _ => chained depth level band next hchain) depth level

/-! ### A bracket too many -/

namespace Reader

theorem closeBracket_tooDeep_iff {opening : Token} {reading : Reading Formula} :
    (closeBracket opening reading).1 = .error .tooDeep ↔ reading.1 = .error .tooDeep := by
  rcases reading with ⟨cause | f, _ | ⟨token, rest⟩⟩
  · exact Iff.rfl
  · exact Iff.rfl
  · simp [closeBracket]
  · by_cases hclosing : token.isClosing = true <;> simp [closeBracket, hclosing]

theorem primaryRun_tooDeep_iff {inner : Option Reader} {tokens : List Token} :
    (primaryRun inner tokens).1 = .error .tooDeep ↔
      ∃ token rest, tokens = token :: rest ∧ token.meaning = .symbol .opening ∧
        ∀ reader, inner = some reader → (reader.run rest).1 = .error .tooDeep := by
  unfold primaryRun
  split
  · simp
  · rename_i token rest
    split
    · simp [*]
    · simp [*]
    · split
      · simp [*, closeBracket_tooDeep_iff]
      · simp [*]
    · rename_i hopening
      have hne : token.meaning ≠ .symbol .opening := hopening
      simp [hne]

theorem negations_tooDeep_iff {operand : Reader} {tokens : List Token} :
    ((negations operand).run tokens).1 = .error .tooDeep ↔
      (operand.run (tokens.dropWhile Token.isMarkBefore)).1 = .error .tooDeep := by
  dsimp only [negations]
  rcases operand.run (tokens.dropWhile Token.isMarkBefore) with ⟨cause | f, rest⟩
  · exact Iff.rfl
  · simp

end Reader

/-! ### More brackets -/

/-- `more` reads what `reader` reads, wherever `reader` does not meet a bracket too many. -/
def Reader.Extends (more reader : Reader) : Prop :=
  ∀ tokens, (reader.run tokens).1 ≠ .error .tooDeep → more.run tokens = reader.run tokens

namespace Reader

theorem extends_primary_none (inner : Option Reader) : (primary inner).Extends (primary none) := by
  intro tokens hroom
  have hopening : ∀ token rest, tokens = token :: rest → token.meaning ≠ .symbol .opening := by
    rintro token rest rfl hopening
    exact hroom (primaryRun_tooDeep_iff.mpr ⟨token, rest, rfl, hopening, by simp⟩)
  show primaryRun inner tokens = primaryRun none tokens
  unfold primaryRun
  split
  · rfl
  · split
    · rfl
    · rfl
    · exact absurd ‹_› (hopening _ _ rfl)
    · rfl

theorem extends_primary_some {more reader : Reader} (h : more.Extends reader) :
    (primary (some more)).Extends (primary (some reader)) := by
  intro tokens hroom
  show primaryRun (some more) tokens = primaryRun (some reader) tokens
  unfold primaryRun
  split
  · rfl
  · rename_i token rest
    split
    · rfl
    · rfl
    · rename_i hopening
      have hinside : (reader.run rest).1 ≠ .error .tooDeep := by
        intro hdeep
        refine hroom (primaryRun_tooDeep_iff.mpr ⟨token, rest, rfl, hopening, ?_⟩)
        rintro _ ⟨⟩
        exact hdeep
      exact congrArg (closeBracket token) (h rest hinside)
    · rfl

theorem extends_negations {more reader : Reader} (h : more.Extends reader) :
    (negations more).Extends (negations reader) := by
  intro tokens hroom
  have hinside := mt negations_tooDeep_iff.mpr hroom
  dsimp only [negations]
  rw [h _ hinside]

theorem grow_of_extends {more reader : Reader} (h : more.Extends reader) {band : Band} {f : Formula}
    {tokens : List Token} (hroom : (grow band reader f tokens).1 ≠ .error .tooDeep) :
    grow band more f tokens = grow band reader f tokens := by
  fun_induction grow band reader f tokens with
  | case1 f => rw [grow]
  | case2 f token rest hnone => rw [grow, hnone]
  | case3 f token rest kind hkind reading cause hcause =>
    simp only [reading] at hcause
    have hinside : (reader.run rest).1 ≠ .error .tooDeep := by rwa [hcause]
    rw [grow, hkind]
    simp only [h rest hinside, hcause, reading]
  | case4 f token rest kind hkind reading g hg both hboth ih =>
    simp only [reading] at hg
    have hinside : (reader.run rest).1 ≠ .error .tooDeep := by simp [hg]
    rw [grow, hkind]
    simp only [h rest hinside, hg, hboth]
    exact ih hroom
  | case5 f token rest kind hkind reading g hg hnone =>
    simp only [reading] at hg
    have hinside : (reader.run rest).1 ≠ .error .tooDeep := by simp [hg]
    rw [grow, hkind]
    simp only [h rest hinside, hg, hnone, reading]

theorem extends_chain {level next : Level} {band : Band} (hchain : level.chain? = some (band, next))
    {more reader : Reader} (h : more.Extends reader) :
    (chain band more).Extends (chain band reader) := by
  intro tokens hroom
  rw [chain_run hchain] at hroom ⊢
  rw [chain_run hchain]
  rcases hrun : reader.run tokens with ⟨cause | first, rest⟩
  · rw [hrun] at hroom
    have hinside : (reader.run tokens).1 ≠ .error .tooDeep := by rwa [hrun]
    rw [h tokens hinside, hrun]
  · rw [hrun] at hroom
    have hinside : (reader.run tokens).1 ≠ .error .tooDeep := by simp [hrun]
    rw [h tokens hinside, hrun]
    exact grow_of_extends h hroom

/-- **With more brackets, the same is read**, unless fewer are too few. -/
theorem extends_of_le (level : Level) {depth more : Nat} (hle : depth ≤ more) :
    (atLevel more level).Extends (atLevel depth level) := by
  suffices h : ∀ depth level, ∀ more, depth ≤ more →
      (atLevel more level).Extends (atLevel depth level) from h depth level more hle
  refine Level.induction ?_ ?_ ?_ ?_
  · intro more _
    cases more with
    | zero => exact extends_primary_none none
    | succ more => exact extends_primary_none _
  · intro depth ih more hle
    obtain ⟨more, rfl⟩ := Nat.exists_eq_add_of_lt hle
    rw [atLevel_primary_succ, atLevel_primary_succ]
    exact extends_primary_some (ih _ (Nat.le_add_right depth more))
  · intro depth ih more hle
    exact extends_negations (ih more hle)
  · intro depth level band next hchain ih more hle
    rw [atLevel_of_chain? hchain, atLevel_of_chain? hchain]
    exact extends_chain hchain (ih more hle)

end Reader

/-! ### Too few brackets -/

/-- Reading the tokens at the level meets a bracket too many, if `depth` of them may be open. -/
def Level.Exhausts (level : Level) (depth : Nat) (tokens : List Token) : Prop :=
  ((Reader.atLevel depth level).run tokens).1 = .error .tooDeep

namespace Level

variable {level : Level} {depth more : Nat} {tokens : List Token}

theorem Exhausts.of_le (h : level.Exhausts more tokens) (hle : depth ≤ more) :
    level.Exhausts depth tokens := by
  by_contra hroom
  have hsame := Reader.extends_of_le level hle tokens hroom
  exact hroom ((congrArg Prod.fst hsame).symm.trans h)

theorem run_eq_of_not_exhausts (h : ¬ level.Exhausts depth tokens)
    (hmore : ¬ level.Exhausts more tokens) :
    (Reader.atLevel depth level).run tokens = (Reader.atLevel more level).run tokens := by
  rcases Nat.le_total depth more with hle | hle
  · exact (Reader.extends_of_le level hle tokens h).symm
  · exact Reader.extends_of_le level hle tokens hmore

theorem exhausts_negation_iff :
    negation.Exhausts depth tokens ↔
      primary.Exhausts depth (tokens.dropWhile Token.isMarkBefore) :=
  Reader.negations_tooDeep_iff

theorem exhausts_primary_zero_iff :
    primary.Exhausts 0 tokens ↔
      ∃ token rest, tokens = token :: rest ∧ token.meaning = .symbol .opening := by
  refine Reader.primaryRun_tooDeep_iff.trans ?_
  simp

theorem exhausts_primary_succ_iff :
    primary.Exhausts (depth + 1) tokens ↔
      ∃ token rest, tokens = token :: rest ∧ token.meaning = .symbol .opening ∧
        biconditional.Exhausts depth rest := by
  unfold Exhausts
  rw [Reader.atLevel_primary_succ]
  refine Reader.primaryRun_tooDeep_iff.trans ?_
  simp

/-- As many brackets as there are tokens are enough. -/
theorem not_exhausts_of_length_le (hle : tokens.length ≤ depth) : ¬ level.Exhausts depth tokens := by
  intro hdeep
  unfold Exhausts at hdeep
  rcases hrun : (Reader.atLevel depth level).run tokens with ⟨cause | f, rest⟩
  · rw [hrun] at hdeep
    obtain rfl : cause = .tooDeep := Except.error.inj hdeep
    rcases Reader.cause_cases hle hrun with hmissing | ⟨htrailing, -⟩ | ⟨_, -, -, hopen, -⟩
    · cases hmissing
    · cases htrailing
    · cases hopen
  · rw [hrun] at hdeep
    cases hdeep

theorem run_eq_of_length_le (hle : tokens.length ≤ depth) :
    (Reader.atLevel depth level).run tokens = (Reader.atLevel tokens.length level).run tokens :=
  run_eq_of_not_exhausts (not_exhausts_of_length_le hle) (not_exhausts_of_length_le (Nat.le_refl _))

end Level

theorem Reader.run_of_run_eq_ok {depth : Nat} {level : Level} {tokens rest : List Token} {f : Formula}
    (h : (atLevel depth level).run tokens = (.ok f, rest)) :
    (atLevel tokens.length level).run tokens = (.ok f, rest) := by
  obtain ⟨⟨used, rfl, hderives⟩, hfollow⟩ := derives_of_run _ _ _ _ _ h
  refine run_of_derives _ level used f hderives ?_ rest hfollow
  rw [List.length_append]
  exact Nat.le_add_right _ _

/-! ### Whole lists -/

theorem Cause.fault_eq {cause : Cause} (h : cause ≠ .tooDeep) (depth more : Nat) (token : Token) :
    cause.fault depth token = cause.fault more token := by
  cases cause with
  | tooDeep => exact absurd rfl h
  | missingOperand | trailing | unclosed | notBinary => rfl

namespace Formula

variable {depth more : Nat} {tokens : List Token}

/-- With too few brackets, a list is found at fault for the first one too many. -/
theorem ofTokensWithin_tooDeep_iff :
    (∃ limit offset, ofTokensWithin depth tokens = .error (.tooDeep limit offset)) ↔
      Level.biconditional.Exhausts depth (Cursor.ofTokens tokens).ahead := by
  unfold ofTokensWithin Cursor.readWithin Level.Exhausts
  dsimp only
  rcases (Reader.atLevel depth .biconditional).run (Cursor.ofTokens tokens).ahead with
    ⟨cause | f, rest⟩
  · cases cause <;> simp [Except.mapError, Cause.fault]
  · simp only [Except.mapError]
    split <;> simp [Cursor.trailing]

theorem ofTokensWithin_eq
    (h : ¬ Level.biconditional.Exhausts depth (Cursor.ofTokens tokens).ahead)
    (hmore : ¬ Level.biconditional.Exhausts more (Cursor.ofTokens tokens).ahead) :
    ofTokensWithin depth tokens = ofTokensWithin more tokens := by
  unfold ofTokensWithin Cursor.readWithin
  dsimp only
  rw [Level.run_eq_of_not_exhausts h hmore]
  rcases hread : (Reader.atLevel more .biconditional).run (Cursor.ofTokens tokens).ahead with
    ⟨cause | f, rest⟩
  · have hcause : cause ≠ .tooDeep := by
      rintro rfl
      exact hmore (congrArg Prod.fst hread)
    simp only [Except.mapError, Cause.fault_eq hcause depth more]
  · rfl

theorem not_exhausts_length (tokens : List Token) :
    ¬ Level.biconditional.Exhausts tokens.length (Cursor.ofTokens tokens).ahead :=
  Level.not_exhausts_of_length_le (List.takeWhile_prefix _).length_le

theorem ofTokensWithin_of_not_exhausts
    (h : ¬ Level.biconditional.Exhausts depth (Cursor.ofTokens tokens).ahead) :
    ofTokensWithin depth tokens = ofTokens tokens :=
  ofTokensWithin_eq h (not_exhausts_length tokens)

theorem ofTokensWithin_of_length_le (hle : tokens.length ≤ depth) :
    ofTokensWithin depth tokens = ofTokens tokens :=
  ofTokensWithin_of_not_exhausts fun hdeep => not_exhausts_length tokens (hdeep.of_le hle)

end Formula

end Wff
