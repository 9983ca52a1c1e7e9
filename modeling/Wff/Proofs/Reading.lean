import Wff.Reader.Cursor

/-!
# Wff.Proofs.Reading — readers level by level

Every level above the negations is a chain of operands of the next tighter level (`Level.chain?`),
and brackets lead from the tightest level back to the loosest.  So a property of all readers needs
four cases only (`Reader.atLevel_induction`): operands without and with brackets, negations, chains.
A chain first collects its links and then joins them; `Reader.grow` joins each operand as soon as it
is read, which is the same (`Reader.chain_run`) because an operator of a band that makes chains is
binary.
-/

namespace Wff

/-! ### Bands that make chains -/

/-- The band of the operators of a level's chains, and the level of their operands. -/
def Level.chain? : Level → Option (Band × Level)
  | .biconditional => some (.biconditional, .implication)
  | .implication => some (.implication, .disjunction)
  | .disjunction => some (.disjunction, .conjunction)
  | .conjunction => some (.conjunction, .negation)
  | .negation | .primary => none

theorem Level.band_ne_negation {level next : Level} {band : Band}
    (h : level.chain? = some (band, next)) : band ≠ .negation := by
  rintro rfl
  cases level <;> simp [Level.chain?] at h

theorem Level.next_ne_primary {level next : Level} {band : Band}
    (h : level.chain? = some (band, next)) : next ≠ .primary := by
  rintro rfl
  cases level <;> cases h

def Meaning.isOperatorOf (band : Band) : Meaning → Bool
  | .symbol (.operator kind) => kind.band? == some band
  | _ => false

theorem Token.operatorOf?_eq_some_iff {token : Token} {band : Band} {kind : Kind} :
    token.operatorOf? band = some kind ↔
      token.meaning = .symbol (.operator kind) ∧ kind.band? = some band := by
  unfold Token.operatorOf?
  split
  · rename_i k hk
    rw [hk]
    by_cases hb : k.band? = some band
    · rw [if_pos hb]
      constructor
      · intro h
        obtain rfl := Option.some.inj h
        exact ⟨rfl, hb⟩
      · rintro ⟨h, -⟩
        cases h
        rfl
    · rw [if_neg hb]
      constructor
      · intro h
        cases h
      · rintro ⟨h, hkind⟩
        cases h
        exact absurd hkind hb
  · rename_i h
    constructor
    · intro hnone
      cases hnone
    · rintro ⟨hm, -⟩
      exact absurd hm (h kind)

theorem Token.operatorOf?_eq_none_iff {token : Token} {band : Band} :
    token.operatorOf? band = none ↔ token.meaning.isOperatorOf band = false := by
  unfold Token.operatorOf?
  split
  · rename_i k hk
    rw [hk]
    by_cases hb : k.band? = some band <;> simp [Meaning.isOperatorOf, hb]
  · rename_i h
    unfold Meaning.isOperatorOf
    split
    · rename_i k hk
      exact absurd hk (h k)
    · simp

theorem Kind.isBinary_of_band {kind : Kind} {band : Band} (hband : band ≠ .negation)
    (h : kind.band? = some band) : kind.isBinary = true := by
  unfold Kind.isBinary
  rw [h]
  cases band <;> first | rfl | exact absurd rfl hband

theorem Kind.exists_join? {kind : Kind} {band : Band} (hband : band ≠ .negation)
    (h : kind.band? = some band) (f g : Formula) : ∃ joined, kind.join? f g = some joined :=
  Option.isSome_iff_exists.mp ((Kind.join?_isSome kind f g).trans (Kind.isBinary_of_band hband h))

/-- A longer chain is a shorter one joined with its last operand. -/
theorem Formula.chain_concat (first : Formula) (links : List (Kind × Formula)) (kind : Kind)
    (f : Formula) {joined : Formula} (h : first.chain links = .ok joined) :
    first.chain (links ++ [(kind, f)]) = joined.chain [(kind, f)] := by
  induction links generalizing first with
  | nil =>
    obtain rfl := Except.ok.inj h
    rfl
  | cons link links ih =>
    obtain ⟨k, g⟩ := link
    rw [Formula.chain] at h
    rw [List.cons_append, Formula.chain]
    split at h
    · exact ih _ h
    · cases h

namespace Reader

/-! ### Chains that grow -/

/-- Go on from a formula with operators of the band, each with the operand after it, and join each
operand as soon as it is read. -/
def grow (band : Band) (operand : Reader) (f : Formula) : List Token → Reading Formula
  | [] => (.ok f, [])
  | token :: rest =>
    match token.operatorOf? band with
    | none => (.ok f, token :: rest)
    | some kind =>
      let reading := operand.run rest
      match reading.1 with
      | .error cause => (.error cause, reading.2)
      | .ok g =>
        match kind.join? f g with
        | some joined => grow band operand joined reading.2
        | none => (.error (.notBinary kind), reading.2)
termination_by tokens => tokens.length
decreasing_by exact Nat.lt_succ_of_le (operand.length_rest_le rest)

def joined (first : Formula) : Reading (List (Kind × Formula)) → Reading Formula
  | (.error cause, rest) => (.error cause, rest)
  | (.ok more, rest) =>
    match first.chain more with
    | .ok f => (.ok f, rest)
    | .error kind => (.error (.notBinary kind), rest)

/-- Links joined at the end are links joined one by one, from any links already found on. -/
theorem joined_links {band : Band} (hband : band ≠ .negation) (operand : Reader) (first f : Formula)
    (found : List (Kind × Formula)) (tokens : List Token)
    (h : first.chain found.reverse = .ok f) :
    joined first (links band operand found tokens) = grow band operand f tokens := by
  fun_induction links band operand found tokens generalizing f with
  | case1 found =>
    rw [grow, joined, h]
  | case2 found token rest hnone =>
    rw [grow, joined, h, hnone]
  | case3 found token rest kind hkind reading cause hcause =>
    rw [grow, joined, hkind]
    simp only [reading] at hcause
    simp only [hcause, reading]
  | case4 found token rest kind hkind reading g hg ih =>
    obtain ⟨hmeaning, hkindBand⟩ := Token.operatorOf?_eq_some_iff.mp hkind
    obtain ⟨both, hboth⟩ := Kind.exists_join? hband hkindBand f g
    rw [grow, hkind]
    simp only [reading] at hg
    simp only [hg, hboth]
    apply ih
    rw [List.reverse_cons, Formula.chain_concat first _ kind g h, Formula.chain, hboth]
    rfl

theorem chain_run {level next : Level} {band : Band} (hchain : level.chain? = some (band, next))
    (operand : Reader) (tokens : List Token) :
    (chain band operand).run tokens =
      match operand.run tokens with
      | (.error cause, rest) => (.error cause, rest)
      | (.ok first, rest) => grow band operand first rest := by
  dsimp only [chain]
  rcases operand.run tokens with ⟨cause | first, rest⟩
  · rfl
  · exact joined_links (Level.band_ne_negation hchain) operand first first [] rest rfl

/-! ### Properties of all readers -/

theorem exists_atLevel_primary (depth : Nat) : ∃ inner, atLevel depth .primary = primary inner := by
  cases depth with
  | zero => exact ⟨none, rfl⟩
  | succ depth => exact ⟨some (expression depth), rfl⟩

/-- What holds of readers of operands with as many brackets as may be open, and carries over to
negations and chains, holds of the readers of all levels. -/
theorem atLevel_induction {P : Nat → Level → Reader → Prop}
    (zero : P 0 .primary (primary none))
    (succ : ∀ depth reader, P depth .biconditional reader →
      P (depth + 1) .primary (primary (some reader)))
    (marked : ∀ depth reader, P depth .primary reader → P depth .negation (negations reader))
    (chained : ∀ depth level band next, level.chain? = some (band, next) →
      ∀ reader, P depth next reader → P depth level (chain band reader)) :
    ∀ depth level, P depth level (atLevel depth level) := by
  -- one nesting depth: all levels over a reader of operands
  have levels : ∀ depth reader, P depth .primary reader →
      ∀ level, P depth level (ofLevel reader level) := by
    intro depth reader hprimary
    have hnegation := marked depth reader hprimary
    have hconjunction := chained depth .conjunction _ _ rfl _ hnegation
    have hdisjunction := chained depth .disjunction _ _ rfl _ hconjunction
    have himplication := chained depth .implication _ _ rfl _ hdisjunction
    have hbiconditional := chained depth .biconditional _ _ rfl _ himplication
    intro level
    cases level with
    | primary => exact hprimary
    | negation => exact hnegation
    | conjunction => exact hconjunction
    | disjunction => exact hdisjunction
    | implication => exact himplication
    | biconditional => exact hbiconditional
  intro depth
  induction depth with
  | zero => exact levels 0 _ zero
  | succ depth ih =>
    refine levels (depth + 1) _ (succ depth _ ?_)
    rw [expression_eq]
    exact ih .biconditional

end Reader

/-! ### Whole lists -/

section Ended

variable {tokens : List Token} {stop : Token} (htokens : ∀ token ∈ tokens, token.isStop = false)
  (hstop : stop.isStop = true)
include htokens hstop

theorem takeWhile_isStop : (tokens ++ [stop]).takeWhile (!·.isStop) = tokens := by
  rw [List.takeWhile_append_of_pos (by simpa using htokens),
    List.takeWhile_cons_of_neg (by simp [hstop]), List.append_nil]

theorem Cursor.ahead_concat : (Cursor.ofTokens (tokens ++ [stop])).ahead = tokens :=
  takeWhile_isStop htokens hstop

theorem Cursor.stop_ofTokens : (Cursor.ofTokens (tokens ++ [stop])).stop = stop := by
  have hnone : tokens.find? (·.isStop) = none := by
    rw [List.find?_eq_none]
    intro token htoken
    simp [htokens token htoken]
  simp [ofTokens, List.find?_append, hnone, hstop]

end Ended

theorem Formula.ofTokens_eq (tokens : List Token) :
    Formula.ofTokens tokens =
      match (Reader.atLevel tokens.length .biconditional).run (tokens.takeWhile (!·.isStop)) with
      | (.error cause, rest) =>
        .error (cause.fault tokens.length (rest.headD (Cursor.ofTokens tokens).stop))
      | (.ok f, []) => .ok f
      | (.ok _, token :: _) => .error (.trailing token.literal token.offset) := by
  unfold Formula.ofTokens Formula.ofTokensWithin Cursor.readWithin Cursor.ofTokens
  dsimp only
  rcases (Reader.atLevel tokens.length .biconditional).run (tokens.takeWhile (!·.isStop)) with
    ⟨cause | f, _ | ⟨token, rest⟩⟩ <;> rfl

end Wff
