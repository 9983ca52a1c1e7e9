import Wff.Proofs.Balance
import Wff.Proofs.Spelling

/-!
# Wff.Proofs.Splitting — formulas split at their loosest operator

Readers go from the loosest band to the tightest and join the operands of a band from the left.  The same
is said here without levels: a formula is what its last operator of the loosest band outside brackets
makes of the two sides (`Formula.ofTokens_splits`).

`outerKinds` are the operators outside brackets.  In a derivation at some level all of them are of its
bands (`Derives.band_mem_of_outerKinds`); so a derivation without operators of a level's own band is one at
the next tighter level (`Derives.tighten`), and one with such an operator splits at the last of them.
-/

namespace Wff

/-! ### Operators outside brackets -/

/-- How loosely the operators of a band bind. -/
def Band.looseness : Band → Nat
  | .negation => 0
  | .conjunction => 1
  | .disjunction => 2
  | .implication => 3
  | .biconditional => 4

def Meaning.outerKind (height : Int) : Meaning → List Kind
  | .symbol (.operator kind) => if height = 0 then [kind] else []
  | _ => []

/-- The kinds of the operators outside all brackets, with `height` brackets open before. -/
def outerKindsFrom (height : Int) : List Meaning → List Kind
  | [] => []
  | m :: rest => m.outerKind height ++ outerKindsFrom (height + m.rise) rest

def outerKinds (tokens : List Token) : List Kind := outerKindsFrom 0 (tokens.map Token.meaning)

theorem outerKindsFrom_append (height : Int) (a b : List Meaning) :
    outerKindsFrom height (a ++ b) =
      outerKindsFrom height a ++ outerKindsFrom (height + balance a) b := by
  induction a generalizing height with
  | nil => simp [outerKindsFrom]
  | cons m a ih =>
    rw [List.cons_append, outerKindsFrom, ih, outerKindsFrom, balance_cons, List.append_assoc,
      Int.add_assoc]

@[simp] theorem rise_operator (kind : Kind) : Meaning.rise (.symbol (.operator kind)) = 0 := by
  simp [Meaning.rise]

/-- An operator adds itself where no bracket is open, and leaves the brackets as they are. -/
theorem outerKindsFrom_operator (height : Int) (kind : Kind) (rest : List Meaning) :
    outerKindsFrom height (.symbol (.operator kind) :: rest) =
      (if height = 0 then [kind] else []) ++ outerKindsFrom height rest := by
  rw [outerKindsFrom, rise_operator, Int.add_zero, Meaning.outerKind]

theorem outerKindsFrom_replicate {m : Meaning} (hm : ∀ height, m.outerKind height = [])
    (height : Int) (n : Nat) : outerKindsFrom height (List.replicate n m) = [] := by
  induction n generalizing height with
  | zero => rfl
  | succ n ih => rw [List.replicate_succ, outerKindsFrom, ih, hm, List.append_nil]

theorem balance_replicate {m : Meaning} (hm : m.rise = 0) (n : Nat) :
    balance (List.replicate n m) = 0 := by
  induction n with
  | zero => rfl
  | succ n ih => rw [List.replicate_succ, balance_cons, hm, ih, Int.add_zero]

theorem mem_outerKinds_of_split {before after : List Meaning} {kind : Kind}
    (h : balance before = 0) :
    kind ∈ outerKindsFrom 0 (before ++ .symbol (.operator kind) :: after) := by
  rw [outerKindsFrom_append, h, outerKindsFrom_operator]
  simp

section Splits

variable {a b a' b' between : List Meaning} {kind kind' : Kind} {band : Band}

/-- Of two operators of a band outside brackets, the first is not the last one. -/
theorem eq_nil_of_last_split (ha : balance a = 0) (hbetween : balance (a ++ between) = 0)
    (hkind' : kind'.band? = some band)
    (hb : ∀ other ∈ outerKindsFrom 0 b, other.band? ≠ some band)
    (h : .symbol (.operator kind) :: b = between ++ .symbol (.operator kind') :: b') :
    between = [] := by
  cases between with
  | nil => rfl
  | cons first mid =>
    obtain ⟨rfl, rfl⟩ := List.cons_eq_cons.mp h
    have hmid : balance mid = 0 := by
      rw [balance_append, balance_cons, rise_operator] at hbetween
      omega
    exact absurd hkind' (hb kind' (mem_outerKinds_of_split hmid))

/-- The last operator of a band outside brackets splits a list in one way only. -/
theorem last_split_unique (ha : balance a = 0) (ha' : balance a' = 0)
    (hkind : kind.band? = some band) (hkind' : kind'.band? = some band)
    (hb : ∀ other ∈ outerKindsFrom 0 b, other.band? ≠ some band)
    (hb' : ∀ other ∈ outerKindsFrom 0 b', other.band? ≠ some band)
    (h : a ++ .symbol (.operator kind) :: b = a' ++ .symbol (.operator kind') :: b') :
    a = a' ∧ kind = kind' ∧ b = b' := by
  have hempty : a = a' := by
    rcases List.append_eq_append_iff.mp h with ⟨between, rfl, hrest⟩ | ⟨between, rfl, hrest⟩
    · rw [eq_nil_of_last_split ha ha' hkind' hb hrest, List.append_nil]
    · rw [eq_nil_of_last_split ha' ha hkind hb' hrest, List.append_nil]
  subst hempty
  obtain ⟨hsign, hafter⟩ := List.cons_eq_cons.mp (List.append_cancel_left h)
  cases hsign
  exact ⟨rfl, rfl, hafter⟩

end Splits

/-! ### Levels and bands -/

theorem Level.mem_bands_iff {level next : Level} {band : Band}
    (hchain : level.chain? = some (band, next)) (other : Band) :
    (other ∈ level.bands ↔ other ≠ .negation ∧ other.looseness ≤ band.looseness) ∧
      (other ∈ next.bands ↔ other ≠ .negation ∧ other.looseness < band.looseness) := by
  cases level <;> cases hchain <;> cases other <;> decide

theorem Band.exists_chain? {band : Band} (h : band ≠ .negation) :
    ∃ level next, Level.chain? level = some (band, next) := by
  cases band with
  | negation => exact absurd rfl h
  | conjunction => exact ⟨.conjunction, _, rfl⟩
  | disjunction => exact ⟨.disjunction, _, rfl⟩
  | implication => exact ⟨.implication, _, rfl⟩
  | biconditional => exact ⟨.biconditional, _, rfl⟩

namespace Derives

variable {level next : Level} {band : Band} {meanings : List Meaning} {f : Formula}

theorem balance_eq_zero (h : Derives level meanings f) : balance meanings = 0 := by
  induction h with
  | var name => simp [Meaning.rise]
  | const value => simp [Meaning.rise]
  | brackets content ih => simp [ih, Meaning.rise]
  | marks before after marked ih =>
    rw [balance_append, balance_append, ih, balance_replicate (by simp [Meaning.rise]),
      balance_replicate (by simp [Meaning.rise])]
    rfl
  | operand chain single ih => exact ih
  | link chain ofBand shorter last join ihLeft ihRight => simp [ihLeft, ihRight]

theorem outerKindsFrom_eq_nil (h : Derives level meanings f) {height : Int} (hheight : 0 < height) :
    outerKindsFrom height meanings = [] := by
  induction h generalizing height with
  | var name => rfl
  | const value => rfl
  | brackets content ih =>
    have hrise : Meaning.rise (.symbol .opening) = 1 := rfl
    rw [outerKindsFrom, outerKindsFrom_append, hrise, ih (by omega)]
    rfl
  | marks before after marked ih =>
    rw [outerKindsFrom_append, outerKindsFrom_append, balance_replicate (by simp [Meaning.rise]),
      outerKindsFrom_replicate fun _ => rfl, outerKindsFrom_replicate fun _ => rfl, ih (by omega)]
    rfl
  | operand chain single ih => exact ih hheight
  | link chain ofBand shorter last join ihLeft ihRight =>
    rw [outerKindsFrom_append, outerKindsFrom_operator, shorter.balance_eq_zero, Int.add_zero,
      if_neg (by omega), ihLeft hheight, ihRight hheight]
    rfl

/-- Outside brackets, the operators of a derivation are of the bands of its level. -/
theorem band_mem_of_outerKinds (h : Derives level meanings f) :
    ∀ kind ∈ outerKindsFrom 0 meanings, ∃ band ∈ level.bands, kind.band? = some band := by
  induction h with
  | var name => simp [outerKindsFrom, Meaning.outerKind]
  | const value => simp [outerKindsFrom, Meaning.outerKind]
  | brackets content ih =>
    -- inside the brackets the depth is above zero, so nothing there is outside
    have hrise : Meaning.rise (.symbol .opening) = 1 := rfl
    rw [outerKindsFrom, outerKindsFrom_append, hrise,
      content.outerKindsFrom_eq_nil (show (0 : Int) < 0 + 1 by decide)]
    simp [outerKindsFrom, Meaning.outerKind]
  | marks before after marked ih =>
    rw [outerKindsFrom_append, outerKindsFrom_append, balance_replicate (by simp [Meaning.rise]),
      outerKindsFrom_replicate fun _ => rfl, outerKindsFrom_replicate fun _ => rfl, List.nil_append,
      List.append_nil, Int.zero_add]
    exact ih
  | operand chain single ih =>
    intro kind hkind
    obtain ⟨band, hband, heq⟩ := ih kind hkind
    have hbands := Level.mem_bands_iff chain band
    have htighter := hbands.2.mp hband
    exact ⟨band, hbands.1.mpr ⟨htighter.1, Nat.le_of_lt htighter.2⟩, heq⟩
  | link chain ofBand shorter last join ihLeft ihRight =>
    intro kind hkind
    rw [outerKindsFrom_append, outerKindsFrom_operator, shorter.balance_eq_zero, Int.add_zero,
      if_pos rfl, List.mem_append, List.mem_append, List.mem_singleton] at hkind
    rcases hkind with hkind | rfl | hkind
    · exact ihLeft kind hkind
    · refine ⟨_, (Level.mem_bands_iff chain _).1.mpr ⟨Level.band_ne_negation chain, ?_⟩, ofBand⟩
      exact Nat.le_refl _
    · obtain ⟨band, hband, heq⟩ := ihRight kind hkind
      have hbands := Level.mem_bands_iff chain band
      have htighter := hbands.2.mp hband
      exact ⟨band, hbands.1.mpr ⟨htighter.1, Nat.le_of_lt htighter.2⟩, heq⟩

theorem band_ne_of_outerKinds (h : Derives next meanings f)
    (hchain : level.chain? = some (band, next)) :
    ∀ kind ∈ outerKindsFrom 0 meanings, kind.band? ≠ some band := by
  intro kind hkind hband
  obtain ⟨other, hother, heq⟩ := h.band_mem_of_outerKinds kind hkind
  rw [heq, Option.some.injEq] at hband
  have htighter := ((Level.mem_bands_iff hchain other).2.mp hother).2
  rw [hband] at htighter
  exact Nat.lt_irrefl _ htighter

theorem outerKindsFrom_of_bands (h : Derives level meanings f) (hbands : level.bands = []) :
    outerKindsFrom 0 meanings = [] := by
  refine List.eq_nil_iff_forall_not_mem.mpr fun kind hkind => ?_
  obtain ⟨band, hband, -⟩ := h.band_mem_of_outerKinds kind hkind
  rw [hbands] at hband
  cases hband

theorem band_ne_negation (h : Derives level meanings f) :
    ∀ kind ∈ outerKindsFrom 0 meanings, ∀ band, kind.band? = some band → band ≠ .negation := by
  rintro kind hkind _ hband rfl
  obtain ⟨found, hfound, heq⟩ := h.band_mem_of_outerKinds kind hkind
  obtain rfl : found = .negation := Option.some.inj (heq.symm.trans hband)
  cases level <;> exact absurd hfound (by decide)

/-- A derivation without operators of its level's band is one at the next tighter level. -/
theorem tighten (h : Derives level meanings f) (hchain : level.chain? = some (band, next))
    (hnone : ∀ kind ∈ outerKindsFrom 0 meanings, kind.band? ≠ some band) :
    Derives next meanings f := by
  cases h with
  | var | const | brackets | marks => cases hchain
  | operand chain single =>
    rw [hchain] at chain
    cases chain
    exact single
  | link chain ofBand shorter last join =>
    rw [hchain] at chain
    cases chain
    exact absurd ofBand (hnone _ (mem_outerKinds_of_split shorter.balance_eq_zero))

/-- A derivation whose operators are all of the bands of a level is one at that level. -/
theorem narrow (h : Derives .biconditional meanings f) (hlevel : level ≠ .primary)
    (hbands : ∀ kind ∈ outerKindsFrom 0 meanings, ∀ band, kind.band? = some band →
      band ∈ level.bands) : Derives level meanings f := by
  -- a looser level's own band is not among them
  have step : ∀ {looser tighter band}, Level.chain? looser = some (band, tighter) →
      band ∉ level.bands → Derives looser meanings f → Derives tighter meanings f :=
    fun hchain hband h => h.tighten hchain fun kind hkind heq => hband (hbands kind hkind _ heq)
  cases level with
  | primary => exact absurd rfl hlevel
  | biconditional => exact h
  | implication => exact step rfl (by decide) h
  | disjunction => exact step rfl (by decide) (step rfl (by decide) h)
  | conjunction => exact step rfl (by decide) (step rfl (by decide) (step rfl (by decide) h))
  | negation =>
    have hdisjunction := step rfl (by decide) (step rfl (by decide) h)
    exact step rfl (by decide) (step rfl (by decide) hdisjunction)

end Derives

/-! ### The last operator of the loosest band -/

/-- The tokens are split at an operator outside brackets.  No operator outside brackets is looser, and
none of the same band comes after it. -/
structure SplitsLoosest (tokens before : List Token) (sign : Token) (after : List Token) (kind : Kind)
    (band : Band) : Prop where
  split : tokens = before ++ sign :: after
  operator : sign.meaning = .symbol (.operator kind)
  ofBand : kind.band? = some band
  outside : depth before = 0
  /-- no operator outside brackets binds more loosely -/
  loosest : ∀ other ∈ outerKinds tokens, ∀ looser, other.band? = some looser →
    looser.looseness ≤ band.looseness
  /-- none of the band comes after it -/
  last : ∀ other ∈ outerKinds after, other.band? ≠ some band

variable {tokens : List Token} {f : Formula}

theorem SplitsLoosest.mem_outerKinds {before after : List Token} {sign : Token} {kind : Kind}
    {band : Band} (h : SplitsLoosest tokens before sign after kind band) :
    kind ∈ outerKinds tokens := by
  rw [outerKinds, h.split, List.map_append, List.map_cons, h.operator]
  exact mem_outerKinds_of_split h.outside

/-- Where there is an operator outside brackets, a derivation has a last one of the loosest band. -/
theorem Derives.exists_splitsLoosest {level : Level} {meanings : List Meaning}
    (h : Derives level meanings f) (hsome : outerKindsFrom 0 meanings ≠ []) (tokens : List Token)
    (htokens : tokens.map Token.meaning = meanings) :
    ∃ before sign after kind band, SplitsLoosest tokens before sign after kind band := by
  induction h with
  | var name => exact absurd ((Derives.var name).outerKindsFrom_of_bands rfl) hsome
  | const value => exact absurd ((Derives.const value).outerKindsFrom_of_bands rfl) hsome
  | brackets content =>
    exact absurd ((Derives.brackets content).outerKindsFrom_of_bands rfl) hsome
  | marks before after marked =>
    exact absurd ((Derives.marks before after marked).outerKindsFrom_of_bands rfl) hsome
  | operand chain single ih => exact ih hsome htokens
  | @link level next band kind left right f g joined chain ofBand shorter last join =>
    -- the last link joins at the loosest band, and behind it all is tighter
    have hwhole := Derives.link chain ofBand shorter last join
    rw [← htokens] at hwhole
    obtain ⟨before, tail, rfl, hbefore, htail⟩ := List.map_eq_append_iff.mp htokens
    obtain ⟨sign, after, rfl, hsign, hafter⟩ := List.map_eq_cons_iff.mp htail
    refine ⟨before, sign, after, kind, band, rfl, hsign, ofBand, ?_, ?_, ?_⟩
    · rw [depth, hbefore]
      exact shorter.balance_eq_zero
    · intro other hother looser hlooser
      obtain ⟨found, hfound, heq⟩ := hwhole.band_mem_of_outerKinds other hother
      rw [heq, Option.some.injEq] at hlooser
      exact hlooser ▸ ((Level.mem_bands_iff chain found).1.mp hfound).2
    · rw [outerKinds, hafter]
      exact last.band_ne_of_outerKinds chain

/-- At the last operator of the loosest band, a derivation is that of a chain with one more operand. -/
theorem SplitsLoosest.exists_derives {before after : List Token} {sign : Token} {kind : Kind}
    {band : Band} (h : SplitsLoosest tokens before sign after kind band)
    (hderives : Derives .biconditional (tokens.map Token.meaning) f) :
    ∃ l r, Derives .biconditional (before.map Token.meaning) l ∧
      Derives .biconditional (after.map Token.meaning) r ∧ kind.join? l r = some f := by
  have hbinary := hderives.band_ne_negation
  obtain ⟨level, next, hchain⟩ :=
    Band.exists_chain? (hbinary kind h.mem_outerKinds band h.ofBand)
  have hlevel : level ≠ .primary := by
    rintro rfl
    cases hchain
  -- they are all of the bands of one level, and one is of its own band
  have hnarrow : Derives level (tokens.map Token.meaning) f := by
    refine hderives.narrow hlevel fun other hother looser hlooser => ?_
    exact (Level.mem_bands_iff hchain looser).1.mpr
      ⟨hbinary other hother looser hlooser, h.loosest other hother looser hlooser⟩
  have hsplit : tokens.map Token.meaning =
      before.map Token.meaning ++ .symbol (.operator kind) :: after.map Token.meaning := by
    rw [h.split, List.map_append, List.map_cons, h.operator]
  generalize hmeanings : tokens.map Token.meaning = meanings at hnarrow hsplit
  cases hnarrow with
  | var | const | brackets | marks => cases hchain
  | operand chain single =>
    rw [hchain] at chain
    cases chain
    rw [← hmeanings] at single
    exact absurd h.ofBand (single.band_ne_of_outerKinds hchain kind h.mem_outerKinds)
  | link chain ofBand shorter last join =>
    rw [hchain] at chain
    cases chain
    obtain ⟨rfl, rfl, rfl⟩ := last_split_unique shorter.balance_eq_zero h.outside ofBand h.ofBand
      (last.band_ne_of_outerKinds hchain) h.last hsplit
    exact ⟨_, _, .biconditional_of_chain hchain shorter,
      .biconditional_of_chain hchain (.operand hchain last), join⟩

/-- Two sides joined at an operator that is looser than all of the right side, and not tighter than any
of the left one. -/
theorem Derives.joinedLoosest {left right : List Meaning} {l r joined : Formula} {kind : Kind}
    {band : Band} (hl : Derives .biconditional left l) (hr : Derives .biconditional right r)
    (hband : kind.band? = some band) (hjoin : kind.join? l r = some joined)
    (hleft : ∀ other ∈ outerKindsFrom 0 left, ∀ found, other.band? = some found →
      found.looseness ≤ band.looseness)
    (hright : ∀ other ∈ outerKindsFrom 0 right, ∀ found, other.band? = some found →
      found.looseness < band.looseness) :
    Derives .biconditional (left ++ .symbol (.operator kind) :: right) joined := by
  have hne : band ≠ .negation := by
    rintro rfl
    cases kind <;> cases hband
    cases hjoin
  obtain ⟨level, next, hchain⟩ := Band.exists_chain? hne
  have hlevel : level ≠ .primary := by
    rintro rfl
    cases hchain
  have hatLevel : Derives level left l := by
    refine hl.narrow hlevel fun other hother found hfound => ?_
    exact (Level.mem_bands_iff hchain found).1.mpr
      ⟨hl.band_ne_negation other hother found hfound, hleft other hother found hfound⟩
  have hatNext : Derives next right r := by
    refine hr.narrow (Level.next_ne_primary hchain) fun other hother found hfound => ?_
    exact (Level.mem_bands_iff hchain found).2.mpr
      ⟨hr.band_ne_negation other hother found hfound, hright other hother found hfound⟩
  exact .biconditional_of_chain hchain (.link hchain hband hatLevel hatNext hjoin)

/-! ### What is read -/

/-- **Formulas are split at their loosest operator.**  Of two formulas and an operator between them that
is looser than all of the second, and not tighter than any of the first, the operator makes one.
Conversely, whatever has an operator outside brackets has a last one of the loosest band, and is what
that operator makes of the formulas on its two sides. -/
theorem Formula.ofTokens_splits :
    (∀ (ls rs : List Token) (sign : Token) (kind : Kind) (band : Band) (l r : Formula),
      (∀ token ∈ ls, token.isStop = false) → (∀ token ∈ rs, token.isStop = false) →
      sign.meaning = .symbol (.operator kind) → kind.isBinary = true → kind.band? = some band →
      Formula.ofTokens ls = .ok l → Formula.ofTokens rs = .ok r →
      (∀ other ∈ outerKinds ls, ∀ found, other.band? = some found →
        found.looseness ≤ band.looseness) →
      (∀ other ∈ outerKinds rs, ∀ found, other.band? = some found →
        found.looseness < band.looseness) →
      ∃ joined, kind.join? l r = some joined ∧ Formula.ofTokens (ls ++ sign :: rs) = .ok joined) ∧
    ∀ (tokens : List Token) (f : Formula), Formula.ofTokens tokens = .ok f →
      let read := tokens.takeWhile (!·.isStop)
      (outerKinds read ≠ [] →
        ∃ before sign after kind band, SplitsLoosest read before sign after kind band) ∧
      ∀ before sign after kind band, SplitsLoosest read before sign after kind band →
        ∃ l r, Formula.ofTokens before = .ok l ∧ Formula.ofTokens after = .ok r ∧
          kind.join? l r = some f := by
  constructor
  · intro ls rs sign kind band l r hls hrs hsign hbinary hband hl hr hleft hright
    obtain ⟨joined, hjoined⟩ := Option.isSome_iff_exists.mp ((kind.join?_isSome l r).trans hbinary)
    refine ⟨joined, hjoined, ofTokens_of_derives ?_⟩
    have hleftDerives := derives_of_ofTokens hl
    have hrightDerives := derives_of_ofTokens hr
    rw [meaningsBeforeStop_of_isStop hls] at hleftDerives
    rw [meaningsBeforeStop_of_isStop hrs] at hrightDerives
    have hall : ∀ token ∈ ls ++ sign :: rs, token.isStop = false := by
      intro token htoken
      rcases List.mem_append.mp htoken with htoken | htoken
      · exact hls token htoken
      · rcases List.mem_cons.mp htoken with rfl | htoken
        · simp [Token.isStop, hsign]
        · exact hrs token htoken
    rw [meaningsBeforeStop_of_isStop hall, List.map_append, List.map_cons, hsign]
    exact hleftDerives.joinedLoosest hrightDerives hband hjoined hleft hright
  · intro tokens f h read
    have hderives : Derives .biconditional (read.map Token.meaning) f := derives_of_ofTokens h
    refine ⟨fun hsome => hderives.exists_splitsLoosest hsome read rfl, fun before sign after kind band hsplits => ?_⟩
    have hread : ∀ token ∈ read, token.isStop = false := by
      intro token htoken
      simpa using List.mem_takeWhile_imp htoken
    rw [hsplits.split] at hread
    obtain ⟨l, r, hl, hr, hjoin⟩ := hsplits.exists_derives hderives
    refine ⟨l, r, ofTokens_of_derives ?_, ofTokens_of_derives ?_, hjoin⟩
    · rwa [meaningsBeforeStop_of_isStop fun token htoken => hread token (by simp [htoken])]
    · rwa [meaningsBeforeStop_of_isStop fun token htoken => hread token (by simp [htoken])]

/-- `p → (q ∧ r)` and `s ∨ t` with `←` between them: the chain of implications is joined from the left,
and what is read splits at its last operator again. -/
theorem Formula.ofTokens_splits_after_implication :
    let word (c : Char) : Token := ⟨.var [c], [c], 0⟩
    let sign (kind : Kind) : Token := ⟨.symbol (.operator kind), kind.glyph, 0⟩
    let ls : List Token :=
      [word 'p', sign .implies, ⟨.symbol .opening, ['('], 0⟩, word 'q', sign .and, word 'r',
        ⟨.symbol .closing, [')'], 0⟩]
    let rs : List Token := [word 's', sign .or, word 't']
    let l : Formula := .binary .implies (.var ['p']) (.binary .and (.var ['q']) (.var ['r']))
    let r : Formula := .binary .or (.var ['s']) (.var ['t'])
    SplitsLoosest (ls ++ sign .converse :: rs) ls (sign .converse) rs .converse .implication ∧
      Formula.ofTokens (ls ++ sign .converse :: rs) = .ok (.binary .implies r l) ∧
      Formula.ofTokens ls = .ok l ∧ Formula.ofTokens rs = .ok r := by
  intro word sign ls rs l r
  have hsplits : SplitsLoosest (ls ++ sign .converse :: rs) ls (sign .converse) rs .converse
      .implication := ⟨rfl, rfl, rfl, by decide, by decide, by decide⟩
  obtain ⟨joined, hjoined, hread⟩ := Formula.ofTokens_splits.1 ls rs (sign .converse) .converse
    .implication l r (by decide) (by decide) rfl rfl rfl (ofTokens_of_derives l.derives_spelling)
    (ofTokens_of_derives r.derives_spelling) (by decide) (by decide)
  cases hjoined
  obtain ⟨l', r', hl, hr, hsides⟩ := (Formula.ofTokens_splits.2 _ _ hread).2 _ _ _ _ _ hsplits
  cases hsides
  exact ⟨hsplits, hread, hl, hr⟩

end Wff
