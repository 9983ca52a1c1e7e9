import Wff.Proofs.Lists
import Wff.Proofs.Reading

/-!
# Wff.Proofs.Derivation — the grammar of formulas, and that readers follow it

`Derives level meanings f`: tokens of these meanings make up `f` at a level.  The grammar says
nothing about how tokens are read; a chain grows at its right end, so it is joined from the left.

* **Soundness** (`derives_of_run`): what a reader takes derives what it gives, and it never stops
  at a token that would go on (`Level.goesOn`).
* **Completeness** (`run_of_derives`): a reader takes all of a derivation that is followed by no
  token that goes on.  So a loop that takes as much as it can never takes too much.
* Both together: reading a list of tokens is deriving it, and a list derives one formula at most.
-/

namespace Wff

/-- Tokens of these meanings make up the formula at the level. -/
inductive Derives : Level → List Meaning → Formula → Prop
  | var (name : Text) : Derives .primary [.var name] (.var name)
  | const (value : Bool) : Derives .primary [.symbol (.constant value)] (.const value)
  | brackets {inside : List Meaning} {f : Formula} (content : Derives .biconditional inside f) :
      Derives .primary (.symbol .opening :: (inside ++ [.symbol .closing])) f
  /-- an operand with negation marks before and after it -/
  | marks (before after : Nat) {operand : List Meaning} {f : Formula}
      (marked : Derives .primary operand f) :
      Derives .negation
        (List.replicate before (.symbol .negationBefore) ++ operand ++
          List.replicate after (.symbol .negationAfter))
        (f.negated (before + after))
  | operand {level next : Level} {band : Band} {only : List Meaning} {f : Formula}
      (chain : level.chain? = some (band, next)) (single : Derives next only f) :
      Derives level only f
  /-- a chain with one more operand, joined to what is on its left -/
  | link {level next : Level} {band : Band} {kind : Kind} {left right : List Meaning}
      {f g joined : Formula} (chain : level.chain? = some (band, next))
      (ofBand : kind.band? = some band) (shorter : Derives level left f)
      (last : Derives next right g) (join : kind.join? f g = some joined) :
      Derives level (left ++ .symbol (.operator kind) :: right) joined

/-! ### Derivations by level -/

namespace Derives

theorem primary_cases {meanings : List Meaning} {f : Formula} (h : Derives .primary meanings f) :
    (∃ name, meanings = [.var name] ∧ f = .var name) ∨
    (∃ value, meanings = [.symbol (.constant value)] ∧ f = .const value) ∨
    ∃ inside, meanings = .symbol .opening :: (inside ++ [.symbol .closing]) ∧
      Derives .biconditional inside f := by
  cases h with
  | var name => exact Or.inl ⟨name, rfl, rfl⟩
  | const value => exact Or.inr (Or.inl ⟨value, rfl, rfl⟩)
  | brackets content => exact Or.inr (Or.inr ⟨_, rfl, content⟩)
  | operand chain => cases chain
  | link chain => cases chain

theorem negation_cases {meanings : List Meaning} {f : Formula} (h : Derives .negation meanings f) :
    ∃ before after operand g, Derives .primary operand g ∧ f = g.negated (before + after) ∧
      meanings = List.replicate before (.symbol .negationBefore) ++ operand ++
        List.replicate after (.symbol .negationAfter) := by
  cases h with
  | marks before after marked => exact ⟨before, after, _, _, marked, rfl, rfl⟩
  | operand chain => cases chain
  | link chain => cases chain

theorem primary_head {meanings : List Meaning} {f : Formula} (h : Derives .primary meanings f) :
    ∃ m more, meanings = m :: more ∧ m ≠ .symbol .negationBefore := by
  obtain ⟨name, rfl, -⟩ | ⟨value, rfl, -⟩ | ⟨inside, rfl, -⟩ := h.primary_cases
  · exact ⟨_, _, rfl, by simp⟩
  · exact ⟨_, _, rfl, by simp⟩
  · exact ⟨_, _, rfl, by simp⟩

theorem ne_nil {level : Level} {meanings : List Meaning} {f : Formula} (h : Derives level meanings f) :
    meanings ≠ [] := by
  induction h with
  | var | const | brackets => exact List.cons_ne_nil _ _
  | marks before after marked ih => simp [ih]
  | operand chain single ih => exact ih
  | link => simp

end Derives

/-! ### What goes on -/

/-- The bands of the operators that a formula of the level can have outside brackets. -/
def Level.bands : Level → List Band
  | .biconditional => [.conjunction, .disjunction, .implication, .biconditional]
  | .implication => [.conjunction, .disjunction, .implication]
  | .disjunction => [.conjunction, .disjunction]
  | .conjunction => [.conjunction]
  | .negation | .primary => []

/-- Would a complete formula of the level go on with a token of this meaning? -/
def Level.goesOn (level : Level) (m : Meaning) : Bool :=
  (level != .primary && m == .symbol .negationAfter) || level.bands.any m.isOperatorOf

@[simp] theorem Level.goesOn_primary (m : Meaning) : Level.primary.goesOn m = false := rfl

@[simp] theorem Level.goesOn_negation (m : Meaning) :
    Level.negation.goesOn m = (m == .symbol .negationAfter) := by
  simp [goesOn, bands]

theorem Level.goesOn_of_chain? {level next : Level} {band : Band}
    (hchain : level.chain? = some (band, next)) (m : Meaning) :
    level.goesOn m = (next.goesOn m || m.isOperatorOf band) := by
  have hstep : level.bands = next.bands ++ [band] ∧ (level != .primary) = (next != .primary) := by
    cases level <;> simp only [chain?, Option.some.injEq, Prod.mk.injEq, reduceCtorEq] at hchain
    all_goals
      obtain ⟨rfl, rfl⟩ := hchain
      exact ⟨rfl, rfl⟩
  simp [goesOn, hstep, Bool.or_assoc]

theorem Level.goesOn_operator {level next : Level} {band : Band} {kind : Kind}
    (hchain : level.chain? = some (band, next)) (hkind : kind.band? = some band) :
    next.goesOn (.symbol (.operator kind)) = false := by
  have hband : band ∉ next.bands := by
    cases level <;> simp only [chain?, Option.some.injEq, Prod.mk.injEq, reduceCtorEq] at hchain
    all_goals
      obtain ⟨rfl, rfl⟩ := hchain
      decide
  simp only [goesOn, Meaning.isOperatorOf, hkind]
  rw [Bool.or_eq_false_iff]
  refine ⟨by simp, List.any_eq_false.mpr ?_⟩
  intro other hother heq
  rw [beq_iff_eq, Option.some.injEq] at heq
  exact hband (heq ▸ hother)

theorem Level.goesOn_eq_false_iff {level : Level} {m : Meaning} :
    level.goesOn m = false ↔
      (level ≠ .primary → m ≠ .symbol .negationAfter) ∧
        ∀ kind, m = .symbol (.operator kind) → ∀ band ∈ level.bands, kind.band? ≠ some band := by
  unfold goesOn
  rw [Bool.or_eq_false_iff, List.any_eq_false]
  refine and_congr (by simp) ⟨?_, fun h band hband => ?_⟩
  · rintro h kind rfl band hband
    simpa [Meaning.isOperatorOf] using h band hband
  · unfold Meaning.isOperatorOf
    split
    · simpa using h _ rfl band hband
    · simp

/-! ### Soundness -/

/-- What a reader of the level gives, it derives from what it took, and nothing left goes on. -/
def Reader.Sound (level : Level) (reader : Reader) : Prop :=
  ∀ tokens f rest, reader.run tokens = (.ok f, rest) →
    (∃ used, tokens = used ++ rest ∧ Derives level (used.map Token.meaning) f) ∧
    Stops (level.goesOn ·.meaning) rest

namespace Reader

theorem sound_closeBracket {opening : Token} {reading : Reading Formula} {f : Formula}
    {rest : List Token} (h : closeBracket opening reading = (.ok f, rest)) :
    ∃ closing, reading = (.ok f, closing :: rest) ∧ closing.meaning = .symbol .closing := by
  unfold closeBracket at h
  split at h
  · cases h
  · cases h
  · split at h
    · rename_i hclosing
      cases h
      exact ⟨_, rfl, by simpa [Token.isClosing] using hclosing⟩
    · cases h

theorem sound_primary {inner : Option Reader}
    (hinner : ∀ reader, inner = some reader → Sound .biconditional reader) :
    Sound .primary (primary inner) := by
  intro tokens f rest h
  refine ⟨?_, stops_false rest⟩
  change primaryRun inner tokens = _ at h
  unfold primaryRun at h
  split at h
  · cases h
  · rename_i token tail
    split at h
    · rename_i name hname
      cases h
      exact ⟨[token], rfl, by simpa [hname] using Derives.var name⟩
    · rename_i value hvalue
      cases h
      exact ⟨[token], rfl, by simpa [hvalue] using Derives.const value⟩
    · rename_i hopening
      split at h
      · rename_i reader
        obtain ⟨closing, hrun, hclosing⟩ := sound_closeBracket h
        obtain ⟨⟨used, htail, hderives⟩, -⟩ := hinner reader rfl _ _ _ hrun
        refine ⟨token :: (used ++ [closing]), by simp [htail], ?_⟩
        simpa [hopening, hclosing] using Derives.brackets hderives
      · cases h
    · cases h

theorem map_meaning_eq_replicate_iff {tokens : List Token} {n : Nat} {m : Meaning} :
    tokens.map Token.meaning = List.replicate n m ↔
      tokens.length = n ∧ ∀ token ∈ tokens, token.meaning = m := by
  rw [List.eq_replicate_iff, List.length_map, List.forall_mem_map]

theorem map_meaning_takeWhile {p : Token → Bool} {m : Meaning}
    (hp : ∀ token, p token = true → token.meaning = m) (tokens : List Token) :
    (tokens.takeWhile p).map Token.meaning =
      List.replicate (tokens.takeWhile p).length m :=
  map_meaning_eq_replicate_iff.mpr ⟨rfl, fun token htoken => hp token (List.mem_takeWhile_imp htoken)⟩

theorem sound_negations {operand : Reader} (hoperand : Sound .primary operand) :
    Sound .negation (negations operand) := by
  intro tokens f rest h
  dsimp only [negations] at h
  split at h
  · cases h
  · rename_i g mid hrun
    cases h
    obtain ⟨⟨used, hused, hderives⟩, -⟩ := hoperand _ _ _ hrun
    -- the marks taken on each side are as many tokens of one meaning
    have hbefore : (tokens.takeWhile Token.isMarkBefore).map Token.meaning =
        List.replicate _ (.symbol .negationBefore) :=
      map_meaning_takeWhile (by simp [Token.isMarkBefore]) tokens
    have hafter : (mid.takeWhile Token.isMarkAfter).map Token.meaning =
        List.replicate _ (.symbol .negationAfter) :=
      map_meaning_takeWhile (by simp [Token.isMarkAfter]) mid
    constructor
    · refine ⟨tokens.takeWhile Token.isMarkBefore ++ used ++ mid.takeWhile Token.isMarkAfter, ?_, ?_⟩
      · rw [List.append_assoc, List.append_assoc, List.takeWhile_append_dropWhile, ← hused,
          List.takeWhile_append_dropWhile]
      · rw [List.map_append, List.map_append, hbefore, hafter]
        exact Derives.marks _ _ hderives
    · intro token htoken
      simpa [Token.isMarkAfter] using stops_dropWhile Token.isMarkAfter mid token htoken

/-- A chain that grows stays a derivation, and ends where no operand and no operator goes on. -/
theorem sound_grow {level next : Level} {band : Band} (hchain : level.chain? = some (band, next))
    {operand : Reader} (hoperand : Sound next operand) {f g : Formula} {tokens rest : List Token}
    (h : grow band operand f tokens = (.ok g, rest)) {before : List Meaning}
    (hbefore : Derives level before f)
    (hfollow : Stops (next.goesOn ·.meaning) tokens) :
    (∃ used, tokens = used ++ rest ∧ Derives level (before ++ used.map Token.meaning) g) ∧
    Stops (level.goesOn ·.meaning) rest := by
  -- what was read so far derives `f`; each link extends it by an operator and an operand
  fun_induction grow band operand f tokens generalizing before with
  | case1 f =>
    cases h
    exact ⟨⟨[], rfl, by simpa using hbefore⟩, by simp⟩
  | case2 f token tail hnone =>
    cases h
    refine ⟨⟨[], rfl, by simpa using hbefore⟩, ?_⟩
    rw [stops_cons] at hfollow ⊢
    rw [Level.goesOn_of_chain? hchain, hfollow, Token.operatorOf?_eq_none_iff.mp hnone,
      Bool.or_false]
  | case3 => cases h
  | case4 f token tail kind hkind reading g' hg' both hboth ih =>
    obtain ⟨hmeaning, hband⟩ := Token.operatorOf?_eq_some_iff.mp hkind
    obtain ⟨⟨used, htail, hderives⟩, hnext⟩ := hoperand tail g' reading.2 (by rw [← hg'])
    obtain ⟨⟨used', hrest, hderives'⟩, hend⟩ :=
      ih h (Derives.link hchain hband hbefore hderives hboth) hnext
    refine ⟨⟨token :: (used ++ used'), ?_, ?_⟩, hend⟩
    · rw [htail, hrest]
      simp
    · simpa [hmeaning] using hderives'
  | case5 => cases h

theorem sound_chain {level next : Level} {band : Band} (hchain : level.chain? = some (band, next))
    {operand : Reader} (hoperand : Sound next operand) : Sound level (chain band operand) := by
  intro tokens f rest h
  rw [chain_run hchain] at h
  split at h
  · cases h
  · rename_i first mid hrun
    obtain ⟨⟨used, htokens, hderives⟩, hfollow⟩ := hoperand _ _ _ hrun
    obtain ⟨⟨used', hmid, hderives'⟩, hend⟩ :=
      sound_grow hchain hoperand h (Derives.operand hchain hderives) hfollow
    refine ⟨⟨used ++ used', ?_, ?_⟩, hend⟩
    · rw [htokens, hmid, List.append_assoc]
    · rwa [List.map_append]

/-- **Soundness** of the readers of all levels. -/
theorem derives_of_run (depth : Nat) (level : Level) : Sound level (atLevel depth level) := by
  refine atLevel_induction (P := fun _ => Sound) ?_ ?_ ?_ ?_ depth level
  · exact sound_primary (by simp)
  · rintro depth reader h
    exact sound_primary fun reader' heq => Option.some.inj heq ▸ h
  · rintro depth reader h
    exact sound_negations h
  · rintro depth level band next hchain reader h
    exact sound_chain hchain h

end Reader

/-! ### Completeness -/

/-- A reader of the level takes all of a derivation of at most `depth` tokens, if nothing after it
goes on. -/
def Reader.Complete (depth : Nat) (level : Level) (reader : Reader) : Prop :=
  ∀ used f, Derives level (used.map Token.meaning) f → used.length ≤ depth →
    ∀ rest : List Token, Stops (level.goesOn ·.meaning) rest →
      reader.run (used ++ rest) = (.ok f, rest)

namespace Reader

theorem primaryRun_var {token : Token} {name : Text} (h : token.meaning = .var name)
    (inner : Option Reader) (rest : List Token) :
    primaryRun inner (token :: rest) = (.ok (.var name), rest) := by
  simp only [primaryRun, h]

theorem primaryRun_const {token : Token} {value : Bool}
    (h : token.meaning = .symbol (.constant value)) (inner : Option Reader) (rest : List Token) :
    primaryRun inner (token :: rest) = (.ok (.const value), rest) := by
  simp only [primaryRun, h]

theorem primaryRun_opening {token : Token} (h : token.meaning = .symbol .opening)
    (reader : Reader) (rest : List Token) :
    primaryRun (some reader) (token :: rest) = closeBracket token (reader.run rest) := by
  simp only [primaryRun, h]

theorem complete_primary_succ {depth : Nat} {reader : Reader}
    (hreader : Complete depth .biconditional reader) :
    Complete (depth + 1) .primary (primary (some reader)) := by
  intro used f hderives hlength rest _
  show primaryRun (some reader) (used ++ rest) = _
  obtain ⟨name, hused, rfl⟩ | ⟨value, hused, rfl⟩ | ⟨inside, hused, hinside⟩ :=
    hderives.primary_cases
  · obtain ⟨token, rfl, hmeaning⟩ := List.map_eq_singleton_iff.mp hused
    exact primaryRun_var hmeaning _ _
  · obtain ⟨token, rfl, hmeaning⟩ := List.map_eq_singleton_iff.mp hused
    exact primaryRun_const hmeaning _ _
  · obtain ⟨opening, tail, rfl, hopening, htail⟩ := List.map_eq_cons_iff.mp hused
    obtain ⟨content, last, rfl, rfl, hlast⟩ := List.map_eq_append_iff.mp htail
    obtain ⟨closing, rfl, hclosing⟩ := List.map_eq_singleton_iff.mp hlast
    have hrun : reader.run (content ++ closing :: rest) = (.ok f, closing :: rest) := by
      refine hreader content f hinside ?_ _ ?_
      · simp at hlength
        omega
      · simp [hclosing, Level.goesOn, Meaning.isOperatorOf]
    rw [List.cons_append, primaryRun_opening hopening, List.append_assoc, List.singleton_append, hrun]
    simp [closeBracket, Token.isClosing, hclosing]

theorem complete_negations {depth : Nat} {operand : Reader}
    (hoperand : Complete depth .primary operand) :
    Complete depth .negation (negations operand) := by
  intro used f hderives hlength rest hfollow
  obtain ⟨m, n, inside, g, hinside, rfl, hused⟩ := hderives.negation_cases
  obtain ⟨front, after, rfl, hfront, hafter⟩ := List.map_eq_append_iff.mp hused
  obtain ⟨before, mid, rfl, hbefore, rfl⟩ := List.map_eq_append_iff.mp hfront
  obtain ⟨rfl, hmarkBefore⟩ := map_meaning_eq_replicate_iff.mp hbefore
  obtain ⟨rfl, hmarkAfter⟩ := map_meaning_eq_replicate_iff.mp hafter
  have hallBefore : ∀ token ∈ before, token.isMarkBefore = true := by
    intro token htoken
    simp [Token.isMarkBefore, hmarkBefore token htoken]
  have hallAfter : ∀ token ∈ after, token.isMarkAfter = true := by
    intro token htoken
    simp [Token.isMarkAfter, hmarkAfter token htoken]
  -- an operand begins with no mark, so the marks before it end there
  have hmid : Stops Token.isMarkBefore (mid ++ (after ++ rest)) := by
    obtain ⟨first, more, hfirst, hne⟩ := hinside.primary_head
    obtain ⟨token, tail, rfl, htoken, -⟩ := List.map_eq_cons_iff.mp hfirst
    simpa [Token.isMarkBefore, htoken] using hne
  have hrest : Stops Token.isMarkAfter rest := by
    intro token htoken
    simpa [Token.isMarkAfter] using hfollow token htoken
  have hrun : operand.run (mid ++ (after ++ rest)) = (.ok g, after ++ rest) :=
    hoperand mid g hinside (by simp at hlength; omega) _ (by simp)
  dsimp only [negations]
  rw [List.append_assoc, List.append_assoc, hmid.dropWhile_append, hmid.takeWhile_append,
    List.dropWhile_eq_nil_iff.mpr hallBefore, List.takeWhile_eq_self_iff.mpr hallBefore,
    List.nil_append, hrun]
  dsimp only
  rw [hrest.takeWhile_append, hrest.dropWhile_append, List.takeWhile_eq_self_iff.mpr hallAfter,
    List.dropWhile_eq_nil_iff.mpr hallAfter, List.nil_append]

/-- A chain is read operand by operand, from the left: what was read before the rest can be
replaced by the formula it made. -/
theorem grow_of_derives {depth : Nat} {level next : Level} {band : Band}
    (hchain : level.chain? = some (band, next)) {operand : Reader}
    (hoperand : Complete depth next operand) {meanings : List Meaning} {f : Formula}
    (hderives : Derives level meanings f) :
    ∀ used : List Token, used.map Token.meaning = meanings → used.length ≤ depth →
      ∀ rest : List Token, Stops (next.goesOn ·.meaning) rest →
        ∃ first mid, operand.run (used ++ rest) = (.ok first, mid) ∧
          grow band operand first mid = grow band operand f rest := by
  -- from the left: the last link is read once the chain before it has grown
  induction hderives with
  | var | const | brackets | marks => cases hchain
  | operand chain single _ =>
    rw [hchain] at chain
    cases chain
    rintro used rfl hlength rest hfollow
    exact ⟨_, rest, hoperand used _ single hlength rest hfollow, rfl⟩
  | link chain ofBand _ last join ihLeft _ =>
    rw [hchain] at chain
    cases chain
    intro used hused hlength rest hfollow
    obtain ⟨left, tail, rfl, hleft, htail⟩ := List.map_eq_append_iff.mp hused
    obtain ⟨sign, right, rfl, hsign, rfl⟩ := List.map_eq_cons_iff.mp htail
    have hsize : left.length ≤ depth ∧ right.length ≤ depth := by
      simp at hlength
      omega
    obtain ⟨first, mid, hrun, hgrow⟩ := ihLeft hchain left hleft hsize.1 (sign :: (right ++ rest))
      (by simpa [hsign] using Level.goesOn_operator hchain ofBand)
    refine ⟨first, mid, by simpa using hrun, ?_⟩
    have hright := hoperand right _ last hsize.2 rest hfollow
    rw [hgrow, grow, Token.operatorOf?_eq_some_iff.mpr ⟨hsign, ofBand⟩]
    simp only [hright, join]

theorem complete_chain {depth : Nat} {level next : Level} {band : Band}
    (hchain : level.chain? = some (band, next)) {operand : Reader}
    (hoperand : Complete depth next operand) : Complete depth level (chain band operand) := by
  intro used f hderives hlength rest hfollow
  have hends : ∀ token ∈ rest.head?,
      next.goesOn token.meaning = false ∧ token.operatorOf? band = none := by
    intro token htoken
    have hends := hfollow token htoken
    simp only [Level.goesOn_of_chain? hchain, Bool.or_eq_false_iff] at hends
    exact ⟨hends.1, Token.operatorOf?_eq_none_iff.mpr hends.2⟩
  obtain ⟨first, mid, hrun, hgrow⟩ := grow_of_derives hchain hoperand hderives used rfl hlength rest
    fun token htoken => (hends token htoken).1
  rw [chain_run hchain, hrun]
  dsimp only
  rw [hgrow]
  cases rest with
  | nil => rw [grow]
  | cons token rest => rw [grow, (hends token rfl).2]

/-- **Completeness** of the readers of all levels. -/
theorem run_of_derives (depth : Nat) (level : Level) : Complete depth level (atLevel depth level) := by
  refine atLevel_induction (P := Complete) ?_ ?_ ?_ ?_ depth level
  · intro used f hderives hlength
    obtain ⟨m, more, hused, -⟩ := hderives.primary_head
    obtain rfl := List.eq_nil_of_length_eq_zero (Nat.le_zero.mp hlength)
    cases hused
  · exact fun _ _ h => complete_primary_succ h
  · exact fun _ _ h => complete_negations h
  · exact fun _ _ _ _ hchain _ h => complete_chain hchain h

end Reader

/-! ### Whole lists -/

def meaningsBeforeStop (tokens : List Token) : List Meaning :=
  (tokens.takeWhile (!·.isStop)).map Token.meaning

theorem isStop_eq_false_iff {tokens : List Token} :
    (∀ token ∈ tokens, token.isStop = false) ↔ .stop ∉ tokens.map Token.meaning := by
  simp [Token.isStop]

theorem meaningsBeforeStop_of_isStop {tokens : List Token}
    (h : ∀ token ∈ tokens, token.isStop = false) :
    meaningsBeforeStop tokens = tokens.map Token.meaning := by
  have hall : tokens.takeWhile (!·.isStop) = tokens :=
    List.takeWhile_eq_self_iff.mpr (by simpa using h)
  rw [meaningsBeforeStop, hall]

theorem meaningsBeforeStop_concat {tokens : List Token} {stop : Token}
    (htokens : ∀ token ∈ tokens, token.isStop = false) (hstop : stop.isStop = true) :
    meaningsBeforeStop (tokens ++ [stop]) = tokens.map Token.meaning := by
  rw [meaningsBeforeStop, takeWhile_isStop htokens hstop]

theorem Derives.unique {level : Level} {meanings : List Meaning} {f g : Formula}
    (hf : Derives level meanings f) (hg : Derives level meanings g) : f = g := by
  -- any tokens with these meanings will do, and a reader takes all of them either way
  have htokens : (meanings.map fun m => Token.mk m [] 0).map Token.meaning = meanings := by
    simp [Function.comp_def]
  rw [← htokens] at hf hg
  have hrun := Reader.run_of_derives _ level _ f hf (Nat.le_refl _) [] (by simp)
  rw [Reader.run_of_derives _ level _ g hg (Nat.le_refl _) [] (by simp)] at hrun
  cases hrun
  rfl

theorem Formula.derives_of_ofTokens {tokens : List Token} {f : Formula}
    (h : Formula.ofTokens tokens = .ok f) :
    Derives .biconditional (meaningsBeforeStop tokens) f := by
  rw [Formula.ofTokens_eq] at h
  split at h
  · cases h
  · rename_i g hrun
    cases h
    obtain ⟨⟨used, hused, hderives⟩, -⟩ := Reader.derives_of_run _ _ _ _ _ hrun
    rw [meaningsBeforeStop, hused, List.append_nil]
    exact hderives
  · cases h

theorem Formula.ofTokens_of_derives {tokens : List Token} {f : Formula}
    (h : Derives .biconditional (meaningsBeforeStop tokens) f) :
    Formula.ofTokens tokens = .ok f := by
  have hrun := Reader.run_of_derives tokens.length .biconditional _ f h
    (List.takeWhile_prefix _).length_le [] (by simp)
  rw [List.append_nil] at hrun
  rw [Formula.ofTokens_eq, hrun]

/-- **Reading is deriving.**  A list of tokens is read as a formula exactly when the tokens before
the first that ends it derive the formula, and a list derives no two formulas. -/
theorem Formula.ofTokens_eq_ok_iff_derives (tokens : List Token) (f : Formula) :
    (Formula.ofTokens tokens = .ok f ↔ Derives .biconditional (meaningsBeforeStop tokens) f) ∧
    ∀ level meanings g h, Derives level meanings g → Derives level meanings h → g = h :=
  ⟨⟨derives_of_ofTokens, ofTokens_of_derives⟩, fun _ _ _ _ hg hh => hg.unique hh⟩

/-- `p ∧ q ↑ r`, followed by a stop and an operator that nobody reads: the chain is joined from the
left, and not from the right. -/
theorem Formula.ofTokens_chain_from_left :
    let p : Formula := .var ['p']
    let q : Formula := .var ['q']
    let r : Formula := .var ['r']
    let tokens : List Token :=
      [⟨.var ['p'], ['p'], 0⟩, ⟨.symbol (.operator .and), ['∧'], 1⟩, ⟨.var ['q'], ['q'], 4⟩,
        ⟨.symbol (.operator .nand), ['↑'], 5⟩, ⟨.var ['r'], ['r'], 8⟩, .stopAt 9,
        ⟨.symbol (.operator .not), ['?'], 9⟩]
    Formula.ofTokens tokens = .ok (.binary .nand (.binary .and p q) r) ∧
      ¬ Derives .biconditional (meaningsBeforeStop tokens) (.binary .and p (.binary .nand q r)) := by
  intro p q r tokens
  have hvar : ∀ name, Derives .negation [.var name] (.var name) :=
    fun name => Derives.marks 0 0 (Derives.var name)
  have hpq : Derives .conjunction [.var ['p'], .symbol (.operator .and), .var ['q']]
      (.binary .and p q) :=
    Derives.link rfl (show Kind.and.band? = _ from rfl) (Derives.operand rfl (hvar _)) (hvar _) rfl
  have hpqr : Derives .conjunction (meaningsBeforeStop tokens) (.binary .nand (.binary .and p q) r) :=
    Derives.link rfl (show Kind.nand.band? = _ from rfl) hpq (hvar _) rfl
  have hall : Derives .biconditional (meaningsBeforeStop tokens)
      (.binary .nand (.binary .and p q) r) :=
    .operand rfl (.operand rfl (.operand rfl hpqr))
  refine ⟨(ofTokens_eq_ok_iff_derives tokens _).1.mpr hall, fun hright => ?_⟩
  have hsame := (ofTokens_eq_ok_iff_derives tokens (.const true)).2 _ _ _ _ hall hright
  cases hsame

end Wff
