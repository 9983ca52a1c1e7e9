import Wff.Formula.Traversal
import Wff.Proofs.Spelling

/-!
# Wff.Proofs.TruthValues — what formulas and tokens say about truth

A valuation makes each variable true or false.  `Formula.value` is the truth value of a formula under
it.  `Evaluates` gives tokens a truth value without any formula: each operator has a truth function of
its own (`Kind.truth?`), a chain is worked out from the left, each level before the looser ones, a mark
negates once, and brackets only hold together.

Reading turns the twelve operators into eight connectives and negation, exchanging operands for some of
them.  It changes no truth value (`Formula.evaluates_iff_of_ofTokens`): the tokens have the value of the
formula read, and no other.
-/

namespace Wff

/-! ### Truth functions -/

def Connective.truth : Connective → Bool → Bool → Bool
  | .and, a, b => a && b
  | .nand, a, b => !(a && b)
  | .or, a, b => a || b
  | .nor, a, b => !(a || b)
  | .xor, a, b => a != b
  | .xnor, a, b => a == b
  | .implies, a, b => !a || b
  | .iff, a, b => a == b

def Formula.value (valuation : Text → Bool) : Formula → Bool
  | var name => valuation name
  | const b => b
  | not operand => !operand.value valuation
  | binary c left right => c.truth (left.value valuation) (right.value valuation)

def Kind.truth? : Kind → Option (Bool → Bool → Bool)
  | .and => some fun a b => a && b
  | .nand => some fun a b => !(a && b)
  | .or => some fun a b => a || b
  | .nor => some fun a b => !(a || b)
  | .xor => some fun a b => a != b
  | .xnor => some fun a b => a == b
  | .implies => some fun a b => !a || b
  | .converse => some fun a b => !b || a
  | .nonImplication => some fun a b => a && !b
  | .nonConverse => some fun a b => b && !a
  | .iff => some fun a b => a == b
  | .nonIff => some fun a b => a != b
  | .not | .var | .verum | .falsum => none

/-- Tokens of these meanings have the truth value at the level. -/
inductive Evaluates (valuation : Text → Bool) : Level → List Meaning → Bool → Prop
  | var (name : Text) : Evaluates valuation .primary [.var name] (valuation name)
  | const (b : Bool) : Evaluates valuation .primary [.symbol (.constant b)] b
  | brackets {inside : List Meaning} {b : Bool}
      (content : Evaluates valuation .biconditional inside b) :
      Evaluates valuation .primary (.symbol .opening :: (inside ++ [.symbol .closing])) b
  | bare {operand : List Meaning} {b : Bool} (only : Evaluates valuation .primary operand b) :
      Evaluates valuation .negation operand b
  | before {operand : List Meaning} {b : Bool} (marked : Evaluates valuation .negation operand b) :
      Evaluates valuation .negation (.symbol .negationBefore :: operand) !b
  | after {operand : List Meaning} {b : Bool} (marked : Evaluates valuation .negation operand b) :
      Evaluates valuation .negation (operand ++ [.symbol .negationAfter]) !b
  | operand {level next : Level} {band : Band} {only : List Meaning} {b : Bool}
      (chain : level.chain? = some (band, next)) (single : Evaluates valuation next only b) :
      Evaluates valuation level only b
  /-- the last operator of a chain takes the value of all that is on its left -/
  | link {level next : Level} {band : Band} {kind : Kind} {truth : Bool → Bool → Bool}
      {left right : List Meaning} {a b : Bool} (chain : level.chain? = some (band, next))
      (ofBand : kind.band? = some band) (function : kind.truth? = some truth)
      (shorter : Evaluates valuation level left a) (last : Evaluates valuation next right b) :
      Evaluates valuation level (left ++ .symbol (.operator kind) :: right) (truth a b)

/-! ### Operators and connectives -/

/-- What an operator is turned into has the value that the operator's own function gives. -/
theorem Kind.value_of_join? {kind : Kind} {f g joined : Formula} (h : kind.join? f g = some joined)
    (valuation : Text → Bool) :
    ∃ truth, kind.truth? = some truth ∧
      joined.value valuation = truth (f.value valuation) (g.value valuation) := by
  have htable : ∀ a b : Bool, (!(!a || b)) = (a && !b) ∧ (!(a == b)) = (a != b) := by decide
  cases kind <;> cases h
  all_goals
    refine ⟨_, rfl, ?_⟩
    simp only [Formula.value, Connective.truth, htable]

variable {valuation : Text → Bool}

namespace Evaluates

theorem marks {operand : List Meaning} {f : Formula}
    (h : Evaluates valuation .primary operand (f.value valuation)) (m n : Nat) :
    Evaluates valuation .negation
      (List.replicate m (.symbol .negationBefore) ++ operand ++
        List.replicate n (.symbol .negationAfter))
      ((f.negated (m + n)).value valuation) := by
  induction m with
  | zero =>
    rw [List.replicate_zero, List.nil_append, Nat.zero_add]
    induction n with
    | zero =>
      rw [List.replicate_zero, List.append_nil]
      exact bare h
    | succ n ih =>
      rw [List.replicate_succ', ← List.append_assoc, Formula.negated_succ]
      exact ih.after
  | succ m ih =>
    rw [Nat.add_right_comm, Formula.negated_succ]
    exact ih.before

end Evaluates

/-! ### Tokens and formulas -/

/-- Tokens that derive a formula have its truth value. -/
theorem Derives.evaluates {level : Level} {meanings : List Meaning} {f : Formula}
    (h : Derives level meanings f) (valuation : Text → Bool) :
    Evaluates valuation level meanings (f.value valuation) := by
  induction h with
  | var name => exact .var name
  | const b => exact .const b
  | brackets content ih => exact .brackets ih
  | marks before after marked ih => exact ih.marks before after
  | operand chain single ih => exact .operand chain ih
  | link chain ofBand shorter last join ihLeft ihRight =>
    obtain ⟨truth, hfunction, hvalue⟩ := Kind.value_of_join? join valuation
    rw [hvalue]
    exact .link chain ofBand hfunction ihLeft ihRight

/-- Tokens that have a truth value derive a formula that has the same. -/
theorem Evaluates.exists_derives {level : Level} {meanings : List Meaning} {b : Bool}
    (h : Evaluates valuation level meanings b) :
    ∃ f, Derives level meanings f ∧ f.value valuation = b := by
  induction h with
  | var name => exact ⟨.var name, .var name, rfl⟩
  | const b => exact ⟨.const b, .const b, rfl⟩
  | brackets content ih =>
    obtain ⟨f, hderives, hvalue⟩ := ih
    exact ⟨f, .brackets hderives, hvalue⟩
  | bare only ih =>
    obtain ⟨f, hderives, hvalue⟩ := ih
    exact ⟨f, hderives.unmarked, hvalue⟩
  | before marked ih =>
    obtain ⟨f, hderives, rfl⟩ := ih
    exact ⟨.not f, hderives.negationBefore, rfl⟩
  | after marked ih =>
    obtain ⟨f, hderives, rfl⟩ := ih
    exact ⟨.not f, hderives.negationAfter, rfl⟩
  | operand chain single ih =>
    obtain ⟨f, hderives, hvalue⟩ := ih
    exact ⟨f, .operand chain hderives, hvalue⟩
  | link chain ofBand function shorter last ihLeft ihRight =>
    obtain ⟨f, hleft, rfl⟩ := ihLeft
    obtain ⟨g, hright, rfl⟩ := ihRight
    obtain ⟨joined, hjoin⟩ := Kind.exists_join? (Level.band_ne_negation chain) ofBand f g
    -- joining has the truth function of the operator, exchanged operands or not
    obtain ⟨truth, hfunction, hvalue⟩ := Kind.value_of_join? hjoin valuation
    rw [function] at hfunction
    obtain rfl := Option.some.inj hfunction
    exact ⟨joined, .link chain ofBand hleft hright hjoin, hvalue⟩

/-- **Reading keeps the meaning.**  Under every valuation, tokens that are read as a formula have its
truth value, and no other. -/
theorem Formula.evaluates_iff_of_ofTokens (tokens : List Token) (f : Formula)
    (h : Formula.ofTokens tokens = .ok f) (valuation : Text → Bool) (b : Bool) :
    Evaluates valuation .biconditional (meaningsBeforeStop tokens) b ↔ f.value valuation = b := by
  have hderives := derives_of_ofTokens h
  constructor
  · intro hvalue
    obtain ⟨g, hg, rfl⟩ := hvalue.exists_derives
    rw [hderives.unique hg]
  · rintro rfl
    exact hderives.evaluates valuation

/-- `p ← q ↛ ¬(r ↮ p)′`: a converse on the left of a negated implication.  With only `q` false the
tokens are true, as is the formula, in which the operands of the converse are exchanged. -/
theorem Formula.evaluates_converse_chain :
    let p : Formula := .var ['p']
    let q : Formula := .var ['q']
    let r : Formula := .var ['r']
    let sign (kind : Kind) : Token := ⟨.symbol (.operator kind), kind.glyph, 0⟩
    let name (c : Char) : Token := ⟨.var [c], [c], 0⟩
    let tokens : List Token :=
      [name 'p', sign .converse, name 'q', sign .nonImplication, ⟨.symbol .negationBefore, ['¬'], 0⟩,
        ⟨.symbol .opening, ['('], 0⟩, name 'r', sign .nonIff, name 'p', ⟨.symbol .closing, [')'], 0⟩,
        ⟨.symbol .negationAfter, ['′'], 0⟩]
    let f : Formula := .not (.binary .implies (.binary .implies q p)
      (.not (.not (.not (.binary .iff r p)))))
    let valuation : Text → Bool := fun name => name != ['q']
    Formula.ofTokens tokens = .ok f ∧ f.value valuation = true ∧
      Evaluates valuation .biconditional (meaningsBeforeStop tokens) true ∧
      ¬ Evaluates valuation .biconditional (meaningsBeforeStop tokens) false := by
  intro p q r sign name tokens f valuation
  have hread : Formula.ofTokens tokens = .ok f := by decide +kernel
  have hvalue : f.value valuation = true := by decide
  have hiff := fun b => evaluates_iff_of_ofTokens tokens f hread valuation b
  refine ⟨hread, hvalue, (hiff true).mpr hvalue, fun hfalse => ?_⟩
  have hboth := (hiff false).mp hfalse
  rw [hvalue] at hboth
  cases hboth

end Wff
