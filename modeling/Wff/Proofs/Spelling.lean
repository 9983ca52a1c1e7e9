import Wff.Formula.Written
import Wff.Proofs.Derivation
import Wff.Proofs.Nesting
import Wff.Proofs.Scanning

/-!
# Wff.Proofs.Spelling — the tokens that a formula is written with

`Formula.spelling` follows the text of a formula token by token.

* The spelling derives the formula (`derives_spelling`): every operand is a single token or stands
  in brackets, after negation marks.
* Its brackets are as deep as two-sided nodes lie under each other (`spans_spelling`).
* It is what the text is scanned to (`Writes.spells_text`), if the table knows all glyphs that are
  written (`Table.Writes`) and none of the names.
-/

namespace Wff

open Character

namespace Formula

def leafNames : Formula → List Text
  | var name => [name]
  | const _ => []
  | not operand => operand.leafNames
  | binary _ left right => left.leafNames ++ right.leafNames

def joins : Formula → Nat
  | var _ | const _ => 0
  | not operand => operand.joins
  | binary _ left right => max left.joins right.joins + 1

/-- The largest number of binary nodes other than the root on a path from the root to a leaf. -/
def nesting : Formula → Nat
  | var _ | const _ => 0
  | not operand => operand.joins
  | binary _ left right => max left.joins right.joins

/-- The meanings of an operand, given those of its tokens: in brackets if it joins two formulas. -/
def bracketed (f : Formula) (meanings : List Meaning) : List Meaning :=
  if f.isBinary then .symbol .opening :: (meanings ++ [.symbol .closing]) else meanings

/-- The meanings of the tokens that a formula is written with. -/
def spelling : Formula → List Meaning
  | var name => [.var name]
  | const value => [.symbol (.constant value)]
  | not operand => .symbol .negationBefore :: operand.bracketed operand.spelling
  | binary c left right =>
    left.bracketed left.spelling ++ .symbol (.operator c.kind) :: right.bracketed right.spelling

end Formula

/-! ### More about derivations -/

theorem Formula.leafNames_negated (n : Nat) (f : Formula) :
    (f.negated n).leafNames = f.leafNames := by
  induction n generalizing f with
  | zero => rfl
  | succ n ih => exact ih (.not f)

theorem Kind.mem_leafNames_iff_of_join? {kind : Kind} {f g joined : Formula}
    (h : kind.join? f g = some joined) (name : Text) :
    name ∈ joined.leafNames ↔ name ∈ f.leafNames ∨ name ∈ g.leafNames := by
  cases kind <;> cases h <;> simp [Formula.leafNames, or_comm]

namespace Derives

theorem unmarked {meanings : List Meaning} {f : Formula} (h : Derives .primary meanings f) :
    Derives .negation meanings f := by
  have hnone := Derives.marks 0 0 h
  rwa [List.replicate_zero, List.replicate_zero, List.nil_append, List.append_nil] at hnone

theorem negationBefore {meanings : List Meaning} {f : Formula} (h : Derives .negation meanings f) :
    Derives .negation (.symbol .negationBefore :: meanings) (.not f) := by
  obtain ⟨before, after, operand, g, hoperand, rfl, rfl⟩ := h.negation_cases
  rw [← Formula.negated_succ, Nat.add_right_comm]
  exact Derives.marks (before + 1) after hoperand

theorem negationAfter {meanings : List Meaning} {f : Formula} (h : Derives .negation meanings f) :
    Derives .negation (meanings ++ [.symbol .negationAfter]) (.not f) := by
  obtain ⟨before, after, operand, g, hoperand, rfl, rfl⟩ := h.negation_cases
  rw [← Formula.negated_succ, Nat.add_assoc, List.append_assoc, ← List.replicate_succ']
  exact Derives.marks before (after + 1) hoperand

/-- What makes up an operand makes up a chain of one operand. -/
theorem of_negation {level : Level} (hlevel : level ≠ .primary) {meanings : List Meaning}
    {f : Formula} (h : Derives .negation meanings f) : Derives level meanings f := by
  have hconjunction : Derives .conjunction meanings f := .operand rfl h
  have hdisjunction : Derives .disjunction meanings f := .operand rfl hconjunction
  have himplication : Derives .implication meanings f := .operand rfl hdisjunction
  cases level with
  | primary => exact absurd rfl hlevel
  | negation => exact h
  | conjunction => exact hconjunction
  | disjunction => exact hdisjunction
  | implication => exact himplication
  | biconditional => exact .operand rfl himplication

/-- What makes up a chain of some band makes up a whole formula. -/
theorem biconditional_of_chain {level next : Level} {band : Band}
    (hchain : level.chain? = some (band, next)) {meanings : List Meaning} {f : Formula}
    (h : Derives level meanings f) : Derives .biconditional meanings f := by
  cases level with
  | primary | negation => cases hchain
  | conjunction => exact .operand rfl (.operand rfl (.operand rfl h))
  | disjunction => exact .operand rfl (.operand rfl h)
  | implication => exact .operand rfl h
  | biconditional => exact h

theorem joined {kind : Kind} {left right : List Meaning} {f g both : Formula}
    (hleft : Derives .negation left f) (hright : Derives .negation right g)
    (hjoin : kind.join? f g = some both) :
    Derives .biconditional (left ++ .symbol (.operator kind) :: right) both := by
  obtain ⟨level, next, band, hchain, hband⟩ : ∃ level next band,
      Level.chain? level = some (band, next) ∧ kind.band? = some band := by
    cases kind with
    | and | nand => exact ⟨.conjunction, _, _, rfl, rfl⟩
    | or | nor | xor | xnor => exact ⟨.disjunction, _, _, rfl, rfl⟩
    | implies | converse | nonImplication | nonConverse => exact ⟨.implication, _, _, rfl, rfl⟩
    | iff | nonIff => exact ⟨.biconditional, _, _, rfl, rfl⟩
    | not | var | verum | falsum => cases hjoin
  have hlevel : level ≠ .primary := by
    rintro rfl
    cases hchain
  exact biconditional_of_chain hchain
    (Derives.link hchain hband (of_negation hlevel hleft)
      (of_negation (Level.next_ne_primary hchain) hright) hjoin)

theorem mem_leafNames_iff {level : Level} {meanings : List Meaning} {f : Formula}
    (h : Derives level meanings f) (name : Text) : name ∈ f.leafNames ↔ .var name ∈ meanings := by
  induction h with
  | var other => simp [Formula.leafNames]
  | const value => simp [Formula.leafNames]
  | brackets content ih => simp [ih]
  | marks before after marked ih =>
    rw [Formula.leafNames_negated, ih]
    simp
  | operand chain single ih => exact ih
  | link chain ofBand shorter last join ihLeft ihRight =>
    rw [Kind.mem_leafNames_iff_of_join? join, ihLeft, ihRight]
    simp

end Derives

/-! ### The spelling derives the formula -/

namespace Formula

/-- The spelling derives the formula, and an operand where it stands as one. -/
theorem derives_spelling_bracketed (f : Formula) :
    Derives .biconditional f.spelling f ∧ Derives .negation (f.bracketed f.spelling) f := by
  induction f with
  | var name =>
    have h := Derives.unmarked (Derives.var name)
    exact ⟨Derives.of_negation (by simp) h, h⟩
  | const value =>
    have h := Derives.unmarked (Derives.const value)
    exact ⟨Derives.of_negation (by simp) h, h⟩
  | not operand ih =>
    have h := ih.2.negationBefore
    exact ⟨Derives.of_negation (by simp) h, h⟩
  | binary c left right ihLeft ihRight =>
    have hjoin : c.kind.join? left right = some (.binary c left right) := by
      cases c <;> rfl
    have h := Derives.joined ihLeft.2 ihRight.2 hjoin
    exact ⟨h, Derives.unmarked (Derives.brackets h)⟩

theorem derives_spelling (f : Formula) : Derives .biconditional f.spelling f :=
  f.derives_spelling_bracketed.1

/-! ### Brackets of the spelling -/

theorem joins_eq (f : Formula) : f.joins = if f.isBinary then f.nesting + 1 else f.nesting := by
  cases f <;> rfl

theorem spans_bracketed {f : Formula} (h : Spans f.nesting f.spelling) :
    Spans f.joins (f.bracketed f.spelling) := by
  rw [joins_eq, bracketed]
  by_cases hbinary : f.isBinary = true
  · rw [if_pos hbinary, if_pos hbinary]
    exact h.brackets
  · rw [if_neg hbinary, if_neg hbinary]
    exact h

theorem spans_spelling (f : Formula) : Spans f.nesting f.spelling := by
  induction f with
  | var name => exact Spans.nil.cons (by simp) (by simp)
  | const value => exact Spans.nil.cons (by simp) (by simp)
  | not operand ih => exact (spans_bracketed ih).cons (by simp) (by simp)
  | binary c left right ihLeft ihRight =>
    have hright : Spans right.joins (.symbol (.operator c.kind) :: right.bracketed right.spelling) :=
      (spans_bracketed ihRight).cons (by simp) (by simp)
    exact (spans_bracketed ihLeft).append hright

end Formula

/-! ### The spelling of the text -/

/-- Wherever the text stands, it is scanned to tokens of these meanings. -/
def Table.Spells (table : Table) (text : Text) (meanings : List Meaning) : Prop :=
  ∀ here, ∃ tokens, table.scanFrom here text = .ok tokens ∧ tokens.map Token.meaning = meanings

namespace Table

variable {table : Table}

theorem spells_nil : table.Spells [] [] := by
  intro here
  exact ⟨[], by rw [scanFrom, Text.lexemesFrom]; rfl, rfl⟩

theorem Spells.append {a b : Text} {x y : List Meaning} (hb : Stops continuesWord b)
    (ha : table.Spells a x) (h : table.Spells b y) : table.Spells (a ++ b) (x ++ y) := by
  intro here
  obtain ⟨s, hs, rfl⟩ := ha here
  obtain ⟨t, ht, rfl⟩ := h (here + Text.byteLength a)
  exact ⟨s ++ t, (scanFrom_append_eq_ok_iff hb).mpr ⟨s, t, hs, ht, rfl⟩, List.map_append⟩

theorem Spells.blank {c : Char} (hc : isBlank c = true) {text : Text} {meanings : List Meaning}
    (h : table.Spells text meanings) : table.Spells (c :: text) meanings := by
  intro here
  rw [scanFrom, Text.lexemesFrom_blank hc]
  exact h (here + c.utf8Size)

theorem Spells.glyph {c : Char} {s : Symbol} (hc : table.Glyph c s) {text : Text}
    {meanings : List Meaning} (h : table.Spells text meanings) :
    table.Spells (c :: text) (.symbol s :: meanings) := by
  intro here
  obtain ⟨tokens, htokens, rfl⟩ := h (here + c.utf8Size)
  exact ⟨_, (scanFrom_glyph_eq_ok_iff hc).mpr ⟨tokens, htokens, rfl⟩, rfl⟩

theorem spells_word {name : Text} (hword : name.isWord = true) (h : table.lookup? name = none) :
    table.Spells name [.var name] := by
  intro here
  refine ⟨[⟨.var name, name, here⟩], ?_, rfl⟩
  rw [scanFrom, Text.lexemesFrom_word hword, mapM_cons_eq_ok_iff]
  exact ⟨_, [], by rw [token?, h], rfl, rfl⟩

/-- The table knows everything but names that formulas are written with. -/
structure Writes (table : Table) : Prop where
  connective (c : Connective) : ∃ d, c.kind.glyph = [d] ∧ table.Glyph d (.operator c.kind)
  const (value : Bool) : ∃ d, (Kind.ofBool value).glyph = [d] ∧ table.Glyph d (.constant value)
  not : ∃ d, Kind.not.glyph = [d] ∧ table.Glyph d .negationBefore
  opening : table.Glyph '(' .opening
  closing : table.Glyph ')' .closing

theorem Writes.spells_parenthesized (h : table.Writes) {f : Formula}
    (hf : table.Spells f.text f.spelling) :
    table.Spells (f.parenthesized f.text) (f.bracketed f.spelling) := by
  unfold Formula.parenthesized Formula.bracketed
  by_cases hbinary : f.isBinary = true
  · have hclosing : Stops continuesWord [')'] := stops_cons.mpr (by decide +kernel)
    have hinside := hf.append hclosing (spells_nil.glyph h.closing)
    rw [if_pos hbinary, if_pos hbinary]
    exact hinside.glyph h.opening
  · rw [if_neg hbinary, if_neg hbinary]
    exact hf

/-- **The text is scanned to the spelling**, if the table knows what is written and no name. -/
theorem Writes.spells_text (h : table.Writes) (f : Formula)
    (hnames : ∀ name ∈ f.leafNames, name.isWord = true ∧ table.lookup? name = none) :
    table.Spells f.text f.spelling := by
  induction f with
  | var name =>
    obtain ⟨hword, hnone⟩ := hnames name (by simp [Formula.leafNames])
    exact spells_word hword hnone
  | const value =>
    obtain ⟨d, hd, hglyph⟩ := h.const value
    rw [Formula.text, hd]
    exact spells_nil.glyph hglyph
  | not operand ih =>
    obtain ⟨d, hd, hglyph⟩ := h.not
    rw [Formula.text, hd]
    exact (h.spells_parenthesized (ih hnames)).glyph hglyph
  | binary c left right ihLeft ihRight =>
    obtain ⟨d, hd, hglyph⟩ := h.connective c
    have hleft := h.spells_parenthesized
      (ihLeft fun name hn => hnames name (by simp [Formula.leafNames, hn]))
    have hright := h.spells_parenthesized
      (ihRight fun name hn => hnames name (by simp [Formula.leafNames, hn]))
    -- the blanks around the operator keep the words of both sides apart
    have hblank : isBlank ' ' = true := by decide +kernel
    have hstops : ∀ text, Stops continuesWord (' ' :: text) :=
      fun text => stops_cons.mpr (continuesWord_eq_false_of_isBlank hblank)
    rw [Formula.text, hd, List.append_assoc]
    exact hleft.append (hstops _) (((hright.blank hblank).glyph hglyph).blank hblank)

end Table

end Wff
