import Wff.Juxtaposition
import Wff.Proofs.Blame
import Wff.Proofs.Characters
import Wff.Proofs.Scanning
import Wff.Symbol.Standard

/-!
# Wff.Proofs.Standard — what the usual aliases promise

The table is finite, so what holds of all its entries is checked entry by entry, and then used for
any literal that can be looked up.
-/

namespace Wff

open Character

/-- A name that the usual aliases leave to variables: a word, but neither `T` nor `F`. -/
def Text.isVariable (name : Text) : Bool := name.isWord && name != ['T'] && name != ['F']

/-- The usual characters of operands that are neither letters nor numbers, so that no conjunction left
out is marked beside them. -/
def unmarkedOperands : List Char := ['_', '⊤', '⊥']

namespace Table

theorem mem_of_standard {literal : Text} {s : Symbol} (h : standard.lookup? literal = some s) :
    (literal, s) ∈ standardAliases.entries :=
  (lookup?_eq_some_iff standard).mp h

theorem standard_single {literal : Text} {s : Symbol} (h : standard.lookup? literal = some s) :
    ∃ c, literal = [c] ∧ standard.glyph? c = some s := by
  have hall : ∀ entry ∈ standardAliases.entries, entry.1.length = 1 := by
    decide +kernel
  obtain ⟨c, rfl⟩ := List.length_eq_one_iff.mp (hall _ (mem_of_standard h))
  exact ⟨c, rfl, h⟩

theorem standard_operator {literal : Text} {kind : Kind}
    (h : standard.lookup? literal = some (.operator kind)) : kind.isBinary = true := by
  have hall : ∀ entry ∈ standardAliases.entries, ∀ k ∈ Kind.all,
      entry.2 = .operator k → k.isBinary = true := by
    decide +kernel
  exact hall _ (mem_of_standard h) kind kind.mem_all rfl

/-- What is told of a symbol is seen from its glyph, if so for each entry. -/
theorem standard_eq_of_all (told : Symbol → Bool) (seen : Char → Bool)
    (hall : (standardAliases.entries.all fun entry => told entry.2 == entry.1.any seen) = true)
    {c : Char} {s : Symbol} (h : standard.glyph? c = some s) : told s = seen c := by
  have hentry := List.all_eq_true.mp hall _ (mem_of_standard h)
  rw [List.any_cons, List.any_nil, Bool.or_false] at hentry
  exact beq_iff_eq.mp hentry

/-- An operand is awaited after a usual alias unless it can end one, or is a constant beside which no
conjunction is marked. -/
theorem standard_awaits_iff {c : Char} {s : Symbol} (h : standard.glyph? c = some s) :
    (Meaning.symbol s).awaits = false ↔
      standard.endsOperand c = true ∨ c ∈ unmarkedOperands := by
  have hseen : (!(Meaning.symbol s).awaits) =
      (standard.endsOperand c || unmarkedOperands.contains c) :=
    standard_eq_of_all (fun s => !(Meaning.symbol s).awaits)
      (fun c => standard.endsOperand c || unmarkedOperands.contains c) (by decide +kernel) h
  rw [← List.contains_iff_mem, ← Bool.or_eq_true, ← hseen, Bool.not_eq_true']

/-- An operand begins with a usual alias just if the alias can start one, or is a constant beside
which no conjunction is marked. -/
theorem standard_begins_iff {c : Char} {s : Symbol} (h : standard.glyph? c = some s) :
    (Meaning.symbol s).begins = true ↔
      standard.startsOperand c = true ∨ c ∈ unmarkedOperands := by
  have hseen : (Meaning.symbol s).begins =
      (standard.startsOperand c || unmarkedOperands.contains c) :=
    standard_eq_of_all (fun s => (Meaning.symbol s).begins)
      (fun c => standard.startsOperand c || unmarkedOperands.contains c) (by decide +kernel) h
  rw [← List.contains_iff_mem, ← Bool.or_eq_true, ← hseen]

/-- No usual alias that an operand has to follow can end an operand. -/
theorem standard_endsOperand {c : Char} {s : Symbol} (h : standard.glyph? c = some s)
    (hs : (Meaning.symbol s).awaits = true) : standard.endsOperand c = false := by
  rw [Bool.eq_false_iff]
  intro hends
  rw [(standard_awaits_iff h).mpr (Or.inl hends)] at hs
  cases hs

/-! ### Signs -/

/-- The character is a piece wherever it stands, and no operand. -/
structure Sign (table : Table) (c : Char) (s : Symbol) : Prop where
  glyph? : table.glyph? c = some s
  ink : isBlank c = false
  alphanumeric : isAlphanumeric c = false
  underscore : c ≠ '_'

namespace Sign

variable {table : Table} {c : Char} {s : Symbol} (h : table.Sign c s)
include h

theorem continuesWord : continuesWord c = false := by
  rw [Bool.eq_false_iff]
  intro hword
  rcases isAlphanumeric_or_eq_of_continuesWord hword with halphanumeric | hunderscore
  · rw [h.alphanumeric] at halphanumeric
    cases halphanumeric
  · exact h.underscore hunderscore

theorem glyph : table.Glyph c s := ⟨h.ink, startsWord_eq_false h.continuesWord, h.glyph?⟩

theorem endsOperand_eq : table.endsOperand c = (s == .negationAfter || s == .closing) := by
  simp [endsOperand, h.alphanumeric, h.glyph?]

theorem startsOperand_eq : table.startsOperand c = (s == .negationBefore || s == .opening) := by
  simp [startsOperand, h.alphanumeric, h.glyph?]

end Sign

/-- The usual aliases other than those of truth constants are signs. -/
theorem standard_sign {literal : Text} {s : Symbol} (h : standard.lookup? literal = some s)
    (hconstant : ∀ value, s ≠ .constant value) : ∃ c, literal = [c] ∧ standard.Sign c s := by
  have hall : (standardAliases.entries.all fun entry =>
      entry.2 == .constant true || entry.2 == .constant false ||
        entry.1.all fun c => !isBlank c && !isAlphanumeric c && c != '_') = true := by
    decide +kernel
  obtain ⟨c, rfl, hc⟩ := standard_single h
  have hentry := List.all_eq_true.mp hall _ (mem_of_standard h)
  have hsign : isBlank c = false ∧ isAlphanumeric c = false ∧ c ≠ '_' := by
    simpa [hconstant, and_assoc] using hentry
  exact ⟨c, rfl, hc, hsign.1, hsign.2.1, hsign.2.2⟩

theorem standard_mark : standard.Glyph conjunctionMark (.operator .and) := by
  decide +kernel

/-! ### Words -/

/-- The only words among the usual aliases are the letters of the truth constants. -/
theorem standard_word {name : Text} {s : Symbol} (hword : name.isWord = true)
    (h : standard.lookup? name = some s) :
    (name = ['T'] ∧ s = .constant true) ∨ (name = ['F'] ∧ s = .constant false) := by
  have hall : ∀ entry ∈ standardAliases.entries, entry.1.isWord = true →
      entry = (['T'], .constant true) ∨ entry = (['F'], .constant false) := by
    decide +kernel
  have hentry := hall _ (mem_of_standard h) hword
  simpa using hentry

theorem standard_eq_none_iff {name : Text} (hword : name.isWord = true) :
    standard.lookup? name = none ↔ name ≠ ['T'] ∧ name ≠ ['F'] := by
  constructor
  · intro h
    constructor
    · rintro rfl
      cases h
    · rintro rfl
      cases h
  · rintro ⟨htrue, hfalse⟩
    by_contra hsome
    obtain ⟨s, hs⟩ := Option.ne_none_iff_exists'.mp hsome
    rcases standard_word hword hs with ⟨h, -⟩ | ⟨h, -⟩
    · exact htrue h
    · exact hfalse h

theorem isVariable_iff (name : Text) :
    name.isVariable = true ↔ name.isWord = true ∧ standard.lookup? name = none := by
  rw [Text.isVariable, Bool.and_eq_true_iff, Bool.and_eq_true_iff, bne_iff_ne, bne_iff_ne, and_assoc]
  refine and_congr_right fun hword => ?_
  rw [standard_eq_none_iff hword]

end Table

end Wff
