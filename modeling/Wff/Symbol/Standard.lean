import Wff.Symbol.Table

/-!
# Wff.Symbol.Standard — the usual aliases

The glyphs of several schools of writing: algebraic (`+ . '`), programming (`& | ! ^`) and logical
(`∧ ∨ ¬ →`), three styles of bracket, and `T`, `F`, `1`, `0` for the truth constants.
-/

namespace Wff

/-- The usual aliases, the negations first. -/
def standardAliases : Aliases :=
  [(.negationBefore, [['~'], ['!'], ['-'], ['¬'], ['−']]),
   (.negationAfter, [['\x27'], ['′'], ['\u0305']]),
   (.operator .and, [['.'], ['&'], ['*'], ['∧'], ['·'], ['×']]),
   (.operator .nand, [['|'], ['↑'], ['⊼']]),
   (.operator .xor, [['^'], ['⊕'], ['⊻']]),
   (.operator .xnor, [['⊙']]),
   (.operator .or, [['+'], ['∨'], ['∥']]),
   (.operator .nor, [['↓'], ['⊽']]),
   (.operator .implies, [['>'], ['→'], ['⇒'], ['⊃']]),
   (.operator .nonImplication, [['↛'], ['⇏'], ['⊅']]),
   (.operator .converse, [['<'], ['←'], ['⇐'], ['⊂']]),
   (.operator .nonConverse, [['↚'], ['⇍'], ['⊄']]),
   (.operator .iff, [['↔'], ['⇔']]),
   (.operator .nonIff, [['↮'], ['⇎']]),
   (.constant true, [['1'], ['T'], ['⊤']]),
   (.constant false, [['0'], ['F'], ['⊥']]),
   (.opening, [['('], ['['], ['\x7b']]),
   (.closing, [[')'], [']'], ['\x7d']])]

def Table.standard : Table := ⟨standardAliases.entries, by decide⟩

theorem Table.ofAliases_standardAliases : Table.ofAliases standardAliases = .ok standard := by
  rfl

end Wff
