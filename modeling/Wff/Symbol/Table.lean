import Wff.Fault.Basic
import Wff.Symbol.Basic

/-!
# Wff.Symbol.Table — aliases and the symbols they stand for

A table is built from lists of literals, one list a symbol.  No literal may stand twice, whether for
one symbol or for two; so a table is a partial function from literals to symbols.
-/

namespace Wff

/-- Literals with the symbol that each list of them stands for. -/
abbrev Aliases := List (Symbol × List Text)

def Aliases.entries (aliases : Aliases) : List (Text × Symbol) :=
  aliases.flatMap fun (symbol, literals) => literals.map fun literal => (literal, symbol)

/-- The first literal that equals one before it or one of those seen. -/
def firstRepeat? (seen : List Text) : List Text → Option Text
  | [] => none
  | literal :: rest => if seen.contains literal then some literal else firstRepeat? (literal :: seen) rest

theorem nodup_of_firstRepeat?_eq_none {seen literals : List Text}
    (h : firstRepeat? seen literals = none) :
    literals.Nodup ∧ ∀ literal ∈ literals, literal ∉ seen := by
  induction literals generalizing seen with
  | nil => simp
  | cons literal rest ih =>
    simp only [firstRepeat?] at h
    split at h
    · cases h
    · rename_i fresh
      obtain ⟨nodup, apart⟩ := ih h
      refine ⟨List.nodup_cons.2 ⟨fun mem => apart literal mem List.mem_cons_self, nodup⟩, ?_⟩
      intro other mem
      rcases List.mem_cons.1 mem with rfl | mem
      · simpa using fresh
      · exact fun inSeen => apart other mem (List.mem_cons_of_mem _ inSeen)

/-- Literals with their symbols; no literal stands twice. -/
structure Table where
  entries : List (Text × Symbol)
  nodup : (entries.map Prod.fst).Nodup

namespace Table

/-- The table of the given aliases, unless a literal stands twice. -/
def ofAliases (aliases : Aliases) : Except Fault Table :=
  match h : firstRepeat? [] (aliases.entries.map Prod.fst) with
  | some literal => .error (.ambiguousAlias literal)
  | none => .ok ⟨aliases.entries, (nodup_of_firstRepeat?_eq_none h).1⟩

def lookup? (table : Table) (literal : Text) : Option Symbol :=
  table.entries.lookup literal

/-- In a list without repeated keys, looking up a key finds every pair with it. -/
theorem lookup_eq_some_iff_mem {entries : List (Text × Symbol)}
    (nodup : (entries.map Prod.fst).Nodup) {literal : Text} {s : Symbol} :
    entries.lookup literal = some s ↔ (literal, s) ∈ entries := by
  induction entries with
  | nil => simp
  | cons entry rest ih =>
    obtain ⟨key, value⟩ := entry
    obtain ⟨fresh, nodup⟩ := List.nodup_cons.1 nodup
    rw [List.lookup_cons]
    by_cases h : literal = key
    · subst h
      have absent : (literal, s) ∉ rest := fun mem =>
        fresh (List.mem_map.2 ⟨_, mem, rfl⟩)
      simp [absent, eq_comm]
    · simp [beq_eq_false_iff_ne.2 h, ih nodup, h]

theorem lookup?_eq_some_iff (table : Table) {literal : Text} {s : Symbol} :
    table.lookup? literal = some s ↔ (literal, s) ∈ table.entries :=
  lookup_eq_some_iff_mem table.nodup

def glyph? (table : Table) (c : Char) : Option Symbol := table.lookup? [c]

def resolve? (table : Table) (literal : Text) : Option Kind :=
  (table.lookup? literal).bind Symbol.kind?

/-- All literals that denote a kind, in order of code points. -/
def literals (table : Table) (kind : Kind) : List Text :=
  ((table.entries.filter fun entry => entry.2.kind? = some kind).map Prod.fst).mergeSort
    fun a b => !Text.precedes b a

def size (table : Table) : Nat := table.entries.length

def isEmpty (table : Table) : Bool := table.entries.isEmpty

end Table

end Wff
