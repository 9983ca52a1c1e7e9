import Wff.Formula.Traversal
import Wff.Proofs.Derivation

/-!
# Wff.Proofs.Substitution — formulas in place of variables

A variable is an operand of one token, and a formula in brackets is an operand as well.  So where
operands take the place of variables among the tokens, the same derivation derives the formula with
the formulas of these operands in place of its variables (`Derives.subst`), at every level and
whatever stands around them.
-/

namespace Wff

namespace Formula

def subst (value : Text → Formula) : Formula → Formula
  | var name => value name
  | const b => const b
  | not operand => not (operand.subst value)
  | binary c left right => binary c (left.subst value) (right.subst value)

def substOne (f : Formula) (name : Text) (g : Formula) : Formula :=
  f.subst fun other => if other = name then g else var other

theorem subst_negated (value : Text → Formula) (n : Nat) (f : Formula) :
    (f.negated n).subst value = (f.subst value).negated n := by
  induction n generalizing f with
  | zero => rfl
  | succ n ih => exact ih (.not f)

end Formula

theorem Kind.join?_subst {kind : Kind} {f g joined : Formula} (h : kind.join? f g = some joined)
    (value : Text → Formula) :
    kind.join? (f.subst value) (g.subst value) = some (joined.subst value) := by
  cases kind <;> cases h <;> rfl

namespace Meaning

/-- What takes the place of a token: other tokens if it is a variable, else itself. -/
def subst (spelling : Text → List Meaning) : Meaning → List Meaning
  | var name => spelling name
  | m => [m]

/-- What takes the place of a token: tokens in brackets if it is a variable of the name, else
itself. -/
def substOne (name : Text) (inside : List Meaning) : Meaning → List Meaning :=
  subst fun other =>
    if other = name then .symbol .opening :: (inside ++ [.symbol .closing]) else [var other]

theorem subst_symbol (spelling : Text → List Meaning) (s : Symbol) :
    subst spelling (.symbol s) = [.symbol s] := rfl

theorem flatMap_subst_replicate (spelling : Text → List Meaning) (n : Nat) (s : Symbol) :
    (List.replicate n (symbol s)).flatMap (subst spelling) = List.replicate n (symbol s) := by
  induction n with
  | zero => rfl
  | succ n ih => rw [List.replicate_succ, List.flatMap_cons, ih, subst_symbol, List.singleton_append]

end Meaning

/-- **Substitution.**  If an operand is put in the place of each variable, the tokens derive the
formula with the formulas of the operands in place of its variables. -/
theorem Derives.subst {value : Text → Formula} {spelling : Text → List Meaning}
    (hoperand : ∀ name, Derives .primary (spelling name) (value name)) {level : Level}
    {meanings : List Meaning} {f : Formula} (h : Derives level meanings f) :
    Derives level (meanings.flatMap (Meaning.subst spelling)) (f.subst value) := by
  induction h with
  | var name =>
    rw [List.flatMap_singleton]
    exact hoperand name
  | const b => exact Derives.const b
  | brackets content ih =>
    rw [List.flatMap_cons, List.flatMap_append, List.flatMap_singleton, Meaning.subst_symbol,
      Meaning.subst_symbol]
    exact Derives.brackets ih
  | marks before after marked ih =>
    rw [List.flatMap_append, List.flatMap_append, Meaning.flatMap_subst_replicate,
      Meaning.flatMap_subst_replicate, Formula.subst_negated]
    exact Derives.marks before after ih
  | operand chain single ih => exact Derives.operand chain ih
  | link chain ofBand shorter last join ihLeft ihRight =>
    rw [List.flatMap_append, List.flatMap_cons, Meaning.subst_symbol]
    exact Derives.link chain ofBand ihLeft ihRight (Kind.join?_subst join value)

theorem Derives.substOne {level : Level} {meanings inside : List Meaning} {f g : Formula}
    (h : Derives level meanings f) (hinside : Derives .biconditional inside g) (name : Text) :
    Derives level (meanings.flatMap (Meaning.substOne name inside)) (f.substOne name g) := by
  apply h.subst
  intro other
  by_cases hname : other = name
  · rw [if_pos hname, if_pos hname]
    exact Derives.brackets hinside
  · rw [if_neg hname, if_neg hname]
    exact Derives.var other

/-! ### Lists of tokens -/

theorem Meaning.stop_notMem_substOne {meanings inside : List Meaning} (h : .stop ∉ meanings)
    (hinside : .stop ∉ inside) (name : Text) : .stop ∉ meanings.flatMap (substOne name inside) := by
  intro hstop
  obtain ⟨m, hm, hmem⟩ := List.mem_flatMap.mp hstop
  cases m with
  | stop => exact h hm
  | symbol s => simp [substOne, subst_symbol] at hmem
  | var other =>
    dsimp only [substOne, subst] at hmem
    by_cases hname : other = name
    · rw [if_pos hname] at hmem
      simp [hinside] at hmem
    · rw [if_neg hname] at hmem
      simp at hmem

/-- **Substitution law.**  Where each variable of one name among tokens that are read as `f` gives way
to tokens read as `g` in brackets, however the new tokens are written and wherever they stand, the
list is read as `f` with `g` in place of the variable. -/
theorem Formula.ofTokens_substOne (name : Text) (tokens inside replaced : List Token)
    (f g : Formula) (htokens : ∀ token ∈ tokens, token.isStop = false)
    (hinside : ∀ token ∈ inside, token.isStop = false) (hf : Formula.ofTokens tokens = .ok f)
    (hg : Formula.ofTokens inside = .ok g)
    (hreplaced : replaced.map Token.meaning =
      (tokens.map Token.meaning).flatMap
        (Meaning.substOne name (inside.map Token.meaning))) :
    Formula.ofTokens replaced = .ok (f.substOne name g) := by
  have hderives := derives_of_ofTokens hf
  have hcontent := derives_of_ofTokens hg
  rw [meaningsBeforeStop_of_isStop htokens] at hderives
  rw [meaningsBeforeStop_of_isStop hinside] at hcontent
  have hstops : ∀ token ∈ replaced, token.isStop = false := by
    rw [isStop_eq_false_iff] at htokens hinside ⊢
    rw [hreplaced]
    exact Meaning.stop_notMem_substOne htokens hinside name
  apply ofTokens_of_derives
  rw [meaningsBeforeStop_of_isStop hstops, hreplaced]
  exact hderives.substOne hcontent name

/-- In `¬p′ ← p` both variables give way to `q ∨ r`, in brackets of two styles; a converse exchanges
its operands. -/
theorem Formula.ofTokens_substOne_converse :
    let p : Formula := .var ['p']
    let g : Formula := .binary .or (.var ['q']) (.var ['r'])
    let before : Token := ⟨.symbol .negationBefore, ['¬'], 0⟩
    let after : Token := ⟨.symbol .negationAfter, ['′'], 3⟩
    let sign : Token := ⟨.symbol (.operator .converse), ['←'], 7⟩
    let tokens : List Token := [before, ⟨.var ['p'], ['p'], 2⟩, after, sign, ⟨.var ['p'], ['p'], 11⟩]
    let inside : List Token :=
      [⟨.var ['q'], ['q'], 0⟩, ⟨.symbol (.operator .or), ['∨'], 2⟩, ⟨.var ['r'], ['r'], 6⟩]
    let replaced : List Token :=
      [before, ⟨.symbol .opening, ['['], 2⟩] ++ inside ++ [⟨.symbol .closing, [']'], 9⟩, after, sign,
        ⟨.symbol .opening, ['('], 11⟩] ++ inside ++ [⟨.symbol .closing, [')'], 20⟩]
    Formula.ofTokens tokens = .ok (.binary .implies p (.not (.not p))) ∧
      Formula.ofTokens inside = .ok g ∧
      Formula.ofTokens replaced = .ok (.binary .implies g (.not (.not g))) := by
  intro p g before after sign tokens inside replaced
  have htokens : Formula.ofTokens tokens = .ok (.binary .implies p (.not (.not p))) := by
    decide +kernel
  have hinside : Formula.ofTokens inside = .ok g := by
    decide +kernel
  refine ⟨htokens, hinside, ?_⟩
  exact ofTokens_substOne ['p'] tokens inside replaced _ g (by decide) (by decide) htokens hinside
    (by decide)

end Wff
