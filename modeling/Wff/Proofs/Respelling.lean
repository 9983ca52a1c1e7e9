import Wff.Formula.Traversal
import Wff.Proofs.Alignment
import Wff.Proofs.Standard

/-!
# Wff.Proofs.Respelling — one alias for another

With the usual aliases, a text may be respelled character by character: for an alias of an operator, a
negation mark or a bracket, another alias of the same symbol (`Table.Interchangeable`).  Such
characters are pieces of their own, so words stay as they are and the pieces are alike.  Marks are
written at the same characters, too (`strokesFrom_respelled`), be it that an alias respelled looks like
a mark itself.  So both texts are read alike, and places that belong together are those after equally
many characters (`Text.SamePlace`).
-/

namespace Wff

open Character

/-- The characters are the same, or aliases of one symbol other than a truth constant. -/
def Table.Interchangeable (table : Table) (c d : Char) : Prop :=
  c = d ∨ ∃ s, (∀ value, s ≠ .constant value) ∧ table.glyph? c = some s ∧ table.glyph? d = some s

instance (table : Table) (c d : Char) : Decidable (table.Interchangeable c d) :=
  decidable_of_iff (c = d ∨ ∃ s ∈ table.glyph? c, (∀ value, s ≠ .constant value) ∧
    table.glyph? d = some s) (by simp [Table.Interchangeable, and_left_comm])

namespace Table

/-! ### Characters -/

namespace Interchangeable

variable {table : Table} {c d : Char}

theorem refl (table : Table) (c : Char) : table.Interchangeable c c := Or.inl rfl

theorem glyph?_eq (h : table.Interchangeable c d) : table.glyph? c = table.glyph? d := by
  rcases h with rfl | ⟨s, -, hc, hd⟩
  · rfl
  · rw [hc, hd]

theorem eq_or_signs (h : standard.Interchangeable c d) :
    c = d ∨ ∃ s, standard.Sign c s ∧ standard.Sign d s := by
  rcases h with heq | ⟨s, hs, hc, hd⟩
  · exact Or.inl heq
  · obtain ⟨c', hliteral, hsign⟩ := standard_sign hc hs
    obtain ⟨d', hliteral', hsign'⟩ := standard_sign hd hs
    cases hliteral
    cases hliteral'
    exact Or.inr ⟨s, hsign, hsign'⟩

theorem eq_or_lone (h : standard.Interchangeable c d) : c = d ∨ Lone c ∧ Lone d :=
  h.eq_or_signs.imp_right fun ⟨_, hc, hd⟩ => ⟨⟨hc.ink, hc.continuesWord⟩, hd.ink, hd.continuesWord⟩

theorem isBlank_eq (h : standard.Interchangeable c d) : isBlank c = isBlank d :=
  isBlank_eq_of_respelled (fun _ _ => eq_or_lone) h

theorem endsOperand_eq (h : standard.Interchangeable c d) :
    standard.endsOperand c = standard.endsOperand d := by
  rcases h.eq_or_signs with rfl | ⟨s, hc, hd⟩
  · rfl
  · rw [hc.endsOperand_eq, hd.endsOperand_eq]

theorem startsOperand_eq (h : standard.Interchangeable c d) :
    standard.startsOperand c = standard.startsOperand d := by
  rcases h.eq_or_signs with rfl | ⟨s, hc, hd⟩
  · rfl
  · rw [hc.startsOperand_eq, hd.startsOperand_eq]

end Interchangeable

end Table

/-! ### Strokes -/

inductive Stroke.Alike (C : Char → Char → Prop) : Stroke → Stroke → Prop
  | mark : Stroke.Alike C .mark .mark
  | given {c d : Char} (chars : C c d) : Stroke.Alike C (.given c) (.given d)

namespace Stroke

variable {C : Char → Char → Prop} {strokes strokes' : List Stroke}

theorem shown_alike (hmark : C conjunctionMark conjunctionMark)
    (h : List.Forall₂ (Stroke.Alike C) strokes strokes') :
    List.Forall₂ C (shown strokes) (shown strokes') := by
  induction h with
  | nil => exact .nil
  | cons first others ih =>
    cases first with
    | mark => exact .cons hmark ih
    | given chars => exact .cons chars ih

theorem length_givenText_of_alike (h : List.Forall₂ (Stroke.Alike C) strokes strokes') :
    (givenText strokes).length = (givenText strokes').length := by
  induction h with
  | nil => rfl
  | cons first others ih =>
    cases first with
    | mark => exact ih
    | given chars => exact congrArg (· + 1) ih

end Stroke

namespace Table

theorem strokesFrom_respelled {text text' : Text}
    (h : List.Forall₂ standard.Interchangeable text text') {previous previous' : Option Char}
    (hprevious : previous.any standard.endsOperand = previous'.any standard.endsOperand) :
    List.Forall₂ (Stroke.Alike standard.Interchangeable) (standard.strokesFrom previous text)
      (standard.strokesFrom previous' text') := by
  induction h generalizing previous previous' with
  | nil => exact .nil
  | @cons c d rest rest' first others ih =>
    have hnext : (some c).any standard.endsOperand = (some d).any standard.endsOperand :=
      first.endsOperand_eq
    have hdue : (previous.any standard.endsOperand && standard.startsOperand c) =
        (previous'.any standard.endsOperand && standard.startsOperand d) := by
      rw [hprevious, first.startsOperand_eq]
    by_cases hblank : isBlank c = true
    · rw [strokesFrom_blank hblank, strokesFrom_blank (first.isBlank_eq ▸ hblank)]
      exact .cons (.given first) (ih hprevious)
    · have hblank' : ¬ isBlank d = true := first.isBlank_eq ▸ hblank
      by_cases hmark : (previous.any standard.endsOperand && standard.startsOperand c) = true
      · rw [strokesFrom_marked hblank hmark, strokesFrom_marked hblank' (hdue ▸ hmark)]
        exact .cons .mark (.cons (.given first) (ih hnext))
      · rw [strokesFrom_plain hblank hmark, strokesFrom_plain hblank' (hdue ▸ hmark)]
        exact .cons (.given first) (ih hnext)

/-- Before places that belong together in the texts with marks, equally many characters are given. -/
theorem sameLength_givenText {text text' : Text}
    (h : List.Forall₂ standard.Interchangeable text text') {a b a' b' : List Stroke}
    (hab : standard.strokesFrom none text = a ++ b)
    (hab' : standard.strokesFrom none text' = a' ++ b')
    (hlength : Text.SameLength (Stroke.shown a) (Stroke.shown a')) :
    Text.SameLength (Stroke.givenText a) (Stroke.givenText a') := by
  have hstrokes : List.Forall₂ (Stroke.Alike standard.Interchangeable)
      (standard.strokesFrom none text) (standard.strokesFrom none text') :=
    strokesFrom_respelled h rfl
  have hcut : a.length = a'.length := by simpa [Text.SameLength, Stroke.shown] using hlength
  rw [hab, hab'] at hstrokes
  have hfront := List.forall₂_take_append _ _ _ hstrokes
  rw [← hcut, List.take_left] at hfront
  exact Stroke.length_givenText_of_alike hfront

/-- **Aliases of one symbol are interchangeable.**  With the usual aliases, texts of which one is a
respelling of the other are read as the same formula, or both have a fault of the same kind at places
that belong together. -/
theorem standard_parse_respelled (implicit : Bool) (text text' : Text)
    (h : List.Forall₂ standard.Interchangeable text text') :
    Alike standard.Interchangeable (Text.SamePlace text text') Eq (standard.parse implicit text)
      (standard.parse implicit text') := by
  have hrefl := Interchangeable.refl standard
  have hglyph : ∀ c d, standard.Interchangeable c d → standard.glyph? c = standard.glyph? d :=
    fun c d hcd => hcd.glyph?_eq
  have hchars : ∀ c d, standard.Interchangeable c d → c = d ∨ Lone c ∧ Lone d :=
    fun c d hcd => hcd.eq_or_lone
  cases implicit with
  | false =>
    exact parseExplicit_alike hrefl hglyph (lexemesFrom_respelled hchars h (Text.aligned_places text text'))
      (Text.places_end h.length_eq trivial)
  | true =>
    have hshown : List.Forall₂ standard.Interchangeable (standard.reveal text).text
        (standard.reveal text').text := by
      rw [reveal_eq, reveal_eq]
      exact Stroke.shown_alike (hrefl _) (strokesFrom_respelled h rfl)
    refine parse_implicit_alike ?_ hrefl hglyph (fun P hplaces => lexemesFrom_respelled hchars hshown hplaces)
      hshown.length_eq trivial
    intro a b a' b' hab hab' hlength _
    exact ⟨sameLength_givenText h hab hab' hlength, trivial⟩

/-- `(p q.r)` and the same in other brackets and with `∧`; with a disjunction after it, an operand is
missing at the end of both. -/
theorem standard_parse_respelled_cross_style :
    let text : Text := ['(', 'p', ' ', 'q', '.', 'r', ')']
    let text' : Text := ['[', 'p', ' ', 'q', '∧', 'r', '\x7d']
    let f : Formula := .binary .and (.binary .and (.var ['p']) (.var ['q'])) (.var ['r'])
    List.Forall₂ standard.Interchangeable (text ++ ['+']) (text' ++ ['∨']) ∧
      standard.parse true text = .ok f ∧ standard.parse true text' = .ok f ∧
      standard.parse true (text ++ ['+']) = .error (.missingOperand 8) ∧
      ∃ offset, standard.parse true (text' ++ ['∨']) = .error (.missingOperand offset) ∧
        Text.SamePlace (text ++ ['+']) (text' ++ ['∨']) 8 offset := by
  intro text text' f
  have hspelled : List.Forall₂ standard.Interchangeable text text' := by decide +kernel
  have hlonger : List.Forall₂ standard.Interchangeable (text ++ ['+']) (text' ++ ['∨']) := by
    decide +kernel
  have hread : standard.parse true text = .ok f := by decide +kernel
  have hfault : standard.parse true (text ++ ['+']) = .error (.missingOperand 8) := by
    decide +kernel
  have hsame := standard_parse_respelled true _ _ hspelled
  have hlike := standard_parse_respelled true _ _ hlonger
  rw [hread] at hsame
  rw [hfault] at hlike
  obtain ⟨fault, hfault', hplaces⟩ := hlike.exists_error
  cases hplaces with
  | missingOperand hplace => exact ⟨hlonger, hread, hsame.eq_ok, hfault, _, hfault', hplace⟩

end Table

end Wff
