import Mathlib.Tactic.Tauto
import Wff.Proofs.Spacing
import Wff.Proofs.Standard

/-!
# Wff.Proofs.Idempotence — texts to which no mark is added

A text is settled if in it, white space aside, no operand begins right after another
(`Table.Settled`).  These are the texts that revealing leaves as they are (`reveal_eq_self_iff`).  What
revealing yields is settled if no operand begins or ends with the mark itself
(`settled_reveal`), and else `ab` gets a second mark beside the first.  So revealing twice is revealing
once for all texts just if the table makes the mark neither a bracket nor a negation
(`reveal_reveal_iff`).
-/

namespace Wff

open Character

namespace Stroke

theorem eq_map_given_of_marksFrom {here : Nat} {strokes : List Stroke}
    (h : marksFrom here strokes = []) : strokes = (givenText strokes).map given := by
  induction strokes generalizing here with
  | nil => rfl
  | cons stroke strokes ih =>
    cases stroke with
    | mark => cases h
    | given c => rw [givenText_given, List.map_cons, ← ih h]

theorem shown_map_given (text : Text) : shown (text.map given) = text := by
  rw [shown, List.map_map]
  exact List.map_id _

theorem marksFrom_map_given (here : Nat) (text : Text) : marksFrom here (text.map given) = [] := by
  induction text generalizing here with
  | nil => rfl
  | cons c rest ih => exact ih _

end Stroke

namespace Table

variable (table : Table)

/-- Between the two characters, the first of which ends an operand, a conjunction was left out. -/
def LeftOut (p c : Char) : Prop := table.endsOperand p = true ∧ table.startsOperand c = true

/-- White space aside, no operand begins right after another. -/
def Settled (text : Text) : Prop := text.ink.IsChain fun p c => ¬ table.LeftOut p c

/-! ### Texts that stay as they are -/

/-- No mark is written just if nowhere a conjunction was left out, `previous` being the last character
not blank before the text. -/
theorem strokesFrom_eq_map_given_iff (previous : Option Char) (text : Text) :
    table.strokesFrom previous text = text.map .given ↔
      (previous.toList ++ text.ink).IsChain fun p c => ¬ table.LeftOut p c := by
  fun_induction strokesFrom table previous text with
  | case1 previous => cases previous <;> simp [Text.ink]
  | case2 previous c rest hblank ih =>
    rw [Text.ink_cons_blank hblank, ← ih, List.map_cons, List.cons_inj_right]
  | case3 previous c rest hblank hmark ih =>
    -- a mark is written, and the two characters around it were the left-out conjunction
    have hc : isBlank c = false := by simpa using hblank
    obtain ⟨hends, hstarts⟩ := Bool.and_eq_true_iff.mp hmark
    refine iff_of_false (by simp) ?_
    cases previous with
    | none => cases hends
    | some p =>
      rw [Text.ink_cons hc]
      intro hchain
      exact (List.isChain_cons_cons.mp hchain).1 ⟨hends, hstarts⟩
  | case4 previous c rest hblank hmark ih =>
    have hc : isBlank c = false := by simpa using hblank
    rw [Text.ink_cons hc, List.map_cons, List.cons_inj_right, ih]
    cases previous with
    | none => rfl
    | some p =>
      have hnot : ¬ table.LeftOut p c := fun h => hmark (Bool.and_eq_true_iff.mpr h)
      show _ ↔ (p :: c :: Text.ink rest).IsChain _
      rw [List.isChain_cons_cons]
      exact (and_iff_right hnot).symm

/-- **The settled texts are those that revealing leaves as they are.** -/
theorem reveal_eq_self_iff (text : Text) : table.reveal text = ⟨text, #[]⟩ ↔ table.Settled text := by
  have hsettled := table.strokesFrom_eq_map_given_iff none text
  rw [Option.toList_none, List.nil_append] at hsettled
  rw [Settled, ← hsettled, reveal_eq]
  constructor
  · intro h
    obtain ⟨-, hmarks⟩ := Revealed.mk.inj h
    have hnone : Stroke.marksFrom 0 (table.strokesFrom none text) = [] := by simpa using hmarks
    have hstrokes := Stroke.eq_map_given_of_marksFrom hnone
    rwa [givenText_strokesFrom] at hstrokes
  · intro h
    rw [h, Stroke.shown_map_given, Stroke.marksFrom_map_given]

theorem reveal_eq_self_of_marks {text : Text} (h : (table.reveal text).marks = #[]) :
    table.reveal text = ⟨text, #[]⟩ := by
  rw [reveal_eq] at h ⊢
  have hnone : Stroke.marksFrom 0 (table.strokesFrom none text) = [] := by simpa using h
  rw [hnone, Stroke.shown_eq_givenText hnone, givenText_strokesFrom]

/-- A mark makes the text longer, so a text that stays the same has got none. -/
theorem reveal_eq_self_of_text {text : Text} (h : (table.reveal text).text = text) :
    table.reveal text = ⟨text, #[]⟩ := by
  apply reveal_eq_self_of_marks
  rw [reveal_eq] at h ⊢
  have hlength := Stroke.byteLength_shown 0 (table.strokesFrom none text)
  rw [givenText_strokesFrom, show Stroke.shown (table.strokesFrom none text) = text from h] at hlength
  have hnone : Stroke.marksFrom 0 (table.strokesFrom none text) = [] :=
    List.eq_nil_of_length_eq_zero (by omega)
  rw [hnone]

/-! ### What revealing yields -/

theorem isAlphanumeric_mark : isAlphanumeric conjunctionMark = false := by
  decide +kernel

/-- No operand begins or ends with the mark just if the table makes it neither a bracket nor a
negation. -/
theorem operand_mark_iff : table.endsOperand conjunctionMark = false ∧
      table.startsOperand conjunctionMark = false ↔
    table.glyph? conjunctionMark ∉
      [some .negationBefore, some .negationAfter, some .opening, some .closing] := by
  rw [← Bool.not_eq_true, ← Bool.not_eq_true, endsOperand, startsOperand, isAlphanumeric_mark]
  simp only [Bool.false_or, Bool.or_eq_true, beq_iff_eq, List.mem_cons, List.not_mem_nil, or_false]
  tauto

section Plain

variable {table} (hends : table.endsOperand conjunctionMark = false)
  (hstarts : table.startsOperand conjunctionMark = false)
include hends hstarts

/-- If no operand begins or ends with the mark, marks part operands for good. -/
theorem isChain_ink_strokesFrom (previous : Option Char) (text : Text) :
    (previous.toList ++ (Stroke.shown (table.strokesFrom previous text)).ink).IsChain
      fun p c => ¬ table.LeftOut p c := by
  fun_induction strokesFrom table previous text with
  | case1 previous => cases previous <;> simp [Text.ink]
  | case2 previous c rest hblank ih =>
    rw [Stroke.shown_cons, Stroke.char, Text.ink_cons_blank hblank]
    exact ih
  | case3 previous c rest hblank hmark ih =>
    have hc : isBlank c = false := by simpa using hblank
    rw [Stroke.shown_cons, Stroke.shown_cons, Stroke.char, Stroke.char, Text.ink_cons isBlank_mark,
      Text.ink_cons hc]
    -- neither neighbour makes another pair with the mark
    have hbefore : ∀ p, ¬ table.LeftOut p conjunctionMark := by
      rintro p ⟨-, h⟩
      rw [hstarts] at h
      cases h
    have hafter : ¬ table.LeftOut conjunctionMark c := by
      rintro ⟨h, -⟩
      rw [hends] at h
      cases h
    have hrest : (conjunctionMark :: c :: (Stroke.shown (table.strokesFrom (some c) rest)).ink).IsChain
        fun p c => ¬ table.LeftOut p c := List.isChain_cons_cons.mpr ⟨hafter, ih⟩
    cases previous with
    | none => exact hrest
    | some p => exact List.isChain_cons_cons.mpr ⟨hbefore p, hrest⟩
  | case4 previous c rest hblank hmark ih =>
    have hc : isBlank c = false := by simpa using hblank
    rw [Stroke.shown_cons, Stroke.char, Text.ink_cons hc]
    cases previous with
    | none => exact ih
    | some p =>
      have hnot : ¬ table.LeftOut p c := fun h => hmark (Bool.and_eq_true_iff.mpr h)
      exact List.isChain_cons_cons.mpr ⟨hnot, ih⟩

theorem settled_reveal (text : Text) : table.Settled (table.reveal text).text := by
  rw [reveal_eq]
  exact isChain_ink_strokesFrom hends hstarts none text

end Plain

theorem reveal_letters : (table.reveal ['a', 'b']).text = ['a', conjunctionMark, 'b'] := by
  have hblank : isBlank 'a' = false ∧ isBlank 'b' = false := by
    decide +kernel
  have hletters : isAlphanumeric 'a' = true ∧ isAlphanumeric 'b' = true := by
    decide +kernel
  have hmark : ((some 'a').any table.endsOperand && table.startsOperand 'b') = true := by
    simp [endsOperand, startsOperand, hletters]
  rw [reveal_eq]
  show Stroke.shown (table.strokesFrom none ['a', 'b']) = _
  rw [strokesFrom_plain (by simp [hblank]) (by simp), strokesFrom_marked (by simp [hblank]) hmark]
  rfl

/-- If `ab` is settled once its mark is written, the mark neither begins nor ends an operand. -/
theorem operand_mark_of_settled (h : table.Settled (table.reveal ['a', 'b']).text) :
    table.endsOperand conjunctionMark = false ∧ table.startsOperand conjunctionMark = false := by
  have hletters : isAlphanumeric 'a' = true ∧ isAlphanumeric 'b' = true := by
    decide +kernel
  have hink : Text.ink ['a', conjunctionMark, 'b'] = ['a', conjunctionMark, 'b'] := by
    decide +kernel
  rw [reveal_letters, Settled, hink, List.isChain_cons_cons, List.isChain_pair] at h
  obtain ⟨hbefore, hafter⟩ := h
  have hends : table.endsOperand 'a' = true := by simp [endsOperand, hletters]
  have hstarts : table.startsOperand 'b' = true := by simp [startsOperand, hletters]
  exact ⟨Bool.eq_false_iff.mpr fun hmark => hafter ⟨hmark, hstarts⟩,
    Bool.eq_false_iff.mpr fun hmark => hbefore ⟨hends, hmark⟩⟩

/-- **Revealing twice is revealing once** for all texts just if the table makes the mark neither a
bracket nor a negation; else some text gets more marks each time.  The usual aliases make it a
conjunction, and a table that does not know it has no other use for it. -/
theorem reveal_reveal_iff (table : Table) :
    ((∀ text, (table.reveal (table.reveal text).text).text = (table.reveal text).text) ↔
      table.glyph? conjunctionMark ∉
        [some .negationBefore, some .negationAfter, some .opening, some .closing]) ∧
    ((∀ text, table.reveal (table.reveal text).text = ⟨(table.reveal text).text, #[]⟩) ↔
      table.glyph? conjunctionMark ∉
        [some .negationBefore, some .negationAfter, some .opening, some .closing]) ∧
    (∀ text, standard.reveal (standard.reveal text).text = ⟨(standard.reveal text).text, #[]⟩) ∧
    (table.glyph? conjunctionMark = none →
      ∀ text, table.reveal (table.reveal text).text = ⟨(table.reveal text).text, #[]⟩) := by
  have hsettled : ∀ table : Table, table.glyph? conjunctionMark ∉
      [some .negationBefore, some .negationAfter, some .opening, some .closing] →
      ∀ text, table.reveal (table.reveal text).text = ⟨(table.reveal text).text, #[]⟩ := by
    intro table hmark text
    obtain ⟨hends, hstarts⟩ := table.operand_mark_iff.mpr hmark
    exact (table.reveal_eq_self_iff _).mpr (settled_reveal hends hstarts text)
  -- one text is enough for the converse, since every table marks `ab`
  have hletters : (table.reveal (table.reveal ['a', 'b']).text).text = (table.reveal ['a', 'b']).text →
      table.glyph? conjunctionMark ∉
        [some .negationBefore, some .negationAfter, some .opening, some .closing] := by
    intro hsame
    have hself := table.reveal_eq_self_of_text hsame
    have hsettled := (table.reveal_eq_self_iff _).mp hself
    exact table.operand_mark_iff.mp (table.operand_mark_of_settled hsettled)
  refine ⟨⟨fun h => hletters (h _), fun hmark text => ?_⟩,
    ⟨fun h => hletters ?_, hsettled table⟩, hsettled standard ?_, fun hnone => hsettled table ?_⟩
  · rw [hsettled table hmark text]
  · rw [h]
  · rw [standard_mark.2.2]
    simp
  · rw [hnone]
    simp

/-- Where the mark closes brackets, `ab` gets another mark each time; a table without aliases never
writes a mark beside a mark. -/
theorem reveal_reveal_closing :
    let closing : Table := ⟨[([conjunctionMark], .closing)], by decide⟩
    let bare : Table := ⟨[], by decide⟩
    ¬ (∀ text, (closing.reveal (closing.reveal text).text).text = (closing.reveal text).text) ∧
    bare.glyph? conjunctionMark = none ∧
    ∀ text, bare.reveal (bare.reveal text).text = ⟨(bare.reveal text).text, #[]⟩ := by
  intro closing bare
  have hclosing : closing.glyph? conjunctionMark = some .closing := by decide
  have hbare : bare.glyph? conjunctionMark = none := rfl
  refine ⟨fun hall => ?_, hbare, (reveal_reveal_iff bare).2.2.2 hbare⟩
  have hmark := (reveal_reveal_iff closing).1.mp hall
  rw [hclosing] at hmark
  exact hmark (by simp)

end Table

end Wff
