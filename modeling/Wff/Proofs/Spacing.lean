import Mathlib.Data.List.Chain
import Wff.Formula.Traversal
import Wff.Proofs.Alignment
import Wff.Symbol.Standard

/-!
# Wff.Proofs.Spacing — white space where conjunctions may be left out

Where marks are written, white space makes no difference: between two characters of words, neither of
them an underscore, there is a mark whether they touch or not.  So in the text with marks no two
characters of words touch (`separate_strokesFrom`), and its pieces are its characters other than blanks
(`lexemesFrom_cons_of_separate`).  Marks do not depend on blanks either (`ink_strokesFrom`); so texts of
the same `Text.ink` are read alike, and places that belong together are those of the same character that
is not blank (`Text.SameInkPlace`).
-/

namespace Wff

open Character

namespace Text

/-! ### Ink -/

def ink (text : Text) : Text := text.filter (!isBlank ·)

def SameInk (text text' : Text) : Prop := text.ink = text'.ink

/-- The texts begin with the same character, which is not blank, or both are empty. -/
def SameHead (text text' : Text) : Prop := text.head? = text'.head? ∧ Stops isBlank text

/-- The byte offsets lie at the same character that is not blank, or both at the end. -/
def SameInkPlace : Text → Text → Nat → Nat → Prop := Places SameInk SameHead

@[simp] theorem ink_append (a b : Text) : ink (a ++ b) = ink a ++ ink b := List.filter_append ..

theorem ink_cons_blank {c : Char} (h : isBlank c = true) (text : Text) : ink (c :: text) = ink text :=
  List.filter_cons_of_neg (by simp [h])

theorem ink_cons {c : Char} (h : isBlank c = false) (text : Text) :
    ink (c :: text) = c :: ink text :=
  List.filter_cons_of_pos (by simp [h])

theorem ink_of_blank {text : Text} (h : text.Blank) : ink text = [] :=
  List.filter_eq_nil_iff.mpr fun c hc => by simp [h c hc]

theorem exists_of_ink_eq_cons {text rest : Text} {c : Char} (h : ink text = c :: rest) :
    ∃ blanks after : Text, text = blanks ++ c :: after ∧ blanks.Blank ∧ isBlank c = false ∧
      ink after = rest := by
  obtain ⟨blanks, after, rfl, hblanks, hc, hrest⟩ := List.filter_eq_cons_iff.mp h
  exact ⟨blanks, after, rfl, by simpa [Blank] using hblanks, by simpa using hc, hrest⟩

theorem blank_of_ink_eq_nil {text : Text} (h : ink text = []) : text.Blank := by
  simpa [Blank] using List.filter_eq_nil_iff.mp h

theorem head?_ink {text : Text} (h : Stops isBlank text) : (ink text).head? = text.head? := by
  cases text with
  | nil => rfl
  | cons c rest =>
    rw [ink_cons (stops_cons.mp h)]
    rfl

/-! ### Characters that do not touch -/

/-- No two characters of words touch each other. -/
def Separate (text : Text) : Prop :=
  text.IsChain fun c d => continuesWord c = true → continuesWord d = false

theorem separate_cons_iff {c : Char} {rest : Text} :
    Separate (c :: rest) ↔ (continuesWord c = true → Stops continuesWord rest) ∧ Separate rest := by
  rw [Separate, List.isChain_cons]
  refine and_congr_left fun _ => ?_
  exact ⟨fun h hc d hd => h d hd hc, fun h d hd hc => h hc d hd⟩

theorem Separate.of_append {a b : Text} (h : Separate (a ++ b)) : Separate b :=
  (List.isChain_append.mp h).2.1

def single (c : Char) (here : Nat) : Lexeme := if startsWord c then .word [c] here else .glyph c here

theorem lexemesFrom_cons_of_separate {c : Char} {rest : Text} (hc : isBlank c = false)
    (h : Separate (c :: rest)) (here : Nat) :
    lexemesFrom here (c :: rest) = single c here :: lexemesFrom (here + c.utf8Size) rest := by
  by_cases hstart : startsWord c = true
  · have hstops := (separate_cons_iff.mp h).1 (continuesWord_of_startsWord hstart)
    have hword : rest.takeWhile continuesWord = [] := hstops.takeWhile_append []
    have hafter : rest.dropWhile continuesWord = rest := hstops.dropWhile_append []
    rw [lexemesFrom_letter hstart, hword, hafter, single, if_pos hstart]
    simp
  · rw [lexemesFrom_glyph hc (by simpa using hstart), single, if_neg hstart]

theorem single_alike {P : Nat → Nat → Prop} {here here' : Nat} (h : P here here') (c : Char) :
    Lexeme.Alike Eq P (single c here) (single c here') := by
  unfold single
  split
  · exact .word _ h
  · exact .glyph rfl h

theorem Aligned.of_same_ink {P : Nat → Nat → Prop} {here here' : Nat} {front front' text text' : Text}
    (h : Aligned SameInk SameHead P here here' (front ++ text) (front' ++ text'))
    (hfront : SameInk front front') :
    Aligned SameInk SameHead P (here + byteLength front) (here' + byteLength front') text text' := by
  refine h.of_append fun before before' hbefore => ?_
  rw [SameInk, ink_append, ink_append, hfront, hbefore]

/-- Texts of the same ink have the same pieces, if no two characters of words touch in them. -/
theorem lexemesFrom_respaced {P : Nat → Nat → Prop} {here here' : Nat} {text text' : Text}
    (hink : SameInk text text') (hseparate : Separate text) (hseparate' : Separate text')
    (hplaces : Aligned SameInk SameHead P here here' text text') :
    List.Forall₂ (Lexeme.Alike Eq P) (text.lexemesFrom here) (text'.lexemesFrom here') := by
  induction text generalizing here here' text' with
  | nil =>
    rw [lexemesFrom_of_blank (blank_of_ink_eq_nil hink.symm), lexemesFrom]
    exact .nil
  | cons c rest ih =>
    obtain ⟨-, hrest⟩ := separate_cons_iff.mp hseparate
    by_cases hc : isBlank c = true
    · have hmoved : Aligned SameInk SameHead P here here' ([c] ++ rest) ([] ++ text') := hplaces
      have hfront : SameInk [c] [] := ink_cons_blank hc []
      rw [SameInk, ink_cons_blank hc] at hink
      rw [lexemesFrom_blank hc]
      exact ih hink hrest hseparate' (by simpa using hmoved.of_same_ink hfront)
    · -- the other text has the same character here, after some blanks
      have hc : isBlank c = false := by simpa using hc
      rw [SameInk, ink_cons hc] at hink
      obtain ⟨blanks, after, rfl, hblanks, -, hafter⟩ := exists_of_ink_eq_cons hink.symm
      have hfirst : P (here + byteLength []) (here' + byteLength blanks) :=
        Aligned.at_cut hplaces (ink_of_blank hblanks).symm ⟨rfl, stops_cons.mpr hc⟩
      have hmoved : Aligned SameInk SameHead P here here' ([c] ++ rest) ((blanks ++ [c]) ++ after) := by
        rwa [← List.append_cons]
      have hfront : SameInk [c] (blanks ++ [c]) := by
        rw [SameInk, ink_append, ink_of_blank hblanks, List.nil_append]
      rw [lexemesFrom_blanks hblanks, lexemesFrom_cons_of_separate hc hseparate,
        lexemesFrom_cons_of_separate hc hseparate'.of_append]
      refine .cons (single_alike hfirst c) (ih hafter.symm hrest ?_ ?_)
      · exact (separate_cons_iff.mp hseparate'.of_append).2
      · simpa [Nat.add_assoc] using hmoved.of_same_ink hfront

end Text

/-! ### Marks -/

namespace Stroke

def ink (strokes : List Stroke) : List Stroke := strokes.filter (!isBlank ·.char)

theorem ink_shown (strokes : List Stroke) : Text.ink (shown strokes) = shown (ink strokes) :=
  List.filter_map

theorem ink_mark (strokes : List Stroke) : ink (mark :: strokes) = mark :: ink strokes :=
  List.filter_cons_of_pos (by simp [char, isBlank_mark])

theorem ink_given {c : Char} (h : isBlank c = false) (strokes : List Stroke) :
    ink (given c :: strokes) = given c :: ink strokes :=
  List.filter_cons_of_pos (by simp [char, h])

theorem ink_given_blank {c : Char} (h : isBlank c = true) (strokes : List Stroke) :
    ink (given c :: strokes) = ink strokes :=
  List.filter_cons_of_neg (by simp [char, h])

theorem ink_givenText (strokes : List Stroke) :
    Text.ink (givenText strokes) = givenText (ink strokes) := by
  induction strokes with
  | nil => rfl
  | cons stroke strokes ih =>
    cases stroke with
    | mark => rw [ink_mark, givenText_mark, givenText_mark, ih]
    | given c =>
      rw [givenText_given]
      cases hc : isBlank c with
      | true => rw [Text.ink_cons_blank hc, ih, ink_given_blank hc]
      | false => rw [Text.ink_cons hc, ih, ink_given hc, givenText_given]

end Stroke

namespace Table

variable {table : Table}

theorem operand_of_continuesWord {c : Char} (hword : continuesWord c = true) (hne : c ≠ '_') :
    table.endsOperand c = true ∧ table.startsOperand c = true := by
  have halphanumeric := (isAlphanumeric_or_eq_of_continuesWord hword).resolve_right hne
  simp [endsOperand, startsOperand, halphanumeric]

/-- After a character that can end an operand no word goes on, because a mark is written before. -/
theorem stops_strokesFrom {previous : Option Char} {text : Text} (hnone : '_' ∉ text)
    (hends : previous.any table.endsOperand = true) :
    Stops continuesWord (Stroke.shown (table.strokesFrom previous text)) := by
  cases text with
  | nil => exact stops_nil _
  | cons c rest =>
    by_cases hblank : isBlank c = true
    · rw [strokesFrom_blank hblank]
      exact stops_cons.mpr (continuesWord_eq_false_of_isBlank hblank)
    · by_cases hmark : (previous.any table.endsOperand && table.startsOperand c) = true
      · rw [strokesFrom_marked hblank hmark]
        exact stops_cons.mpr continuesWord_mark
      · rw [strokesFrom_plain hblank hmark]
        refine stops_cons.mpr (Bool.eq_false_iff.mpr fun hword => hmark ?_)
        have hne : c ≠ '_' := fun heq => hnone (heq ▸ List.mem_cons_self)
        rw [hends, Bool.true_and]
        exact (operand_of_continuesWord hword hne).2

theorem separate_given_cons {c : Char} {rest : Text} (hnone : '_' ∉ c :: rest)
    (hrest : Text.Separate (Stroke.shown (table.strokesFrom (some c) rest))) :
    Text.Separate (Stroke.shown (.given c :: table.strokesFrom (some c) rest)) := by
  refine Text.separate_cons_iff.mpr ⟨fun hword => ?_, hrest⟩
  have hne : c ≠ '_' := fun heq => hnone (heq ▸ List.mem_cons_self)
  exact stops_strokesFrom (List.not_mem_of_not_mem_cons hnone) (operand_of_continuesWord hword hne).1

/-- With marks, no two characters of words touch, unless one is an underscore. -/
theorem separate_strokesFrom {previous : Option Char} {text : Text} (hnone : '_' ∉ text) :
    Text.Separate (Stroke.shown (table.strokesFrom previous text)) := by
  fun_induction strokesFrom table previous text with
  | case1 => exact .nil
  | case2 previous c rest hblank ih =>
    refine Text.separate_cons_iff.mpr ⟨fun hword => ?_, ih (List.not_mem_of_not_mem_cons hnone)⟩
    have hink := isBlank_eq_false_of_continuesWord hword
    exact absurd hblank (by simpa [Stroke.char] using hink)
  | case3 previous c rest hblank hmark ih =>
    refine Text.separate_cons_iff.mpr ⟨fun hword => ?_, ?_⟩
    · exact absurd hword (by simp [Stroke.char, continuesWord_mark])
    · exact separate_given_cons hnone (ih (List.not_mem_of_not_mem_cons hnone))
  | case4 previous c rest hblank hmark ih =>
    exact separate_given_cons hnone (ih (List.not_mem_of_not_mem_cons hnone))

/-- Marks are written as if there were no white space. -/
theorem ink_strokesFrom (previous : Option Char) (text : Text) :
    Stroke.ink (table.strokesFrom previous text) = table.strokesFrom previous text.ink := by
  fun_induction strokesFrom table previous text with
  | case1 => rfl
  | case2 previous c rest hblank ih =>
    rw [Stroke.ink_given_blank hblank, ih, Text.ink_cons_blank hblank]
  | case3 previous c rest hblank hmark ih =>
    have hc : isBlank c = false := by simpa using hblank
    rw [Stroke.ink_mark, Stroke.ink_given hc, ih, Text.ink_cons hc,
      strokesFrom_marked hblank hmark]
  | case4 previous c rest hblank hmark ih =>
    have hc : isBlank c = false := by simpa using hblank
    rw [Stroke.ink_given hc, ih, Text.ink_cons hc, strokesFrom_plain hblank hmark]

/-- Where the text with marks is cut at a character that is not blank, the text as given is cut at one,
too: a mark is written right before a character. -/
theorem stops_givenText {previous : Option Char} {text : Text} {a b : List Stroke}
    (h : table.strokesFrom previous text = a ++ b) (hstops : Stops isBlank (Stroke.shown b)) :
    Stops isBlank (Stroke.givenText b) := by
  cases b with
  | nil => exact stops_nil _
  | cons stroke b =>
    cases stroke with
    | mark =>
      obtain ⟨-, c, rest, rfl, hc, -⟩ := exists_of_strokesFrom_eq table h
      exact stops_cons.mpr hc
    | given c => exact hstops

/-- Places that belong together in the texts with marks are traced back to such places. -/
theorem sameInk_givenText {text text' : Text} (hink : Text.SameInk text text')
    {a b a' b' : List Stroke} (hab : table.strokesFrom none text = a ++ b)
    (hab' : table.strokesFrom none text' = a' ++ b')
    (hbefore : Text.SameInk (Stroke.shown a) (Stroke.shown a'))
    (hafter : Text.SameHead (Stroke.shown b) (Stroke.shown b')) :
    Text.SameInk (Stroke.givenText a) (Stroke.givenText a') ∧
      Text.SameHead (Stroke.givenText b) (Stroke.givenText b') := by
  obtain ⟨hhead, hstops⟩ := hafter
  have hstops' : Stops isBlank (Stroke.shown b') := by
    rwa [Stops, ← hhead]
  -- without blanks both texts have the same strokes, and both cuts are at the same stroke
  have hstrokes : Stroke.ink a ++ Stroke.ink b = Stroke.ink a' ++ Stroke.ink b' := by
    rw [Stroke.ink, Stroke.ink, Stroke.ink, Stroke.ink, ← List.filter_append, ← List.filter_append,
      ← hab, ← hab']
    exact (ink_strokesFrom none text).trans (hink ▸ (ink_strokesFrom none text').symm)
  have hlength : (Stroke.ink a).length = (Stroke.ink a').length := by
    rw [Text.SameInk, Stroke.ink_shown, Stroke.ink_shown] at hbefore
    simpa [Stroke.shown] using congrArg List.length hbefore
  obtain ⟨hfront, hback⟩ := List.append_inj hstrokes hlength
  refine ⟨?_, ?_, stops_givenText hab hstops⟩
  · rw [Text.SameInk, Stroke.ink_givenText, Stroke.ink_givenText, hfront]
  · rw [← Text.head?_ink (stops_givenText hab hstops), ← Text.head?_ink (stops_givenText hab' hstops'),
      Stroke.ink_givenText, Stroke.ink_givenText, hback]

/-- **White space makes no difference where conjunctions may be left out.**  Texts without underscores
that are the same but for white space are read as the same formula, or both have the same fault, at the
same character or at the end. -/
theorem parse_implicit_respaced (table : Table) (text text' : Text) (hnone : '_' ∉ text)
    (hnone' : '_' ∉ text') (hink : text.ink = text'.ink) :
    Alike Eq (Text.SameInkPlace text text') Eq (table.parse true text) (table.parse true text') := by
  have hseparate : Text.Separate (table.reveal text).text := by
    rw [reveal_eq]
    exact separate_strokesFrom hnone
  have hseparate' : Text.Separate (table.reveal text').text := by
    rw [reveal_eq]
    exact separate_strokesFrom hnone'
  have hshown : Text.SameInk (table.reveal text).text (table.reveal text').text := by
    rw [reveal_eq, reveal_eq, Text.SameInk, Stroke.ink_shown, Stroke.ink_shown, ink_strokesFrom,
      ink_strokesFrom, hink]
  refine parse_implicit_alike ?_ (fun _ => rfl) (fun _ _ hc => congrArg table.glyph? hc) ?_ hshown
    ⟨rfl, stops_nil _⟩
  · intro a b a' b' hab hab' hbefore hafter
    exact sameInk_givenText hink hab hab' hbefore hafter
  · intro P hplaces
    exact Text.lexemesFrom_respaced hshown hseparate hseparate' hplaces

/-- Letters make the same conjunction together and apart; after both a bracket is one too many. -/
theorem parse_implicit_respaced_between_letters :
    let text : Text := ['a', 'b']
    let text' : Text := [' ', 'a', '\n', 'b', ' ']
    let f : Formula := .binary .and (.var ['a']) (.var ['b'])
    Text.ink (text ++ [')']) = Text.ink (text' ++ [')']) ∧
      standard.parse true text = .ok f ∧ standard.parse true text' = .ok f ∧
      standard.parse true (text ++ [')']) = .error (.unmatched ')' 2) ∧
      ∃ offset, standard.parse true (text' ++ [')']) = .error (.unmatched ')' offset) ∧
        Text.SameInkPlace (text ++ [')']) (text' ++ [')']) 2 offset := by
  intro text text' f
  have hink : text.ink = text'.ink := by decide +kernel
  have hlonger : Text.ink (text ++ [')']) = Text.ink (text' ++ [')']) := by decide +kernel
  have hread : standard.parse true text = .ok f := by decide +kernel
  have hfault : standard.parse true (text ++ [')']) = .error (.unmatched ')' 2) := by
    decide +kernel
  have hsame := parse_implicit_respaced standard _ _ (by decide) (by decide) hink
  have hlike := parse_implicit_respaced standard _ _ (by decide) (by decide) hlonger
  rw [hread] at hsame
  rw [hfault] at hlike
  obtain ⟨fault, hfault', hplaces⟩ := hlike.exists_error
  cases hplaces with
  | unmatched hfound hplace =>
    cases hfound
    exact ⟨hlonger, hread, hsame.eq_ok, hfault, _, hfault', hplace⟩

end Table

end Wff
