import Wff.Proofs.Characters
import Wff.Proofs.Lists
import Wff.Token.Brackets

/-!
# Wff.Proofs.Segmentation — cutting a text from the front

`Text.lexemes` takes one character after the other and keeps an open word.  `Text.lexemesFrom` cuts
the same pieces (`Text.lexemes_eq`) from the front: a blank, a word as long as it goes, or a glyph.
From it come where a piece stands (`exists_of_lexemesFrom_eq`), that a text can be cut in two unless a
word runs over the cut (`lexemesFrom_append_cases`), and the last piece of a text.
`Table.scanFrom` gives the pieces their meanings.
-/

namespace Wff

open Character

/-- A word: a letter or an underscore, and then letters, numbers and underscores. -/
def Text.isWord : Text → Bool
  | [] => false
  | c :: rest => startsWord c && rest.all continuesWord

/-- What pieces are made of: a word, or a single character that neither is blank nor begins a
word. -/
def Lexeme.Proper : Lexeme → Prop
  | .word letters _ => letters.isWord = true
  | .glyph c _ => isBlank c = false ∧ startsWord c = false

theorem Lexeme.Proper.literal_ne_nil {piece : Lexeme} (h : piece.Proper) : piece.literal ≠ [] := by
  rintro hnil
  cases piece with
  | word letters offset =>
    obtain rfl : letters = [] := hnil
    cases h
  | glyph c offset => cases hnil

theorem Text.continuesWord_of_isWord {letters : Text} (h : letters.isWord = true) :
    ∀ c ∈ letters, continuesWord c = true := by
  cases letters with
  | nil => cases h
  | cons c rest =>
    obtain ⟨hstart, hrest⟩ := Bool.and_eq_true_iff.mp h
    intro d hd
    rcases List.mem_cons.mp hd with rfl | hd
    · exact continuesWord_of_startsWord hstart
    · exact List.all_eq_true.mp hrest d hd

theorem Text.isBlank_eq_false_of_isWord {letters : Text} (h : letters.isWord = true) :
    ∀ c ∈ letters, isBlank c = false := by
  intro c hc
  exact isBlank_eq_false_of_continuesWord (continuesWord_of_isWord h c hc)

theorem Lexeme.Proper.isBlank_eq_false {piece : Lexeme} (h : piece.Proper) :
    ∀ c ∈ piece.literal, isBlank c = false := by
  cases piece with
  | word letters offset => exact Text.isBlank_eq_false_of_isWord h
  | glyph c offset =>
    intro d hd
    rw [List.mem_singleton.mp hd]
    exact h.1

/-- The words and glyphs of a text that begins at a byte offset. -/
def Text.lexemesFrom (here : Nat) : Text → List Lexeme
  | [] => []
  | c :: rest =>
    if isBlank c then lexemesFrom (here + c.utf8Size) rest
    else if startsWord c then
      .word (c :: rest.takeWhile continuesWord) here ::
        lexemesFrom (here + Text.byteLength (c :: rest.takeWhile continuesWord))
          (rest.dropWhile continuesWord)
    else .glyph c here :: lexemesFrom (here + c.utf8Size) rest
termination_by text => text.length
decreasing_by
  · exact Nat.lt_succ_self _
  · exact Nat.lt_succ_of_le (List.dropWhile_suffix _).length_le
  · exact Nat.lt_succ_self _

/-! ### Both ways of cutting -/

namespace Cutting

theorem endWord_of_word_eq_nil {cutting : Cutting} (h : cutting.word = []) :
    cutting.endWord = cutting := by
  simp [endWord, h]

theorem word_endWord (cutting : Cutting) : cutting.endWord.word = [] := by
  unfold endWord
  split
  · rename_i h
    exact List.isEmpty_iff.mp h
  · rfl

theorem step_eq {cutting : Cutting} {c : Char} (h : cutting.word = [] ∨ continuesWord c = false) :
    cutting.step c = cutting.endWord.fresh c := by
  unfold step
  rcases h with h | h <;> simp [h]

theorem foldl_endWord {text : Text} (h : Stops continuesWord text) (cutting : Cutting) :
    (text.foldl step cutting).endWord = (text.foldl step cutting.endWord).endWord := by
  cases text with
  | nil => exact (endWord_of_word_eq_nil (word_endWord cutting)).symm
  | cons c rest =>
    have hend := word_endWord cutting
    rw [List.foldl_cons, List.foldl_cons, step_eq (Or.inr (stops_cons.mp h)),
      step_eq (Or.inl hend), endWord_of_word_eq_nil hend]

theorem foldl_run {run : Text} (h : ∀ c ∈ run, continuesWord c = true) (cutting : Cutting)
    (hopen : cutting.word ≠ []) :
    run.foldl step cutting =
      { cutting with
        here := cutting.here + Text.byteLength run
        word := run.reverse ++ cutting.word } := by
  induction run generalizing cutting with
  | nil => simp
  | cons c run ih =>
    have hc : continuesWord c = true := h c (by simp)
    have hstep : cutting.step c =
        { cutting with here := cutting.here + c.utf8Size, word := c :: cutting.word } := by
      simp [step, hc, hopen]
    rw [List.foldl_cons, hstep, ih (fun d hd => h d (by simp [hd])) _ (by simp)]
    simp [Nat.add_assoc]

/-- Cutting from between two words adds the pieces of the text to those cut before. -/
theorem foldl_pieces (text : Text) (cutting : Cutting) (hword : cutting.word = []) :
    (text.foldl step cutting).endWord.pieces =
      (text.lexemesFrom cutting.here).reverse ++ cutting.pieces := by
  generalize hhere : cutting.here = here
  fun_induction Text.lexemesFrom here text generalizing cutting with
  | case1 => simp [endWord_of_word_eq_nil hword]
  | case2 here c rest hblank ih =>
    have hstep : cutting.step c = { cutting with here := cutting.here + c.utf8Size } := by
      rw [step_eq (Or.inl hword), endWord_of_word_eq_nil hword]
      simp [fresh, hblank]
    rw [List.foldl_cons, ih (cutting.step c) (by rw [hstep, hword]) (by rw [hstep, hhere]), hstep]
  | case3 here c rest hblank hstart ih =>
    have hstep : cutting.step c =
        { cutting with here := here + c.utf8Size, start := here, word := [c] } := by
      rw [step_eq (Or.inl hword), endWord_of_word_eq_nil hword]
      simp [fresh, hblank, hstart, hhere]
    -- the word runs up to the first character that does not continue it
    have hrun : ∀ d ∈ rest.takeWhile continuesWord, continuesWord d = true :=
      fun d hd => List.mem_takeWhile_imp hd
    have hsplit : rest.foldl step (cutting.step c) =
        (rest.dropWhile continuesWord).foldl step
          ((rest.takeWhile continuesWord).foldl step (cutting.step c)) := by
      rw [← List.foldl_append, List.takeWhile_append_dropWhile]
    rw [List.foldl_cons, hsplit, hstep, foldl_run hrun _ (by simp),
      foldl_endWord (stops_dropWhile _ _), ih _ (word_endWord _)]
    · simp [endWord, Nat.add_assoc]
    · simp [endWord, Nat.add_assoc]
  | case4 here c rest hblank hstart ih =>
    have hstep : cutting.step c =
        { cutting with here := here + c.utf8Size, pieces := .glyph c here :: cutting.pieces } := by
      rw [step_eq (Or.inl hword), endWord_of_word_eq_nil hword]
      simp [fresh, hblank, hstart, hhere]
    rw [List.foldl_cons, ih (cutting.step c) (by rw [hstep, hword]) (by rw [hstep]), hstep]
    simp

end Cutting

def Text.Blank (text : Text) : Prop := ∀ c ∈ text, isBlank c = true

instance (text : Text) : Decidable text.Blank :=
  decidable_of_iff (text.all isBlank = true) List.all_eq_true

theorem Text.Blank.stops {blanks text : Text} (hblank : blanks.Blank)
    (h : Stops continuesWord text) : Stops continuesWord (blanks ++ text) := by
  cases blanks with
  | nil => exact h
  | cons c blanks =>
    exact stops_cons.mpr (continuesWord_eq_false_of_isBlank (hblank c List.mem_cons_self))

namespace Text

theorem lexemes_eq (text : Text) : text.lexemes = text.lexemesFrom 0 := by
  rw [lexemes, Cutting.foldl_pieces text .begin rfl]
  simp [Cutting.begin]

/-! ### The first piece -/

theorem lexemesFrom_blank {c : Char} (h : isBlank c = true) (here : Nat) (rest : Text) :
    lexemesFrom here (c :: rest) = lexemesFrom (here + c.utf8Size) rest := by
  rw [lexemesFrom, if_pos h]

theorem lexemesFrom_blanks {blanks : Text} (h : blanks.Blank) (here : Nat)
    (text : Text) : lexemesFrom here (blanks ++ text) = lexemesFrom (here + byteLength blanks) text := by
  induction blanks generalizing here with
  | nil => rfl
  | cons c blanks ih =>
    rw [List.cons_append, lexemesFrom_blank (h c List.mem_cons_self),
      ih fun d hd => h d (List.mem_cons_of_mem c hd), byteLength_cons, Nat.add_assoc]

theorem lexemesFrom_of_blank {blanks : Text} (h : blanks.Blank) (here : Nat) :
    lexemesFrom here blanks = [] := by
  rw [← List.append_nil blanks, lexemesFrom_blanks h, lexemesFrom]

theorem lexemesFrom_glyph {c : Char} (hblank : isBlank c = false) (hstart : startsWord c = false)
    (here : Nat) (rest : Text) :
    lexemesFrom here (c :: rest) = .glyph c here :: lexemesFrom (here + c.utf8Size) rest := by
  rw [lexemesFrom, if_neg (by simp [hblank]), if_neg (by simp [hstart])]

theorem lexemesFrom_letter {c : Char} (hstart : startsWord c = true) (here : Nat) (rest : Text) :
    lexemesFrom here (c :: rest) =
      .word (c :: rest.takeWhile continuesWord) here ::
        lexemesFrom (here + byteLength (c :: rest.takeWhile continuesWord))
          (rest.dropWhile continuesWord) := by
  have hblank := isBlank_eq_false_of_continuesWord (continuesWord_of_startsWord hstart)
  rw [lexemesFrom, if_neg (by simp [hblank]), if_pos hstart]

theorem lexemesFrom_word {text : Text} (h : text.isWord = true) (here : Nat) :
    lexemesFrom here text = [.word text here] := by
  cases text with
  | nil => cases h
  | cons c rest =>
    obtain ⟨hstart, hrest⟩ := Bool.and_eq_true_iff.mp h
    rw [List.all_eq_true] at hrest
    rw [lexemesFrom_letter hstart, List.takeWhile_eq_self_iff.mpr hrest,
      List.dropWhile_eq_nil_iff.mpr hrest, lexemesFrom]

/-- The first piece of a text begins with its first character, unless that is blank. -/
theorem exists_of_lexemesFrom_cons {c : Char} (h : isBlank c = false) (here : Nat) (rest : Text) :
    ∃ piece more, lexemesFrom here (c :: rest) = piece :: more ∧ piece.literal.head? = some c ∧
      piece.offset = here := by
  by_cases hstart : startsWord c = true
  · exact ⟨_, _, lexemesFrom_letter hstart here rest, rfl, rfl⟩
  · exact ⟨_, _, lexemesFrom_glyph h (by simpa using hstart) here rest, rfl, rfl⟩

/-! ### Where pieces stand -/

theorem proper_of_mem_lexemesFrom {here : Nat} {text : Text} {piece : Lexeme}
    (h : piece ∈ text.lexemesFrom here) : piece.Proper := by
  fun_induction lexemesFrom here text with
  | case1 => cases h
  | case2 here c rest hblank ih => exact ih h
  | case3 here c rest hblank hstart ih =>
    rcases List.mem_cons.mp h with rfl | h
    · refine Bool.and_eq_true_iff.mpr ⟨hstart, List.all_eq_true.mpr fun d hd => ?_⟩
      exact List.mem_takeWhile_imp hd
    · exact ih h
  | case4 here c rest hblank hstart ih =>
    rcases List.mem_cons.mp h with rfl | h
    · exact ⟨by simpa using hblank, by simpa using hstart⟩
    · exact ih h

/-! ### Cutting a text in two -/

/-- A text can be cut before any character that does not continue a word. -/
theorem lexemesFrom_append {b : Text} (h : Stops continuesWord b) (here : Nat) (a : Text) :
    lexemesFrom here (a ++ b) = lexemesFrom here a ++ lexemesFrom (here + byteLength a) b := by
  fun_induction lexemesFrom here a with
  | case1 => simp
  | case2 here c rest hblank ih =>
    rw [List.cons_append, lexemesFrom_blank hblank, ih, byteLength_cons, Nat.add_assoc]
  | case3 here c rest hblank hstart ih =>
    -- the first word ends in `a`, so it is the same with `b` behind it
    have hword : (rest ++ b).takeWhile continuesWord = rest.takeWhile continuesWord :=
      h.takeWhile_append rest
    have hafter : (rest ++ b).dropWhile continuesWord = rest.dropWhile continuesWord ++ b :=
      h.dropWhile_append rest
    have hlength : byteLength (c :: rest) = byteLength (c :: rest.takeWhile continuesWord) +
        byteLength (rest.dropWhile continuesWord) := by
      rw [← byteLength_append, List.cons_append, List.takeWhile_append_dropWhile]
    rw [List.cons_append, lexemesFrom_letter hstart, hword, hafter, ih, hlength, List.cons_append,
      Nat.add_assoc]
  | case4 here c rest hblank hstart ih =>
    rw [List.cons_append, lexemesFrom_glyph (by simpa using hblank) (by simpa using hstart), ih,
      byteLength_cons, Nat.add_assoc]
    rfl

theorem lexemesFrom_append_blanks {blanks : Text} (h : blanks.Blank) (here : Nat) (text : Text) :
    lexemesFrom here (text ++ blanks) = lexemesFrom here text := by
  have hstops : Stops continuesWord blanks := by simpa using h.stops (stops_nil _)
  rw [lexemesFrom_append hstops, lexemesFrom_of_blank h, List.append_nil]

/-- Pieces are split where the text is: each stands at its offset, and those before it are cut from
what is before it. -/
theorem exists_of_lexemesFrom_eq {here : Nat} {text : Text} {pieces rest : List Lexeme}
    {piece : Lexeme} (h : text.lexemesFrom here = pieces ++ piece :: rest) :
    ∃ before after, text = before ++ (piece.literal ++ after) ∧
      piece.offset = here + byteLength before ∧ before.lexemesFrom here = pieces := by
  fun_induction lexemesFrom here text generalizing pieces with
  | case1 => simp at h
  | case2 here c text hblank ih =>
    obtain ⟨before, after, rfl, hoffset, hbefore⟩ := ih h
    refine ⟨c :: before, after, rfl, by rw [hoffset, byteLength_cons, Nat.add_assoc], ?_⟩
    rw [lexemesFrom_blank hblank, hbefore]
  | case3 here c text hblank hstart ih =>
    cases pieces with
    | nil =>
      obtain ⟨rfl, -⟩ := List.cons_eq_cons.mp h
      exact ⟨[], text.dropWhile continuesWord, by simp [Lexeme.literal], rfl, by rw [lexemesFrom]⟩
    | cons first pieces =>
      obtain ⟨rfl, htail⟩ := List.cons_eq_cons.mp h
      obtain ⟨before, after, htext, hoffset, hbefore⟩ := ih htail
      -- what is between the first word and the piece does not continue the word
      have hstops : Stops continuesWord before := by
        cases before with
        | nil => exact stops_nil _
        | cons d before =>
          have hdrop := stops_dropWhile continuesWord text
          rw [htext] at hdrop
          exact hdrop
      have hword : Text.isWord (c :: text.takeWhile continuesWord) = true :=
        Bool.and_eq_true_iff.mpr
          ⟨hstart, List.all_eq_true.mpr fun d hd => List.mem_takeWhile_imp hd⟩
      refine ⟨c :: text.takeWhile continuesWord ++ before, after, ?_, ?_, ?_⟩
      · rw [List.append_assoc, ← htext, List.cons_append, List.takeWhile_append_dropWhile]
      · rw [hoffset, byteLength_append, Nat.add_assoc]
      · rw [lexemesFrom_append hstops, lexemesFrom_word hword, hbefore]
        rfl
  | case4 here c text hblank hstart ih =>
    cases pieces with
    | nil =>
      obtain ⟨rfl, -⟩ := List.cons_eq_cons.mp h
      exact ⟨[], text, rfl, rfl, by rw [lexemesFrom]⟩
    | cons first pieces =>
      obtain ⟨rfl, htail⟩ := List.cons_eq_cons.mp h
      obtain ⟨before, after, rfl, hoffset, hbefore⟩ := ih htail
      refine ⟨c :: before, after, rfl, by rw [hoffset, byteLength_cons, Nat.add_assoc], ?_⟩
      rw [lexemesFrom_glyph (by simpa using hblank) (by simpa using hstart), hbefore]

theorem exists_of_mem_lexemesFrom {here : Nat} {text : Text} {piece : Lexeme}
    (h : piece ∈ text.lexemesFrom here) :
    ∃ before after, text = before ++ (piece.literal ++ after) ∧
      piece.offset = here + byteLength before := by
  obtain ⟨pieces, rest, hsplit⟩ := List.append_of_mem h
  obtain ⟨before, after, htext, hoffset, -⟩ := exists_of_lexemesFrom_eq hsplit
  exact ⟨before, after, htext, hoffset⟩

def RunsOver (a b : Text) (here : Nat) (word : Lexeme) : Prop :=
  ∃ before letters letters' after, a = before ++ letters ∧ b = letters' ++ after ∧
    letters ≠ [] ∧ letters' ≠ [] ∧ word = .word (letters ++ letters') (here + byteLength before)

theorem RunsOver.offset_lt {a b : Text} {here offset : Nat} {letters : Text}
    (h : RunsOver a b here (.word letters offset)) :
    offset < here + byteLength a ∧ here + byteLength a < offset + byteLength letters := by
  obtain ⟨before, front, back, after, rfl, -, hfront, hback, hword⟩ := h
  obtain ⟨rfl, rfl⟩ := Lexeme.word.inj hword
  have hpos := byteLength_pos hfront
  have hpos' := byteLength_pos hback
  rw [byteLength_append, byteLength_append]
  omega

theorem RunsOver.prepend {a b : Text} {here : Nat} {word : Lexeme} (front : Text)
    (h : RunsOver a b (here + byteLength front) word) : RunsOver (front ++ a) b here word := by
  obtain ⟨before, letters, letters', after, rfl, hb, hne, hne', rfl⟩ := h
  refine ⟨front ++ before, letters, letters', after, by rw [List.append_assoc], hb, hne, hne', ?_⟩
  rw [byteLength_append, Nat.add_assoc]

/-- The last piece of the text, which begins at a byte offset, is a word that reaches its end. -/
def EndsInWordFrom (here : Nat) (text : Text) : Prop :=
  ∃ letters offset, (text.lexemesFrom here).getLast? = some (.word letters offset) ∧
    offset + byteLength letters = here + byteLength text

theorem EndsInWordFrom.of_cut {here here' : Nat} {text rest : Text} (pieces : List Lexeme)
    (h : rest.EndsInWordFrom here') (hpieces : text.lexemesFrom here = pieces ++ rest.lexemesFrom here')
    (hend : here' + byteLength rest = here + byteLength text) : text.EndsInWordFrom here := by
  obtain ⟨letters, offset, hlast, hreach⟩ := h
  refine ⟨letters, offset, ?_, hreach.trans hend⟩
  rw [hpieces, List.getLast?_append, hlast]
  rfl

/-- Wherever a text is cut, its pieces are those of both parts, or a word that reaches the cut runs
over it. -/
theorem lexemesFrom_append_cases (here : Nat) (a b : Text) :
    lexemesFrom here (a ++ b) = lexemesFrom here a ++ lexemesFrom (here + byteLength a) b ∨
      a.EndsInWordFrom here ∧ ∃ word ∈ lexemesFrom here (a ++ b), RunsOver a b here word := by
  by_cases hstops : Stops continuesWord b
  · exact Or.inl (lexemesFrom_append hstops here a)
  -- what follows the cut begins with something that continues a word
  have hb : b.takeWhile continuesWord ≠ [] := by
    intro hnil
    apply hstops
    rw [← List.takeWhile_append_dropWhile (p := continuesWord) (l := b), hnil]
    exact stops_dropWhile _ _
  fun_induction lexemesFrom here a with
  | case1 => exact Or.inl (by simp)
  | case2 here c rest hblank ih =>
    rw [List.cons_append, lexemesFrom_blank hblank, byteLength_cons, ← Nat.add_assoc]
    refine ih.imp_right ?_
    rintro ⟨hends, word, hmem, hruns⟩
    refine ⟨hends.of_cut [] (lexemesFrom_blank hblank here rest) ?_, word, hmem,
      RunsOver.prepend [c] (by simpa using hruns)⟩
    rw [byteLength_cons, Nat.add_assoc]
  | case3 here c rest hblank hstart ih =>
    have hsplit : c :: rest = (c :: rest.takeWhile continuesWord) ++ rest.dropWhile continuesWord := by
      rw [List.cons_append, List.takeWhile_append_dropWhile]
    have hlength : here + byteLength (c :: rest) =
        here + byteLength (c :: rest.takeWhile continuesWord) +
          byteLength (rest.dropWhile continuesWord) := by
      rw [Nat.add_assoc, ← byteLength_append, ← hsplit]
    by_cases hend : rest.dropWhile continuesWord = []
    · -- the first word reaches the cut, and goes on after it
      have hall : ∀ d ∈ rest, continuesWord d = true := List.dropWhile_eq_nil_iff.mp hend
      refine Or.inr ⟨⟨c :: rest.takeWhile continuesWord, here, ?_, ?_⟩,
        .word (c :: rest ++ b.takeWhile continuesWord) here, ?_, [], c :: rest,
        b.takeWhile continuesWord, b.dropWhile continuesWord, rfl,
        List.takeWhile_append_dropWhile.symm, by simp, hb, rfl⟩
      · rw [lexemesFrom_letter hstart, hend, lexemesFrom]
        rfl
      · rw [hlength, hend]
        rfl
      · rw [List.cons_append, lexemesFrom_letter hstart, List.takeWhile_append_of_pos hall]
        exact List.mem_cons_self
    · -- the first word ends before the cut
      have hword : (rest ++ b).takeWhile continuesWord = rest.takeWhile continuesWord :=
        takeWhile_append_of_dropWhile_ne_nil hend b
      have hafter : (rest ++ b).dropWhile continuesWord = rest.dropWhile continuesWord ++ b := by
        rw [List.dropWhile_append, if_neg (by simpa using hend)]
      rw [List.cons_append, lexemesFrom_letter hstart, hword, hafter, hlength]
      refine ih.imp (fun heq => by rw [heq, List.cons_append]) ?_
      rintro ⟨hends, word, hmem, hruns⟩
      refine ⟨hends.of_cut [_] (lexemesFrom_letter hstart here rest) hlength.symm, word,
        List.mem_cons_of_mem _ hmem, ?_⟩
      rw [hsplit]
      exact hruns.prepend _
  | case4 here c rest hblank hstart ih =>
    have hglyph := lexemesFrom_glyph (by simpa using hblank) (by simpa using hstart) here
    rw [List.cons_append, hglyph, byteLength_cons, ← Nat.add_assoc]
    refine ih.imp (fun heq => by rw [heq, List.cons_append]) ?_
    rintro ⟨hends, word, hmem, hruns⟩
    refine ⟨hends.of_cut [_] (hglyph rest) ?_, word, List.mem_cons_of_mem _ hmem,
      RunsOver.prepend [c] (by simpa using hruns)⟩
    rw [byteLength_cons, Nat.add_assoc]

/-! ### The last piece -/

/-- The last character that is not blank. -/
def lastInk? (text : Text) : Option Char := (text.filter (!isBlank ·)).getLast?

theorem mem_of_lastInk? {text : Text} {c : Char} (h : lastInk? text = some c) : c ∈ text :=
  (List.mem_filter.mp (List.mem_of_getLast? h)).1

theorem lastInk?_append (a b : Text) : lastInk? (a ++ b) = (lastInk? b).or (lastInk? a) := by
  rw [lastInk?, List.filter_append, List.getLast?_append]
  rfl

theorem lastInk?_cons (c : Char) (text : Text) :
    lastInk? (c :: text) = (lastInk? text).or (if isBlank c then none else some c) := by
  rw [← List.singleton_append, lastInk?_append]
  by_cases hblank : isBlank c = true <;> simp [lastInk?, hblank]

theorem lastInk?_of_blank {text : Text} (h : text.Blank) :
    lastInk? text = none := by
  have hnil : text.filter (!isBlank ·) = [] := by
    rw [List.filter_eq_nil_iff]
    intro c hc
    simp [h c hc]
  rw [lastInk?, hnil]
  rfl

theorem lastInk?_of_ink {text : Text} (h : ∀ c ∈ text, isBlank c = false) :
    lastInk? text = text.getLast? := by
  have hself : text.filter (!isBlank ·) = text := by
    rw [List.filter_eq_self]
    intro c hc
    simp [h c hc]
  rw [lastInk?, hself]

theorem getLast?_cons_bind (piece : Lexeme) {pieces : List Lexeme} (h : ∀ p ∈ pieces, p.Proper) :
    (piece :: pieces).getLast?.bind (·.literal.getLast?) =
      (pieces.getLast?.bind (·.literal.getLast?)).or piece.literal.getLast? := by
  rw [List.getLast?_cons]
  cases hlast : pieces.getLast? with
  | none => rfl
  | some last =>
    have hne := (h last (List.mem_of_getLast? hlast)).literal_ne_nil
    obtain ⟨c, hc⟩ := Option.ne_none_iff_exists'.mp (mt List.getLast?_eq_none_iff.mp hne)
    simp [hc]

/-- The last character of the last piece is the last one of the text that is not blank. -/
theorem getLast?_lexemesFrom (here : Nat) (text : Text) :
    (text.lexemesFrom here).getLast?.bind (·.literal.getLast?) = text.lastInk? := by
  fun_induction lexemesFrom here text with
  | case1 => rfl
  | case2 here c rest hblank ih =>
    rw [ih, lastInk?_cons, if_pos hblank, Option.or_none]
  | case3 here c rest hblank hstart ih =>
    have hword : ∀ d ∈ c :: rest.takeWhile continuesWord, isBlank d = false := by
      intro d hd
      rcases List.mem_cons.mp hd with rfl | hd
      · exact isBlank_eq_false_of_continuesWord (continuesWord_of_startsWord hstart)
      · exact isBlank_eq_false_of_continuesWord (List.mem_takeWhile_imp hd)
    have hsplit : c :: rest = (c :: rest.takeWhile continuesWord) ++ rest.dropWhile continuesWord := by
      rw [List.cons_append, List.takeWhile_append_dropWhile]
    rw [hsplit, lastInk?_append, lastInk?_of_ink hword, ← ih]
    exact getLast?_cons_bind _ (fun piece hpiece => proper_of_mem_lexemesFrom hpiece)
  | case4 here c rest hblank hstart ih =>
    have hc : lastInk? [c] = some c := lastInk?_of_ink (by simpa using hblank)
    have hsplit : c :: rest = [c] ++ rest := rfl
    rw [hsplit, lastInk?_append, hc, ← ih]
    exact getLast?_cons_bind _ (fun piece hpiece => proper_of_mem_lexemesFrom hpiece)

end Text

end Wff
