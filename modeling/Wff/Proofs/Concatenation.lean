import Wff.Proofs.Alignment
import Wff.Proofs.Relabelling
import Wff.Symbol.Standard

/-!
# Wff.Proofs.Concatenation — scanning one text after another

The longest match does not look back: what is before a text matters to its tokens only through a word
that would run on into it.  So with white space between two texts, or where the first does not end in a
word or the second does not go on with one, the tokens are those of the first and then those of the
second with their offsets moved (`Table.scan_append`).  A digit is a piece of its own unless a word is
before it; so `1` and `q` need no white space, and `q` and `1` do.

The literals of tokens are such texts: with single spaces between them they are scanned to the same
tokens again (`Text.lexemesFrom_spaced`).
-/

namespace Wff

open Character

/-- The last piece of the text is a word that reaches its end. -/
def Text.EndsInWord (text : Text) : Prop :=
  ∃ letters offset, text.lexemes.getLast? = some (.word letters offset) ∧
    offset + byteLength letters = byteLength text

theorem Text.endsInWord_iff {text : Text} : text.EndsInWord ↔ text.EndsInWordFrom 0 := by
  rw [EndsInWord, EndsInWordFrom, lexemes_eq, Nat.zero_add]

/-- All offsets moved, of tokens as of a fault. -/
def Token.mapOffsets (move : Nat → Nat) : Except Fault (List Token) → Except Fault (List Token)
  | .ok tokens => .ok (tokens.map (Token.mapOffset move))
  | .error fault => .error (fault.mapOffset move)

def Token.content (token : Token) : Meaning × Text := (token.meaning, token.literal)

def Token.spaced (tokens : List Token) : Text := List.intercalate [' '] (tokens.map Token.literal)

section Alike

variable {move : Nat → Nat} {P : Nat → Nat → Prop}

theorem Alike.eq_mapOffsets {outcome outcome' : Except Fault (List Token)}
    (h : Alike Eq (fun o o' => move o = o')
      (List.Forall₂ (Token.Alike Eq fun o o' => move o = o')) outcome outcome') :
    Token.mapOffsets move outcome = outcome' := by
  cases h with
  | @ok tokens tokens' agree =>
    have hmoved : tokens.map (Token.mapOffset move) = tokens'.map id :=
      map_eq_of_forall₂ (agree.imp fun _ _ halike => halike.eq_mapOffset)
    rw [Token.mapOffsets, hmoved, List.map_id]
  | error alike => rw [Token.mapOffsets, alike.eq_mapOffset]

theorem map_content_eq_of_alike {tokens tokens' : List Token}
    (h : List.Forall₂ (Token.Alike Eq P) tokens tokens') :
    tokens.map Token.content = tokens'.map Token.content := by
  refine map_eq_of_forall₂ (h.imp fun token token' halike => ?_)
  have hliteral := halike.literal
  rw [List.forall₂_eq_eq_eq] at hliteral
  rw [Token.content, Token.content, halike.meaning, hliteral]

end Alike

/-! ### A text after another -/

namespace Text

theorem lexemesFrom_moved (front here : Nat) (text : Text) :
    List.Forall₂ (Lexeme.Alike Eq fun o o' => front + o = o') (text.lexemesFrom here)
      (text.lexemesFrom (front + here)) := by
  refine lexemesFrom_respelled (fun _ _ => Or.inl) (List.forall₂_same.mpr fun _ _ => rfl) ?_
  rintro _ _ ⟨before, after, before', after', hcut, hcut', hlength, -, rfl, rfl⟩
  obtain ⟨rfl, -⟩ := List.append_inj (hcut.symm.trans hcut') hlength
  exact (Nat.add_assoc front here _).symm

/-- Two texts are cut apart, unless a word at the end of the first goes on in the second. -/
theorem lexemesFrom_apart {a blanks b : Text} (hblank : blanks.Blank)
    (h : blanks ≠ [] ∨ ¬ a.EndsInWord ∨ Stops continuesWord b) :
    lexemesFrom 0 (a ++ blanks ++ b) =
      lexemesFrom 0 a ++ lexemesFrom (byteLength (a ++ blanks)) b := by
  have hafter : lexemesFrom (byteLength a) (blanks ++ b) =
      lexemesFrom (byteLength (a ++ blanks)) b := by
    rw [lexemesFrom_blanks hblank, byteLength_append]
  have hcut : lexemesFrom 0 (a ++ (blanks ++ b)) =
      lexemesFrom 0 a ++ lexemesFrom (0 + byteLength a) (blanks ++ b) := by
    rcases lexemesFrom_append_cases 0 a (blanks ++ b) with hcut | ⟨hends, -⟩
    · exact hcut
    · refine lexemesFrom_append ?_ 0 a
      rcases h with hne | hnot | hstops
      · obtain ⟨c, rest, rfl⟩ := List.exists_cons_of_ne_nil hne
        exact stops_cons.mpr (continuesWord_eq_false_of_isBlank (hblank c List.mem_cons_self))
      · exact absurd (endsInWord_iff.mpr hends) hnot
      · exact hblank.stops hstops
  rw [List.append_assoc, hcut, Nat.zero_add, hafter]

end Text

namespace Table

theorem scanFrom_moved (table : Table) (front here : Nat) (text : Text) :
    table.scanFrom (front + here) text = Token.mapOffsets (front + ·) (table.scanFrom here text) :=
  (scanFrom_alike (fun _ => rfl) (fun _ _ hc => congrArg table.glyph? hc)
    (Text.lexemesFrom_moved front here text)).eq_mapOffsets.symm

/-- The tokens of the first text and then those of the second, whose offsets are moved; the fault of the
first counts before that of the second. -/
theorem scan_apart (table : Table) {a blanks b : Text} (hblank : blanks.Blank)
    (h : blanks ≠ [] ∨ ¬ a.EndsInWord ∨ Stops continuesWord b) :
    table.scan (a ++ blanks ++ b) = do
      let tokens ← table.scan a
      let more ← Token.mapOffsets (Text.byteLength (a ++ blanks) + ·) (table.scan b)
      return tokens ++ more := by
  rw [scan_eq, scan_eq, scan_eq, ← scanFrom_moved, scanFrom, Text.lexemesFrom_apart hblank h,
    List.mapM_append]
  rfl

end Table

/-! ### The literals of tokens -/

namespace Text

theorem lexemesFrom_literal {piece : Lexeme} (h : piece.Proper) (here : Nat) :
    List.Forall₂ (Lexeme.Alike Eq fun _ _ => True) [piece] (lexemesFrom here piece.literal) := by
  cases piece with
  | word letters offset =>
    rw [Lexeme.literal, lexemesFrom_word h]
    exact .cons (.word letters trivial) .nil
  | glyph c offset =>
    rw [Lexeme.literal, lexemesFrom_glyph h.1 h.2, lexemesFrom]
    exact .cons (.glyph rfl trivial) .nil

/-- The literals of pieces with single spaces between them are those pieces again. -/
theorem lexemesFrom_spaced {pieces : List Lexeme} (h : ∀ piece ∈ pieces, piece.Proper) (here : Nat) :
    List.Forall₂ (Lexeme.Alike Eq fun _ _ => True) pieces
      (lexemesFrom here (List.intercalate [' '] (pieces.map Lexeme.literal))) := by
  induction pieces generalizing here with
  | nil =>
    rw [List.map_nil, List.intercalate_nil, lexemesFrom]
    exact .nil
  | cons piece rest ih =>
    obtain ⟨hpiece, hrest⟩ := List.forall_mem_cons.mp h
    cases rest with
    | nil =>
      rw [List.map_singleton, List.intercalate_singleton]
      exact lexemesFrom_literal hpiece here
    | cons next rest =>
      have hspace : isBlank ' ' = true := by decide
      rw [List.map_cons, List.map_cons, List.intercalate_cons_cons, List.append_assoc,
        List.singleton_append, lexemesFrom_append, lexemesFrom_blank hspace, ← List.map_cons,
        ← List.singleton_append]
      · exact List.rel_append (lexemesFrom_literal hpiece here) (ih hrest _)
      · exact stops_cons.mpr (continuesWord_eq_false_of_isBlank hspace)

end Text

theorem Token.spaced_eq_of_scanFrom {table : Table} {here : Nat} {text : Text} {tokens : List Token}
    (h : table.scanFrom here text = .ok tokens) :
    spaced tokens = List.intercalate [' '] ((text.lexemesFrom here).map Lexeme.literal) := by
  rw [spaced, Table.map_literal_of_scanFrom h]

theorem Token.exists_spaced_append_stop (tokens : List Token) (offset : Nat) :
    ∃ blanks, Text.Blank blanks ∧ spaced (tokens ++ [.stopAt offset]) = spaced tokens ++ blanks := by
  induction tokens with
  | nil => exact ⟨[], by decide, rfl⟩
  | cons token rest ih =>
    cases rest with
    | nil => exact ⟨[' '], by decide, by simp [spaced, stopAt]⟩
    | cons next rest =>
      obtain ⟨blanks, hblank, hrest⟩ := ih
      refine ⟨blanks, hblank, ?_⟩
      simp only [spaced, List.cons_append, List.map_cons] at hrest ⊢
      rw [List.intercalate_cons_cons, List.intercalate_cons_cons, hrest]
      simp only [List.append_assoc]

namespace Table

variable {table : Table} {text : Text} {tokens : List Token}

theorem lexemesFrom_spaced_of_scanFrom (h : table.scanFrom 0 text = .ok tokens) :
    List.Forall₂ (Lexeme.Alike Eq fun _ _ => True) (text.lexemesFrom 0)
      ((Token.spaced tokens).lexemesFrom 0) := by
  rw [Token.spaced_eq_of_scanFrom h]
  exact Text.lexemesFrom_spaced (fun _ hpiece => Text.proper_of_mem_lexemesFrom hpiece) 0

theorem exists_scan_spaced (h : table.scan text = .ok tokens) :
    ∃ again, table.scan (Token.spaced tokens) = .ok again ∧
      again.map Token.content = tokens.map Token.content := by
  rw [scan_eq] at h ⊢
  have halike := scanFrom_alike (fun _ => rfl) (fun _ _ hc => congrArg table.glyph? hc)
    (lexemesFrom_spaced_of_scanFrom h)
  rw [h] at halike
  obtain ⟨again, hagain, hsame⟩ := halike.exists_ok
  exact ⟨again, hagain, (map_content_eq_of_alike hsame).symm⟩

/-- The brackets are matched again too, as they do not depend on offsets; it is no matter if the end of
the tokens is joined with the rest. -/
theorem exists_tokens_spaced (h : table.tokens text = .ok tokens) {joined : Text}
    (hjoined : joined = Token.spaced tokens ∨ joined = Token.spaced tokens.dropLast) :
    ∃ again, table.tokens joined = .ok again ∧
      again.map Token.content = tokens.map Token.content := by
  obtain ⟨scanned, hscan, rfl⟩ := scanFrom_of_tokens h
  have hpieces : joined.lexemesFrom 0 = (Token.spaced scanned).lexemesFrom 0 := by
    rcases hjoined with rfl | rfl
    · obtain ⟨blanks, hblank, hspaced⟩ := Token.exists_spaced_append_stop scanned _
      rw [hspaced, Text.lexemesFrom_append_blanks hblank]
    · rw [List.dropLast_concat]
  have hsame := lexemesFrom_spaced_of_scanFrom hscan
  rw [← hpieces] at hsame
  have halike := tokens_alike (fun _ => rfl) (fun _ _ hc => congrArg table.glyph? hc) hsame trivial
  rw [h] at halike
  obtain ⟨again, hagain, hcontents⟩ := halike.exists_ok
  exact ⟨again, hagain, (map_content_eq_of_alike hcontents).symm⟩

/-- **Scanning distributes over concatenation**: with white space between two texts, or if the first
does not end in a word, or if the second does not go on with one, the tokens are those of the first and
then those of the second, moved; and the fault is the first one's, else the second one's, moved.  So the
literals of any tokens, with single spaces between them, are scanned to the same tokens again. -/
theorem scan_append (table : Table) :
    (∀ a blanks b : Text, blanks.Blank → (blanks ≠ [] ∨ ¬ a.EndsInWord ∨ Stops continuesWord b) →
      table.scan (a ++ blanks ++ b) = do
        let tokens ← table.scan a
        let more ← Token.mapOffsets (Text.byteLength (a ++ blanks) + ·) (table.scan b)
        return tokens ++ more) ∧
    (∀ text tokens, table.scan text = .ok tokens →
      ∃ again, table.scan (Token.spaced tokens) = .ok again ∧
        again.map Token.content = tokens.map Token.content) ∧
    ∀ text tokens, table.tokens text = .ok tokens → ∀ joined,
      (joined = Token.spaced tokens ∨ joined = Token.spaced tokens.dropLast) →
      ∃ again, table.tokens joined = .ok again ∧
        again.map Token.content = tokens.map Token.content :=
  ⟨fun _ _ _ hblank h => scan_apart table hblank h, fun _ _ h => exists_scan_spaced h,
    fun _ _ h _ hjoined => exists_tokens_spaced h hjoined⟩

/-- After the digit `1`, which no word is before, a word may begin; a fault after white space moves. -/
theorem scan_append_digit :
    let digit : Text := ['p', '∧', '1']
    (¬ digit.EndsInWord ∧ standard.scan (digit ++ ['q']) = .ok [⟨.var ['p'], ['p'], 0⟩,
      ⟨.symbol (.operator .and), ['∧'], 1⟩, ⟨.symbol (.constant true), ['1'], 4⟩,
      ⟨.var ['q'], ['q'], 5⟩]) ∧
    standard.scan (digit ++ [' '] ++ ['$']) = .error (.unrecognized '$' 6) ∧
    ∃ again, standard.tokens ['p', ' ', '∧', ' ', '1', ' '] = .ok again ∧
      again.map Token.content = [(.var ['p'], ['p']), (.symbol (.operator .and), ['∧']),
        (.symbol (.constant true), ['1']), (.stop, [])] := by
  intro digit
  obtain ⟨happend, -, hspaced⟩ := scan_append standard
  have hdigit : ¬ digit.EndsInWord := by
    have hpieces : digit.lexemes = [.word ['p'] 0, .glyph '∧' 1, .glyph '1' 4] := by decide +kernel
    rintro ⟨letters, offset, hlast, -⟩
    rw [hpieces] at hlast
    cases hlast
  have hjoined := happend digit [] ['q'] (by decide) (Or.inr (Or.inl hdigit))
  have hfault := happend digit [' '] ['$'] (by decide) (Or.inl (by simp))
  refine ⟨⟨hdigit, ?_⟩, ?_, ?_⟩
  · rw [← List.append_nil digit, hjoined]
    decide +kernel
  · rw [hfault]
    decide +kernel
  · exact hspaced digit [⟨.var ['p'], ['p'], 0⟩, ⟨.symbol (.operator .and), ['∧'], 1⟩,
      ⟨.symbol (.constant true), ['1'], 4⟩, .stopAt 5] (by decide +kernel) _ (Or.inl (by decide))

end Table

end Wff
