import Wff.Grammar
import Wff.Proofs.LongestMatch
import Wff.Proofs.Tracing

/-!
# Wff.Proofs.Tiling — the tokens of a text in which conjunctions are left out

The tokens are cut from the text with marks and then moved back to the text as given.  No token runs
over a mark, so each comes from some strokes of the text: from a mark alone, or from characters as given
(`exists_strokes_of_mem`).  Moved back, the tokens of the second kind tile the text as given
(`Text.TiledBy`); one of the first kind takes no room, and stands right before the token of the operand
that it is written for (`next_of_mark`).
-/

namespace Wff

open Character

/-! ### Texts and their tokens -/

/-- The tokens stand in the text one after the other, with nothing but white space between. -/
structure Text.TiledBy (text : Text) (tokens : List Token) : Prop where
  ascending : tokens.Pairwise fun token later =>
    token.offset < later.offset ∧ token.endOffset ≤ later.offset
  stands : ∀ token ∈ tokens, ∃ before after, text = before ++ (token.literal ++ after) ∧
    token.offset = byteLength before
  /-- the bytes in none of them are those of white space -/
  covers_iff : ∀ before c after, text = before ++ c :: after →
    ∀ place, byteLength before ≤ place → place < byteLength before + c.utf8Size →
      ((∃ token ∈ tokens, token.offset ≤ place ∧ place < token.endOffset) ↔ isBlank c = false)

/-- The tokens of a text are those of the text with marks, moved back; `shown` are the latter. -/
structure Table.Tiles (table : Table) (text : Text) (shown tokens : List Token) : Prop where
  moved : tokens = shown.map (Token.mapOffset (table.reveal text).givenOffset)
  last : ∃ stop, shown.getLast? = some stop ∧ stop.offset ∉ (table.reveal text).marks ∧
    tokens.getLast? = some (.stopAt (Text.byteLength text))
  ordered : tokens.Pairwise fun token later => token.offset ≤ later.offset
  of_mark : ∀ mark ∈ (table.reveal text).marks, ∃ token ∈ shown, token.offset = mark
  /-- a token is that of a mark just if it has the same offset as the next one -/
  mark_iff : ∀ before token next after, shown = before ++ token :: next :: after →
    (token.offset ∈ (table.reveal text).marks ↔
      (token.mapOffset (table.reveal text).givenOffset).offset =
        (next.mapOffset (table.reveal text).givenOffset).offset)
  /-- a mark is written as such, and the next token begins with the character of the text at its
  offset, which is one that an operand begins with -/
  marked : ∀ before token next after, shown = before ++ token :: next :: after →
    token.offset ∈ (table.reveal text).marks →
    token.literal = [conjunctionMark] ∧ next.offset ∉ (table.reveal text).marks ∧
      ∃ front c back, text = front ++ c :: back ∧
        (next.mapOffset (table.reveal text).givenOffset).offset = Text.byteLength front ∧
        next.literal.head? = some c ∧ isBlank c = false ∧ table.startsOperand c = true
  others : text.TiledBy ((shown.filter (·.offset ∉ (table.reveal text).marks)).map
    (Token.mapOffset (table.reveal text).givenOffset))

namespace Stroke

theorem shown_eq_givenText_of_notMem {strokes : List Stroke} (h : mark ∉ strokes) :
    shown strokes = givenText strokes := by
  have hnone : marksFrom 0 strokes = [] := by
    refine List.eq_nil_iff_forall_not_mem.mpr fun place hplace => ?_
    obtain ⟨a, b, rfl, -⟩ := mem_marksFrom_iff.mp hplace
    exact h (by simp)
  exact shown_eq_givenText hnone

end Stroke

namespace Table

variable {table : Table} {text : Text}

/-- An offset at which no mark stands is moved back to a place before those of all later ones. -/
theorem givenOffset_lt {i j : Nat} (hij : i < j) (hi : i ∉ (table.reveal text).marks) :
    (table.reveal text).givenOffset i < (table.reveal text).givenOffset j := by
  have hmono := Revealed.givenOffset_mono (pairwise_marks table text) (show i + 1 ≤ j from hij)
  have hnext := Revealed.givenOffset_succ (pairwise_marks table text) i
  rw [if_neg hi] at hnext
  omega

/-! ### The strokes of a token -/

/-- A token in which a mark is written is nothing else. -/
theorem length_literal_of_mark {here : Nat} {tokens : List Token} {token : Token}
    (hscan : table.scanFrom here text = .ok tokens) (hmem : token ∈ tokens)
    (hmark : conjunctionMark ∈ token.literal) : token.literal.length = 1 := by
  obtain ⟨piece, hpiece, htoken⟩ := exists_of_mem_scanFrom hscan hmem
  have hproper := Text.proper_of_mem_lexemesFrom hpiece
  rw [(literal_of_token? htoken).1] at hmark ⊢
  cases piece with
  | glyph c offset => rfl
  | word letters offset =>
    have hletter := Text.continuesWord_of_isWord hproper conjunctionMark hmark
    rw [continuesWord_mark] at hletter
    cases hletter

/-- Around a mark, a text is scanned in parts. -/
theorem exists_of_scanFrom_mark {here : Nat} {x y : Text} {tokens : List Token}
    (hscan : table.scanFrom here (x ++ conjunctionMark :: y) = .ok tokens) :
    ∃ before token after, tokens = before ++ token :: after ∧
      token.literal = [conjunctionMark] ∧ token.offset = here + Text.byteLength x ∧
      table.scanFrom here x = .ok before ∧
      table.scanFrom (here + Text.byteLength x + 1) y = .ok after := by
  have hstops : Stops continuesWord (conjunctionMark :: y) := stops_cons.mpr continuesWord_mark
  obtain ⟨before, marked, hbefore, hmarked, rfl⟩ := (scanFrom_append_eq_ok_iff hstops).mp hscan
  rw [scanFrom, Text.lexemesFrom_glyph isBlank_mark (startsWord_eq_false continuesWord_mark)] at hmarked
  obtain ⟨token, after, htoken, hafter, rfl⟩ := mapM_cons_eq_ok_iff.mp hmarked
  obtain ⟨hliteral, hoffset⟩ := literal_of_token? htoken
  exact ⟨before, token, after, rfl, hliteral, hoffset, hbefore, hafter⟩

section Shown

variable {scanned : List Token} {token : Token}
  (hscan : table.scanFrom 0 (table.reveal text).text = .ok scanned)
include hscan

/-- Each token comes from some strokes of the text: a mark, or characters as given. -/
theorem exists_strokes_of_mem (hmem : token ∈ scanned) :
    ∃ a part b, table.strokesFrom none text = a ++ (part ++ b) ∧
      token.offset = Text.byteLength (Stroke.shown a) ∧ token.literal = Stroke.shown part ∧
      (token.offset ∈ (table.reveal text).marks ∧ part = [.mark] ∨
        token.offset ∉ (table.reveal text).marks ∧ token.literal = Stroke.givenText part) := by
  obtain ⟨before, after, htext, hoffset⟩ := stands_of_mem_scanFrom hscan hmem
  have hne := literal_ne_nil_of_mem_scanFrom hscan hmem
  rw [reveal_eq] at htext
  obtain ⟨a, rest, hstrokes, rfl, hrest⟩ := List.map_eq_append_iff.mp htext
  obtain ⟨part, b, rfl, hpart, -⟩ := List.map_eq_append_iff.mp hrest
  rw [Nat.zero_add] at hoffset
  have hmarks := mem_marks_of_cut hstrokes
  rw [← show token.offset = Text.byteLength (Stroke.shown a) from hoffset] at hmarks
  refine ⟨a, part, b, hstrokes, hoffset, hpart.symm, ?_⟩
  have hnonempty : part ≠ [] := by
    rintro rfl
    exact hne hpart.symm
  by_cases hmark : Stroke.mark ∈ part
  · -- the literal holds the mark, so it is no word
    have hwritten : conjunctionMark ∈ token.literal := by
      rw [← hpart]
      exact List.mem_map_of_mem (f := Stroke.char) hmark
    have hlength := length_literal_of_mark hscan hmem hwritten
    rw [← hpart, List.length_map] at hlength
    obtain ⟨stroke, rfl⟩ := List.length_eq_one_iff.mp hlength
    obtain rfl := List.mem_singleton.mp hmark
    exact Or.inl ⟨hmarks.mpr rfl, rfl⟩
  · refine Or.inr ⟨fun hin => ?_, ?_⟩
    · have hhead := hmarks.mp hin
      rw [List.head?_append_of_ne_nil _ hnonempty] at hhead
      exact hmark (List.mem_of_head? hhead)
    · exact hpart.symm.trans (Stroke.shown_eq_givenText_of_notMem hmark)

theorem givenOffset_endOffset_of_mark (hmem : token ∈ scanned)
    (hmark : token.offset ∈ (table.reveal text).marks) :
    (table.reveal text).givenOffset token.endOffset = (table.reveal text).givenOffset token.offset := by
  obtain ⟨_, _, _, -, -, hliteral, ⟨-, rfl⟩ | ⟨hnot, -⟩⟩ := exists_strokes_of_mem hscan hmem
  · have hend : token.endOffset = token.offset + 1 := by
      rw [Token.endOffset, hliteral]
      rfl
    have hnext := Revealed.givenOffset_succ (pairwise_marks table text) token.offset
    rw [if_pos hmark] at hnext
    rw [hend, hnext]
    rfl
  · exact absurd hmark hnot

/-- Tokens that are not those of marks are moved back to where they stand in the text as given. -/
theorem stands_of_notMem_marks
    (hmem : token ∈ scanned ++ [.stopAt (Text.byteLength (table.reveal text).text)])
    (hmark : token.offset ∉ (table.reveal text).marks) :
    ∃ before after, text = before ++ (token.literal ++ after) ∧
      (table.reveal text).givenOffset token.offset = Text.byteLength before ∧
      (table.reveal text).givenOffset token.endOffset =
        Text.byteLength before + Text.byteLength token.literal := by
  rcases List.mem_append.mp hmem with hmem | hmem
  · obtain ⟨a, part, b, hstrokes, hoffset, hliteral, hpart⟩ := exists_strokes_of_mem hscan hmem
    have hgiven : token.literal = Stroke.givenText part := by
      rcases hpart with ⟨hin, -⟩ | ⟨-, hgiven⟩
      · exact absurd hin hmark
      · exact hgiven
    have hend : token.endOffset = Text.byteLength (Stroke.shown (a ++ part)) := by
      rw [Token.endOffset, hoffset, hliteral, Stroke.shown_append, Text.byteLength_append]
    refine ⟨Stroke.givenText a, Stroke.givenText b, ?_, ?_, ?_⟩
    · rw [text_of_cut hstrokes, hgiven, Stroke.givenText_append]
    · rw [hoffset, givenOffset_of_cut hstrokes]
    · rw [← List.append_assoc] at hstrokes
      rw [hend, givenOffset_of_cut hstrokes, Stroke.givenText_append, Text.byteLength_append, hgiven]
  · obtain rfl := List.mem_singleton.mp hmem
    have hend := givenOffset_end table text
    exact ⟨text, [], by simp [Token.stopAt], hend, hend⟩

/-- Each mark has a token, and the one after it begins with the character that the mark is written
for. -/
theorem exists_tokens_of_mark {place : Nat} (hmark : place ∈ (table.reveal text).marks) :
    ∃ a c b used sign first others,
      table.strokesFrom none text = a ++ .mark :: .given c :: b ∧
      place = Text.byteLength (Stroke.shown a) ∧ isBlank c = false ∧ table.startsOperand c = true ∧
      scanned = used ++ sign :: first :: others ∧ sign.literal = [conjunctionMark] ∧
      sign.offset = place ∧ first.literal.head? = some c ∧ first.offset = place + 1 := by
  obtain ⟨a, c, b, hstrokes, rfl, hblank, hstarts⟩ := exists_strokes_of_mem_marks table hmark
  have hshown : (table.reveal text).text =
      Stroke.shown a ++ conjunctionMark :: c :: Stroke.shown b := shown_of_cut hstrokes
  rw [hshown] at hscan
  obtain ⟨used, sign, _, rfl, hliteral, hsign, -, hafter⟩ := exists_of_scanFrom_mark hscan
  obtain ⟨first, others, rfl, hhead, hfirst⟩ := exists_of_scanFrom_cons hblank hafter
  rw [Nat.zero_add] at hsign hfirst
  exact ⟨a, c, b, used, sign, first, others, hstrokes, rfl, hblank, hstarts, rfl, hliteral, hsign,
    hhead, hfirst⟩

theorem next_of_mark {before after : List Token} {next : Token}
    (hsplit : scanned ++ [.stopAt (Text.byteLength (table.reveal text).text)] =
      before ++ token :: next :: after)
    (hmark : token.offset ∈ (table.reveal text).marks) :
    token.literal = [conjunctionMark] ∧ next.offset = token.offset + 1 ∧
      next.offset ∉ (table.reveal text).marks ∧
      ∃ front c back, text = front ++ c :: back ∧
        (table.reveal text).givenOffset next.offset = Text.byteLength front ∧
        next.literal.head? = some c ∧ isBlank c = false ∧ table.startsOperand c = true := by
  obtain ⟨a, c, b, used, sign, first, others, hstrokes, hplace, hblank, hstarts, rfl, hliteral, hsign,
    hhead, hfirst⟩ := exists_tokens_of_mark hscan hmark
  -- no other token has the offset of the mark
  have hascending := ascending_of_scanFrom hscan
  rw [List.append_assoc, List.cons_append] at hascending hsplit
  obtain ⟨-, hlater, hbefore⟩ := List.pairwise_append.mp hascending
  obtain ⟨rfl, rfl, hrest⟩ := append_cons_unique (p := fun other => other.offset = sign.offset)
    (fun other hother => Nat.ne_of_lt (hbefore other hother sign List.mem_cons_self).1)
    (fun other hother => Nat.ne_of_gt ((List.pairwise_cons.mp hlater).1 other hother).1)
    hsign.symm hsplit
  obtain ⟨rfl, -⟩ := List.cons_eq_cons.mp hrest
  rw [List.append_cons] at hstrokes
  have hnext : first.offset = Text.byteLength (Stroke.shown (a ++ [.mark])) := by
    rw [hfirst, hplace, Stroke.shown_append, Text.byteLength_append]
    rfl
  refine ⟨hliteral, hfirst, ?_, Stroke.givenText a, c, Stroke.givenText b, ?_, ?_, hhead, hblank,
    hstarts⟩
  · rw [hnext, mem_marks_of_cut hstrokes]
    simp
  · rw [text_of_cut hstrokes, Stroke.givenText_append]
    simp
  · rw [hnext, givenOffset_of_cut hstrokes, Stroke.givenText_append]
    simp

theorem exists_given_token_of_ink {before after : Text} {c : Char} (htext : text = before ++ c :: after)
    (hblank : isBlank c = false) :
    ∃ token ∈ scanned, token.offset ∉ (table.reveal text).marks ∧
      (table.reveal text).givenOffset token.offset ≤ Text.byteLength before ∧
      Text.byteLength before + c.utf8Size ≤ (table.reveal text).givenOffset token.endOffset := by
  have hgiven : Stroke.givenText (table.strokesFrom none text) = before ++ c :: after := by
    rw [givenText_strokesFrom, htext]
  obtain ⟨a, b, hstrokes, hbefore, -⟩ := Stroke.exists_of_givenText_eq hgiven
  have hshown : (table.reveal text).text = Stroke.shown a ++ c :: Stroke.shown b :=
    shown_of_cut hstrokes
  obtain ⟨token, hmem, hfrom, hto⟩ := exists_token_of_ink (hshown ▸ hscan) hblank
  -- both ends of the character are moved back
  have hmarks := pairwise_marks table text
  have hstart := givenOffset_of_cut hstrokes
  rw [hbefore] at hstart
  have hend : (table.reveal text).givenOffset (Text.byteLength (Stroke.shown a) + c.utf8Size) =
      Text.byteLength before + c.utf8Size := by
    rw [List.append_cons] at hstrokes
    simpa [Stroke.char, hbefore] using givenOffset_of_cut hstrokes
  have hlow := Revealed.givenOffset_mono hmarks hfrom
  have hhigh := Revealed.givenOffset_mono hmarks hto
  rw [hstart] at hlow
  rw [hend] at hhigh
  refine ⟨token, hmem, fun hmark => ?_, hlow, hhigh⟩
  have hpos := c.utf8Size_pos
  rw [givenOffset_endOffset_of_mark hscan hmem hmark] at hhigh
  omega

/-- Moved back, the tokens that are not those of marks tile the text as given. -/
theorem tiledBy_of_scanFrom :
    text.TiledBy (((scanned ++ [Token.stopAt (Text.byteLength (table.reveal text).text)]).filter
      (·.offset ∉ (table.reveal text).marks)).map
        (Token.mapOffset (table.reveal text).givenOffset)) where
  ascending := by
    rw [List.pairwise_map]
    refine ((ascending_of_scanFrom hscan).filter _).imp_of_mem fun {token later} htoken _ hle => ?_
    obtain ⟨hmem, hmark⟩ := List.mem_filter.mp htoken
    have hmark : token.offset ∉ (table.reveal text).marks := by simpa using hmark
    obtain ⟨before, -, -, hfrom, hto⟩ := stands_of_notMem_marks hscan hmem hmark
    have hmono := Revealed.givenOffset_mono (pairwise_marks table text) hle.2
    refine ⟨givenOffset_lt hle.1 hmark, ?_⟩
    show (table.reveal text).givenOffset token.offset + Text.byteLength token.literal ≤
      (table.reveal text).givenOffset later.offset
    omega
  stands := by
    intro moved hmoved
    obtain ⟨token, htoken, rfl⟩ := List.mem_map.mp hmoved
    obtain ⟨hmem, hmark⟩ := List.mem_filter.mp htoken
    obtain ⟨before, after, htext, hfrom, -⟩ := stands_of_notMem_marks hscan hmem (by simpa using hmark)
    exact ⟨before, after, htext, hfrom⟩
  covers_iff := by
    intro before c after htext place hlow hhigh
    constructor
    · rintro ⟨moved, hmoved, hfrom, hto⟩
      obtain ⟨token, htoken, rfl⟩ := List.mem_map.mp hmoved
      obtain ⟨hmem, hmark⟩ := List.mem_filter.mp htoken
      obtain ⟨front, back, hsplit, hoffset, -⟩ :=
        stands_of_notMem_marks hscan hmem (by simpa using hmark)
      have hc : c ∈ token.literal := by
        refine Text.mem_of_place (htext.symm.trans hsplit) hlow hhigh ?_ ?_
        · rw [← hoffset]
          exact hfrom
        · rw [← hoffset]
          exact hto
      -- what ends the list has no literal, so it covers no character
      rcases List.mem_append.mp hmem with hmem | hmem
      · exact isBlank_eq_false_of_mem_scanFrom hscan hmem c hc
      · rw [List.mem_singleton.mp hmem] at hc
        cases hc
    · intro hblank
      obtain ⟨token, htoken, hmark, hfrom, hto⟩ :=
        exists_given_token_of_ink hscan htext hblank
      have hmem := List.mem_append_left [Token.stopAt (Text.byteLength (table.reveal text).text)] htoken
      obtain ⟨front, -, -, hoffset, hend⟩ := stands_of_notMem_marks hscan hmem hmark
      refine ⟨_, List.mem_map_of_mem (List.mem_filter.mpr ⟨hmem, by simpa using hmark⟩), ?_, ?_⟩
      · exact hfrom.trans hlow
      · show place < (table.reveal text).givenOffset token.offset + Text.byteLength token.literal
        omega

theorem tiles_of_scanFrom :
    table.Tiles text (scanned ++ [Token.stopAt (Text.byteLength (table.reveal text).text)])
      ((scanned ++ [Token.stopAt (Text.byteLength (table.reveal text).text)]).map
        (Token.mapOffset (table.reveal text).givenOffset)) where
  moved := rfl
  last := by
    refine ⟨_, List.getLast?_concat, ?_, ?_⟩
    · exact end_notMem_marks table text
    · rw [List.getLast?_map, List.getLast?_concat]
      exact congrArg (some ∘ Token.stopAt) (givenOffset_end table text)
  ordered := by
    rw [List.pairwise_map]
    refine (ascending_of_scanFrom hscan).imp fun {token later} hlt => ?_
    exact Revealed.givenOffset_mono (pairwise_marks table text) (Nat.le_of_lt hlt.1)
  of_mark := by
    intro mark hmark
    obtain ⟨-, -, -, used, sign, first, others, -, -, -, -, rfl, -, hsign, -⟩ :=
      exists_tokens_of_mark hscan hmark
    exact ⟨sign, by simp, hsign⟩
  mark_iff := by
    intro before token next after hsplit
    constructor
    · intro hmark
      obtain ⟨-, hnext, -⟩ := next_of_mark hscan hsplit hmark
      have hstep := Revealed.givenOffset_succ (pairwise_marks table text) token.offset
      rw [if_pos hmark, ← hnext] at hstep
      exact hstep.symm
    · intro hsame
      -- offsets grow in front of anything but a mark, and so do those traced back
      by_contra hmark
      have hascending := ascending_of_scanFrom hscan
      rw [hsplit] at hascending
      have hlater := (List.pairwise_append.mp hascending).2.1
      have hlt := ((List.pairwise_cons.mp hlater).1 next List.mem_cons_self).1
      exact Nat.ne_of_lt (givenOffset_lt hlt hmark) hsame
  marked := by
    intro before token next after hsplit hmark
    obtain ⟨hliteral, -, hnext, hoperand⟩ := next_of_mark hscan hsplit hmark
    exact ⟨hliteral, hnext, hoperand⟩
  others := tiledBy_of_scanFrom hscan

end Shown

/-- **Where conjunctions may be left out, tokens still tile the text.**  They are the tokens of the text
with marks, moved back: the last one is the end, none comes before the one before it, and those that
have the offset of the next one are just the tokens of marks, each followed by the token of an operand
that stands there.  The others stand in the text as given one after the other, with nothing but white
space between. -/
theorem tiles_of_tokenize {tokens : List Token} (h : table.tokenize true text = .ok tokens) :
    ∃ shown, table.tokens (table.reveal text).text = .ok shown ∧ table.Tiles text shown tokens := by
  unfold tokenize at h
  rw [if_pos rfl] at h
  dsimp only at h
  cases hshown : table.tokens (table.reveal text).text with
  | error fault => simp [hshown] at h
  | ok shown =>
    obtain ⟨scanned, hscan, rfl⟩ := scanFrom_of_tokens hshown
    rw [hshown] at h
    obtain rfl := Except.ok.inj h
    exact ⟨_, rfl, tiles_of_scanFrom hscan⟩

/-- `¬p.é (q)`: one conjunction is written, and one is left out before the bracket, where its mark has
the same offset. -/
theorem tiles_of_tokenize_before_bracket :
    let text : Text := ['¬', 'p', '.', 'é', ' ', '(', 'q', ')']
    ∃ tokens shown, standard.tokenize true text = .ok tokens ∧ standard.Tiles text shown tokens ∧
      tokens.map (fun token => (token.literal, token.offset)) =
        [(['¬'], 0), (['p'], 2), (['.'], 3), (['é'], 4), (['.'], 7), (['('], 7), (['q'], 8),
          ([')'], 9), ([], 10)] := by
  intro text
  have hpairs : (standard.tokenize true text).map
      (List.map fun token => (token.literal, token.offset)) =
      .ok [(['¬'], 0), (['p'], 2), (['.'], 3), (['é'], 4), (['.'], 7), (['('], 7), (['q'], 8),
        ([')'], 9), ([], 10)] := by decide +kernel
  cases htokens : standard.tokenize true text with
  | error fault =>
    rw [htokens] at hpairs
    cases hpairs
  | ok tokens =>
    rw [htokens] at hpairs
    obtain ⟨shown, -, htiles⟩ := tiles_of_tokenize htokens
    exact ⟨tokens, shown, rfl, htiles, Except.ok.inj hpairs⟩

end Table

end Wff
