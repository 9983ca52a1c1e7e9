import Wff.Proofs.Scanning
import Wff.Symbol.Standard

/-!
# Wff.Proofs.LongestMatch — words and glyphs by longest match

Three patterns say what a text is made of: white space, words and single glyphs (`Segment.Fits`).  A
text is split by longest match if each segment is the longest that what is left begins with
(`Text.Splits`).  The first character tells the pattern, so the longest segment is a run after it
(`Segment.longest_cons_iff`), and there is one such split of every text (`Text.existsUnique_splits`).

Cutting a text finds these segments (`Text.Splits.lexemesFrom_eq`).  `Table.Reads` says what the tokens
of a text are in terms of them; `tokens_of_splits` gives the whole outcome, and which of the faults
comes first.
-/

namespace Wff

open Character

/-! ### Segments -/

inductive Segment
  | space (blanks : Text)
  | word (letters : Text)
  | glyph (c : Char)
  deriving DecidableEq

namespace Segment

def text : Segment → Text
  | space blanks => blanks
  | word letters => letters
  | glyph c => [c]

def Fits : Segment → Prop
  | space blanks => blanks ≠ [] ∧ blanks.Blank
  | word letters => letters.isWord = true
  | glyph c => isBlank c = false ∧ startsWord c = false

/-- Of all segments that the text begins with, this is the longest. -/
structure Longest (segment : Segment) (text : Text) : Prop where
  fits : segment.Fits
  begins : segment.text <+: text
  /-- no segment that the text begins with is longer -/
  longest : ∀ other : Segment, other.Fits → other.text <+: text →
    other.text.length ≤ segment.text.length

def joined (segments : List Segment) : Text := segments.flatMap text

@[simp] theorem joined_nil : joined [] = [] := rfl

@[simp] theorem joined_cons (segment : Segment) (segments : List Segment) :
    joined (segment :: segments) = segment.text ++ joined segments := rfl

@[simp] theorem joined_append (a b : List Segment) : joined (a ++ b) = joined a ++ joined b :=
  List.flatMap_append

end Segment

inductive Text.Splits : Text → List Segment → Prop
  | nil : Splits [] []
  | cons {segment : Segment} {rest : Text} {segments : List Segment}
      (longest : segment.Longest (segment.text ++ rest)) (others : Splits rest segments) :
      Splits (segment.text ++ rest) (segment :: segments)

theorem Text.Splits.joined_eq {text : Text} {segments : List Segment} (h : text.Splits segments) :
    Segment.joined segments = text := by
  induction h with
  | nil => rfl
  | cons longest others ih => rw [Segment.joined_cons, ih]

theorem Text.Splits.fits {text : Text} {segments : List Segment} (h : text.Splits segments) :
    ∀ segment ∈ segments, segment.Fits := by
  induction h with
  | nil => simp
  | cons longest others ih => exact List.forall_mem_cons.mpr ⟨longest.fits, ih⟩

/-! ### The longest segment -/

namespace Segment

/-- The segment that begins with a character and goes on with more, if it may. -/
def ofCons (c : Char) (more : Text) : Segment :=
  if isBlank c then space (c :: more) else if startsWord c then word (c :: more) else glyph c

/-- Which characters a segment that begins with `c` goes on with. -/
def runsOn (c : Char) : Char → Bool :=
  if isBlank c then isBlank else if startsWord c then continuesWord else fun _ => false

theorem Fits.exists_cons {segment : Segment} (h : segment.Fits) :
    ∃ c more, segment = ofCons c more ∧ segment.text = c :: more ∧
      ∀ d ∈ more, runsOn c d = true := by
  -- the three patterns are told apart by their first character
  cases segment with
  | space blanks =>
    obtain ⟨hne, hblank⟩ := h
    obtain ⟨c, more, rfl⟩ := List.exists_cons_of_ne_nil hne
    have hc : isBlank c = true := hblank c List.mem_cons_self
    refine ⟨c, more, (if_pos hc).symm, rfl, ?_⟩
    rw [runsOn, if_pos hc]
    exact fun d hd => hblank d (List.mem_cons_of_mem c hd)
  | word letters =>
    cases letters with
    | nil => cases h
    | cons c more =>
      obtain ⟨hstart, hmore⟩ := Bool.and_eq_true_iff.mp h
      have hc : ¬ isBlank c = true := by
        simp [isBlank_eq_false_of_continuesWord (continuesWord_of_startsWord hstart)]
      refine ⟨c, more, by rw [ofCons, if_neg hc, if_pos hstart], rfl, ?_⟩
      rw [runsOn, if_neg hc, if_pos hstart]
      exact List.all_eq_true.mp hmore
  | glyph c =>
    obtain ⟨hblank, hstart⟩ := h
    exact ⟨c, [], by simp [ofCons, hblank, hstart], rfl, by simp⟩

theorem fits_ofCons {c : Char} {more : Text} (h : ∀ d ∈ more, runsOn c d = true) :
    (ofCons c more).Fits ∧ (ofCons c more).text = c :: more := by
  unfold ofCons
  unfold runsOn at h
  by_cases hblank : isBlank c = true
  · rw [if_pos hblank] at h ⊢
    exact ⟨⟨by simp, List.forall_mem_cons.mpr ⟨hblank, h⟩⟩, rfl⟩
  · rw [if_neg hblank] at h ⊢
    by_cases hstart : startsWord c = true
    · rw [if_pos hstart] at h ⊢
      exact ⟨Bool.and_eq_true_iff.mpr ⟨hstart, List.all_eq_true.mpr h⟩, rfl⟩
    · rw [if_neg hstart] at h ⊢
      have hnil : more = [] := List.eq_nil_iff_forall_not_mem.mpr fun d hd => by simpa using h d hd
      rw [hnil]
      exact ⟨⟨by simpa using hblank, by simpa using hstart⟩, rfl⟩

theorem fits_run (c : Char) (rest : Text) :
    (ofCons c (rest.takeWhile (runsOn c))).Fits ∧
      (ofCons c (rest.takeWhile (runsOn c))).text = c :: rest.takeWhile (runsOn c) :=
  fits_ofCons fun _ hd => List.mem_takeWhile_imp hd

/-- **The longest segment is the whole run after the first character.** -/
theorem longest_cons_iff {segment : Segment} {c : Char} {rest : Text} :
    segment.Longest (c :: rest) ↔ segment = ofCons c (rest.takeWhile (runsOn c)) := by
  -- every segment that the text begins with is part of that run
  have hwithin : ∀ other : Segment, other.Fits → other.text <+: c :: rest →
      ∃ more, other = ofCons c more ∧ other.text = c :: more ∧
        more <+: rest.takeWhile (runsOn c) := by
    intro other hfits hbegins
    obtain ⟨d, more, hother, htext, hmore⟩ := hfits.exists_cons
    rw [htext, List.cons_prefix_cons] at hbegins
    obtain ⟨rfl, after, rfl⟩ := hbegins
    refine ⟨more, hother, htext, ?_⟩
    rw [List.takeWhile_append_of_pos hmore]
    exact List.prefix_append _ _
  obtain ⟨hfits, htext⟩ := fits_run c rest
  have hbegins : (ofCons c (rest.takeWhile (runsOn c))).text <+: c :: rest := by
    rw [htext]
    exact List.cons_prefix_cons.mpr ⟨rfl, List.takeWhile_prefix _⟩
  constructor
  · intro h
    obtain ⟨more, hsegment, hlength, hmore⟩ := hwithin segment h.fits h.begins
    have hlonger := h.longest _ hfits hbegins
    rw [htext, hlength, List.length_cons, List.length_cons] at hlonger
    rw [hsegment, hmore.eq_of_length_le (by omega)]
  · rintro rfl
    refine ⟨hfits, hbegins, fun other hother hprefix => ?_⟩
    obtain ⟨more, -, hlength, hmore⟩ := hwithin other hother hprefix
    rw [htext, hlength]
    exact Nat.succ_le_succ hmore.length_le

end Segment

namespace Text

open Segment

theorem splits_nil_iff {segments : List Segment} : Splits [] segments ↔ segments = [] := by
  constructor
  · intro h
    have hjoined := h.joined_eq
    cases segments with
    | nil => rfl
    | cons segment others =>
      obtain ⟨c, more, -, htext, -⟩ := (h.fits segment List.mem_cons_self).exists_cons
      rw [joined_cons, htext] at hjoined
      cases hjoined
  · rintro rfl
    exact .nil

theorem splits_cons_iff {c : Char} {rest : Text} {segments : List Segment} :
    Splits (c :: rest) segments ↔
      ∃ others, segments = ofCons c (rest.takeWhile (runsOn c)) :: others ∧
        Splits (rest.dropWhile (runsOn c)) others := by
  obtain ⟨-, htext⟩ := fits_run c rest
  have hsplit : (ofCons c (rest.takeWhile (runsOn c))).text ++ rest.dropWhile (runsOn c) =
      c :: rest := by
    rw [htext, List.cons_append, List.takeWhile_append_dropWhile]
  constructor
  · intro h
    -- a split is at its first segment, which the longest match settles
    generalize hwhole : c :: rest = whole at h
    cases h with
    | nil => cases hwhole
    | @cons segment after _ longest others =>
      rw [← hwhole] at longest
      have hsegment := longest_cons_iff.mp longest
      rw [hsegment, ← hsplit] at hwhole
      rw [hsegment, List.append_cancel_left hwhole]
      exact ⟨_, rfl, others⟩
  · rintro ⟨others, rfl, hothers⟩
    rw [← hsplit]
    refine .cons ?_ hothers
    rw [hsplit]
    exact longest_cons_iff.mpr rfl

/-- **Every text is split by longest match in one way.** -/
theorem existsUnique_splits (text : Text) : ∃! segments, Splits text segments := by
  induction hlength : text.length using Nat.strongRecOn generalizing text with
  | ind n ih =>
    cases text with
    | nil => exact ⟨[], .nil, fun segments h => splits_nil_iff.mp h⟩
    | cons c rest =>
      have hshorter : (rest.dropWhile (runsOn c)).length < n := by
        rw [← hlength]
        exact Nat.lt_succ_of_le (List.dropWhile_suffix _).length_le
      obtain ⟨others, hothers, hunique⟩ := ih _ hshorter _ rfl
      refine ⟨_, splits_cons_iff.mpr ⟨others, rfl, hothers⟩, ?_⟩
      intro segments h
      obtain ⟨others', rfl, hothers'⟩ := splits_cons_iff.mp h
      rw [hunique others' hothers']

end Text

/-! ### Pieces -/

namespace Segment

/-- The words and glyphs among the segments of a text that begins at a byte offset. -/
def pieces (here : Nat) : List Segment → List Lexeme
  | [] => []
  | space blanks :: rest => pieces (here + Text.byteLength blanks) rest
  | word letters :: rest => .word letters here :: pieces (here + Text.byteLength letters) rest
  | glyph c :: rest => .glyph c here :: pieces (here + c.utf8Size) rest

theorem pieces_append (here : Nat) (a b : List Segment) :
    pieces here (a ++ b) = pieces here a ++ pieces (here + Text.byteLength (joined a)) b := by
  induction a generalizing here with
  | nil => rfl
  | cons segment a ih =>
    cases segment with
    | space | word | glyph => simp [pieces, ih, text, Nat.add_assoc]

def literal? : Segment → Option Text
  | space _ => none
  | word letters => some letters
  | glyph c => some [c]

theorem map_literal_pieces (here : Nat) (segments : List Segment) :
    (pieces here segments).map Lexeme.literal = segments.filterMap literal? := by
  induction segments generalizing here with
  | nil => rfl
  | cons segment segments ih =>
    cases segment with
    | space blanks => exact ih _
    | word letters | glyph c =>
      rw [pieces, List.map_cons, ih]
      rfl

end Segment

theorem Segment.Longest.stops {letters rest : Text}
    (h : (Segment.word letters).Longest (letters ++ rest)) : Stops continuesWord rest := by
  cases rest with
  | nil => exact stops_nil _
  | cons c rest =>
    rw [stops_cons, Bool.eq_false_iff]
    intro hc
    have hword : (letters ++ [c]).isWord = true := by
      cases letters with
      | nil => cases h.fits
      | cons d more =>
        obtain ⟨hstart, hmore⟩ := Bool.and_eq_true_iff.mp h.fits
        refine Bool.and_eq_true_iff.mpr ⟨hstart, ?_⟩
        show (more ++ [c]).all continuesWord = true
        simp [List.all_append, hmore, hc]
    have hlonger := h.longest (.word (letters ++ [c])) hword ⟨rest, by simp [Segment.text]⟩
    change (letters ++ [c]).length ≤ letters.length at hlonger
    rw [List.length_append, List.length_singleton] at hlonger
    omega

/-- **Cutting a text finds its segments by longest match.** -/
theorem Text.Splits.lexemesFrom_eq {text : Text} {segments : List Segment} (h : text.Splits segments)
    (here : Nat) : text.lexemesFrom here = Segment.pieces here segments := by
  induction h generalizing here with
  | nil => rw [lexemesFrom, Segment.pieces]
  | @cons segment rest segments longest others ih =>
    cases segment with
    | space blanks =>
      rw [Segment.pieces, ← ih]
      exact lexemesFrom_blanks longest.fits.2 here rest
    | word letters =>
      have hstops : Stops continuesWord rest := longest.stops
      have hword : lexemesFrom here letters = [.word letters here] :=
        lexemesFrom_word longest.fits here
      rw [Segment.pieces, ← ih, Segment.text, lexemesFrom_append hstops, hword]
      rfl
    | glyph c =>
      rw [Segment.pieces, ← ih]
      exact lexemesFrom_glyph longest.fits.1 longest.fits.2 here rest

/-! ### Tokens -/

/-- The segment is no glyph that the table does not know. -/
def Table.Knows (table : Table) : Segment → Prop
  | .glyph c => table.glyph? c ≠ none
  | .space _ | .word _ => True

instance (table : Table) : DecidablePred table.Knows
  | .glyph c => inferInstanceAs (Decidable (table.glyph? c ≠ none))
  | .space _ | .word _ => inferInstanceAs (Decidable True)

/-- The tokens are those of the text that is split into the segments. -/
structure Table.Reads (table : Table) (text : Text) (segments : List Segment)
    (tokens : List Token) : Prop where
  literals : tokens.map Token.literal = segments.filterMap Segment.literal?
  stands : ∀ token ∈ tokens, ∃ before after, text = before ++ (token.literal ++ after) ∧
    token.offset = Text.byteLength before
  ascending : (tokens ++ [Token.stopAt (Text.byteLength text)]).Pairwise fun token later =>
    token.offset < later.offset ∧ token.endOffset ≤ later.offset
  /-- the bytes in none of them are those of white space -/
  covers_iff : ∀ before c after, text = before ++ c :: after →
    ∀ place, Text.byteLength before ≤ place → place < Text.byteLength before + c.utf8Size →
      ((∃ token ∈ tokens, token.offset ≤ place ∧ place < token.endOffset) ↔ isBlank c = false)
  /-- a word or glyph in the table means what the table says -/
  known : ∀ token ∈ tokens, ∀ s, table.lookup? token.literal = some s → token.meaning = .symbol s
  /-- a word that is not in the table is the variable of that name; there are no other tokens -/
  unknown : ∀ token ∈ tokens, table.lookup? token.literal = none →
    token.literal.isWord = true ∧ token.meaning = .var token.literal

namespace Text

theorem mem_of_place {before after front part back : Text} {c : Char}
    (h : before ++ c :: after = front ++ (part ++ back)) {place : Nat}
    (hlow : byteLength before ≤ place) (hhigh : place < byteLength before + c.utf8Size)
    (hfront : byteLength front ≤ place) (hpart : place < byteLength front + byteLength part) :
    c ∈ part := by
  rcases List.append_eq_append_iff.mp h with ⟨more, rfl, hmore⟩ | ⟨more, rfl, hmore⟩
  · -- the part begins after the character, unless nothing is between
    cases more with
    | nil =>
      cases part with
      | nil =>
        rw [byteLength_nil] at hpart
        omega
      | cons d part =>
        obtain ⟨rfl, -⟩ := List.cons_eq_cons.mp hmore
        exact List.mem_cons_self
    | cons d more =>
      obtain ⟨rfl, -⟩ := List.cons_eq_cons.mp hmore
      rw [byteLength_append, byteLength_cons] at hfront
      omega
  · rcases List.append_eq_append_iff.mp hmore with ⟨rest, rfl, -⟩ | ⟨rest, rfl, hrest⟩
    · rw [byteLength_append, byteLength_append] at hlow
      omega
    · cases rest with
      | nil =>
        rw [List.append_nil] at hpart
        rw [byteLength_append] at hlow
        omega
      | cons d rest =>
        obtain ⟨rfl, -⟩ := List.cons_eq_cons.mp hrest
        simp

theorem pairwise_lexemesFrom (here : Nat) (text : Text) :
    (text.lexemesFrom here).Pairwise fun piece later =>
      piece.offset + byteLength piece.literal ≤ later.offset := by
  have hafter : ∀ {here : Nat} {text : Text}, ∀ piece ∈ text.lexemesFrom here,
      here ≤ piece.offset := by
    intro here text piece hpiece
    obtain ⟨before, after, -, hoffset⟩ := exists_of_mem_lexemesFrom hpiece
    omega
  fun_induction lexemesFrom here text with
  | case1 => exact .nil
  | case2 here c rest hblank ih => exact ih
  | case3 here c rest hblank hstart ih => exact List.pairwise_cons.mpr ⟨hafter, ih⟩
  | case4 here c rest hblank hstart ih =>
    refine List.pairwise_cons.mpr ⟨fun piece hpiece => ?_, ih⟩
    have hlow := hafter piece hpiece
    simpa [Lexeme.offset, Lexeme.literal] using hlow

theorem exists_piece_of_ink {c : Char} (h : isBlank c = false) (before after : Text) :
    ∃ piece ∈ (before ++ c :: after).lexemesFrom 0, piece.offset ≤ byteLength before ∧
      byteLength before + c.utf8Size ≤ piece.offset + byteLength piece.literal := by
  -- the character begins a piece, or a word runs over the place before it
  rcases lexemesFrom_append_cases 0 before (c :: after) with hparts | ⟨-, word, hmem, hruns⟩
  · obtain ⟨piece, more, hpieces, hhead, hoffset⟩ :=
      exists_of_lexemesFrom_cons h (0 + byteLength before) after
    refine ⟨piece, ?_, by omega, ?_⟩
    · rw [hparts, hpieces]
      simp
    · obtain ⟨rest, hliteral⟩ := List.head?_eq_some_iff.mp hhead
      rw [hliteral, byteLength_cons, hoffset]
      omega
  · obtain ⟨front, letters, letters', back, rfl, hback, -, hne, rfl⟩ := hruns
    obtain ⟨d, rest, rfl⟩ := List.exists_cons_of_ne_nil hne
    obtain ⟨rfl, -⟩ := List.cons_eq_cons.mp hback
    refine ⟨_, hmem, ?_, ?_⟩
    · show 0 + byteLength front ≤ _
      rw [byteLength_append]
      omega
    · show _ ≤ 0 + byteLength front + byteLength (letters ++ c :: rest)
      rw [byteLength_append, byteLength_append, byteLength_cons]
      omega

end Text

namespace Table

variable {table : Table} {text : Text} {segments : List Segment}

theorem ascending_of_scanFrom {tokens : List Token} (hscan : table.scanFrom 0 text = .ok tokens) :
    (tokens ++ [Token.stopAt (Text.byteLength text)]).Pairwise fun token later =>
      token.offset < later.offset ∧ token.endOffset ≤ later.offset := by
  -- tokens keep the literals and offsets of the pieces they are made of
  have hpairs : (tokens.map fun token => (token.offset, token.literal)).Pairwise fun p q =>
      p.1 + Text.byteLength p.2 ≤ q.1 := by
    have hkeep : ∀ piece token, table.token? piece = .ok token →
        (token.offset, token.literal) = (piece.offset, piece.literal) := by
      intro piece token htoken
      obtain ⟨hliteral, hoffset⟩ := literal_of_token? htoken
      rw [hliteral, hoffset]
    have hsame : tokens.map (fun token => (token.offset, token.literal)) =
        (text.lexemesFrom 0).map fun piece => (piece.offset, piece.literal) :=
      map_eq_of_mapM hkeep hscan
    rw [hsame, List.pairwise_map]
    exact Text.pairwise_lexemesFrom 0 text
  rw [List.pairwise_map] at hpairs
  have hlength : ∀ token ∈ tokens, token.offset < token.endOffset := by
    intro token htoken
    have hpos := Text.byteLength_pos (literal_ne_nil_of_mem_scanFrom hscan htoken)
    unfold Token.endOffset
    omega
  rw [List.pairwise_append]
  refine ⟨?_, List.pairwise_singleton _ _, ?_⟩
  · refine hpairs.imp_of_mem fun {token later} htoken _ hle => ?_
    exact ⟨Nat.lt_of_lt_of_le (hlength token htoken) hle, hle⟩
  · intro token htoken stop hstop
    obtain ⟨before, after, rfl, hoffset⟩ := stands_of_mem_scanFrom hscan htoken
    have hle : token.endOffset ≤ Text.byteLength (before ++ (token.literal ++ after)) := by
      rw [Text.byteLength_append, Text.byteLength_append]
      unfold Token.endOffset
      omega
    rw [List.mem_singleton.mp hstop]
    exact ⟨Nat.lt_of_lt_of_le (hlength token htoken) hle, hle⟩

theorem exists_token_of_ink {before after : Text} {c : Char} {tokens : List Token}
    (hscan : table.scanFrom 0 (before ++ c :: after) = .ok tokens) (hblank : isBlank c = false) :
    ∃ token ∈ tokens, token.offset ≤ Text.byteLength before ∧
      Text.byteLength before + c.utf8Size ≤ token.endOffset := by
  obtain ⟨piece, hpiece, hfrom, hto⟩ := Text.exists_piece_of_ink hblank before after
  obtain ⟨token, htoken, hmade⟩ := exists_of_mem_mapM_source hscan hpiece
  obtain ⟨hliteral, hoffset⟩ := literal_of_token? hmade
  refine ⟨token, htoken, by rwa [hoffset], ?_⟩
  rwa [Token.endOffset, hliteral, hoffset]

/-- A byte is in a token just if it is not one of white space. -/
theorem covers_iff_of_scanFrom {tokens : List Token} (hscan : table.scanFrom 0 text = .ok tokens)
    {before after : Text} {c : Char} (htext : text = before ++ c :: after) {place : Nat}
    (hlow : Text.byteLength before ≤ place) (hhigh : place < Text.byteLength before + c.utf8Size) :
    (∃ token ∈ tokens, token.offset ≤ place ∧ place < token.endOffset) ↔ isBlank c = false := by
  constructor
  · rintro ⟨token, htoken, hfrom, hto⟩
    obtain ⟨front, back, hsplit, hoffset⟩ := stands_of_mem_scanFrom hscan htoken
    unfold Token.endOffset at hto
    have hmem : c ∈ token.literal :=
      Text.mem_of_place (htext.symm.trans hsplit) hlow hhigh (by omega) (by omega)
    exact isBlank_eq_false_of_mem_scanFrom hscan htoken c hmem
  · intro hblank
    obtain ⟨token, htoken, hfrom, hto⟩ := exists_token_of_ink (htext ▸ hscan) hblank
    exact ⟨token, htoken, hfrom.trans hlow, hhigh.trans_le hto⟩

theorem reads_of_scanFrom (hsplits : text.Splits segments) {tokens : List Token}
    (hscan : table.scanFrom 0 text = .ok tokens) : table.Reads text segments tokens where
  literals := by
    have hsame := map_eq_of_mapM (fun piece token htoken => (literal_of_token? htoken).1) hscan
    rw [hsame, hsplits.lexemesFrom_eq, Segment.map_literal_pieces]
  stands token htoken := by
    obtain ⟨before, after, htext, hoffset⟩ := stands_of_mem_scanFrom hscan htoken
    exact ⟨before, after, htext, by omega⟩
  ascending := ascending_of_scanFrom hscan
  covers_iff _ _ _ htext _ hlow hhigh := covers_iff_of_scanFrom hscan htext hlow hhigh
  known token htoken s hs := by
    rcases meaning_of_mem_scanFrom hscan htoken with ⟨s', hs', hmeaning⟩ | ⟨hnone, -, -⟩
    · rw [hs] at hs'
      rw [hmeaning, Option.some.inj hs']
    · rw [hs] at hnone
      cases hnone
  unknown token htoken hnone := by
    rcases meaning_of_mem_scanFrom hscan htoken with ⟨s, hs, -⟩ | ⟨-, hword, hmeaning⟩
    · rw [hnone] at hs
      cases hs
    · exact ⟨hword, hmeaning⟩

theorem exists_mapM_pieces (here : Nat) (h : ∀ segment ∈ segments, table.Knows segment) :
    ∃ tokens, (Segment.pieces here segments).mapM table.token? = .ok tokens := by
  -- pieces are numbered by where they stand, so the offset moves with the induction
  induction segments generalizing here with
  | nil => exact ⟨[], rfl⟩
  | cons segment segments ih =>
    obtain ⟨hfirst, hrest⟩ := List.forall_mem_cons.mp h
    cases segment with
    | space blanks => exact ih _ hrest
    | word letters =>
      obtain ⟨tokens, htokens⟩ := ih (here + Text.byteLength letters) hrest
      have htoken : ∃ token, table.token? (.word letters here) = .ok token := by
        unfold token?
        dsimp only
        split <;> exact ⟨_, rfl⟩
      obtain ⟨token, htoken⟩ := htoken
      exact ⟨_, mapM_cons_eq_ok_iff.mpr ⟨token, tokens, htoken, htokens, rfl⟩⟩
    | glyph c =>
      obtain ⟨tokens, htokens⟩ := ih (here + c.utf8Size) hrest
      obtain ⟨s, hs⟩ := Option.ne_none_iff_exists'.mp hfirst
      have htoken : table.token? (.glyph c here) = .ok ⟨.symbol s, [c], here⟩ := by
        rw [token?, hs]
      exact ⟨_, mapM_cons_eq_ok_iff.mpr ⟨_, tokens, htoken, htokens, rfl⟩⟩

/-- The first glyph that the table does not know is the fault of the text. -/
theorem tokens_of_unknown {before after : List Segment} {c : Char}
    (hsplits : text.Splits (before ++ .glyph c :: after))
    (hbefore : ∀ segment ∈ before, table.Knows segment) (hc : table.glyph? c = none) :
    table.tokens text = .error (.unrecognized c (Text.byteLength (Segment.joined before))) := by
  obtain ⟨tokens, htokens⟩ := exists_mapM_pieces 0 hbefore
  have htoken : table.token? (.glyph c (0 + Text.byteLength (Segment.joined before))) =
      .error (.unrecognized c (Text.byteLength (Segment.joined before))) := by
    rw [token?, hc, Nat.zero_add]
  refine tokens_of_scanFrom_error ?_
  rw [scanFrom, hsplits.lexemesFrom_eq, Segment.pieces_append]
  exact mapM_eq_error_iff.mpr ⟨_, _, _, tokens, rfl, htokens, htoken⟩

/-- **Scanning is longest match, and bracket matching after it.**  Every text is split by longest match
in one way.  If the table does not know some glyph, the fault is the first of these, whatever brackets
come before it; else the words and glyphs become tokens, and the fault is that of their brackets, if
there is one. -/
theorem tokens_of_splits (table : Table) (text : Text) :
    ∃ segments, text.Splits segments ∧ (∀ other, text.Splits other → other = segments) ∧
      ((∃ segment ∈ segments, ¬ table.Knows segment) →
        ∃ before c after, segments = before ++ .glyph c :: after ∧
          (∀ segment ∈ before, table.Knows segment) ∧ table.glyph? c = none ∧
          table.tokens text = .error (.unrecognized c (Text.byteLength (Segment.joined before)))) ∧
      ((∀ segment ∈ segments, table.Knows segment) →
        ∃ tokens, table.Reads text segments tokens ∧
          let ended := tokens ++ [Token.stopAt (Text.byteLength text)]
          (∀ fault, checkBrackets ended = .error fault → table.tokens text = .error fault) ∧
          (checkBrackets ended = .ok () → table.tokens text = .ok ended)) := by
  obtain ⟨segments, hsplits, hunique⟩ := text.existsUnique_splits
  refine ⟨segments, hsplits, hunique, ?_, ?_⟩
  · rintro ⟨segment, hmem, hunknown⟩
    -- the first segment that the table does not know can only be a glyph
    have hfound : (segments.find? fun segment => ¬ table.Knows segment).isSome :=
      List.find?_isSome.mpr ⟨segment, hmem, decide_eq_true hunknown⟩
    obtain ⟨first, hfirst⟩ := Option.isSome_iff_exists.mp hfound
    obtain ⟨hnot, before, after, rfl, hbefore⟩ := List.find?_eq_some_iff_append.mp hfirst
    have hknown : ∀ segment ∈ before, table.Knows segment := by simpa using hbefore
    cases first with
    | space blanks | word letters => simp [Knows] at hnot
    | glyph c =>
      have hc : table.glyph? c = none := by simpa [Knows] using hnot
      exact ⟨before, c, after, rfl, hknown, hc, tokens_of_unknown hsplits hknown hc⟩
  · intro hknown
    obtain ⟨tokens, htokens⟩ := exists_mapM_pieces 0 hknown
    have hscan : table.scanFrom 0 text = .ok tokens := by
      rw [scanFrom, hsplits.lexemesFrom_eq, htokens]
    refine ⟨tokens, reads_of_scanFrom hsplits hscan, fun fault hfault => ?_, fun hmatched => ?_⟩
    · rw [tokens_of_scanFrom hscan, show matchBrackets [] _ = _ from hfault]
    · rw [tokens_of_scanFrom hscan, show matchBrackets [] _ = _ from hmatched]

/-- In `) $` the glyph that is not known counts, and not the bracket before it; `a1 1` is a word and a
glyph, though both hold a `1`. -/
theorem tokens_of_splits_before_brackets :
    let unknown : Text := [')', ' ', '$']
    let known : Text := ['a', '1', ' ', '1']
    standard.tokens [')'] = .error (.unmatched ')' 0) ∧
      unknown.Splits [.glyph ')', .space [' '], .glyph '$'] ∧
      standard.tokens unknown = .error (.unrecognized '$' 2) ∧
      known.Splits [.word ['a', '1'], .space [' '], .glyph '1'] ∧
      ∃ tokens, standard.Reads known [.word ['a', '1'], .space [' '], .glyph '1'] tokens ∧
        standard.tokens known = .ok (tokens ++ [.stopAt 4]) := by
  intro unknown known
  have hlongest : ∀ (segment : Segment) (c : Char) (rest : Text),
      segment = Segment.ofCons c (rest.takeWhile (Segment.runsOn c)) → segment.Longest (c :: rest) :=
    fun _ _ _ => Segment.longest_cons_iff.mpr
  have hunknown : unknown.Splits [.glyph ')', .space [' '], .glyph '$'] :=
    .cons (hlongest (.glyph ')') _ _ (by decide +kernel))
      (.cons (hlongest (.space [' ']) _ _ (by decide +kernel))
        (.cons (hlongest (.glyph '$') _ _ (by decide +kernel)) .nil))
  have hknown : known.Splits [.word ['a', '1'], .space [' '], .glyph '1'] :=
    .cons (hlongest (.word ['a', '1']) _ _ (by decide +kernel))
      (.cons (hlongest (.space [' ']) _ _ (by decide +kernel))
        (.cons (hlongest (.glyph '1') _ _ (by decide +kernel)) .nil))
  refine ⟨by decide +kernel, hunknown, ?_, hknown, ?_⟩
  · obtain ⟨segments, -, hunique, hfault, -⟩ := tokens_of_splits standard unknown
    obtain rfl := hunique _ hunknown
    obtain ⟨before, c, after, hsplit, -, hc, htokens⟩ :=
      hfault ⟨.glyph '$', by simp, by decide +kernel⟩
    -- the bracket is known, and the blank is no glyph
    rcases before with _ | ⟨first, _ | ⟨second, _ | ⟨third, more⟩⟩⟩
    · obtain ⟨hfirst, -⟩ := List.cons_eq_cons.mp hsplit
      rw [← Segment.glyph.inj hfirst] at hc
      cases hc
    · simp at hsplit
    · obtain ⟨rfl, rfl, rfl, -⟩ :
          first = .glyph ')' ∧ second = .space [' '] ∧ c = '$' ∧ after = [] := by
        simpa [eq_comm] using hsplit
      exact htokens
    · simp at hsplit
  · obtain ⟨segments, -, hunique, -, hread⟩ := tokens_of_splits standard known
    obtain rfl := hunique _ hknown
    obtain ⟨tokens, hreads, hfaults, hmatched⟩ := hread (by decide +kernel)
    refine ⟨tokens, hreads, ?_⟩
    cases hbrackets : checkBrackets (tokens ++ [.stopAt (Text.byteLength known)]) with
    | error fault =>
      have hok : (standard.tokens known).isOk = true := by decide +kernel
      rw [hfaults fault hbrackets] at hok
      cases hok
    | ok _ => exact hmatched hbrackets

end Table

end Wff
