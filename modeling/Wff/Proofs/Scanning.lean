import Wff.Proofs.Segmentation

/-!
# Wff.Proofs.Scanning — the tokens of a text

Each piece of a text becomes one token, whose meaning depends on its literal alone: a symbol if the
table knows the literal, else a variable of that name if the piece is a word.  `Table.scanFrom` does
this for a text that begins at some byte offset, so that a text can be scanned in parts.
-/

namespace Wff

open Character

/-- The character is a piece of its own, and the table knows it. -/
def Table.Glyph (table : Table) (c : Char) (s : Symbol) : Prop :=
  isBlank c = false ∧ startsWord c = false ∧ table.glyph? c = some s

instance (table : Table) (c : Char) (s : Symbol) : Decidable (table.Glyph c s) :=
  inferInstanceAs (Decidable (_ ∧ _ ∧ _))

namespace Table

variable {table : Table}

/-! ### One token -/

/-- Everything a token can be: its piece with what the table says of the literal, or a word that the
table does not know. -/
theorem token?_cases {piece : Lexeme} {token : Token} (h : table.token? piece = .ok token) :
    (∃ s, table.lookup? piece.literal = some s ∧
      token = ⟨.symbol s, piece.literal, piece.offset⟩) ∨
    (∃ letters offset, piece = .word letters offset ∧ table.lookup? letters = none ∧
      token = ⟨.var letters, letters, offset⟩) := by
  cases piece with
  | word letters offset =>
    unfold token? at h
    dsimp only at h
    split at h
    · rename_i s hs
      exact Or.inl ⟨s, hs, (Except.ok.inj h).symm⟩
    · rename_i hnone
      exact Or.inr ⟨letters, offset, rfl, hnone, (Except.ok.inj h).symm⟩
  | glyph c offset =>
    unfold token? at h
    dsimp only at h
    split at h
    · rename_i s hs
      exact Or.inl ⟨s, hs, (Except.ok.inj h).symm⟩
    · cases h

theorem literal_of_token? {piece : Lexeme} {token : Token} (h : table.token? piece = .ok token) :
    token.literal = piece.literal ∧ token.offset = piece.offset := by
  rcases token?_cases h with ⟨s, -, rfl⟩ | ⟨letters, offset, rfl, -, rfl⟩
  · exact ⟨rfl, rfl⟩
  · exact ⟨rfl, rfl⟩

/-- A token means what the table says of its literal, or it is the variable of that name. -/
theorem meaning_of_token? {piece : Lexeme} {token : Token} (hproper : piece.Proper)
    (h : table.token? piece = .ok token) :
    (∃ s, table.lookup? token.literal = some s ∧ token.meaning = .symbol s) ∨
    (table.lookup? token.literal = none ∧ token.literal.isWord = true ∧
      token.meaning = .var token.literal) := by
  rcases token?_cases h with ⟨s, hs, rfl⟩ | ⟨letters, offset, rfl, hnone, rfl⟩
  · exact Or.inl ⟨s, hs, rfl⟩
  · exact Or.inr ⟨hnone, hproper, rfl⟩

theorem eq_of_token?_error {piece : Lexeme} {fault : Fault} (h : table.token? piece = .error fault) :
    ∃ c, piece = .glyph c piece.offset ∧ table.glyph? c = none ∧
      fault = .unrecognized c piece.offset := by
  cases piece with
  | word letters offset =>
    unfold token? at h
    dsimp only at h
    split at h <;> cases h
  | glyph c offset =>
    unfold token? at h
    dsimp only at h
    split at h
    · cases h
    · rename_i hnone
      cases h
      exact ⟨c, rfl, hnone, rfl⟩

/-! ### All tokens -/

def scanFrom (table : Table) (here : Nat) (text : Text) : Except Fault (List Token) :=
  (text.lexemesFrom here).mapM table.token?

theorem scan_eq (table : Table) (text : Text) : table.scan text = table.scanFrom 0 text := by
  rw [scan, Text.lexemes_eq, scanFrom]

theorem exists_of_mem_scanFrom {here : Nat} {text : Text} {tokens : List Token} {token : Token}
    (h : table.scanFrom here text = .ok tokens) (hmem : token ∈ tokens) :
    ∃ piece ∈ text.lexemesFrom here, table.token? piece = .ok token :=
  exists_of_mem_mapM h hmem

theorem stands_of_mem_scanFrom {here : Nat} {text : Text} {tokens : List Token} {token : Token}
    (h : table.scanFrom here text = .ok tokens) (hmem : token ∈ tokens) :
    ∃ before after, text = before ++ (token.literal ++ after) ∧
      token.offset = here + Text.byteLength before := by
  obtain ⟨piece, hpiece, htoken⟩ := exists_of_mem_scanFrom h hmem
  rw [(literal_of_token? htoken).1, (literal_of_token? htoken).2]
  exact Text.exists_of_mem_lexemesFrom hpiece

/-- Tokens are split where the text is: those before one are the tokens of what is before it. -/
theorem exists_of_scanFrom_eq {here : Nat} {text : Text} {used rest : List Token} {token : Token}
    (h : table.scanFrom here text = .ok (used ++ token :: rest)) :
    ∃ before after, text = before ++ (token.literal ++ after) ∧
      token.offset = here + Text.byteLength before ∧ table.scanFrom here before = .ok used := by
  obtain ⟨pieces, piece, others, hpieces, hused, htoken⟩ := exists_of_mapM_eq_append_cons h
  -- the pieces split as the tokens do, and the text as its pieces
  obtain ⟨before, after, htext, hoffset, hbefore⟩ := Text.exists_of_lexemesFrom_eq hpieces
  rw [(literal_of_token? htoken).1, (literal_of_token? htoken).2]
  refine ⟨before, after, htext, hoffset, ?_⟩
  rw [scanFrom, hbefore, hused]

theorem meaning_of_mem_scanFrom {here : Nat} {text : Text} {tokens : List Token} {token : Token}
    (h : table.scanFrom here text = .ok tokens) (hmem : token ∈ tokens) :
    (∃ s, table.lookup? token.literal = some s ∧ token.meaning = .symbol s) ∨
    (table.lookup? token.literal = none ∧ token.literal.isWord = true ∧
      token.meaning = .var token.literal) := by
  obtain ⟨piece, hpiece, htoken⟩ := exists_of_mem_scanFrom h hmem
  exact meaning_of_token? (Text.proper_of_mem_lexemesFrom hpiece) htoken

theorem literal_ne_nil_of_mem_scanFrom {here : Nat} {text : Text} {tokens : List Token}
    {token : Token} (h : table.scanFrom here text = .ok tokens) (hmem : token ∈ tokens) :
    token.literal ≠ [] := by
  obtain ⟨piece, hpiece, htoken⟩ := exists_of_mem_scanFrom h hmem
  rw [(literal_of_token? htoken).1]
  exact (Text.proper_of_mem_lexemesFrom hpiece).literal_ne_nil

theorem isBlank_eq_false_of_mem_scanFrom {here : Nat} {text : Text} {tokens : List Token}
    {token : Token} (h : table.scanFrom here text = .ok tokens) (hmem : token ∈ tokens) :
    ∀ c ∈ token.literal, isBlank c = false := by
  obtain ⟨piece, hpiece, htoken⟩ := exists_of_mem_scanFrom h hmem
  rw [(literal_of_token? htoken).1]
  exact (Text.proper_of_mem_lexemesFrom hpiece).isBlank_eq_false

theorem offset_of_mem_scanFrom {here : Nat} {text : Text} {tokens : List Token} {token : Token}
    (h : table.scanFrom here text = .ok tokens) (hmem : token ∈ tokens) :
    here ≤ token.offset ∧ token.offset < here + Text.byteLength text := by
  obtain ⟨before, after, rfl, hoffset⟩ := stands_of_mem_scanFrom h hmem
  have hpos := Text.byteLength_pos (literal_ne_nil_of_mem_scanFrom h hmem)
  rw [Text.byteLength_append, Text.byteLength_append]
  omega

theorem map_literal_of_scanFrom {here : Nat} {text : Text} {tokens : List Token}
    (h : table.scanFrom here text = .ok tokens) :
    tokens.map Token.literal = (text.lexemesFrom here).map Lexeme.literal :=
  map_eq_of_mapM (fun _ _ htoken => (literal_of_token? htoken).1) h

/-- The last character of the last token is the last one of the text that is not blank. -/
theorem getLast?_scanFrom {here : Nat} {text : Text} {tokens : List Token}
    (h : table.scanFrom here text = .ok tokens) :
    tokens.getLast?.bind (·.literal.getLast?) = text.lastInk? := by
  have hlast := congrArg (List.getLast? · |>.bind List.getLast?) (map_literal_of_scanFrom h)
  -- every piece has the literal of its token, so the last character is seen from either list
  simp only [List.getLast?_map, Option.bind_map] at hlast
  exact hlast.trans (Text.getLast?_lexemesFrom here text)

/-- The first token of a text begins with its first character, unless that is blank. -/
theorem exists_of_scanFrom_cons {c : Char} (hblank : isBlank c = false) {here : Nat} {rest : Text}
    {tokens : List Token} (h : table.scanFrom here (c :: rest) = .ok tokens) :
    ∃ token more, tokens = token :: more ∧ token.literal.head? = some c ∧ token.offset = here := by
  obtain ⟨piece, pieces, hpieces, hhead, hoffset⟩ := Text.exists_of_lexemesFrom_cons hblank here rest
  rw [scanFrom, hpieces] at h
  obtain ⟨token, more, htoken, -, rfl⟩ := mapM_cons_eq_ok_iff.mp h
  obtain ⟨hliteral, hplace⟩ := literal_of_token? htoken
  exact ⟨token, more, rfl, by rw [hliteral, hhead], by rw [hplace, hoffset]⟩

theorem isStop_eq_false_of_mem_scanFrom {here : Nat} {text : Text} {tokens : List Token}
    (h : table.scanFrom here text = .ok tokens) : ∀ token ∈ tokens, token.isStop = false := by
  intro token hmem
  rcases meaning_of_mem_scanFrom h hmem with ⟨s, -, hs⟩ | ⟨-, -, hvar⟩
  · simp [Token.isStop, hs]
  · simp [Token.isStop, hvar]

/-- The fault of a text is a character that the table does not know, at its place. -/
theorem stands_of_scanFrom_error {here : Nat} {text : Text} {fault : Fault}
    (h : table.scanFrom here text = .error fault) :
    ∃ before c after, text = before ++ c :: after ∧ table.glyph? c = none ∧
      fault = .unrecognized c (here + Text.byteLength before) := by
  obtain ⟨_, piece, _, _, hsplit, -, hpiece⟩ := mapM_eq_error_iff.mp h
  obtain ⟨c, heq, hglyph, rfl⟩ := eq_of_token?_error hpiece
  -- only a character that is no word fails, and its piece stands where it does in the text
  have hmem : piece ∈ text.lexemesFrom here := by
    rw [hsplit]
    simp
  obtain ⟨before, after, htext, hoffset⟩ := Text.exists_of_mem_lexemesFrom hmem
  rw [heq] at htext
  exact ⟨before, c, after, htext, hglyph, by rw [hoffset]⟩

/-- A text can be scanned in two parts wherever no word runs over the cut. -/
theorem scanFrom_append_eq_ok_iff {b : Text} (hb : Stops continuesWord b) {here : Nat} {a : Text}
    {tokens : List Token} :
    table.scanFrom here (a ++ b) = .ok tokens ↔
      ∃ s t, table.scanFrom here a = .ok s ∧
        table.scanFrom (here + Text.byteLength a) b = .ok t ∧ tokens = s ++ t := by
  rw [scanFrom, Text.lexemesFrom_append hb, mapM_append_eq_ok_iff]
  rfl

/-- Wherever a text is cut, its tokens are those of both parts, or a word runs over the cut. -/
theorem scanFrom_append_cases {here : Nat} {a b : Text} {tokens : List Token}
    (h : table.scanFrom here (a ++ b) = .ok tokens) :
    (∃ s t, table.scanFrom here a = .ok s ∧
      table.scanFrom (here + Text.byteLength a) b = .ok t ∧ tokens = s ++ t) ∨
    ∃ token ∈ tokens, token.literal.isWord = true ∧
      Text.RunsOver a b here (.word token.literal token.offset) := by
  rcases Text.lexemesFrom_append_cases here a b with hsplit | ⟨-, word, hword, hruns⟩
  · rw [scanFrom, hsplit] at h
    exact Or.inl (mapM_append_eq_ok_iff.mp h)
  · -- the piece over the cut is a word, and its token has its letters and its place
    obtain ⟨token, hmem, htoken⟩ := exists_of_mem_mapM_source h hword
    have hproper := Text.proper_of_mem_lexemesFrom hword
    obtain ⟨hliteral, hoffset⟩ := literal_of_token? htoken
    cases word with
    | glyph c offset =>
      -- a single character cannot run over a cut
      obtain ⟨_, _, _, _, _, _, _, _, hglyph⟩ := hruns
      cases hglyph
    | word letters offset =>
      refine Or.inr ⟨token, hmem, ?_, ?_⟩
      · rw [hliteral]
        exact hproper
      · rw [hliteral, hoffset]
        exact hruns

theorem scanFrom_glyph_eq_ok_iff {c : Char} {s : Symbol} (hc : table.Glyph c s) {here : Nat}
    {rest : Text} {tokens : List Token} :
    table.scanFrom here (c :: rest) = .ok tokens ↔
      ∃ more, table.scanFrom (here + c.utf8Size) rest = .ok more ∧
        tokens = ⟨.symbol s, [c], here⟩ :: more := by
  obtain ⟨hblank, hstart, hs⟩ := hc
  have htoken : table.token? (.glyph c here) = .ok ⟨.symbol s, [c], here⟩ := by
    rw [token?, hs]
  rw [scanFrom, Text.lexemesFrom_glyph hblank hstart, mapM_cons_eq_ok_iff, htoken]
  constructor
  · rintro ⟨_, more, hfirst, hmore, rfl⟩
    cases hfirst
    exact ⟨more, hmore, rfl⟩
  · rintro ⟨more, hmore, rfl⟩
    exact ⟨_, more, rfl, hmore, rfl⟩

/-! ### Matched brackets and the end -/

theorem tokens_of_scanFrom {text : Text} {scanned : List Token}
    (h : table.scanFrom 0 text = .ok scanned) :
    table.tokens text =
      match matchBrackets [] (scanned ++ [.stopAt (Text.byteLength text)]) with
      | .ok _ => .ok (scanned ++ [.stopAt (Text.byteLength text)])
      | .error fault => .error fault := by
  rw [← scan_eq] at h
  rw [tokens, h]
  dsimp only [bind, Except.bind, checkBrackets]
  cases matchBrackets [] (scanned ++ [.stopAt (Text.byteLength text)]) <;> rfl

theorem tokens_of_scanFrom_error {text : Text} {fault : Fault}
    (h : table.scanFrom 0 text = .error fault) : table.tokens text = .error fault := by
  rw [← scan_eq] at h
  rw [tokens, h]
  rfl

theorem scanFrom_of_tokens {text : Text} {tokens : List Token} (h : table.tokens text = .ok tokens) :
    ∃ scanned, table.scanFrom 0 text = .ok scanned ∧
      tokens = scanned ++ [.stopAt (Text.byteLength text)] := by
  cases hscan : table.scanFrom 0 text with
  | error fault =>
    rw [tokens_of_scanFrom_error hscan] at h
    cases h
  | ok scanned =>
    rw [tokens_of_scanFrom hscan] at h
    -- the brackets decide only whether there is an answer, never which tokens it has
    split at h
    · cases h
      exact ⟨scanned, rfl, rfl⟩
    · cases h

theorem exists_isStop_of_tokens {text : Text} {tokens : List Token}
    (h : table.tokens text = .ok tokens) : ∃ token ∈ tokens, token.isStop = true := by
  obtain ⟨scanned, -, rfl⟩ := scanFrom_of_tokens h
  exact ⟨.stopAt (Text.byteLength text), by simp, rfl⟩

theorem checkBrackets_of_tokens {text : Text} {tokens : List Token}
    (h : table.tokens text = .ok tokens) : checkBrackets tokens = .ok () := by
  obtain ⟨scanned, hscan, rfl⟩ := scanFrom_of_tokens h
  rw [tokens_of_scanFrom hscan] at h
  rw [checkBrackets]
  split at h
  · assumption
  · cases h

theorem scanFrom_of_tokens_error {text : Text} {fault : Fault}
    (h : table.tokens text = .error fault) :
    table.scanFrom 0 text = .error fault ∨
    ∃ scanned, table.scanFrom 0 text = .ok scanned ∧
      matchBrackets [] (scanned ++ [.stopAt (Text.byteLength text)]) = .error fault := by
  -- a character that the table does not know is found before any bracket is matched
  cases hscan : table.scanFrom 0 text with
  | error fault' =>
    rw [tokens_of_scanFrom_error hscan] at h
    exact Or.inl h
  | ok scanned =>
    rw [tokens_of_scanFrom hscan] at h
    split at h
    · cases h
    · rename_i hmatch
      cases h
      exact Or.inr ⟨scanned, rfl, hmatch⟩

end Table

end Wff
