import Mathlib.Data.List.Chain
import Wff.Formula.Traversal
import Wff.Proofs.Places
import Wff.Proofs.Reaching
import Wff.Proofs.RoundTrip

/-!
# Wff.Proofs.Adjacency — operands side by side

Tokens tell where one operand follows another: the first token awaits nothing and the second begins
an operand.  Marks are written by characters: where the one before can end an operand and the one
after can start one.  With the usual aliases both agree, but for the characters of
`unmarkedOperands`, beside which no mark is written (`awaits_iff_of_mem_scanFrom`,
`begins_iff_of_mem_scanFrom`).

* No operands stand side by side in a text that can be read, so marks are written into its words only,
  and none is if letters and numbers do not touch in its names
  (`standard_parse_implicit_of_explicit`).
* A token too many always begins an operand right after another, so where marks are written one of
  the two has a character of `unmarkedOperands` there (`standard_parse_trailing`).
-/

namespace Wff

open Character Pending

/-- No two letters or numbers of the name touch. -/
def Text.Spaced (name : Text) : Prop :=
  name.IsChain fun c d => isAlphanumeric c = false ∨ isAlphanumeric d = false

instance (name : Text) : Decidable name.Spaced :=
  inferInstanceAs (Decidable (name.IsChain fun c d =>
    isAlphanumeric c = false ∨ isAlphanumeric d = false))

/-! ### Tokens and their characters -/

/-- A token with which no formula goes on begins an operand, if it is neither a bracket closed nor
the end, and operators are binary. -/
theorem Meaning.begins_of_goesOn_eq_false {m : Meaning}
    (hgoesOn : Level.biconditional.goesOn m = false) (hclosing : m ≠ .symbol .closing)
    (hstop : m ≠ .stop)
    (hoperator : ∀ kind, m = .symbol (.operator kind) → kind.isBinary = true) :
    m.begins = true := by
  cases m with
  | var name => rfl
  | stop => exact absurd rfl hstop
  | symbol s =>
    cases s with
    | operator kind =>
      rw [goesOn_biconditional_operator, hoperator kind rfl] at hgoesOn
      cases hgoesOn
    | negationAfter => cases hgoesOn
    | closing => exact absurd rfl hclosing
    | constant | negationBefore | opening => rfl

namespace Table

section Token

variable {here : Nat} {text : Text} {tokens : List Token} {token : Token} {c : Char}

theorem isAlphanumeric_or_mem_unmarkedOperands (h : token.literal.isWord = true)
    (hc : c ∈ token.literal) : isAlphanumeric c = true ∨ c ∈ unmarkedOperands := by
  rcases isAlphanumeric_or_eq_of_continuesWord (Text.continuesWord_of_isWord h c hc) with hc | rfl
  · exact Or.inl hc
  · exact Or.inr List.mem_cons_self

theorem awaits_iff_of_mem_scanFrom (hscan : standard.scanFrom here text = .ok tokens)
    (hmem : token ∈ tokens) (hc : token.literal.getLast? = some c) :
    token.meaning.awaits = false ↔ standard.endsOperand c = true ∨ c ∈ unmarkedOperands := by
  rcases meaning_of_mem_scanFrom hscan hmem with ⟨s, hlookup, hs⟩ | ⟨-, hword, hvar⟩
  · obtain ⟨d, hliteral, hd⟩ := standard_single hlookup
    rw [hliteral] at hc
    obtain rfl : d = c := Option.some.inj hc
    rw [hs]
    exact standard_awaits_iff hd
  · have hoperand := isAlphanumeric_or_mem_unmarkedOperands hword (List.mem_of_getLast? hc)
    rw [hvar]
    refine iff_of_true rfl (hoperand.imp_left fun hc => ?_)
    simp [endsOperand, hc]

theorem begins_iff_of_mem_scanFrom (hscan : standard.scanFrom here text = .ok tokens)
    (hmem : token ∈ tokens) (hc : token.literal.head? = some c) :
    token.meaning.begins = true ↔ standard.startsOperand c = true ∨ c ∈ unmarkedOperands := by
  rcases meaning_of_mem_scanFrom hscan hmem with ⟨s, hlookup, hs⟩ | ⟨-, hword, hvar⟩
  · obtain ⟨d, hliteral, hd⟩ := standard_single hlookup
    rw [hliteral] at hc
    obtain rfl : d = c := Option.some.inj hc
    rw [hs]
    exact standard_begins_iff hd
  · have hoperand := isAlphanumeric_or_mem_unmarkedOperands hword (List.mem_of_head? hc)
    rw [hvar]
    refine iff_of_true rfl (hoperand.imp_left fun hc => ?_)
    simp [startsOperand, hc]

end Token

theorem isAlphanumeric_of_operand {c : Char} (hword : continuesWord c = true)
    (h : standard.endsOperand c = true ∨ standard.startsOperand c = true) :
    isAlphanumeric c = true := by
  rcases isAlphanumeric_or_eq_of_continuesWord hword with hc | rfl
  · exact hc
  · have hneither : ¬ (standard.endsOperand '_' = true ∨ standard.startsOperand '_' = true) := by
      decide +kernel
    exact absurd h hneither

/-! ### Texts that can be read -/

section Cut

variable {x y : Text} {p d : Char} (hp : x.lastInk? = some p)
  (hends : standard.endsOperand p = true) (hstarts : standard.startsOperand d = true)

include hp hends hstarts

/-- Where a mark would be written into a text that can be read, a word runs over the place. -/
theorem exists_runsOver (hblank : isBlank d = false) {scanned : List Token} {stop : Token}
    {f : Formula} (hscan : standard.scanFrom 0 (x ++ d :: y) = .ok scanned)
    (hstop : stop.isStop = true) (hread : Formula.ofTokens (scanned ++ [stop]) = .ok f) :
    ∃ token ∈ scanned, token.literal.isWord = true ∧
      Text.RunsOver x (d :: y) 0 (.word token.literal token.offset) := by
  rcases scanFrom_append_cases hscan with ⟨s, t, hs, ht, rfl⟩ | hword
  · -- else the last token before the place and the first one after it are two operands
    exfalso
    have hink := getLast?_scanFrom hs
    rw [hp, Option.bind_eq_some_iff] at hink
    obtain ⟨last, hlast, hliteral⟩ := hink
    obtain ⟨before, rfl⟩ := List.getLast?_eq_some_iff.mp hlast
    obtain ⟨next, after, rfl, hhead, -⟩ := exists_of_scanFrom_cons hblank ht
    have hawaits : last.meaning.awaits = false :=
      (awaits_iff_of_mem_scanFrom hscan (by simp) hliteral).mpr (Or.inl hends)
    have hbegins : next.meaning.begins = true :=
      (begins_iff_of_mem_scanFrom hscan (by simp) hhead).mpr (Or.inl hstarts)
    have hwalk := Formula.walk_of_ofTokens hstop (isStop_eq_false_of_mem_scanFrom hscan) hread
    rw [← List.append_cons] at hwalk
    exact walk_side_by_side hawaits hbegins _ before after hwalk
  · exact hword

theorem not_spaced_of_runsOver {here offset : Nat} {letters : Text}
    (hword : letters.isWord = true) (hruns : Text.RunsOver x (d :: y) here (.word letters offset)) :
    ¬ letters.Spaced := by
  obtain ⟨before, front, back, after, rfl, hback, hfront, hne, hletters⟩ := hruns
  obtain ⟨rfl, -⟩ := Lexeme.word.inj hletters
  obtain ⟨more, rfl⟩ : ∃ more, back = d :: more := by
    cases back with
    | nil => exact absurd rfl hne
    | cons c more =>
      obtain ⟨rfl, -⟩ := List.cons_eq_cons.mp hback
      exact ⟨more, rfl⟩
  have hcontinues := Text.continuesWord_of_isWord hword
  have hink : Text.lastInk? front = front.getLast? :=
    Text.lastInk?_of_ink fun c hc =>
      isBlank_eq_false_of_continuesWord (hcontinues c (List.mem_append_left _ hc))
  -- what is in front of the cut is a part of the word, so its last character counts, blank or not
  obtain ⟨q, hq⟩ := Option.ne_none_iff_exists'.mp (mt List.getLast?_eq_none_iff.mp hfront)
  rw [Text.lastInk?_append, hink, hq, Option.some_or] at hp
  obtain rfl := Option.some.inj hp
  intro hspaced
  rcases (List.isChain_append.mp hspaced).2.2 q hq d rfl with hnot | hnot
  · have hmem : q ∈ front ++ d :: more := List.mem_append_left _ (List.mem_of_getLast? hq)
    rw [isAlphanumeric_of_operand (hcontinues q hmem) (Or.inl hends)] at hnot
    cases hnot
  · have hmem : d ∈ front ++ d :: more := by simp
    rw [isAlphanumeric_of_operand (hcontinues d hmem) (Or.inr hstarts)] at hnot
    cases hnot

end Cut

/-- A word that runs over a cut has two characters, so it is no usual alias. -/
theorem meaning_of_runsOver {here : Nat} {text a b : Text} {tokens : List Token} {token : Token}
    (hscan : standard.scanFrom here text = .ok tokens) (hmem : token ∈ tokens)
    (hruns : Text.RunsOver a b here (.word token.literal token.offset)) :
    token.meaning = .var token.literal := by
  rcases meaning_of_mem_scanFrom hscan hmem with ⟨s, hlookup, -⟩ | ⟨-, -, hvar⟩
  · obtain ⟨c, hliteral, -⟩ := standard_single hlookup
    obtain ⟨_, front, back, _, -, -, hfront, hback, hword⟩ := hruns
    -- one character on each side of the cut makes the literal longer than an alias
    have hlength := congrArg List.length (Lexeme.word.inj hword).1
    have hpos := List.length_pos_of_ne_nil hfront
    have hpos' := List.length_pos_of_ne_nil hback
    rw [hliteral, List.length_append, List.length_singleton] at hlength
    omega
  · exact hvar

/-- Each mark that would be written into a text that can be read stands inside a variable. -/
theorem exists_var_of_mem_marks {text : Text} {scanned : List Token} {stop : Token} {f : Formula}
    (hscan : standard.scanFrom 0 text = .ok scanned) (hstop : stop.isStop = true)
    (hread : Formula.ofTokens (scanned ++ [stop]) = .ok f) {mark : Nat}
    (hmark : mark ∈ (standard.reveal text).marks) :
    ∃ token ∈ scanned, token.literal.isWord = true ∧ token.meaning = .var token.literal ∧
      token.offset < (standard.reveal text).givenOffset mark ∧
      (standard.reveal text).givenOffset mark < token.endOffset ∧ ¬ token.literal.Spaced := by
  obtain ⟨x, d, y, p, htext, hplace, hblank, hstarts, hp, hends⟩ := exists_of_mem_marks standard hmark
  rw [htext] at hscan
  obtain ⟨token, hmem, hword, hruns⟩ := exists_runsOver hp hends hstarts hblank hscan hstop hread
  obtain ⟨hbelow, habove⟩ := hruns.offset_lt
  rw [Nat.zero_add] at hbelow habove
  rw [hplace]
  exact ⟨token, hmem, hword, meaning_of_runsOver hscan hmem hruns, hbelow, habove,
    not_spaced_of_runsOver hp hends hstarts hword hruns⟩

/-- **Leaving out conjunctions changes no text that can be read, but for its words.**  If a text can be
read with every operator written, each mark written for a conjunction left out stands inside a
variable; so if letters and numbers do not touch in the names of the formula, no mark is written, and
the formula is the same. -/
theorem standard_parse_implicit_of_explicit (text : Text) (f : Formula)
    (h : standard.parse false text = .ok f) :
    (∃ tokens, standard.tokens text = .ok tokens ∧
      ∀ mark ∈ (standard.reveal text).marks, ∃ token ∈ tokens,
        token.literal.isWord = true ∧ token.meaning = .var token.literal ∧
        token.offset < (standard.reveal text).givenOffset mark ∧
        (standard.reveal text).givenOffset mark < token.endOffset) ∧
    ((∀ name ∈ f.leafNames, name.Spaced) →
      (standard.reveal text).text = text ∧ standard.parse true text = .ok f) := by
  obtain ⟨scanned, hscan, htokens, hread⟩ := exists_scanFrom_of_parseExplicit h
  have hstop : (Token.stopAt (Text.byteLength text)).isStop = true := rfl
  refine ⟨⟨_, htokens, ?_⟩, ?_⟩
  · intro mark hmark
    obtain ⟨token, hmem, hword, hvar, hbelow, habove, -⟩ :=
      exists_var_of_mem_marks hscan hstop hread hmark
    exact ⟨token, List.mem_append_left _ hmem, hword, hvar, hbelow, habove⟩
  · intro hspaced
    -- a mark would stand inside a name, where letters or numbers touch
    have hnone : Stroke.marksFrom 0 (standard.strokesFrom none text) = [] := by
      rw [List.eq_nil_iff_forall_not_mem]
      intro mark hmark
      have hmark' : mark ∈ (standard.reveal text).marks := by
        rw [reveal_eq, List.mem_toArray]
        exact hmark
      obtain ⟨token, hmem, -, hvar, -, -, htouch⟩ :=
        exists_var_of_mem_marks hscan hstop hread hmark'
      have hname := (mem_leafNames_iff_of_scanFrom hscan hstop hread _).mpr ⟨token, hmem, hvar⟩
      exact htouch (hspaced _ hname)
    have htext : (standard.reveal text).text = text := by
      rw [reveal_eq]
      show Stroke.shown (standard.strokesFrom none text) = text
      rw [Stroke.shown_eq_givenText hnone, givenText_strokesFrom]
    refine ⟨htext, ?_⟩
    show (standard.parseExplicit (standard.reveal text).text).mapError _ = .ok f
    rw [htext]
    show (standard.parse false text).mapError _ = .ok f
    rw [h]
    rfl

/-- In `ab ∧ c` the only mark is written inside the name `ab`; in `¬(p_1 ∨ ⊤)` none is written. -/
theorem standard_parse_implicit_inside_name :
    let crowded : Formula := .binary .and (.var ['a', 'b']) (.var ['c'])
    let spaced : Formula := .not (.binary .or (.var ['p', '_', '1']) (.const true))
    (standard.parse false crowded.written = .ok crowded ∧
      1 ∈ (standard.reveal crowded.written).marks ∧
      ∃ tokens, standard.tokens crowded.written = .ok tokens ∧ ∃ token ∈ tokens,
        token.literal.isWord = true ∧ token.meaning = .var token.literal ∧
        token.offset < 1 ∧ 1 < token.endOffset) ∧
    standard.parse false spaced.written = .ok spaced ∧
      (∀ name ∈ spaced.leafNames, name.Spaced) ∧
      (standard.reveal spaced.written).text = spaced.written ∧
      standard.parse true spaced.written = .ok spaced := by
  intro crowded spaced
  have hcrowded : standard.parse false crowded.written = .ok crowded :=
    writes_standard.parse_written (by decide +kernel) (by decide +kernel)
  have hspaced : standard.parse false spaced.written = .ok spaced :=
    writes_standard.parse_written (by decide +kernel) (by decide +kernel)
  have hmark : 1 ∈ (standard.reveal crowded.written).marks := by decide +kernel
  have hplace : (standard.reveal crowded.written).givenOffset 1 = 1 := by decide +kernel
  have hnames : ∀ name ∈ spaced.leafNames, name.Spaced := by decide +kernel
  obtain ⟨⟨tokens, htokens, hinside⟩, -⟩ := standard_parse_implicit_of_explicit _ _ hcrowded
  have hword := hinside 1 hmark
  rw [hplace] at hword
  obtain ⟨-, hsame⟩ := standard_parse_implicit_of_explicit _ _ hspaced
  exact ⟨⟨hcrowded, hmark, tokens, htokens, hword⟩, hspaced, hnames, hsame hnames⟩

/-! ### Tokens too many -/

theorem exists_scanFrom_of_trailing {table : Table} {text found : Text} {offset : Nat}
    (h : table.parseExplicit text = .error (.trailing found offset)) :
    ∃ scanned, table.scanFrom 0 text = .ok scanned ∧
      matchBrackets [] (scanned ++ [.stopAt (Text.byteLength text)]) = .ok () ∧
      Formula.ofTokens (scanned ++ [.stopAt (Text.byteLength text)]) =
        .error (.trailing found offset) := by
  unfold parseExplicit at h
  split at h
  · rename_i tokens htokens
    obtain ⟨scanned, hscan, rfl⟩ := scanFrom_of_tokens htokens
    refine ⟨scanned, hscan, ?_, h⟩
    rw [tokens_of_scanFrom hscan] at htokens
    split at htokens
    · rename_i hmatch
      exact hmatch
    · cases htokens
  · rename_i htokens
    cases h
    rcases scanFrom_of_tokens_error htokens with hscan | ⟨_, -, hmatch⟩
    · obtain ⟨_, _, _, -, -, hfault⟩ := stands_of_scanFrom_error hscan
      cases hfault
    · rcases matchBrackets_error_cases hmatch with ⟨_, hfault⟩ | ⟨_, hfault⟩ <;> cases hfault

/-- In a text, a token too many begins an operand right after another. -/
theorem exists_side_by_side_of_trailing {text found : Text} {offset : Nat}
    (h : standard.parseExplicit text = .error (.trailing found offset)) :
    ∃ used last next rest,
      standard.scanFrom 0 text = .ok (used ++ last :: next :: rest) ∧
      last.meaning.awaits = false ∧ next.meaning.begins = true ∧ offset = next.offset := by
  obtain ⟨scanned, hscan, hmatch, hread⟩ := exists_scanFrom_of_trailing h
  have hstops := isStop_eq_false_of_mem_scanFrom hscan
  obtain ⟨used, opened, next, rest, hahead, -, hreaches, hgoesOn, hclosing, -, rfl⟩ :=
    Formula.exists_reaches_of_trailing hread
  have hsplit : scanned = used ++ next :: rest :=
    (takeWhile_isStop hstops rfl).symm.trans hahead
  have hmem : next ∈ scanned := by
    rw [hsplit]
    simp
  have hnotClosing : next.meaning ≠ .symbol .closing := by
    rw [hsplit, List.append_assoc] at hmatch
    exact hreaches.ne_closing hclosing hmatch
  have hnotStop : next.meaning ≠ .stop := by
    intro hmeaning
    have hstop := hstops next hmem
    rw [Token.isStop, hmeaning] at hstop
    cases hstop
  have hbinary : ∀ kind, next.meaning = .symbol (.operator kind) → kind.isBinary = true := by
    intro kind hmeaning
    obtain ⟨_, c, _, -, -, -, hc⟩ := exists_of_symbol hscan hmem hmeaning
    exact standard_operator hc
  have hbegins : next.meaning.begins = true :=
    Meaning.begins_of_goesOn_eq_false hgoesOn hnotClosing hnotStop hbinary
  -- an operand is complete, so some token has come before
  cases hlast : used.getLast? with
  | none =>
    rw [List.getLast?_eq_none_iff.mp hlast] at hreaches
    cases hreaches
  | some last =>
    have hawaits := hreaches.awaits_getLast? last hlast
    obtain ⟨before, rfl⟩ := List.getLast?_eq_some_iff.mp hlast
    rw [← List.append_cons] at hsplit
    exact ⟨before, last, next, rest, hsplit ▸ hscan, hawaits.symm, hbegins, rfl⟩

/-- Where a token is too many, a character that an operand can begin with comes after one that an
operand can end with. -/
theorem exists_characters_of_trailing {text found : Text} {offset : Nat}
    (h : standard.parseExplicit text = .error (.trailing found offset)) :
    ∃ before c after p, text = before ++ c :: after ∧ offset = Text.byteLength before ∧
      isBlank c = false ∧ Text.lastInk? before = some p ∧
      (standard.endsOperand p = true ∨ p ∈ unmarkedOperands) ∧
      (standard.startsOperand c = true ∨ c ∈ unmarkedOperands) := by
  obtain ⟨used, last, next, rest, hscan, hawaits, hbegins, rfl⟩ :=
    exists_side_by_side_of_trailing h
  have hlast : last ∈ used ++ last :: next :: rest := by simp
  have hnext : next ∈ used ++ last :: next :: rest := by simp
  obtain ⟨p, hp⟩ : ∃ p, last.literal.getLast? = some p :=
    Option.ne_none_iff_exists'.mp
      (mt List.getLast?_eq_none_iff.mp (literal_ne_nil_of_mem_scanFrom hscan hlast))
  obtain ⟨c, more, hc⟩ := List.exists_cons_of_ne_nil (literal_ne_nil_of_mem_scanFrom hscan hnext)
  have hhead : next.literal.head? = some c := by
    rw [hc]
    rfl
  have hblank : isBlank c = false :=
    isBlank_eq_false_of_mem_scanFrom hscan hnext c (List.mem_of_head? hhead)
  rw [awaits_iff_of_mem_scanFrom hscan hlast hp] at hawaits
  rw [begins_iff_of_mem_scanFrom hscan hnext hhead] at hbegins
  rw [List.append_cons] at hscan
  obtain ⟨before, after, htext, hoffset, hbefore⟩ := exists_of_scanFrom_eq hscan
  -- before the token too many, the text ends in the token before it, blanks aside
  have hink := getLast?_scanFrom hbefore
  rw [List.getLast?_concat, Option.bind_some, hp] at hink
  rw [hc] at htext
  rw [Nat.zero_add] at hoffset
  exact ⟨before, c, more ++ after, p, htext, hoffset, hblank, hink.symm, hawaits, hbegins⟩

theorem exists_unmarked_of_trailing {text found : Text} {offset : Nat}
    (h : standard.parse true text = .error (.trailing found offset)) :
    ∃ before c after, text = before ++ c :: after ∧ offset = Text.byteLength before ∧
      (c ∈ unmarkedOperands ∨ ∃ p ∈ unmarkedOperands, Text.lastInk? before = some p) := by
  obtain ⟨fault, hfault, hmoved⟩ := exists_of_parse_implicit h
  obtain ⟨place, rfl, rfl⟩ : ∃ place, fault = .trailing found place ∧
      offset = (standard.reveal text).givenOffset place := by
    cases fault <;> cases hmoved
    exact ⟨_, rfl, rfl⟩
  obtain ⟨before, c, after, p, hshown, rfl, hblank, hink, hends, hstarts⟩ :=
    exists_characters_of_trailing hfault
  -- a mark is an operator, so neither of the two characters is one
  have hp : p ≠ conjunctionMark := by
    rintro rfl
    have hawaits := (standard_awaits_iff standard_mark.2.2).mpr hends
    cases hawaits
  have hc : c ≠ conjunctionMark := by
    rintro rfl
    have hbegins := (standard_begins_iff standard_mark.2.2).mpr hstarts
    cases hbegins
  rw [reveal_eq] at hshown
  obtain ⟨a, _, hstrokes, rfl, hrest⟩ := List.map_eq_append_iff.mp hshown
  obtain ⟨stroke, b, rfl, hstroke, -⟩ := List.map_eq_cons_iff.mp hrest
  obtain rfl : stroke = .given c := by
    cases stroke with
    | mark => exact absurd hstroke.symm hc
    | given d => rw [← hstroke, Stroke.char]
  obtain ⟨hgiven, hnot⟩ := lastInk?_before_given standard hstrokes hink hp
  refine ⟨Stroke.givenText a, c, Stroke.givenText b, text_of_cut hstrokes,
    givenOffset_of_cut hstrokes, ?_⟩
  rcases hstarts with hstarts | hmem
  · rcases hends with hends | hmem
    · exact absurd ⟨hblank, hstarts, hends⟩ hnot
    · exact Or.inr ⟨p, hmem, hgiven⟩
  · exact Or.inl hmem

/-- **Operands are left side by side at three characters only.**  If a token of a text is too many
although conjunctions may be left out, the character at its place or the last one before it that is
not blank is an underscore, `⊤` or `⊥`; so in a text without these three no token is too many. -/
theorem standard_parse_trailing (text : Text) :
    (∀ found offset, standard.parse true text = .error (.trailing found offset) →
      ∃ before c after, text = before ++ c :: after ∧ offset = Text.byteLength before ∧
        (c ∈ unmarkedOperands ∨ ∃ p ∈ unmarkedOperands, Text.lastInk? before = some p)) ∧
    ((∀ c ∈ text, c ∉ unmarkedOperands) →
      ∀ found offset, standard.parse true text ≠ .error (.trailing found offset)) := by
  refine ⟨fun found offset h => exists_unmarked_of_trailing h, ?_⟩
  intro hnone found offset h
  obtain ⟨before, c, after, rfl, -, hc | ⟨p, hp, hink⟩⟩ := exists_unmarked_of_trailing h
  · exact hnone c (by simp) hc
  · exact hnone p (List.mem_append_left _ (Text.mem_of_lastInk? hink)) hp

/-- In `p_ q` no mark is written between the two variables, because the first ends with an underscore;
in `p q` one is. -/
theorem standard_parse_trailing_after_underscore :
    let text : Text := ['p', '_', ' ', 'q']
    (standard.parse true text = .error (.trailing ['q'] 3) ∧
      ∃ before c after, text = before ++ c :: after ∧ 3 = Text.byteLength before ∧
        (c ∈ unmarkedOperands ∨ ∃ p ∈ unmarkedOperands, Text.lastInk? before = some p)) ∧
    ∀ found offset, standard.parse true ['p', ' ', 'q'] ≠ .error (.trailing found offset) := by
  intro text
  have htrailing : standard.parse true text = .error (.trailing ['q'] 3) := by
    decide +kernel
  have hnone : ∀ c ∈ ['p', ' ', 'q'], c ∉ unmarkedOperands := by
    simp [unmarkedOperands]
  exact ⟨⟨htrailing, (standard_parse_trailing text).1 _ _ htrailing⟩,
    (standard_parse_trailing _).2 hnone⟩

end Table

end Wff
