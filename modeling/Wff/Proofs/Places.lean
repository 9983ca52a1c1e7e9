import Wff.Formula.Traversal
import Wff.Grammar
import Wff.Proofs.Blame
import Wff.Proofs.Marks
import Wff.Proofs.Standard

/-!
# Wff.Proofs.Places — faults lie where they say

`Fault.Fits` says what stands in a text at the place of a fault.

* Without marks, a fault is an unknown character, or it is about a token (`Blamed`), and tokens stand
  at their offsets (`fits_of_parseExplicit`).
* With marks, no fault is about a mark (`offset_ne_of_mark`): a mark is an operator, so nothing but
  an operand could be missing there; but a mark stands after a character that ends an operand, and
  nothing is awaited after the last token before it.
* So at its place the text with marks goes on as the text as given does (`Fits.givenText`).
-/

namespace Wff

open Character

/-- What the text is like from the place of the fault on. -/
def Fault.Fits (table : Table) (rest : Text) : Fault → Prop
  | .unrecognized found _ => rest.head? = some found ∧ table.glyph? found = none
  | .unmatched found _ =>
    rest.head? = some found ∧
      (table.glyph? found = some .opening ∨ table.glyph? found = some .closing)
  | .trailing found _ => (found.isWord = true ∨ ∃ c, found = [c]) ∧ found <+: rest
  | .tooDeep _ _ => ∃ c, rest.head? = some c ∧ table.glyph? c = some .opening
  | .missingOperand _ =>
    rest = [] ∨ ∃ c, rest.head? = some c ∧
      ((∃ kind, kind.isBinary = true ∧ table.glyph? c = some (.operator kind)) ∨
        table.glyph? c = some .negationAfter ∨ table.glyph? c = some .closing)
  | .ambiguousAlias _ | .notBinary _ => False

@[simp] theorem Fault.fits_mapOffset (table : Table) (rest : Text) (move : Nat → Nat)
    (fault : Fault) : (fault.mapOffset move).Fits table rest ↔ fault.Fits table rest := by
  cases fault <;> rfl

namespace Table

/-! ### Faults of a text in which every operator is written -/

theorem blamed_of_parseExplicit {table : Table} {text : Text} {fault : Fault}
    (h : table.parseExplicit text = .error fault) :
    table.scanFrom 0 text = .error fault ∨
    ∃ scanned, table.scanFrom 0 text = .ok scanned ∧
      Blamed scanned (.stopAt (Text.byteLength text)) fault := by
  unfold parseExplicit at h
  split at h
  · rename_i tokens htokens
    obtain ⟨scanned, hscan, rfl⟩ := scanFrom_of_tokens htokens
    exact Or.inr ⟨scanned, hscan, blamed_of_ofTokens rfl (isStop_eq_false_of_mem_scanFrom hscan) h⟩
  · rename_i htokens
    cases h
    rcases scanFrom_of_tokens_error htokens with hscan | ⟨scanned, hscan, hmatch⟩
    · exact Or.inl hscan
    · refine Or.inr ⟨scanned, hscan, blamed_of_matchBrackets hmatch (by simp) ?_⟩
      intro token htoken hstop
      rcases List.mem_append.mp htoken with hmem | hend
      · exact hmem
      · rw [List.mem_singleton.mp hend] at hstop
        cases hstop

theorem exists_of_symbol {text : Text} {scanned : List Token} {token : Token} {s : Symbol}
    (hscan : standard.scanFrom 0 text = .ok scanned) (hmem : token ∈ scanned)
    (hs : token.meaning = .symbol s) :
    ∃ before c after, text = before ++ c :: after ∧ token.offset = Text.byteLength before ∧
      token.literal = [c] ∧ standard.glyph? c = some s := by
  obtain ⟨before, after, htext, hoffset⟩ := stands_of_mem_scanFrom hscan hmem
  rw [Nat.zero_add] at hoffset
  rcases meaning_of_mem_scanFrom hscan hmem with ⟨s', hlookup, hs'⟩ | ⟨-, -, hvar⟩
  · rw [hs'] at hs
    cases hs
    obtain ⟨c, hliteral, hc⟩ := standard_single hlookup
    rw [hliteral] at htext
    exact ⟨before, c, after, htext, hoffset, hliteral, hc⟩
  · rw [hvar] at hs
    cases hs

theorem literal_of_mem_scanFrom {text : Text} {scanned : List Token} {token : Token}
    (hscan : standard.scanFrom 0 text = .ok scanned) (hmem : token ∈ scanned) :
    token.literal.isWord = true ∨ ∃ c, token.literal = [c] := by
  rcases meaning_of_mem_scanFrom hscan hmem with ⟨s, hlookup, -⟩ | ⟨-, hword, -⟩
  · obtain ⟨c, hliteral, -⟩ := standard_single hlookup
    exact Or.inr ⟨c, hliteral⟩
  · exact Or.inl hword

/-- At the offset of the token it is about, a fault fits the text. -/
theorem fits_of_blamed {text : Text} {scanned : List Token} {fault : Fault}
    (hscan : standard.scanFrom 0 text = .ok scanned)
    (h : Blamed scanned (.stopAt (Text.byteLength text)) fault) :
    ∃ before rest, text = before ++ rest ∧ fault.offset? = some (Text.byteLength before) ∧
      fault.Fits standard rest := by
  cases h with
  | unmatched default mem bracket =>
    rcases bracket with hopening | hclosing
    · obtain ⟨before, c, after, rfl, hoffset, hliteral, hc⟩ := exists_of_symbol hscan mem hopening
      rw [hoffset, hliteral]
      exact ⟨before, c :: after, rfl, rfl, rfl, Or.inl hc⟩
    · obtain ⟨before, c, after, rfl, hoffset, hliteral, hc⟩ := exists_of_symbol hscan mem hclosing
      rw [hoffset, hliteral]
      exact ⟨before, c :: after, rfl, rfl, rfl, Or.inr hc⟩
  | tooDeep limit mem opening =>
    obtain ⟨before, c, after, rfl, hoffset, -, hc⟩ := exists_of_symbol hscan mem opening
    rw [hoffset]
    exact ⟨before, c :: after, rfl, rfl, c, rfl, hc⟩
  | trailing mem complete =>
    obtain ⟨before, after, rfl, hoffset⟩ := stands_of_mem_scanFrom hscan mem
    rw [hoffset, Nat.zero_add]
    exact ⟨before, _, rfl, rfl, literal_of_mem_scanFrom hscan mem, List.prefix_append _ _⟩
  | missingOperand split awaited begins =>
    rename_i used rest next
    have hmem : next ∈ scanned := by
      rw [split]
      simp
    -- a word would begin an operand, so the token found instead is of one character
    rcases meaning_of_mem_scanFrom hscan hmem with ⟨s, -, hs⟩ | ⟨-, -, hvar⟩
    · obtain ⟨before, c, after, rfl, hoffset, -, hc⟩ := exists_of_symbol hscan hmem hs
      rw [hoffset]
      refine ⟨before, c :: after, rfl, rfl, Or.inr ⟨c, rfl, ?_⟩⟩
      rw [hs] at begins
      cases s with
      | operator kind => exact Or.inl ⟨kind, standard_operator hc, hc⟩
      | negationAfter => exact Or.inr (Or.inl hc)
      | closing => exact Or.inr (Or.inr hc)
      | constant | negationBefore | opening => cases begins
    · rw [hvar] at begins
      cases begins
  | missingAtEnd => exact ⟨text, [], by simp, rfl, Or.inl rfl⟩

/-- A fault of a text in which every operator is written lies where it says. -/
theorem fits_of_parseExplicit {text : Text} {fault : Fault}
    (h : standard.parseExplicit text = .error fault) :
    ∃ before rest, text = before ++ rest ∧ fault.offset? = some (Text.byteLength before) ∧
      fault.Fits standard rest := by
  rcases blamed_of_parseExplicit h with hscan | ⟨scanned, hscan, hblamed⟩
  · obtain ⟨before, c, after, htext, hc, rfl⟩ := stands_of_scanFrom_error hscan
    exact ⟨before, c :: after, htext, by rw [Nat.zero_add]; rfl, rfl, hc⟩
  · exact fits_of_blamed hscan hblamed

/-! ### Marks -/

section Mark

variable {x y : Text} {scanned : List Token}

theorem scanned_mark (hscan : standard.scanFrom 0 (x ++ conjunctionMark :: y) = .ok scanned) :
    ∃ before after, scanned =
        before ++ ⟨.symbol (.operator .and), [conjunctionMark], Text.byteLength x⟩ :: after ∧
      standard.scanFrom 0 x = .ok before ∧
      (∀ token ∈ before, token.offset ≠ Text.byteLength x) ∧
      ∀ token ∈ after, token.offset ≠ Text.byteLength x := by
  have hstops : Stops continuesWord (conjunctionMark :: y) := by
    rw [stops_cons]
    exact continuesWord_mark
  obtain ⟨before, marked, hbefore, hmarked, rfl⟩ := (scanFrom_append_eq_ok_iff hstops).mp hscan
  obtain ⟨after, hafter, rfl⟩ := (scanFrom_glyph_eq_ok_iff standard_mark).mp hmarked
  refine ⟨before, after, by rw [Nat.zero_add], hbefore, ?_, ?_⟩
  · intro token htoken
    have := offset_of_mem_scanFrom hbefore htoken
    omega
  · intro token htoken
    have := offset_of_mem_scanFrom hafter htoken
    have := conjunctionMark.utf8Size_pos
    omega

/-- No token but the mark itself has its offset. -/
theorem meaning_of_offset_eq
    (hscan : standard.scanFrom 0 (x ++ conjunctionMark :: y) = .ok scanned) {token : Token}
    (hmem : token ∈ scanned) (hoffset : token.offset = Text.byteLength x) :
    token.meaning = .symbol (.operator .and) := by
  obtain ⟨before, after, rfl, -, hbefore, hafter⟩ := scanned_mark hscan
  rcases List.mem_append.mp hmem with hmem | hmem
  · exact absurd hoffset (hbefore token hmem)
  · rcases List.mem_cons.mp hmem with rfl | hmem
    · rfl
    · exact absurd hoffset (hafter token hmem)

theorem not_awaited_of_endsOperand {p : Char} (hp : x.lastInk? = some p)
    (hends : standard.endsOperand p = true)
    (hscan : standard.scanFrom 0 (x ++ conjunctionMark :: y) = .ok scanned)
    {used rest : List Token} {next : Token} (hsplit : scanned = used ++ next :: rest)
    (hnext : next.offset = Text.byteLength x) :
    ¬ ∀ last ∈ used.getLast?, last.meaning.awaits = true := by
  intro hawaited
  obtain ⟨before, after, hscanned, hbefore, hbelow, habove⟩ := scanned_mark hscan
  obtain ⟨rfl, -, -⟩ := append_cons_unique (p := fun token => token.offset = Text.byteLength x)
    hbelow habove hnext (hscanned.symm.trans hsplit)
  -- the last token before the mark ends with the character `p`
  have hlast := getLast?_scanFrom hbefore
  rw [hp, Option.bind_eq_some_iff] at hlast
  obtain ⟨last, hlast, hliteral⟩ := hlast
  have hawaits := hawaited last hlast
  have hmem : last ∈ before := List.mem_of_getLast? hlast
  rcases meaning_of_mem_scanFrom hbefore hmem with ⟨s, -, hs⟩ | ⟨-, -, hvar⟩
  · obtain ⟨-, c, -, -, -, hc, hglyph⟩ := exists_of_symbol hbefore hmem hs
    obtain rfl : c = p := by
      rw [hc] at hliteral
      exact Option.some.inj hliteral
    rw [hs] at hawaits
    rw [standard_endsOperand hglyph hawaits] at hends
    cases hends
  · rw [hvar] at hawaits
    cases hawaits

/-- No fault lies at a mark after a character that ends an operand. -/
theorem offset_ne_of_mark {p : Char} (hp : x.lastInk? = some p)
    (hends : standard.endsOperand p = true) {fault : Fault}
    (h : standard.parseExplicit (x ++ conjunctionMark :: y) = .error fault) :
    fault.offset? ≠ some (Text.byteLength x) := by
  intro hoffset
  rcases blamed_of_parseExplicit h with hscan | ⟨scanned, hscan, hblamed⟩
  · -- the usual table knows the mark
    obtain ⟨before, c, after, htext, hc, rfl⟩ := stands_of_scanFrom_error hscan
    have hlength : Text.byteLength before = Text.byteLength x := by
      simpa [Fault.offset?] using hoffset
    obtain ⟨-, hrest⟩ := Text.append_inj_of_byteLength htext hlength.symm
    obtain ⟨rfl, -⟩ := List.cons_eq_cons.mp hrest
    rw [standard_mark.2.2] at hc
    cases hc
  · -- the token at this offset is the conjunction, which only an operand that is missing can blame
    cases hblamed with
    | unmatched default mem bracket =>
      have hmeaning := meaning_of_offset_eq hscan mem (Option.some.inj hoffset)
      rw [hmeaning] at bracket
      simp at bracket
    | tooDeep limit mem opening =>
      rw [meaning_of_offset_eq hscan mem (Option.some.inj hoffset)] at opening
      cases opening
    | trailing mem complete =>
      rw [meaning_of_offset_eq hscan mem (Option.some.inj hoffset)] at complete
      cases complete
    | missingOperand split awaited begins =>
      exact not_awaited_of_endsOperand hp hends hscan split (Option.some.inj hoffset) awaited
    | missingAtEnd =>
      have hlength : Text.byteLength (x ++ conjunctionMark :: y) = Text.byteLength x :=
        Option.some.inj hoffset
      rw [Text.byteLength_append, Text.byteLength_cons] at hlength
      have := conjunctionMark.utf8Size_pos
      omega

end Mark

end Table

/-! ### From the text with marks to the text as given -/

/-- What holds no mark stands in the text as given where it stands in the text with marks. -/
theorem Stroke.prefix_givenText {found : Text} (hfound : ∀ c ∈ found, c ≠ conjunctionMark)
    {strokes : List Stroke} (h : found <+: shown strokes) : found <+: givenText strokes := by
  induction strokes generalizing found with
  | nil => exact h
  | cons stroke strokes ih =>
    cases found with
    | nil => exact List.nil_prefix
    | cons c found =>
      obtain ⟨hhead, htail⟩ := List.cons_prefix_cons.mp h
      cases stroke with
      | mark => exact absurd hhead (hfound c List.mem_cons_self)
      | given d =>
        obtain rfl : c = d := hhead
        rw [givenText_given, List.cons_prefix_cons]
        exact ⟨rfl, ih (fun e he => hfound e (List.mem_cons_of_mem _ he)) htail⟩

theorem exists_cons_of_literal {found : Text} (h : found.isWord = true ∨ ∃ c, found = [c]) :
    ∃ c more, found = c :: more ∧ ∀ d ∈ more, d ≠ conjunctionMark := by
  rcases h with hword | ⟨c, rfl⟩
  · cases found with
    | nil => cases hword
    | cons c more =>
      refine ⟨c, more, rfl, ?_⟩
      rintro d hd rfl
      have hall := List.all_eq_true.mp (Bool.and_eq_true_iff.mp hword).2 _ hd
      rw [continuesWord_mark] at hall
      cases hall
  · exact ⟨c, [], rfl, by simp⟩

/-- A fault that lies at no mark fits the text as given as it fits the text with marks. -/
theorem Fault.Fits.givenText {table : Table} {fault : Fault} {strokes : List Stroke}
    (hhead : ∀ stroke ∈ strokes.head?, stroke ≠ .mark)
    (h : fault.Fits table (Stroke.shown strokes)) : fault.Fits table (Stroke.givenText strokes) := by
  cases strokes with
  | nil => exact h
  | cons stroke strokes =>
    cases stroke with
    | mark => exact absurd rfl (hhead .mark rfl)
    | given c =>
      cases fault with
      | unrecognized | unmatched | tooDeep => exact h
      | missingOperand offset =>
        rcases h with hnil | hsome
        · cases hnil
        · exact Or.inr hsome
      | trailing found offset =>
        obtain ⟨hliteral, hprefix⟩ := h
        refine ⟨hliteral, ?_⟩
        obtain ⟨d, more, rfl, hmore⟩ := exists_cons_of_literal hliteral
        obtain ⟨rfl, htail⟩ := List.cons_prefix_cons.mp hprefix
        exact List.cons_prefix_cons.mpr ⟨rfl, Stroke.prefix_givenText hmore htail⟩
      | ambiguousAlias | notBinary => exact h

namespace Table

theorem exists_of_parse_implicit {table : Table} {text : Text} {fault : Fault}
    (h : table.parse true text = .error fault) :
    ∃ shown, table.parseExplicit (table.reveal text).text = .error shown ∧
      fault = shown.mapOffset (table.reveal text).givenOffset := by
  change (table.parseExplicit (table.reveal text).text).mapError _ = .error fault at h
  cases hshown : table.parseExplicit (table.reveal text).text with
  | error shown =>
    rw [hshown] at h
    exact ⟨shown, rfl, (Except.error.inj h).symm⟩
  | ok f =>
    rw [hshown] at h
    cases h

/-- No fault of the text with marks lies at a mark. -/
theorem notMem_marks_of_parseExplicit {text : Text} {fault : Fault} {offset : Nat}
    (h : standard.parseExplicit (standard.reveal text).text = .error fault)
    (hoffset : fault.offset? = some offset) : offset ∉ (standard.reveal text).marks := by
  rw [reveal_eq] at h ⊢
  rw [List.mem_toArray]
  intro hmem
  obtain ⟨a, b, hstrokes, rfl⟩ := Stroke.mem_marksFrom_iff.mp hmem
  obtain ⟨⟨p, hp, hends⟩, -⟩ := exists_of_strokesFrom_eq standard hstrokes
  rw [Option.or_none] at hp
  rw [hstrokes, Stroke.shown_append, Stroke.shown_cons] at h
  rw [Nat.zero_add] at hoffset
  exact offset_ne_of_mark hp hends h hoffset

/-- **Faults lie where they say.**  A fault of a text under the usual aliases has a byte offset at
which the text as given is split between two characters, and fits what stands there.  If
conjunctions may be left out, the fault lies at none of the marks that were written for them. -/
theorem standard_parse_error (implicit : Bool) (text : Text) (fault : Fault)
    (h : standard.parse implicit text = .error fault) :
    (∃ before rest, text = before ++ rest ∧ fault.offset? = some (Text.byteLength before) ∧
      fault.Fits standard rest) ∧
    (implicit = true → ∃ shown offset,
      standard.parseExplicit (standard.reveal text).text = .error shown ∧
      shown.offset? = some offset ∧ offset ∉ (standard.reveal text).marks ∧
      fault = shown.mapOffset (standard.reveal text).givenOffset) := by
  cases implicit with
  | false => exact ⟨fits_of_parseExplicit h, by simp⟩
  | true =>
    obtain ⟨shown, hshown, rfl⟩ := exists_of_parse_implicit h
    obtain ⟨before, rest, hsplit, hoffset, hfits⟩ := fits_of_parseExplicit hshown
    have hmark : Text.byteLength before ∉ (standard.reveal text).marks :=
      notMem_marks_of_parseExplicit hshown hoffset
    refine ⟨?_, fun _ => ⟨shown, _, hshown, hoffset, hmark, rfl⟩⟩
    rw [reveal_eq] at hsplit hmark
    -- the strokes before the fault and those from it on
    obtain ⟨a, b, hstrokes, rfl, rfl⟩ := List.map_eq_append_iff.mp hsplit
    rw [hstrokes, List.mem_toArray] at hmark
    have htext : text = Stroke.givenText a ++ Stroke.givenText b := by
      rw [← Stroke.givenText_append, ← hstrokes, givenText_strokesFrom]
    have hplace : (shown.mapOffset (standard.reveal text).givenOffset).offset? =
        some (Text.byteLength (Stroke.givenText a)) := by
      rw [Fault.offset?_mapOffset, hoffset, Option.map_some, reveal_eq, hstrokes]
      exact congrArg some (Revealed.givenOffset_shown _ a b)
    have hhead : ∀ stroke ∈ b.head?, stroke ≠ .mark := by
      rintro stroke hstroke rfl
      obtain ⟨b, rfl⟩ := List.head?_eq_some_iff.mp hstroke
      exact hmark (Stroke.mem_marksFrom_iff.mpr ⟨a, b, rfl, (Nat.zero_add _).symm⟩)
    refine ⟨_, _, htext, hplace, ?_⟩
    rw [Fault.fits_mapOffset]
    exact hfits.givenText hhead

/-- In `(p q ∧)` a mark is written before `q`; the operand is missing at the bracket of the text as
given, one byte before the place of the bracket in the text with the mark. -/
theorem standard_parse_error_after_mark :
    let text : Text := ['(', 'p', ' ', 'q', ' ', '∧', ')']
    standard.parse true text = .error (.missingOperand 8) ∧
    (∃ before rest, text = before ++ rest ∧ some 8 = some (Text.byteLength before) ∧
      (Fault.missingOperand 8).Fits standard rest) ∧
    ∃ shown offset, standard.parseExplicit (standard.reveal text).text = .error shown ∧
      shown.offset? = some offset ∧ offset ∉ (standard.reveal text).marks ∧
      .missingOperand 8 = shown.mapOffset (standard.reveal text).givenOffset := by
  intro text
  have hfault : standard.parse true text = .error (.missingOperand 8) := by decide +kernel
  obtain ⟨hplace, hmark⟩ := standard_parse_error true text _ hfault
  exact ⟨hfault, hplace, hmark rfl⟩

end Table

end Wff
