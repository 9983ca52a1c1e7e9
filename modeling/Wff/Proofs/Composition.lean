import Wff.Formula.Traversal
import Wff.Proofs.Alignment
import Wff.Proofs.RoundTrip

/-!
# Wff.Proofs.Composition — texts put together from texts

A text in brackets can be put where an operand has to stand, whatever it is and whatever stands around
it.  `Table.Makes` says of a text what its tokens derive and how many brackets they open at once; the
ways to build a text from others have one rule each (`Makes.inBrackets`, `Makes.join`, `Makes.before`,
`Makes.after`).  If conjunctions may be left out, the same rules are used for the texts with marks:
inside brackets the marks are those of the text alone (`InBrackets.scannedText`), because what a mark
depends on is the last character before that is not blank.
-/

namespace Wff

open Character

namespace Table

variable {table : Table}

/-! ### Texts wherever they stand -/

theorem spells_of_scanFrom {here : Nat} {text : Text} {tokens : List Token}
    (h : table.scanFrom here text = .ok tokens) :
    table.Spells text (tokens.map Token.meaning) := by
  intro here'
  -- no matter where, a text has the same pieces
  have hpieces : List.Forall₂ (Lexeme.Alike Eq fun _ _ => True) (text.lexemesFrom here)
      (text.lexemesFrom here') :=
    lexemesFrom_respelled (fun _ _ heq => Or.inl heq) (List.forall₂_same.mpr fun _ _ => rfl)
      fun _ _ _ => trivial
  have hscans := Table.scanFrom_alike (fun _ => rfl)
    (fun _ _ heq => congrArg table.glyph? heq) hpieces
  rw [h] at hscans
  generalize hscan : table.scanFrom here' text = scan at hscans
  cases hscans with
  | ok htokens => exact ⟨_, rfl, (map_meaning_eq_of_alike htokens).symm⟩

/-! ### Formulas of texts -/

theorem exists_spans_of_derives {level : Level} {meanings : List Meaning} {f : Formula}
    (h : Derives level meanings f) : ∃ height, Spans height meanings := by
  induction h with
  | var name => exact ⟨0, Spans.nil.cons (by simp) (by simp)⟩
  | const value => exact ⟨0, Spans.nil.cons (by simp) (by simp)⟩
  | brackets content ih =>
    obtain ⟨height, hspans⟩ := ih
    exact ⟨height + 1, hspans.brackets⟩
  | marks before after marked ih =>
    obtain ⟨height, hspans⟩ := ih
    have hbefore := Spans.replicate (m := .symbol .negationBefore) (by simp) (by simp) before
    have hafter := Spans.replicate (m := .symbol .negationAfter) (by simp) (by simp) after
    exact ⟨_, (hbefore.append hspans).append hafter⟩
  | operand chain single ih => exact ih
  | link chain ofBand shorter last join ihLeft ihRight =>
    obtain ⟨left, hleft⟩ := ihLeft
    obtain ⟨right, hright⟩ := ihRight
    exact ⟨max left right, hleft.append (hright.cons (by simp) (by simp))⟩

/-- The tokens of the text make up the formula at the level, and open `height` brackets at once. -/
def Makes (table : Table) (level : Level) (height : Nat) (text : Text) (f : Formula) : Prop :=
  ∃ meanings, table.Spells text meanings ∧ Derives level meanings f ∧ Spans height meanings

theorem Makes.parseExplicit {height : Nat} {text : Text} {f : Formula}
    (h : table.Makes .biconditional height text f) (hheight : height ≤ nestingLimit) :
    table.parseExplicit text = .ok f := by
  obtain ⟨meanings, hspells, hderives, hspans⟩ := h
  exact parseExplicit_of_spells hspells hderives hspans hheight

/-! ### Aliases and brackets -/

/-- An alias of the symbol, with white space before and after it. -/
def Padded (table : Table) (s : Symbol) (text : Text) : Prop :=
  ∃ before literal after : Text, before.Blank ∧ after.Blank ∧ table.lookup? literal = some s ∧
    text = before ++ (literal ++ after)

theorem padded_of_lookup? {s : Symbol} {literal : Text} (h : table.lookup? literal = some s) :
    table.Padded s literal :=
  ⟨[], literal, [], nofun, nofun, h, (List.append_nil literal).symm⟩

/-- The text in brackets of any style, with white space around them. -/
def InBrackets (table : Table) (inside text : Text) : Prop :=
  ∃ opening closing, table.Padded .opening opening ∧ table.Padded .closing closing ∧
    text = opening ++ (inside ++ closing)

/-- The text is read as the formula, and nowhere does it open more than `limit` brackets at once. -/
def ReadsWithin (table : Table) (implicit : Bool) (limit : Nat) (text : Text) (f : Formula) : Prop :=
  table.parse implicit text = .ok f ∧
    ∃ tokens, table.tokenize implicit text = .ok tokens ∧ NestsWithin limit (tokens.map Token.meaning)

instance (implicit : Bool) (limit : Nat) (text : Text) (f : Formula) :
    Decidable (table.ReadsWithin implicit limit text f) :=
  match htokens : table.tokenize implicit text with
  | .ok tokens =>
    decidable_of_iff (table.parse implicit text = .ok f ∧
      NestsWithin limit (tokens.map Token.meaning)) (by simp [ReadsWithin, htokens])
  | .error fault => .isFalse (by simp [ReadsWithin, htokens])

theorem Spells.blanks {blanks text : Text} (hblank : blanks.Blank) {meanings : List Meaning}
    (h : table.Spells text meanings) : table.Spells (blanks ++ text) meanings := by
  intro here
  rw [scanFrom, Text.lexemesFrom_blanks hblank]
  exact h (here + Text.byteLength blanks)

section Standard

variable {s : Symbol} {written text inside : Text} {meanings : List Meaning} {f g both : Formula}
  {height height' : Nat}

theorem Padded.exists_sign (h : standard.Padded s written) (hs : ∀ value, s ≠ .constant value) :
    ∃ (before : Text) (c : Char) (after : Text), before.Blank ∧ after.Blank ∧ standard.Sign c s ∧
      written = before ++ c :: after := by
  obtain ⟨before, literal, after, hbefore, hafter, hliteral, rfl⟩ := h
  obtain ⟨c, rfl, hc⟩ := standard_sign hliteral hs
  exact ⟨before, c, after, hbefore, hafter, hc, rfl⟩

theorem Padded.stops (h : standard.Padded s written) (hs : ∀ value, s ≠ .constant value)
    (text : Text) : Stops continuesWord (written ++ text) := by
  obtain ⟨before, c, after, hbefore, hafter, hc, rfl⟩ := h.exists_sign hs
  rw [List.append_assoc]
  exact hbefore.stops (stops_cons.mpr hc.continuesWord)

theorem Padded.spells_append (h : standard.Padded s written) (hs : ∀ value, s ≠ .constant value)
    (htext : standard.Spells text meanings) :
    standard.Spells (written ++ text) (.symbol s :: meanings) := by
  obtain ⟨before, c, after, hbefore, hafter, hc, rfl⟩ := h.exists_sign hs
  rw [List.append_assoc, List.cons_append]
  exact ((htext.blanks hafter).glyph hc.glyph).blanks hbefore

theorem Padded.append_spells (h : standard.Padded s written) (hs : ∀ value, s ≠ .constant value)
    (htext : standard.Spells text meanings) :
    standard.Spells (text ++ written) (meanings ++ [.symbol s]) := by
  have hspells := htext.append (h.stops hs []) (h.spells_append hs spells_nil)
  rwa [List.append_nil] at hspells

theorem Padded.exists_join? {kind : Kind} (h : standard.Padded (.operator kind) written)
    (f g : Formula) : ∃ both, kind.join? f g = some both := by
  obtain ⟨_, _, _, _, _, hliteral, _⟩ := h
  rw [← Option.isSome_iff_exists, Kind.join?_isSome]
  exact standard_operator hliteral

/-! ### Rules -/

theorem Makes.whole (h : table.Makes .negation height text f) :
    table.Makes .biconditional height text f := by
  obtain ⟨meanings, hspells, hderives, hspans⟩ := h
  exact ⟨meanings, hspells, Derives.of_negation (by simp) hderives, hspans⟩

theorem Makes.inBrackets (h : standard.Makes .biconditional height inside f)
    (hbrackets : standard.InBrackets inside text) :
    standard.Makes .negation (height + 1) text f := by
  obtain ⟨meanings, hspells, hderives, hspans⟩ := h
  obtain ⟨opening, closing, hopening, hclosing, rfl⟩ := hbrackets
  have hcontent := hclosing.append_spells (by simp) hspells
  exact ⟨_, hopening.spells_append (by simp) hcontent, hderives.brackets.unmarked, hspans.brackets⟩

theorem Makes.join {left right : Text} {kind : Kind}
    (hleft : standard.Makes .negation height left f)
    (hoperator : standard.Padded (.operator kind) written)
    (hright : standard.Makes .negation height' right g) (hjoin : kind.join? f g = some both) :
    standard.Makes .biconditional (max height height') (left ++ (written ++ right)) both := by
  obtain ⟨meanings, hspells, hderives, hspans⟩ := hleft
  obtain ⟨meanings', hspells', hderives', hspans'⟩ := hright
  have hrest := hoperator.spells_append (by simp) hspells'
  exact ⟨_, hspells.append (hoperator.stops (by simp) right) hrest, hderives.joined hderives' hjoin,
    hspans.append (hspans'.cons (by simp) (by simp))⟩

theorem Makes.before (hmark : standard.Padded .negationBefore written)
    (h : standard.Makes .negation height text f) :
    standard.Makes .negation height (written ++ text) (.not f) := by
  obtain ⟨meanings, hspells, hderives, hspans⟩ := h
  exact ⟨_, hmark.spells_append (by simp) hspells, hderives.negationBefore,
    hspans.cons (by simp) (by simp)⟩

theorem Makes.after (h : standard.Makes .negation height text f)
    (hmark : standard.Padded .negationAfter written) :
    standard.Makes .negation height (text ++ written) (.not f) := by
  obtain ⟨meanings, hspells, hderives, hspans⟩ := h
  have hmarked : Spans (max height 0) (meanings ++ [.symbol .negationAfter]) :=
    hspans.append (Spans.nil.cons (by simp) (by simp))
  rw [Nat.max_zero] at hmarked
  exact ⟨_, hmark.append_spells (by simp) hspells, hderives.negationAfter, hmarked⟩

end Standard

/-! ### What is scanned -/

/-- What is scanned of a text, if `previous` is the last character not blank before it: the text with
marks if conjunctions may be left out, and else the text as given. -/
def scannedText (table : Table) (implicit : Bool) (previous : Option Char) (text : Text) : Text :=
  if implicit then Stroke.shown (table.strokesFrom previous text) else text

theorem parse_eq_ok_iff {implicit : Bool} {text : Text} {f : Formula} :
    table.parse implicit text = .ok f ↔
      table.parseExplicit (table.scannedText implicit none text) = .ok f := by
  cases implicit with
  | false => rfl
  | true =>
    rw [parse_implicit_eq_ok_iff, reveal_eq]
    rfl

/-- The tokens of a text mean what those of the text that is scanned mean. -/
theorem exists_tokens_of_tokenize {implicit : Bool} {text : Text} {tokens : List Token}
    (h : table.tokenize implicit text = .ok tokens) :
    ∃ scanned, table.tokens (table.scannedText implicit none text) = .ok scanned ∧
      scanned.map Token.meaning = tokens.map Token.meaning := by
  cases implicit with
  | false => exact ⟨tokens, h, rfl⟩
  | true =>
    rw [tokenize, reveal_eq, if_pos rfl] at h
    dsimp only at h
    split at h
    · rename_i scanned hscanned
      cases h
      exact ⟨scanned, hscanned, by simp [Token.mapOffset, Function.comp_def]⟩
    · cases h

theorem ReadsWithin.makes {implicit : Bool} {limit : Nat} {text : Text} {f : Formula}
    (h : table.ReadsWithin implicit limit text f) (hlimit : limit ≤ nestingLimit) :
    ∃ height ≤ limit,
      table.Makes .biconditional height (table.scannedText implicit none text) f := by
  obtain ⟨hparse, tokens, htokenize, hwithin⟩ := h
  obtain ⟨scanned, hscan, htokens, hread⟩ :=
    exists_scanFrom_of_parseExplicit (parse_eq_ok_iff.mp hparse)
  obtain ⟨found, hfound, hmeanings⟩ := exists_tokens_of_tokenize htokenize
  rw [htokens, Except.ok.injEq] at hfound
  rw [← hmeanings, ← hfound, List.map_append] at hwithin
  have hderives := Formula.derives_of_ofTokens hread
  rw [meaningsBeforeStop_concat (isStop_eq_false_of_mem_scanFrom hscan) rfl] at hderives
  obtain ⟨height, hspans⟩ := exists_spans_of_derives hderives
  exact ⟨height, hspans.le_of_nestsWithin hwithin.of_append hlimit, _, spells_of_scanFrom hscan,
    hderives, hspans⟩

section Scanned

variable {implicit : Bool} {previous : Option Char}

theorem scannedText_append (implicit : Bool) (previous : Option Char) (x y : Text) :
    table.scannedText implicit previous (x ++ y) =
      table.scannedText implicit previous x ++
        table.scannedText implicit ((Text.lastInk? x).or previous) y := by
  cases implicit with
  | false => rfl
  | true =>
    change Stroke.shown _ = Stroke.shown _ ++ Stroke.shown _
    rw [strokesFrom_append, Stroke.shown_append]

theorem scannedText_congr {previous' : Option Char}
    (h : previous.any table.endsOperand = previous'.any table.endsOperand) (text : Text) :
    table.scannedText implicit previous text = table.scannedText implicit previous' text := by
  rw [scannedText, scannedText, strokesFrom_congr table h]

theorem scannedText_between {before after : Text} (hbefore : before.Blank) (hafter : after.Blank)
    {c : Char} (hc : isBlank c = false) :
    table.scannedText implicit previous (before ++ c :: after) =
      before ++ ((if implicit && (previous.any table.endsOperand && table.startsOperand c)
        then [conjunctionMark] else []) ++ c :: after) := by
  cases implicit with
  | false => rfl
  | true =>
    change Stroke.shown _ = _
    rw [strokesFrom_append, Stroke.shown_append, shown_strokesFrom_of_blank table _ hbefore,
      Text.lastInk?_of_blank hbefore, Option.none_or, Bool.true_and]
    have hink : ¬ isBlank c = true := by simp [hc]
    by_cases hdue : (previous.any table.endsOperand && table.startsOperand c) = true
    · rw [strokesFrom_marked hink hdue, if_pos hdue, Stroke.shown_cons, Stroke.shown_cons,
        shown_strokesFrom_of_blank table _ hafter]
      rfl
    · rw [strokesFrom_plain hink hdue, if_neg hdue, Stroke.shown_cons,
        shown_strokesFrom_of_blank table _ hafter]
      rfl

end Scanned

section Standard

variable {s : Symbol} {written text inside : Text} {implicit : Bool} {previous : Option Char}

theorem Padded.any_endsOperand (h : standard.Padded s written) (hs : ∀ value, s ≠ .constant value)
    (previous : Option Char) :
    ((Text.lastInk? written).or previous).any standard.endsOperand =
      (s == .negationAfter || s == .closing) := by
  obtain ⟨before, c, after, hbefore, hafter, hc, rfl⟩ := h.exists_sign hs
  have hlast : Text.lastInk? (before ++ c :: after) = some c := by
    rw [Text.lastInk?_append, Text.lastInk?_cons, Text.lastInk?_of_blank hafter, hc.ink,
      Text.lastInk?_of_blank hbefore]
    rfl
  rw [hlast, Option.some_or, Option.any_some, hc.endsOperand_eq]

/-- Before an alias no mark is written, unless an operand begins with it and another can end there. -/
theorem Padded.scannedText_eq (h : standard.Padded s written) (hs : ∀ value, s ≠ .constant value)
    (hplain : previous.any standard.endsOperand = false ∨
      (s == .negationBefore || s == .opening) = false) :
    standard.scannedText implicit previous written = written := by
  obtain ⟨before, c, after, hbefore, hafter, hc, rfl⟩ := h.exists_sign hs
  have hnot : ¬ (implicit && (previous.any standard.endsOperand &&
      standard.startsOperand c)) = true := by
    rw [hc.startsOperand_eq]
    rcases hplain with hnone | hnone <;> simp [hnone]
  rw [scannedText_between hbefore hafter hc.ink, if_neg hnot, List.nil_append]

/-- Of a text in brackets, what is scanned inside is what is scanned of the text alone. -/
theorem scannedText_inside {opening closing : Text} (hopening : standard.Padded .opening opening)
    (hclosing : standard.Padded .closing closing) :
    standard.scannedText implicit ((Text.lastInk? opening).or previous) (inside ++ closing) =
      standard.scannedText implicit none inside ++ closing := by
  have hopens : ((Text.lastInk? opening).or previous).any standard.endsOperand =
      (none : Option Char).any standard.endsOperand :=
    hopening.any_endsOperand (by simp) previous
  rw [scannedText_congr hopens, scannedText_append,
    hclosing.scannedText_eq (by simp) (Or.inr rfl)]

theorem InBrackets.scannedText (h : standard.InBrackets inside text)
    (hprevious : previous.any standard.endsOperand = false) :
    standard.InBrackets (standard.scannedText implicit none inside)
      (standard.scannedText implicit previous text) := by
  obtain ⟨opening, closing, hopening, hclosing, rfl⟩ := h
  rw [scannedText_append, scannedText_inside hopening hclosing,
    hopening.scannedText_eq (by simp) (Or.inl hprevious)]
  exact ⟨opening, closing, hopening, hclosing, rfl⟩

theorem InBrackets.scannedText_marked (h : standard.InBrackets inside text)
    (hprevious : previous.any standard.endsOperand = true) :
    ∃ mark shown, standard.Padded (.operator .and) mark ∧
      standard.InBrackets (standard.scannedText true none inside) shown ∧
      standard.scannedText true previous text = mark ++ shown := by
  obtain ⟨opening, closing, hopening, hclosing, rfl⟩ := h
  rw [scannedText_append, scannedText_inside hopening hclosing]
  obtain ⟨before, literal, after, hbefore, hafter, hliteral, rfl⟩ := hopening
  obtain ⟨c, rfl, hc⟩ := standard_sign hliteral (by simp)
  have hmark : standard.Padded (.operator .and) (before ++ [conjunctionMark]) :=
    ⟨before, [conjunctionMark], [], hbefore, nofun, standard_mark.2.2, rfl⟩
  have hopens : standard.Padded .opening (c :: after) := ⟨[], [c], after, nofun, hafter, hliteral, rfl⟩
  refine ⟨before ++ [conjunctionMark],
    c :: after ++ (standard.scannedText true none inside ++ closing), hmark,
    ⟨c :: after, closing, hopens, hclosing, rfl⟩, ?_⟩
  rw [List.singleton_append, scannedText_between hbefore hafter hc.ink, hprevious, hc.startsOperand_eq]
  simp

theorem InBrackets.any_endsOperand (h : standard.InBrackets inside text) (previous : Option Char) :
    ((Text.lastInk? text).or previous).any standard.endsOperand = true := by
  obtain ⟨opening, closing, hopening, hclosing, rfl⟩ := h
  rw [Text.lastInk?_append, Text.lastInk?_append, Option.or_assoc, Option.or_assoc,
    hclosing.any_endsOperand (by simp)]
  rfl

end Standard

/-! ### Texts in brackets -/

section Read

variable {implicit : Bool} {t₁ t₂ b₁ b₂ a : Text} {f₁ f₂ both : Formula}

/-- What is scanned of a text in brackets makes an operand, unless a mark is written before it. -/
theorem ReadsWithin.makes_inBrackets {previous : Option Char}
    (h : standard.ReadsWithin implicit 127 t₁ f₁) (hb : standard.InBrackets t₁ b₁)
    (hprevious : previous.any standard.endsOperand = false) :
    ∃ height ≤ nestingLimit,
      standard.Makes .negation height (standard.scannedText implicit previous b₁) f₁ := by
  obtain ⟨height, hheight, hmakes⟩ := h.makes (by decide)
  exact ⟨height + 1, Nat.succ_le_succ hheight, hmakes.inBrackets (hb.scannedText hprevious)⟩

variable (h₁ : standard.ReadsWithin implicit 127 t₁ f₁) (hb₁ : standard.InBrackets t₁ b₁)
include h₁ hb₁

theorem ReadsWithin.parse_join (h₂ : standard.ReadsWithin implicit 127 t₂ f₂)
    (hb₂ : standard.InBrackets t₂ b₂) {kind : Kind} (ha : standard.Padded (.operator kind) a)
    (hjoin : kind.join? f₁ f₂ = some both) :
    standard.parse implicit (b₁ ++ (a ++ b₂)) = .ok both := by
  obtain ⟨height₁, hheight₁, hfirst⟩ := h₁.makes_inBrackets hb₁ Option.any_none
  obtain ⟨height₂, hheight₂, hsecond⟩ :=
    h₂.makes_inBrackets hb₂ (ha.any_endsOperand (by simp) ((Text.lastInk? b₁).or none))
  rw [parse_eq_ok_iff, scannedText_append, scannedText_append,
    ha.scannedText_eq (by simp) (Or.inr rfl)]
  exact (hfirst.join ha hsecond hjoin).parseExplicit (Nat.max_le.mpr ⟨hheight₁, hheight₂⟩)

theorem ReadsWithin.parse_before (ha : standard.Padded .negationBefore a) :
    standard.parse implicit (a ++ b₁) = .ok (.not f₁) := by
  obtain ⟨height, hheight, hmakes⟩ :=
    h₁.makes_inBrackets hb₁ (ha.any_endsOperand (by simp) none)
  rw [parse_eq_ok_iff, scannedText_append, ha.scannedText_eq (by simp) (Or.inl rfl)]
  exact (Makes.before ha hmakes).whole.parseExplicit hheight

theorem ReadsWithin.parse_after (ha : standard.Padded .negationAfter a) :
    standard.parse implicit (b₁ ++ a) = .ok (.not f₁) := by
  obtain ⟨height, hheight, hmakes⟩ := h₁.makes_inBrackets hb₁ Option.any_none
  rw [parse_eq_ok_iff, scannedText_append, ha.scannedText_eq (by simp) (Or.inr rfl)]
  exact (hmakes.after ha).whole.parseExplicit hheight

end Read

theorem ReadsWithin.parse_beside {t₁ t₂ b₁ b₂ : Text} {f₁ f₂ : Formula}
    (h₁ : standard.ReadsWithin true 127 t₁ f₁) (hb₁ : standard.InBrackets t₁ b₁)
    (h₂ : standard.ReadsWithin true 127 t₂ f₂) (hb₂ : standard.InBrackets t₂ b₂) :
    standard.parse true (b₁ ++ b₂) = .ok (.binary .and f₁ f₂) := by
  obtain ⟨height₁, hheight₁, hfirst⟩ := h₁.makes_inBrackets hb₁ Option.any_none
  obtain ⟨height₂, hheight₂, hmakes₂⟩ := h₂.makes (by decide)
  obtain ⟨mark, shown, hmark, hshown, hscanned⟩ := hb₂.scannedText_marked (hb₁.any_endsOperand none)
  rw [parse_eq_ok_iff, scannedText_append, hscanned]
  exact (hfirst.join hmark (hmakes₂.inBrackets hshown) rfl).parseExplicit
    (Nat.max_le.mpr ⟨hheight₁, Nat.succ_le_succ hheight₂⟩)

/-- **Texts in brackets are operands.**  With the usual aliases, texts that are read as formulas with
at most 127 brackets open at once can be put in brackets and then joined by an operator or negated, with
any white space between; if conjunctions may be left out, they can also be put side by side. -/
theorem standard_parse_inBrackets {implicit : Bool} {t₁ t₂ b₁ b₂ : Text} {f₁ f₂ : Formula}
    (h₁ : standard.ReadsWithin implicit 127 t₁ f₁) (h₂ : standard.ReadsWithin implicit 127 t₂ f₂)
    (hb₁ : standard.InBrackets t₁ b₁) (hb₂ : standard.InBrackets t₂ b₂) :
    (∀ kind a, standard.Padded (.operator kind) a →
      ∃ both, kind.join? f₁ f₂ = some both ∧
        standard.parse implicit (b₁ ++ (a ++ b₂)) = .ok both) ∧
    (∀ a, standard.Padded .negationBefore a → standard.parse implicit (a ++ b₁) = .ok (.not f₁)) ∧
    (∀ a, standard.Padded .negationAfter a → standard.parse implicit (b₁ ++ a) = .ok (.not f₁)) ∧
    (implicit = true → standard.parse implicit (b₁ ++ b₂) = .ok (.binary .and f₁ f₂)) := by
  refine ⟨?_, fun a ha => h₁.parse_before hb₁ ha, fun a ha => h₁.parse_after hb₁ ha, ?_⟩
  · intro kind a ha
    obtain ⟨both, hjoin⟩ := ha.exists_join? f₁ f₂
    exact ⟨both, hjoin, h₁.parse_join hb₁ h₂ hb₂ ha hjoin⟩
  · rintro rfl
    exact h₁.parse_beside hb₁ h₂ hb₂

/-- `p q` and `r→s` in brackets of mixed styles, joined by `←` and by nothing. -/
theorem standard_parse_inBrackets_side_by_side :
    let pq : Text := ['p', ' ', 'q']
    let rs : Text := ['r', '→', 's']
    let conjunction : Formula := .binary .and (.var ['p']) (.var ['q'])
    let implication : Formula := .binary .implies (.var ['r']) (.var ['s'])
    standard.ReadsWithin true 127 pq conjunction ∧ standard.ReadsWithin true 127 rs implication ∧
      standard.parse true ['[', 'p', ' ', 'q', ')', ' ', '←', '(', 'r', '→', 's', ' ', ']'] =
        .ok (.binary .implies implication conjunction) ∧
      standard.parse true ['[', 'p', ' ', 'q', ')', ' ', '(', 'r', '→', 's', ' ', ']'] =
        .ok (.binary .and conjunction implication) := by
  intro pq rs conjunction implication
  have hpq : standard.ReadsWithin true 127 pq conjunction := by decide +kernel
  have hrs : standard.ReadsWithin true 127 rs implication := by decide +kernel
  have hblank : Text.Blank [' '] := by decide +kernel
  have hround : standard.Padded .opening ['('] := padded_of_lookup? rfl
  have hround' : standard.Padded .closing [')', ' '] :=
    ⟨[], [')'], [' '], nofun, hblank, rfl, rfl⟩
  have hsquare : standard.Padded .opening ['['] := padded_of_lookup? rfl
  have hsquare' : standard.Padded .closing [' ', ']'] :=
    ⟨[' '], [']'], [], hblank, nofun, rfl, rfl⟩
  have hfirst : standard.InBrackets pq ['[', 'p', ' ', 'q', ')', ' '] :=
    ⟨_, _, hsquare, hround', rfl⟩
  have hsecond : standard.InBrackets rs ['(', 'r', '→', 's', ' ', ']'] :=
    ⟨_, _, hround, hsquare', rfl⟩
  obtain ⟨hjoined, -, -, hbeside⟩ := standard_parse_inBrackets hpq hrs hfirst hsecond
  obtain ⟨both, hboth, hparse⟩ := hjoined .converse ['←'] (padded_of_lookup? rfl)
  cases hboth
  exact ⟨hpq, hrs, hparse, hbeside rfl⟩

end Table

end Wff
