import Wff.Grammar
import Wff.Proofs.Spelling
import Wff.Proofs.Standard

/-!
# Wff.Proofs.RoundTrip — reading what was written

The text of a formula is scanned to its spelling, bracket matching passes the spelling as long as it
nests no deeper than the limit, and the spelling derives the formula.  So a text that was written is
read back as the formula it was written from, or its brackets are nested too deep.
-/

namespace Wff

namespace Table

variable {table : Table}

/-! ### Any table that knows the written glyphs -/

theorem ofTokens_of_scanFrom {text : Text} {scanned : List Token} {stop : Token} {f : Formula}
    (hscan : table.scanFrom 0 text = .ok scanned) (hstop : stop.isStop = true)
    (hderives : Derives .biconditional (scanned.map Token.meaning) f) :
    Formula.ofTokens (scanned ++ [stop]) = .ok f := by
  apply Formula.ofTokens_of_derives
  rwa [meaningsBeforeStop_concat (isStop_eq_false_of_mem_scanFrom hscan) hstop]

/-- A text is read as the formula that its tokens derive, if they nest within the limit. -/
theorem parseExplicit_of_spells {text : Text} {meanings : List Meaning} {f : Formula} {height : Nat}
    (hspells : table.Spells text meanings) (hderives : Derives .biconditional meanings f)
    (hspans : Spans height meanings) (hheight : height ≤ nestingLimit) :
    table.parseExplicit text = .ok f := by
  obtain ⟨scanned, hscan, hmeanings⟩ := hspells 0
  have hmatch : matchBrackets [] (scanned ++ [.stopAt (Text.byteLength text)]) = .ok () := by
    rw [(hspans scanned hmeanings [] _ (Nat.zero_le _)).1 (by simpa using hheight)]
    rfl
  have hread : Formula.ofTokens (scanned ++ [.stopAt (Text.byteLength text)]) = .ok f :=
    ofTokens_of_scanFrom hscan rfl (hmeanings ▸ hderives)
  rw [parseExplicit, tokens_of_scanFrom hscan, hmatch]
  exact hread

theorem Writes.spells_written (h : table.Writes) {f : Formula}
    (hnames : ∀ name ∈ f.leafNames, name.isWord = true ∧ table.lookup? name = none) :
    table.Spells f.written f.spelling := by
  rw [Formula.written_eq_text]
  exact h.spells_text f hnames

theorem Writes.parse_written (h : table.Writes) {f : Formula}
    (hnames : ∀ name ∈ f.leafNames, name.isWord = true ∧ table.lookup? name = none)
    (hnesting : f.nesting ≤ nestingLimit) : table.parse false f.written = .ok f :=
  parseExplicit_of_spells (h.spells_written hnames) f.derives_spelling f.spans_spelling hnesting

theorem Writes.parse_written_tooDeep (h : table.Writes) {f : Formula}
    (hnames : ∀ name ∈ f.leafNames, name.isWord = true ∧ table.lookup? name = none)
    (hnesting : nestingLimit < f.nesting) :
    ∃ offset, table.parse false f.written = .error (.tooDeep nestingLimit offset) := by
  obtain ⟨scanned, hscan, hspelling⟩ := h.spells_written hnames 0
  obtain ⟨offset, hmatch⟩ := (f.spans_spelling scanned hspelling []
    [.stopAt (Text.byteLength f.written)] (Nat.zero_le _)).2 (by simpa using hnesting)
  refine ⟨offset, ?_⟩
  show table.parseExplicit f.written = _
  rw [parseExplicit, tokens_of_scanFrom hscan, hmatch]

/-! ### Names that can be read -/

theorem exists_scanFrom_of_parseExplicit {text : Text} {f : Formula}
    (h : table.parseExplicit text = .ok f) :
    ∃ scanned, table.scanFrom 0 text = .ok scanned ∧
      table.tokens text = .ok (scanned ++ [.stopAt (Text.byteLength text)]) ∧
      Formula.ofTokens (scanned ++ [.stopAt (Text.byteLength text)]) = .ok f := by
  unfold parseExplicit at h
  split at h
  · rename_i tokens htokens
    obtain ⟨scanned, hscan, rfl⟩ := scanFrom_of_tokens htokens
    exact ⟨scanned, hscan, htokens, h⟩
  · cases h

theorem parse_implicit_eq_ok_iff {text : Text} {f : Formula} :
    table.parse true text = .ok f ↔ table.parseExplicit (table.reveal text).text = .ok f := by
  change (table.parseExplicit (table.reveal text).text).mapError _ = .ok f ↔ _
  cases table.parseExplicit (table.reveal text).text with
  | error fault => exact ⟨nofun, nofun⟩
  | ok g => exact Iff.rfl

theorem exists_parseExplicit_of_parse {implicit : Bool} {text : Text} {f : Formula}
    (h : table.parse implicit text = .ok f) : ∃ shown, table.parseExplicit shown = .ok f := by
  cases implicit with
  | false => exact ⟨text, h⟩
  | true => exact ⟨(table.reveal text).text, parse_implicit_eq_ok_iff.mp h⟩

/-- The names in a formula are those of the variables among the tokens of its text. -/
theorem mem_leafNames_iff_of_scanFrom {text : Text} {scanned : List Token} {stop : Token}
    {f : Formula} (hscan : table.scanFrom 0 text = .ok scanned) (hstop : stop.isStop = true)
    (hread : Formula.ofTokens (scanned ++ [stop]) = .ok f) (name : Text) :
    name ∈ f.leafNames ↔ ∃ token ∈ scanned, token.meaning = .var name := by
  rw [(Formula.derives_of_ofTokens hread).mem_leafNames_iff,
    meaningsBeforeStop_concat (isStop_eq_false_of_mem_scanFrom hscan) hstop, List.mem_map]

theorem mem_leafNames_of_parse {implicit : Bool} {text : Text} {f : Formula}
    (h : table.parse implicit text = .ok f) {name : Text} (hname : name ∈ f.leafNames) :
    name.isWord = true ∧ table.lookup? name = none := by
  obtain ⟨shown, hshown⟩ := exists_parseExplicit_of_parse h
  obtain ⟨scanned, hscan, -, hread⟩ := exists_scanFrom_of_parseExplicit hshown
  obtain ⟨token, htoken, hmeaning⟩ := (mem_leafNames_iff_of_scanFrom hscan rfl hread name).mp hname
  rcases meaning_of_mem_scanFrom hscan htoken with ⟨s, -, hs⟩ | ⟨hnone, hword, hvar⟩
  · rw [hs] at hmeaning
    cases hmeaning
  · rw [hvar] at hmeaning
    cases hmeaning
    exact ⟨hword, hnone⟩

/-! ### The usual aliases -/

theorem writes_standard : standard.Writes where
  connective c := by cases c <;> exact ⟨_, rfl, by decide +kernel⟩
  const value := by cases value <;> exact ⟨_, rfl, by decide +kernel⟩
  not := ⟨_, rfl, by decide +kernel⟩
  opening := by decide +kernel
  closing := by decide +kernel

/-- **Round trip.**  With the usual aliases, a formula whose names are words other than `T` and `F`
is read back from its text exactly if at most 128 of its binary nodes lie under each other below the
root; else its brackets are nested too deep.  All formulas that can be read have such names. -/
theorem standard_parse_written :
    (∀ f : Formula, (∀ name ∈ f.leafNames, name.isVariable = true) →
      (f.nesting ≤ 128 → standard.parse false f.written = .ok f) ∧
      (128 < f.nesting →
        ∃ offset, standard.parse false f.written = .error (.tooDeep 128 offset))) ∧
    ∀ implicit text f, standard.parse implicit text = .ok f →
      ∀ name ∈ f.leafNames, name.isVariable = true := by
  constructor
  · intro f hnames
    have hknown : ∀ name ∈ f.leafNames, name.isWord = true ∧ standard.lookup? name = none :=
      fun name hname => (isVariable_iff name).mp (hnames name hname)
    exact ⟨writes_standard.parse_written hknown, writes_standard.parse_written_tooDeep hknown⟩
  · intro implicit text f h name hname
    exact (isVariable_iff name).mpr (mem_leafNames_of_parse h hname)

/-- A formula within the limit, and one with 129 conjunctions under each other below its root. -/
theorem standard_parse_written_within_and_beyond :
    let within : Formula :=
      .not (.binary .implies (.var ['p']) (.binary .nor (.const true) (.var ['q'])))
    let beyond : Formula := Nat.repeat (fun f => .binary .and f (.var ['p'])) 130 (.var ['p'])
    (within.nesting = 2 ∧ standard.parse false within.written = .ok within ∧
      ∀ name ∈ within.leafNames, name.isVariable = true) ∧
    beyond.nesting = 129 ∧ (∀ name ∈ beyond.leafNames, name.isVariable = true) ∧
      ∃ offset, standard.parse false beyond.written = .error (.tooDeep 128 offset) := by
  intro within beyond
  have hwithin : within.nesting = 2 := by decide +kernel
  have hbeyond : beyond.nesting = 129 := by decide +kernel
  have hnames : ∀ name ∈ beyond.leafNames, name.isVariable = true := by decide +kernel
  have hread : standard.parse false within.written = .ok within :=
    (standard_parse_written.1 within (by decide +kernel)).1 (by omega)
  have hback := standard_parse_written.2 false within.written within hread
  have hdeep := (standard_parse_written.1 beyond hnames).2 (by omega)
  exact ⟨⟨hwithin, hread, hback⟩, hbeyond, hnames, hdeep⟩

end Table

end Wff
