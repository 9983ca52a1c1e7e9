import Wff.Proofs.Adjacency
import Wff.Proofs.Idempotence

/-!
# Wff.Proofs.WrittenForm — what the text of a formula tells

The text of a formula is scanned to its spelling, and the spelling derives the formula; neither knows a
limit of nesting.  So the text tells the formula (`eq_of_written_eq`), even where it is nested too
deep to be read back.

A formula that was read where conjunctions may be left out has no two letters or numbers side by side in
its names, because a mark was written between them (`Settled.spaced`).  So its own text gets no mark
(`reveal_written`) and is read the same whether conjunctions may be left out or not, if its brackets
are nested within the limit.  `Text.Nests` counts them: they are nested as deep as the two-sided nodes of
the formula (`Formula.nests_text`).
-/

namespace Wff

open Character

/-! ### Brackets of a text -/

namespace Text

/-- Nowhere in the text are more than `limit` parentheses open at once. -/
def NestsWithin (limit : Nat) (text : Text) : Prop :=
  ∀ used, used <+: text → used.count '(' ≤ used.count ')' + limit

/-- The parentheses of the text match, with as many as `height` open at once, and no more. -/
structure Nests (height : Nat) (text : Text) : Prop where
  within : text.NestsWithin height
  attained : ∃ used, used <+: text ∧ used.count '(' = used.count ')' + height
  closed : text.count '(' = text.count ')'

theorem Nests.le_of_nestsWithin {height limit : Nat} {text : Text} (h : text.Nests height)
    (hwithin : text.NestsWithin limit) : height ≤ limit := by
  obtain ⟨used, hused, hcount⟩ := h.attained
  have hlimit := hwithin used hused
  omega

theorem nests_zero {text : Text} (hopening : '(' ∉ text) (hclosing : ')' ∉ text) :
    text.Nests 0 where
  within used hused := by
    rw [List.count_eq_zero_of_not_mem fun hmem => hopening (hused.subset hmem)]
    exact Nat.zero_le _
  attained := ⟨[], List.nil_prefix, rfl⟩
  closed := by
    rw [List.count_eq_zero_of_not_mem hopening, List.count_eq_zero_of_not_mem hclosing]

/-- A front part of two texts ends in the first or in the second. -/
theorem prefix_append_cases {used a b : Text} (h : used <+: a ++ b) :
    used <+: a ∨ ∃ more, used = a ++ more ∧ more <+: b := by
  rcases List.prefix_or_prefix_of_prefix h (List.prefix_append a b) with hfirst | ⟨more, rfl⟩
  · exact Or.inl hfirst
  · exact Or.inr ⟨more, rfl, (List.prefix_append_right_inj a).mp h⟩

theorem Nests.append {m n : Nat} {a b : Text} (ha : a.Nests m) (hb : b.Nests n) :
    (a ++ b).Nests (max m n) where
  within used hused := by
    rcases prefix_append_cases hused with hfirst | ⟨more, rfl, hmore⟩
    · have hcount := ha.within used hfirst
      omega
    · have hclosed := ha.closed
      have hcount := hb.within more hmore
      rw [List.count_append, List.count_append]
      omega
  attained := by
    rcases Nat.le_total n m with hle | hle
    · obtain ⟨used, hused, hcount⟩ := ha.attained
      exact ⟨used, hused.trans (List.prefix_append a b), by omega⟩
    · obtain ⟨used, hused, hcount⟩ := hb.attained
      -- the first part has closed what it opened, so only the second part counts
      have hclosed := ha.closed
      refine ⟨a ++ used, (List.prefix_append_right_inj a).mpr hused, ?_⟩
      rw [List.count_append, List.count_append]
      omega
  closed := by
    rw [List.count_append, List.count_append, ha.closed, hb.closed]

theorem Nests.brackets {n : Nat} {text : Text} (h : text.Nests n) :
    Nests (n + 1) ('(' :: (text ++ [')'])) where
  within used hused := by
    rcases List.prefix_cons_iff.mp hused with rfl | ⟨inside, rfl, hinside⟩
    · exact Nat.zero_le _
    · rw [List.count_cons_self, List.count_cons_of_ne (by decide)]
      rcases prefix_append_cases hinside with hfirst | ⟨more, rfl, hmore⟩
      · have hcount := h.within inside hfirst
        omega
      · have hclosed := h.closed
        -- what reaches behind the inside can only add the closing bracket
        have hnone : more.count '(' = 0 :=
          List.count_eq_zero_of_not_mem fun hmem => by simpa using hmore.subset hmem
        rw [List.count_append, List.count_append]
        omega
  attained := by
    obtain ⟨used, hused, hcount⟩ := h.attained
    refine ⟨'(' :: used, List.cons_prefix_cons.mpr ⟨rfl, hused.trans (List.prefix_append ..)⟩, ?_⟩
    rw [List.count_cons_self, List.count_cons_of_ne (by decide)]
    omega
  closed := by
    have hclosed := h.closed
    rw [List.count_cons_self, List.count_cons_of_ne (by decide), List.count_append,
      List.count_append, hclosed]
    rfl

theorem nests_word {name : Text} (h : name.isWord = true) : name.Nests 0 := by
  have hbracket : continuesWord '(' = false ∧ continuesWord ')' = false := by decide +kernel
  have hword := continuesWord_of_isWord h
  apply nests_zero
  · intro hmem
    rw [hword _ hmem] at hbracket
    cases hbracket.1
  · intro hmem
    rw [hword _ hmem] at hbracket
    cases hbracket.2

end Text

namespace Formula

theorem nests_glyph (kind : Kind) : kind.glyph.Nests 0 := by
  have hnone : '(' ∉ kind.glyph ∧ ')' ∉ kind.glyph := by cases kind <;> decide
  exact Text.nests_zero hnone.1 hnone.2

theorem nests_parenthesized {f : Formula} (h : f.text.Nests f.nesting) :
    (f.parenthesized f.text).Nests f.joins := by
  rw [joins_eq, parenthesized]
  by_cases hbinary : f.isBinary = true
  · rw [if_pos hbinary, if_pos hbinary]
    exact h.brackets
  · rw [if_neg hbinary, if_neg hbinary]
    exact h

/-- The parentheses of a formula's text are nested as deep as its two-sided nodes below the root. -/
theorem nests_text (f : Formula) (hnames : ∀ name ∈ f.leafNames, name.isWord = true) :
    f.text.Nests f.nesting := by
  induction f with
  | var name => exact Text.nests_word (hnames name (by simp [leafNames]))
  | const value => exact nests_glyph _
  | not operand ih =>
    have hoperand := nests_parenthesized (ih hnames)
    have hboth := (nests_glyph .not).append hoperand
    rwa [Nat.zero_max] at hboth
  | binary c left right ihLeft ihRight =>
    have hleft := nests_parenthesized (ihLeft fun name hn => hnames name (by simp [leafNames, hn]))
    have hright := nests_parenthesized (ihRight fun name hn => hnames name (by simp [leafNames, hn]))
    have hblank : Text.Nests 0 [' '] := Text.nests_zero (by decide) (by decide)
    have hsign : Text.Nests 0 (' ' :: (c.kind.glyph ++ [' '])) :=
      hblank.append ((nests_glyph c.kind).append hblank)
    have hall := (hleft.append hsign).append hright
    rwa [Nat.max_zero] at hall

end Formula

namespace Table

/-! ### The formula of a text -/

/-- Where the table knows all that is written and none of the names, the text tells the formula. -/
theorem Writes.eq_of_written_eq {table : Table} (h : table.Writes) {f g : Formula}
    (hf : ∀ name ∈ f.leafNames, name.isWord = true ∧ table.lookup? name = none)
    (hg : ∀ name ∈ g.leafNames, name.isWord = true ∧ table.lookup? name = none)
    (hwritten : f.written = g.written) : f = g := by
  obtain ⟨scanned, hscan, hspelling⟩ := h.spells_written hf 0
  obtain ⟨scanned', hscan', hspelling'⟩ := h.spells_written hg 0
  have hsame : scanned = scanned' := by
    rw [hwritten, hscan'] at hscan
    exact (Except.ok.inj hscan).symm
  have hmeanings : f.spelling = g.spelling := by
    rw [← hspelling, ← hspelling', hsame]
  have hderives := g.derives_spelling
  rw [← hmeanings] at hderives
  exact f.derives_spelling.unique hderives

/-- **The text tells the formula**, however deep it is nested: no two formulas whose names are words
other than `T` and `F` are written alike. -/
theorem standard_eq_of_written_eq (f g : Formula)
    (hf : ∀ name ∈ f.leafNames, name.isVariable = true)
    (hg : ∀ name ∈ g.leafNames, name.isVariable = true) (h : f.written = g.written) : f = g :=
  writes_standard.eq_of_written_eq (fun name hname => (isVariable_iff name).mp (hf name hname))
    (fun name hname => (isVariable_iff name).mp (hg name hname)) h

/-- Two texts made in different ways, both nested too deep to be read back, tell the same formula; and
`¬(p ∧ q)` is written otherwise than `¬p ∧ q`. -/
theorem standard_eq_of_written_eq_beyond_limit :
    let p : Formula := .var ['p']
    let q : Formula := .var ['q']
    let f : Formula := Nat.repeat (fun f => .binary .and f p) 130 p
    let g : Formula := (List.replicate 130 p).foldl (.binary .and) p
    128 < f.nesting ∧ f.written = g.written ∧ f = g ∧
      (Formula.not (.binary .and p q)).written ≠ (Formula.binary .and (.not p) q).written := by
  intro p q f g
  have hdeep : 128 < f.nesting := by decide +kernel
  have hf : ∀ name ∈ f.leafNames, name.isVariable = true := by decide +kernel
  have hg : ∀ name ∈ g.leafNames, name.isVariable = true := by decide +kernel
  have hwritten : f.written = g.written := by decide +kernel
  refine ⟨hdeep, hwritten, standard_eq_of_written_eq f g hf hg hwritten, fun hsame => ?_⟩
  cases standard_eq_of_written_eq _ _ (by decide +kernel) (by decide +kernel) hsame

/-! ### The text of a formula that was read -/

/-- In a settled text, letters and numbers do not touch in any part without white space. -/
theorem Settled.spaced {table : Table} {before name after : Text}
    (h : table.Settled (before ++ (name ++ after))) (hink : ∀ c ∈ name, isBlank c = false) :
    name.Spaced := by
  have hname : Text.ink name = name := by
    rw [Text.ink, List.filter_eq_self]
    intro c hc
    simp [hink c hc]
  rw [Settled, Text.ink_append, Text.ink_append, hname] at h
  have hchain := (List.isChain_append.mp (List.isChain_append.mp h).2.1).1
  refine hchain.imp fun c d hnot => ?_
  by_contra htouch
  rw [not_or, Bool.not_eq_false, Bool.not_eq_false] at htouch
  exact hnot ⟨by simp [endsOperand, htouch.1], by simp [startsOperand, htouch.2]⟩

theorem standard_settled_reveal (text : Text) : standard.Settled (standard.reveal text).text := by
  obtain ⟨hends, hstarts⟩ := standard.operand_mark_iff.mpr (by rw [standard_mark.2.2]; simp)
  exact settled_reveal hends hstarts text

theorem spaced_of_parse {text : Text} {f : Formula} (h : standard.parse true text = .ok f)
    {name : Text} (hname : name ∈ f.leafNames) : name.Spaced := by
  obtain ⟨scanned, hscan, -, hread⟩ :=
    exists_scanFrom_of_parseExplicit (parse_implicit_eq_ok_iff.mp h)
  obtain ⟨token, htoken, hmeaning⟩ := (mem_leafNames_iff_of_scanFrom hscan rfl hread name).mp hname
  have hliteral : token.literal = name := by
    rcases meaning_of_mem_scanFrom hscan htoken with ⟨s, -, hs⟩ | ⟨-, -, hvar⟩
    · rw [hs] at hmeaning
      cases hmeaning
    · rw [hvar] at hmeaning
      exact Meaning.var.inj hmeaning
  obtain ⟨before, after, hshown, -⟩ := stands_of_mem_scanFrom hscan htoken
  have hsettled := standard_settled_reveal text
  rw [hshown, hliteral] at hsettled
  exact hsettled.spaced (hliteral ▸ isBlank_eq_false_of_mem_scanFrom hscan htoken)

/-- A formula in whose names letters and numbers do not touch is written without any mark. -/
theorem reveal_written {f : Formula} (hnames : ∀ name ∈ f.leafNames, name.isVariable = true)
    (hspaced : ∀ name ∈ f.leafNames, name.Spaced) :
    standard.reveal f.written = ⟨f.written, #[]⟩ := by
  obtain ⟨scanned, hscan, hspelling⟩ := writes_standard.spells_written
    (fun name hname => (isVariable_iff name).mp (hnames name hname)) 0
  have hread : Formula.ofTokens (scanned ++ [.stopAt 0]) = .ok f :=
    ofTokens_of_scanFrom hscan rfl (hspelling ▸ f.derives_spelling)
  apply reveal_eq_self_of_marks
  rw [Array.eq_empty_iff_forall_not_mem]
  intro mark hmark
  obtain ⟨token, htoken, -, hvar, -, -, htouch⟩ := exists_var_of_mem_marks hscan rfl hread hmark
  exact htouch (hspaced _ ((mem_leafNames_iff_of_scanFrom hscan rfl hread _).mpr ⟨token, htoken, hvar⟩))

/-- **The text of a formula that was read with conjunctions left out is read back either way.**  In its
names letters and numbers do not touch, so its text gets no mark; and if no more than 128 parentheses are
open at once, it is read as the same formula whether conjunctions may be left out or not. -/
theorem standard_parse_written_of_implicit (text : Text) (f : Formula)
    (h : standard.parse true text = .ok f) :
    (∀ name ∈ f.leafNames, name.Spaced) ∧
    standard.reveal f.written = ⟨f.written, #[]⟩ ∧
    (f.written.NestsWithin 128 → ∀ implicit, standard.parse implicit f.written = .ok f) := by
  have hknown : ∀ name ∈ f.leafNames, name.isWord = true ∧ standard.lookup? name = none :=
    fun name hname => mem_leafNames_of_parse h hname
  have hspaced : ∀ name ∈ f.leafNames, name.Spaced := fun name hname => spaced_of_parse h hname
  have hreveal : standard.reveal f.written = ⟨f.written, #[]⟩ :=
    reveal_written (fun name hname => (isVariable_iff name).mpr (hknown name hname)) hspaced
  refine ⟨hspaced, hreveal, fun hwithin implicit => ?_⟩
  have hnests := f.nests_text fun name hname => (hknown name hname).1
  rw [← f.written_eq_text] at hnests
  have hread : standard.parse false f.written = .ok f :=
    writes_standard.parse_written hknown (hnests.le_of_nestsWithin hwithin)
  cases implicit with
  | false => exact hread
  | true =>
    rw [parse_implicit_eq_ok_iff, hreveal]
    exact hread

/-- From `¬p_1q r` two conjunctions are read, one of them inside what looks like a word; the underscore
stays in the first name. -/
theorem standard_parse_written_of_implicit_underscore :
    let text : Text := ['¬', 'p', '_', '1', 'q', ' ', 'r']
    let f : Formula :=
      .binary .and (.binary .and (.not (.var ['p', '_', '1'])) (.var ['q'])) (.var ['r'])
    standard.parse true text = .ok f ∧ f.written = "(¬p_1 ∧ q) ∧ r".toList ∧
      (∀ name ∈ f.leafNames, name.Spaced) ∧ standard.reveal f.written = ⟨f.written, #[]⟩ ∧
      ∀ implicit, standard.parse implicit f.written = .ok f := by
  intro text f
  have hread : standard.parse true text = .ok f := by decide +kernel
  have hwritten : f.written = "(¬p_1 ∧ q) ∧ r".toList := by decide +kernel
  obtain ⟨hspaced, hreveal, hagain⟩ := standard_parse_written_of_implicit text f hread
  have hnests := f.nests_text (by decide +kernel)
  have hnesting : f.nesting ≤ 128 := by decide
  refine ⟨hread, hwritten, hspaced, hreveal, hagain fun used hused => ?_⟩
  rw [f.written_eq_text] at hused
  have hcount := hnests.within used hused
  omega

end Table

end Wff
