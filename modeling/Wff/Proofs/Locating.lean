import Wff.Fault.Report
import Wff.Proofs.Lists
import Wff.Proofs.Slicing

/-!
# Wff.Proofs.Locating — reports point at the place of the fault

A report shows a line, a column and a caret.  `Place.Between` says what they are, for the two parts of
the text before and after the place: the line is found among the pieces between line breaks, and walking
over line breaks and then over characters of one line leads to the place (`Text.walk?`).

The place can also be found with byte offsets alone, by searching for line breaks and slicing.  Slices
outside the text or through a character do not exist (`Text.slice?`); `Text.placeBySlices?` never needs
one, and finds the same place (`Fault.report_locates`).
-/

namespace Wff

namespace Text

/-! ### Lines -/

def withBreaks (lines : List Text) : Text := lines.flatMap (· ++ ['\n'])

@[simp] theorem withBreaks_nil : withBreaks [] = [] := rfl

@[simp] theorem withBreaks_cons (line : Text) (lines : List Text) :
    withBreaks (line :: lines) = line ++ '\n' :: withBreaks lines := by
  simp [withBreaks]

theorem withBreaks_concat (lines : List Text) (line : Text) :
    withBreaks (lines.concat line) = withBreaks lines ++ line ++ ['\n'] := by
  simp [withBreaks]

/-- What is left of the text behind so many line breaks and then so many characters of one line. -/
def walk? : Nat → Nat → Text → Option Text
  | 0, 0, text => some text
  | _, _, [] => none
  | 0, column + 1, c :: rest => if c = '\n' then none else walk? 0 column rest
  | breaks + 1, column, c :: rest =>
    if c = '\n' then walk? breaks column rest else walk? (breaks + 1) column rest

theorem exists_lines (text : Text) : ∃ lines last, text = withBreaks lines ++ last ∧
    (∀ line ∈ lines, '\n' ∉ line) ∧ '\n' ∉ last := by
  induction text with
  | nil => exact ⟨[], [], rfl, by simp, by simp⟩
  | cons c rest ih =>
    obtain ⟨lines, last, rfl, hlines, hlast⟩ := ih
    by_cases hc : c = '\n'
    · exact ⟨[] :: lines, last, by simp [hc], by simpa using hlines, hlast⟩
    · cases lines with
      | nil => exact ⟨[], c :: last, rfl, by simp, by simp [Ne.symm hc, hlast]⟩
      | cons line lines =>
        obtain ⟨hline, hothers⟩ := List.forall_mem_cons.mp hlines
        refine ⟨(c :: line) :: lines, last, by simp, List.forall_mem_cons.mpr ⟨?_, hothers⟩, hlast⟩
        simp [Ne.symm hc, hline]

/-- No character of a line comes before the next line break or the end. -/
abbrev AtBreak (text : Text) : Prop := Stops (· != '\n') text

theorem AtBreak.eq_nil_or_cons {text : Text} (h : text.AtBreak) :
    text = [] ∨ ∃ rest, text = '\n' :: rest := by
  cases text with
  | nil => exact Or.inl rfl
  | cons c rest =>
    have hc : c = '\n' := by simpa using stops_cons.mp h
    exact Or.inr ⟨rest, by rw [hc]⟩

theorem exists_line_end (text : Text) : ∃ tail rest, text = tail ++ rest ∧ '\n' ∉ tail ∧
    AtBreak rest := by
  refine ⟨text.takeWhile (· != '\n'), text.dropWhile (· != '\n'),
    List.takeWhile_append_dropWhile.symm, fun hmem => ?_, stops_dropWhile _ _⟩
  simpa using List.mem_takeWhile_imp hmem

theorem atBreak_reverse_withBreaks (lines : List Text) : AtBreak (withBreaks lines).reverse := by
  rcases List.eq_nil_or_concat lines with rfl | ⟨front, line, rfl⟩
  · exact stops_nil _
  · rw [withBreaks_concat, List.reverse_concat]
    exact stops_cons.mpr rfl

theorem takeWhile_line {line rest : Text} (hline : '\n' ∉ line) (hrest : AtBreak rest) :
    (line ++ rest).takeWhile (· != '\n') = line := by
  rw [hrest.takeWhile_append, List.takeWhile_eq_self_iff]
  rintro c hc
  have hne : c ≠ '\n' := fun heq => hline (heq ▸ hc)
  simpa using hne

theorem exists_splitOn_eq_cons {line rest : Text} (hline : '\n' ∉ line) (hrest : AtBreak rest) :
    ∃ others, (line ++ rest).splitOn '\n' = line :: others := by
  rcases hrest.eq_nil_or_cons with rfl | ⟨more, rfl⟩
  · exact ⟨[], by rw [List.append_nil, List.splitOn_eq_singleton hline]⟩
  · exact ⟨more.splitOn '\n', List.splitOn_append_cons_self_of_not_mem hline more⟩

theorem splitOn_withBreaks {lines : List Text} (h : ∀ line ∈ lines, '\n' ∉ line) (rest : Text) :
    (withBreaks lines ++ rest).splitOn '\n' = lines ++ rest.splitOn '\n' := by
  induction lines with
  | nil => rfl
  | cons line lines ih =>
    obtain ⟨hline, hothers⟩ := List.forall_mem_cons.mp h
    rw [withBreaks_cons, List.append_assoc, List.cons_append,
      List.splitOn_append_cons_self_of_not_mem hline, ih hothers, List.cons_append]

theorem count_withBreaks {lines : List Text} (h : ∀ line ∈ lines, '\n' ∉ line) :
    (withBreaks lines).count '\n' = lines.length := by
  induction lines with
  | nil => rfl
  | cons line lines ih =>
    obtain ⟨hline, hothers⟩ := List.forall_mem_cons.mp h
    rw [withBreaks_cons, List.count_append, List.count_eq_zero.mpr hline, List.count_cons_self,
      ih hothers, List.length_cons]
    omega

theorem walk?_line {inLine : Text} (h : '\n' ∉ inLine) (rest : Text) :
    walk? 0 inLine.length (inLine ++ rest) = some rest := by
  induction inLine with
  | nil => cases rest <;> rfl
  | cons c inLine ih =>
    rw [List.length_cons, List.cons_append, walk?, if_neg (List.ne_of_not_mem_cons h).symm,
      ih (List.not_mem_of_not_mem_cons h)]

theorem walk?_break {line : Text} (h : '\n' ∉ line) (breaks column : Nat) (rest : Text) :
    walk? (breaks + 1) column (line ++ '\n' :: rest) = walk? breaks column rest := by
  induction line with
  | nil =>
    rw [List.nil_append, walk?, if_pos rfl]
  | cons c line ih =>
    rw [List.cons_append, walk?, if_neg (List.ne_of_not_mem_cons h).symm,
      ih (List.not_mem_of_not_mem_cons h)]

theorem walk?_withBreaks {lines : List Text} (h : ∀ line ∈ lines, '\n' ∉ line) (column : Nat)
    (rest : Text) : walk? lines.length column (withBreaks lines ++ rest) = walk? 0 column rest := by
  induction lines with
  | nil => rfl
  | cons line lines ih =>
    obtain ⟨hline, hothers⟩ := List.forall_mem_cons.mp h
    rw [withBreaks_cons, List.append_assoc, List.cons_append, List.length_cons, walk?_break hline,
      ih hothers]

/-! ### The running place -/

/-- Characters are passed as long as they end within the offset. -/
theorem exists_cutFrom_eq (passed : Text) (room : Nat) (text : Text) :
    ∃ before after, text = before ++ after ∧
      cutFrom passed room text = (before.reverse ++ passed, after) ∧
      byteLength before ≤ room ∧ ∀ c ∈ after.head?, room < byteLength before + c.utf8Size := by
  induction text generalizing passed room with
  | nil => exact ⟨[], [], rfl, rfl, by simp, by simp⟩
  | cons c rest ih =>
    -- a character that does not fit stops the walk, even if a later one would fit
    by_cases hfits : c.utf8Size ≤ room
    · obtain ⟨before, after, rfl, hcut, hle, hmax⟩ := ih (c :: passed) (room - c.utf8Size)
      refine ⟨c :: before, after, rfl, ?_, ?_, ?_⟩
      · rw [cutFrom, if_pos hfits, hcut, List.reverse_cons, List.append_assoc, List.singleton_append]
      · rw [byteLength_cons]
        omega
      · intro d hd
        have := hmax d hd
        rw [byteLength_cons]
        omega
    · refine ⟨[], c :: rest, rfl, ?_, by simp, ?_⟩
      · rw [cutFrom, if_neg hfits]
        rfl
      · intro d hd
        obtain rfl : c = d := Option.some.inj hd
        rw [byteLength_nil]
        omega

/-- The place of an offset is where the text can be cut last, up to the offset and the end. -/
theorem exists_cut_eq (text : Text) (offset : Nat) :
    ∃ before after, text = before ++ after ∧ text.cut offset = (before.reverse, after) ∧
      IsGreatest {o | text.Boundary o ∧ o ≤ min offset (byteLength text)} (byteLength before) := by
  obtain ⟨before, after, rfl, hcut, hle, hmax⟩ := exists_cutFrom_eq [] offset text
  refine ⟨before, after, rfl, by rw [cut, hcut, List.append_nil], ?_, ?_⟩
  · refine ⟨boundary_iff.mpr ⟨before, after, rfl, rfl⟩, ?_⟩
    rw [byteLength_append]
    omega
  · rintro o ⟨ho, hole⟩
    obtain ⟨before', after', hsplit, rfl⟩ := boundary_iff.mp ho
    rcases List.append_eq_append_iff.mp hsplit with ⟨more, rfl, rfl⟩ | ⟨more, rfl, -⟩
    · cases more with
      | nil => simp
      | cons c more =>
        -- one more character would end behind the offset
        have := hmax c rfl
        rw [byteLength_append, byteLength_cons] at hole
        omega
    · rw [byteLength_append]
      omega

end Text

/-! ### Places -/

structure Place.Between (place : Place) (before after : Text) : Prop where
  breaks : place.linesBefore = before.count '\n'
  /-- its line is the piece of the text behind as many line breaks -/
  line : ((before ++ after).splitOn '\n')[place.linesBefore]? = some place.line
  /-- the part before it is all lines above and the characters of its line before it -/
  column : ∃ inLine, inLine <+: place.line ∧ place.column = inLine.length ∧
    before = Text.withBreaks (((before ++ after).splitOn '\n').take place.linesBefore) ++ inLine
  /-- walking over the line breaks and then over the characters leads to it -/
  walk : Text.walk? place.linesBefore place.column (before ++ after) = some after

/-- The place at a byte offset by searching and slicing; none if a slice does not exist. -/
def Text.placeBySlices? (text : Text) (offset : Nat) : Option Place := do
  let here ← text.stepBack? (min offset text.byteLength)
  let before ← text.slice? 0 here
  let after ← text.slice? here text.byteLength
  let start := ((before.lastOffset? '\n').map (· + 1)).getD 0
  let stop := ((after.firstOffset? '\n').map (here + ·)).getD text.byteLength
  let above ← text.slice? 0 start
  let inLine ← text.slice? start here
  let line ← text.slice? start stop
  return { linesBefore := above.count '\n', column := inLine.length, line }

section Layout

variable {lines : List Text} {inLine tail rest : Text} (hlines : ∀ line ∈ lines, '\n' ∉ line)
  (hinLine : '\n' ∉ inLine) (htail : '\n' ∉ tail) (hrest : rest.AtBreak)
include hlines hinLine htail hrest

theorem Place.between_of_layout :
    Place.Between ⟨lines.length, inLine.length, inLine ++ tail⟩ (Text.withBreaks lines ++ inLine)
      (tail ++ rest) := by
  have hline : '\n' ∉ inLine ++ tail := by
    rw [List.mem_append]
    exact not_or.mpr ⟨hinLine, htail⟩
  obtain ⟨others, hothers⟩ := Text.exists_splitOn_eq_cons hline hrest
  have hpieces : ((Text.withBreaks lines ++ inLine) ++ (tail ++ rest)).splitOn '\n' =
      lines ++ (inLine ++ tail) :: others := by
    rw [List.append_assoc, Text.splitOn_withBreaks hlines, ← List.append_assoc, hothers]
  refine ⟨?_, ?_, ⟨inLine, List.prefix_append _ _, rfl, ?_⟩, ?_⟩
  · show lines.length = _
    rw [List.count_append, Text.count_withBreaks hlines, List.count_eq_zero.mpr hinLine]
    rfl
  · rw [hpieces]
    simp
  · rw [hpieces, List.take_left' rfl]
  · rw [List.append_assoc, Text.walk?_withBreaks hlines, Text.walk?_line hinLine]

theorem Text.place_of_layout {text : Text} {offset : Nat}
    (hcut : text.cut offset = ((withBreaks lines ++ inLine).reverse, tail ++ rest)) :
    text.place offset = ⟨lines.length, inLine.length, inLine ++ tail⟩ := by
  have hcount : (withBreaks lines ++ inLine).count '\n' = lines.length :=
    (Place.between_of_layout hlines hinLine htail hrest).breaks.symm
  have hpassed : (withBreaks lines ++ inLine).reverse.takeWhile (· != '\n') = inLine.reverse := by
    rw [List.reverse_append]
    exact takeWhile_line (by simpa using hinLine) (atBreak_reverse_withBreaks lines)
  unfold place
  rw [hcut]
  simp only [hpassed, takeWhile_line htail hrest, List.count_reverse, hcount, List.length_reverse,
    List.reverse_reverse]

theorem Text.placeBySlices?_of_layout {offset : Nat}
    (hgreatest : IsGreatest {o | Boundary (withBreaks lines ++ inLine ++ (tail ++ rest)) o ∧
      o ≤ min offset (byteLength (withBreaks lines ++ inLine ++ (tail ++ rest)))}
      (byteLength (withBreaks lines ++ inLine))) :
    placeBySlices? (withBreaks lines ++ inLine ++ (tail ++ rest)) offset =
      some ⟨lines.length, inLine.length, inLine ++ tail⟩ := by
  -- the line begins behind the last line break before the place, and ends before the next one
  have hstart : (((withBreaks lines ++ inLine).lastOffset? '\n').map (· + 1)).getD 0 =
      byteLength (withBreaks lines) := by
    rcases List.eq_nil_or_concat lines with rfl | ⟨front, line, rfl⟩
    · rw [withBreaks_nil, List.nil_append, lastOffset?_of_notMem hinLine]
      rfl
    · rw [withBreaks_concat, List.append_assoc _ ['\n'], List.singleton_append,
        lastOffset?_append_cons _ hinLine, byteLength_append _ ['\n']]
      rfl
  have hstop : (((tail ++ rest).firstOffset? '\n').map
      (byteLength (withBreaks lines ++ inLine) + ·)).getD
        (byteLength (withBreaks lines ++ inLine ++ (tail ++ rest))) =
      byteLength (withBreaks lines) + byteLength (inLine ++ tail) := by
    rcases hrest.eq_nil_or_cons with rfl | ⟨more, rfl⟩
    · rw [List.append_nil, firstOffset?_of_notMem htail]
      simp [Nat.add_assoc]
    · rw [firstOffset?_append_cons htail]
      simp [Nat.add_assoc]
  have hbefore := slice?_append [] (withBreaks lines ++ inLine) (tail ++ rest)
  have hafter := slice?_append (withBreaks lines ++ inLine) (tail ++ rest) []
  have habove := slice?_append [] (withBreaks lines) (inLine ++ (tail ++ rest))
  have hinside := slice?_append (withBreaks lines) inLine (tail ++ rest)
  have hwhole := slice?_append (withBreaks lines) (inLine ++ tail) rest
  rw [List.nil_append, byteLength_nil, Nat.zero_add] at hbefore habove
  rw [List.append_nil, ← byteLength_append] at hafter
  rw [← byteLength_append] at hinside
  simp only [← List.append_assoc] at hbefore hafter habove hinside hwhole hstart hstop hgreatest ⊢
  unfold placeBySlices?
  simp only [stepBack?_of_isGreatest hgreatest, Option.bind_eq_bind, Option.bind_some, hbefore, hafter,
    hstart, hstop, habove, hinside, hwhole, count_withBreaks hlines, pure]

end Layout

/-! ### Reports -/

/-- The lines of a report: what is wrong, where, and the line of the place with a caret below it. -/
def Fault.reportLines (fault : Fault) (name : Text) (place : Place) : List Text :=
  let number := Text.ofNat (place.linesBefore + 1)
  let margin := Text.blanks number.length
  ["error: ".toList ++ fault.message,
   margin ++ "--> ".toList ++ name ++ ':' :: number ++ ':' :: Text.ofNat (place.column + 1),
   margin ++ " |".toList,
   number ++ " | ".toList ++ place.line,
   margin ++ " | ".toList ++ Text.blanks place.column ++ ['^']]

theorem Fault.report_eq_lines {fault : Fault} {offset : Nat} (h : fault.offset? = some offset)
    (text name : Text) :
    fault.report text name = List.intercalate ['\n'] (fault.reportLines name (text.place offset)) := by
  simp [report, reportLines, h, List.intercalate]

/-- **A report shows its fault where it lies.**  Whatever the offset, the place is the last one up to it,
and up to the end, at which the text can be cut.  Searching and slicing finds it without a slice that does
not exist.  The report gives its line by number and in full, and the characters before it on that line
by number and by the blanks before the caret. -/
theorem Fault.report_locates (fault : Fault) (offset : Nat) (hoffset : fault.offset? = some offset)
    (text name : Text) :
    ∃ before after place, text = before ++ after ∧
      IsGreatest {o | text.Boundary o ∧ o ≤ min offset (Text.byteLength text)}
        (Text.byteLength before) ∧
      text.placeBySlices? offset = some place ∧ place.Between before after ∧
      fault.report text name = List.intercalate ['\n'] (fault.reportLines name place) := by
  obtain ⟨before, after, rfl, hcut, hgreatest⟩ := Text.exists_cut_eq text offset
  obtain ⟨lines, inLine, rfl, hlines, hinLine⟩ := Text.exists_lines before
  obtain ⟨tail, rest, rfl, htail, hrest⟩ := Text.exists_line_end after
  refine ⟨_, _, _, rfl, hgreatest,
    Text.placeBySlices?_of_layout hlines hinLine htail hrest hgreatest,
    Place.between_of_layout hlines hinLine htail hrest, ?_⟩
  rw [report_eq_lines hoffset, Text.place_of_layout hlines hinLine htail hrest hcut]

/-- Between the two bytes of `é`, which begins the second line, the place is the beginning of that
line. -/
theorem Fault.report_locates_inside_character :
    let text : Text := ['p', '\n', 'é', 'q', '\n']
    (Fault.missingOperand 3).offset? = some 3 ∧ ¬ text.Boundary 3 ∧
    ∃ before after place, text = before ++ after ∧ before = ['p', '\n'] ∧
      text.placeBySlices? 3 = some place ∧ place.Between before after ∧
      (Fault.missingOperand 3).report text ['f'] =
        List.intercalate ['\n'] ((Fault.missingOperand 3).reportLines ['f'] place) ∧
      place.linesBefore = 1 ∧ place.column = 0 ∧ place.line = ['é', 'q'] := by
  intro text
  have hinside : ¬ text.Boundary 3 := by decide
  obtain ⟨before, after, place, hsplit, hgreatest, hslices, hbetween, hreport⟩ :=
    Fault.report_locates (.missingOperand 3) 3 rfl text ['f']
  have hrun : text.placeBySlices? 3 = some ⟨1, 0, ['é', 'q']⟩ := by rfl
  obtain rfl : place = ⟨1, 0, ['é', 'q']⟩ := Option.some.inj (hslices.symm.trans hrun)
  have hlast : IsGreatest {o | text.Boundary o ∧ o ≤ min 3 (Text.byteLength text)} 2 := by
    refine ⟨⟨by decide, by decide⟩, ?_⟩
    rintro o ⟨ho, hole⟩
    have hne : o ≠ 3 := fun heq => hinside (heq ▸ ho)
    omega
  have hwhole : before ++ after = ['p', '\n'] ++ ['é', 'q', '\n'] := hsplit.symm
  have hlength : Text.byteLength before = 2 :=
    Nat.le_antisymm (hlast.2 hgreatest.1) (hgreatest.2 hlast.1)
  obtain ⟨rfl, -⟩ := Text.append_inj_of_byteLength hwhole hlength
  exact ⟨rfl, hinside, _, after, _, hsplit, rfl, hslices, hbetween, hreport, rfl, rfl, rfl⟩

end Wff
