import Wff.Juxtaposition
import Wff.Proofs.Segmentation

/-!
# Wff.Proofs.Marks — texts with marks, stroke by stroke

`Table.reveal` keeps a text and the places of the marks in it apart.  A list of strokes, each a mark
or a character as given, holds both: `Stroke.shown` is the text with marks, `Stroke.given` the text
without, `marksFrom` the places of the marks.

* `reveal_eq`: what `reveal` yields are the strokes of the text (`Table.strokesFrom`).
* `givenOffset_shown`: before any stroke, the offset in the text with marks is traced back to the
  offset in the text as given.
* `exists_of_strokesFrom_eq`: a mark stands where one operand can end and another begin.
* `before_given_cases`: right before a character there is a mark if one is due, and else none, so that
  the strokes before are those of the text before.
-/

namespace Wff

open Character

theorem continuesWord_mark : continuesWord conjunctionMark = false := by
  decide +kernel

theorem isBlank_mark : isBlank conjunctionMark = false := by
  decide +kernel

/-- A character of a text with marks. -/
inductive Stroke
  | mark
  | given (c : Char)

namespace Stroke

def char : Stroke → Char
  | mark => conjunctionMark
  | given c => c

def given? : Stroke → Option Char
  | mark => none
  | given c => some c

def shown (strokes : List Stroke) : Text := strokes.map char

def givenText (strokes : List Stroke) : Text := strokes.filterMap given?

/-- The byte offsets of the marks, in a text that begins at a byte offset. -/
def marksFrom (here : Nat) : List Stroke → List Nat
  | [] => []
  | mark :: rest => here :: marksFrom (here + conjunctionMark.utf8Size) rest
  | given c :: rest => marksFrom (here + c.utf8Size) rest

@[simp] theorem shown_nil : shown [] = [] := rfl

@[simp] theorem shown_cons (stroke : Stroke) (strokes : List Stroke) :
    shown (stroke :: strokes) = stroke.char :: shown strokes := rfl

@[simp] theorem shown_append (a b : List Stroke) : shown (a ++ b) = shown a ++ shown b :=
  List.map_append

@[simp] theorem givenText_nil : givenText [] = [] := rfl

@[simp] theorem givenText_mark (strokes : List Stroke) :
    givenText (mark :: strokes) = givenText strokes := rfl

@[simp] theorem givenText_given (c : Char) (strokes : List Stroke) :
    givenText (given c :: strokes) = c :: givenText strokes := rfl

@[simp] theorem givenText_append (a b : List Stroke) :
    givenText (a ++ b) = givenText a ++ givenText b :=
  List.filterMap_append

theorem marksFrom_append (here : Nat) (a b : List Stroke) :
    marksFrom here (a ++ b) =
      marksFrom here a ++ marksFrom (here + Text.byteLength (shown a)) b := by
  induction a generalizing here with
  | nil => rfl
  | cons stroke a ih =>
    cases stroke with
    | mark =>
      show here :: marksFrom _ (a ++ b) = here :: marksFrom _ a ++ _
      rw [ih, List.cons_append, shown_cons, Text.byteLength_cons, Nat.add_assoc]
      rfl
    | given c =>
      show marksFrom _ (a ++ b) = marksFrom _ a ++ _
      rw [ih, shown_cons, Text.byteLength_cons, Nat.add_assoc]
      rfl

theorem byteLength_shown (here : Nat) (strokes : List Stroke) :
    Text.byteLength (shown strokes) =
      Text.byteLength (givenText strokes) + (marksFrom here strokes).length := by
  induction strokes generalizing here with
  | nil => rfl
  | cons stroke strokes ih =>
    cases stroke with
    | mark =>
      rw [shown_cons, Text.byteLength_cons, ih (here + conjunctionMark.utf8Size)]
      -- a mark is one byte that the text as given does not have
      show 1 + _ = _ + (_ + 1)
      rw [givenText_mark]
      omega
    | given c =>
      rw [shown_cons, Text.byteLength_cons, ih (here + c.utf8Size), givenText_given,
        Text.byteLength_cons, Nat.add_assoc]
      rfl

theorem mem_marksFrom_iff {here offset : Nat} {strokes : List Stroke} :
    offset ∈ marksFrom here strokes ↔
      ∃ a b, strokes = a ++ mark :: b ∧ offset = here + Text.byteLength (shown a) := by
  constructor
  · intro h
    induction strokes generalizing here with
    | nil => cases h
    | cons stroke strokes ih =>
      -- a place in the rest counts from behind the first stroke, whichever that is
      have hrest : offset ∈ marksFrom (here + stroke.char.utf8Size) strokes →
          ∃ a b, stroke :: strokes = a ++ mark :: b ∧
            offset = here + Text.byteLength (shown a) := by
        intro hmem
        obtain ⟨a, b, rfl, hoffset⟩ := ih hmem
        exact ⟨stroke :: a, b, rfl, by rw [hoffset, shown_cons, Text.byteLength_cons, Nat.add_assoc]⟩
      cases stroke with
      | mark =>
        rcases List.mem_cons.mp h with rfl | h
        · exact ⟨[], strokes, rfl, rfl⟩
        · exact hrest h
      | given c => exact hrest h
  · rintro ⟨a, b, rfl, rfl⟩
    rw [marksFrom_append]
    exact List.mem_append_right _ List.mem_cons_self

theorem le_of_mem_marksFrom {here offset : Nat} {strokes : List Stroke}
    (h : offset ∈ marksFrom here strokes) : here ≤ offset := by
  obtain ⟨a, b, -, rfl⟩ := mem_marksFrom_iff.mp h
  omega

theorem lt_of_mem_marksFrom {here offset : Nat} {strokes : List Stroke}
    (h : offset ∈ marksFrom here strokes) : offset < here + Text.byteLength (shown strokes) := by
  obtain ⟨a, b, rfl, rfl⟩ := mem_marksFrom_iff.mp h
  rw [shown_append, Text.byteLength_append, shown_cons, Text.byteLength_cons]
  show _ < here + (_ + (1 + _))
  omega

theorem marksFrom_ascending (here : Nat) (strokes : List Stroke) :
    (marksFrom here strokes).Pairwise (· < ·) := by
  induction strokes generalizing here with
  | nil => exact List.Pairwise.nil
  | cons stroke strokes ih =>
    cases stroke with
    | mark =>
      refine List.pairwise_cons.mpr ⟨?_, ih _⟩
      intro place hplace
      have hle := le_of_mem_marksFrom hplace
      have hpos := conjunctionMark.utf8Size_pos
      omega
    | given c => exact ih _

theorem append_inj_of_byteLength {a b a' b' : List Stroke} (h : a ++ b = a' ++ b')
    (hlength : Text.byteLength (shown a) = Text.byteLength (shown a')) : a = a' ∧ b = b' := by
  have hshown : shown a ++ shown b = shown a' ++ shown b' := by
    rw [← shown_append, ← shown_append, h]
  obtain ⟨hfront, -⟩ := Text.append_inj_of_byteLength hshown hlength
  have hcount : a.length = a'.length := by
    simpa [shown] using congrArg List.length hfront
  exact List.append_inj h hcount

/-- Strokes are split before a given character in one way only. -/
theorem eq_of_append_given {a b a' b' : List Stroke} {c c' : Char}
    (h : a ++ given c :: b = a' ++ given c' :: b') (hgiven : givenText a = givenText a') : a = a' := by
  -- what is between the two cuts has no given character, but would begin with one
  have hnil : ∀ {x more y : List Stroke} {d : Char}, given d :: y = more ++ x →
      givenText more = [] → more = [] := by
    intro x more y d hsplit hmore
    cases more with
    | nil => rfl
    | cons stroke more =>
      obtain ⟨hhead, -⟩ := List.cons_eq_cons.mp hsplit
      rw [← hhead] at hmore
      cases hmore
  rcases List.append_eq_append_iff.mp h with ⟨more, rfl, hmore⟩ | ⟨more, rfl, hmore⟩
  · have hnone : givenText more = [] := by simpa using hgiven
    rw [hnil hmore hnone, List.append_nil]
  · have hnone : givenText more = [] := by simpa using hgiven
    rw [hnil hmore hnone, List.append_nil]

theorem shown_eq_givenText {here : Nat} {strokes : List Stroke} (h : marksFrom here strokes = []) :
    shown strokes = givenText strokes := by
  induction strokes generalizing here with
  | nil => rfl
  | cons stroke strokes ih =>
    cases stroke with
    | mark => cases h
    | given c => rw [shown_cons, givenText_given, ih h, char]

theorem getLast?_given_cons (c : Char) (strokes : List Stroke) :
    (given c :: strokes).getLast? = some mark ↔ strokes.getLast? = some mark := by
  rw [List.getLast?_cons]
  cases strokes.getLast? <;> simp

end Stroke

/-! ### Tracing back -/

namespace Revealed

/-- The search ends at the index that separates the smaller numbers from the others. -/
theorem rankFrom_eq {numbers : Array Nat} {n k : Nat}
    (h : ∀ i, numbers.getD i n < n ↔ i < k) {low high : Nat} (hlow : low ≤ k) (hhigh : k ≤ high) :
    rankFrom numbers n low high = k := by
  fun_induction rankFrom numbers n low high with
  | case1 low high hlt middle hbelow ih =>
    have := (h middle).mp hbelow
    exact ih (by omega) hhigh
  | case2 low high hlt middle hnot ih =>
    have : ¬ middle < k := fun hmiddle => hnot ((h middle).mpr hmiddle)
    exact ih hlow (by omega)
  | case3 low high hnot => omega

theorem getD_lt_iff {numbers : List Nat} (h : numbers.Pairwise (· < ·)) (n i : Nat) :
    numbers[i]?.getD n < n ↔ i < numbers.countP (· < n) := by
  induction numbers generalizing i with
  | nil => simp
  | cons first rest ih =>
    obtain ⟨habove, hrest⟩ := List.pairwise_cons.mp h
    by_cases hfirst : first < n
    · rw [List.countP_cons_of_pos (by simpa using hfirst)]
      cases i with
      | zero => simpa using hfirst
      | succ i => simpa using ih hrest i
    · -- the numbers ascend, so none after one that is not smaller is smaller
      have hnone : ∀ number ∈ first :: rest, ¬ number < n := by
        intro number hnumber
        rcases List.mem_cons.mp hnumber with rfl | hnumber
        · exact hfirst
        · have hlt := habove number hnumber
          omega
      have hzero : (first :: rest).countP (· < n) = 0 :=
        List.countP_eq_zero.mpr (by simpa using hnone)
      rw [hzero]
      -- behind the end the number asked for stands in, which is not below itself
      cases hi : (first :: rest)[i]? with
      | none => simp
      | some number => simpa using hnone number (List.mem_of_getElem? hi)

/-- The search counts the smaller numbers. -/
theorem rank_eq_countP {numbers : List Nat} (h : numbers.Pairwise (· < ·)) (n : Nat) :
    rank numbers.toArray n = numbers.countP (· < n) := by
  refine rankFrom_eq ?_ (Nat.zero_le _) ?_
  · intro i
    rw [Array.getD_eq_getD_getElem?, List.getElem?_toArray]
    exact getD_lt_iff h n i
  · rw [List.size_toArray]
    exact List.countP_le_length

/-- Before any stroke, the offset among marks is traced back to the offset in the given text. -/
theorem givenOffset_shown (text : Text) (a b : List Stroke) :
    givenOffset ⟨text, (Stroke.marksFrom 0 (a ++ b)).toArray⟩ (Text.byteLength (Stroke.shown a)) =
      Text.byteLength (Stroke.givenText a) := by
  -- all marks before the place count, and none of those behind it
  have hbefore : (Stroke.marksFrom 0 a).countP (· < Text.byteLength (Stroke.shown a)) =
      (Stroke.marksFrom 0 a).length := by
    refine List.countP_eq_length.mpr ?_
    intro place hplace
    have hlt := Stroke.lt_of_mem_marksFrom hplace
    simpa using hlt
  have hafter : (Stroke.marksFrom (Text.byteLength (Stroke.shown a)) b).countP
      (· < Text.byteLength (Stroke.shown a)) = 0 := by
    refine List.countP_eq_zero.mpr ?_
    intro place hplace
    have hle := Stroke.le_of_mem_marksFrom hplace
    simpa using hle
  have hrank : rank (Stroke.marksFrom 0 (a ++ b)).toArray (Text.byteLength (Stroke.shown a)) =
      (Stroke.marksFrom 0 a).length := by
    rw [rank_eq_countP (Stroke.marksFrom_ascending 0 _), Stroke.marksFrom_append, Nat.zero_add,
      List.countP_append, hbefore, hafter, Nat.add_zero]
  rw [givenOffset, hrank, Stroke.byteLength_shown 0 a]
  exact Nat.add_sub_cancel _ _

end Revealed

/-! ### The strokes of a text -/

namespace Table

variable (table : Table)

/-- The strokes of a text after which `previous` was the last character not blank. -/
def strokesFrom (previous : Option Char) : Text → List Stroke
  | [] => []
  | c :: rest =>
    if isBlank c then .given c :: strokesFrom previous rest
    else if previous.any table.endsOperand && table.startsOperand c then
      .mark :: .given c :: strokesFrom (some c) rest
    else .given c :: strokesFrom (some c) rest

section Step

variable {table} {previous : Option Char} {c : Char} {rest : Text}

theorem strokesFrom_blank (hblank : isBlank c = true) :
    table.strokesFrom previous (c :: rest) = .given c :: table.strokesFrom previous rest := by
  rw [strokesFrom, if_pos hblank]

theorem strokesFrom_marked (hblank : ¬ isBlank c = true)
    (hmark : (previous.any table.endsOperand && table.startsOperand c) = true) :
    table.strokesFrom previous (c :: rest) =
      .mark :: .given c :: table.strokesFrom (some c) rest := by
  rw [strokesFrom, if_neg hblank, if_pos hmark]

theorem strokesFrom_plain (hblank : ¬ isBlank c = true)
    (hmark : ¬ (previous.any table.endsOperand && table.startsOperand c) = true) :
    table.strokesFrom previous (c :: rest) = .given c :: table.strokesFrom (some c) rest := by
  rw [strokesFrom, if_neg hblank, if_neg hmark]

end Step

@[simp] theorem givenText_strokesFrom (previous : Option Char) (text : Text) :
    Stroke.givenText (table.strokesFrom previous text) = text := by
  fun_induction strokesFrom table previous text with
  | case1 => rfl
  | case2 previous c rest hblank ih => rw [Stroke.givenText_given, ih]
  | case3 previous c rest hblank hmark ih => rw [Stroke.givenText_mark, Stroke.givenText_given, ih]
  | case4 previous c rest hblank hmark ih => rw [Stroke.givenText_given, ih]

/-- Revealing adds the strokes of the text to what was revealed before. -/
theorem foldl_reveal (text : Text) (revealing : Revealing) :
    (text.foldl (Revealing.step table) revealing).written =
        (Stroke.shown (table.strokesFrom revealing.previous text)).reverse ++ revealing.written ∧
    (text.foldl (Revealing.step table) revealing).marks.toList =
        revealing.marks.toList ++
          Stroke.marksFrom revealing.here (table.strokesFrom revealing.previous text) := by
  induction text generalizing revealing with
  | nil => simp [strokesFrom, Stroke.marksFrom]
  | cons c rest ih =>
    rw [List.foldl_cons, (ih _).1, (ih _).2]
    -- both sides decide on the character in the same three ways
    unfold Revealing.step
    by_cases hblank : isBlank c = true
    · rw [strokesFrom_blank hblank, if_pos hblank]
      simp [Revealing.copy, Stroke.marksFrom, Stroke.char]
    · rw [if_neg hblank]
      by_cases hmark : (revealing.previous.any table.endsOperand && table.startsOperand c) = true
      · rw [strokesFrom_marked hblank hmark, if_pos hmark]
        simp [Revealing.copy, Revealing.mark, Stroke.marksFrom, Stroke.char]
      · rw [strokesFrom_plain hblank hmark, if_neg hmark]
        simp [Revealing.copy, Stroke.marksFrom, Stroke.char]

/-- Revealing a text shows its strokes and records the places of the marks. -/
theorem reveal_eq (text : Text) :
    table.reveal text = ⟨Stroke.shown (table.strokesFrom none text),
      (Stroke.marksFrom 0 (table.strokesFrom none text)).toArray⟩ := by
  obtain ⟨hwritten, hmarks⟩ := foldl_reveal table text .begin
  rw [reveal]
  congr 1
  · rw [hwritten]
    simp [Revealing.begin]
  · apply Array.ext'
    rw [hmarks]
    simp [Revealing.begin]

theorem exists_of_given_cons_eq {c : Char} {strokes a b : List Stroke}
    (h : .given c :: strokes = a ++ .mark :: b) :
    ∃ a', a = .given c :: a' ∧ strokes = a' ++ .mark :: b := by
  cases a with
  | nil => cases h
  | cons stroke a =>
    obtain ⟨rfl, hrest⟩ := List.cons_eq_cons.mp h
    exact ⟨a, rfl, hrest⟩

/-- A mark stands where an operand can end before it and another begins right after it. -/
theorem exists_of_strokesFrom_eq {previous : Option Char} {text : Text} {a b : List Stroke}
    (h : table.strokesFrom previous text = a ++ .mark :: b) :
    (∃ c, (Text.lastInk? (Stroke.shown a)).or previous = some c ∧ table.endsOperand c = true) ∧
    ∃ d rest, b = .given d :: rest ∧ isBlank d = false ∧ table.startsOperand d = true := by
  fun_induction strokesFrom table previous text generalizing a with
  | case1 => simp at h
  | case2 previous c rest hblank ih =>
    obtain ⟨a, rfl, hrest⟩ := exists_of_given_cons_eq h
    rw [Stroke.shown_cons, Text.lastInk?_cons]
    simpa [Stroke.char, hblank] using ih hrest
  | case3 previous c rest hblank hmark ih =>
    cases a with
    | nil =>
      -- the mark is the one just written
      obtain ⟨-, rfl⟩ := List.cons_eq_cons.mp h
      obtain ⟨hends, hstarts⟩ := Bool.and_eq_true_iff.mp hmark
      obtain ⟨p, rfl, hends⟩ : ∃ p, previous = some p ∧ table.endsOperand p = true := by
        cases previous with
        | none => cases hends
        | some p => exact ⟨p, rfl, hends⟩
      exact ⟨⟨p, rfl, hends⟩, c, _, rfl, by simpa using hblank, hstarts⟩
    | cons stroke a =>
      -- the mark comes later, and what it looks back to is this character at the earliest
      obtain ⟨rfl, hgiven⟩ := List.cons_eq_cons.mp h
      obtain ⟨a, rfl, hrest⟩ := exists_of_given_cons_eq hgiven
      obtain ⟨⟨p, hp, hends⟩, hbegins⟩ := ih hrest
      refine ⟨⟨p, ?_, hends⟩, hbegins⟩
      rw [Stroke.shown_cons, Stroke.shown_cons, Text.lastInk?_cons, Text.lastInk?_cons]
      show ((Option.or _ (if isBlank c then none else some c)).or _).or _ = _
      rw [if_neg hblank, hp]
      rfl
  | case4 previous c rest hblank hmark ih =>
    obtain ⟨a, rfl, hrest⟩ := exists_of_given_cons_eq h
    obtain ⟨⟨p, hp, hends⟩, hbegins⟩ := ih hrest
    refine ⟨⟨p, ?_, hends⟩, hbegins⟩
    rw [Stroke.shown_cons, Text.lastInk?_cons]
    show (Option.or _ (if isBlank c then none else some c)).or _ = _
    rw [if_neg hblank, hp]
    rfl

/-! ### Cuts between strokes -/

section Cut

variable {table} {text : Text} {a b : List Stroke} (h : table.strokesFrom none text = a ++ b)
include h

theorem text_of_cut : text = Stroke.givenText a ++ Stroke.givenText b := by
  rw [← Stroke.givenText_append, ← h, givenText_strokesFrom]

theorem shown_of_cut : (table.reveal text).text = Stroke.shown a ++ Stroke.shown b := by
  rw [reveal_eq, h, Stroke.shown_append]

/-- A cut in the text with marks is traced back to the cut in the text as given. -/
theorem givenOffset_of_cut :
    (table.reveal text).givenOffset (Text.byteLength (Stroke.shown a)) =
      Text.byteLength (Stroke.givenText a) := by
  rw [reveal_eq, h]
  exact Revealed.givenOffset_shown _ a b

theorem mem_marks_of_cut :
    Text.byteLength (Stroke.shown a) ∈ (table.reveal text).marks ↔ b.head? = some .mark := by
  rw [reveal_eq, List.mem_toArray, Stroke.mem_marksFrom_iff]
  constructor
  · rintro ⟨a', b', hsplit, hlength⟩
    rw [Nat.zero_add] at hlength
    obtain ⟨-, rfl⟩ := Stroke.append_inj_of_byteLength (h.symm.trans hsplit) hlength
    rfl
  · intro hhead
    obtain ⟨b, rfl⟩ := List.head?_eq_some_iff.mp hhead
    exact ⟨a, b, h, (Nat.zero_add _).symm⟩

end Cut

theorem exists_strokes_of_mem_marks {text : Text} {mark : Nat}
    (h : mark ∈ (table.reveal text).marks) :
    ∃ a c b, table.strokesFrom none text = a ++ .mark :: .given c :: b ∧
      mark = Text.byteLength (Stroke.shown a) ∧ isBlank c = false ∧ table.startsOperand c = true := by
  rw [reveal_eq, List.mem_toArray, Stroke.mem_marksFrom_iff] at h
  obtain ⟨a, _, hstrokes, rfl⟩ := h
  obtain ⟨-, c, b, rfl, hblank, hstarts⟩ := exists_of_strokesFrom_eq table hstrokes
  exact ⟨a, c, b, hstrokes, Nat.zero_add _, hblank, hstarts⟩

theorem pairwise_marks (text : Text) : (table.reveal text).marks.toList.Pairwise (· < ·) := by
  rw [reveal_eq]
  exact Stroke.marksFrom_ascending 0 _

theorem givenOffset_end (text : Text) :
    (table.reveal text).givenOffset (Text.byteLength (table.reveal text).text) =
      Text.byteLength text := by
  have hcut := (List.append_nil (table.strokesFrom none text)).symm
  have hend := givenOffset_of_cut hcut
  rwa [givenText_strokesFrom, ← List.append_nil (Stroke.shown _), ← Stroke.shown_nil,
    ← shown_of_cut hcut] at hend

theorem end_notMem_marks (text : Text) :
    Text.byteLength (table.reveal text).text ∉ (table.reveal text).marks := by
  intro hmem
  obtain ⟨a, c, b, hstrokes, hend, -⟩ := exists_strokes_of_mem_marks table hmem
  -- a mark is followed by the character that it stands before
  rw [shown_of_cut hstrokes, Text.byteLength_append, Stroke.shown_cons, Text.byteLength_cons] at hend
  have hpos := Stroke.mark.char.utf8Size_pos
  omega

/-! ### Where the marks stand -/

/-- A text can be cut anywhere: of what is before the cut, the last character not blank counts. -/
theorem strokesFrom_append (previous : Option Char) (x y : Text) :
    table.strokesFrom previous (x ++ y) =
      table.strokesFrom previous x ++ table.strokesFrom ((Text.lastInk? x).or previous) y := by
  fun_induction strokesFrom table previous x with
  | case1 previous => rfl
  | case2 previous c rest hblank ih =>
    rw [List.cons_append, strokesFrom_blank hblank, ih, Text.lastInk?_cons, if_pos hblank,
      Option.or_none, List.cons_append]
  | case3 previous c rest hblank hmark ih =>
    rw [List.cons_append, strokesFrom_marked hblank hmark, ih, Text.lastInk?_cons, if_neg hblank,
      Option.or_assoc, Option.some_or, List.cons_append, List.cons_append]
  | case4 previous c rest hblank hmark ih =>
    rw [List.cons_append, strokesFrom_plain hblank hmark, ih, Text.lastInk?_cons, if_neg hblank,
      Option.or_assoc, Option.some_or, List.cons_append]

/-- Of the character before a text only counts whether an operand can end with it. -/
theorem strokesFrom_congr {previous previous' : Option Char}
    (h : previous.any table.endsOperand = previous'.any table.endsOperand) (text : Text) :
    table.strokesFrom previous text = table.strokesFrom previous' text := by
  induction text with
  | nil => rfl
  | cons c rest ih => rw [strokesFrom, strokesFrom, ih, h]

theorem shown_strokesFrom_of_blank (previous : Option Char) {text : Text}
    (h : text.Blank) : Stroke.shown (table.strokesFrom previous text) = text := by
  induction text with
  | nil => rfl
  | cons c rest ih =>
    rw [strokesFrom_blank (h c List.mem_cons_self), Stroke.shown_cons,
      ih fun d hd => h d (List.mem_cons_of_mem c hd)]
    rfl

theorem getLast?_strokesFrom_ne_mark (previous : Option Char) (text : Text) :
    (table.strokesFrom previous text).getLast? ≠ some .mark := by
  fun_induction strokesFrom table previous text with
  | case1 => simp
  | case2 previous c rest hblank ih => rwa [Ne, Stroke.getLast?_given_cons]
  | case3 previous c rest hblank hmark ih =>
    rwa [List.getLast?_cons_cons, Ne, Stroke.getLast?_given_cons]
  | case4 previous c rest hblank hmark ih => rwa [Ne, Stroke.getLast?_given_cons]

/-- What is written before a character as given are the strokes of the text before it, and a mark if
one is due: if the character begins an operand and the last one not blank before it can end one. -/
theorem before_given_cases {previous : Option Char} {text : Text} {a b : List Stroke} {c : Char}
    (h : table.strokesFrom previous text = a ++ .given c :: b) :
    let due := isBlank c = false ∧ table.startsOperand c = true ∧
      ∃ p, (Text.lastInk? (Stroke.givenText a)).or previous = some p ∧ table.endsOperand p = true
    (due ∧ a = table.strokesFrom previous (Stroke.givenText a) ++ [.mark]) ∨
      (¬ due ∧ a = table.strokesFrom previous (Stroke.givenText a)) := by
  intro due
  have htext : text = Stroke.givenText a ++ c :: Stroke.givenText b := by
    rw [← givenText_strokesFrom table previous text, h, Stroke.givenText_append,
      Stroke.givenText_given]
  -- both cuts of these strokes come before the same character, so they are one cut
  rw [htext, strokesFrom_append] at h
  have hgiven := givenText_strokesFrom table previous (Stroke.givenText a)
  have hcondition : ∀ q : Option Char, (q.any table.endsOperand && table.startsOperand c) = true ↔
      table.startsOperand c = true ∧ ∃ p, q = some p ∧ table.endsOperand p = true := by
    intro q
    cases q <;> simp [and_comm]
  by_cases hblank : isBlank c = true
  · rw [strokesFrom_blank hblank] at h
    refine Or.inr ⟨?_, (Stroke.eq_of_append_given h hgiven).symm⟩
    rintro ⟨hink, -⟩
    rw [hblank] at hink
    cases hink
  · by_cases hmark : (((Text.lastInk? (Stroke.givenText a)).or previous).any table.endsOperand &&
        table.startsOperand c) = true
    · rw [strokesFrom_marked hblank hmark, List.append_cons] at h
      refine Or.inl ⟨⟨by simpa using hblank, (hcondition _).mp hmark⟩, ?_⟩
      exact (Stroke.eq_of_append_given h (by simp)).symm
    · rw [strokesFrom_plain hblank hmark] at h
      refine Or.inr ⟨?_, (Stroke.eq_of_append_given h hgiven).symm⟩
      intro hdue
      exact hmark ((hcondition _).mpr hdue.2)

/-- Right before a character there is a mark just if it begins an operand and the last character not
blank before it can end one. -/
theorem getLast?_eq_mark_iff {previous : Option Char} {text : Text} {a b : List Stroke} {c : Char}
    (h : table.strokesFrom previous text = a ++ .given c :: b) :
    a.getLast? = some .mark ↔
      isBlank c = false ∧ table.startsOperand c = true ∧
        ∃ p, (Text.lastInk? (Stroke.givenText a)).or previous = some p ∧
          table.endsOperand p = true := by
  rcases before_given_cases table h with ⟨hdue, ha⟩ | ⟨hnot, ha⟩
  · have hlast : a.getLast? = some .mark := by
      rw [ha, List.getLast?_concat]
    exact ⟨fun _ => hdue, fun _ => hlast⟩
  · have hplain := getLast?_strokesFrom_ne_mark table previous (Stroke.givenText a)
    rw [← ha] at hplain
    exact ⟨fun hlast => absurd hlast hplain, fun hdue => absurd hdue hnot⟩

theorem lastInk?_shown_strokesFrom (previous : Option Char) (text : Text) :
    Text.lastInk? (Stroke.shown (table.strokesFrom previous text)) = Text.lastInk? text := by
  fun_induction strokesFrom table previous text with
  | case1 => rfl
  | case2 previous c rest hblank ih | case4 previous c rest hblank hmark ih =>
    rw [Stroke.shown_cons, Text.lastInk?_cons, ih, Text.lastInk?_cons]
    rfl
  | case3 previous c rest hblank hmark ih =>
    rw [Stroke.shown_cons, Text.lastInk?_cons, Stroke.shown_cons, Text.lastInk?_cons, ih,
      Text.lastInk?_cons]
    show ((Option.or _ (if isBlank c then none else some c)).or _) = _
    rw [if_neg hblank, Option.or_assoc, Option.some_or]

theorem lastInk?_before_given {text : Text} {a b : List Stroke} {p c : Char}
    (h : table.strokesFrom none text = a ++ .given c :: b)
    (hp : Text.lastInk? (Stroke.shown a) = some p) (hmark : p ≠ conjunctionMark) :
    Text.lastInk? (Stroke.givenText a) = some p ∧
      ¬ (isBlank c = false ∧ table.startsOperand c = true ∧ table.endsOperand p = true) := by
  rcases before_given_cases table h with ⟨-, ha⟩ | ⟨hnot, ha⟩
  · -- were a mark due, it would itself be the last character that is not blank
    have hlast : Text.lastInk? [conjunctionMark] = some conjunctionMark := by
      decide +kernel
    rw [ha, Stroke.shown_append, Text.lastInk?_append] at hp
    change (Text.lastInk? [conjunctionMark]).or _ = some p at hp
    rw [hlast, Option.some_or] at hp
    exact absurd (Option.some.inj hp).symm hmark
  · have hgiven : Text.lastInk? (Stroke.givenText a) = some p := by
      rw [← hp, ← lastInk?_shown_strokesFrom table none (Stroke.givenText a), ← ha]
    refine ⟨hgiven, ?_⟩
    rintro ⟨hblank, hstarts, hends⟩
    exact hnot ⟨hblank, hstarts, p, by rw [hgiven]; rfl, hends⟩

/-- A mark stands for a place of the text as given where an operand can end and another begins. -/
theorem exists_of_mem_marks {text : Text} {mark : Nat} (h : mark ∈ (table.reveal text).marks) :
    ∃ before c after p, text = before ++ c :: after ∧
      (table.reveal text).givenOffset mark = Text.byteLength before ∧
      isBlank c = false ∧ table.startsOperand c = true ∧
      Text.lastInk? before = some p ∧ table.endsOperand p = true := by
  obtain ⟨a, c, b, hstrokes, rfl, -⟩ := exists_strokes_of_mem_marks table h
  have hplace := givenOffset_of_cut hstrokes
  rw [List.append_cons] at hstrokes
  obtain ⟨hblank, hstarts, p, hp, hends⟩ :=
    (getLast?_eq_mark_iff table hstrokes).mp List.getLast?_concat
  have htext := text_of_cut hstrokes
  rw [Stroke.givenText_append, Stroke.givenText_mark, Stroke.givenText_nil, List.append_nil]
    at hp htext
  rw [Option.or_none] at hp
  exact ⟨_, c, _, p, htext, hplace, hblank, hstarts, hp, hends⟩

end Table

end Wff
