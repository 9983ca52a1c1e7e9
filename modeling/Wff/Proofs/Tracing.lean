import Mathlib.Data.List.Nodup
import Wff.Proofs.Bytes
import Wff.Proofs.Marks

/-!
# Wff.Proofs.Tracing — from the text with marks back to the text as given

`Revealed.Traces` says byte by byte how a text with marks and its table of places belong to the text
as given: without the marks it is that text, marks stand where conjunctions were left out and nowhere
else, and tracing back an offset goes on by one at every byte that was copied and stands still at
every mark.  `Table.traces_reveal` says that revealing a text yields this.

The bytes are followed along the strokes of the text; the offsets are followed one by one
(`Revealed.givenOffset_succ`), because the search counts the marks before an offset.
-/

namespace Wff

open Character

/-- The bytes that stand at none of the places, in a text that begins at a byte offset. -/
def keptBytes (places : List Nat) (here : Nat) (bytes : List UInt8) : List UInt8 :=
  ((bytes.zipIdx here).filter fun entry => entry.2 ∉ places).map Prod.fst

/-- What ties a text with marks, and the places of the marks in it, to the text as given. -/
structure Revealed.Traces (revealed : Revealed) (table : Table) (text : Text) : Prop where
  ascending : revealed.marks.toList.Pairwise (· < ·)
  marked : ∀ place ∈ revealed.marks,
    (Text.bytes revealed.text)[place]? = some conjunctionMark.toUInt8
  /-- without them, the bytes are those of the text as given -/
  kept : keptBytes revealed.marks.toList 0 (Text.bytes revealed.text) = Text.bytes text
  /-- a character has a mark right before its copy just if it begins an operand and the last
  character before it that is not blank can end one -/
  mark_iff : ∀ before c after, text = before ++ c :: after →
    ∃ place < Text.byteLength revealed.text, place ∉ revealed.marks ∧
      revealed.givenOffset place = Text.byteLength before ∧
      ((∃ mark ∈ revealed.marks, place = mark + 1) ↔
        isBlank c = false ∧ table.startsOperand c = true ∧
          ∃ p, Text.lastInk? before = some p ∧ table.endsOperand p = true)
  rank_le : ∀ offset, Revealed.rank revealed.marks offset ≤ offset
  givenOffset_zero : revealed.givenOffset 0 = 0
  givenOffset_end : revealed.givenOffset (Text.byteLength revealed.text) = Text.byteLength text
  /-- from one offset to the next, the offset traced back stays or goes on by one -/
  givenOffset_step : ∀ offset,
    revealed.givenOffset (offset + 1) = revealed.givenOffset offset ∨
      revealed.givenOffset (offset + 1) = revealed.givenOffset offset + 1
  /-- the bytes that were copied are traced back to all places of the text as given, in order -/
  givenOffset_kept :
    ((List.range (Text.byteLength revealed.text)).filter fun place => place ∉ revealed.marks).map
      revealed.givenOffset = List.range (Text.byteLength text)
  /-- only a mark and the byte after it are traced back to the same place -/
  givenOffset_eq_iff : ∀ i j, i < j →
    (revealed.givenOffset i = revealed.givenOffset j ↔ i ∈ revealed.marks ∧ j = i + 1)

/-! ### Offsets one by one -/

theorem countP_lt_succ (numbers : List Nat) (n : Nat) :
    numbers.countP (· < n + 1) = numbers.countP (· < n) + numbers.count n := by
  induction numbers with
  | nil => rfl
  | cons first rest ih =>
    rw [List.countP_cons, List.countP_cons, List.count_cons, ih]
    by_cases hlt : first < n
    · have hne : first ≠ n := by omega
      have hsucc : first < n + 1 := by omega
      simp [hlt, hsucc, hne]
      omega
    · by_cases heq : first = n
      · simp [heq]
        omega
      · have hsucc : ¬ first < n + 1 := by omega
        simp [hlt, hsucc, heq]

namespace Revealed

section Ascending

variable {revealed : Revealed} (h : revealed.marks.toList.Pairwise (· < ·))
include h

theorem rank_marks (offset : Nat) :
    rank revealed.marks offset = revealed.marks.toList.countP (· < offset) := by
  have hcount := rank_eq_countP h offset
  rwa [Array.toArray_toList] at hcount

theorem rank_succ (offset : Nat) :
    rank revealed.marks (offset + 1) =
      rank revealed.marks offset + if offset ∈ revealed.marks then 1 else 0 := by
  have hnodup : revealed.marks.toList.Nodup := h.imp Nat.ne_of_lt
  rw [rank_marks h, rank_marks h, countP_lt_succ]
  by_cases hmem : offset ∈ revealed.marks
  · rw [if_pos hmem, List.nodup_iff_count_eq_one.mp hnodup _ (Array.mem_toList_iff.mpr hmem)]
  · rw [if_neg hmem, List.count_eq_zero_of_not_mem (fun hin => hmem (Array.mem_toList_iff.mp hin))]

theorem rank_le_self (offset : Nat) : rank revealed.marks offset ≤ offset := by
  induction offset with
  | zero =>
    rw [rank_marks h]
    exact (List.countP_eq_zero.mpr (by simp)).le
  | succ offset ih =>
    rw [rank_succ h]
    split <;> omega

/-- Tracing back goes on by one at every byte that is no mark. -/
theorem givenOffset_succ (offset : Nat) :
    revealed.givenOffset (offset + 1) =
      revealed.givenOffset offset + if offset ∈ revealed.marks then 0 else 1 := by
  have hle := rank_le_self h offset
  have hsucc := rank_succ h offset
  unfold givenOffset
  rw [hsucc]
  split <;> omega

theorem givenOffset_zero : revealed.givenOffset 0 = 0 := by
  have hle := rank_le_self h 0
  unfold givenOffset
  omega

theorem givenOffset_mono {i j : Nat} (hij : i ≤ j) :
    revealed.givenOffset i ≤ revealed.givenOffset j := by
  induction hij with
  | refl => exact Nat.le_refl _
  | step hij ih =>
    rw [givenOffset_succ h]
    omega

/-- The offsets below one, but for marks, are traced back to all below what it is traced back to. -/
theorem map_givenOffset_range (offset : Nat) :
    ((List.range offset).filter fun place => place ∉ revealed.marks).map revealed.givenOffset =
      List.range (revealed.givenOffset offset) := by
  induction offset with
  | zero =>
    rw [givenOffset_zero h]
    rfl
  | succ offset ih =>
    rw [List.range_succ, List.filter_append, List.map_append, ih, givenOffset_succ h]
    by_cases hmem : offset ∈ revealed.marks
    · simp [hmem]
    · simp [hmem, List.range_succ]

/-- If no two marks stand side by side, two offsets are traced back to one only around a mark. -/
theorem givenOffset_eq_iff_of_isolated
    (hisolated : ∀ mark ∈ revealed.marks, mark + 1 ∉ revealed.marks) {i j : Nat} (hij : i < j) :
    revealed.givenOffset i = revealed.givenOffset j ↔ i ∈ revealed.marks ∧ j = i + 1 := by
  have hnext := givenOffset_succ h i
  constructor
  · intro heq
    have hmono := givenOffset_mono h (show i + 1 ≤ j from hij)
    have hmem : i ∈ revealed.marks := by
      by_contra hnot
      rw [if_neg hnot] at hnext
      omega
    refine ⟨hmem, ?_⟩
    -- one more step would not stand still
    by_contra hne
    have hfar := givenOffset_mono h (show i + 1 + 1 ≤ j by omega)
    have hstep := givenOffset_succ h (i + 1)
    rw [if_neg (hisolated i hmem)] at hstep
    omega
  · rintro ⟨hmem, rfl⟩
    rw [if_pos hmem] at hnext
    omega

end Ascending

end Revealed

/-! ### Bytes along the strokes -/

namespace Stroke

theorem keptBytes_append (places : List Nat) (here : Nat) (a b : List UInt8) :
    keptBytes places here (a ++ b) =
      keptBytes places here a ++ keptBytes places (here + a.length) b := by
  unfold keptBytes
  rw [List.zipIdx_append, List.filter_append, List.map_append]

theorem keptBytes_of_notMem {places : List Nat} {here : Nat} {bytes : List UInt8}
    (h : ∀ place, here ≤ place → place < here + bytes.length → place ∉ places) :
    keptBytes places here bytes = bytes := by
  have hall : (bytes.zipIdx here).filter (fun entry => entry.2 ∉ places) = bytes.zipIdx here := by
    rw [List.filter_eq_self]
    intro entry hentry
    have hlow := List.le_snd_of_mem_zipIdx hentry
    have hhigh := List.snd_lt_of_mem_zipIdx hentry
    simpa using h entry.2 hlow (by omega)
  unfold keptBytes
  rw [hall, List.zipIdx_map_fst]

/-- Without the bytes at the places of the marks, the bytes are those of the text as given. -/
theorem keptBytes_shown {places : List Nat} {here : Nat} {strokes : List Stroke}
    (h : ∀ place, here ≤ place → (place ∈ places ↔ place ∈ marksFrom here strokes)) :
    keptBytes places here (Text.bytes (shown strokes)) = Text.bytes (givenText strokes) := by
  induction strokes generalizing here with
  | nil => rfl
  | cons stroke strokes ih =>
    cases stroke with
    | mark =>
      have hhere : here ∈ places := (h here (Nat.le_refl _)).mpr List.mem_cons_self
      -- this byte is left out, and all other places are those of the rest
      have hmark : keptBytes places here (String.utf8EncodeChar conjunctionMark) = [] := by
        show (([(_, here)] : List (UInt8 × Nat)).filter _).map _ = _
        rw [List.filter_cons_of_neg (by simpa using hhere)]
        rfl
      have hlength : (String.utf8EncodeChar conjunctionMark).length = 1 := rfl
      show keptBytes places here (String.utf8EncodeChar conjunctionMark ++ _) = _
      rw [keptBytes_append, hmark, hlength, givenText_mark]
      apply ih
      intro place hplace
      have hne : place ≠ here := by omega
      rw [h place (by omega)]
      show place ∈ here :: marksFrom (here + 1) strokes ↔ _
      simp [hne]
    | given c =>
      have hlength : (String.utf8EncodeChar c).length = c.utf8Size := String.length_utf8EncodeChar c
      have hkept : keptBytes places here (String.utf8EncodeChar c) = String.utf8EncodeChar c := by
        -- marks of the rest come behind all bytes of this character
        apply keptBytes_of_notMem
        intro place hlow hhigh hmem
        have hafter : place ∈ marksFrom (here + c.utf8Size) strokes := (h place hlow).mp hmem
        have hle := le_of_mem_marksFrom hafter
        omega
      show keptBytes places here (String.utf8EncodeChar c ++ _) = String.utf8EncodeChar c ++ _
      rw [keptBytes_append, hkept, hlength]
      congr 1
      apply ih
      intro place hplace
      exact h place (by omega)

theorem getElem?_of_mem_marksFrom {strokes : List Stroke} {place : Nat}
    (h : place ∈ marksFrom 0 strokes) :
    (Text.bytes (shown strokes))[place]? = some conjunctionMark.toUInt8 := by
  obtain ⟨a, b, rfl, rfl⟩ := mem_marksFrom_iff.mp h
  rw [shown_append, Text.bytes_append, Nat.zero_add, ← Text.length_bytes,
    List.getElem?_append_right (Nat.le_refl _), Nat.sub_self]
  rfl

/-- Right before the place of a stroke there is a mark just if the last stroke before is one. -/
theorem exists_mark_before_iff {a b : List Stroke} :
    (∃ place ∈ marksFrom 0 (a ++ b), Text.byteLength (shown a) = place + 1) ↔
      a.getLast? = some mark := by
  constructor
  · rintro ⟨place, hplace, hlength⟩
    obtain ⟨a', b', hsplit, hplace'⟩ := mem_marksFrom_iff.mp hplace
    rw [List.append_cons] at hsplit
    have hshown : Text.byteLength (shown a) = Text.byteLength (shown (a' ++ [mark])) := by
      rw [shown_append, Text.byteLength_append]
      show _ = Text.byteLength (shown a') + 1
      omega
    obtain ⟨hfront, -⟩ := append_inj_of_byteLength hsplit hshown
    rw [hfront, List.getLast?_concat]
  · intro hlast
    obtain ⟨front, rfl⟩ := List.getLast?_eq_some_iff.mp hlast
    refine ⟨Text.byteLength (shown front), ?_, ?_⟩
    · exact mem_marksFrom_iff.mpr ⟨front, b, by rw [List.append_assoc]; rfl, (Nat.zero_add _).symm⟩
    · rw [shown_append, Text.byteLength_append]
      rfl

theorem exists_of_givenText_eq {strokes : List Stroke} {before after : Text} {c : Char}
    (h : givenText strokes = before ++ c :: after) :
    ∃ a b, strokes = a ++ given c :: b ∧ givenText a = before ∧ givenText b = after := by
  obtain ⟨a, rest, rfl, hbefore, hrest⟩ := List.filterMap_eq_append_iff.mp h
  obtain ⟨marks, stroke, b, rfl, hmarks, hstroke, hafter⟩ := List.filterMap_eq_cons_iff.mp hrest
  have hnone : givenText marks = [] := List.filterMap_eq_nil_iff.mpr hmarks
  cases stroke with
  | mark => cases hstroke
  | given d =>
    obtain rfl := Option.some.inj hstroke
    refine ⟨a ++ marks, b, by rw [List.append_assoc], ?_, hafter⟩
    rw [givenText_append, hnone, List.append_nil]
    exact hbefore

end Stroke

/-! ### Revealed texts -/

namespace Table

variable (table : Table)

theorem succ_notMem_marksFrom {previous : Option Char} {text : Text} {place : Nat}
    (h : place ∈ Stroke.marksFrom 0 (table.strokesFrom previous text)) :
    place + 1 ∉ Stroke.marksFrom 0 (table.strokesFrom previous text) := by
  intro hnext
  obtain ⟨a, b, hsplit, hplace⟩ := Stroke.mem_marksFrom_iff.mp hnext
  have hlast : a.getLast? = some .mark :=
    Stroke.exists_mark_before_iff.mp ⟨place, hsplit ▸ h, by omega⟩
  obtain ⟨front, rfl⟩ := List.getLast?_eq_some_iff.mp hlast
  rw [List.append_assoc] at hsplit
  obtain ⟨-, d, rest, hgiven, -, -⟩ := exists_of_strokesFrom_eq table hsplit
  cases hgiven

/-- Where a character as given stands in the text with marks, and when a mark is right before it. -/
theorem exists_place_of_character {text before after : Text} {c : Char}
    (h : text = before ++ c :: after) :
    ∃ place < Text.byteLength (table.reveal text).text, place ∉ (table.reveal text).marks ∧
      (table.reveal text).givenOffset place = Text.byteLength before ∧
      ((∃ mark ∈ (table.reveal text).marks, place = mark + 1) ↔
        isBlank c = false ∧ table.startsOperand c = true ∧
          ∃ p, Text.lastInk? before = some p ∧ table.endsOperand p = true) := by
  have hgiven : Stroke.givenText (table.strokesFrom none text) = before ++ c :: after := by
    rw [givenText_strokesFrom, h]
  obtain ⟨a, b, hsplit, rfl, -⟩ := Stroke.exists_of_givenText_eq hgiven
  have hmark := getLast?_eq_mark_iff table hsplit
  rw [Option.or_none] at hmark
  rw [← hmark]
  refine ⟨Text.byteLength (Stroke.shown a), ?_, ?_, givenOffset_of_cut hsplit, ?_⟩
  · have hpos := c.utf8Size_pos
    rw [shown_of_cut hsplit, Text.byteLength_append, Stroke.shown_cons, Text.byteLength_cons]
    show _ < _ + (c.utf8Size + _)
    omega
  · rw [mem_marks_of_cut hsplit]
    simp
  · rw [reveal_eq, hsplit]
    simp only [List.mem_toArray]
    exact Stroke.exists_mark_before_iff

/-- **Tracing back is exact**, for every table and every text. -/
theorem traces_reveal (text : Text) : (table.reveal text).Traces table text := by
  have hascending : (table.reveal text).marks.toList.Pairwise (· < ·) := by
    rw [reveal_eq]
    exact Stroke.marksFrom_ascending 0 _
  have hisolated : ∀ mark ∈ (table.reveal text).marks, mark + 1 ∉ (table.reveal text).marks := by
    intro mark hmark
    rw [reveal_eq, List.mem_toArray] at hmark ⊢
    exact succ_notMem_marksFrom table hmark
  have hend : (table.reveal text).givenOffset (Text.byteLength (table.reveal text).text) =
      Text.byteLength text := by
    have hshown := Revealed.givenOffset_shown (Stroke.shown (table.strokesFrom none text))
      (table.strokesFrom none text) []
    rw [List.append_nil, givenText_strokesFrom] at hshown
    rw [reveal_eq]
    exact hshown
  refine
    { ascending := hascending
      marked := ?_
      kept := ?_
      mark_iff := fun before c after => exists_place_of_character table
      rank_le := Revealed.rank_le_self hascending
      givenOffset_zero := Revealed.givenOffset_zero hascending
      givenOffset_end := hend
      givenOffset_step := ?_
      givenOffset_kept := ?_
      givenOffset_eq_iff := fun i j => Revealed.givenOffset_eq_iff_of_isolated hascending hisolated }
  · intro place hplace
    rw [reveal_eq] at hplace ⊢
    exact Stroke.getElem?_of_mem_marksFrom (List.mem_toArray.mp hplace)
  · have hkept : keptBytes (Stroke.marksFrom 0 (table.strokesFrom none text)) 0
        (Text.bytes (Stroke.shown (table.strokesFrom none text))) =
        Text.bytes (Stroke.givenText (table.strokesFrom none text)) :=
      Stroke.keptBytes_shown fun place _ => Iff.rfl
    rw [givenText_strokesFrom] at hkept
    rw [reveal_eq]
    exact hkept
  · intro offset
    rw [Revealed.givenOffset_succ hascending]
    split
    · exact Or.inl rfl
    · exact Or.inr rfl
  · rw [Revealed.map_givenOffset_range hascending, hend]

end Table

end Wff
