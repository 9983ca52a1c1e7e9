import Mathlib.Data.List.Basic
import Wff.Check.Lines

/-!
# Wff.Proofs.InputLines — the lines of an input

Lines are cut byte by byte, with the line begun so far.  Two equations say what comes of it: a line
that has a line feed after it loses its carriage return (`lines_ended`), the last line may lack both
(`lines_open`).  They make the lines the pieces between the line feeds (`lines_eq_linesOfPieces`).
-/

namespace Wff.Check

/-- A line that a line feed ends, without the carriage return before the line feed. -/
def withoutReturn (line : List UInt8) : List UInt8 :=
  if line.getLast? = some carriageReturn then line.dropLast else line

/-- The pieces between line feeds as lines: a line feed ends each but the last, and the last is no
line if it is empty. -/
def linesOfPieces (pieces : List (List UInt8)) : List (List UInt8) :=
  pieces.dropLast.map withoutReturn ++ pieces.getLast?.toList.filter (· ≠ [])

theorem reverse_dropCarriageReturn (line : List UInt8) :
    (dropCarriageReturn line.reverse).reverse = withoutReturn line := by
  rcases List.eq_nil_or_concat line with rfl | ⟨front, last, rfl⟩
  · rfl
  · rw [List.concat_eq_append, List.reverse_concat, dropCarriageReturn, withoutReturn, List.getLast?_concat,
      List.dropLast_concat]
    by_cases h : last = carriageReturn
    · simp [h]
    · simp [h]

variable {line begun rest : List UInt8}

theorem linesFrom_eq_append (begun : List UInt8) (complete : List (List UInt8))
    (input : List UInt8) :
    linesFrom begun complete input = complete.reverse ++ linesFrom begun [] input := by
  induction input generalizing begun complete with
  | nil => by_cases h : begun.isEmpty <;> simp [linesFrom, h]
  | cons byte input ih =>
    by_cases h : byte = lineFeed
    · simp only [linesFrom, h, if_true]
      rw [ih [] (_ :: complete), ih [] [_], List.reverse_cons, List.append_assoc]
      rfl
    · simp only [linesFrom, h, if_false]
      exact ih (byte :: begun) complete

theorem linesFrom_append (h : lineFeed ∉ line) :
    linesFrom begun [] (line ++ rest) = linesFrom (line.reverse ++ begun) [] rest := by
  induction line generalizing begun with
  | nil => rfl
  | cons byte line ih =>
    have hbyte : byte ≠ lineFeed := fun heq => h (heq ▸ List.mem_cons_self)
    have hline : lineFeed ∉ line := fun hmem => h (List.mem_cons_of_mem _ hmem)
    rw [List.cons_append, linesFrom, if_neg hbyte, ih hline, List.reverse_cons, List.append_assoc]
    rfl

/-- **A line with a line feed after it** comes first, without its carriage return. -/
theorem lines_ended (h : lineFeed ∉ line) :
    lines (line ++ lineFeed :: rest) = withoutReturn line :: lines rest := by
  rw [lines, linesFrom_append h, List.append_nil, linesFrom, if_pos rfl, linesFrom_eq_append,
    reverse_dropCarriageReturn]
  rfl

/-- **A line without a line feed after it** is the last one and loses nothing. -/
theorem lines_open (h : lineFeed ∉ line) : lines line = [line].filter (· ≠ []) := by
  have hbegun : linesFrom [] [] (line ++ []) = linesFrom (line.reverse ++ []) [] [] :=
    linesFrom_append h
  rw [List.append_nil, List.append_nil] at hbegun
  rw [lines, hbegun, linesFrom]
  by_cases hnil : line = [] <;> simp [hnil]

/-- **The lines are the pieces between line feeds.** -/
theorem lines_eq_linesOfPieces (input : List UInt8) :
    lines input = linesOfPieces (input.splitOn lineFeed) := by
  induction hlength : input.length using Nat.strongRecOn generalizing input with
  | _ length ih =>
    by_cases h : lineFeed ∈ input
    · obtain ⟨line, rest, rfl, hline⟩ := List.eq_append_cons_of_mem h
      have hshorter : rest.length < length := by
        rw [← hlength, List.length_append, List.length_cons]; omega
      have hpieces : rest.splitOn lineFeed ≠ [] := List.splitOn_ne_nil _ _
      rw [lines_ended hline, List.splitOn_append_cons_self_of_not_mem hline,
        ih rest.length hshorter rest rfl, linesOfPieces, linesOfPieces,
        List.dropLast_cons_of_ne_nil hpieces, List.map_cons, List.cons_append,
        List.getLast?_cons_of_ne_nil hpieces]
    · rw [lines_open h, List.splitOn_eq_singleton h]
      rfl

end Wff.Check
