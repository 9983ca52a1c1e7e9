import Mathlib.Data.List.ReduceOption
import Wff.Check.Run
import Wff.Proofs.Arguments
import Wff.Proofs.InputLines

/-!
# Wff.Proofs.Running — what a run does

A run is decided by a single argument, or it checks every expression once, in order, whatever came
of those before, and puts together what is printed (`run_eq_of_find?_eq_some`,
`run_eq_of_find?_eq_none`).  A line that is not UTF-8 is where the expressions on standard input end;
it adds a message of its own to standard error.
-/

namespace Wff.Check

/-! ## The expressions of a run -/

/-- The texts of the lines before the first one that is not UTF-8. -/
def readable (lines : List (List UInt8)) : List Text :=
  ((lines.map decode?).takeWhile Option.isSome).reduceOption

/-- The expressions among the lines, each with its name.  Lines are counted from `n`, blank ones
too. -/
def lineExpressions (n : Nat) (lines : List (List UInt8)) : List (Text × Text) :=
  (((readable lines).zipIdx n).filter fun line => ¬ isBlankLine line.1).map
    fun (line, k) => (lineName k, line)

/-- The number of the first line that is not UTF-8, counted from `n`. -/
def undecoded? (n : Nat) (lines : List (List UInt8)) : Option Nat :=
  (lines.findIdx? (decode? · = none)).map (· + n)

/-- The expressions of a run, each with its name: the arguments that are no options, or else the
lines of the input that are not blank, up to the first one that is not UTF-8. -/
def namedExpressions (arguments : List Text) (input : List UInt8) : List (Text × Text) :=
  match arguments.filter (IsExpression ·) with
  | [] => lineExpressions 1 (linesOfPieces (input.splitOn lineFeed))
  | expressions => (expressions.zipIdx 1).map fun (expression, k) => (argumentName k, expression)

def unreadLine? (arguments : List Text) (input : List UInt8) : Option Nat :=
  match arguments.filter (IsExpression ·) with
  | [] => undecoded? 1 (linesOfPieces (input.splitOn lineFeed))
  | _ => none

def checkEach (options : Options) (expressions : List (Text × Text)) : List Outcome :=
  expressions.map fun (name, expression) => checkOne options name expression

def decided (argument : Text) : Outcome :=
  if versionOptions.contains argument then ⟨true, printed [versionLine], []⟩
  else if helpOptions.contains argument then ⟨true, printed usage, []⟩
  else ⟨false, printed usage, complaint ("未知选项: ".toList ++ argument)⟩

/-! ## Lines -/

section
variable {line : List UInt8} {expression : Text} (n : Nat) (rest : List (List UInt8))

theorem lineExpressions_of_undecoded (h : decode? line = none) :
    lineExpressions n (line :: rest) = [] := by
  simp [lineExpressions, readable, h]

theorem lineExpressions_of_decoded (h : decode? line = some expression) :
    lineExpressions n (line :: rest) =
      if isBlankLine expression then lineExpressions (n + 1) rest
      else (lineName n, expression) :: lineExpressions (n + 1) rest := by
  have hreadable : readable (line :: rest) = expression :: readable rest := by
    simp [readable, h]
  rw [lineExpressions, hreadable, List.zipIdx_cons, List.filter_cons]
  by_cases hblank : isBlankLine expression <;> simp [hblank, lineExpressions]

theorem undecoded?_of_undecoded (h : decode? line = none) :
    undecoded? n (line :: rest) = some n := by
  simp [undecoded?, List.findIdx?_cons, h]

theorem undecoded?_of_decoded (h : decode? line = some expression) :
    undecoded? n (line :: rest) = undecoded? (n + 1) rest := by
  simp only [undecoded?, List.findIdx?_cons, h, reduceCtorEq, decide_false, Option.map_map,
    Bool.false_eq_true, if_false]
  congr 1
  funext k
  exact Nat.add_right_comm k 1 n

end

variable {options : Options}

theorem checkLinesFrom_of_undecoded {line : List UInt8} (h : decode? line = none)
    (done : List Outcome) (n : Nat) (rest : List (List UInt8)) :
    checkLinesFrom options done n (line :: rest) = (undecodable n :: done).reverse := by
  rw [checkLinesFrom, h]

theorem checkLinesFrom_of_decoded {line : List UInt8} {expression : Text}
    (h : decode? line = some expression) (done : List Outcome) (n : Nat)
    (rest : List (List UInt8)) :
    checkLinesFrom options done n (line :: rest) =
      checkLinesFrom options
        (if isBlankLine expression then done
          else checkOne options (lineName n) expression :: done) (n + 1) rest := by
  rw [checkLinesFrom, h]
  by_cases hblank : isBlankLine expression <;> simp [hblank]

theorem checkLinesFrom_eq_append (done : List Outcome) (n : Nat) (lines : List (List UInt8)) :
    checkLinesFrom options done n lines = done.reverse ++ checkLinesFrom options [] n lines := by
  induction lines generalizing done n with
  | nil => simp [checkLinesFrom]
  | cons line rest ih =>
    cases hdecode : decode? line with
    | none => simp [checkLinesFrom_of_undecoded hdecode]
    | some expression =>
      rw [checkLinesFrom_of_decoded hdecode done, checkLinesFrom_of_decoded hdecode []]
      by_cases hblank : isBlankLine expression
      · rw [if_pos hblank, if_pos hblank]
        exact ih done (n + 1)
      · rw [if_neg hblank, if_neg hblank, ih (_ :: done), ih [_], List.reverse_cons,
          List.append_assoc]
        rfl

/-- **Lines are checked one after another**, each that is not blank once, up to the first one that
is not UTF-8, whose message comes last. -/
theorem checkLinesFrom_eq (n : Nat) (lines : List (List UInt8)) :
    checkLinesFrom options [] n lines =
      checkEach options (lineExpressions n lines) ++
        (undecoded? n lines).toList.map undecodable := by
  induction lines generalizing n with
  | nil => rfl
  | cons line rest ih =>
    cases hdecode : decode? line with
    | none =>
      rw [checkLinesFrom_of_undecoded hdecode, lineExpressions_of_undecoded n rest hdecode,
        undecoded?_of_undecoded n rest hdecode]
      rfl
    | some expression =>
      rw [checkLinesFrom_of_decoded hdecode, lineExpressions_of_decoded n rest hdecode,
        undecoded?_of_decoded n rest hdecode]
      by_cases hblank : isBlankLine expression
      · rw [if_pos hblank, if_pos hblank]
        exact ih (n + 1)
      · rw [if_neg hblank, if_neg hblank, checkLinesFrom_eq_append, ih (n + 1)]
        rfl

/-! ## Runs -/

variable {arguments : List Text} {input : List UInt8}

theorem run_ofDeciding (argument : Text) :
    (Request.ofDeciding argument).run input = decided argument := by
  simp only [Request.ofDeciding, decided, List.contains_iff_mem]
  split_ifs <;> rfl

/-- **The first argument that decides alone decides the run.** -/
theorem run_eq_of_find?_eq_some {argument : Text}
    (h : arguments.find? (Decides ·) = some argument) :
    run arguments input = decided argument := by
  obtain ⟨hdecides, before, after, rfl, hbefore⟩ := List.find?_eq_some_iff_append.mp h
  have hread : Request.ofArguments (before ++ argument :: after) = .ofDeciding argument :=
    Request.readFrom_of_decides after (by simpa using hbefore) (by simpa using hdecides)
  rw [run, hread, run_ofDeciding]

/-- **If no argument decides alone, every expression is checked**, and a line that is not UTF-8 adds
its message. -/
theorem run_eq_of_find?_eq_none (h : arguments.find? (Decides ·) = none) :
    run arguments input =
      .join (checkEach (.ofArguments arguments) (namedExpressions arguments input) ++
        (unreadLine? arguments input).toList.map undecodable) := by
  have hnone : ∀ argument ∈ arguments, ¬ Decides argument := by simpa using h
  rw [run, Request.ofArguments_of_forall_not_decides hnone, namedExpressions, unreadLine?]
  cases arguments.filter (IsExpression ·) with
  | nil =>
    rw [Request.run, checkLines, lines_eq_linesOfPieces, checkLinesFrom_eq]
  | cons expression expressions =>
    simp only [Request.run, checkArguments, checkEach, List.map_map, Option.toList_none,
      List.map_nil, List.append_nil]
    rfl

theorem checkOne_success_iff {name expression : Text} :
    (checkOne options name expression).success = true ↔
      ∃ lines, shown options expression = .ok lines := by
  cases h : shown options expression <;> simp [checkOne, h]

theorem checkEach_all_success {expressions : List (Text × Text)} :
    (checkEach options expressions).all Outcome.success = true ↔
      ∀ expression ∈ expressions, ∃ lines, shown options expression.2 = .ok lines := by
  simp only [checkEach, List.all_map, List.all_eq_true, Function.comp_apply, checkOne_success_iff]

theorem Outcome.code_eq_zero_iff {outcome : Outcome} :
    outcome.code = 0 ↔ outcome.success = true := by
  cases h : outcome.success <;> simp [Outcome.code, h]

/-- **A run is decided by its first deciding argument, or checks every expression once.**  What is
printed is what checking each of them prints, one after another, and after it, if a line is not
UTF-8, a message about that line.  All went well if there is no such line and every expression has
something to show. -/
theorem run_decided_or_checked (arguments : List Text) (input : List UInt8) :
    match arguments.find? (Decides ·) with
    | some argument => run arguments input = decided argument
    | none =>
      let options := Options.ofArguments arguments
      let expressions := namedExpressions arguments input
      (run arguments input).output = (checkEach options expressions).flatMap Outcome.output ∧
      (run arguments input).errors = (checkEach options expressions).flatMap Outcome.errors ++
        (unreadLine? arguments input).elim [] (fun n => (undecodable n).errors) ∧
      ((run arguments input).code = 0 ↔
        (∀ expression ∈ expressions, ∃ lines, shown options expression.2 = .ok lines) ∧
          unreadLine? arguments input = none) := by
  cases h : arguments.find? (Decides ·) with
  | some argument => exact run_eq_of_find?_eq_some h
  | none =>
    rw [Outcome.code_eq_zero_iff, run_eq_of_find?_eq_none h]
    cases hunread : unreadLine? arguments input with
    | none =>
      simp only [Outcome.join, Option.toList_none, List.map_nil, List.append_nil,
        checkEach_all_success, Option.elim_none, and_true]
    | some n => simp [Outcome.join, undecodable]

/-- A line that is not UTF-8 is no expression, and standard error is still not empty. -/
theorem run_errors_not_of_expressions :
    ([] : List Text).find? (Decides ·) = none ∧
      namedExpressions [] [112, 10, 255] = [(lineName 1, ['p'])] ∧
      (run [] [112, 10, 255]).errors ≠
        (checkEach (.ofArguments []) (namedExpressions [] [112, 10, 255])).flatMap
          Outcome.errors := by
  have hunread : unreadLine? [] [112, 10, 255] = some 2 := by decide +kernel
  refine ⟨rfl, by decide +kernel, ?_⟩
  rw [run_eq_of_find?_eq_none rfl, hunread]
  simp only [Outcome.join, List.flatMap_append]
  refine fun h => absurd (List.append_right_eq_self.mp h) ?_
  decide +kernel

end Wff.Check
