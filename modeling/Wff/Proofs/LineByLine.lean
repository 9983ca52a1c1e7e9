import Mathlib.Data.List.Forall2
import Wff.Proofs.Bytes
import Wff.Proofs.Running

/-!
# Wff.Proofs.LineByLine — expressions as arguments and as lines

The same expressions can be given as arguments or as lines of standard input.  `Carries` says that an
input holds expressions line by line: each line may end in two ways, the last one need not end at all,
and blank lines stand anywhere among them.  What a run finds on such an input are these expressions,
each by the number of its line (`lineExpressions_of_carries`).

The name under which an expression is checked is all that differs then, and it is only found in the
report of a fault.  A `Template` is a text with holes for names: what a run writes to standard error is
one template for both ways, filled with other names (`run_lines_eq_run_arguments`).
-/

namespace Wff

/-! ### Texts with holes -/

/-- Pieces of text, and between them holes, each with a number. -/
abbrev Template := List (Text ⊕ Nat)

namespace Template

def fill (name : Nat → Text) (template : Template) : Text := template.flatMap (Sum.elim id name)

variable {name : Nat → Text}

@[simp] theorem fill_nil : fill name [] = [] := rfl

@[simp] theorem fill_text (text : Text) (template : Template) :
    fill name (.inl text :: template) = text ++ fill name template := rfl

@[simp] theorem fill_hole (i : Nat) (template : Template) :
    fill name (.inr i :: template) = name i ++ fill name template := rfl

theorem fill_append (template more : Template) :
    fill name (template ++ more) = fill name template ++ fill name more :=
  List.flatMap_append

end Template

/-- The name of the text has one place in the report of a fault, or none. -/
theorem Fault.exists_template (fault : Fault) (text : Text) (i : Nat) :
    ∃ template : Template, ∀ name, fault.report text (name i) = template.fill name := by
  cases hoffset : fault.offset? with
  | none => exact ⟨[.inl (fault.report text [])], fun name => by simp [report, hoffset]⟩
  | some offset =>
    let number := Text.ofNat ((text.place offset).linesBefore + 1)
    let margin := Text.blanks number.length
    let before := "error: ".toList ++ fault.message ++ '\n' :: (margin ++ "--> ".toList)
    let after := ':' :: number ++ ':' :: Text.ofNat ((text.place offset).column + 1) ++
      '\n' :: margin ++ " |".toList ++
      '\n' :: number ++ " | ".toList ++ (text.place offset).line ++
      '\n' :: margin ++ " | ".toList ++ Text.blanks (text.place offset).column ++ ['^']
    refine ⟨[.inl before, .inr i, .inl after], fun name => ?_⟩
    simp [report, hoffset, before, after, margin, number]

namespace Check

/-! ### Checking under a name -/

def named (name : Nat → Text) (n : Nat) (expressions : List Text) : List (Text × Text) :=
  (expressions.zipIdx n).map fun (expression, i) => (name i, expression)

/-- What checking an expression comes to depends on its name only where errors have a hole for it. -/
theorem exists_checkOne (options : Options) (expression : Text) (i : Nat) :
    ∃ success output template, ∀ name,
      checkOne options (name i) expression = ⟨success, output, Template.fill name template⟩ := by
  cases h : shown options expression with
  | ok lines => exact ⟨true, printed lines, [], fun name => by simp [checkOne, h]⟩
  | error fault =>
    obtain ⟨template, htemplate⟩ := fault.exists_template expression i
    refine ⟨false, [], template ++ [.inl ['\n']], fun name => ?_⟩
    simp [checkOne, h, printed, htemplate, Template.fill_append]

theorem exists_join_checkEach (options : Options) (expressions : List Text) (n : Nat) :
    ∃ success output template, ∀ name,
      Outcome.join (checkEach options (named name n expressions)) =
        ⟨success, output, Template.fill name template⟩ := by
  induction expressions generalizing n with
  | nil => exact ⟨true, [], [], fun name => rfl⟩
  | cons expression rest ih =>
    obtain ⟨success, output, template, hfirst⟩ := exists_checkOne options expression n
    obtain ⟨success', output', template', hrest⟩ := ih (n + 1)
    refine ⟨success && success', output ++ output', template ++ template', fun name => ?_⟩
    have hjoin : Outcome.join (checkEach options (named name n (expression :: rest))) =
        ⟨(checkOne options (name n) expression).success &&
            (Outcome.join (checkEach options (named name (n + 1) rest))).success,
          (checkOne options (name n) expression).output ++
            (Outcome.join (checkEach options (named name (n + 1) rest))).output,
          (checkOne options (name n) expression).errors ++
            (Outcome.join (checkEach options (named name (n + 1) rest))).errors⟩ := rfl
    rw [hjoin, hfirst, hrest, Template.fill_append]

/-! ### Expressions as arguments -/

def settingOptions : List Text := implicitOptions ++ displayOptions.map Prod.fst

/-- The arguments are settings and expressions, mixed in any way, with the order of each kept. -/
inductive Mixed : (settings expressions arguments : List Text) → Prop
  | nil : Mixed [] [] []
  | setting {settings expressions arguments : List Text} (option : Text)
      (rest : Mixed settings expressions arguments) :
      Mixed (option :: settings) expressions (option :: arguments)
  | expression {settings expressions arguments : List Text} (expression : Text)
      (rest : Mixed settings expressions arguments) :
      Mixed settings (expression :: expressions) (expression :: arguments)

theorem not_isExpression_of_setting {argument : Text} (h : argument ∈ settingOptions) :
    ¬ IsExpression argument ∧ ¬ Decides argument :=
  (by decide : ∀ a ∈ settingOptions, ¬ IsExpression a ∧ ¬ Decides a) argument h

theorem IsExpression.not_decides {argument : Text} (h : IsExpression argument) :
    ¬ Decides argument := by
  have hexpression := Argument.ofText_eq_expression_iff.mpr h
  simp [decides_iff, hexpression]

namespace Mixed

variable {settings expressions arguments : List Text} (h : Mixed settings expressions arguments)
  (hsettings : ∀ option ∈ settings, option ∈ settingOptions)
  (hexpressions : ∀ expression ∈ expressions, IsExpression expression)
include h hsettings hexpressions

theorem filter_isExpression : arguments.filter (IsExpression ·) = expressions := by
  induction h with
  | nil => rfl
  | setting option rest ih =>
    obtain ⟨hfirst, hmore⟩ := List.forall_mem_cons.mp hsettings
    have hnot := (not_isExpression_of_setting hfirst).1
    rw [List.filter_cons_of_neg (by simpa using hnot), ih hmore hexpressions]
  | expression expression rest ih =>
    obtain ⟨hfirst, hmore⟩ := List.forall_mem_cons.mp hexpressions
    rw [List.filter_cons_of_pos (by simpa using hfirst), ih hsettings hmore]

theorem not_decides : ∀ argument ∈ arguments, ¬ Decides argument := by
  induction h with
  | nil => simp
  | setting option rest ih =>
    obtain ⟨hfirst, hmore⟩ := List.forall_mem_cons.mp hsettings
    exact List.forall_mem_cons.mpr ⟨(not_isExpression_of_setting hfirst).2, ih hmore hexpressions⟩
  | expression expression rest ih =>
    obtain ⟨hfirst, hmore⟩ := List.forall_mem_cons.mp hexpressions
    exact List.forall_mem_cons.mpr ⟨hfirst.not_decides, ih hsettings hmore⟩

theorem options_eq : Options.ofArguments arguments = Options.ofArguments settings := by
  -- options depend on two lists, to which expressions add nothing
  have hboth : arguments.any (· ∈ implicitOptions) = settings.any (· ∈ implicitOptions) ∧
      arguments.filterMap (List.lookup · displayOptions) =
        settings.filterMap (List.lookup · displayOptions) := by
    induction h with
    | nil => exact ⟨rfl, rfl⟩
    | setting option rest ih =>
      obtain ⟨hany, hchoices⟩ := ih (List.forall_mem_cons.mp hsettings).2 hexpressions
      rw [List.any_cons, List.any_cons, hany, List.filterMap_cons, List.filterMap_cons, hchoices]
      exact ⟨rfl, rfl⟩
    | expression expression rest ih =>
      obtain ⟨hfirst, hmore⟩ := List.forall_mem_cons.mp hexpressions
      have hkind := Argument.ofText_eq_expression_iff.mpr hfirst
      have himplicit : expression ∉ implicitOptions := by
        rw [← Argument.ofText_eq_implicit_iff, hkind]
        nofun
      have hlookup : List.lookup expression displayOptions = none := by
        rw [Argument.lookup_displayOptions, hkind]
        rfl
      obtain ⟨hany, hchoices⟩ := ih hsettings hmore
      simp [himplicit, hlookup, hany, hchoices]
  rw [Options.ofArguments, Options.ofArguments, hboth.1, hboth.2]

end Mixed

theorem Mixed.run_eq {settings expressions arguments : List Text}
    (h : Mixed settings expressions arguments)
    (hsettings : ∀ option ∈ settings, option ∈ settingOptions)
    (hexpressions : ∀ expression ∈ expressions, IsExpression expression) (hsome : expressions ≠ [])
    (unread : List UInt8) :
    run arguments unread = .join (checkEach (.ofArguments settings)
      (named (fun i => argumentName (i + 1)) 0 expressions)) := by
  have hnone : arguments.find? (Decides ·) = none := by
    simpa using h.not_decides hsettings hexpressions
  obtain ⟨first, rest, rfl⟩ := List.exists_cons_of_ne_nil hsome
  have hfilter := h.filter_isExpression hsettings hexpressions
  have hnamed : namedExpressions arguments unread =
      named (fun i => argumentName (i + 1)) 0 (first :: rest) := by
    rw [namedExpressions, hfilter, named]
    dsimp only
    rw [List.zipIdx_eq_map_add, List.map_map]
    congr 1
    funext entry
    simp [Nat.add_comm]
  rw [run_eq_of_find?_eq_none hnone, h.options_eq hsettings hexpressions, hnamed, unreadLine?,
    hfilter, Option.toList_none, List.map_nil, List.append_nil]

/-! ### Expressions as lines -/

/-- A line of an input as it is written: its text, and whether a carriage return stands between the
text and the line feed. -/
structure WrittenLine where
  text : Text
  returns : Bool

namespace WrittenLine

def isBlank (line : WrittenLine) : Bool := isBlankLine line.text

def body (line : WrittenLine) : List UInt8 :=
  Text.bytes line.text ++ if line.returns then [carriageReturn] else []

def ended (line : WrittenLine) : List UInt8 := line.body ++ [lineFeed]

end WrittenLine

/-- The text can stand on a line: it is not blank, has no line feed, and does not end in a carriage
return, which would be taken for a part of the end of the line. -/
def StandsOnLine (expression : Text) : Prop :=
  isBlankLine expression = false ∧ '\n' ∉ expression ∧ expression.getLast? ≠ some '\r'

instance : DecidablePred StandsOnLine := fun _ => inferInstanceAs (Decidable (_ ∧ _))

/-- The input holds the expressions line by line. -/
structure Carries (input : List UInt8) (written : List WrittenLine) (expressions : List Text) :
    Prop where
  apart : ∀ line ∈ written, '\n' ∉ line.text
  texts : (written.filter (¬ ·.isBlank)).map WrittenLine.text = expressions
  /-- the last line may end without a line feed -/
  bytes : input = written.flatMap WrittenLine.ended ∨
    ∃ front last, written = front ++ [last] ∧
      input = front.flatMap WrittenLine.ended ++ Text.bytes last.text

def numbered (n : Nat) (written : List WrittenLine) : List (WrittenLine × Nat) :=
  (written.zipIdx n).filter fun line => ¬ line.1.isBlank

/-- The number of the line that holds the `i`-th expression, both counted from 0 and 1. -/
def lineOf (written : List WrittenLine) (i : Nat) : Nat := ((numbered 1 written).map Prod.snd).getD i 0

/-- The bytes of a line, as they are read, are the text of the written line, or both are blank. -/
def WrittenLine.ReadFrom (line : WrittenLine) (bytes : List UInt8) : Prop :=
  ∃ text, decode? bytes = some text ∧ isBlankLine text = line.isBlank ∧
    (line.isBlank = false → text = line.text)

theorem decode?_bytes (text : Text) : decode? (Text.bytes text) = some text := by
  have harray : (⟨(Text.bytes text).toArray⟩ : ByteArray) = text.utf8Encode := by
    rw [List.utf8Encode, Text.bytes]
    ext1
    simp
  have hvalid : text.utf8Encode.IsValidUTF8 := .intro text rfl
  rw [decode?, harray, String.fromUTF8?, dif_pos hvalid]
  exact congrArg some String.toList_ofList

namespace WrittenLine

variable {line : WrittenLine}

theorem readFrom_bytes : line.ReadFrom (Text.bytes line.text) :=
  ⟨line.text, decode?_bytes line.text, rfl, fun _ => rfl⟩

/-- What is read of an ended line.  A carriage return at the end of a blank line may go with the end of
the line, which leaves it blank. -/
theorem readFrom_body (h : line.isBlank = false → line.text.getLast? ≠ some '\r') :
    line.ReadFrom (withoutReturn line.body) := by
  by_cases hreturns : line.returns = true
  · have hbody : withoutReturn line.body = Text.bytes line.text := by
      rw [body, if_pos hreturns, withoutReturn, List.getLast?_concat, if_pos rfl,
        List.dropLast_concat]
    rw [hbody]
    exact readFrom_bytes
  · have hbody : line.body = Text.bytes line.text := by
      rw [body, if_neg hreturns, List.append_nil]
    rw [hbody, withoutReturn]
    -- without a return of its own, a line may still lose one that its text ends in
    by_cases hlast : (Text.bytes line.text).getLast? = some carriageReturn
    · have hreturn : line.text.getLast? = some '\r' :=
        Text.getLast?_of_getLast?_bytes hlast (by decide)
      obtain ⟨front, hfront⟩ := List.getLast?_eq_some_iff.mp hreturn
      have hblank : line.isBlank = true := by
        by_contra hnot
        exact h (by simpa using hnot) hreturn
      have hbytes : (Text.bytes line.text).dropLast = Text.bytes front := by
        rw [hfront, Text.bytes_append]
        exact List.dropLast_concat
      rw [if_pos hlast, hbytes]
      refine ⟨front, decode?_bytes front, ?_, fun hnot => by simp [hblank] at hnot⟩
      rw [hblank]
      rw [isBlank, isBlankLine, hfront, List.all_append, Bool.and_eq_true] at hblank
      exact hblank.1
    · rw [if_neg hlast]
      exact readFrom_bytes

end WrittenLine

section Numbered

variable {line : WrittenLine} (n : Nat) (rest : List WrittenLine)

theorem numbered_of_blank (h : line.isBlank = true) :
    numbered n (line :: rest) = numbered (n + 1) rest := by
  rw [numbered, List.zipIdx_cons, List.filter_cons_of_neg (by simp [h]), numbered]

theorem numbered_of_not_blank (h : line.isBlank = false) :
    numbered n (line :: rest) = (line, n) :: numbered (n + 1) rest := by
  rw [numbered, List.zipIdx_cons, List.filter_cons_of_pos (by simp [h]), numbered]

theorem numbered_concat_of_blank (h : line.isBlank = true) :
    numbered n (rest ++ [line]) = numbered n rest := by
  rw [numbered, List.zipIdx_append, List.filter_append, numbered]
  simp [h]

end Numbered

theorem map_text_numbered (n : Nat) (written : List WrittenLine) :
    (numbered n written).map (fun line => line.1.text) =
      (written.filter (¬ ·.isBlank)).map WrittenLine.text := by
  induction written generalizing n with
  | nil => rfl
  | cons line rest ih =>
    cases hblank : line.isBlank with
    | true => rw [numbered_of_blank n rest hblank, ih, List.filter_cons_of_neg (by simp [hblank])]
    | false =>
      rw [numbered_of_not_blank n rest hblank, List.map_cons, ih,
        List.filter_cons_of_pos (by simp [hblank]), List.map_cons]

/-- The expressions found on lines as they are read are those written, each by its number. -/
theorem lineExpressions_of_readFrom {written : List WrittenLine} {lines : List (List UInt8)}
    (h : List.Forall₂ WrittenLine.ReadFrom written lines) (n : Nat) :
    lineExpressions n lines = (numbered n written).map (fun line => (lineName line.2, line.1.text)) ∧
      undecoded? n lines = none := by
  induction h generalizing n with
  | nil => exact ⟨rfl, rfl⟩
  | cons hread hrest ih =>
    rename_i line bytes written lines
    obtain ⟨text, hdecode, hsame, htext⟩ := hread
    obtain ⟨hlines, hnone⟩ := ih (n + 1)
    rw [lineExpressions_of_decoded n lines hdecode, undecoded?_of_decoded n lines hdecode, hsame]
    refine ⟨?_, hnone⟩
    cases hblank : line.isBlank with
    | true => rw [if_pos rfl, numbered_of_blank n written hblank, hlines]
    | false =>
      rw [if_neg (by simp), numbered_of_not_blank n written hblank, hlines, htext hblank]
      rfl

theorem lines_flatMap_ended {written : List WrittenLine} (h : ∀ line ∈ written, '\n' ∉ line.text)
    (rest : List UInt8) :
    lines (written.flatMap WrittenLine.ended ++ rest) =
      written.map (fun line => withoutReturn line.body) ++ lines rest := by
  induction written with
  | nil => rfl
  | cons line written ih =>
    obtain ⟨hline, hwritten⟩ := List.forall_mem_cons.mp h
    have hbody : lineFeed ∉ line.body := by
      rw [WrittenLine.body, List.mem_append, not_or]
      refine ⟨fun hmem => hline (Text.mem_of_mem_bytes hmem (by decide)), ?_⟩
      split <;> simp [lineFeed, carriageReturn]
    rw [List.flatMap_cons, WrittenLine.ended, List.append_assoc, List.append_assoc,
      List.singleton_append, lines_ended hbody, ih hwritten]
    rfl

section Carried

variable {input : List UInt8} {written : List WrittenLine} {expressions : List Text}
  (h : Carries input written expressions)
  (hexpressions : ∀ expression ∈ expressions, StandsOnLine expression)
include h hexpressions

theorem Carries.getLast?_ne {line : WrittenLine} (hline : line ∈ written)
    (hblank : line.isBlank = false) : line.text.getLast? ≠ some '\r' := by
  have hmem : line.text ∈ expressions := by
    rw [← h.texts]
    exact List.mem_map_of_mem (List.mem_filter.mpr ⟨hline, by simp [hblank]⟩)
  exact (hexpressions _ hmem).2.2

/-- **The lines of an input that carries expressions are these**, each with the number of its line, and
all of them can be decoded. -/
theorem lineExpressions_of_carries :
    lineExpressions 1 (lines input) =
        (numbered 1 written).map (fun line => (lineName line.2, line.1.text)) ∧
      undecoded? 1 (lines input) = none := by
  have hread : ∀ some, (∀ line ∈ some, line ∈ written) →
      List.Forall₂ WrittenLine.ReadFrom some (some.map fun line => withoutReturn line.body) := by
    intro some hsome
    rw [List.forall₂_map_right_iff, List.forall₂_same]
    exact fun line hline => line.readFrom_body (h.getLast?_ne hexpressions (hsome line hline))
  -- either every line is ended, or the last one is open
  rcases h.bytes with hended | ⟨front, last, rfl, hopen⟩
  · have hlines := lines_flatMap_ended h.apart []
    rw [List.append_nil, ← hended] at hlines
    rw [hlines]
    exact lineExpressions_of_readFrom (by simpa [lines, linesFrom] using hread written fun _ => id) 1
  · obtain ⟨hfront, hlast⟩ := List.forall_mem_append.mp h.apart
    have hfeed : lineFeed ∉ Text.bytes last.text := fun hmem =>
      hlast last List.mem_cons_self (Text.mem_of_mem_bytes hmem (by decide))
    rw [hopen, lines_flatMap_ended hfront, lines_open hfeed]
    have hfrontRead := hread front fun line hline => List.mem_append_left _ hline
    by_cases hnil : last.text = []
    · -- nothing is read of an empty last line, which is blank
      have hblank : last.isBlank = true := by rw [WrittenLine.isBlank, hnil]; rfl
      rw [hnil, Text.bytes_nil, List.filter_cons_of_neg (by simp), List.filter_nil,
        List.append_nil, numbered_concat_of_blank 1 front hblank]
      exact lineExpressions_of_readFrom hfrontRead 1
    · have hbytes : Text.bytes last.text ≠ [] := mt Text.bytes_eq_nil_iff.mp hnil
      rw [List.filter_cons_of_pos (by simpa using hbytes), List.filter_nil]
      exact lineExpressions_of_readFrom
        (List.rel_append hfrontRead (.cons WrittenLine.readFrom_bytes .nil)) 1

theorem Carries.run_eq {settings : List Text}
    (hsettings : ∀ option ∈ settings, option ∈ settingOptions) :
    run settings input = .join (checkEach (.ofArguments settings)
      (named (fun i => lineName (lineOf written i)) 0 expressions)) := by
  have hnone : settings.find? (Decides ·) = none := by
    simpa using fun option hoption => (not_isExpression_of_setting (hsettings option hoption)).2
  have hempty : settings.filter (IsExpression ·) = [] := by
    simpa using fun option hoption => (not_isExpression_of_setting (hsettings option hoption)).1
  obtain ⟨hlines, hdecoded⟩ := lineExpressions_of_carries h hexpressions
  rw [lines_eq_linesOfPieces] at hlines hdecoded
  have hnamed : namedExpressions settings input =
      named (fun i => lineName (lineOf written i)) 0 expressions := by
    rw [namedExpressions, hempty]
    dsimp only
    rw [hlines, ← h.texts, ← map_text_numbered 1, named]
    refine List.ext_getElem (by simp) fun i hi hi' => ?_
    rw [List.length_map] at hi
    simp [lineOf, hi]
  rw [run_eq_of_find?_eq_none hnone, hnamed, unreadLine?, hempty]
  dsimp only
  rw [hdecoded, Option.toList_none, List.map_nil, List.append_nil]

end Carried

/-! ### Both ways -/

/-- **Expressions are checked alike as arguments and as lines.**  Take settings in any combination and
expressions that can stand on lines.  With the expressions mixed with the settings as arguments, and with
the settings as arguments and the expressions line by line as input, the same is printed and the exit code
is the same.  What goes to standard error differs only in the names: where one has the name of the `i`-th
argument, the other has the name of the line that holds it. -/
theorem run_lines_eq_run_arguments {settings expressions arguments : List Text}
    {written : List WrittenLine} {input : List UInt8}
    (hsettings : ∀ option ∈ settings, option ∈ settingOptions) (hsome : expressions ≠ [])
    (hexpressions : ∀ expression ∈ expressions, IsExpression expression ∧ StandsOnLine expression)
    (harguments : Mixed settings expressions arguments)
    (hinput : Carries input written expressions) (unread : List UInt8) :
    (run settings input).output = (run arguments unread).output ∧
    (run settings input).code = (run arguments unread).code ∧
    ∃ template : Template,
      (run arguments unread).errors = template.fill (fun i => argumentName (i + 1)) ∧
      (run settings input).errors = template.fill (fun i => lineName (lineOf written i)) := by
  obtain ⟨success, output, template, hall⟩ :=
    exists_join_checkEach (.ofArguments settings) expressions 0
  have hsame := harguments.run_eq hsettings (fun e he => (hexpressions e he).1) hsome unread
  have hlines := hinput.run_eq (fun e he => (hexpressions e he).2) hsettings
  rw [hall] at hsame hlines
  rw [hsame, hlines]
  exact ⟨rfl, rfl, template, rfl, rfl⟩

/-- `pq` and `p $` with settings around and between them; and as lines after an empty line, with white
space between them, the first line ended in two bytes and the last not at all.  The second expression is
called `<arg 2>`, or by its line, which is the fourth. -/
theorem run_lines_eq_run_arguments_between_blanks :
    let tree : Text := "--tree".toList
    let implicit : Text := "-i".toList
    let expressions : List Text := [['p', 'q'], ['p', ' ', '$']]
    let arguments : List Text := [['p', 'q'], tree, ['p', ' ', '$'], implicit]
    let written : List WrittenLine := [⟨[], false⟩, ⟨['p', 'q'], true⟩, ⟨[' ', '\t'], false⟩,
      ⟨['p', ' ', '$'], false⟩]
    let input : List UInt8 := [10, 112, 113, 13, 10, 32, 9, 10, 112, 32, 36]
    Mixed [tree, implicit] expressions arguments ∧ Carries input written expressions ∧
      (run [tree, implicit] input).output = (run arguments []).output ∧
      (run arguments []).output = "p ∧ q\n∧\n  p\n  q\n".toList ∧
      ∃ template : Template,
        (run arguments []).errors = template.fill (fun i => argumentName (i + 1)) ∧
        (run [tree, implicit] input).errors = template.fill (fun i => lineName (lineOf written i)) ∧
        lineName (lineOf written 1) = "<stdin>:4".toList ∧
        (run arguments []).errors ≠ (run [tree, implicit] input).errors := by
  intro tree implicit expressions arguments written input
  have hmixed : Mixed [tree, implicit] expressions arguments :=
    .expression _ (.setting _ (.expression _ (.setting _ .nil)))
  have hcarries : Carries input written expressions :=
    ⟨by decide, by decide +kernel, .inr ⟨_, _, (List.dropLast_concat_getLast (by decide)).symm,
      by decide +kernel⟩⟩
  obtain ⟨houtput, -, template, harguments, hlines⟩ :=
    run_lines_eq_run_arguments (by decide) (by decide) (by decide +kernel) hmixed hcarries []
  exact ⟨hmixed, hcarries, houtput, by decide +kernel, template, harguments, hlines, by decide +kernel,
    by decide +kernel⟩

end Check
end Wff
