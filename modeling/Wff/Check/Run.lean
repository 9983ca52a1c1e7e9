import Wff.Check.Lines
import Wff.Check.Request
import Wff.Fault.Report
import Wff.Formula.Listing
import Wff.Formula.Written
import Wff.Grammar
import Wff.Symbol.Standard
import Wff.Token.Listing

/-!
# Wff.Check.Run — checking expressions

Each expression is checked on its own.  One that has no fault is shown on standard output, the
report of a fault goes to standard error, and the run fails if any expression does.  Expressions are
the arguments that are no options, or else the lines of standard input that are not blank, as far as
these are UTF-8.
-/

namespace Wff.Check

/-- What a run, or a part of one, prints, and whether all went well. -/
structure Outcome where
  success : Bool
  output : Text
  errors : Text
  deriving DecidableEq, Repr

namespace Outcome

def code (outcome : Outcome) : Nat := if outcome.success then 0 else 1

def join (outcomes : List Outcome) : Outcome :=
  { success := outcomes.all success
    output := outcomes.flatMap output
    errors := outcomes.flatMap errors }

end Outcome

/-- Lines, each with its line break. -/
def printed (lines : List Text) : Text := lines.flatMap fun line => line ++ ['\n']

def versionLine : Text := "pogical-check v0.4.0".toList

def usage : List Text :=
  [versionLine,
   "Usage: pogical-check [options] [expression ...]".toList,
   [],
   "不给出表达式时，从标准输入逐行读取。".toList,
   [],
   "Options:".toList,
   "  -i, --implicit-and    把并列的原子视为合取 (pq = p ∧ q)".toList,
   "  --tokens              只进行词法分析，输出 token 序列".toList,
   "  --tree                输出语法树结构".toList,
   "  --version, -v         显示版本号".toList,
   "  --help, -h            显示帮助信息".toList,
   [],
   "Examples:".toList,
   "  pogical-check \"p & q ↑ r\"".toList,
   "  pogical-check -i \"pq' + r\"".toList,
   "  echo \"~(p → q)\" | pogical-check --tree".toList]

/-- The message of a failed run that is not about an expression. -/
def complaint (message : Text) : Text := printed ["错误: ".toList ++ message]

/-- What is shown of an expression, or its fault. -/
def shown (options : Options) (expression : Text) : Except Fault (List Text) :=
  match options.display with
  | .tokens => (Table.standard.tokenize options.implicit expression).map (·.map Token.line)
  | .tree =>
    (Table.standard.parse options.implicit expression).map fun f => f.written :: f.listing
  | .formula => (Table.standard.parse options.implicit expression).map fun f => [f.written]

/-- Check one expression, called `name` in reports. -/
def checkOne (options : Options) (name expression : Text) : Outcome :=
  match shown options expression with
  | .ok lines => ⟨true, printed lines, []⟩
  | .error fault => ⟨false, [], printed [fault.report expression name]⟩

def argumentName (n : Nat) : Text := "<arg ".toList ++ Text.ofNat n ++ ['>']

def lineName (n : Nat) : Text := "<stdin>:".toList ++ Text.ofNat n

def undecodable (n : Nat) : Outcome :=
  ⟨false, [], complaint ("读取标准输入第 ".toList ++ Text.ofNat n ++
    " 行失败: stream did not contain valid UTF-8".toList)⟩

def checkArguments (options : Options) (n : Nat) (expressions : List Text) : List Outcome :=
  (expressions.zipIdx n).map fun (expression, n) => checkOne options (argumentName n) expression

/-- Check lines, counting from `n`, after the given outcomes, the last one first.  Blank lines are
counted and passed over; the first line that is not UTF-8 ends the run. -/
def checkLinesFrom (options : Options) (done : List Outcome) (n : Nat) :
    List (List UInt8) → List Outcome
  | [] => done.reverse
  | line :: rest =>
    match decode? line with
    | none => (undecodable n :: done).reverse
    | some expression =>
      if isBlankLine expression then checkLinesFrom options done (n + 1) rest
      else checkLinesFrom options (checkOne options (lineName n) expression :: done) (n + 1) rest

def checkLines (options : Options) (input : List UInt8) : List Outcome :=
  checkLinesFrom options [] 1 (lines input)

/-- Carry out a request, given what standard input holds. -/
def Request.run (request : Request) (input : List UInt8) : Outcome :=
  match request with
  | .version => ⟨true, printed [versionLine], []⟩
  | .help => ⟨true, printed usage, []⟩
  | .unknownOption argument =>
    ⟨false, printed usage, complaint ("未知选项: ".toList ++ argument)⟩
  | .check options [] => .join (checkLines options input)
  | .check options expressions => .join (checkArguments options 1 expressions)

def Request.readsInput : Request → Bool
  | .check _ [] => true
  | _ => false

/-- Run the program on arguments and standard input. -/
def run (arguments : List Text) (input : List UInt8) : Outcome :=
  (Request.ofArguments arguments).run input

end Wff.Check
