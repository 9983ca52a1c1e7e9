import Wff.Text

/-!
# Wff.Check.Request — what the arguments ask for

The first argument that asks for the version, for help, or for an option that does not exist decides
alone.  Otherwise the options hold for all expressions, wherever they stand, and of the options that
choose what to show the last one counts.
-/

namespace Wff.Check

inductive Display
  | formula | tree | tokens
  deriving DecidableEq, Repr

structure Options where
  implicit : Bool
  display : Display
  deriving DecidableEq, Repr

inductive Request
  | version
  | help
  | unknownOption (argument : Text)
  | check (options : Options) (expressions : List Text)
  deriving DecidableEq, Repr

inductive Argument
  | version
  | help
  | implicit
  | choose (display : Display)
  | unknownOption
  | expression
  deriving DecidableEq, Repr

/-- What an argument says.  A single `-` with anything else after it is the beginning of an
expression, for it is also a negation. -/
def Argument.ofText (argument : Text) : Argument :=
  if argument = "--version".toList ∨ argument = "-v".toList then .version
  else if argument = "--help".toList ∨ argument = "-h".toList then .help
  else if argument = "--implicit-and".toList ∨ argument = "-i".toList then .implicit
  else if argument = "--tokens".toList then .choose .tokens
  else if argument = "--tree".toList then .choose .tree
  else if argument.take 2 = "--".toList then .unknownOption
  else .expression

/-- Take the arguments one by one, with the expressions found so far, the last one first. -/
def Request.readFrom (options : Options) (expressions : List Text) : List Text → Request
  | [] => .check options expressions.reverse
  | argument :: rest =>
    match Argument.ofText argument with
    | .version => .version
    | .help => .help
    | .implicit => readFrom { options with implicit := true } expressions rest
    | .choose display => readFrom { options with display := display } expressions rest
    | .unknownOption => .unknownOption argument
    | .expression => readFrom options (argument :: expressions) rest

def Request.ofArguments (arguments : List Text) : Request :=
  readFrom ⟨false, .formula⟩ [] arguments

end Wff.Check
