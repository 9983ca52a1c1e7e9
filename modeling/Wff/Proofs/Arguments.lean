import Mathlib.Data.List.Basic
import Wff.Check.Request

/-!
# Wff.Proofs.Arguments — which arguments count

Arguments are read one by one, with what was found so far.  Here the reading is described from the
whole list: the first argument that decides alone, or else the options wherever they stand and the
expressions in their order (`readFrom_of_decides`, `readFrom_of_forall_not_decides`).
-/

namespace Wff.Check

def versionOptions : List Text := ["--version".toList, "-v".toList]

def helpOptions : List Text := ["--help".toList, "-h".toList]

def implicitOptions : List Text := ["--implicit-and".toList, "-i".toList]

def displayOptions : List (Text × Display) :=
  [("--tokens".toList, .tokens), ("--tree".toList, .tree)]

def optionNames : List Text :=
  versionOptions ++ helpOptions ++ implicitOptions ++ displayOptions.map Prod.fst

/-- Does the argument look like an option and is none? -/
def Unknown (argument : Text) : Prop := "--".toList <+: argument ∧ argument ∉ optionNames

/-- Does the argument, if it is the first such one, decide alone? -/
def Decides (argument : Text) : Prop :=
  argument ∈ versionOptions ∨ argument ∈ helpOptions ∨ Unknown argument

def IsExpression (argument : Text) : Prop :=
  ¬ "--".toList <+: argument ∧ argument ∉ optionNames

instance : DecidablePred Unknown := fun _ => inferInstanceAs (Decidable (_ ∧ _))

instance : DecidablePred Decides := fun _ => inferInstanceAs (Decidable (_ ∨ _))

instance : DecidablePred IsExpression := fun _ => inferInstanceAs (Decidable (_ ∧ _))

/-- The options that the arguments ask for: any argument may allow conjunctions to be left out, and
the last choice of what to show counts. -/
def Options.ofArguments (arguments : List Text) : Options :=
  { implicit := arguments.any (· ∈ implicitOptions)
    display := (arguments.filterMap (List.lookup · displayOptions)).getLast?.getD .formula }

/-! ## Single arguments -/

namespace Argument

variable {argument : Text}

theorem ofText_of_not_mem (h : argument ∉ optionNames) :
    ofText argument = if "--".toList <+: argument then .unknownOption else .expression := by
  have hprefix : argument.take 2 = "--".toList ↔ "--".toList <+: argument := by
    rw [List.prefix_iff_eq_take, eq_comm]; rfl
  simp only [optionNames, versionOptions, helpOptions, implicitOptions, displayOptions,
    List.map_cons, List.map_nil, List.cons_append, List.nil_append, List.mem_cons,
    List.not_mem_nil, or_false, not_or] at h
  obtain ⟨h₁, h₂, h₃, h₄, h₅, h₆, h₇, h₈⟩ := h
  simp only [ofText, h₁, h₂, h₃, h₄, h₅, h₆, h₇, h₈, or_self, if_false, hprefix]

/-- A kind of argument that has names of its own is found by exactly these names. -/
theorem ofText_eq_iff_mem {kind : Argument} {names : List Text}
    (hlisted : ∀ a ∈ optionNames, ofText a = kind ↔ a ∈ names)
    (hnames : ∀ a ∈ names, a ∈ optionNames) (hunknown : kind ≠ .unknownOption)
    (hexpression : kind ≠ .expression) : ofText argument = kind ↔ argument ∈ names := by
  by_cases h : argument ∈ optionNames
  · exact hlisted argument h
  · have hne : argument ∉ names := fun hmem => h (hnames argument hmem)
    rw [ofText_of_not_mem h]
    split <;> simp [hne, hunknown.symm, hexpression.symm]

theorem ofText_eq_version_iff : ofText argument = .version ↔ argument ∈ versionOptions :=
  ofText_eq_iff_mem (by decide) (by decide) nofun nofun

theorem ofText_eq_help_iff : ofText argument = .help ↔ argument ∈ helpOptions :=
  ofText_eq_iff_mem (by decide) (by decide) nofun nofun

theorem ofText_eq_implicit_iff : ofText argument = .implicit ↔ argument ∈ implicitOptions :=
  ofText_eq_iff_mem (by decide) (by decide) nofun nofun

theorem ofText_eq_unknownOption_iff : ofText argument = .unknownOption ↔ Unknown argument := by
  by_cases h : argument ∈ optionNames
  · exact (by decide : ∀ a ∈ optionNames, ofText a = .unknownOption ↔ Unknown a) argument h
  · simp [ofText_of_not_mem h, Unknown, h]

theorem ofText_eq_expression_iff : ofText argument = .expression ↔ IsExpression argument := by
  by_cases h : argument ∈ optionNames
  · exact (by decide : ∀ a ∈ optionNames, ofText a = .expression ↔ IsExpression a) argument h
  · simp [ofText_of_not_mem h, IsExpression, h]

def choice? : Argument → Option Display
  | .choose display => some display
  | _ => none

theorem lookup_displayOptions : List.lookup argument displayOptions = (ofText argument).choice? := by
  by_cases h : argument ∈ optionNames
  · exact (by decide : ∀ a ∈ optionNames,
      List.lookup a displayOptions = (ofText a).choice?) argument h
  · have hne : List.lookup argument displayOptions = none := by
      refine List.lookup_eq_none_iff.mpr fun option hoption => ?_
      have hmem : option.1 ∈ optionNames := by
        simp only [optionNames, List.mem_append, List.mem_map]
        exact .inr ⟨option, hoption, rfl⟩
      exact bne_iff_ne.mpr fun heq => h (heq ▸ hmem)
    rw [ofText_of_not_mem h, hne]
    split <;> rfl

end Argument

theorem decides_iff {argument : Text} :
    Decides argument ↔ Argument.ofText argument = .version ∨ Argument.ofText argument = .help ∨
      Argument.ofText argument = .unknownOption := by
  rw [Argument.ofText_eq_version_iff, Argument.ofText_eq_help_iff,
    Argument.ofText_eq_unknownOption_iff, Decides]

/-! ## All arguments -/

namespace Request

variable {options : Options} {expressions : List Text}

def ofDeciding (argument : Text) : Request :=
  if argument ∈ versionOptions then .version
  else if argument ∈ helpOptions then .help
  else .unknownOption argument

/-- **The first argument that decides alone decides**, whatever stands before and after it. -/
theorem readFrom_of_decides {before : List Text} {argument : Text} (after : List Text)
    (hbefore : ∀ earlier ∈ before, ¬ Decides earlier) (hdecides : Decides argument) :
    readFrom options expressions (before ++ argument :: after) = ofDeciding argument := by
  induction before generalizing options expressions with
  | nil =>
    rw [List.nil_append, readFrom, ofDeciding]
    simp only [← Argument.ofText_eq_version_iff, ← Argument.ofText_eq_help_iff]
    rcases decides_iff.mp hdecides with h | h | h <;> simp [h]
  | cons earlier before ih =>
    have hearlier : ¬ Decides earlier := hbefore earlier List.mem_cons_self
    have hrest : ∀ a ∈ before, ¬ Decides a := fun a ha => hbefore a (List.mem_cons_of_mem _ ha)
    rw [decides_iff, not_or, not_or] at hearlier
    rw [List.cons_append, readFrom]
    cases h : Argument.ofText earlier with
    | version => exact absurd h hearlier.1
    | help => exact absurd h hearlier.2.1
    | unknownOption => exact absurd h hearlier.2.2
    | implicit => exact ih hrest
    | choose display => exact ih hrest
    | expression => exact ih hrest

/-- **If no argument decides alone**, the options hold wherever they stand, the last choice of what
to show counts, and the expressions are all that is no option, in their order. -/
theorem readFrom_of_forall_not_decides {arguments : List Text}
    (h : ∀ argument ∈ arguments, ¬ Decides argument) :
    readFrom options expressions arguments =
      .check
        { implicit := options.implicit || arguments.any (· ∈ implicitOptions)
          display :=
            (arguments.filterMap (List.lookup · displayOptions)).getLast?.getD options.display }
        (expressions.reverse ++ arguments.filter (IsExpression ·)) := by
  induction arguments generalizing options expressions with
  | nil => simp [readFrom]
  | cons argument rest ih =>
    have hargument : ¬ Decides argument := h argument List.mem_cons_self
    have hrest : ∀ a ∈ rest, ¬ Decides a := fun a ha => h a (List.mem_cons_of_mem _ ha)
    rw [decides_iff, not_or, not_or] at hargument
    have himplicit : argument ∈ implicitOptions ↔ Argument.ofText argument = .implicit :=
      Argument.ofText_eq_implicit_iff.symm
    have hexpression : IsExpression argument ↔ Argument.ofText argument = .expression :=
      Argument.ofText_eq_expression_iff.symm
    -- one argument: what it adds on the left it adds to each of the three lists on the right
    rw [readFrom, List.any_cons, List.filterMap_cons, List.filter_cons,
      Argument.lookup_displayOptions]
    simp only [himplicit, hexpression]
    cases hkind : Argument.ofText argument with
    | version => exact absurd hkind hargument.1
    | help => exact absurd hkind hargument.2.1
    | unknownOption => exact absurd hkind hargument.2.2
    | implicit => simp [ih hrest, Argument.choice?]
    | choose display => simp [ih hrest, Argument.choice?, List.getLast?_cons]
    | expression => simp [ih hrest, Argument.choice?]

theorem ofArguments_of_forall_not_decides {arguments : List Text}
    (h : ∀ argument ∈ arguments, ¬ Decides argument) :
    ofArguments arguments =
      .check (Options.ofArguments arguments) (arguments.filter (IsExpression ·)) := by
  rw [ofArguments, readFrom_of_forall_not_decides h, Options.ofArguments, Bool.false_or,
    List.reverse_nil, List.nil_append]

end Request
end Wff.Check
