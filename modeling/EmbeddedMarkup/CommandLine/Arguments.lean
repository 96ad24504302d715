import EmbeddedMarkup.Expression.Token
import EmbeddedMarkup.Mode.Stack

/-!
# The arguments of the program

A call of the program names an action and a path, and may set options in front of the path or
behind it.  Each of them is given once at most.  A lone hyphen is a path, and behind `--` every
argument is one.
-/

namespace EmbeddedMarkup

/-- What is printed for a file that can be read. -/
inductive Action where
  /-- Print the outline of the tree, with the lines of each node if asked for. -/
  | outline (positions : Bool)
  /-- Print the tree as JSON. -/
  | json
  /-- Report the number of regions. -/
  | check
deriving DecidableEq, Repr

/-- A call of the program. -/
structure Command where
  action : Action
  path : String
  budget : Nat
deriving DecidableEq, Repr

/-- Why a text is no nesting budget. -/
inductive BudgetFault where
  | empty
  | invalidDigit
  | tooLarge
deriving DecidableEq, Repr

/-- What is said about a text that is no nesting budget. -/
def BudgetFault.message : BudgetFault → String
  | .empty => "cannot parse integer from empty string"
  | .invalidDigit => "invalid digit found in string"
  | .tooLarge => "number too large to fit in target type"

/-- Why arguments are no call of the program. -/
inductive UsageFault where
  /-- The nesting budget is no number of 64 bits. -/
  | invalidBudget (text : String) (fault : BudgetFault)
  /-- Something is missing, repeated or unknown. -/
  | malformed
deriving DecidableEq, Repr

/-- How the program is called. -/
def usage : String :=
  "Usage: embedded-markup dump <PATH> [--positions] [--json] [--max-depth <N>]\n" ++
    "       embedded-markup check <PATH> [--max-depth <N>]\n"

/-- What is said about arguments that are no call. -/
def UsageFault.message : UsageFault → String
  | .invalidBudget text fault =>
      "error: invalid value " ++ quoted text ++ " for '--max-depth <MAX_DEPTH>': " ++
        fault.message ++ "\n\nFor more information, try '--help'.\n"
  | .malformed => usage

/-- The budgets that can be asked for are below this. -/
def budgetBound : Nat := Nat.pow 2 64

/-- Read the digits of a budget behind those that make up `value`. -/
def readBudgetDigits (value : Nat) : List Char → Except BudgetFault Nat
  | [] => .ok value
  | c :: rest =>
      let next := 10 * value + (c.toNat - '0'.toNat)
      if !c.isDigit then .error .invalidDigit
      else if budgetBound ≤ next then .error .tooLarge
      else readBudgetDigits next rest

/-- Read a budget: decimal digits, which may have a plus sign in front. -/
def readBudget : List Char → Except BudgetFault Nat
  | [] => .error .empty
  | '+' :: c :: rest => readBudgetDigits 0 (c :: rest)
  | digits => readBudgetDigits 0 digits

/-- The options and the path of a call, as far as they were given. -/
structure Options where
  positions : Bool
  json : Bool
  budget : Option Nat
  path : Option String

namespace Options

/-- No option is given. -/
def none : Options :=
  ⟨false, false, .none, .none⟩

/-- Add the path. -/
def withPath (options : Options) (path : String) : Except UsageFault Options :=
  if options.path.isSome then .error .malformed
  else .ok { options with path := some path }

/-- Add the nesting budget that a text asks for. -/
def withBudget (options : Options) (text : String) : Except UsageFault Options :=
  if options.budget.isSome then .error .malformed
  else
    match readBudget text.toList with
    | .ok budget => .ok { options with budget := some budget }
    | .error fault => .error (.invalidBudget text fault)

/-- An argument that starts with a hyphen is an option, unless it is nothing else. -/
def isOption (argument : String) : Bool :=
  argument.startsWith "-" && argument != "-"

/-- The option that sets the nesting budget, with a value in the same argument. -/
def budgetOption : String := "--max-depth="

/-- Read arguments behind those that gave `options`. -/
def read (options : Options) : List String → Except UsageFault Options
  | [] => .ok options
  | "--" :: rest => rest.foldlM withPath options
  | "--positions" :: rest =>
      if options.positions then .error .malformed else read { options with positions := true } rest
  | "--json" :: rest =>
      if options.json then .error .malformed else read { options with json := true } rest
  | "--max-depth" :: value :: rest =>
      if isOption value then .error .malformed
      else (options.withBudget value).bind fun options => read options rest
  | argument :: rest =>
      if argument.startsWith budgetOption then
        (options.withBudget (argument.drop budgetOption.length).toString).bind
          fun options => read options rest
      else if isOption argument then .error .malformed
      else (options.withPath argument).bind fun options => read options rest

end Options

namespace Command

/-- The call of an action with options, which need to name a path. -/
def ofOptions (action : Action) (options : Options) : Except UsageFault Command :=
  match options.path with
  | some path => .ok ⟨action, path, options.budget.getD defaultBudget⟩
  | none => .error .malformed

/-- The call that arguments ask for.  Where JSON is asked for, lines of nodes are not. -/
def ofArguments : List String → Except UsageFault Command
  | "dump" :: rest =>
      (Options.none.read rest).bind fun options =>
        ofOptions (if options.json then .json else .outline options.positions) options
  | "check" :: rest =>
      (Options.none.read rest).bind fun options =>
        if options.json || options.positions then .error .malformed
        else ofOptions .check options
  | _ => .error .malformed

end Command
end EmbeddedMarkup
