/-!
# Arguments

An argument is an option, the value of one, or a positional argument. An option `--name` takes its
value from the next argument or, behind an equals sign, from its own; the letter `-k` of an option
takes it from the next argument or from the rest of its own. The next argument is no value if it
looks like an option. Behind `--` everything is positional.
-/

namespace SecureBoot.CommandLine

/-- An option that takes a value. -/
structure OptionRule where
  name : String
  letter : Option Char := none
  repeatable : Bool := false
  deriving DecidableEq, Inhabited, Repr

/-- Options with their values, and positional arguments, in order. -/
structure Arguments where
  options : List (String × String) := []
  positionals : List String := []
  deriving DecidableEq, Inhabited, Repr

namespace Arguments

/-- All values of an option. -/
def values (a : Arguments) (name : String) : List String :=
  (a.options.filter (·.1 = name)).map Prod.snd

/-- The first value of an option. -/
def value? (a : Arguments) (name : String) : Option String := a.options.lookup name

/-- Whether no option is given twice that may be given only once. -/
def isUnrepeated (a : Arguments) (rules : List OptionRule) : Bool :=
  rules.all fun rule => rule.repeatable || (a.values rule.name).length ≤ 1

end Arguments

/-- Whether an argument cannot be the value of the option before it. -/
def looksLikeOption (argument : String) : Bool :=
  argument.toList.head? = some '-' && argument ≠ "-"

/-- An option as it is written: which one, and the value if it stands in the same argument. -/
structure WrittenOption where
  rule : OptionRule
  value : Option String
  deriving DecidableEq, Repr

/-- Reads an argument that looks like an option. -/
def writtenOption? (rules : List OptionRule) (argument : String) : Option WrittenOption := do
  match argument.toList with
  | '-' :: '-' :: body =>
    let name := body.takeWhile (· ≠ '=')
    let rule ← rules.find? (·.name = String.ofList name)
    return ⟨rule,
      if name.length < body.length then some (String.ofList (body.drop (name.length + 1)))
      else none⟩
  | '-' :: letter :: rest =>
    let rule ← rules.find? (·.letter = some letter)
    return ⟨rule, if rest.isEmpty then none
      else some (String.ofList (if rest.head? = some '=' then rest.tail else rest))⟩
  | _ => none

/-- Reads arguments by the rules for options; `none` where they are refused. -/
def readArguments (rules : List OptionRule) : List String → Option Arguments
  | [] => some {}
  | "--" :: rest => some { positionals := rest }
  | argument :: rest =>
    if looksLikeOption argument then
      match writtenOption? rules argument, rest with
      | none, _ => none
      | some ⟨rule, some value⟩, rest =>
        (readArguments rules rest).map fun a =>
          { a with options := (rule.name, value) :: a.options }
      | some ⟨_, none⟩, [] => none
      | some ⟨rule, none⟩, value :: rest =>
        if looksLikeOption value then none
        else
          (readArguments rules rest).map fun a =>
            { a with options := (rule.name, value) :: a.options }
    else
      (readArguments rules rest).map fun a => { a with positionals := argument :: a.positionals }
termination_by arguments => arguments.length

end SecureBoot.CommandLine
