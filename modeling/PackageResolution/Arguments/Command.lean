import PackageResolution.Arguments.Grammar
/-!
# Commands

The commands of the program and their arguments.
-/
namespace PackageResolution

namespace Arguments

/-- The arguments of every command that resolves a target. -/
structure TargetArgs where
  target : Option String := none
  features : List String := []
  noVerifyCaps : Bool := false
  deriving DecidableEq

/-- What is shown of a package's flags. -/
inductive FlagsForm where
  | full
  | compile
  | link
  | json
  deriving DecidableEq

inductive Shell where
  | bash
  | elvish
  | fish
  | powershell
  | zsh
  deriving DecidableEq

def Shell.name : Shell → String
  | bash => "bash"
  | elvish => "elvish"
  | fish => "fish"
  | powershell => "powershell"
  | zsh => "zsh"

def Shell.ofName? (name : String) : Option Shell :=
  [Shell.bash, .elvish, .fish, .powershell, .zsh].find? (·.name == name)

/-- A command with its arguments. -/
inductive Command where
  /-- Resolves a target's packages and features. -/
  | resolve (args : TargetArgs) (json : Bool)
  /-- Shows the flags of a package. -/
  | flags (package : String) (args : TargetArgs) (form : FlagsForm)
  /-- Shows the dependency tree of a package. -/
  | tree (package : String) (args : TargetArgs) (depth : Option Nat)
  /-- Makes completions for a shell. -/
  | completions (shell : Shell)
  deriving DecidableEq

structure Invocation where
  verbose : Bool
  noColour : Bool
  command : Command
  deriving DecidableEq

/-! ## Grammars -/

/-- A depth: digits with or without a plus sign, for a number of 64 bits. -/
def depthOf? (word : String) : Option Nat :=
  let digits := match word.toList with
    | '+' :: rest => rest
    | cs => cs
  if digits ≠ [] ∧ digits.all Char.isDigit then
    let n := digits.foldl (fun n d => 10 * n + (d.toNat - '0'.toNat)) 0
    if n < UInt64.size then some n else none
  else none

/-- Options that every command has. -/
def commonOptions : List OptionSpec :=
  [{ long := "verbose", short := some 'v', action := .flag },
    { long := "no-color", action := .flag },
    { long := "help", short := some 'h', action := .help }]

/-- Options of every command that resolves a target. -/
def targetOptions : List OptionSpec :=
  [{ long := "target", short := some 't', action := .value },
    { long := "feature", short := some 'F', action := .values },
    { long := "no-verify-caps", action := .flag }]

def commandNames : List String := ["resolve", "flags", "tree", "completions"]

def outerGrammar : Grammar where
  options := commonOptions ++ [{ long := "version", short := some 'V', action := .version }]
  subcommands := commandNames ++ ["help"]

def resolveGrammar : Grammar where
  options := commonOptions ++ targetOptions ++ [{ long := "json", action := .flag }]

def flagsGrammar : Grammar where
  options := commonOptions ++ targetOptions ++
    [{ long := "compile", action := .flag }, { long := "link", action := .flag },
      { long := "json", action := .flag }]
  positional := some fun _ => none

def treeGrammar : Grammar where
  options := commonOptions ++ targetOptions ++
    [{ long := "depth", short := some 'd', action := .value,
       check := fun word => if (depthOf? word).isSome then none else some .valueValidation }]
  positional := some fun _ => none

def completionsGrammar : Grammar where
  options := commonOptions
  positional := some fun word => if (Shell.ofName? word).isSome then none else some .invalidValue

/-! ## Reading command lines -/

def targetArgs (m : Matches) : TargetArgs where
  target := (m.valuesOf "target").head?
  features := m.valuesOf "feature"
  noVerifyCaps := m.has "no-verify-caps"

/-- The one positional argument, which has to be there. -/
def requirePositional (m : Matches) : Except UsageError String :=
  match m.positional with
  | some word => .ok word
  | none => .error .missingRequiredArgument

/-- The answer to `help`: the words after it name a command, if there are any. -/
def helpAnswer : List String → UsageError
  | [] => .displayHelp
  | [word] => if outerGrammar.subcommands.contains word then .displayHelp else .invalidSubcommand
  | _ => .invalidSubcommand

/-- Reads the arguments of a command. -/
def readCommand (name : String) (words : List String) : Except UsageError (Matches × Command) := do
  match name with
  | "resolve" =>
    let (m, _) ← resolveGrammar.read {} false words
    return (m, .resolve (targetArgs m) (m.has "json"))
  | "flags" =>
    let (m, _) ← flagsGrammar.read {} false words
    let forms := ["compile", "link", "json"].filter m.has
    if 1 < forms.length then throw .argumentConflict
    let form := if m.has "compile" then .compile else if m.has "link" then .link
      else if m.has "json" then .json else .full
    return (m, .flags (← requirePositional m) (targetArgs m) form)
  | "tree" =>
    let (m, _) ← treeGrammar.read {} false words
    return (m, .tree (← requirePositional m) (targetArgs m) ((m.valuesOf "depth").head?.bind depthOf?))
  | "completions" =>
    let (m, _) ← completionsGrammar.read {} false words
    match Shell.ofName? (← requirePositional m) with
    | some shell => return (m, .completions shell)
    | none => throw .invalidValue
  | _ => throw (helpAnswer words)

/-- Reads a command line, without the name of the program. -/
def read (words : List String) : Except UsageError Invocation := do
  let (outer, rest) ← outerGrammar.read {} false words
  match rest with
  | none => throw (if outer.options.isEmpty then .helpForNothing else .missingSubcommand)
  | some (name, words) =>
    let (inner, command) ← readCommand name words
    return { verbose := outer.has "verbose" || inner.has "verbose"
             noColour := outer.has "no-color" || inner.has "no-color"
             command }

end Arguments
end PackageResolution
