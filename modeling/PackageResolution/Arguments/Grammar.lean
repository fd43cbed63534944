/-!
# The grammar of arguments

How the words of a command line are told apart. `--name` and `-n` are options; an option with a value
takes it after an equals sign, from the rest of a word of short options, or from the next word unless
that looks like an option. After `--` all words are positional. Short options without value may share
a word.

An option that was last given without its value is settled when the next one is met, or at the end;
only then its value is looked at. A word that fits nothing is refused before that.
-/
namespace PackageResolution.Arguments

/-- Why a command line is refused, or answered by help. -/
inductive UsageError where
  | missingRequiredArgument
  | unknownArgument
  | argumentConflict
  | valueValidation
  | invalidValue
  | invalidSubcommand
  | tooManyValues
  | missingSubcommand
  /-- There are no arguments at all. -/
  | helpForNothing
  | displayHelp
  | displayVersion
  deriving DecidableEq

/-- The exit code of a refused command line; asking for help or the version is no failure. -/
def UsageError.exitCode : UsageError → Nat
  | displayHelp => 0
  | displayVersion => 0
  | _ => 2

/-- What giving an option does. -/
inductive Action where
  /-- Sets a flag; it can be given once. -/
  | flag
  /-- Sets a value; it can be given once. -/
  | value
  /-- Adds a value. -/
  | values
  | help
  | version
  deriving DecidableEq

def Action.takesValue : Action → Bool
  | value => true
  | values => true
  | _ => false

structure OptionSpec where
  long : String
  short : Option Char := none
  action : Action
  /-- What is wrong with a value. -/
  check : String → Option UsageError := fun _ => none

/-- The words that a command understands. -/
structure Grammar where
  options : List OptionSpec
  /-- The check of the one positional argument, if there is one. -/
  positional : Option (String → Option UsageError) := none
  subcommands : List String := []

/-- What stands open until the next argument. -/
inductive Pending where
  /-- An option with the value that was given for it, if one was. -/
  | option (o : OptionSpec) (value : Option String)
  | positional (check : String → Option UsageError) (value : String)

/-- The arguments met so far. -/
structure Matches where
  /-- The options, by their long names, with their values. -/
  options : List (String × String) := []
  positional : Option String := none
  pending : Option Pending := none

namespace Matches

def has (m : Matches) (long : String) : Bool := m.options.any (·.1 == long)

def valuesOf (m : Matches) (long : String) : List String :=
  (m.options.filter (·.1 == long)).map (·.2)

/-- Notes an option with its value. -/
def note (m : Matches) (o : OptionSpec) (value : String) : Except UsageError Matches :=
  if o.action ≠ .values ∧ m.has o.long then .error .argumentConflict
  else match o.check value with
    | some e => .error e
    | none => .ok { m with options := m.options ++ [(o.long, value)] }

def settle (m : Matches) : Except UsageError Matches :=
  let m' := { m with pending := none }
  match m.pending with
  | none => .ok m'
  | some (.option _ none) => .error .invalidValue
  | some (.option o (some value)) => m'.note o value
  | some (.positional check value) =>
    match check value with
    | some e => .error e
    | none => .ok { m' with positional := some value }

/-- Whether an option is still without its value. -/
def awaiting (m : Matches) : Option OptionSpec :=
  match m.pending with
  | some (.option o none) => some o
  | _ => none

/-- Gives an option with the value attached to it, if one is. -/
def give (m : Matches) (o : OptionSpec) (attached : Option String) : Except UsageError Matches := do
  let m ← m.settle
  match o.action, attached with
  | .help, _ => throw .displayHelp
  | .version, _ => throw .displayVersion
  | .flag, _ => m.note o ""
  | _, some value => m.note o value
  | _, none => return { m with pending := some (.option o none) }

end Matches

namespace Grammar

/-- Splits a word at its first equals sign. -/
def splitEquals (cs : List Char) : String × Option String :=
  match cs.dropWhile (· != '=') with
  | [] => (String.ofList cs, none)
  | _ :: value => (String.ofList (cs.takeWhile (· != '=')), some (String.ofList value))

/-- Gives a long option, written after its two hyphens. -/
def long (g : Grammar) (m : Matches) (cs : List Char) : Except UsageError Matches :=
  let (name, attached) := splitEquals cs
  match g.options.find? (·.long == name) with
  | none => .error .unknownArgument
  | some o =>
    if attached.isSome && !o.action.takesValue then .error .tooManyValues else m.give o attached

/-- Gives the short options of a word, written after its hyphen. -/
def short (g : Grammar) (m : Matches) : List Char → Except UsageError Matches
  | [] => .ok m
  | c :: rest =>
    match g.options.find? (·.short == some c) with
    | none => .error .unknownArgument
    | some o =>
      if o.action.takesValue then
        match rest with
        | [] => m.give o none
        | '=' :: value => m.give o (some (String.ofList value))
        | value => m.give o (some (String.ofList value))
      else do g.short (← m.give o none) rest

/-- The error for a word that has no place. -/
def misplaced (g : Grammar) (word : String) (onlyPositional : Bool) : UsageError :=
  if g.subcommands.isEmpty || (onlyPositional && g.subcommands.contains word) then .unknownArgument
  else .invalidSubcommand

def place (g : Grammar) (m : Matches) (onlyPositional : Bool) (word : String) :
    Except UsageError Matches :=
  let isTaken := m.positional.isSome || match m.pending with
    | some (.positional ..) => true
    | _ => false
  match g.positional with
  | some check =>
    if isTaken then .error (g.misplaced word onlyPositional)
    else do return { ← m.settle with pending := some (.positional check word) }
  | none => .error (g.misplaced word onlyPositional)

/-- Tells the words of a command line apart, up to the first that names a subcommand. Answers the
subcommand with the words after it. -/
def read (g : Grammar) (m : Matches) (onlyPositional : Bool) :
    List String → Except UsageError (Matches × Option (String × List String))
  | [] => do return (← m.settle, none)
  | word :: words =>
    if onlyPositional then do g.read (← g.place m true word) true words
    else if m.awaiting.isNone && g.subcommands.contains word then do
      return (← m.settle, some (word, words))
    else match word.toList with
      | ['-', '-'] => g.read m true words
      | '-' :: '-' :: cs => do g.read (← g.long m cs) false words
      | '-' :: c :: cs => do g.read (← g.short m (c :: cs)) false words
      | _ =>
        match m.awaiting with
        | some o => g.read { m with pending := some (.option o (some word)) } false words
        | none => do g.read (← g.place m false word) false words

end Grammar
end PackageResolution.Arguments
