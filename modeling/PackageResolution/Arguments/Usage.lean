import PackageResolution.Arguments.Command
/-!
# Usage texts

What is shown of a command line that cannot be run.
-/
namespace PackageResolution.Arguments

def programName : String := "keelson"

def programVersion : String := "0.1.0"

def UsageError.message : UsageError → String
  | missingRequiredArgument => "a required argument is missing"
  | unknownArgument => "an argument was not expected"
  | argumentConflict => "an argument cannot be used with one of the others, or not twice"
  | valueValidation => "the value of an option is not valid"
  | invalidValue => "a value is missing, or none of those that are possible"
  | invalidSubcommand => "there is no such command"
  | tooManyValues => "an option was given a value that it does not take"
  | missingSubcommand => "a command is required"
  | helpForNothing => "a command is required"
  | displayHelp => "help was asked for"
  | displayVersion => "the version was asked for"

/-- The commands with their arguments, a line each. -/
def usage : String :=
  String.join <|
    [ "Usage: " ++ programName ++ " [--verbose] [--no-color] COMMAND\n", "\n", "Commands:\n",
      "  resolve [TARGET OPTIONS] [--json]\n",
      "  flags [TARGET OPTIONS] [--compile | --link | --json] PACKAGE\n",
      "  tree [TARGET OPTIONS] [--depth DEPTH] PACKAGE\n",
      "  completions SHELL\n",
      "\n", "Target options:\n",
      "  -t, --target TARGET    the target to resolve\n",
      "  -F, --feature FEATURE  a feature to enable besides; may be repeated\n",
      "  --no-verify-caps       leave required capabilities unchecked\n" ]

/-- What is shown of a refused command line, or of one that asks for help. -/
def UsageError.text : UsageError → String
  | displayHelp => usage
  | helpForNothing => usage
  | displayVersion => programName ++ " " ++ programVersion ++ "\n"
  | e => "error: " ++ e.message ++ "\n\n" ++ usage

/-- Whether a text is what was asked for, and so goes to standard output. -/
def UsageError.isAnswer (e : UsageError) : Bool := e.exitCode == 0

end PackageResolution.Arguments
