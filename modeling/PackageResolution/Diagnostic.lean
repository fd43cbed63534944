import PackageResolution.Path
import PackageResolution.Text.Segments
/-!
# Diagnostics

Messages for the reader of a terminal: what went wrong, where, in which context, and what may help.
-/
namespace PackageResolution

inductive Severity where
  | error
  | warning
  deriving DecidableEq

def Severity.name : Severity → String
  | error => "error"
  | warning => "warning"

def Severity.colour : Severity → String
  | error => "31"
  | warning => "33"

/-- A message with its context and suggestions. -/
structure Diagnostic where
  severity : Severity := .error
  message : String
  location : Option Path := none
  context : List String := []
  suggestions : List String := []

namespace Diagnostic

def paint (coloured : Bool) (colour text : String) : String :=
  if coloured then "\x1b[1;" ++ colour ++ "m" ++ text ++ "\x1b[0m" else text

/-- The suggestions, counted from one. -/
def numbered (suggestions : List String) : String :=
  String.join (suggestions.zipIdx.map fun (s, i) => "  " ++ toString (i + 1) ++ ". " ++ s ++ "\n")

/-- The text of a diagnostic: the message, the location, the context a line each, and after an empty
line the suggestions (`format`). -/
def format (d : Diagnostic) (coloured : Bool) : String :=
  paint coloured d.severity.colour d.severity.name ++ ": " ++ d.message ++ "\n" ++
    String.join (d.location.toList.map fun p => "  --> " ++ p.text ++ "\n") ++
    String.join (d.context.map fun line => "  → " ++ line ++ "\n") ++
    if d.suggestions.isEmpty then ""
    else "\n" ++ paint coloured "32" "help" ++ ": consider:\n" ++ numbered d.suggestions

end Diagnostic

/-- A package that was asked for by name and is not in the project. -/
structure UnknownPackage where
  package : String
  project : String
  /-- The names in the project whose last segment is that of the name asked for. -/
  similar : List String
  deriving DecidableEq

namespace UnknownPackage

/-- The error for a name, with the known names that resemble it (`new`). -/
def ofKnown (package project : String) (known : List String) : UnknownPackage :=
  ⟨package, project, known.filter fun name => Text.lastSegment name == Text.lastSegment package⟩

def message (e : UnknownPackage) : String :=
  "could not find package `" ++ e.package ++ "` in project `" ++ e.project ++ "`"

/-- The hint that goes with the error, if there is a name to suggest. -/
def help (e : UnknownPackage) : Option String :=
  if e.similar.isEmpty then none else some ("did you mean: " ++ ", ".intercalate e.similar)

/-- The code by which the error is looked up. -/
def code : String := "keelson::resolve::not_found"

end UnknownPackage
end PackageResolution
