import PackageResolution.Arguments.Command
import PackageResolution.Document.Json
import PackageResolution.Resolution
import PackageResolution.Session.Tree
/-!
# Running commands

What each command prints, and what is shown of an error.
-/
namespace PackageResolution

namespace Commands

open Arguments

/-- What a command that resolves a target asks for, with packages to build besides the target's
(`options`). -/
def options (args : TargetArgs) (packages : List String) : Options where
  target := args.target
  features := args.features
  packages := packages
  verifyCaps := if args.noVerifyCaps then some false else none

def words (ws : List String) : String := " ".intercalate ws

def lines (ls : List String) : String := String.join (ls.map (· ++ "\n"))

/-- A report as it is read on a terminal. -/
def reportText (r : Report) : String :=
  lines <|
    ["Resolved target `" ++ r.target ++ "` (" ++ r.arch ++ ") in " ++ toString r.passes ++ " passes",
      "", "Packages (" ++ toString r.packages.length ++ "):"] ++
    r.packages.map ("  " ++ ·) ++
    ["", "Features: " ++ if r.features.isEmpty then "(none)" else words r.features]

/-- Compiler information in the form asked for. -/
def flagsText (package : String) (ci : CompilerInfo) : FlagsForm → Except ProjectError String
  | .json =>
    match ci.toValue? with
    | some v => .ok (lines [v.toJson])
    | none => .error .pathNotText
  | .compile => .ok (lines [words ci.compileArgs])
  | .link => .ok (lines [words ci.lflags])
  | .full =>
    .ok <| lines <|
      ["# Compiler info for `" ++ package ++ "`:", "cflags: " ++ words ci.cflags,
        "lflags: " ++ words ci.lflags, "aflags: " ++ words ci.aflags, "includes:"] ++
      ci.includes.map (fun dir => "  " ++ dir.text) ++
      ["fingerprint: " ++ ci.shortFingerprint]

/-- What `flags` prints for a resolution: the flags of its first root. -/
def printFlags (form : FlagsForm) (r : Resolution) : Except ProjectError String :=
  match r.roots with
  | [] => .ok ""
  | id :: _ =>
    match r.session.compilerInfo r.project.registry id with
    | (.error e, _) => .error (.resolution e)
    | (.ok ci, s) => flagsText (((s.member? id).map Member.display).getD "") ci form

/-- What `tree` prints for a resolution: the tree of its first root (`print_tree`). -/
def printTree (depth : Option Nat) (r : Resolution) : String :=
  match r.roots with
  | [] => ""
  | id :: _ => lines ((r.session.tree r.project.registry id depth).map TreeLine.text)

/-- Runs a command (`run`): what it prints, or why it fails. The warnings stand beside it. -/
def run (t : FileTree) (c : Context) : Command → Except ProjectError String × List String
  | .resolve args json =>
    let (result, warnings) := Resolution.resolveHere t c (options args [])
    (result.map fun r =>
      if json then lines [r.report.toValue.toJson] else reportText r.report, warnings)
  | .flags package args form =>
    let (result, warnings) := Resolution.resolveHere t c (options args [package])
    (result.bind (printFlags form), warnings)
  | .tree package args depth =>
    let (result, warnings) := Resolution.resolveHere t c (options args [package])
    (result.map (printTree depth), warnings)
  | .completions _ => (.ok "", [])

/-- What is shown of an error (`report`). -/
def errorText (coloured : Bool) : ProjectError → String
  | .resolution e => e.diagnostic.format coloured
  | .unknownPackage e =>
    "error: " ++ e.message ++ "\n" ++ ((e.help.map fun hint => "help: " ++ hint ++ "\n").getD "")
  | e => "error: " ++ e.message ++ "\n"

end Commands
end PackageResolution
