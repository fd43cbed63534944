import PackageResolution.Descriptor
import PackageResolution.Diagnostic
/-!
# Resolution errors

What can go wrong while packages are resolved. Every error names the package it was raised for; the
dependencies that a target names are raised for the target.
-/
namespace PackageResolution

/-- An error of a resolution session. -/
inductive ResolutionError where
  /-- A package declares a dependency that cannot be read. -/
  | malformedDependency (package entry : String) (cause : Descriptor.ParseError)
  /-- A package depends on one that the registry does not know. -/
  | unresolvedDependency (package dependency : String)
  /-- A package takes no part in the session. -/
  | notRegistered (package : String)
  /-- Flags were asked for before the package was loaded. -/
  | notLoaded (package : String)
  /-- A required capability is provided by no package. -/
  | missingCapability (package capability : String)
  deriving DecidableEq

namespace ResolutionError

/-- The package that the error was raised for (`package`). -/
def package : ResolutionError → String
  | malformedDependency package _ _ => package
  | unresolvedDependency package _ => package
  | notRegistered package => package
  | notLoaded package => package
  | missingCapability package _ => package

def message : ResolutionError → String
  | malformedDependency package entry cause =>
    "malformed dependency `" ++ entry ++ "` in package `" ++ package ++ "`: " ++ cause.message
  | unresolvedDependency package dependency =>
    "could not resolve dependency `" ++ dependency ++ "` of package `" ++ package ++ "`"
  | notRegistered package => "package `" ++ package ++ "` is not registered with the builder"
  | notLoaded package =>
    "package `" ++ package ++ "` must be loaded before its compiler info is fetched"
  | missingCapability package capability =>
    "package `" ++ package ++ "` requires capability `" ++ capability ++
      "`, which no package provides"

/-- The error as it is shown on a terminal (`to_diagnostic`). -/
def diagnostic : ResolutionError → Diagnostic
  | malformedDependency package entry cause =>
    { message := "malformed dependency `" ++ entry ++ "`"
      context := ["declared by `" ++ package ++ "`", cause.message]
      suggestions := ["Write dependencies as `path/to/pkg` or `@repo/path/to/pkg`"] }
  | unresolvedDependency package dependency =>
    { message := "could not resolve dependency `" ++ dependency ++ "`"
      context := ["required by `" ++ package ++ "`"]
      suggestions :=
        ["Check that the package name is spelled correctly",
          "Ensure the repository is listed under [repositories] in project.toml"] }
  | notRegistered package =>
    { message := "package `" ++ package ++ "` is not part of this build"
      context := ["the package was resolved but never registered with the builder"] }
  | notLoaded package =>
    { message := "compiler info requested for `" ++ package ++ "` before resolution finished"
      suggestions := ["Run resolution to convergence before assembling compiler info"] }
  | missingCapability package capability =>
    { message := "missing capability `" ++ capability ++ "`"
      context := ["required by `" ++ package ++ "`"]
      suggestions :=
        ["Add a dependency on a package that lists `" ++ capability ++ "` in its caps"] }

end ResolutionError
end PackageResolution
