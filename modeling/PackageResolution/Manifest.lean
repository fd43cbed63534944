import PackageResolution.Package
import PackageResolution.Settings.Schema
import PackageResolution.Toml.Decode
/-!
# Package manifests

A package directory holds a manifest, `pkg.toml`: a section with the package's name and perhaps a
version and a description, and the package's settings.
-/
namespace PackageResolution

structure Manifest where
  name : String
  version : Option String := none
  description : Option String := none
  settings : Settings := {}
  deriving DecidableEq, Inhabited

namespace Manifest

def fileName : String := "pkg.toml"

/-- Why a text is no manifest. -/
inductive Error where
  | document (cause : DecodeError)
  | emptyName
  | invalidName (name : String)
  | emptySegment (name : String)
  | invalidVersion (version : String) (cause : Version.ParseError)
  deriving DecidableEq

def Error.message : Error → String
  | document (.misfit cause) => cause.message
  | document .notADocument => "not a TOML document"
  | emptyName => "package name cannot be empty"
  | invalidName name => "invalid package name `" ++ name ++ "`"
  | emptySegment name => "package name `" ++ name ++ "` has an empty path segment"
  | invalidVersion version cause => "invalid version `" ++ version ++ "`: " ++ cause.message

def headRecord : Schema.Record Manifest where
  name := "PackageMetadata"
  fields := [
    { name := "name", isRequired := true, read := fun v m => ({ m with name := · }) <$> Schema.text v },
    { name := "version", isRequired := false,
      read := fun v m => ({ m with version := some · }) <$> Schema.text v },
    { name := "description", isRequired := false,
      read := fun v m => ({ m with description := some · }) <$> Schema.text v }]
  initial := { name := "" }

def record : Schema.Record Manifest where
  name := "Manifest"
  fields := [
    { name := "package", isRequired := true,
      read := fun v m => ({ · with settings := m.settings }) <$> headRecord.read v },
    { name := "settings", isRequired := false,
      read := fun v m => ({ m with settings := · }) <$> Settings.ofValue v }]
  initial := { name := "" }

/-- The version, if there is one (`version`). -/
def parsedVersion (m : Manifest) : Except Error (Option Version) :=
  match m.version with
  | none => .ok none
  | some text =>
    match Version.parse text with
    | .ok v => .ok (some v)
    | .error cause => .error (.invalidVersion text cause)

/-- Whether a manifest may define a package: the name is a descriptor without repository, and the
version, if there is one, can be read (`validate`). -/
def validate (m : Manifest) : Except Error Unit := do
  if m.name = "" then throw .emptyName
  if m.name.toList.head? = some '@' ∨ m.name.toList.any Text.isBlank then throw (.invalidName m.name)
  if Text.hasEmptySegment m.name then throw (.emptySegment m.name)
  let _ ← m.parsedVersion

/-- Reads a manifest (`parse`). -/
def parse (text : String) : Except Error Manifest := do
  let m ← (Toml.decode record.read text).mapError .document
  m.validate
  return m

/-- The package that a manifest defines (`from_manifest`). -/
def toPackage (m : Manifest) (repo : String) (base : Path) : Except Error Package := do
  return { name := m.name, repo, base, version := ← m.parsedVersion, settings := m.settings }

end Manifest
end PackageResolution
