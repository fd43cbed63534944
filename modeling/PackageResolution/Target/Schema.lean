import PackageResolution.Target
import PackageResolution.Toml.Decode
/-!
# Targets in documents

A target's file has one section with the target's name, its architecture, and perhaps the packages
and features that it starts from. The architecture becomes a directory name, so it is not empty and
holds no separator.
-/
namespace PackageResolution.Target

/-- Why a text is no target. -/
inductive Error where
  | document (cause : DecodeError)
  | invalidArch (arch : String)
  deriving DecidableEq

def Error.message : Error → String
  | document (.misfit cause) => cause.message
  | document .notADocument => "not a TOML document"
  | invalidArch arch => "invalid architecture `" ++ arch ++ "`"

def record : Schema.Record Target where
  name := "Target"
  fields := [
    { name := "name", isRequired := true, read := fun v t => ({ t with name := · }) <$> Schema.text v },
    { name := "arch", isRequired := true, read := fun v t => ({ t with arch := · }) <$> Schema.text v },
    { name := "packages", isRequired := false,
      read := fun v t => ({ t with packages := · }) <$> Schema.list Schema.text v },
    { name := "features", isRequired := false,
      read := fun v t => ({ t with features := · }) <$> Schema.list Schema.text v }]
  initial := { name := "", arch := "" }

def fileRecord : Schema.Record Target where
  name := "TargetFile"
  fields := [{ name := "target", isRequired := true, read := fun v _ => record.read v }]
  initial := { name := "", arch := "" }

/-- Whether an architecture can name a directory. -/
def isArch (arch : String) : Bool := arch != "" && arch.toList.all fun c => c != '/' && c != '\\'

/-- Reads a target (`parse`). -/
def parse (text : String) : Except Error Target := do
  let t ← (Toml.decode fileRecord.read text).mapError .document
  if isArch t.arch then return t else throw (.invalidArch t.arch)

end PackageResolution.Target
