import PackageResolution.Descriptor
import PackageResolution.Toml.Decode
/-!
# Project files

The root of a project holds `project.toml`: a section with the project's name, and perhaps a table of
the directories of further repositories.
-/
namespace PackageResolution

structure ProjectFile where
  name : String
  /-- The directories of the repositories, from the project's root. -/
  repositories : NameMap Path := .empty
  deriving DecidableEq

namespace ProjectFile

def fileName : String := "project.toml"

/-- Why a text is no project file. -/
inductive Error where
  | document (cause : DecodeError)
  /-- A repository has the name that the project itself has. -/
  | reservedRepository
  deriving DecidableEq

def headRecord : Schema.Record String where
  name := "ProjectMetadata"
  fields := [{ name := "name", isRequired := true, read := fun v _ => Schema.text v }]
  initial := ""

def record : Schema.Record ProjectFile where
  name := "ProjectManifest"
  fields := [
    { name := "project", isRequired := true,
      read := fun v f => ({ f with name := · }) <$> headRecord.read v },
    { name := "repositories", isRequired := false,
      read := fun v f => ({ f with repositories := · }) <$> Schema.map Schema.path v }]
  initial := { name := "" }

/-- Reads a project file (`load`). -/
def parse (text : String) : Except Error ProjectFile := do
  let f ← (Toml.decode record.read text).mapError .document
  if f.repositories.contains Descriptor.localRepo then throw .reservedRepository else return f

end ProjectFile
end PackageResolution
